import VectorMachine.Text.Blank

namespace VectorMachine.Text

def cut (sep : Char → Bool) (c : Char) (pieces : List (List Char)) : List (List Char) :=
  if sep c then [] :: pieces
  else match pieces with
    | [] => [[c]]
    | piece :: rest => (c :: piece) :: rest

def pieces (sep : Char → Bool) (cs : List Char) : List (List Char) :=
  cs.foldr (cut sep) [[]]

theorem pieces_nil (sep : Char → Bool) : pieces sep [] = [[]] := rfl

theorem pieces_cons (sep : Char → Bool) (c : Char) (cs : List Char) :
    pieces sep (c :: cs) = cut sep c (pieces sep cs) := rfl

theorem pieces_ne_nil (sep : Char → Bool) (cs : List Char) : pieces sep cs ≠ [] := by
  cases cs with
  | nil => simp [pieces_nil]
  | cons c cs =>
      rw [pieces_cons]
      unfold cut
      split
      · simp
      · split <;> simp

def fields (sep : Char → Bool) (cs : List Char) : List (List Char) :=
  (pieces sep cs).filter fun piece => !piece.isEmpty

end VectorMachine.Text
