import VectorMachine.Assembly
import VectorMachine.Proofs.Text.Fields

namespace VectorMachine.Assembly

inductive Stands (source : String) : Nat → List Char → Prop where
  | row {i : Nat} {cs : List Char} (h : (source.toList.splitOn '\n')[i]? = some cs) :
      Stands source (i + 1) (Text.trim (cs.takeWhile fun c => c ≠ ';' ∧ c ≠ '#'))

def Labels (source : String) (number : Nat) (name : String) : Prop :=
  ∃ head rest, Stands source number (head ++ ':' :: rest) ∧ ':' ∉ head ∧
    name = String.ofList (Text.trim head) ∧ Token.isIdentifier (Text.trim head) = true

inductive Instructs (source : String) (number : Nat) : String → Prop where
  | behind {head rest : List Char} (h : Stands source number (head ++ ':' :: rest))
      (hc : ':' ∉ head) (hid : Token.isIdentifier (Text.trim head) = true) :
      Instructs source number (String.ofList (Text.trim rest))
  | whole {text : List Char} (h : Stands source number text)
      (hno : ∀ name, ¬ Labels source number name) : Instructs source number (String.ofList text)

namespace Line

theorem content_eq (cs : List Char) :
    content cs = Text.trim (cs.takeWhile fun c => c ≠ ';' ∧ c ≠ '#') := by
  have hp : (fun c => !opensComment c) = fun c => decide (c ≠ ';' ∧ c ≠ '#') := by
    funext c
    rw [Bool.eq_iff_iff]
    simp [opensComment]
  rw [content, hp]

section Colon

variable {head : List Char} (h : ':' ∉ head) (rest : List Char)

include h

theorem ne_colon : ∀ c ∈ head, (c != ':') = true := by
  intro c hc
  have hne : c ≠ ':' := fun he => h (he ▸ hc)
  simpa using hne

theorem takeWhile_colon : (head ++ ':' :: rest).takeWhile (fun c => c != ':') = head := by
  rw [List.takeWhile_append_of_pos (ne_colon h)]
  simp

theorem dropWhile_colon : (head ++ ':' :: rest).dropWhile (fun c => c != ':') = ':' :: rest := by
  rw [List.dropWhile_append_of_pos (ne_colon h)]
  simp

end Colon

theorem labelName?_eq_some_iff {text name : List Char} : labelName? text = some name ↔
    ∃ head rest, text = head ++ ':' :: rest ∧ ':' ∉ head ∧ name = Text.trim head ∧
      Token.isIdentifier (Text.trim head) = true := by
  constructor
  · intro h
    simp only [labelName?, Bool.and_eq_true, List.contains_iff_mem] at h
    split at h
    · rename_i hc
      obtain ⟨head, rest, rfl, hhead⟩ := List.eq_append_cons_of_mem hc.1
      rw [takeWhile_colon hhead] at h hc
      exact ⟨head, rest, rfl, hhead, (Option.some.inj h).symm, hc.2⟩
    · cases h
  · rintro ⟨head, rest, rfl, hhead, rfl, hid⟩
    simp [labelName?, takeWhile_colon hhead, hid]

theorem number_read (n : Nat) (cs : List Char) : (read n cs).number = n := by
  unfold read
  dsimp only
  split <;> rfl

theorem label_read (n : Nat) (cs : List Char) :
    (read n cs).label = (labelName? (content cs)).map String.ofList := by
  unfold read
  dsimp only
  split <;> rename_i h <;> rw [h] <;> rfl

theorem getD_nonempty (cs : List Char) : (nonempty cs).getD "" = String.ofList cs := by
  cases cs <;> rfl

def text (l : Line) : String := l.body.getD ""

theorem text_read (n : Nat) (cs : List Char) :
    nonempty (read n cs).text.toList = (read n cs).body := by
  unfold read
  dsimp only
  split <;> simp only [text, getD_nonempty, String.toList_ofList]

theorem body_read_eq_some_iff {n : Nat} {cs : List Char} {body : String} :
    (read n cs).body = some body ↔ (read n cs).text = body ∧ body ≠ "" := by
  rw [← text_read, nonempty]
  split
  · rename_i h
    have hnil : (read n cs).text = "" := by simpa using h
    simp [hnil, eq_comm]
  · rename_i h
    have hne : (read n cs).text ≠ "" := by simpa using h
    simp only [String.ofList_toList, Option.some.injEq]
    constructor
    · rintro rfl
      exact ⟨rfl, hne⟩
    · exact And.left

theorem text_read_of_label {n : Nat} {cs head rest : List Char}
    (hcs : content cs = head ++ ':' :: rest) (h : ':' ∉ head)
    (hid : Token.isIdentifier (Text.trim head) = true) :
    (read n cs).text = String.ofList (Text.trim rest) := by
  have hname : labelName? (head ++ ':' :: rest) = some (Text.trim head) :=
    labelName?_eq_some_iff.2 ⟨head, rest, rfl, h, rfl, hid⟩
  simp only [read, hcs, hname, text, dropWhile_colon h, List.drop_succ_cons, List.drop_zero,
    getD_nonempty]

theorem text_read_of_none {n : Nat} {cs : List Char} (h : labelName? (content cs) = none) :
    (read n cs).text = String.ofList (content cs) := by
  simp only [read, h, text, getD_nonempty]

end Line

section Source

variable {source : String}

theorem getElem?_linesOf (source : String) (i : Nat) : (linesOf source)[i]? =
    ((source.toList.splitOn '\n')[i]?).map fun cs => Line.read (i + 1) cs := by
  have hsplit : Text.pieces (fun c => c == '\n') source.toList = source.toList.splitOn '\n' :=
    Text.pieces_eq_splitOnP _ _
  rw [linesOf, hsplit, List.getElem?_mapIdx]

theorem mem_linesOf_iff {l : Line} : l ∈ linesOf source ↔
    ∃ i cs, (source.toList.splitOn '\n')[i]? = some cs ∧ l = Line.read (i + 1) cs := by
  simp only [List.mem_iff_getElem?, getElem?_linesOf, Option.map_eq_some_iff, eq_comm (a := l)]

theorem stands_iff {n : Nat} {text : List Char} : Stands source n text ↔
    ∃ i cs, (source.toList.splitOn '\n')[i]? = some cs ∧ n = i + 1 ∧ text = Line.content cs := by
  constructor
  · intro h
    cases h with
    | row h => exact ⟨_, _, h, rfl, (Line.content_eq _).symm⟩
  · rintro ⟨i, cs, h, rfl, rfl⟩
    rw [Line.content_eq]
    exact .row h

theorem Labels.exists_row {n : Nat} {name : String} (h : Labels source n name) :
    ∃ i cs, (source.toList.splitOn '\n')[i]? = some cs ∧ n = i + 1 := by
  obtain ⟨head, rest, hs, -⟩ := h
  obtain ⟨i, cs, hcs, hn, -⟩ := stands_iff.1 hs
  exact ⟨i, cs, hcs, hn⟩

theorem labels_row {i : Nat} {cs : List Char} (h : (source.toList.splitOn '\n')[i]? = some cs)
    {name : String} : Labels source (i + 1) name ↔ (Line.read (i + 1) cs).label = some name := by
  rw [Line.label_read, Option.map_eq_some_iff]
  constructor
  · rintro ⟨head, rest, hs, hhead, rfl, hid⟩
    obtain ⟨j, ds, hds, hij, htext⟩ := stands_iff.1 hs
    obtain rfl := Nat.succ.inj hij
    obtain rfl := Option.some.inj (h.symm.trans hds)
    exact ⟨_, Line.labelName?_eq_some_iff.2 ⟨head, rest, htext.symm, hhead, rfl, hid⟩, rfl⟩
  · rintro ⟨head', hname, rfl⟩
    obtain ⟨head, rest, htext, hhead, rfl, hid⟩ := Line.labelName?_eq_some_iff.1 hname
    exact ⟨head, rest, stands_iff.2 ⟨i, cs, h, rfl, htext.symm⟩, hhead, rfl, hid⟩

theorem labels_iff {n : Nat} {name : String} : Labels source n name ↔
    ∃ l ∈ linesOf source, l.number = n ∧ l.label = some name := by
  constructor
  · intro h
    obtain ⟨i, cs, hcs, rfl⟩ := h.exists_row
    exact ⟨_, mem_linesOf_iff.2 ⟨i, cs, hcs, rfl⟩, Line.number_read _ _, (labels_row hcs).1 h⟩
  · rintro ⟨l, hl, rfl, hname⟩
    obtain ⟨i, cs, hcs, rfl⟩ := mem_linesOf_iff.1 hl
    rw [Line.number_read]
    exact (labels_row hcs).2 hname

theorem instructs_iff {n : Nat} {text : String} : Instructs source n text ↔
    ∃ l ∈ linesOf source, l.number = n ∧ l.text = text := by
  constructor
  · intro h
    cases h with
    | behind hs hhead hid =>
        obtain ⟨i, cs, hcs, rfl, htext⟩ := stands_iff.1 hs
        exact ⟨_, mem_linesOf_iff.2 ⟨i, cs, hcs, rfl⟩, Line.number_read _ _,
          Line.text_read_of_label htext.symm hhead hid⟩
    | whole hs hno =>
        obtain ⟨i, cs, hcs, rfl, rfl⟩ := stands_iff.1 hs
        have hnone : (Line.read (i + 1) cs).label = none :=
          Option.eq_none_iff_forall_ne_some.2 fun name hname => hno name ((labels_row hcs).2 hname)
        rw [Line.label_read, Option.map_eq_none_iff] at hnone
        exact ⟨_, mem_linesOf_iff.2 ⟨i, cs, hcs, rfl⟩, Line.number_read _ _,
          Line.text_read_of_none hnone⟩
  · rintro ⟨l, hl, rfl, rfl⟩
    obtain ⟨i, cs, hcs, rfl⟩ := mem_linesOf_iff.1 hl
    have hs := stands_iff.2 ⟨i, cs, hcs, rfl, rfl⟩
    rw [Line.number_read]
    cases hname : Line.labelName? (Line.content cs) with
    | none =>
        rw [Line.text_read_of_none hname]
        refine .whole hs fun name h => ?_
        rw [labels_row hcs, Line.label_read, hname] at h
        cases h
    | some name =>
        obtain ⟨head, rest, htext, hhead, -, hid⟩ := Line.labelName?_eq_some_iff.1 hname
        rw [Line.text_read_of_label htext hhead hid]
        exact .behind (htext ▸ hs) hhead hid

theorem pairwise_number_linesOf (source : String) :
    (linesOf source).Pairwise fun a b => a.number < b.number := by
  have hnumber {i : Nat} (hi : i < (linesOf source).length) :
      (linesOf source)[i].number = i + 1 := by
    have h := getElem?_linesOf source i
    rw [List.getElem?_eq_getElem hi] at h
    obtain ⟨cs, -, hl⟩ := Option.map_eq_some_iff.1 h.symm
    rw [← hl, Line.number_read]
  rw [List.pairwise_iff_getElem]
  intro i j hi hj hij
  rw [hnumber hi, hnumber hj]
  exact Nat.succ_lt_succ hij

end Source

end VectorMachine.Assembly
