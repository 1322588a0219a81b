import VectorMachine.Text.Pieces

namespace VectorMachine.Text

variable {sep : Char → Bool}

theorem pieces_eq_splitOnP (sep : Char → Bool) (cs : List Char) :
    pieces sep cs = cs.splitOnP sep := by
  induction cs with
  | nil => rfl
  | cons c cs ih =>
      rw [pieces_cons, ih, List.splitOnP_cons_eq_if_modifyHead]
      cases h : cs.splitOnP sep with
      | nil => exact absurd h (List.splitOnP_ne_nil sep cs)
      | cons piece rest => rfl

theorem not_sep_of_mem_pieces {piece : List Char} {cs : List Char} (h : piece ∈ pieces sep cs) :
    ∀ c ∈ piece, sep c = false := by
  induction cs generalizing piece with
  | nil =>
      obtain rfl : piece = [] := by simpa [pieces_nil] using h
      exact List.forall_mem_nil _
  | cons c cs ih =>
      rw [pieces_cons] at h
      unfold cut at h
      split at h
      · rcases List.mem_cons.1 h with rfl | h
        · exact List.forall_mem_nil _
        · exact ih h
      · rename_i hc
        have hc : sep c = false := Bool.eq_false_iff.2 hc
        cases hps : pieces sep cs with
        | nil => exact absurd hps (pieces_ne_nil sep cs)
        | cons first rest =>
            rw [hps] at h ih
            rcases List.mem_cons.1 h with rfl | h
            · exact List.forall_mem_cons.2 ⟨hc, ih List.mem_cons_self⟩
            · exact ih (List.mem_cons_of_mem first h)

theorem flatten_pieces (cs : List Char) :
    (pieces sep cs).flatten = cs.filter fun c => !sep c := by
  induction cs with
  | nil => rfl
  | cons c cs ih =>
      rw [pieces_cons, List.filter_cons, ← ih]
      cases hc : sep c with
      | true => simp [cut, hc]
      | false => cases pieces sep cs <;> simp [cut, hc]

theorem flatten_fields (cs : List Char) : (fields sep cs).flatten = cs.filter fun c => !sep c := by
  rw [fields, List.flatten_filter_not_isEmpty, flatten_pieces]

theorem fields_nil (sep : Char → Bool) : fields sep [] = [] := rfl

theorem fields_append_cons {c : Char} (h : sep c = true) (first rest : List Char) :
    fields sep (first ++ c :: rest) = fields sep first ++ fields sep rest := by
  simp only [fields, pieces_eq_splitOnP, List.splitOnP_append_cons _ _ h, List.filter_append]

theorem fields_cons_of_sep {c : Char} (h : sep c = true) (cs : List Char) :
    fields sep (c :: cs) = fields sep cs := by
  rw [← List.nil_append (c :: cs), fields_append_cons h, fields_nil, List.nil_append]

theorem fields_cons_ne_nil {c : Char} (h : sep c = false) (cs : List Char) :
    fields sep (c :: cs) ≠ [] := by
  rw [fields, pieces_cons]
  cases pieces sep cs <;> simp [cut, h]

theorem fields_eq_nil_iff {cs : List Char} : fields sep cs = [] ↔ ∀ c ∈ cs, sep c = true := by
  induction cs with
  | nil => simp [fields_nil]
  | cons c cs ih =>
      cases h : sep c with
      | true => rw [fields_cons_of_sep h, ih, List.forall_mem_cons, h, eq_self, true_and]
      | false => simp [fields_cons_ne_nil h, h]

theorem fields_eq_singleton {cs : List Char} (hne : cs ≠ []) (h : ∀ c ∈ cs, sep c = false) :
    fields sep cs = [cs] := by
  have hp : cs.splitOnP sep = [cs] := List.splitOnP_eq_singleton fun c hc => by simp [h c hc]
  simp [fields, pieces_eq_splitOnP, hp, hne]

end VectorMachine.Text
