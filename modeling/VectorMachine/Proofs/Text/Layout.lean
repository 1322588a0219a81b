import VectorMachine.Proofs.Text.Fields

namespace VectorMachine.Text

inductive Spaced (sep : Char → Bool) : List (List Char × List Char) → Prop where
  | nil : Spaced sep []
  | cons {word gap : List Char} {row : List (List Char × List Char)} (hne : word ≠ [])
      (hword : ∀ c ∈ word, sep c = false) (hgap : ∀ c ∈ gap, sep c = true)
      (hapart : gap = [] → row = []) (hrow : Spaced sep row) : Spaced sep ((word, gap) :: row)

structure Layout (sep : Char → Bool) where
  front : List Char
  row : List (List Char × List Char)
  front_sep : ∀ c ∈ front, sep c = true
  spaced : Spaced sep row

variable {sep : Char → Bool}

namespace Layout

def body (row : List (List Char × List Char)) : List Char :=
  row.flatMap fun e => e.1 ++ e.2

def text (l : Layout sep) : List Char := l.front ++ body l.row

def words (l : Layout sep) : List (List Char) := l.row.map Prod.fst

theorem body_cons (word gap : List Char) (row : List (List Char × List Char)) :
    body ((word, gap) :: row) = word ++ gap ++ body row := rfl

end Layout

section Gaps

variable {gap : List Char} (h : ∀ c ∈ gap, sep c = true)
include h

theorem fields_append_of_front (cs : List Char) : fields sep (gap ++ cs) = fields sep cs := by
  induction gap with
  | nil => rfl
  | cons c gap ih =>
      obtain ⟨hc, hgap⟩ := List.forall_mem_cons.1 h
      rw [List.cons_append, fields_cons_of_sep hc, ih hgap]

theorem fields_append_of_gap (hne : gap ≠ []) (first rest : List Char) :
    fields sep (first ++ gap ++ rest) = fields sep first ++ fields sep rest := by
  cases gap with
  | nil => exact absurd rfl hne
  | cons c gap =>
      obtain ⟨hc, hgap⟩ := List.forall_mem_cons.1 h
      rw [List.append_assoc, List.cons_append, fields_append_cons hc, fields_append_of_front hgap]

end Gaps

theorem Spaced.fields_body {row : List (List Char × List Char)} (h : Spaced sep row) :
    fields sep (Layout.body row) = row.map Prod.fst := by
  induction h with
  | nil => rfl
  | @cons word gap row hne hword hgap hapart _ ih =>
      have hfirst : fields sep word = [word] := fields_eq_singleton hne hword
      rw [Layout.body_cons, List.map_cons]
      by_cases hnil : gap = []
      · rw [hapart hnil, hnil, List.append_nil]
        exact (congrArg (fields sep) (List.append_nil word)).trans hfirst
      · rw [fields_append_of_gap hgap hnil, hfirst, ih]
        rfl

namespace Layout

theorem fields_text (l : Layout sep) : fields sep l.text = l.words := by
  rw [text, fields_append_of_front l.front_sep, l.spaced.fields_body, words]

theorem exists_text_eq_cons (l : Layout sep) (c : Char) :
    ∃ k : Layout sep, k.text = c :: l.text := by
  obtain ⟨front, row, hfront, hspaced⟩ := l
  cases hc : sep c with
  | true => exact ⟨⟨c :: front, row, List.forall_mem_cons.2 ⟨hc, hfront⟩, hspaced⟩, rfl⟩
  | false =>
      have halone : ∀ d ∈ [c], sep d = false := by simpa using hc
      by_cases hopen : front = [] → row = []
      · have hrow := Spaced.cons (List.cons_ne_nil c []) halone hfront hopen hspaced
        exact ⟨⟨[], _, List.forall_mem_nil _, hrow⟩, rfl⟩
      · obtain ⟨rfl, hne⟩ := Classical.not_imp.1 hopen
        cases hspaced with
        | nil => exact absurd rfl hne
        | @cons word gap row _ hword hgap hapart hrow =>
            have hlonger : ∀ d ∈ c :: word, sep d = false := List.forall_mem_cons.2 ⟨hc, hword⟩
            have hrow := Spaced.cons (List.cons_ne_nil c word) hlonger hgap hapart hrow
            exact ⟨⟨[], _, List.forall_mem_nil _, hrow⟩, rfl⟩

variable (sep) in
theorem exists_text_eq (cs : List Char) : ∃ l : Layout sep, l.text = cs := by
  -- from the end, since a new character touches the front of a layout only
  induction cs with
  | nil => exact ⟨⟨[], [], List.forall_mem_nil _, .nil⟩, rfl⟩
  | cons c cs ih =>
      obtain ⟨l, rfl⟩ := ih
      exact l.exists_text_eq_cons c

end Layout

theorem fields_eq_iff {cs : List Char} {words : List (List Char)} :
    fields sep cs = words ↔ ∃ l : Layout sep, l.text = cs ∧ l.words = words := by
  constructor
  · rintro rfl
    obtain ⟨l, rfl⟩ := Layout.exists_text_eq sep cs
    exact ⟨l, rfl, l.fields_text.symm⟩
  · rintro ⟨l, rfl, rfl⟩
    exact l.fields_text

end VectorMachine.Text
