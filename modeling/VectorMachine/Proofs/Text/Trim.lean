import Mathlib.Data.List.DropRight
import VectorMachine.Text.Blank

namespace VectorMachine.Text

theorem trim_prefix_dropWhile (cs : List Char) : trim cs <+: cs.dropWhile isBlank :=
  List.rdropWhile_prefix isBlank _

theorem mem_of_mem_trim {c : Char} {cs : List Char} (h : c ∈ trim cs) : c ∈ cs := by
  apply (List.dropWhile_suffix isBlank).subset
  exact (trim_prefix_dropWhile cs).subset h

theorem dropWhile_trim (cs : List Char) : (trim cs).dropWhile isBlank = trim cs := by
  have hprefix := trim_prefix_dropWhile cs
  cases htrim : trim cs with
  | nil => rfl
  | cons c rest =>
      rw [htrim] at hprefix
      obtain ⟨tail, htail⟩ := hprefix
      have hne : cs.dropWhile isBlank ≠ [] := by
        rw [← htail]
        exact List.cons_ne_nil _ _
      have hc := List.head_dropWhile_not isBlank hne
      simp only [← htail, List.cons_append, List.head_cons] at hc
      exact List.dropWhile_cons_of_neg (Bool.eq_false_iff.1 hc)

theorem trim_trim (cs : List Char) : trim (trim cs) = trim cs := by
  have hlast : (trim cs).rdropWhile isBlank = trim cs := List.rdropWhile_idempotent isBlank _
  calc trim (trim cs)
      = ((trim cs).dropWhile isBlank).rdropWhile isBlank := rfl
    _ = trim cs := by rw [dropWhile_trim, hlast]

theorem trim_eq_self {cs : List Char} (h : ∀ c ∈ cs, isBlank c = false) : trim cs = cs := by
  have hfirst : cs.dropWhile isBlank = cs := by
    rw [List.dropWhile_eq_self_iff]
    intro hpos
    simp [h _ (List.getElem_mem hpos)]
  have hlast : cs.rdropWhile isBlank = cs := by
    rw [List.rdropWhile_eq_self_iff]
    intro hne
    simp [h _ (List.getLast_mem hne)]
  calc trim cs
      = (cs.dropWhile isBlank).rdropWhile isBlank := rfl
    _ = cs := by rw [hfirst, hlast]

end VectorMachine.Text
