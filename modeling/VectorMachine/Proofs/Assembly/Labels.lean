import VectorMachine.Proofs.Assembly.Lines

namespace VectorMachine.Assembly

theorem find?_add (t : Layout) (l : Line) (name : String) :
    (t.add l).definitions.find? name = (t.definitions.find? name).or
      (if l.label = some name then some ⟨l.number, t.count⟩ else none) := by
  cases hl : l.label with
  | none => simp [Layout.add, hl]
  | some other =>
      have hadd : (t.add l).definitions = t.definitions.insertNew other ⟨l.number, t.count⟩ := by
        simp only [Layout.add, hl]
      rw [hadd, NameMap.find?_insertNew]
      simp only [Option.some.injEq, eq_comm]

theorem line_find?_add (t : Layout) (l : Line) (name : String) :
    ((t.add l).definitions.find? name).map Definition.line =
      ((t.definitions.find? name).map Definition.line).or
        (if l.label = some name then some l.number else none) := by
  rw [find?_add, Option.map_or]
  split <;> rfl

theorem line_find?_foldl (lines : List Line) (t : Layout) (name : String) :
    ((lines.foldl Layout.add t).definitions.find? name).map Definition.line =
      ((t.definitions.find? name).map Definition.line).or
        ((lines.find? fun l => l.label == some name).map Line.number) := by
  induction lines generalizing t with
  | nil => simp
  | cons l ls ih =>
      rw [List.foldl_cons, ih, line_find?_add, Option.or_assoc]
      congr 1
      by_cases h : l.label = some name <;> simp [h]

theorem line_find?_ofLines (lines : List Line) (name : String) :
    ((Layout.ofLines lines).definitions.find? name).map Definition.line =
      (lines.find? fun l => l.label == some name).map Line.number :=
  line_find?_foldl lines .empty name

def definitionsOf (source : String) : Definitions :=
  (Layout.ofLines (linesOf source)).definitions

theorem not_labels_of_find?_eq_none {source name : String}
    (h : (definitionsOf source).find? name = none) (n : Nat) : ¬ Labels source n name := by
  have hfind := line_find?_ofLines (linesOf source) name
  rw [definitionsOf] at h
  rw [h, Option.map_none, eq_comm, Option.map_eq_none_iff, List.find?_eq_none] at hfind
  intro hlabels
  obtain ⟨l, hl, -, hname⟩ := labels_iff.1 hlabels
  exact hfind l hl (by simp [hname])

theorem first_labels_of_find?_eq_some {source name : String} {d : Definition}
    (h : (definitionsOf source).find? name = some d) :
    Labels source d.line name ∧ ∀ n, Labels source n name → d.line ≤ n := by
  have hfind := line_find?_ofLines (linesOf source) name
  rw [definitionsOf] at h
  rw [h, Option.map_some, eq_comm, Option.map_eq_some_iff] at hfind
  obtain ⟨l, hl, hline⟩ := hfind
  obtain ⟨hlabel, before, after, hlines, hbefore⟩ := List.find?_eq_some_iff_append.1 hl
  have hsorted := pairwise_number_linesOf source
  rw [hlines, List.pairwise_append, List.pairwise_cons] at hsorted
  rw [← hline]
  constructor
  · exact labels_iff.2 ⟨l, by simp [hlines], rfl, by simpa using hlabel⟩
  · intro n hn
    obtain ⟨k, hk, rfl, hname⟩ := labels_iff.1 hn
    rw [hlines, List.mem_append, List.mem_cons] at hk
    rcases hk with hk | rfl | hk
    · have hno := hbefore k hk
      simp [hname] at hno
    · exact Nat.le_refl _
    · exact Nat.le_of_lt (hsorted.2.1.1 k hk)

end VectorMachine.Assembly
