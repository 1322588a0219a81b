import VectorMachine.Proofs.Assembly.Labels
import VectorMachine.Proofs.NameMap

namespace VectorMachine

theorem Program.fitLines_of_length {count : Nat} {lines : List Nat} (h : lines.length = count) :
    fitLines count lines = lines := by
  subst h
  simp [fitLines]

namespace Assembly

def Line.parts (l : Line) : Option String × Option String := (l.label, l.body)

def index? (name : String) : List (Option String × Option String) → Option Nat
  | [] => none
  | (label, body) :: rest =>
      if label = some name then some 0
      else (index? name rest).map (body.toList.length + ·)

def texts (rows : List (Option String × Option String)) : List String :=
  rows.filterMap Prod.snd

theorem texts_append (xs ys : List (Option String × Option String)) :
    texts (xs ++ ys) = texts xs ++ texts ys :=
  List.filterMap_append

theorem length_texts_cons (label body : Option String) (xs : List (Option String × Option String)) :
    (texts ((label, body) :: xs)).length = body.toList.length + (texts xs).length := by
  cases body <;> simp [texts, Nat.add_comm]

theorem index?_append (name : String) (xs ys : List (Option String × Option String)) :
    index? name (xs ++ ys) =
      (index? name xs).or ((index? name ys).map ((texts xs).length + ·)) := by
  induction xs with
  | nil => simp [index?, texts]
  | cons x xs ih =>
      obtain ⟨label, body⟩ := x
      rw [List.cons_append, index?, index?, ih]
      split
      · rfl
      · cases body <;>
          simp [texts, Option.map_or, Option.map_map, Function.comp_def, Nat.add_left_comm,
            Nat.add_assoc]

theorem index?_eq_none {name : String} {xs : List (Option String × Option String)}
    (h : ∀ x ∈ xs, x.1 ≠ some name) : index? name xs = none := by
  induction xs with
  | nil => rfl
  | cons x xs ih =>
      obtain ⟨label, body⟩ := x
      obtain ⟨hx, hxs⟩ := List.forall_mem_cons.1 h
      rw [index?, if_neg hx, ih hxs]
      rfl

theorem index?_le {name : String} {xs : List (Option String × Option String)} {index : Nat}
    (h : index? name xs = some index) : index ≤ (texts xs).length := by
  induction xs generalizing index with
  | nil => cases h
  | cons x xs ih =>
      obtain ⟨label, body⟩ := x
      rw [index?] at h
      split at h
      · cases h
        exact Nat.zero_le _
      · obtain ⟨i, hi, rfl⟩ := Option.map_eq_some_iff.1 h
        rw [length_texts_cons]
        exact Nat.add_le_add_left (ih hi) _

def numbered (lines : List Line) : List (String × Nat) :=
  lines.filterMap fun l => l.body.map fun body => (body, l.number)

theorem numbered_append (xs ys : List Line) : numbered (xs ++ ys) = numbered xs ++ numbered ys :=
  List.filterMap_append

theorem map_fst_numbered (lines : List Line) :
    (numbered lines).map Prod.fst = texts (lines.map Line.parts) := by
  simp only [numbered, texts, List.map_filterMap, List.filterMap_map, Option.map_map,
    Function.comp_def, Line.parts, Option.map_id']

theorem length_texts (lines : List Line) :
    (texts (lines.map Line.parts)).length = (numbered lines).length := by
  rw [← map_fst_numbered, List.length_map]

theorem index_find?_foldl (lines : List Line) (t : Layout) (name : String) :
    ((lines.foldl Layout.add t).definitions.find? name).map Definition.index =
      ((t.definitions.find? name).map Definition.index).or
        ((index? name (lines.map Line.parts)).map (t.count + ·)) := by
  induction lines generalizing t with
  | nil => simp [index?]
  | cons l ls ih =>
      have hcount : (t.add l).count = t.count + l.body.toList.length := by
        cases hb : l.body <;> simp [Layout.add, hb]
      rw [List.foldl_cons, ih, find?_add, List.map_cons, Line.parts, index?, hcount, Option.map_or,
        Option.or_assoc]
      congr 1
      split
      · simp
      · simp [Option.map_map, Function.comp_def, Nat.add_assoc]

section Link

variable (defs : Definitions) (lines : List Line)

theorem instructions_link :
    (link defs lines).instructions.toList = texts (lines.map Line.parts) := by
  rw [← map_fst_numbered]
  rfl

theorem lines_link : (link defs lines).lines.toList = (numbered lines).map Prod.snd := by
  have hlen : ((numbered lines).map Prod.snd).length = ((numbered lines).map Prod.fst).length := by
    rw [List.length_map, List.length_map]
  exact Program.fitLines_of_length hlen

theorem instruction?_link (i : Nat) :
    (link defs lines).instruction? i = (numbered lines)[i]?.map Prod.fst := by
  rw [Program.instruction?, ← Array.getElem?_toList, instructions_link, ← map_fst_numbered,
    List.getElem?_map]

theorem line?_link (i : Nat) :
    (link defs lines).line? i = (numbered lines)[i]?.map Prod.snd := by
  rw [Program.line?, ← Array.getElem?_toList, lines_link, List.getElem?_map]

theorem size_link : (link defs lines).size = (numbered lines).length := by
  rw [Program.size, ← Array.length_toList, instructions_link, length_texts]

theorem label?_link (name : String) :
    (link defs lines).label? name = (defs.find? name).map Definition.index :=
  NameMap.find?_mapValues _ _ _

end Link

theorem label?_linked (source name : String) :
    (link (definitionsOf source) (linesOf source)).label? name =
      index? name ((linesOf source).map Line.parts) := by
  rw [label?_link, definitionsOf, Layout.ofLines, index_find?_foldl]
  have hempty : Layout.empty.definitions.find? name = none := rfl
  have hzero : Layout.empty.count = 0 := rfl
  simp [hempty, hzero]

theorem label?_le_size {source name : String} {index : Nat}
    (h : (link (definitionsOf source) (linesOf source)).label? name = some index) :
    index ≤ (link (definitionsOf source) (linesOf source)).size := by
  rw [label?_linked] at h
  rw [size_link, ← length_texts]
  exact index?_le h

theorem exists_label?_iff {source name : String} :
    (∃ index, (link (definitionsOf source) (linesOf source)).label? name = some index) ↔
      ∃ n, Labels source n name := by
  simp only [label?_link, Option.map_eq_some_iff]
  constructor
  · rintro ⟨_, d, hd, rfl⟩
    exact ⟨d.line, (first_labels_of_find?_eq_some hd).1⟩
  · rintro ⟨n, hn⟩
    cases hd : (definitionsOf source).find? name with
    | none => exact absurd hn (not_labels_of_find?_eq_none hd n)
    | some d => exact ⟨d.index, d, rfl, rfl⟩

end Assembly

end VectorMachine
