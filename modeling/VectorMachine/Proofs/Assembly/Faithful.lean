import Mathlib.Data.Set.Card
import VectorMachine.Proofs.Assembly.Decodable
import VectorMachine.Proofs.Assembly.Linked

namespace VectorMachine.Assembly

def Bears (source : String) (n : Nat) : Prop :=
  ∃ text, Instructs source n text ∧ text ≠ ""

structure Faithful (source : String) (p : Program) : Prop where
  lines_sorted : p.lines.toList.Pairwise (· < ·)
  lines_pos : ∀ n ∈ p.lines, 0 < n
  mem_lines_iff : ∀ n, n ∈ p.lines ↔ Bears source n
  instruction?_iff : ∀ i text, p.instruction? i = some text ↔
    ∃ n, p.line? i = some n ∧ Instructs source n text
  label?_iff : ∀ name, (∃ index, p.label? name = some index) ↔ ∃ n, Labels source n name
  labels_once : ∀ name m n, Labels source m name → Labels source n name → m = n
  label?_eq : ∀ name n, Labels source n name →
    p.label? name = some {m | m < n ∧ Bears source m}.ncard
  label?_place : ∀ name n index, Labels source n name → p.label? name = some index →
    index ≤ p.size ∧ ∀ i m, p.line? i = some m → (i < index ↔ m < n)

section Lines

variable {source : String}

theorem eq_of_number_eq {k l : Line} (hk : k ∈ linesOf source) (hl : l ∈ linesOf source)
    (h : k.number = l.number) : k = l := by
  obtain ⟨i, cs, hcs, rfl⟩ := mem_linesOf_iff.1 hk
  obtain ⟨j, ds, hds, rfl⟩ := mem_linesOf_iff.1 hl
  rw [Line.number_read, Line.number_read] at h
  obtain rfl := Nat.succ.inj h
  obtain rfl := Option.some.inj (hcs.symm.trans hds)
  rfl

theorem body_eq_some_iff {l : Line} (hl : l ∈ linesOf source) {body : String} :
    l.body = some body ↔ l.text = body ∧ body ≠ "" := by
  obtain ⟨i, cs, -, rfl⟩ := mem_linesOf_iff.1 hl
  exact Line.body_read_eq_some_iff

theorem Instructs.unique {n : Nat} {s t : String} (hs : Instructs source n s)
    (ht : Instructs source n t) : s = t := by
  obtain ⟨k, hk, hkn, rfl⟩ := instructs_iff.1 hs
  obtain ⟨l, hl, hln, rfl⟩ := instructs_iff.1 ht
  rw [eq_of_number_eq hk hl (hkn.trans hln.symm)]

theorem Instructs.pos {n : Nat} {text : String} (h : Instructs source n text) : 0 < n := by
  obtain ⟨l, hl, rfl, -⟩ := instructs_iff.1 h
  obtain ⟨i, cs, -, rfl⟩ := mem_linesOf_iff.1 hl
  rw [Line.number_read]
  exact Nat.succ_pos i

theorem mem_numbered_iff {text : String} {n : Nat} :
    (text, n) ∈ numbered (linesOf source) ↔ Instructs source n text ∧ text ≠ "" := by
  simp only [numbered, List.mem_filterMap, Option.map_eq_some_iff, Prod.mk.injEq]
  constructor
  · rintro ⟨l, hl, body, hbody, rfl, rfl⟩
    obtain ⟨htext, hne⟩ := (body_eq_some_iff hl).1 hbody
    exact ⟨instructs_iff.2 ⟨l, hl, rfl, htext⟩, hne⟩
  · rintro ⟨h, hne⟩
    obtain ⟨l, hl, hn, htext⟩ := instructs_iff.1 h
    exact ⟨l, hl, text, (body_eq_some_iff hl).2 ⟨htext, hne⟩, rfl, hn⟩

theorem bears_iff {n : Nat} :
    Bears source n ↔ n ∈ (numbered (linesOf source)).map Prod.snd := by
  simp only [Bears, ← mem_numbered_iff, List.mem_map, Prod.exists, exists_eq_right]

theorem pairwise_numbered {lines : List Line}
    (h : lines.Pairwise fun k l => k.number < l.number) :
    (numbered lines).Pairwise fun x y => x.2 < y.2 := by
  refine h.filterMap _ ?_
  intro k l hkl x hx y hy
  obtain ⟨_, -, rfl⟩ := Option.map_eq_some_iff.1 hx
  obtain ⟨_, -, rfl⟩ := Option.map_eq_some_iff.1 hy
  exact hkl

theorem exists_mem_of_numbered {lines : List Line} {x : String × Nat} (h : x ∈ numbered lines) :
    ∃ l ∈ lines, l.number = x.2 := by
  obtain ⟨l, hl, hx⟩ := List.mem_filterMap.1 h
  obtain ⟨_, -, rfl⟩ := Option.map_eq_some_iff.1 hx
  exact ⟨l, hl, rfl⟩

theorem numbered_split {before after : List Line} {l : Line}
    (h : linesOf source = before ++ l :: after) :
    numbered (linesOf source) = numbered before ++ numbered (l :: after) ∧
      (∀ x ∈ numbered before, x.2 < l.number) ∧ ∀ x ∈ numbered (l :: after), l.number ≤ x.2 := by
  have hsorted := pairwise_number_linesOf source
  rw [h, List.pairwise_append, List.pairwise_cons] at hsorted
  obtain ⟨-, ⟨hafter, -⟩, hbefore⟩ := hsorted
  refine ⟨by rw [h, numbered_append], ?_, ?_⟩
  · intro x hx
    obtain ⟨k, hk, hkx⟩ := exists_mem_of_numbered hx
    exact hkx ▸ hbefore k hk l List.mem_cons_self
  · intro x hx
    obtain ⟨k, hk, hkx⟩ := exists_mem_of_numbered hx
    rcases List.mem_cons.1 hk with rfl | hk
    · exact Nat.le_of_eq hkx
    · exact hkx ▸ Nat.le_of_lt (hafter k hk)

theorem ncard_bears {before after : List Line} {l : Line}
    (h : linesOf source = before ++ l :: after) :
    {m | m < l.number ∧ Bears source m}.ncard = (numbered before).length := by
  obtain ⟨hall, hbefore, hafter⟩ := numbered_split h
  have hsorted := pairwise_numbered (pairwise_number_linesOf source)
  rw [hall, List.pairwise_append] at hsorted
  have hnodup : ((numbered before).map Prod.snd).Nodup :=
    List.pairwise_map.2 (hsorted.1.imp Nat.ne_of_lt)
  have hset : {m | m < l.number ∧ Bears source m} =
      ((numbered before).map Prod.snd).toFinset := by
    ext m
    simp only [Set.mem_ofPred_eq, bears_iff, hall, List.map_append, List.mem_append,
      List.coe_toFinset]
    constructor
    · rintro ⟨hm, hmem | hmem⟩
      · exact hmem
      · obtain ⟨x, hx, rfl⟩ := List.mem_map.1 hmem
        exact absurd (hafter x hx) (Nat.not_le_of_lt hm)
    · intro hmem
      obtain ⟨x, hx, rfl⟩ := List.mem_map.1 hmem
      exact ⟨hbefore x hx, .inl hmem⟩
  rw [hset, Set.ncard_coe_finset, List.toFinset_card_of_nodup hnodup, List.length_map]

theorem place_of_split {before after : List Line} {l : Line}
    (h : linesOf source = before ++ l :: after) {i m : Nat}
    (hi : (link (definitionsOf source) (linesOf source)).line? i = some m) :
    i < (numbered before).length ↔ m < l.number := by
  obtain ⟨hall, hbefore, hafter⟩ := numbered_split h
  rw [line?_link, hall, Option.map_eq_some_iff] at hi
  obtain ⟨x, hx, rfl⟩ := hi
  by_cases hlt : i < (numbered before).length
  · rw [List.getElem?_append_left hlt] at hx
    exact iff_of_true hlt (hbefore x (List.mem_of_getElem? hx))
  · rw [List.getElem?_append_right (Nat.le_of_not_lt hlt)] at hx
    exact iff_of_false hlt (Nat.not_lt_of_le (hafter x (List.mem_of_getElem? hx)))

section Clean

variable (hclean : ∀ o, ¬ Occurs source o)

include hclean

theorem labels_once_of_clean {name : String} {m n : Nat} (hm : Labels source m name)
    (hn : Labels source n name) : m = n := by
  rcases Nat.lt_trichotomy m n with hlt | heq | hlt
  · exact absurd (.duplicateLabel hn hm hlt) (hclean _)
  · exact heq
  · exact absurd (.duplicateLabel hm hn hlt) (hclean _)

theorem label?_split {name : String} {before after : List Line} {l : Line}
    (h : linesOf source = before ++ l :: after) (hl : l.label = some name) :
    (link (definitionsOf source) (linesOf source)).label? name = some (numbered before).length := by
  have hfirst : ∀ x ∈ before.map Line.parts, x.1 ≠ some name := by
    intro x hx hname
    obtain ⟨k, hk, rfl⟩ := List.mem_map.1 hx
    have hsorted := pairwise_number_linesOf source
    rw [h, List.pairwise_append] at hsorted
    have hlt := hsorted.2.2 k hk l List.mem_cons_self
    have hlabels : Labels source l.number name := labels_iff.2 ⟨l, by simp [h], rfl, hl⟩
    have hearlier : Labels source k.number name := labels_iff.2 ⟨k, by simp [h, hk], rfl, hname⟩
    exact hclean _ (.duplicateLabel hlabels hearlier hlt)
  rw [label?_linked, h, List.map_append, List.map_cons, index?_append, index?_eq_none hfirst,
    Line.parts, index?, if_pos hl, length_texts]
  rfl

end Clean

theorem assembly_is_faithful {p : Program} (h : assemble source = .ok p) : Faithful source p := by
  obtain ⟨hclean, rfl⟩ := assemble_eq_ok_iff.1 h
  have hbears : ∀ n, n ∈ (link (definitionsOf source) (linesOf source)).lines ↔
      Bears source n := fun n => by rw [← Array.mem_toList_iff, lines_link, bears_iff]
  have hlabel : ∀ name n, Labels source n name → ∃ before l after,
      linesOf source = before ++ l :: after ∧ l.number = n ∧ l.label = some name := by
    intro name n hn
    obtain ⟨l, hl, hnumber, hname⟩ := labels_iff.1 hn
    obtain ⟨before, after, hsplit⟩ := List.append_of_mem hl
    exact ⟨before, l, after, hsplit, hnumber, hname⟩
  constructor
  case lines_sorted =>
    rw [lines_link, List.pairwise_map]
    exact pairwise_numbered (pairwise_number_linesOf source)
  case lines_pos =>
    intro n hn
    obtain ⟨text, htext, -⟩ := (hbears n).1 hn
    exact htext.pos
  case mem_lines_iff => exact hbears
  case instruction?_iff =>
    intro i text
    rw [instruction?_link, line?_link]
    constructor
    · intro hi
      obtain ⟨⟨body, n⟩, hx, rfl⟩ := Option.map_eq_some_iff.1 hi
      exact ⟨n, by rw [hx]; rfl, (mem_numbered_iff.1 (List.mem_of_getElem? hx)).1⟩
    · rintro ⟨n, hn, htext⟩
      obtain ⟨⟨body, m⟩, hx, rfl⟩ := Option.map_eq_some_iff.1 hn
      have hbody := (mem_numbered_iff.1 (List.mem_of_getElem? hx)).1
      rw [hx, htext.unique hbody]
      rfl
  case label?_iff => exact fun name => exists_label?_iff
  case labels_once => exact fun name m n => labels_once_of_clean hclean
  case label?_eq =>
    intro name n hn
    obtain ⟨before, l, after, hsplit, rfl, hname⟩ := hlabel name n hn
    rw [label?_split hclean hsplit hname, ncard_bears hsplit]
  case label?_place =>
    intro name n index hn hindex
    obtain ⟨before, l, after, hsplit, rfl, hname⟩ := hlabel name n hn
    obtain rfl := Option.some.inj ((label?_split hclean hsplit hname).symm.trans hindex)
    refine ⟨?_, fun i m hi => place_of_split hsplit hi⟩
    rw [size_link, (numbered_split hsplit).1, List.length_append]
    exact Nat.le_add_right _ _

end Lines

def looping : String :=
  "start: ; twice\n  MOV R0, 2\nloop : DEC R0 # down\n\n\tJNZ loop\nend:"

def loopingProgram : Program :=
  .ofParts ["MOV R0, 2", "DEC R0", "JNZ loop"] (.ofList [("start", 0), ("loop", 1), ("end", 3)])
    [2, 3, 5]

theorem assembly_is_faithful_looping :
    assemble looping = .ok loopingProgram ∧ Faithful looping loopingProgram := by
  have h : assemble looping = .ok loopingProgram := rfl
  exact ⟨h, assembly_is_faithful h⟩

end VectorMachine.Assembly
