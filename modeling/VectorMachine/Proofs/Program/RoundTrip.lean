import VectorMachine.Program.Json
import VectorMachine.Proofs.Json.RoundTrip
import VectorMachine.Proofs.NameMap

namespace VectorMachine

theorem mapM_eq_some_iff {α β : Type} {f : α → Option β} {xs : List α} {ys : List β} :
    xs.mapM f = some ys ↔ xs.map f = ys.map some := by
  induction xs generalizing ys with
  | nil => cases ys <;> simp
  | cons x xs ih =>
      rw [List.mapM_cons]
      cases hx : f x with
      | none => cases ys <;> simp [hx]
      | some y =>
          cases hxs : xs.mapM f with
          | none => cases ys <;> simp [← ih, hx, hxs]
          | some zs => cases ys <;> simp [← ih, hx, hxs]

theorem mapM_map_some {α β : Type} {f : α → β} {g : β → Option α} {xs : List α}
    (h : ∀ x ∈ xs, g (f x) = some x) : (xs.map f).mapM g = some xs := by
  rw [mapM_eq_some_iff, List.map_map]
  exact List.map_congr_left h

namespace Json

theorem Plain.list {α : Type} {f : α → Json} (h : ∀ x, Plain (f x)) (xs : List α) :
    Plain (list f xs) := by
  refine .array fun j hj => ?_
  obtain ⟨x, -, rfl⟩ := List.mem_map.1 hj
  exact h x

theorem Plain.record {members : List (String × Json)} (h : ∀ m ∈ members, Plain m.2) :
    Plain (record members) := by
  refine .object fun entry hentry => ?_
  obtain ⟨m, hm, rfl⟩ := List.mem_map.1 hentry
  exact h m hm

end Json

namespace Program

open Json (Plain)

structure Bounded (p : Program) : Prop where
  labels : ∀ e ∈ p.labels.entries, e.2 < UInt64.size
  lines : ∀ line ∈ p.lines.toList, line < UInt64.size

variable {p : Program}

theorem plain_toJson (p : Program) : Plain p.toJson := by
  apply Plain.record
  simp only [List.forall_mem_cons]
  refine ⟨Plain.list (fun s => .string (some s)) _, ?_, Plain.list Json.plain_nat _,
    List.forall_mem_nil _⟩
  apply Plain.record
  intro m hm
  obtain ⟨e, -, rfl⟩ := List.mem_map.1 hm
  exact Json.plain_nat e.2

theorem labelsOf?_record (h : ∀ e ∈ p.labels.entries, e.2 < UInt64.size) :
    labelsOf? (.record (p.labels.entries.map fun e => (e.1, .nat e.2))) = some p.labels := by
  have hentries : ((p.labels.entries.map fun e => (e.1, Json.nat e.2)).map
      fun m => (some m.1, m.2)).mapM
        (fun m => do return (← m.1, ← m.2.natural?)) = some p.labels.entries := by
    rw [List.map_map]
    apply mapM_map_some
    intro e he
    simp [Json.natural?_nat (h e he)]
  rw [Json.record, labelsOf?, hentries]
  exact congrArg some p.labels.ofList_entries

theorem fields?_toJson (p : Program) :
    p.toJson.fields? ["instructions", "labels", "source_lines"] =
      some [some (.list .text p.instructions.toList),
        some (.record (p.labels.entries.map fun e => (e.1, .nat e.2))),
        some (.list .nat p.lines.toList)] := by
  rfl

theorem ofJson?_toJson (h : p.Bounded) : ofJson? p.toJson = some p := by
  have htexts : (p.instructions.toList.map Json.text).mapM Json.text? =
      some p.instructions.toList := mapM_map_some fun _ _ => rfl
  have hlines : (p.lines.toList.map Json.nat).mapM Json.natural? = some p.lines.toList :=
    mapM_map_some fun line hline => Json.natural?_nat (h.lines line hline)
  rw [ofJson?, fields?_toJson]
  simp only [Option.bind_eq_bind, Option.bind_some, Json.list, Json.items?, htexts, hlines,
    labelsOf?_record h.labels]
  rfl

theorem jsonRead?_print (p : Program) : Json.read? p.print = some p.toJson :=
  Json.read?_print p.plain_toJson

theorem read?_print (h : p.Bounded) : read? p.print = some p := by
  rw [read?, jsonRead?_print, Option.bind_some, ofJson?_toJson h]

theorem print_is_read_back (h : p.Bounded) :
    Json.read? p.print = some p.toJson ∧ read? p.print = some p :=
  ⟨jsonRead?_print p, read?_print h⟩

def garbled : Program where
  instructions := #["MOV R0, \"\\u0041\"", "\x00\x08\t\n\x0c\r\x1f\x7f/\\", "é\u2028😀"]
  labels := .ofList [("\"a\"\n", 18446744073709551615), ("", 0), ("\\né", 7)]
  lines := #[3, 18446744073709551615, 0, 12]

theorem print_is_read_back_garbled : garbled.Bounded ∧ read? garbled.print = some garbled := by
  have h : garbled.Bounded := by
    constructor
    · decide +kernel
    · decide
  exact ⟨h, (print_is_read_back h).2⟩

end Program

end VectorMachine
