import VectorMachine.Proofs.Assembly.Decodable
import VectorMachine.Proofs.Program.RoundTrip

namespace VectorMachine

theorem Json.eq_array_of_items? {j : Json} {items : List Json} (h : j.items? = some items) :
    j = .array items := by
  cases j <;> cases h
  rfl

namespace Program

structure Lined (p : Program) : Prop where
  size_eq : p.lines.size = p.size
  line_iff : ∀ n, (p.line? n).isSome = true ↔ n < p.size

variable {p : Program}

theorem lined_iff : p.Lined ↔ p.lines.size = p.size := by
  refine ⟨Lined.size_eq, fun h => ⟨h, fun n => ?_⟩⟩
  rw [line?, isSome_getElem?, h]

theorem getElem?_fitLines (count : Nat) (lines : List Nat) (n : Nat) :
    (fitLines count lines)[n]? = if n < count then some (lines[n]?.getD (n + 1)) else none := by
  by_cases hcount : n < count
  · have htake : (lines.take count).length = min count lines.length := List.length_take
    rw [if_pos hcount, fitLines]
    by_cases hknown : n < lines.length
    · rw [List.getElem?_append_left (by omega), List.getElem?_take_of_lt hcount,
        List.getElem?_eq_getElem hknown]
      rfl
    · have hplace : min lines.length count + 1 * (n - min count lines.length) = n := by omega
      rw [List.getElem?_append_right (by omega), htake, List.getElem?_map,
        List.getElem?_range' (by omega), hplace, List.getElem?_eq_none (by omega)]
      rfl
  · rw [if_neg hcount, List.getElem?_eq_none]
    rw [length_fitLines]
    omega

section Parts

variable (texts : List String) (labels : NameMap Nat) (lines : List Nat)

theorem lined_ofParts : (ofParts texts labels lines).Lined :=
  lined_iff.2 (size_lines_ofParts texts labels lines)

theorem line?_ofParts (n : Nat) : (ofParts texts labels lines).line? n =
    if n < texts.length then some (lines[n]?.getD (n + 1)) else none := by
  rw [line?, ofParts, List.getElem?_toArray, getElem?_fitLines]

end Parts

theorem lined_of_assemble {source : String} (h : assemble source = .ok p) : p.Lined := by
  obtain ⟨-, rfl⟩ := Assembly.assemble_eq_ok_iff.1 h
  exact lined_ofParts _ _ _

structure Taken (j : Json) (p : Program) (texts lines : List Json) : Prop where
  fields : ∃ table, j.fields? ["instructions", "labels", "source_lines"] =
    some [some (.array texts), some table, some (.array lines)] ∧ labelsOf? table = some p.labels
  texts : texts.map Json.text? = p.instructions.toList.map some
  lines : lines.map Json.natural? = p.lines.toList.map some

theorem exists_taken {j : Json} (h : ofJson? j = some p) :
    ∃ texts lines, Taken j p texts lines := by
  obtain ⟨values, hvalues, h⟩ := Option.bind_eq_some_iff.1 h
  split at h
  · rename_i instructions table lines
    obtain ⟨texts, hinstructions, h⟩ := Option.bind_eq_some_iff.1 h
    obtain ⟨_, htexts, h⟩ := Option.bind_eq_some_iff.1 h
    obtain ⟨_, hlabels, h⟩ := Option.bind_eq_some_iff.1 h
    obtain ⟨numbers, hlines, h⟩ := Option.bind_eq_some_iff.1 h
    obtain ⟨_, hnumbers, h⟩ := Option.bind_eq_some_iff.1 h
    cases h
    rw [Json.eq_array_of_items? hinstructions, Json.eq_array_of_items? hlines] at hvalues
    exact ⟨texts, numbers, ⟨table, hvalues, hlabels⟩, mapM_eq_some_iff.1 htexts,
      mapM_eq_some_iff.1 hnumbers⟩
  · cases h

namespace Taken

variable {j : Json} {texts lines : List Json} (h : Taken j p texts lines)
include h

theorem length_texts : texts.length = p.size := by
  have hlengths := congrArg List.length h.texts
  rwa [List.length_map, List.length_map, Array.length_toList] at hlengths

theorem length_lines : lines.length = p.lines.size := by
  have hlengths := congrArg List.length h.lines
  rwa [List.length_map, List.length_map, Array.length_toList] at hlengths

theorem lined_iff : p.Lined ↔ lines.length = texts.length := by
  rw [Program.lined_iff, h.length_lines, h.length_texts]

end Taken

theorem lines_follow_instructions (s : String) (texts : List String) (labels : NameMap Nat)
    (lines : List Nat) :
    Lined empty ∧ (∀ p, assemble s = .ok p → p.Lined) ∧ (ofInstructions texts).Lined ∧
      ((ofParts texts labels lines).Lined ∧ ∀ n, (ofParts texts labels lines).line? n =
        if n < texts.length then some (lines[n]?.getD (n + 1)) else none) ∧
      ∀ p, read? s = some p → ∃ j textRow lineRow, Json.read? s = some j ∧
        Taken j p textRow lineRow ∧ (p.Lined ↔ lineRow.length = textRow.length) := by
  refine ⟨lined_ofParts [] .empty [], fun _ h => lined_of_assemble h,
    lined_ofParts texts .empty [], ?_, ?_⟩
  · exact ⟨lined_ofParts texts labels lines, line?_ofParts texts labels lines⟩
  · intro p h
    obtain ⟨j, hj, hp⟩ := Option.bind_eq_some_iff.1 h
    obtain ⟨textRow, lineRow, htaken⟩ := exists_taken hp
    exact ⟨j, textRow, lineRow, hj, htaken, htaken.lined_iff⟩

def halfLined : Program := ⟨#["NOP", "HLT"], .empty, #[7]⟩

theorem bounded_halfLined : halfLined.Bounded :=
  ⟨by decide, by decide⟩

theorem lines_follow_instructions_halfLined :
    assemble "; two\nNOP\n\nHLT" = .ok ⟨#["NOP", "HLT"], .empty, #[2, 4]⟩ ∧
      Lined ⟨#["NOP", "HLT"], .empty, #[2, 4]⟩ ∧
      (ofParts ["NOP", "HLT"] .empty [7]).line? 1 = some 2 ∧
      read? halfLined.print = some halfLined ∧ ¬ halfLined.Lined := by
  have hsource : assemble "; two\nNOP\n\nHLT" = .ok ⟨#["NOP", "HLT"], .empty, #[2, 4]⟩ := rfl
  have hprint := read?_print bounded_halfLined
  obtain ⟨-, hassemble, -, hparts, -⟩ :=
    lines_follow_instructions "; two\nNOP\n\nHLT" ["NOP", "HLT"] .empty [7]
  obtain ⟨-, -, -, -, hread⟩ := lines_follow_instructions halfLined.print [] .empty []
  obtain ⟨j, textRow, lineRow, -, htaken, hlined⟩ := hread _ hprint
  refine ⟨hsource, hassemble _ hsource, hparts.2 1, hprint, ?_⟩
  rw [hlined, htaken.length_lines, htaken.length_texts]
  decide

theorem not_every_read_program_is_lined : ¬ ∀ s p, read? s = some p → p.Lined := by
  intro hall
  have hprint : halfLined.print =
      "\x7b\"instructions\":[\"NOP\",\"HLT\"],\"labels\":\x7b\x7d,\"source_lines\":[7]\x7d" := by
    decide +kernel
  have h := hall _ halfLined (hprint ▸ read?_print bounded_halfLined)
  exact absurd h.size_eq (by decide)

end Program

end VectorMachine
