import VectorMachine.CommandLine
import VectorMachine.Proofs.Assembly.Reassembly

namespace VectorMachine

def indented (line : String) : Bool := line.toList.head? == some ' '

namespace Program

def instructionLine (p : Program) (i : Nat) : String :=
  "  " ++ Text.padLeft 4 (toString i) ++ "  " ++ Text.padRight 32 ((p.instruction? i).getD "") ++
    " ; line " ++ toString ((p.line? i).getD 0)

def PlacedIn (p : Program) (lines : List String) (name : String) (index : Nat) : Prop :=
  ∃ above below, lines = above ++ (name ++ ":") :: below ∧
    name ++ ":" ∉ above ∧ name ++ ":" ∉ below ∧
    above.filter indented = (List.range index).map p.instructionLine

structure ListedBy (p : Program) (lines : List String) : Prop where
  no_newline : ∀ line ∈ lines, '\n' ∉ line.toList
  in_order : lines.filter indented = (List.range p.size).map p.instructionLine
  placed : ∀ name index, p.label? name = some index → index < p.size → p.PlacedIn lines name index
  hidden : ∀ name index, p.label? name = some index → p.size ≤ index → name ++ ":" ∉ lines
  only_labels : ∀ line ∈ lines, indented line = false →
    ∃ name index, p.label? name = some index ∧ line = name ++ ":"

def listingLinesAt (p : Program) (i : Nat) : List String :=
  (p.namesAt i).map (· ++ ":") ++ [p.instructionLine i]

def listingLines (p : Program) (indices : List Nat) : List String :=
  indices.flatMap p.listingLinesAt

theorem listingEntry_eq {p : Program} {i : Nat} {text : String} (h : p.instruction? i = some text) :
    p.listingEntry i text = String.join ((p.listingLinesAt i).map (· ++ "\n")) := by
  have hrow : p.listingRow i text = p.instructionLine i ++ "\n" := by
    rw [listingRow, instructionLine, h]
    rfl
  rw [listingEntry, hrow, listingLinesAt, List.map_append, List.map_map, String.join_append]
  simp only [Function.comp_def, String.append_assoc, List.map_cons, List.map_nil, String.join_cons,
    String.join_nil, String.append_empty]
  rfl

theorem join_flatMap {α : Type} (f : α → List String) (xs : List α) :
    String.join (xs.flatMap f) = String.join (xs.map fun x => String.join (f x)) := by
  induction xs with
  | nil => rfl
  | cons x xs ih => rw [List.flatMap_cons, List.map_cons, String.join_append, String.join_cons, ih]

theorem listing_eq (p : Program) :
    p.listing = String.join ((p.listingLines (List.range p.size)).map (· ++ "\n")) := by
  rw [listing, listingLines, List.map_flatMap, join_flatMap]
  congr 1
  apply List.ext_getElem?
  intro i
  rw [List.getElem?_mapIdx, List.getElem?_map, Array.getElem?_toList]
  rcases Nat.lt_or_ge i p.size with hi | hi
  · have htext : p.instruction? i = some p.instructions[i] := Array.getElem?_eq_getElem hi
    rw [List.getElem?_range hi, Array.getElem?_eq_getElem hi, Option.map_some, Option.map_some,
      listingEntry_eq htext]
  · rw [List.getElem?_eq_none (by simpa using hi), Array.getElem?_eq_none hi]
    rfl

theorem indented_instructionLine (p : Program) (i : Nat) :
    indented (p.instructionLine i) = true := by
  simp [indented, instructionLine]

theorem indented_label {name : String} (h : Token.isIdentifier name.toList = true) :
    indented (name ++ ":") = false := by
  have hword := Token.isWordChar_of_isIdentifier h
  rw [indented, beq_eq_false_iff_ne, String.toList_append]
  intro hhead
  have hmem := List.mem_of_head? hhead
  rcases List.mem_append.1 hmem with hmem | hmem
  · cases hword _ hmem
  · exact absurd hmem (by decide)

theorem label_ne_instructionLine {p : Program} {name : String}
    (h : Token.isIdentifier name.toList = true) (i : Nat) : name ++ ":" ≠ p.instructionLine i := by
  intro heq
  have hmargin := indented_label h
  rw [heq, indented_instructionLine] at hmargin
  cases hmargin

theorem label_mem_map_iff {name : String} {names : List String} :
    name ++ ":" ∈ names.map (· ++ ":") ↔ name ∈ names :=
  List.mem_map_of_injective fun _ _ => (String.append_left_inj ":").1

theorem not_mem_newline_toString (n : Nat) : '\n' ∉ (toString n).toList := by
  rw [Nat.toString_eq_repr, Nat.toList_repr]
  intro hmem
  cases Token.isDigit_of_mem_toDigits hmem

theorem not_mem_newline_instructionLine {p : Program}
    (h : ∀ i text, p.instruction? i = some text → '\n' ∉ text.toList) (i : Nat) :
    '\n' ∉ (p.instructionLine i).toList := by
  have htext : '\n' ∉ ((p.instruction? i).getD "").toList := by
    cases ht : p.instruction? i with
    | none => exact List.not_mem_nil
    | some text => exact h i text ht
  simp [instructionLine, Text.padLeft, Text.padRight, htext, not_mem_newline_toString,
    -Nat.toString_eq_repr]

structure Listable (p : Program) : Prop where
  label : ∀ name index, p.label? name = some index → Token.isIdentifier name.toList = true
  no_newline : ∀ i text, p.instruction? i = some text → '\n' ∉ text.toList

theorem exists_label_of_mem_listingLines {p : Program} {indices : List Nat} {line : String}
    (hl : line ∈ p.listingLines indices) (hmargin : indented line = false) :
    ∃ name, ∃ i ∈ indices, p.label? name = some i ∧ line = name ++ ":" := by
  obtain ⟨i, hi, hl⟩ := List.mem_flatMap.1 hl
  rcases List.mem_append.1 hl with hl | hl
  · obtain ⟨name, hn, rfl⟩ := List.mem_map.1 hl
    exact ⟨name, i, hi, mem_namesAt_iff.1 hn, rfl⟩
  · obtain rfl := List.mem_singleton.1 hl
    rw [indented_instructionLine] at hmargin
    cases hmargin

section Listable

variable {p : Program} (h : Listable p)

include h

theorem isIdentifier_of_mem_namesAt {i : Nat} {name : String} (hn : name ∈ p.namesAt i) :
    Token.isIdentifier name.toList = true :=
  h.label name i (mem_namesAt_iff.1 hn)

theorem filter_labels {names : List String} {i : Nat} (hn : names ⊆ p.namesAt i) :
    (names.map (· ++ ":")).filter indented = [] := by
  rw [List.filter_eq_nil_iff, List.forall_mem_map]
  intro name hname
  rw [indented_label (isIdentifier_of_mem_namesAt h (hn hname))]
  exact Bool.false_ne_true

theorem filter_listingLines (indices : List Nat) :
    (p.listingLines indices).filter indented = indices.map p.instructionLine := by
  have hat (i : Nat) : (p.listingLinesAt i).filter indented = [p.instructionLine i] := by
    rw [listingLinesAt, List.filter_append, filter_labels h (List.Subset.refl _), List.nil_append,
      List.filter_singleton, indented_instructionLine]
    rfl
  rw [listingLines, List.filter_flatMap]
  simp only [hat]
  exact List.map_eq_flatMap.symm

theorem label_not_mem_listingLines {indices : List Nat} {name : String} {index : Nat}
    (hname : p.label? name = some index) (hno : index ∉ indices) :
    name ++ ":" ∉ p.listingLines indices := by
  intro hl
  have hmargin := indented_label (h.label _ _ hname)
  obtain ⟨other, i, hi, hother, heq⟩ := exists_label_of_mem_listingLines hl hmargin
  obtain rfl := (String.append_left_inj ":").1 heq
  obtain rfl := Option.some.inj (hname.symm.trans hother)
  exact hno hi

theorem not_mem_newline_listingLines {indices : List Nat} {line : String}
    (hl : line ∈ p.listingLines indices) : '\n' ∉ line.toList := by
  cases hmargin : indented line with
  | false =>
      obtain ⟨name, i, -, hname, rfl⟩ := exists_label_of_mem_listingLines hl hmargin
      exact Assembly.not_mem_newline_label (h.label name i hname)
  | true =>
      have hmem := List.mem_filter.2 ⟨hl, hmargin⟩
      rw [filter_listingLines h] at hmem
      obtain ⟨i, -, rfl⟩ := List.mem_map.1 hmem
      exact not_mem_newline_instructionLine h.no_newline i

theorem placedIn_listingLines {name : String} {index : Nat} (hname : p.label? name = some index)
    (hindex : index < p.size) : p.PlacedIn (p.listingLines (List.range p.size)) name index := by
  obtain ⟨k, hk⟩ := Nat.exists_eq_add_of_le (Nat.succ_le_of_lt hindex)
  let later := (List.range k).map (index + 1 + ·)
  have hrange : List.range p.size = List.range index ++ index :: later := by
    rw [hk, List.range_add, List.range_succ, List.append_assoc, List.singleton_append]
  have hlater : index ∉ later := by
    intro hmem
    obtain ⟨j, -, hj⟩ := List.mem_map.1 hmem
    omega
  obtain ⟨front, back, hnames⟩ := List.append_of_mem (mem_namesAt_iff.2 hname)
  have hnodup := p.nodup_namesAt index
  rw [hnames, List.nodup_middle, List.nodup_cons, List.mem_append, not_or] at hnodup
  refine ⟨p.listingLines (List.range index) ++ front.map (· ++ ":"),
    back.map (· ++ ":") ++ p.instructionLine index :: p.listingLines later, ?_, ?_, ?_, ?_⟩
  · rw [hrange, listingLines, List.flatMap_append, List.flatMap_cons, listingLinesAt, hnames]
    simp [listingLines]
  · rw [List.mem_append, label_mem_map_iff, not_or]
    exact ⟨label_not_mem_listingLines h hname List.not_mem_range_self, hnodup.1.1⟩
  · rw [List.mem_append, List.mem_cons, label_mem_map_iff, not_or, not_or]
    exact ⟨hnodup.1.2, label_ne_instructionLine (h.label name index hname) index,
      label_not_mem_listingLines h hname hlater⟩
  · rw [List.filter_append, filter_listingLines h, filter_labels h, List.append_nil]
    rw [hnames]
    exact List.subset_append_left _ _

theorem listedBy_listingLines : p.ListedBy (p.listingLines (List.range p.size)) := by
  constructor
  case no_newline => exact fun line hl => not_mem_newline_listingLines h hl
  case in_order => exact filter_listingLines h _
  case placed => exact fun name index => placedIn_listingLines h
  case hidden =>
    intro name index hname hle
    refine label_not_mem_listingLines h hname ?_
    rw [List.mem_range]
    exact Nat.not_lt.2 hle
  case only_labels =>
    intro line hl hmargin
    obtain ⟨name, i, -, hname, hline⟩ := exists_label_of_mem_listingLines hl hmargin
    exact ⟨name, i, hname, hline⟩

end Listable

end Program

theorem Assembly.eq_of_join_eq {xs ys : List String} (hxs : ∀ x ∈ xs, '\n' ∉ x.toList)
    (hys : ∀ y ∈ ys, '\n' ∉ y.toList)
    (h : String.join (xs.map (· ++ "\n")) = String.join (ys.map (· ++ "\n"))) : xs = ys := by
  have hsplit := splitOn_join xs hxs
  rw [h, splitOn_join ys hys] at hsplit
  have hrows := List.append_cancel_right hsplit
  exact ((List.map_inj_right fun _ _ => String.toList_inj.1).1 hrows).symm

theorem Assembly.listable_of_assemble {source : String} {p : Program}
    (h : assemble source = .ok p) : p.Listable := by
  constructor
  case label => exact fun name index => isIdentifier_of_label? h
  case no_newline =>
    obtain ⟨-, rfl⟩ := assemble_eq_ok_iff.1 h
    intro i text ht
    obtain ⟨n, hn⟩ := exists_instructs_of_link ht
    exact hn.not_mem_newline

namespace CommandLine

theorem listing_shows_program {files : Files} {args : List String} {path source : String}
    {p : Program} (hargs : Command.read? args = some (.asm path false))
    (hfile : fileText (files path) = .ok source) (h : assemble source = .ok p) :
    ∃ lines, execute files args = { code := 0, stdout := String.join (lines.map (· ++ "\n")) } ∧
      p.ListedBy lines := by
  have hload : loadProgram (files path) = .ok p := by
    rw [loadProgram, hfile]
    dsimp only
    rw [h]
  refine ⟨p.listingLines (List.range p.size), ?_, ?_⟩
  · rw [execute, hargs, ← Program.listing_eq]
    dsimp only
    rw [asm, hload]
    rfl
  · exact Program.listedBy_listingLines (Assembly.listable_of_assemble h)

def crossroads : String := "start: MOV R0, 2\nloop:\nagain: DEC R0\nJNZ loop\nend:"

def crossroadsProgram : Program :=
  .ofParts ["MOV R0, 2", "DEC R0", "JNZ loop"]
    (.ofList [("start", 0), ("loop", 1), ("again", 1), ("end", 3)]) [1, 3, 4]

def onlyFile (path text : String) : Files := fun asked =>
  if asked = path then some text.toUTF8 else none

theorem listing_shows_program_crossroads :
    Command.read? ["asm", "p.asm"] = some (.asm "p.asm" false) ∧
      fileText (onlyFile "p.asm" crossroads "p.asm") = .ok crossroads ∧
      assemble crossroads = .ok crossroadsProgram ∧
      ∃ lines, execute (onlyFile "p.asm" crossroads) ["asm", "p.asm"] =
          { code := 0, stdout := String.join (lines.map (· ++ "\n")) } ∧
        crossroadsProgram.ListedBy lines := by
  have hargs : Command.read? ["asm", "p.asm"] = some (.asm "p.asm" false) := by decide +kernel
  have hfile : fileText (onlyFile "p.asm" crossroads "p.asm") = .ok crossroads := by
    decide +kernel
  have h : assemble crossroads = .ok crossroadsProgram := rfl
  exact ⟨hargs, hfile, h, listing_shows_program hargs hfile h⟩

theorem not_every_label_is_listed :
    ¬ ∀ (files : Files) (args : List String) (path source : String) (p : Program),
        Command.read? args = some (.asm path false) → fileText (files path) = .ok source →
        assemble source = .ok p →
        ∃ lines, execute files args =
            { code := 0, stdout := String.join (lines.map (· ++ "\n")) } ∧
          (∀ line ∈ lines, '\n' ∉ line.toList) ∧
          ∀ name index, p.label? name = some index → p.PlacedIn lines name index := by
  intro h
  let p : Program := .ofParts ["JMP end"] (.ofList [("end", 1)]) [1]
  let files : Files := onlyFile "p.asm" "JMP end\nend:\n"
  have hargs : Command.read? ["asm", "p.asm"] = some (.asm "p.asm" false) := by decide +kernel
  have hfile : fileText (files "p.asm") = .ok "JMP end\nend:\n" := by decide +kernel
  have hassemble : assemble "JMP end\nend:\n" = .ok p := rfl
  let printed : List String := ["     0  JMP end                          ; line 1"]
  have hprinted : execute files ["asm", "p.asm"] =
      { code := 0, stdout := String.join (printed.map (· ++ "\n")) } := by
    decide +kernel
  obtain ⟨lines, hlines, hnewline, hplaced⟩ := h files _ _ _ p hargs hfile hassemble
  rw [hprinted, Answer.mk.injEq] at hlines
  obtain rfl := Assembly.eq_of_join_eq (by decide) hnewline hlines.2.1
  obtain ⟨above, below, heq, -⟩ := hplaced "end" 1 rfl
  have hmem : "end:" ∈ printed := heq ▸ List.mem_append_right _ List.mem_cons_self
  exact absurd hmem (by decide)

end CommandLine

end VectorMachine
