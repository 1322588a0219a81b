import Mathlib.Data.List.Nodup
import Mathlib.Data.List.Pairwise
import VectorMachine.Proofs.Assembly.Decodable
import VectorMachine.Proofs.Assembly.Linked
import VectorMachine.Proofs.Instruction.Letters
import VectorMachine.Proofs.Text.Trim

namespace VectorMachine

namespace Program

def namesAt (p : Program) (i : Nat) : List String :=
  (p.labels.entries.filter fun e => e.2 == i).map Prod.fst

def rows (p : Program) (names : Nat → List String) : List String :=
  (List.range (p.size + 1)).flatMap fun i =>
    (names i).map (· ++ ":") ++ (p.instruction? i).toList

def written (p : Program) (names : Nat → List String) : String :=
  String.join ((p.rows names).map (· ++ "\n"))

theorem mem_namesAt_iff {p : Program} {i : Nat} {name : String} :
    name ∈ p.namesAt i ↔ p.label? name = some i := by
  simp only [namesAt, List.mem_map, List.mem_filter, beq_iff_eq, label?,
    ← NameMap.mem_entries_iff, Prod.exists, exists_and_right, exists_eq_right]

theorem nodup_namesAt (p : Program) (i : Nat) : (p.namesAt i).Nodup := by
  have hkeys : (p.labels.entries.map Prod.fst).Nodup := by
    rw [List.Nodup, List.pairwise_map]
    exact p.labels.ordered.imp String.ne_of_lt
  exact hkeys.sublist (List.filter_sublist.map Prod.fst)

end Program

namespace Assembly

open Instruction (tokens decode separates)

theorem splitOn_join (rows : List String) (h : ∀ row ∈ rows, '\n' ∉ row.toList) :
    (String.join (rows.map (· ++ "\n"))).toList.splitOn '\n' = rows.map String.toList ++ [[]] := by
  induction rows with
  | nil => rfl
  | cons row rows ih =>
      obtain ⟨hrow, hrows⟩ := List.forall_mem_cons.1 h
      have hcs : (String.join ((row :: rows).map (· ++ "\n"))).toList =
          row.toList ++ '\n' :: (String.join (rows.map (· ++ "\n"))).toList := by
        simp [String.toList_join]
      rw [hcs, List.splitOn_append_cons_self_of_not_mem hrow, ih hrows]
      rfl

theorem parts_read (n : Nat) (cs : List Char) : (Line.read n cs).parts =
    ((Line.labelName? (Line.content cs)).map String.ofList,
      Line.nonempty (Line.read n cs).text.toList) :=
  Prod.ext (Line.label_read n cs) (Line.text_read n cs).symm

theorem map_parts_linesOf (source : String) : (linesOf source).map Line.parts =
    (source.toList.splitOn '\n').map fun cs => (Line.read 0 cs).parts := by
  apply List.ext_getElem?
  intro i
  rw [List.getElem?_map, getElem?_linesOf, List.getElem?_map, Option.map_map]
  congr 1
  funext cs
  unfold Line.read
  dsimp only [Function.comp_apply]
  split <;> rfl

structure Plain (text : String) : Prop where
  ne_empty : text ≠ ""
  trimmed : Text.trim text.toList = text.toList
  no_newline : '\n' ∉ text.toList
  no_colon : ':' ∉ text.toList
  no_comment : ∀ c ∈ text.toList, Line.opensComment c = false

theorem content_eq_self {cs : List Char} (hno : ∀ c ∈ cs, Line.opensComment c = false)
    (htrim : Text.trim cs = cs) : Line.content cs = cs := by
  rw [Line.content, List.takeWhile_eq_self_iff.2 fun c hc => by simp [hno c hc], htrim]

theorem Plain.parts_read {text : String} (h : Plain text) :
    (Line.read 0 text.toList).parts = (none, some text) := by
  have hcontent := content_eq_self h.no_comment h.trimmed
  have hname : Line.labelName? (Line.content text.toList) = none := by
    rw [hcontent, Line.labelName?, if_neg]
    simp [h.no_colon]
  rw [Assembly.parts_read, hname, Line.text_read_of_none hname, hcontent, Line.nonempty, if_neg]
  · simp
  · simpa using h.ne_empty

theorem not_opensComment_and_ne_colon {c : Char}
    (h : separates c = true ∨ Token.isWordChar c = true) :
    Line.opensComment c = false ∧ c ≠ ':' := by
  have hsigns : c ≠ ';' ∧ c ≠ '#' ∧ c ≠ ':' := by
    refine ⟨?_, ?_, ?_⟩ <;>
      · rintro rfl
        rcases h with h | h <;> cases h
  rw [Line.opensComment, Bool.or_eq_false_iff, beq_eq_false_iff_ne, beq_eq_false_iff_ne]
  exact ⟨⟨hsigns.1, hsigns.2.1⟩, hsigns.2.2⟩

theorem not_isBlank_of_isWordChar {c : Char} (h : Token.isWordChar c = true) :
    Text.isBlank c = false := by
  have hsep := Instruction.not_separates_of_isWordChar h
  rw [separates, Bool.or_eq_false_iff] at hsep
  exact hsep.2

theorem parts_read_label {name : String} (h : Token.isIdentifier name.toList = true) :
    (Line.read 0 (name ++ ":").toList).parts = (some name, none) := by
  have hword := Token.isWordChar_of_isIdentifier h
  have hsigns : ∀ c ∈ name.toList, Line.opensComment c = false ∧ c ≠ ':' := fun c hc =>
    not_opensComment_and_ne_colon (.inr (hword c hc))
  have hcolon : ':' ∉ name.toList := fun hc => (hsigns _ hc).2 rfl
  have htrim := Text.trim_eq_self fun c hc => not_isBlank_of_isWordChar (hword c hc)
  have hcs : (name ++ ":").toList = name.toList ++ ':' :: [] := by simp
  have hcontent : Line.content (name.toList ++ ':' :: []) = name.toList ++ ':' :: [] := by
    apply content_eq_self
    · rw [List.forall_mem_append, List.forall_mem_singleton]
      exact ⟨fun c hc => (hsigns c hc).1, rfl⟩
    · apply Text.trim_eq_self
      rw [List.forall_mem_append, List.forall_mem_singleton]
      exact ⟨fun c hc => not_isBlank_of_isWordChar (hword c hc), rfl⟩
  have hname : Line.labelName? (name.toList ++ ':' :: []) = some name.toList :=
    Line.labelName?_eq_some_iff.2 ⟨name.toList, [], rfl, hcolon, htrim.symm, htrim.symm ▸ h⟩
  rw [hcs, parts_read, Line.text_read_of_label hcontent hcolon (htrim.symm ▸ h), hcontent, hname]
  simp [Line.nonempty, Text.trim]

theorem not_mem_newline_label {name : String} (h : Token.isIdentifier name.toList = true) :
    '\n' ∉ (name ++ ":").toList := by
  have hword := Token.isWordChar_of_isIdentifier h
  intro hmem
  rw [String.toList_append, List.mem_append] at hmem
  rcases hmem with hmem | hmem
  · cases hword _ hmem
  · exact absurd hmem (by decide)

theorem Stands.not_mem_newline {source : String} {n : Nat} {text : List Char}
    (h : Stands source n text) : '\n' ∉ text := by
  cases h with
  | row hrow =>
      rename_i i cs
      intro hmem
      have hcs : '\n' ∈ cs := (List.takeWhile_sublist _).subset (Text.mem_of_mem_trim hmem)
      have hpieces : cs ∈ Text.pieces (fun c => c == '\n') source.toList := by
        rw [Text.pieces_eq_splitOnP]
        exact List.mem_of_getElem? hrow
      cases Text.not_sep_of_mem_pieces hpieces '\n' hcs

theorem Instructs.not_mem_newline {source : String} {n : Nat} {text : String}
    (h : Instructs source n text) : '\n' ∉ text.toList := by
  cases h with
  | behind hs hcolon hid =>
      rw [String.toList_ofList]
      intro hmem
      apply hs.not_mem_newline
      exact List.mem_append_right _ (List.mem_cons_of_mem _ (Text.mem_of_mem_trim hmem))
  | whole hs hno =>
      rw [String.toList_ofList]
      exact hs.not_mem_newline

theorem Instructs.trimmed {source : String} {n : Nat} {text : String}
    (h : Instructs source n text) : Text.trim text.toList = text.toList := by
  cases h with
  | behind hs hcolon hid => rw [String.toList_ofList, Text.trim_trim]
  | whole hs hno =>
      cases hs with
      | row hrow => rw [String.toList_ofList, Text.trim_trim]

theorem Instructs.plain {source : String} {n : Nat} {text : String} (h : Instructs source n text)
    {i : Instruction} (hi : decode text = .ok i) : Plain text := by
  have hsigns : ∀ c ∈ text.toList, Line.opensComment c = false ∧ c ≠ ':' := fun c hc =>
    not_opensComment_and_ne_colon (Instruction.separates_or_isWordChar hi c hc)
  constructor
  case ne_empty =>
    rintro rfl
    cases hi
  case trimmed => exact h.trimmed
  case no_newline => exact h.not_mem_newline
  case no_colon => exact fun hc => (hsigns _ hc).2 rfl
  case no_comment => exact fun c hc => (hsigns c hc).1

structure Writable (p : Program) (names : Nat → List String) : Prop where
  perm : ∀ i ≤ p.size, (names i).Perm (p.namesAt i)
  label : ∀ name index, p.label? name = some index →
    Token.isIdentifier name.toList = true ∧ index ≤ p.size
  plain : ∀ i text, p.instruction? i = some text → Plain text

theorem isIdentifier_of_label? {source : String} {p : Program} (h : assemble source = .ok p)
    {name : String} {index : Nat} (hindex : p.label? name = some index) :
    Token.isIdentifier name.toList = true := by
  obtain ⟨-, rfl⟩ := assemble_eq_ok_iff.1 h
  obtain ⟨n, hn⟩ := exists_label?_iff.1 ⟨index, hindex⟩
  exact hn.isIdentifier

theorem writable_of_assemble {source : String} {p : Program} (h : assemble source = .ok p)
    (hdecode : ∀ n text, p.instruction? n = some text → ∃ i, decode text = .ok i)
    {names : Nat → List String} (hnames : ∀ i ≤ p.size, (names i).Perm (p.namesAt i)) :
    Writable p names := by
  have hp := (assemble_eq_ok_iff.1 h).2
  subst hp
  constructor
  case perm => exact hnames
  case label =>
    intro name index hindex
    exact ⟨isIdentifier_of_label? h hindex, label?_le_size hindex⟩
  case plain =>
    intro n text ht
    obtain ⟨m, hm⟩ := exists_instructs_of_link ht
    obtain ⟨i, hi⟩ := hdecode n text ht
    exact hm.plain hi

def block (p : Program) (names : Nat → List String) (i : Nat) :
    List (Option String × Option String) :=
  (names i).map (fun name => (some name, none)) ++
    (p.instruction? i).toList.map fun text => (none, some text)

def blocks (p : Program) (names : Nat → List String) (k : Nat) :
    List (Option String × Option String) :=
  (List.range k).flatMap (block p names)

theorem blocks_succ (p : Program) (names : Nat → List String) (k : Nat) :
    blocks p names (k + 1) = blocks p names k ++ block p names k := by
  rw [blocks, List.range_succ, List.flatMap_append, List.flatMap_singleton]
  rfl

theorem texts_blocks (p : Program) (names : Nat → List String) (k : Nat) :
    texts (blocks p names k) = p.instructions.toList.take k := by
  induction k with
  | zero => rfl
  | succ k ih =>
      have hblock : texts (block p names k) = p.instructions.toList[k]?.toList := by
        rw [block, texts_append, Program.instruction?, ← Array.getElem?_toList]
        cases p.instructions.toList[k]? <;> simp [texts]
      rw [blocks_succ, texts_append, ih, hblock, List.take_add_one]

theorem filterMap_label_blocks (p : Program) (names : Nat → List String) (k : Nat) :
    (blocks p names k).filterMap Prod.fst = (List.range k).flatMap names := by
  rw [blocks, List.filterMap_flatMap]
  congr 1
  funext i
  cases ht : p.instruction? i <;> simp [block, ht, List.filterMap_map]

theorem index?_labels (name : String) (names : List String) :
    index? name (names.map fun n => (some n, none)) = if name ∈ names then some 0 else none := by
  induction names with
  | nil => rfl
  | cons n names ih =>
      rw [List.map_cons, index?, ih]
      by_cases hn : n = name
      · simp [hn]
      · have hn' : name ≠ n := fun he => hn he.symm
        simp [hn, hn']

section Writable

variable {p : Program} {names : Nat → List String} (h : Writable p names)

include h

theorem mem_names_iff {i : Nat} (hi : i ≤ p.size) {name : String} :
    name ∈ names i ↔ p.label? name = some i := by
  rw [(h.perm i hi).mem_iff, Program.mem_namesAt_iff]

theorem index?_block {k : Nat} (hk : k ≤ p.size) (name : String) :
    index? name (block p names k) = if p.label? name = some k then some 0 else none := by
  have htail :
      index? name ((p.instruction? k).toList.map fun text => (none, some text)) = none := by
    apply index?_eq_none
    intro x hx
    obtain ⟨text, -, rfl⟩ := List.mem_map.1 hx
    exact nofun
  rw [block, index?_append, htail, index?_labels, Option.map_none, Option.or_none]
  simp only [mem_names_iff h hk]

theorem index?_blocks {k : Nat} (hk : k ≤ p.size + 1) (name : String) :
    index? name (blocks p names k) = (p.label? name).filter (· < k) := by
  induction k with
  | zero => cases p.label? name <;> rfl
  | succ k ih =>
      have hk' : k ≤ p.size := Nat.le_of_succ_le_succ hk
      have hlen : (texts (blocks p names k)).length = k := by
        rw [texts_blocks, List.length_take, Array.length_toList]
        exact Nat.min_eq_left hk'
      rw [blocks_succ, index?_append, ih (Nat.le_of_succ_le hk), hlen, index?_block h hk']
      cases p.label? name with
      | none => rfl
      | some index =>
          rcases Nat.lt_trichotomy index k with hlt | rfl | hgt
          · have hle : index < k + 1 := Nat.lt_succ_of_lt hlt
            simp [Option.filter, hlt, hle]
          · simp [Option.filter]
          · have hne : index ≠ k := Nat.ne_of_gt hgt
            have hnot : ¬ index < k := Nat.not_lt_of_gt hgt
            have hnot' : ¬ index < k + 1 := by omega
            simp [Option.filter, hne, hnot, hnot']

theorem nodup_flatMap_names {k : Nat} (hk : k ≤ p.size + 1) :
    ((List.range k).flatMap names).Nodup := by
  have hle {i : Nat} (hi : i ∈ List.range k) : i ≤ p.size := by
    have hlt := List.mem_range.1 hi
    omega
  rw [List.nodup_flatMap]
  constructor
  · intro i hi
    rw [(h.perm i (hle hi)).nodup_iff]
    exact p.nodup_namesAt i
  · refine List.pairwise_lt_range.imp_of_mem ?_
    intro i j hi hj hij name hni hnj
    rw [mem_names_iff h (hle hi)] at hni
    rw [mem_names_iff h (hle hj), hni, Option.some.injEq] at hnj
    exact Nat.ne_of_lt hij hnj

theorem isIdentifier_of_mem_names {i : Nat} (hi : i ∈ List.range (p.size + 1)) {name : String}
    (hn : name ∈ names i) : Token.isIdentifier name.toList = true := by
  have hle : i ≤ p.size := Nat.le_of_lt_succ (List.mem_range.1 hi)
  exact (h.label name i ((mem_names_iff h hle).1 hn)).1

theorem not_mem_newline_rows : ∀ row ∈ p.rows names, '\n' ∉ row.toList := by
  intro row hrow
  obtain ⟨i, hi, hrow⟩ := List.mem_flatMap.1 hrow
  rcases List.mem_append.1 hrow with hrow | hrow
  · obtain ⟨name, hn, rfl⟩ := List.mem_map.1 hrow
    exact not_mem_newline_label (isIdentifier_of_mem_names h hi hn)
  · exact (h.plain i row (Option.mem_toList.1 hrow)).no_newline

theorem map_parts_written : (linesOf (p.written names)).map Line.parts =
    blocks p names (p.size + 1) ++ [(none, none)] := by
  rw [map_parts_linesOf, Program.written, splitOn_join _ (not_mem_newline_rows h), List.map_append,
    List.map_map]
  congr 1
  rw [Program.rows, blocks, List.map_flatMap]
  refine List.flatMap_congr fun i hi => ?_
  rw [block, List.map_append, List.map_map]
  congr 1
  · exact List.map_congr_left fun name hn => parts_read_label (isIdentifier_of_mem_names h hi hn)
  · cases ht : p.instruction? i with
    | none => rfl
    | some text => exact congrArg (fun x => [x]) (h.plain i text ht).parts_read

theorem texts_written :
    texts ((linesOf (p.written names)).map Line.parts) = p.instructions.toList := by
  have htake : p.instructions.toList.take (p.size + 1) = p.instructions.toList :=
    List.take_of_length_le (Nat.le_succ _)
  rw [map_parts_written h, texts_append, texts_blocks, htake]
  exact List.append_nil _

theorem index?_written (name : String) :
    index? name ((linesOf (p.written names)).map Line.parts) = p.label? name := by
  rw [map_parts_written h, index?_append, index?_blocks h (Nat.le_refl _)]
  have hlast : index? name [(none, none)] = none := rfl
  rw [hlast, Option.map_none, Option.or_none]
  cases hindex : p.label? name with
  | none => rfl
  | some index =>
      have hlt : index < p.size + 1 := Nat.lt_succ_of_le (h.label name index hindex).2
      simp [Option.filter, hlt]

theorem nodup_labels_written : ((linesOf (p.written names)).filterMap Line.label).Nodup := by
  have hparts : (linesOf (p.written names)).filterMap Line.label =
      ((linesOf (p.written names)).map Line.parts).filterMap Prod.fst := by
    rw [List.filterMap_map]
    rfl
  rw [hparts, map_parts_written h, List.filterMap_append, filterMap_label_blocks]
  simpa using nodup_flatMap_names h (Nat.le_refl _)

end Writable

section Copy

variable {source copy : String}

theorem exists_instructs_iff {text : String} (hne : text ≠ "") :
    (∃ n, Instructs source n text) ↔ text ∈ texts ((linesOf source).map Line.parts) := by
  have hbody {l : Line} : l.text = text ↔ l.body = some text := by
    cases hb : l.body with
    | none => simp [Line.text, hb, hne.symm]
    | some body => simp [Line.text, hb]
  rw [texts, List.filterMap_map, List.mem_filterMap]
  simp only [instructs_iff, hbody, Function.comp_apply, Line.parts]
  constructor
  · rintro ⟨n, l, hl, -, htext⟩
    exact ⟨l, hl, htext⟩
  · rintro ⟨l, hl, htext⟩
    exact ⟨l.number, l, hl, rfl, htext⟩

theorem eq_of_nodup_labels (h : ((linesOf source).filterMap Line.label).Nodup) {m n : Nat}
    {name : String} (hm : Labels source m name) (hn : Labels source n name) : m = n := by
  obtain ⟨k, hk, rfl, hkname⟩ := labels_iff.1 hm
  obtain ⟨l, hl, rfl, hlname⟩ := labels_iff.1 hn
  rw [List.Nodup, List.pairwise_filterMap] at h
  have hsymm : Std.Symm fun a b : Line =>
      ∀ x, a.label = some x → ∀ y, b.label = some y → x ≠ y :=
    ⟨fun a b hab x hx y hy => (hab y hy x hx).symm⟩
  refine Classical.byContradiction fun hne => ?_
  have hkl : k ≠ l := fun he => hne (he ▸ rfl)
  exact h.forall hk hl hkl name hkname name hlname rfl

theorem not_occurs_of_copy (hclean : ∀ o, ¬ Occurs source o)
    (htexts : texts ((linesOf copy).map Line.parts) = texts ((linesOf source).map Line.parts))
    (hlabels : ∀ name, (∃ n, Labels source n name) → ∃ n, Labels copy n name)
    (honce : ((linesOf copy).filterMap Line.label).Nodup) (o : Occurrence) : ¬ Occurs copy o := by
  have htokens {n : Nat} {text token : String} {args : List String} (h : Instructs copy n text)
      (ht : tokens text = token :: args) : ∃ m, Instructs source m text := by
    have hne : text ≠ "" := by
      rintro rfl
      cases ht
    rw [exists_instructs_iff hne, ← htexts, ← exists_instructs_iff hne]
    exact ⟨n, h⟩
  have hinvokes {n : Nat} {op : Opcode} {args : List String} (h : Invokes copy n op args) :
      ∃ m, Invokes source m op args := by
    obtain ⟨text, mnemonic, htext, ht, hop⟩ := h
    obtain ⟨m, hm⟩ := htokens htext ht
    exact ⟨m, text, mnemonic, hm, ht, hop⟩
  intro ho
  cases ho with
  | duplicateLabel h hm hlt => exact Nat.ne_of_lt hlt (eq_of_nodup_labels honce hm h)
  | unknownInstruction h ht hno =>
      obtain ⟨m, hm⟩ := htokens h ht
      exact hclean _ (.unknownInstruction hm ht hno)
  | operandCount h hcount =>
      obtain ⟨m, hm⟩ := hinvokes h
      exact hclean _ (.operandCount hm hcount)
  | unknownVectorOp h hk hno =>
      obtain ⟨m, hm⟩ := hinvokes h
      exact hclean _ (.unknownVectorOp hm hk hno)
  | invalidRegister h hk hg hreg hbound =>
      obtain ⟨m, hm⟩ := hinvokes h
      exact hclean _ (.invalidRegister hm hk hg hreg hbound)
  | undefinedLabel h hop hk hreg hint hno =>
      obtain ⟨m, hm⟩ := hinvokes h
      refine hclean _ (.undefinedLabel hm hop hk hreg hint fun n hn => ?_)
      obtain ⟨k, hk⟩ := hlabels _ ⟨n, hn⟩
      exact hno k hk

end Copy

theorem reassembly_fixpoint {source : String} {p : Program} (h : assemble source = .ok p)
    (hdecode : ∀ n text, p.instruction? n = some text → ∃ i, decode text = .ok i)
    (names : Nat → List String) (hnames : ∀ i ≤ p.size, (names i).Perm (p.namesAt i)) :
    ∃ r, assemble (p.written names) = .ok r ∧ r.instructions = p.instructions ∧
      r.labels = p.labels := by
  have hw := writable_of_assemble h hdecode hnames
  obtain ⟨hclean, hp⟩ := assemble_eq_ok_iff.1 h
  have hlabel (name : String) :
      (link (definitionsOf (p.written names)) (linesOf (p.written names))).label? name =
        p.label? name := by
    rw [label?_linked, index?_written hw]
  refine ⟨_, assemble_eq_ok_iff.2 ⟨?_, rfl⟩, ?_, NameMap.eq_of_find? hlabel⟩
  · apply not_occurs_of_copy hclean
    · rw [texts_written hw, hp, instructions_link]
    · intro name hname
      rw [← exists_label?_iff] at hname ⊢
      rwa [hlabel, hp]
    · exact nodup_labels_written hw
  · rw [← Array.toList_inj, instructions_link, texts_written hw]

def crowded : String := "loop: MOV\r R0,\u00a02 ; twice\n first:\nsecond : jnz loop\n\nend:"

def crowdedProgram : Program :=
  .ofParts ["MOV\r R0,\u00a02", "jnz loop"]
    (.ofList [("loop", 0), ("first", 1), ("second", 1), ("end", 2)]) [1, 3]

theorem reassembly_fixpoint_crowded :
    assemble crowded = .ok crowdedProgram ∧
      crowdedProgram.written (fun i => (crowdedProgram.namesAt i).reverse) =
        "loop:\nMOV\r R0,\u00a02\nsecond:\nfirst:\njnz loop\nend:\n" ∧
      ∃ r, assemble "loop:\nMOV\r R0,\u00a02\nsecond:\nfirst:\njnz loop\nend:\n" = .ok r ∧
        r.instructions = crowdedProgram.instructions ∧ r.labels = crowdedProgram.labels := by
  have h : assemble crowded = .ok crowdedProgram := rfl
  have hwritten : crowdedProgram.written (fun i => (crowdedProgram.namesAt i).reverse) =
      "loop:\nMOV\r R0,\u00a02\nsecond:\nfirst:\njnz loop\nend:\n" := by
    decide +kernel
  refine ⟨h, hwritten, ?_⟩
  rw [← hwritten]
  refine reassembly_fixpoint h ?_ _ fun i _ => List.reverse_perm _
  intro n text ht
  match n with
  | 0 => exact ⟨⟨.mov, [.register 0, .immediate 2]⟩, Option.some.inj ht ▸ rfl⟩
  | 1 => exact ⟨⟨.jumpIf .notZero, [.label "loop"]⟩, Option.some.inj ht ▸ rfl⟩
  | n + 2 => simp [Program.instruction?, crowdedProgram, Program.ofParts] at ht

end Assembly

end VectorMachine
