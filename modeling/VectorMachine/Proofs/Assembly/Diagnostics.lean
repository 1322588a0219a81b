import VectorMachine.Proofs.Assembly.Labels
import VectorMachine.Proofs.Assembly.Occurrence
import VectorMachine.Proofs.Instruction.Reading

namespace VectorMachine.Assembly

def labelProblem? (defs : Definitions) (l : Line) : Option Problem :=
  l.label.bind fun name => (defs.find? name).bind fun d =>
    if d.line = l.number then none else some (.duplicateLabel name)

def tokenProblem? (defs : Definitions) (op : Opcode) (k : Nat) (token : String) : Option Problem :=
  if op = .gexec ∧ k = 0 then vectorOpProblem? token
  else operandProblem? defs (op.controlTransfer && k == 0) token

def countProblem? (op : Opcode) (found : Nat) : Option Problem :=
  if op.arity.accepts found then none else some (.operandCount op found)

def problem? (defs : Definitions) (l : Line) (spot : Spot) : Option Problem :=
  match spot, Instruction.tokens l.text with
  | .label, _ => labelProblem? defs l
  | _, [] => none
  | .mnemonic, mnemonic :: _ =>
      if (Opcode.ofMnemonic? mnemonic).isNone then some (.unknownInstruction mnemonic) else none
  | .count, mnemonic :: args =>
      (Opcode.ofMnemonic? mnemonic).bind fun op => countProblem? op args.length
  | .operand k, mnemonic :: args =>
      (Opcode.ofMnemonic? mnemonic).bind fun op => args[k]?.bind (tokenProblem? defs op k)

def spots (l : Line) : List Spot :=
  .label :: .mnemonic :: .count ::
    (List.range ((Instruction.tokens l.text).length - 1)).map .operand

theorem labelProblems_eq (defs : Definitions) (l : Line) :
    labelProblems defs l = (labelProblem? defs l).toList := by
  unfold labelProblems labelProblem?
  cases l.label with
  | none => rfl
  | some name =>
      simp only [Option.bind_some]
      cases defs.find? name with
      | none => rfl
      | some d =>
          simp only [Option.bind_some]
          split <;> rfl

theorem countProblems_eq (op : Opcode) (found : Nat) :
    countProblems op found = (countProblem? op found).toList := by
  unfold countProblems countProblem?
  split <;> rfl

theorem filterMap_range {α β : Type} (f : α → Option β) (xs : List α) :
    (List.range xs.length).filterMap (fun k => xs[k]?.bind f) = xs.filterMap f := by
  induction xs with
  | nil => rfl
  | cons x xs ih =>
      rw [List.length_cons, List.range_succ_eq_map, List.filterMap_cons, List.filterMap_map,
        List.filterMap_cons]
      simp only [List.getElem?_cons_zero, Option.bind_some, Function.comp_def,
        List.getElem?_cons_succ, ih]

theorem tokenProblem?_succ (defs : Definitions) (op : Opcode) (k : Nat) :
    tokenProblem? defs op (k + 1) = operandProblem? defs false := by
  funext token
  simp [tokenProblem?]

theorem tokenProblem?_zero (defs : Definitions) (op : Opcode) (token : String) :
    tokenProblem? defs op 0 token =
      if op = .gexec then vectorOpProblem? token
      else operandProblem? defs op.controlTransfer token := by
  simp [tokenProblem?]

theorem operandProblems_eq (defs : Definitions) (op : Opcode) (args : List String) :
    operandProblems defs op args =
      (List.range args.length).filterMap fun k => args[k]?.bind (tokenProblem? defs op k) := by
  cases args with
  | nil => rfl
  | cons first rest =>
      rw [operandProblems, ← filterMap_range, List.length_cons, List.range_succ_eq_map,
        List.filterMap_cons, List.filterMap_map]
      simp only [List.getElem?_cons_zero, Option.bind_some, Function.comp_def,
        List.getElem?_cons_succ, tokenProblem?_succ, ← tokenProblem?_zero]
      cases tokenProblem? defs op 0 first <;> rfl

theorem flatMap_body (defs : Definitions) (l : Line) :
    l.body.toList.flatMap (bodyProblems defs) = bodyProblems defs l.text := by
  cases hb : l.body with
  | none =>
      -- Without an instruction the text is empty, and an empty text has no problem of its own.
      have ht : Instruction.tokens "" = [] := by decide
      simp [Line.text, hb, bodyProblems, ht]
  | some body => simp [Line.text, hb]

theorem lineProblems_eq (defs : Definitions) (l : Line) :
    lineProblems defs l = (spots l).filterMap (problem? defs l) := by
  rw [lineProblems, labelProblems_eq, flatMap_body, bodyProblems, spots]
  cases ht : Instruction.tokens l.text with
  | nil => cases hl : labelProblem? defs l <;> simp [problem?, ht, hl]
  | cons mnemonic args =>
      cases ho : Opcode.ofMnemonic? mnemonic with
      | none => cases hl : labelProblem? defs l <;> simp [problem?, ht, ho, hl]
      | some op =>
          simp only [countProblems_eq, operandProblems_eq]
          cases hl : labelProblem? defs l <;> cases hc : countProblem? op args.length <;>
            simp [problem?, ht, ho, hl, hc, List.filterMap_map, Function.comp_def]

def occurrences (source : String) : List Occurrence :=
  (linesOf source).flatMap fun l => (spots l).filterMap fun spot =>
    (problem? (definitionsOf source) l spot).map (Occurrence.mk l.number spot)

theorem diagnose_eq (source : String) :
    diagnose (definitionsOf source) (linesOf source) =
      (occurrences source).map Occurrence.diagnostic := by
  rw [diagnose, occurrences, List.map_flatMap]
  congr 1
  funext l
  rw [lineProblems_eq, List.map_filterMap, List.map_filterMap]
  congr 1
  funext spot
  rw [Option.map_map]
  rfl

section Problems

variable {source : String} {p : Problem}

theorem Labels.isIdentifier {n : Nat} {name : String} (h : Labels source n name) :
    Token.isIdentifier name.toList = true := by
  obtain ⟨head, rest, -, -, rfl, hid⟩ := h
  rwa [String.toList_ofList]

theorem not_labels_of_not_isIdentifier {name : String}
    (h : Token.isIdentifier name.toList = false) (n : Nat) : ¬ Labels source n name := fun hn => by
  rw [hn.isIdentifier] at h
  cases h

theorem labelProblem?_eq_some_iff {l : Line} (hl : l ∈ linesOf source) :
    labelProblem? (definitionsOf source) l = some p ↔
      ∃ name m, l.label = some name ∧ Labels source m name ∧ m < l.number ∧
        p = .duplicateLabel name := by
  cases hname : l.label with
  | none => simp [labelProblem?, hname]
  | some name =>
      have hlabels : Labels source l.number name := labels_iff.2 ⟨l, hl, rfl, hname⟩
      cases hd : (definitionsOf source).find? name with
      | none => exact absurd hlabels (not_labels_of_find?_eq_none hd _)
      | some d =>
          obtain ⟨hfirst, hleast⟩ := first_labels_of_find?_eq_some hd
          have hle := hleast _ hlabels
          simp only [labelProblem?, hname, hd, Option.bind_some]
          constructor
          · intro h
            split at h
            · cases h
            · rename_i hne
              exact ⟨name, d.line, rfl, hfirst, by omega, (Option.some.inj h).symm⟩
          · rintro ⟨other, m, hother, hm, hlt, rfl⟩
            cases hother
            have hne := hleast m hm
            rw [if_neg (by omega)]

theorem vectorOpProblem?_eq_some_iff {token : String} : vectorOpProblem? token = some p ↔
    (∀ op : VectorOp, ¬ Spells token op.name) ∧ p = .unknownVectorOp token := by
  rw [← VectorOp.ofName?_eq_none_iff, vectorOpProblem?]
  cases VectorOp.ofName? token <;> simp [eq_comm]

theorem operandProblem?_eq_some_iff {target : Bool} {token : String} :
    operandProblem? (definitionsOf source) target token = some p ↔
      (Token.isRegisterName token.toList = true ∧ 8 ≤ Nat.ofDigitChars 10 token.toList.tail 0 ∧
          p = .invalidRegister token) ∨
        (target = true ∧ Token.isRegisterName token.toList = false ∧
          Token.integer? token.toList = none ∧ (∀ m, ¬ Labels source m token) ∧
          p = .undefinedLabel token) := by
  unfold operandProblem?
  cases hread : Operand.read token with
  | error e =>
      cases Operand.readAs_of_read hread with
      | noRegister hreg hbound => simp [hreg, hbound, eq_comm]
      | malformed h =>
          obtain ⟨hreg, hint, hid⟩ := h
          simp [hreg, hint, not_labels_of_not_isIdentifier hid, eq_comm]
  | ok o =>
      cases Operand.readAs_of_read hread with
      | register hreg hr =>
          rename_i r
          have hbound : ¬ 8 ≤ Nat.ofDigitChars 10 token.toList.tail 0 := by omega
          simp [hreg, hbound]
      | immediate hreg hint => simp [hreg, hint]
      | label hreg hint _ =>
          cases hd : (definitionsOf source).find? token with
          | none => simp [hreg, hint, hd, not_labels_of_find?_eq_none hd, eq_comm]
          | some d =>
              have hlabels : Labels source d.line token := (first_labels_of_find?_eq_some hd).1
              have hsome : (∀ m, ¬ Labels source m token) ↔ False :=
                ⟨fun hno => hno _ hlabels, False.elim⟩
              simp [hreg, hint, hd, hsome]

theorem invokes_iff {n : Nat} {op : Opcode} {args : List String} : Invokes source n op args ↔
    ∃ l ∈ linesOf source, l.number = n ∧ ∃ mnemonic,
      Instruction.tokens l.text = mnemonic :: args ∧ Opcode.ofMnemonic? mnemonic = some op := by
  constructor
  · rintro ⟨text, mnemonic, htext, ht, hop⟩
    obtain ⟨l, hl, hn, rfl⟩ := instructs_iff.1 htext
    exact ⟨l, hl, hn, mnemonic, ht, Opcode.ofMnemonic?_eq_some_iff.2 hop⟩
  · rintro ⟨l, hl, hn, mnemonic, ht, hop⟩
    exact ⟨l.text, mnemonic, instructs_iff.2 ⟨l, hl, hn, rfl⟩, ht,
      Opcode.ofMnemonic?_eq_some_iff.1 hop⟩

theorem occurs_of_tokenProblem? {n k : Nat} {op : Opcode} {args : List String} {token : String}
    (hinv : Invokes source n op args) (hk : args[k]? = some token)
    (h : tokenProblem? (definitionsOf source) op k token = some p) :
    Occurs source ⟨n, .operand k, p⟩ := by
  unfold tokenProblem? at h
  split at h
  · rename_i hg
    obtain ⟨rfl, rfl⟩ := hg
    obtain ⟨hno, rfl⟩ := vectorOpProblem?_eq_some_iff.1 h
    exact .unknownVectorOp hinv hk hno
  · rename_i hg
    rcases operandProblem?_eq_some_iff.1 h with
      ⟨hreg, hbound, rfl⟩ | ⟨htarget, hreg, hint, hno, rfl⟩
    · exact .invalidRegister hinv hk hg hreg hbound
    · simp only [Bool.and_eq_true, beq_iff_eq] at htarget
      obtain ⟨hop, rfl⟩ := htarget
      exact .undefinedLabel hinv hop hk hreg hint hno

theorem occurs_of_problem? {l : Line} (hl : l ∈ linesOf source) {spot : Spot}
    (h : problem? (definitionsOf source) l spot = some p) : Occurs source ⟨l.number, spot, p⟩ := by
  cases spot with
  | label =>
      obtain ⟨name, m, hname, hm, hlt, rfl⟩ := (labelProblem?_eq_some_iff hl).1 h
      exact .duplicateLabel (labels_iff.2 ⟨l, hl, rfl, hname⟩) hm hlt
  | mnemonic =>
      cases ht : Instruction.tokens l.text with
      | nil => simp [problem?, ht] at h
      | cons mnemonic args =>
          simp only [problem?, ht, Option.isNone_iff_eq_none] at h
          split at h
          · rename_i hno
            cases h
            exact .unknownInstruction (instructs_iff.2 ⟨l, hl, rfl, rfl⟩) ht
              (Opcode.ofMnemonic?_eq_none_iff.1 hno)
          · cases h
  | count =>
      cases ht : Instruction.tokens l.text with
      | nil => simp [problem?, ht] at h
      | cons mnemonic args =>
          simp only [problem?, ht, Option.bind_eq_some_iff, countProblem?] at h
          obtain ⟨op, hop, h⟩ := h
          split at h
          · cases h
          · rename_i hcount
            cases h
            have hinv := invokes_iff.2 ⟨l, hl, rfl, mnemonic, ht, hop⟩
            exact .operandCount hinv (by simpa using hcount)
  | operand k =>
      cases ht : Instruction.tokens l.text with
      | nil => simp [problem?, ht] at h
      | cons mnemonic args =>
          simp only [problem?, ht, Option.bind_eq_some_iff] at h
          obtain ⟨op, hop, token, hk, h⟩ := h
          exact occurs_of_tokenProblem? (invokes_iff.2 ⟨l, hl, rfl, mnemonic, ht, hop⟩) hk h

theorem exists_problem?_of_tokenProblem? {n k : Nat} {op : Opcode} {args : List String}
    {token : String} (hinv : Invokes source n op args) (hk : args[k]? = some token)
    (h : tokenProblem? (definitionsOf source) op k token = some p) :
    ∃ l ∈ linesOf source, l.number = n ∧
      problem? (definitionsOf source) l (.operand k) = some p := by
  obtain ⟨l, hl, hn, mnemonic, ht, hop⟩ := invokes_iff.1 hinv
  exact ⟨l, hl, hn, by simp only [problem?, ht, hop, hk, Option.bind_some, h]⟩

theorem exists_problem?_of_occurs {o : Occurrence} (h : Occurs source o) :
    ∃ l ∈ linesOf source, l.number = o.line ∧
      problem? (definitionsOf source) l o.spot = some o.problem := by
  cases h with
  | duplicateLabel h hm hlt =>
      obtain ⟨l, hl, rfl, hname⟩ := labels_iff.1 h
      exact ⟨l, hl, rfl, (labelProblem?_eq_some_iff hl).2 ⟨_, _, hname, hm, hlt, rfl⟩⟩
  | unknownInstruction h ht hno =>
      obtain ⟨l, hl, hn, rfl⟩ := instructs_iff.1 h
      have hop := Opcode.ofMnemonic?_eq_none_iff.2 hno
      exact ⟨l, hl, hn, by simp only [problem?, ht, hop, Option.isNone_none, if_true]⟩
  | operandCount h hcount =>
      obtain ⟨l, hl, hn, mnemonic, ht, hop⟩ := invokes_iff.1 h
      refine ⟨l, hl, hn, ?_⟩
      simp only [problem?, ht, hop, Option.bind_some, countProblem?, hcount, Bool.false_eq_true,
        if_false]
  | unknownVectorOp h hk hno =>
      refine exists_problem?_of_tokenProblem? h hk ?_
      rw [tokenProblem?_zero, if_pos rfl]
      exact vectorOpProblem?_eq_some_iff.2 ⟨hno, rfl⟩
  | invalidRegister h hk hg hreg hbound =>
      refine exists_problem?_of_tokenProblem? h hk ?_
      rw [tokenProblem?, if_neg hg]
      exact operandProblem?_eq_some_iff.2 (.inl ⟨hreg, hbound, rfl⟩)
  | undefinedLabel h hop hk hreg hint hno =>
      refine exists_problem?_of_tokenProblem? h hk ?_
      rw [tokenProblem?_zero, if_neg (fun he => by rw [he] at hop; cases hop)]
      exact operandProblem?_eq_some_iff.2 (.inr ⟨hop, hreg, hint, hno, rfl⟩)

theorem mem_spots_of_problem? {defs : Definitions} {l : Line} {spot : Spot}
    (h : problem? defs l spot = some p) : spot ∈ spots l := by
  cases spot with
  | label | mnemonic | count => simp [spots]
  | operand k =>
      cases ht : Instruction.tokens l.text with
      | nil => simp [problem?, ht] at h
      | cons mnemonic args =>
          simp only [problem?, ht, Option.bind_eq_some_iff] at h
          obtain ⟨op, -, token, hk, -⟩ := h
          obtain ⟨hlt, -⟩ := List.getElem?_eq_some_iff.1 hk
          simp [spots, ht, hlt]

end Problems

theorem mem_occurrences_iff {source : String} {o : Occurrence} :
    o ∈ occurrences source ↔ Occurs source o := by
  simp only [occurrences, List.mem_flatMap, List.mem_filterMap, Option.map_eq_some_iff]
  constructor
  · rintro ⟨l, hl, spot, -, p, hp, rfl⟩
    exact occurs_of_problem? hl hp
  · intro h
    obtain ⟨l, hl, hn, hp⟩ := exists_problem?_of_occurs h
    exact ⟨l, hl, o.spot, mem_spots_of_problem? hp, o.problem, hp, by rw [hn]⟩

theorem pairwise_spots (l : Line) : (spots l).Pairwise fun a b => a.rank < b.rank := by
  simp only [spots, List.pairwise_cons, List.pairwise_map, List.mem_cons, List.mem_map,
    List.mem_range, Spot.rank]
  refine ⟨?_, ?_, ?_, List.pairwise_lt_range.imp fun h => Nat.add_lt_add_right h 3⟩
  · rintro _ (rfl | rfl | ⟨k, -, rfl⟩) <;> simp
  · rintro _ (rfl | ⟨k, -, rfl⟩) <;> simp
  · rintro _ ⟨k, -, rfl⟩
    simp

theorem pairwise_occurrences (source : String) :
    (occurrences source).Pairwise Occurrence.Before := by
  rw [occurrences, List.pairwise_flatMap]
  constructor
  · intro l _
    rw [List.pairwise_filterMap]
    refine (pairwise_spots l).imp ?_
    intro a b hab x hx y hy
    obtain ⟨p, -, rfl⟩ := Option.map_eq_some_iff.1 hx
    obtain ⟨q, -, rfl⟩ := Option.map_eq_some_iff.1 hy
    exact .inr ⟨rfl, hab⟩
  · refine (pairwise_number_linesOf source).imp ?_
    intro k l hkl x hx y hy
    obtain ⟨a, -, ha⟩ := List.mem_filterMap.1 hx
    obtain ⟨b, -, hb⟩ := List.mem_filterMap.1 hy
    obtain ⟨p, -, rfl⟩ := Option.map_eq_some_iff.1 ha
    obtain ⟨q, -, rfl⟩ := Option.map_eq_some_iff.1 hb
    exact .inl hkl

theorem assemble_eq (source : String) : assemble source =
    match (occurrences source).map Occurrence.diagnostic with
    | [] => .ok (link (definitionsOf source) (linesOf source))
    | ds => .error ds := by
  rw [← diagnose_eq]
  rfl

theorem diagnostics_are_exact (source : String) :
    ∃ os : List Occurrence, (∀ o, o ∈ os ↔ Occurs source o) ∧ os.Pairwise Occurrence.Before ∧
      ∀ ds, assemble source = .error ds ↔ os ≠ [] ∧ ds = os.map Occurrence.diagnostic := by
  refine ⟨occurrences source, fun _ => mem_occurrences_iff, pairwise_occurrences source, ?_⟩
  intro ds
  rw [assemble_eq]
  cases occurrences source with
  | nil => simp
  | cons o os => simp [eq_comm]

end VectorMachine.Assembly
