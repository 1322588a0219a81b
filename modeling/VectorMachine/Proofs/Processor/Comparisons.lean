import VectorMachine.Proofs.Alu
import VectorMachine.Proofs.Processor.Foretold
import VectorMachine.Proofs.Processor.Halting

namespace VectorMachine

namespace Condition

def Above (x y : Word) : Prop :=
  0 < (x.toNat : Int) - y.toNat ∧ (x.toNat : Int) - y.toNat < 32768

def Below (x y : Word) : Prop :=
  x.toNat < y.toNat ∨ 32768 ≤ (x.toNat : Int) - y.toNat

def Holds (x y : Word) : Condition → Prop
  | .zero => x = y
  | .notZero => x ≠ y
  | .greater => Above x y
  | .greaterEqual => ¬ Below x y
  | .less => Below x y
  | .lessEqual => ¬ Above x y
  | .carry => x.toNat < y.toNat
  | .noCarry => y.toNat ≤ x.toNat

theorem above_iff {x y : Word} : Above x y ↔ x ≠ y ∧ ¬ Below x y := by
  rw [Above, Below, Ne, ← UInt16.toNat_inj]
  omega

theorem not_below_self (x : Word) : ¬ Below x x := by
  rw [Below]
  omega

theorem existsUnique_holds (x y : Word) :
    ∃! c : Condition, c ∈ [zero, greater, less] ∧ c.Holds x y := by
  have only {c d : Condition} (hc : c ∈ [zero, greater, less] ∧ c.Holds x y)
      (hd : d ∈ [zero, greater, less] ∧ d.Holds x y) : c = d := by
    have hself := not_below_self x
    simp only [List.mem_cons, List.not_mem_nil, or_false] at hc hd
    rcases hc with ⟨rfl | rfl | rfl, hc⟩ <;> rcases hd with ⟨rfl | rfl | rfl, hd⟩ <;>
      simp_all [Holds, above_iff]
  have exists_holds : ∃ c, c ∈ [zero, greater, less] ∧ c.Holds x y := by
    by_cases heq : x = y
    · exact ⟨zero, by simp, heq⟩
    · by_cases hbelow : Below x y
      · exact ⟨less, by simp, hbelow⟩
      · exact ⟨greater, by simp, above_iff.2 ⟨heq, hbelow⟩⟩
  obtain ⟨c, hc⟩ := exists_holds
  exact ⟨c, hc, fun d hd => only hd hc⟩

end Condition

namespace Flags

section Difference

variable (x y : Word)

theorem zero_ofRaw_sub : (ofRaw (x.toRaw - y.toRaw)).zero = true ↔ x = y := by
  rw [zero_ofRaw, Word.toInt_toRaw_sub, ← UInt16.toNat_inj]
  omega

theorem negative_ofRaw_sub :
    (ofRaw (x.toRaw - y.toRaw)).negative = true ↔ Condition.Below x y := by
  have hword := Word.toNat_ofRaw (x.toRaw - y.toRaw)
  have hx := x.toNat_lt
  rw [Word.toInt_toRaw_sub] at hword
  rw [negative_ofRaw, Word.toInt_toRaw_sub, Condition.Below]
  omega

theorem carry_ofRaw_sub : (ofRaw (x.toRaw - y.toRaw)).carry = true ↔ x.toNat < y.toNat := by
  have hx := x.toNat_lt
  rw [carry_ofRaw, Word.toInt_toRaw_sub]
  omega

theorem satisfies_ofRaw_sub (c : Condition) :
    (ofRaw (x.toRaw - y.toRaw)).satisfies c = true ↔ c.Holds x y := by
  have hnot {b : Bool} {P : Prop} (h : b = true ↔ P) : (!b) = true ↔ ¬ P := by
    rw [← h, Bool.not_eq_true', Bool.not_eq_true]
  have hzero := zero_ofRaw_sub x y
  have hnegative := negative_ofRaw_sub x y
  have hcarry := carry_ofRaw_sub x y
  cases c with
  | zero => exact hzero
  | notZero => exact hnot hzero
  | greater =>
      rw [satisfies, Bool.and_eq_true, hnot hzero, hnot hnegative]
      exact Condition.above_iff.symm
  | greaterEqual => exact hnot hnegative
  | less => exact hnegative
  | lessEqual =>
      rw [satisfies, Bool.or_eq_true, hzero, hnegative, Condition.Holds, Condition.above_iff,
        not_and_not_right, or_iff_not_imp_left]
  | carry => exact hcarry
  | noCarry => exact (hnot hcarry).trans Nat.not_lt

end Difference

end Flags

namespace Processor

def Compares (p : Processor) (x y : Word) : Prop :=
  ∃ i, p.current? = some i ∧ i.opcode = .cmp ∧ i.valueAt p 0 = .ok x ∧ i.valueAt p 1 = .ok y

def sparesFlags (p : Processor) : List Pace → Bool
  | [] => true
  | pace :: rest =>
      (decide ((p.advance pace).result ≠ .committed) ||
        decide (p.current?.map (fun i => i.opcode.opClass) ≠ some .alu)) &&
      (p.advance pace).next.sparesFlags rest

structure JumpsOn (p : Processor) (first : Pace) (paces : List Pace) (last : Pace) (x y : Word)
    (c : Condition) : Prop where
  compares : p.Compares x y
  compare_commits : (p.advance first).result = .committed
  spares : (p.advance first).next.sparesFlags paces = true
  is_jump : (p.after (first :: paces)).current?.map Instruction.opcode = some (.jumpIf c)
  jump_commits : ((p.after (first :: paces)).advance last).result = .committed

def TakesJump (p : Processor) (pace : Pace) : Prop :=
  ∃ i target, p.current? = some i ∧ i.targetAt p 0 = .ok target ∧
    (p.advance pace).next.pc = target ∧
    (p.advance pace).next.counters.branchesTaken = p.counters.branchesTaken + 1

def PassesJump (p : Processor) (pace : Pace) : Prop :=
  (p.advance pace).next.pc = p.pc + 1 ∧
    (p.advance pace).next.counters.branchesTaken = p.counters.branchesTaken

section Flags

variable {p : Processor} {pace : Pace} {i : Instruction} {a : Action} {x y : Word}

theorem flags_of_compares (hc : Commits p pace i a) (h : p.Compares x y) :
    (p.advance pace).next.flags = .ofRaw (x.toRaw - y.toRaw) := by
  obtain ⟨j, hj, ho, hx, hy⟩ := h
  obtain rfl : j = i := Option.some.inj (hj.symm.trans hc.current)
  have hnext : (p.advance pace).next.flags = (p.afterAction j a).flags :=
    congrArg (fun q => q.flags) hc.next
  cases resolved_of_resolve hc.resolve with
  | cmp _ hout =>
      obtain ⟨v, w, hv, hw, he⟩ := exists_eval?_of_aluOutput? (aluOutput?_of_resolveAlu hout).2
      obtain rfl := Option.some.inj (hv.symm.trans (valueAt_eq_ok_iff.1 hx))
      obtain rfl := Option.some.inj ((hw rfl).symm.trans (valueAt_eq_ok_iff.1 hy))
      obtain rfl := Option.some.inj he
      exact hnext
  | _ ho' => cases ho'.symm.trans ho

theorem flags_advance (hfit : p.FlightFits)
    (h : (p.advance pace).result = .committed →
      p.current?.map (fun i => i.opcode.opClass) ≠ some .alu) :
    (p.advance pace).next.flags = p.flags := by
  by_cases hc : (p.advance pace).result = .committed
  · obtain ⟨i, a, ha⟩ := commits_of_committed hfit hc
    have hclass := h hc
    rw [ha.current, Option.map_some] at hclass
    exact ((framed_afterAction ha.resolve).of_bare_eq ha.next).flags fun ho => hclass (by rw [ho])
  · have hrests : Rests p (p.advance pace).next := rests_of_not_committed hfit hc
    exact congrArg (fun q => q.flags) hrests

theorem flags_after (hfit : p.FlightFits) (paces : List Pace) (h : p.sparesFlags paces = true) :
    (p.after paces).flags = p.flags := by
  induction paces generalizing p with
  | nil => rfl
  | cons pace rest ih =>
      rw [sparesFlags, Bool.and_eq_true, Bool.or_eq_true, decide_eq_true_eq, decide_eq_true_eq] at h
      obtain ⟨hpace, hrest⟩ := h
      have hnext := flags_advance hfit fun hc => hpace.resolve_left fun hne => hne hc
      exact (ih (flightFits_advance hfit pace) hrest).trans hnext

end Flags

section Jumps

variable {p : Processor} {pace : Pace} {i : Instruction} {a : Action} {c : Condition}

theorem branchesTaken_of_commits (h : Commits p pace i a) :
    (p.advance pace).next.counters.branchesTaken =
      if a.branches then p.counters.branchesTaken + 1 else p.counters.branchesTaken := by
  have hnext : (p.advance pace).next.counters.branchesTaken =
      (p.afterAction i a).counters.branchesTaken :=
    congrArg (fun q => q.counters.branchesTaken) h.next
  rw [hnext, counters_afterAction, Counters.branchesTaken_retire]

theorem not_takesJump_of_passesJump (h : p.PassesJump pace) : ¬ p.TakesJump pace := by
  rintro ⟨i, target, -, -, -, hcount⟩
  rw [h.2] at hcount
  omega

theorem takesJump_or_passesJump (h : Commits p pace i a) (ho : i.opcode = .jumpIf c) :
    p.flags.satisfies c = true ∧ p.TakesJump pace ∨
      p.flags.satisfies c = false ∧ p.PassesJump pace := by
  have hpc := pc_of_commits h
  have hcount := branchesTaken_of_commits h
  cases resolved_of_resolve h.resolve with
  | taken ho' ht hs =>
      obtain rfl := Opcode.jumpIf.inj (ho'.symm.trans ho)
      exact .inl ⟨hs, _, _, h.current, ht, hpc, hcount⟩
  | notTaken ho' hs =>
      obtain rfl := Opcode.jumpIf.inj (ho'.symm.trans ho)
      exact .inr ⟨hs, hpc, hcount⟩
  | _ ho' => cases ho'.symm.trans ho

end Jumps

theorem jumps_follow_comparison :
    (∀ (p : Processor) (first : Pace) (paces : List Pace) (last : Pace) (x y : Word)
      (c : Condition), p.FlightFits → JumpsOn p first paces last x y c →
      ((p.after (first :: paces)).TakesJump last ↔ c.Holds x y) ∧
        ((p.after (first :: paces)).PassesJump last ↔ ¬ c.Holds x y)) ∧
    ∀ x y : Word, (∃! c : Condition, c ∈ [.zero, .greater, .less] ∧ c.Holds x y) ∧
      (((Condition.greater.Holds x y ↔ y.toNat < x.toNat) ∧
          (Condition.less.Holds x y ↔ x.toNat < y.toNat)) ↔
        (x.toNat : Int) - y.toNat < 32768) ∧
      (32768 ≤ (x.toNat : Int) - y.toNat →
        Condition.less.Holds x y ∧ Condition.less.Holds y x) := by
  refine ⟨fun p first paces last x y c hfit h => ?_, fun x y => ⟨?_, ?_, ?_⟩⟩
  · obtain ⟨i, a, hcompare⟩ := commits_of_committed hfit h.compare_commits
    obtain ⟨j, b, hjump, ho⟩ := exists_commits (flightFits_after hfit _) h.is_jump h.jump_commits
    have hflags : (p.after (first :: paces)).flags = .ofRaw (x.toRaw - y.toRaw) :=
      (flags_after (flightFits_advance hfit first) paces h.spares).trans
        (flags_of_compares hcompare h.compares)
    have hcase := takesJump_or_passesJump hjump ho
    rw [hflags, Bool.eq_false_iff, Ne, Flags.satisfies_ofRaw_sub] at hcase
    rcases hcase with ⟨hholds, htakes⟩ | ⟨hholds, hpasses⟩
    · exact ⟨iff_of_true htakes hholds,
        iff_of_false (fun hp => not_takesJump_of_passesJump hp htakes) (not_not_intro hholds)⟩
    · exact ⟨iff_of_false (not_takesJump_of_passesJump hpasses) hholds, iff_of_true hpasses hholds⟩
  · exact Condition.existsUnique_holds x y
  · simp only [Condition.Holds, Condition.Above, Condition.Below]
    omega
  · simp only [Condition.Holds, Condition.Below]
    omega

def comparing : Processor :=
  let program := ["CMP R0, 1", "MOV R2, R0", "PUSH R2", "JL 7"]
  (new {}).served [.load (.ofInstructions program), .setRegister ⟨0, by decide⟩ 40000]

def between : List Pace :=
  [.micro, .micro, .micro, .micro, .whole]

theorem jumps_follow_comparison_signed :
    Reachable comparing ∧ JumpsOn comparing .whole between .whole 40000 1 .less ∧
      Condition.less.Holds 40000 1 ∧ (comparing.after (.whole :: between)).TakesJump .whole ∧
      ((comparing.after (.whole :: between)).advance .whole).next.pc = 7 ∧
      Condition.less.Holds 1 40000 := by
  have hp : Reachable comparing := ⟨{}, _, rfl⟩
  have hcompares : comparing.Compares 40000 1 :=
    ⟨⟨.cmp, [.register 0, .immediate 1]⟩, by decide +kernel, rfl, rfl, rfl⟩
  have hjumps : JumpsOn comparing .whole between .whole 40000 1 .less := by
    refine ⟨hcompares, ?_, ?_, ?_, ?_⟩ <;> decide +kernel
  obtain ⟨hjump, horder⟩ := jumps_follow_comparison
  obtain ⟨-, -, hboth⟩ := horder 40000 1
  obtain ⟨hholds, hswapped⟩ := hboth (by decide)
  have htakes := (hjump comparing _ _ _ _ _ _ hp.flightFits hjumps).1.2 hholds
  exact ⟨hp, hjumps, hholds, htakes, by decide +kernel, hswapped⟩

end Processor

end VectorMachine
