import VectorMachine.Proofs.Processor.Flight

namespace VectorMachine

def PastDecode {α : Type} (x : Except Fault α) : Prop :=
  ∀ e, x ≠ .error (.undecodable e)

namespace PastDecode

variable {α β : Type}

theorem ok (a : α) : PastDecode (.ok a) := by
  intro e h
  cases h

theorem error {f : Fault} (h : ∀ e, f ≠ .undecodable e) :
    PastDecode (.error f : Except Fault α) := by
  intro e he
  exact h e (Except.error.inj he)

theorem bind {x : Except Fault α} {f : α → Except Fault β} (hx : PastDecode x)
    (hf : ∀ a, PastDecode (f a)) : PastDecode (x >>= f) := by
  intro e h
  cases x with
  | error g =>
      obtain rfl := Except.error.inj h
      exact hx e rfl
  | ok a => exact hf a e h

end PastDecode

section Lookup

variable (i : Instruction) (p : Processor) (position : Nat)

theorem pastDecode_value (o : Operand) : PastDecode (p.value o) := by
  cases o with
  | register | immediate => exact .ok _
  | label name =>
      simp only [Processor.value]
      split
      · exact .ok _
      · exact .error fun _ => Fault.noConfusion
  | vectorOp op => exact .error fun _ => Fault.noConfusion

theorem pastDecode_target (o : Operand) : PastDecode (p.target o) := by
  cases o with
  | register | immediate => exact .ok _
  | label name =>
      simp only [Processor.target]
      split
      · exact .ok _
      · exact .error fun _ => Fault.noConfusion
  | vectorOp op => exact .error fun _ => Fault.noConfusion

theorem pastDecode_argument : PastDecode (i.argument position) := by
  simp only [Instruction.argument]
  split
  · exact .ok _
  · exact .error fun _ => Fault.noConfusion

theorem pastDecode_registerAt : PastDecode (i.registerAt position) := by
  refine (pastDecode_argument i position).bind fun o => ?_
  cases o with
  | register r => exact .ok _
  | _ => exact .error fun _ => Fault.noConfusion

theorem pastDecode_vectorOpAt : PastDecode (i.vectorOpAt position) := by
  refine (pastDecode_argument i position).bind fun o => ?_
  cases o with
  | vectorOp op => exact .ok _
  | _ => exact .error fun _ => Fault.noConfusion

theorem pastDecode_valueAt : PastDecode (i.valueAt p position) :=
  (pastDecode_argument i position).bind (pastDecode_value p)

theorem pastDecode_targetAt : PastDecode (i.targetAt p position) :=
  (pastDecode_argument i position).bind (pastDecode_target p)

theorem pastDecode_primaryAt : PastDecode (i.primaryAt p position) :=
  (pastDecode_valueAt i p position).bind fun _ => .ok _

theorem pastDecode_unitCellAt : PastDecode (i.unitCellAt p position) :=
  (pastDecode_valueAt i p position).bind fun _ => .ok _

theorem pastDecode_valueAt? : PastDecode (i.valueAt? p position) := by
  simp only [Instruction.valueAt?]
  split
  · rename_i o _
    intro e h
    have hv := pastDecode_value p o
    cases ho : p.value o with
    | error f =>
        rw [ho] at h hv
        exact hv e (by cases h; rfl)
    | ok w =>
        rw [ho] at h
        cases h
  · exact .ok _

end Lookup

namespace Processor

theorem pastDecode_attached (p : Processor) (op : Opcode) : PastDecode (p.attached op) := by
  simp only [attached]
  split
  · exact .ok _
  · exact .error fun _ => Fault.noConfusion

theorem pastDecode_compute (op : AluOp) (a b : Word) : PastDecode (compute op a b) := by
  simp only [compute]
  split
  · exact .ok _
  · exact .error fun _ => Fault.noConfusion

theorem pastDecode_resolveAlu (p : Processor) (i : Instruction) (op : AluOp) :
    PastDecode (p.resolveAlu i op) := by
  refine (pastDecode_registerAt i 0).bind fun r => ?_
  have hcompute : ∀ b, PastDecode do
      let out ← compute op (p.registers.read r) b
      return (r, out) := fun b => (pastDecode_compute op _ b).bind fun _ => .ok _
  dsimp only
  split
  · exact hcompute 0
  · exact (pastDecode_valueAt i p 1).bind hcompute

theorem pastDecode_resolveLaunch (p : Processor) (u : VectorUnit) (i : Instruction) :
    PastDecode (p.resolveLaunch u i) := by
  refine (pastDecode_vectorOpAt i 0).bind fun op => ?_
  refine (pastDecode_unitCellAt i p 1).bind fun src => ?_
  refine (pastDecode_unitCellAt i p 2).bind fun dst => ?_
  refine (pastDecode_valueAt i p 3).bind fun len => ?_
  refine (pastDecode_valueAt? i p 4).bind fun scalar => ?_
  unfold launch
  split
  · exact .ok _
  · exact .error fun _ => Fault.noConfusion

theorem pastDecode_resolve (p : Processor) (i : Instruction) : PastDecode (p.resolve i) := by
  simp only [resolve]
  cases i.opcode with
  | nop | hlt | ret => exact .ok _
  | mov | load =>
      exact (pastDecode_registerAt i 0).bind fun _ =>
        (pastDecode_valueAt i p 1).bind fun _ => .ok _
  | store =>
      exact (pastDecode_registerAt i 0).bind fun _ =>
        (pastDecode_primaryAt i p 1).bind fun _ => .ok _
  | alu op => exact (pastDecode_resolveAlu p i op).bind fun _ => .ok _
  | cmp => exact (pastDecode_resolveAlu p i .sub).bind fun _ => .ok _
  | jmp | jumpIf _ | call => exact (pastDecode_targetAt i p 0).bind fun _ => .ok _
  | push => exact (pastDecode_valueAt i p 0).bind fun _ => .ok _
  | pop => exact (pastDecode_registerAt i 0).bind fun _ => .ok _
  | gload =>
      exact (pastDecode_attached p .gload).bind fun _ => (pastDecode_primaryAt i p 0).bind fun _ =>
        (pastDecode_unitCellAt i p 1).bind fun _ => (pastDecode_valueAt i p 2).bind fun _ => .ok _
  | gstore =>
      exact (pastDecode_attached p .gstore).bind fun _ =>
        (pastDecode_unitCellAt i p 0).bind fun _ => (pastDecode_primaryAt i p 1).bind fun _ =>
          (pastDecode_valueAt i p 2).bind fun _ => .ok _
  | gexec =>
      exact (pastDecode_attached p .gexec).bind fun u => pastDecode_resolveLaunch p u i
  | gwait => exact (pastDecode_attached p .gwait).bind fun _ => .ok _
  | gres =>
      exact (pastDecode_attached p .gres).bind fun _ =>
        (pastDecode_registerAt i 0).bind fun _ => .ok _
  | gread =>
      exact (pastDecode_attached p .gread).bind fun _ => (pastDecode_registerAt i 0).bind fun _ =>
        (pastDecode_unitCellAt i p 1).bind fun _ => .ok _
  | gwrite =>
      exact (pastDecode_attached p .gwrite).bind fun _ =>
        (pastDecode_unitCellAt i p 0).bind fun _ => (pastDecode_valueAt i p 1).bind fun _ => .ok _

theorem commit_ne_undecodable (p : Processor) (pc : Nat) (i : Instruction) (e : DecodeError) :
    (p.commit pc i).result ≠ .faulted (.undecodable e) := by
  simp only [commit_eq, carryOut]
  split
  · rename_i f hf
    intro h
    have he : f = .undecodable e := Progress.faulted.inj h
    rw [he] at hf
    exact pastDecode_resolve _ _ e hf
  · simp only [perform, result_finish]
    split <;> exact Progress.noConfusion

theorem undecodable_of_commitText {p : Processor} {pc : Nat} {text : String} {e : DecodeError}
    (h : (p.commitText pc text).result = .faulted (.undecodable e)) :
    Instruction.decode text = .error e := by
  simp only [commitText] at h
  split at h
  · rename_i hd
    cases h
    exact hd
  · exact absurd h (commit_ne_undecodable _ _ _ _)

theorem undecodable_of_decodeStep {p : Processor} {pc : Nat} {text : String} {e : DecodeError}
    (h : (p.decodeStep pc text).result = .faulted (.undecodable e)) :
    Instruction.decode text = .error e := by
  simp only [decodeStep] at h
  split at h
  · rename_i hd
    cases h
    exact hd
  · cases h

theorem planStep_ne_undecodable (p : Processor) (pc : Nat) (text : String) (i : Instruction)
    (plan : List MicroOp) (e : DecodeError) :
    (p.planStep pc text i plan).result ≠ .faulted (.undecodable e) := by
  match plan with
  | [] => exact commit_ne_undecodable p pc i e
  | [m] => exact commit_ne_undecodable (p.replay ⟨pc, text, some i, [], m.stage⟩ m).1 pc i e
  | m :: n :: rest => exact Progress.noConfusion

theorem undecodable_at_hand {p : Processor} (hfit : p.FlightFits) {pace : Pace} {e : DecodeError}
    (h : (p.advance pace).result = .faulted (.undecodable e)) :
    ∃ text, p.program.instruction? p.pc = some text ∧ Instruction.decode text = .error e := by
  cases pace with
  | whole =>
      simp only [advance, step] at h
      split at h
      · cases h
      · split at h
        · exact absurd h (commit_ne_undecodable _ _ _ _)
        · rename_i hf
          exact ⟨_, (hfit _ hf).text_eq, undecodable_of_commitText h⟩
        · split at h
          · cases h
          · rename_i ht
            exact ⟨_, ht, undecodable_of_commitText h⟩
  | micro =>
      simp only [advance, microStep] at h
      split at h
      · cases h
      · split at h
        · exact absurd h (planStep_ne_undecodable _ _ _ _ _ _)
        · rename_i hf
          exact ⟨_, (hfit _ hf).text_eq, undecodable_of_decodeStep h⟩
        · split at h <;> cases h

end Processor

end VectorMachine
