import VectorMachine.Proofs.Processor.Frame
import VectorMachine.Proofs.Processor.Runs

namespace VectorMachine

namespace Counters

variable (c : Counters) (k : OpClass)

theorem branchesTaken_retire : (c.retire k).branchesTaken = c.branchesTaken := by
  cases k <;> rfl

theorem faults_retire : (c.retire k).faults = c.faults := by
  cases k <;> rfl

theorem control_le_retire : c.control ≤ (c.retire k).control := by
  cases k with
  | control => exact Nat.le_succ c.control
  | _ => exact Nat.le_refl c.control

end Counters

theorem Processor.Resolved.opClass_of_branches {p : Processor} {i : Instruction} {a : Action}
    (h : Resolved p i a) (hb : a.branches = true) : i.opcode.opClass = .control := by
  cases h with
  | jmp ho | taken ho | call ho | ret ho =>
      rw [ho]
      rfl
  | _ => cases hb

namespace Processor

inductive Moves (p : Processor) : Progress → Processor → Prop where
  | rest (h : p.halted = true) : Moves p .halted p
  | replay (stage : Stage) (h : p.halted = false) : Moves p (.advanced stage) p
  | runOut (h : p.halted = false) : Moves p .halted p.runOut.next
  | fail (f : Fault) (h : p.halted = false) : Moves p (.faulted f) (p.fail f).next
  | commit {i : Instruction} {a : Action} (h : p.halted = false) (hi : p.current? = some i)
      (ha : p.resolve i = .ok a) :
      Moves p (if a.halts then .halted else .committed) (p.afterAction i a)

section Moves

variable {p q : Processor} {r : Progress}

theorem moves_commit {i : Instruction} (h : p.halted = false) (hi : p.current? = some i) :
    Moves p (p.commit p.pc i).result (p.commit p.pc i).next := by
  cases ha : p.resolve i with
  | error f =>
      simp only [Processor.commit_eq, resolve_landed, ha]
      exact .fail f h
  | ok a =>
      rw [next_commit p p.pc a ha]
      rw [result_commit p.pc h ha]
      exact .commit h hi ha

theorem moves_step (hfit : p.FlightFits) : Moves p p.step.result p.step.next := by
  cases hh : p.halted with
  | true =>
      have hs : p.step = ⟨.halted, p, []⟩ := advance_of_halted hh .whole
      rw [hs]
      exact .rest hh
  | false =>
      cases hi : p.current? with
      | some i =>
          rw [step_eq_commit hfit hi]
          exact moves_commit hh hi
      | none =>
          rcases step_of_current_none hfit hi with hs | hs | ⟨f, hs⟩
          · -- Only a processor that has halted answers so and stays as it is.
            have hstopped := ((honest_step p).halted (by rw [hs])).1
            rw [hs, hh] at hstopped
            cases hstopped
          · rw [hs]
            exact .runOut hh
          · rw [hs]
            exact .fail f hh

theorem moves_advance (hfit : p.FlightFits) (pace : Pace) :
    ∃ q, Moves p (p.advance pace).result q ∧ (p.advance pace).next.bare = q.bare := by
  rcases advance_replays_or_steps p pace with ⟨ha, hb⟩ | ho
  · cases hr : (p.advance pace).result with
    | advanced stage =>
        cases hh : p.halted with
        | false => exact ⟨p, .replay stage hh, hb⟩
        | true =>
            rw [advance_of_halted hh] at hr
            cases hr
    | committed | halted | faulted f =>
        rw [hr] at ha
        cases ha
  · have hresult : (p.advance pace).result = p.step.result := congrArg Prod.fst ho
    have hnext : (p.advance pace).next.bare = p.step.next.bare := congrArg Prod.snd ho
    rw [hresult]
    exact ⟨p.step.next, moves_step hfit, hnext⟩

end Moves

structure Coherent (p : Processor) : Prop where
  retired : p.counters.retired = p.counters.alu + p.counters.memory + p.counters.control +
    p.counters.stack + p.counters.bridge + p.counters.system
  branches : p.counters.branchesTaken ≤ p.counters.control
  faults : p.counters.faults = if p.lastFault.isSome then 1 else 0
  stopped : p.lastFault.isSome = true → p.halted = true

section Coherent

variable {p q : Processor} {r : Progress}

theorem Coherent.no_fault (hp : p.Coherent) (h : p.halted = false) : p.lastFault = none := by
  cases hf : p.lastFault with
  | none => rfl
  | some f =>
      have hstopped := hp.stopped (by rw [hf]; rfl)
      rw [h] at hstopped
      cases hstopped

theorem coherent_bare : p.bare.Coherent ↔ p.Coherent :=
  ⟨fun h => ⟨h.retired, h.branches, h.faults, h.stopped⟩,
    fun h => ⟨h.retired, h.branches, h.faults, h.stopped⟩⟩

theorem Coherent.of_bare_eq (hp : p.Coherent) (h : q.bare = p.bare) : q.Coherent := by
  rw [← coherent_bare] at hp ⊢
  rwa [h]

theorem lastFault_afterAction (p : Processor) (i : Instruction) (a : Action) :
    (p.afterAction i a).lastFault = p.lastFault :=
  (constants_effect { p with flight := none } p.pc a).2.1

theorem counters_afterAction (p : Processor) (i : Instruction) (a : Action) :
    (p.afterAction i a).counters =
      { p.counters with
        branchesTaken := if a.branches then p.counters.branchesTaken + 1
          else p.counters.branchesTaken }.retire i.opcode.opClass :=
  rfl

theorem Coherent.afterAction (hp : p.Coherent) {i : Instruction} {a : Action}
    (h : p.halted = false) (ha : p.resolve i = .ok a) : (p.afterAction i a).Coherent := by
  have hnone : (p.afterAction i a).lastFault = none :=
    (p.lastFault_afterAction i a).trans (hp.no_fault h)
  constructor
  case retired =>
    have hretired := hp.retired
    rw [counters_afterAction]
    cases i.opcode.opClass <;> simp only [Counters.retire, Counters.countClass] <;> omega
  case branches =>
    rw [counters_afterAction, Counters.branchesTaken_retire]
    by_cases hb : a.branches = true
    · rw [(resolved_of_resolve ha).opClass_of_branches hb, if_pos hb]
      exact Nat.succ_le_succ hp.branches
    · rw [if_neg hb]
      exact Nat.le_trans hp.branches (Counters.control_le_retire _ _)
  case faults =>
    have hfaults := hp.faults
    rw [hp.no_fault h] at hfaults
    rw [hnone, counters_afterAction, Counters.faults_retire]
    exact hfaults
  case stopped =>
    intro hf
    rw [hnone] at hf
    cases hf

theorem Moves.coherent (h : Moves p r q) (hp : p.Coherent) : q.Coherent := by
  cases h with
  | rest | replay => exact hp
  | runOut => exact ⟨hp.retired, hp.branches, hp.faults, fun _ => rfl⟩
  | fail f h =>
      -- The processor was running, so this is the first fault.
      have hfaults := hp.faults
      rw [hp.no_fault h] at hfaults
      exact ⟨hp.retired, hp.branches, congrArg Nat.succ hfaults, fun _ => rfl⟩
  | commit h _ ha => exact hp.afterAction h ha

theorem Coherent.advance (hp : p.Coherent) (hfit : p.FlightFits) (pace : Pace) :
    (p.advance pace).next.Coherent := by
  obtain ⟨q, hmoves, hnext⟩ := moves_advance hfit pace
  exact (hmoves.coherent hp).of_bare_eq hnext

theorem coherent_reset (p : Processor) : p.reset.1.Coherent :=
  ⟨rfl, Nat.le_refl 0, rfl, Bool.noConfusion⟩

theorem Coherent.serve (hp : p.Coherent) (hfit : p.FlightFits) (request : Request) :
    (p.serve request).1.Coherent := by
  cases request with
  | call pace => exact hp.advance hfit pace
  | reset => exact p.coherent_reset
  | load program => exact coherent_reset { p with program := program }
  | _ => exact ⟨hp.retired, hp.branches, hp.faults, hp.stopped⟩

theorem Coherent.served (hp : p.Coherent) (hfit : p.FlightFits) (requests : List Request) :
    (p.served requests).Coherent := by
  induction requests generalizing p with
  | nil => exact hp
  | cons request rest ih => exact ih (hp.serve hfit request) (flightFits_serve hfit request)

end Coherent

def Request.restarts : Request → Bool
  | .reset | .load _ => true
  | _ => false

section Halted

variable {p : Processor}

theorem halted_serve (h : p.halted = true) {request : Request} (hr : request.restarts = false) :
    (p.serve request).1.halted = true := by
  cases request with
  | call pace =>
      simp only [Processor.serve, advance_of_halted h]
      exact h
  | reset | load program => cases hr
  | _ => exact h

theorem halted_served (h : p.halted = true) {requests : List Request}
    (hr : ∀ request ∈ requests, request.restarts = false) :
    (p.served requests).halted = true := by
  induction requests generalizing p with
  | nil => exact h
  | cons request rest ih =>
      rw [List.forall_mem_cons] at hr
      exact ih (halted_serve h hr.1) hr.2

end Halted

structure Orderly (p : Processor) : Prop extends Coherent p where
  landed : p.halted = true → p.flight = none
  stays : p.halted = true → ∀ later : List Request, (∀ r ∈ later, r.restarts = false) →
    ∀ pace, (p.served later).advance pace = ⟨.halted, p.served later, []⟩
  restarts : ∀ r : Request, r.restarts = true → (p.serve r).1.halted = false

theorem orderly_since_reset (p : Processor) (requests : List Request) :
    (p.reset.1.served requests).Orderly := by
  have hfit : p.reset.1.FlightFits := flightFits_of_none rfl
  constructor
  case toCoherent => exact p.coherent_reset.served hfit requests
  case landed => exact flight_eq_none_of_halted (flightFits_served hfit requests)
  case stays =>
    intro h later hlater pace
    exact advance_of_halted (halted_served h hlater) pace
  case restarts =>
    intro r hr
    cases r with
    | reset | load program => rfl
    | _ => cases hr

end Processor

end VectorMachine
