import VectorMachine.Proofs.Processor.Halting
import VectorMachine.Proofs.Simulator.Reset

namespace VectorMachine

def Outcome.fault? : Outcome → Option Fault
  | .faulted _ f => some f
  | _ => none

namespace Processor

def Progress.fault? : Progress → Option Fault
  | .faulted f => some f
  | _ => none

variable {p q : Processor}

theorem Turn.fault?_of_goesOn {t : Turn} (h : t.goesOn) : t.result.fault? = none := by
  rcases h with ⟨stage, h⟩ | h <;> rw [h] <;> rfl

theorem Moves.lastFault {r : Progress} (h : Moves p r q) (hp : p.lastFault = none) :
    q.lastFault = r.fault? := by
  cases h with
  | rest | replay | runOut => exact hp
  | fail f => rfl
  | @commit i a =>
      rw [lastFault_afterAction, hp]
      split <;> rfl

theorem lastFault_advance (hfit : p.FlightFits) (hp : p.lastFault = none) (pace : Pace) :
    (p.advance pace).next.lastFault = (p.advance pace).result.fault? := by
  obtain ⟨q, hmoves, hnext⟩ := moves_advance hfit pace
  have hfault : (p.advance pace).next.lastFault = q.lastFault :=
    congrArg (fun q => q.lastFault) hnext
  exact hfault.trans (hmoves.lastFault hp)

section Runs

variable {pace : Pace} {limit start calls : Nat} {o : Outcome}

theorem Runs.lastFault (h : Runs pace limit start p calls o q) (hfit : p.FlightFits)
    (hp : p.lastFault = none) : q.lastFault = o.fault? := by
  induction h with
  | stepLimit => exact hp
  | halted _ hr =>
      rw [lastFault_advance hfit hp, hr]
      rfl
  | faulted _ hr =>
      rw [lastFault_advance hfit hp, hr]
      rfl
  | goesOn _ hg _ ih =>
      apply ih (flightFits_advance hfit pace)
      rw [lastFault_advance hfit hp, Turn.fault?_of_goesOn hg]

theorem Runs.flightFits (h : Runs pace limit start p calls o q) (hfit : p.FlightFits) :
    q.FlightFits := by
  induction h with
  | stepLimit => exact hfit
  | halted | faulted => exact flightFits_advance hfit pace
  | goesOn _ _ _ ih => exact ih (flightFits_advance hfit pace)

theorem Runs.coherent (h : Runs pace limit start p calls o q) (hfit : p.FlightFits)
    (hp : p.Coherent) : q.Coherent := by
  induction h with
  | stepLimit => exact hp
  | halted | faulted => exact hp.advance hfit pace
  | goesOn _ _ _ ih => exact ih (flightFits_advance hfit pace) (hp.advance hfit pace)

theorem run_of_halted (h : p.halted = true) (hl : 0 < limit) (pace : Pace) :
    p.run pace limit = ⟨.halted 0, p, #[]⟩ := by
  have hturn := advance_of_halted h pace
  have hr : (p.advance pace).result = .halted := by rw [hturn]
  have hnone : p.counters.retired - p.counters.retired = 0 := Nat.sub_self _
  rw [run, runFrom_of_halted (hnone ▸ hl) hr, hturn, hnone]
  rfl

end Runs

end Processor

namespace Simulator

variable {s : Simulator}

theorem flightFits_serve (h : s.processor.FlightFits) (r : Request) :
    (s.serve r).processor.FlightFits := by
  cases r with
  | processor request => exact Processor.flightFits_serve h request
  | run pace =>
      obtain ⟨calls, hruns⟩ :=
        Processor.exists_runs_run s.processor pace s.settings.general.maxSteps
      exact hruns.flightFits h
  | loadSource source =>
      simp only [serve, loadSource]
      cases assemble source with
      | error problems => exact h
      | ok program => exact Processor.flightFits_serve h (.load program)
  | trace | subscribeUnit | unsubscribeUnit => exact Processor.flightFits_congr h rfl rfl rfl rfl

theorem coherent_serve (hfit : s.processor.FlightFits) (h : s.processor.Coherent) (r : Request) :
    (s.serve r).processor.Coherent := by
  cases r with
  | processor request => exact h.serve hfit request
  | run pace =>
      obtain ⟨calls, hruns⟩ :=
        Processor.exists_runs_run s.processor pace s.settings.general.maxSteps
      exact hruns.coherent hfit h
  | loadSource source =>
      simp only [serve, loadSource]
      cases assemble source with
      | error problems => exact h
      | ok program => exact h.serve hfit (.load program)
  | trace | subscribeUnit | unsubscribeUnit => exact ⟨h.retired, h.branches, h.faults, h.stopped⟩

theorem Reachable.fits_and_coherent (h : Reachable s) :
    s.processor.FlightFits ∧ s.processor.Coherent := by
  obtain ⟨settings, requests, rfl⟩ := h
  induction requests using List.reverseRecOn with
  | nil =>
      exact ⟨Processor.flightFits_of_none rfl, rfl, Nat.le_refl 0, rfl, Bool.noConfusion⟩
  | append_singleton requests r ih =>
      rw [served, List.foldl_concat]
      exact ⟨flightFits_serve ih.1 r, coherent_serve ih.1 ih.2 r⟩

theorem outcome_names_new_faults (s : Simulator) (hs : Reachable s)
    (hm : 1 ≤ s.settings.general.maxSteps) (pace : Processor.Pace) :
    (s.processor.lastFault = none →
      (s.run pace).2.1.processor.lastFault = (s.run pace).1.fault?) ∧
    (∀ f, s.processor.lastFault = some f → s.run pace = (.halted 0, s, [])) ∧
    ∀ steps, (s.run pace).1 = .halted steps →
      (s.run pace).2.1.processor.lastFault = s.processor.lastFault := by
  have hnew (hnone : s.processor.lastFault = none) :
      (s.run pace).2.1.processor.lastFault = (s.run pace).1.fault? := by
    obtain ⟨calls, hruns⟩ := s.processor.exists_runs_run pace s.settings.general.maxSteps
    exact hruns.lastFault hs.fits_and_coherent.1 hnone
  have hold (f : Fault) (hf : s.processor.lastFault = some f) :
      s.run pace = (.halted 0, s, []) := by
    have hhalted := hs.fits_and_coherent.2.stopped (by rw [hf]; rfl)
    simp only [run, Processor.run_of_halted hhalted hm]
  refine ⟨hnew, hold, fun steps ho => ?_⟩
  cases hf : s.processor.lastFault with
  | none =>
      rw [hnew hf, ho]
      rfl
  | some f =>
      rw [hold f hf]
      exact hf

def stopped : Simulator :=
  (new {}).served [.loadSource "DIV R0, R1", .run .whole]

theorem reachable_stopped : Reachable stopped :=
  ⟨{}, [.loadSource "DIV R0, R1", .run .whole], rfl⟩

theorem outcome_names_new_faults_stopped :
    let loaded := (new {}).served [.loadSource "DIV R0, R1"]
    Reachable loaded ∧ Reachable stopped ∧ 1 ≤ stopped.settings.general.maxSteps ∧
      (loaded.run .micro).1 = .faulted 0 .divisionByZero ∧
      (loaded.run .micro).2.1.processor.lastFault = some .divisionByZero ∧
      stopped.run .micro = (.halted 0, stopped, []) := by
  intro loaded
  have hloaded : Reachable loaded := ⟨{}, [.loadSource "DIV R0, R1"], rfl⟩
  have hm : 1 ≤ loaded.settings.general.maxSteps := by decide +kernel
  have hm' : 1 ≤ stopped.settings.general.maxSteps := by decide +kernel
  have hnone : loaded.processor.lastFault = none := by decide +kernel
  have hfault : stopped.processor.lastFault = some .divisionByZero := by decide +kernel
  have ho : (loaded.run .micro).1 = .faulted 0 .divisionByZero := by decide +kernel
  have hnew := (outcome_names_new_faults loaded hloaded hm .micro).1 hnone
  have hold := (outcome_names_new_faults stopped reachable_stopped hm' .micro).2.1 _ hfault
  rw [ho] at hnew
  exact ⟨hloaded, reachable_stopped, hm', ho, hnew, hold⟩

theorem not_every_halt_is_normal :
    ¬ ∀ (s : Simulator) (pace : Processor.Pace) (steps : Nat), Reachable s →
      (s.run pace).1 = .halted steps → (s.run pace).2.1.processor.lastFault = none := by
  intro h
  have hhalted : (stopped.run .whole).1 = .halted 0 := by decide +kernel
  have hfault : (stopped.run .whole).2.1.processor.lastFault = some .divisionByZero := by
    decide +kernel
  cases hfault.symm.trans (h stopped .whole 0 reachable_stopped hhalted)

end Simulator

end VectorMachine
