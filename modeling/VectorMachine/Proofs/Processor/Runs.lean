import VectorMachine.Proofs.Processor.CallEvents
import VectorMachine.Proofs.Processor.Interleaving
import VectorMachine.Proofs.Processor.Requests
import VectorMachine.Simulator

namespace VectorMachine

namespace Processor

def Pace.span : Pace → Nat
  | .whole => 1
  | .micro => 5

/-- The run from `p` on, of a loop that began when `start` instructions were retired, ends in `q`
after so many calls. -/
inductive Runs (pace : Pace) (limit start : Nat) :
    (p : Processor) → (calls : Nat) → Outcome → (q : Processor) → Prop where
  | stepLimit {p : Processor} (h : limit ≤ p.counters.retired - start) :
      Runs pace limit start p 0 (.stepLimit (p.counters.retired - start)) p
  | halted {p : Processor} (h : p.counters.retired - start < limit)
      (hr : (p.advance pace).result = .halted) :
      Runs pace limit start p 1 (.halted ((p.advance pace).next.counters.retired - start))
        (p.advance pace).next
  | faulted {p : Processor} {f : Fault} (h : p.counters.retired - start < limit)
      (hr : (p.advance pace).result = .faulted f) :
      Runs pace limit start p 1 (.faulted ((p.advance pace).next.counters.retired - start) f)
        (p.advance pace).next
  | goesOn {p q : Processor} {calls : Nat} {outcome : Outcome}
      (h : p.counters.retired - start < limit) (hr : (p.advance pace).goesOn)
      (rest : Runs pace limit start (p.advance pace).next calls outcome q) :
      Runs pace limit start p (calls + 1) outcome q

section Loop

variable {pace : Pace} {limit start : Nat}

theorem exists_runs (p : Processor) (events : Array VectorMachine.Event) :
    ∃ calls, Runs pace limit start p calls (runFrom pace limit start p events).outcome
      (runFrom pace limit start p events).processor := by
  fun_induction runFrom pace limit start p events with
  | case1 p events steps h => exact ⟨0, .stepLimit h⟩
  | case2 p events steps h turn seen f hr => exact ⟨1, .faulted (Nat.lt_of_not_le h) hr⟩
  | case3 p events steps h turn seen hr => exact ⟨1, .halted (Nat.lt_of_not_le h) hr⟩
  | case4 p events steps h turn seen hr ih =>
      obtain ⟨calls, ih⟩ := ih
      exact ⟨calls + 1, .goesOn (Nat.lt_of_not_le h) (Turn.goesOn_committed hr) ih⟩
  | case5 p events steps h turn seen stage hr ih =>
      obtain ⟨calls, ih⟩ := ih
      exact ⟨calls + 1, .goesOn (Nat.lt_of_not_le h) (Turn.goesOn_advanced hr) ih⟩

theorem Turn.not_goesOn_of_halted {t : Turn} (h : t.result = .halted) : ¬ t.goesOn := by
  simp [goesOn, h]

theorem Turn.not_goesOn_of_faulted {t : Turn} {f : Fault} (h : t.result = .faulted f) :
    ¬ t.goesOn := by
  simp [goesOn, h]

section Unfold

variable {p : Processor} {events : Array VectorMachine.Event}

theorem runFrom_of_limit (h : limit ≤ p.counters.retired - start) :
    runFrom pace limit start p events = ⟨.stepLimit (p.counters.retired - start), p, events⟩ := by
  rw [runFrom, if_pos h]

theorem runFrom_of_halted (h : p.counters.retired - start < limit)
    (hr : (p.advance pace).result = .halted) :
    runFrom pace limit start p events =
      ⟨.halted ((p.advance pace).next.counters.retired - start), (p.advance pace).next,
        events ++ (p.advance pace).events⟩ := by
  rw [runFrom, if_neg (Nat.not_le.2 h)]
  dsimp only
  split
  · rename_i hf
    cases hr.symm.trans hf
  · rfl
  · rename_i hc
    cases hr.symm.trans hc
  · rename_i ha
    cases hr.symm.trans ha

theorem runFrom_of_faulted {f : Fault} (h : p.counters.retired - start < limit)
    (hr : (p.advance pace).result = .faulted f) :
    runFrom pace limit start p events =
      ⟨.faulted ((p.advance pace).next.counters.retired - start) f, (p.advance pace).next,
        events ++ (p.advance pace).events⟩ := by
  rw [runFrom, if_neg (Nat.not_le.2 h)]
  dsimp only
  split
  · rename_i hf
    cases hr.symm.trans hf
    rfl
  · rename_i hh
    cases hr.symm.trans hh
  · rename_i hc
    cases hr.symm.trans hc
  · rename_i ha
    cases hr.symm.trans ha

theorem runFrom_of_goesOn (h : p.counters.retired - start < limit) (hg : (p.advance pace).goesOn) :
    runFrom pace limit start p events =
      runFrom pace limit start (p.advance pace).next (events ++ (p.advance pace).events) := by
  rw [runFrom, if_neg (Nat.not_le.2 h)]
  dsimp only
  split
  · rename_i hf
    exact absurd hg (Turn.not_goesOn_of_faulted hf)
  · rename_i hh
    exact absurd hg (Turn.not_goesOn_of_halted hh)
  · rfl
  · rfl

end Unfold

theorem Runs.unique {p q r : Processor} {calls made : Nat} {o o' : Outcome}
    (h : Runs pace limit start p calls o q) (h' : Runs pace limit start p made o' r) :
    o = o' ∧ q = r := by
  induction h generalizing made with
  | stepLimit hl =>
      cases h' with
      | stepLimit => exact ⟨rfl, rfl⟩
      | _ => omega
  | halted hl hr =>
      cases h' with
      | stepLimit => omega
      | halted => exact ⟨rfl, rfl⟩
      | faulted _ hf => cases hr.symm.trans hf
      | goesOn _ hg => exact absurd hg (Turn.not_goesOn_of_halted hr)
  | faulted hl hr =>
      cases h' with
      | stepLimit => omega
      | halted _ hh => cases hr.symm.trans hh
      | faulted _ hf =>
          cases hr.symm.trans hf
          exact ⟨rfl, rfl⟩
      | goesOn _ hg => exact absurd hg (Turn.not_goesOn_of_faulted hr)
  | goesOn hl hg rest ih =>
      cases h' with
      | stepLimit => omega
      | halted _ hh => exact absurd hg (Turn.not_goesOn_of_halted hh)
      | faulted _ hf => exact absurd hg (Turn.not_goesOn_of_faulted hf)
      | goesOn _ _ rest' => exact ih rest'

end Loop

section Calls

def left (p : Processor) : Pace → Nat
  | .whole => 1
  | .micro => p.distance

theorem left_pos {p : Processor} (h : p.FlightFits) (pace : Pace) : 0 < p.left pace := by
  cases pace with
  | whole => exact Nat.one_pos
  | micro => exact distance_pos h

theorem left_le {p : Processor} (h : p.FlightFits) (pace : Pace) : p.left pace ≤ pace.span := by
  cases pace with
  | whole => exact Nat.le_refl 1
  | micro => exact distance_le h

theorem retires_or_left_lt {p : Processor} {pace : Pace} (h : (p.advance pace).goesOn) :
    Retires p (p.advance pace).next ∨
      (p.advance pace).next.counters.retired = p.counters.retired ∧
        (p.advance pace).next.left pace < p.left pace := by
  cases pace with
  | whole => exact .inl (step_retires h)
  | micro => exact microStep_progress h

theorem Runs.calls_le {pace : Pace} {limit start calls : Nat} {p q : Processor} {o : Outcome}
    (h : Runs pace limit start p calls o q) (hfit : p.FlightFits)
    (hs : start ≤ p.counters.retired) :
    (limit ≤ p.counters.retired - start → calls = 0) ∧
      ∀ k, p.counters.retired - start + (k + 1) = limit → calls ≤ pace.span * k + p.left pace := by
  induction h with
  | stepLimit hl => exact ⟨fun _ => rfl, fun k _ => Nat.zero_le _⟩
  | halted hl | faulted hl =>
      refine ⟨fun hle => by omega, fun k _ => ?_⟩
      have hpos := left_pos hfit pace
      omega
  | goesOn hl hg rest ih =>
      refine ⟨fun hle => by omega, fun k hk => ?_⟩
      have hpos := left_pos hfit pace
      have hfit' := flightFits_advance hfit pace
      have hspan := left_le hfit' pace
      rcases retires_or_left_lt hg with ⟨hr, -⟩ | ⟨hr, hd⟩
      · obtain ⟨hstop, hgo⟩ := ih hfit' (by omega)
        cases k with
        | zero =>
            have hz := hstop (by omega)
            omega
        | succ k =>
            have hle := hgo k (by omega)
            rw [Nat.mul_succ]
            omega
      · have hle := (ih hfit' (by omega)).2 k (by omega)
        omega

end Calls

structure Turn.Honest (t : Turn) (retired : Nat) : Prop where
  running : t.goesOn → t.next.halted = false
  halted : t.result = .halted → t.next.halted = true ∧
    retired ≤ t.next.counters.retired ∧ t.next.counters.retired ≤ retired + 1
  faulted : ∀ f, t.result = .faulted f → t.next.halted = true ∧ t.next.lastFault = some f ∧
    t.next.counters.retired = retired

section Honest

variable {p : Processor}

theorem honest_fail (p : Processor) (f : Fault) : (p.fail f).Honest p.counters.retired := by
  refine ⟨fun h => absurd h (not_goesOn_fail p f), Progress.noConfusion, ?_⟩
  rintro g ⟨⟩
  exact ⟨rfl, rfl, rfl⟩

theorem honest_runOut (p : Processor) : p.runOut.Honest p.counters.retired :=
  ⟨fun h => absurd h (not_goesOn_runOut p), fun _ => ⟨rfl, Nat.le_refl _, Nat.le_succ _⟩,
    fun _ => Progress.noConfusion⟩

theorem honest_perform (hp : p.halted = false) (pc : Nat) (k : OpClass) (a : Action) :
    (p.perform pc k a).Honest p.counters.retired := by
  have hh := halted_performed p pc k a
  have hr : (p.performed pc k a).counters.retired = p.counters.retired + 1 := rfl
  rw [hp, Bool.false_or] at hh
  constructor
  · rw [Turn.goesOn, result_perform p pc k a hp, next_perform, hh]
    cases a.halts <;> simp
  · rw [result_perform p pc k a hp, next_perform, hh, hr]
    cases a.halts <;> simp
  · intro f hf
    exact absurd hf (perform_ne_faulted p pc k a f)

theorem honest_commit (hp : p.halted = false) (pc : Nat) (i : Instruction) :
    (p.commit pc i).Honest p.counters.retired := by
  simp only [commit_eq, carryOut]
  split
  · exact honest_fail { p with flight := none } _
  · exact honest_perform (p := { p with flight := none }) hp _ _ _

theorem honest_commitText (hp : p.halted = false) (pc : Nat) (text : String) :
    (p.commitText pc text).Honest p.counters.retired := by
  simp only [commitText]
  split
  · exact honest_fail p _
  · exact honest_commit hp pc _

theorem honest_step (p : Processor) : p.step.Honest p.counters.retired := by
  simp only [step]
  split
  · rename_i hh
    exact ⟨by simp [Turn.goesOn], fun _ => ⟨hh, Nat.le_refl _, Nat.le_succ _⟩,
      fun _ => Progress.noConfusion⟩
  · rename_i hh
    have hp : p.halted = false := by simpa using hh
    split
    · exact honest_commit hp _ _
    · exact honest_commitText hp _ _
    · split
      · exact honest_runOut p
      · exact honest_commitText hp _ _

theorem Turn.Honest.of_outcome_eq {s t : Turn} {retired : Nat} (h : t.Honest retired)
    (he : s.outcome = t.outcome) : s.Honest retired := by
  have hresult : s.result = t.result := congrArg Prod.fst he
  have hnext : s.next.bare = t.next.bare := congrArg Prod.snd he
  have hhalted : s.next.halted = t.next.halted := congrArg (fun q => q.halted) hnext
  have hfault : s.next.lastFault = t.next.lastFault := congrArg (fun q => q.lastFault) hnext
  obtain ⟨running, halted, faulted⟩ := h
  rw [Turn.goesOn] at running
  rw [← hresult, ← hhalted] at running
  rw [← hresult, ← hhalted, ← retired_of_bare_eq hnext] at halted
  simp only [← hresult, ← hhalted, ← hfault, ← retired_of_bare_eq hnext] at faulted
  exact ⟨running, halted, faulted⟩

theorem advance_of_halted (h : p.halted = true) (pace : Pace) :
    p.advance pace = ⟨.halted, p, []⟩ := by
  cases pace with
  | whole => rw [advance, step, if_pos h]
  | micro => rw [advance, microStep, if_pos h]

theorem honest_advance (p : Processor) (pace : Pace) :
    (p.advance pace).Honest p.counters.retired := by
  rcases advance_replays_or_steps p pace with ⟨ha, hb⟩ | ho
  · refine ⟨fun _ => ?_, fun h => ?_, fun f h => ?_⟩
    · have hnext : (p.advance pace).next.halted = p.halted := congrArg (fun q => q.halted) hb
      rw [hnext]
      cases hp : p.halted with
      | false => rfl
      | true =>
          rw [advance_of_halted hp] at ha
          cases ha
    · rw [h] at ha
      cases ha
    · rw [h] at ha
      cases ha
  · exact (honest_step p).of_outcome_eq ho

end Honest

def Truthful (limit : Nat) (q : Processor) : Outcome → Prop
  | .stepLimit steps => steps = limit ∧ q.halted = false
  | .halted steps => steps ≤ limit ∧ q.halted = true
  | .faulted steps f => steps < limit ∧ q.halted = true ∧ q.lastFault = some f

theorem Runs.truthful {pace : Pace} {limit start calls : Nat} {p q : Processor} {o : Outcome}
    (h : Runs pace limit start p calls o q) (hs : start ≤ p.counters.retired)
    (hl : p.counters.retired - start ≤ limit)
    (hrun : p.counters.retired - start = limit → p.halted = false) :
    q.counters.retired = start + o.steps ∧ Truthful limit q o := by
  induction h with
  | stepLimit hge =>
      have he := Nat.le_antisymm hl hge
      exact ⟨(Nat.add_sub_of_le hs).symm, he, hrun he⟩
  | @halted p hlt hr =>
      obtain ⟨hhalted, hge, hle⟩ := (honest_advance p pace).halted hr
      refine ⟨(Nat.add_sub_of_le (Nat.le_trans hs hge)).symm, ?_, hhalted⟩
      omega
  | @faulted p f hlt hr =>
      obtain ⟨hhalted, hfault, he⟩ := (honest_advance p pace).faulted f hr
      rw [he]
      exact ⟨(Nat.add_sub_of_le hs).symm, hlt, hhalted, hfault⟩
  | @goesOn p q calls o hlt hg rest ih =>
      have hnext := (honest_advance p pace).running hg
      rcases retires_or_left_lt hg with ⟨he, -⟩ | ⟨he, -⟩
      · exact ih (by omega) (by omega) fun _ => hnext
      · exact ih (by omega) (by omega) fun _ => hnext

theorem Runs.flight_eq_none {pace : Pace} {limit start calls : Nat} {p q : Processor} {o : Outcome}
    (h : Runs pace limit start p calls o q) (hfit : p.FlightFits)
    (hs : p.flight = none ∨ p.counters.retired - start < limit) : q.flight = none := by
  induction h with
  | stepLimit hge => exact hs.resolve_right (Nat.not_lt.2 hge)
  | @halted p hlt hr =>
      exact flight_eq_none_of_halted (flightFits_advance hfit pace)
        ((honest_advance p pace).halted hr).1
  | @faulted p f hlt hr =>
      exact flight_eq_none_of_halted (flightFits_advance hfit pace)
        ((honest_advance p pace).faulted f hr).1
  | goesOn hlt hg rest ih =>
      refine ih (flightFits_advance hfit pace) ?_
      rcases retires_or_left_lt hg with ⟨-, hf⟩ | ⟨he, -⟩
      · exact .inl hf
      · exact .inr (he ▸ hlt)

theorem Runs.whole_of_micro {limit start calls : Nat} {p q q' : Processor} {o : Outcome}
    (h : Runs .micro limit start q calls o q') (hp : p.FlightFits) (hq : q.FlightFits)
    (hb : q.bare = p.bare) :
    ∃ made p', Runs .whole limit start p made o p' ∧ p'.bare = q'.bare := by
  induction h generalizing p with
  | stepLimit hge =>
      rw [retired_of_bare_eq hb] at hge ⊢
      exact ⟨0, p, .stepLimit hge, hb.symm⟩
  | @halted q hlt hr =>
      obtain ⟨hresult, hnext⟩ := step_of_not_advanced hp hq hb (by rw [hr]; rfl)
      rw [retired_of_bare_eq hb] at hlt
      rw [retired_of_bare_eq hnext]
      exact ⟨1, p.step.next, .halted hlt (hresult.symm.trans hr), hnext.symm⟩
  | @faulted q f hlt hr =>
      obtain ⟨hresult, hnext⟩ := step_of_not_advanced hp hq hb (by rw [hr]; rfl)
      rw [retired_of_bare_eq hb] at hlt
      rw [retired_of_bare_eq hnext]
      exact ⟨1, p.step.next, .faulted hlt (hresult.symm.trans hr), hnext.symm⟩
  | @goesOn q q' calls o hlt hg rest ih =>
      have hq' := flightFits_advance hq .micro
      cases ha : (q.advance .micro).result.isAdvanced with
      | true => exact ih hp hq' ((replays_of_isAdvanced ha).2.trans hb)
      | false =>
          obtain ⟨hresult, hnext⟩ := step_of_not_advanced hp hq hb ha
          obtain ⟨made, p', hruns, hb'⟩ := ih (flightFits_step hp) hq' hnext
          rw [retired_of_bare_eq hb] at hlt
          rw [Turn.goesOn, hresult] at hg
          exact ⟨made + 1, p', .goesOn hlt hg hruns, hb'⟩

def uncounted (p : Processor) : Processor :=
  { p with counters := { p.counters with microOps := 0 } }

theorem bare_of_flight_none {p : Processor} (h : p.flight = none) : p.bare = p.uncounted := by
  rw [bare, ← h, uncounted]

section Run

variable {p : Processor} {limit : Nat}

theorem exists_runs_run (p : Processor) (pace : Pace) (limit : Nat) :
    ∃ calls, Runs pace limit p.counters.retired p calls (p.run pace limit).outcome
      (p.run pace limit).processor :=
  exists_runs p #[]

theorem calls_le_of_runs {pace : Pace} {calls : Nat} {q : Processor} {o : Outcome}
    (h : Runs pace limit p.counters.retired p calls o q) (hfit : p.FlightFits) (hm : 1 ≤ limit) :
    calls ≤ pace.span * limit := by
  obtain ⟨k, rfl⟩ := Nat.exists_eq_add_of_le' hm
  have hle := (h.calls_le hfit (Nat.le_refl _)).2 k (by omega)
  have hleft := left_le hfit pace
  rw [Nat.mul_succ]
  omega

theorem truthful_of_runs {pace : Pace} {calls : Nat} {q : Processor} {o : Outcome}
    (h : Runs pace limit p.counters.retired p calls o q) (hm : 1 ≤ limit) :
    q.counters.retired = p.counters.retired + o.steps ∧ Truthful limit q o := by
  refine h.truthful (Nat.le_refl _) ?_ ?_
  · omega
  · intro he
    omega

theorem run_micro_alike (hf : p.flight = none) (limit : Nat) :
    (p.run .micro limit).outcome = (p.run .whole limit).outcome ∧
      (p.run .micro limit).processor.uncounted = (p.run .whole limit).processor.uncounted := by
  have hfit := flightFits_of_none hf
  obtain ⟨_, hmicro⟩ := p.exists_runs_run .micro limit
  obtain ⟨_, hwhole⟩ := p.exists_runs_run .whole limit
  obtain ⟨_, q, hruns, hb⟩ := hmicro.whole_of_micro hfit hfit rfl
  obtain ⟨ho, rfl⟩ := hwhole.unique hruns
  rw [bare_of_flight_none (hwhole.flight_eq_none hfit (.inl hf)),
    bare_of_flight_none (hmicro.flight_eq_none hfit (.inl hf))] at hb
  exact ⟨ho.symm, hb.symm⟩

end Run

end Processor

namespace Simulator

open Processor

theorem run_is_truthful (s : Simulator) (hs : Reachable s.processor)
    (hm : 1 ≤ s.settings.general.maxSteps) :
    (∀ pace, ∃ calls ≤ pace.span * s.settings.general.maxSteps,
      Runs pace s.settings.general.maxSteps s.processor.counters.retired s.processor calls
          (s.run pace).1 (s.run pace).2.1.processor ∧
        (s.run pace).2.1.processor.counters.retired =
          s.processor.counters.retired + (s.run pace).1.steps ∧
        Truthful s.settings.general.maxSteps (s.run pace).2.1.processor (s.run pace).1) ∧
    (s.processor.flight = none → (s.run .micro).1 = (s.run .whole).1 ∧
      (s.run .micro).2.1.processor.uncounted = (s.run .whole).2.1.processor.uncounted) := by
  constructor
  · intro pace
    obtain ⟨calls, hruns⟩ := s.processor.exists_runs_run pace s.settings.general.maxSteps
    exact ⟨calls, calls_le_of_runs hruns hs.flightFits hm, hruns, truthful_of_runs hruns hm⟩
  · intro hf
    exact run_micro_alike hf s.settings.general.maxSteps

def countdown : Simulator :=
  let settings : Settings := { general := { maxSteps := 6 } }
  ((new settings).load (.ofInstructions ["MOV R0, 2", "DEC R0", "JNZ 1", "HLT"])).1

theorem run_is_truthful_countdown :
    Reachable countdown.processor ∧ 1 ≤ countdown.settings.general.maxSteps ∧
      countdown.processor.flight = none ∧
      (countdown.run .whole).1 = .halted 6 ∧ (countdown.run .micro).1 = .halted 6 ∧
      (countdown.run .micro).2.1.processor.halted = true ∧
      ∃ calls ≤ 30, Runs .micro 6 0 countdown.processor calls (.halted 6)
        (countdown.run .micro).2.1.processor := by
  have hs : Reachable countdown.processor := ⟨countdown.settings, [.load _], rfl⟩
  have hm : 1 ≤ countdown.settings.general.maxSteps := by decide
  have hwhole : (countdown.run .whole).1 = .halted 6 := by decide +kernel
  obtain ⟨hruns, hsame⟩ := run_is_truthful countdown hs hm
  have hmicro : (countdown.run .micro).1 = .halted 6 := (hsame rfl).1.trans hwhole
  obtain ⟨calls, hcalls, hrun, -, htruth⟩ := hruns .micro
  rw [hmicro] at hrun htruth
  exact ⟨hs, hm, rfl, hwhole, hmicro, htruth.2, calls, hcalls, hrun⟩

end Simulator

end VectorMachine
