import VectorMachine.Proofs.Processor.Runs

namespace VectorMachine

def Outcome.shift (k : Nat) : Outcome → Outcome
  | .halted steps => .halted (k + steps)
  | .faulted steps f => .faulted (k + steps) f
  | .stepLimit steps => .stepLimit (k + steps)

def Run.after (r : Run) (k : Nat) (events : Array Event) : Run :=
  ⟨r.outcome.shift k, r.processor, events ++ r.events⟩

namespace Processor

section Loop

variable {pace : Pace} {limit start : Nat} {p : Processor}

theorem append_appendList {α : Type} (xs ys : Array α) (l : List α) :
    xs ++ ys ++ l = xs ++ (ys ++ l) := by
  apply Array.toList_inj.1
  rw [Array.toList_appendList, Array.toList_append, Array.toList_append, Array.toList_appendList,
    List.append_assoc]

theorem retired_le_advance (p : Processor) (pace : Pace) :
    p.counters.retired ≤ (p.advance pace).next.counters.retired := by
  have honest := honest_advance p pace
  have hgo (hg : (p.advance pace).goesOn) :
      p.counters.retired ≤ (p.advance pace).next.counters.retired := by
    rcases retires_or_left_lt hg with ⟨h, -⟩ | ⟨h, -⟩ <;> omega
  cases hr : (p.advance pace).result with
  | advanced stage => exact hgo (Turn.goesOn_advanced hr)
  | committed => exact hgo (Turn.goesOn_committed hr)
  | halted => exact (honest.halted hr).2.1
  | faulted f => exact Nat.le_of_eq (honest.faulted f hr).2.2.symm

theorem steps_advance_shift {k : Nat} (hs : start + k ≤ p.counters.retired) (pace : Pace) :
    (p.advance pace).next.counters.retired - start =
      k + ((p.advance pace).next.counters.retired - (start + k)) := by
  have hle := retired_le_advance p pace
  omega

theorem Runs.runFrom_shift {k calls : Nat} {o : Outcome} {q : Processor}
    (h : Runs pace limit (start + k) p calls o q) (hs : start + k ≤ p.counters.retired)
    (before events : Array VectorMachine.Event) :
    runFrom pace (k + limit) start p (before ++ events) =
      (runFrom pace limit (start + k) p events).after k before := by
  -- The count of retired instructions only grows, so no difference is cut off at zero on the way.
  induction h generalizing events with
  | @stepLimit p hl =>
      have hsteps : p.counters.retired - start = k + (p.counters.retired - (start + k)) := by omega
      rw [runFrom_of_limit hl, runFrom_of_limit (by omega), hsteps]
      rfl
  | halted hl hr =>
      rw [runFrom_of_halted hl hr, runFrom_of_halted (by omega) hr, steps_advance_shift hs,
        append_appendList]
      rfl
  | faulted hl hr =>
      rw [runFrom_of_faulted hl hr, runFrom_of_faulted (by omega) hr, steps_advance_shift hs,
        append_appendList]
      rfl
  | @goesOn p q calls o hl hg rest ih =>
      have hle := retired_le_advance p pace
      rw [runFrom_of_goesOn hl hg, runFrom_of_goesOn (by omega) hg, append_appendList]
      exact ih (by omega) _

theorem Runs.runFrom_add {calls k : Nat} {o : Outcome} {q : Processor}
    (h : Runs pace limit start p calls o q) (ho : o = .stepLimit k) (n : Nat)
    (events : Array VectorMachine.Event) :
    runFrom pace (limit + n) start p events =
      runFrom pace (limit + n) start q (runFrom pace limit start p events).events := by
  induction h generalizing events with
  | stepLimit hl => rw [runFrom_of_limit hl]
  | halted | faulted => cases ho
  | goesOn hl hg rest ih =>
      rw [runFrom_of_goesOn (Nat.lt_add_right n hl) hg, runFrom_of_goesOn hl hg]
      exact ih ho _

end Loop

section Run

variable {p : Processor} {m k : Nat} {pace : Pace}

theorem run_add (hm : 1 ≤ m) (h : (p.run pace m).outcome = .stepLimit k) (n : Nat) :
    k = m ∧ p.run pace (m + n) =
      ((p.run pace m).processor.run pace n).after m (p.run pace m).events := by
  obtain ⟨calls, hruns⟩ := p.exists_runs_run pace m
  obtain ⟨hretired, htruth⟩ := truthful_of_runs hruns hm
  rw [h] at hretired htruth
  obtain ⟨rfl, -⟩ := htruth
  have hretired : (p.run pace k).processor.counters.retired = p.counters.retired + k := hretired
  obtain ⟨made, hrest⟩ := (p.run pace k).processor.exists_runs_run pace n
  rw [hretired] at hrest
  refine ⟨rfl, ?_⟩
  calc p.run pace (k + n)
      = runFrom pace (k + n) p.counters.retired (p.run pace k).processor (p.run pace k).events :=
        hruns.runFrom_add h n #[]
    _ = (runFrom pace n (p.counters.retired + k) (p.run pace k).processor #[]).after k
          (p.run pace k).events := hrest.runFrom_shift (Nat.le_of_eq hretired.symm) _ #[]
    _ = ((p.run pace k).processor.run pace n).after k (p.run pace k).events := by
        rw [← hretired]
        rfl

theorem run_alike (hf : p.flight = none) (limit : Nat) (a b : Pace) :
    (p.run a limit).outcome = (p.run b limit).outcome ∧
      (p.run a limit).processor.uncounted = (p.run b limit).processor.uncounted := by
  obtain ⟨ho, hp⟩ := run_micro_alike hf limit
  cases a with
  | whole =>
      cases b with
      | whole => exact ⟨rfl, rfl⟩
      | micro => exact ⟨ho.symm, hp.symm⟩
  | micro =>
      cases b with
      | whole => exact ⟨ho, hp⟩
      | micro => exact ⟨rfl, rfl⟩

theorem flight_run (hf : p.flight = none) (limit : Nat) (pace : Pace) :
    (p.run pace limit).processor.flight = none := by
  obtain ⟨calls, hruns⟩ := p.exists_runs_run pace limit
  exact hruns.flight_eq_none (flightFits_of_none hf) (.inl hf)

end Run

end Processor

namespace Simulator

def limited (s : Simulator) (limit : Nat) : Simulator :=
  { s with settings :=
      { s.settings with general := { s.settings.general with maxSteps := limit } } }

theorem bounded_runs_compose (s : Simulator) (hf : s.processor.flight = none) {m k : Nat}
    (hm : 1 ≤ m) (first : Processor.Pace) (h : ((s.limited m).run first).1 = .stepLimit k)
    (n : Nat) :
    let t := ((s.limited m).run first).2.1
    k = m ∧
    ((s.limited (m + n)).run first).1 = ((t.limited n).run first).1.shift k ∧
    ((s.limited (m + n)).run first).2.1.processor = ((t.limited n).run first).2.1.processor ∧
    ((s.limited (m + n)).run first).2.2 =
      ((s.limited m).run first).2.2 ++ ((t.limited n).run first).2.2 ∧
    ∀ second single,
      ((s.limited (m + n)).run single).1 = ((t.limited n).run second).1.shift k ∧
      ((s.limited (m + n)).run single).2.1.processor.uncounted =
        ((t.limited n).run second).2.1.processor.uncounted := by
  intro t
  obtain ⟨rfl, hrun⟩ := Processor.run_add hm h n
  have ht : t.processor.flight = none := Processor.flight_run hf k first
  have houtcome : ((s.limited (k + n)).run first).1 = ((t.limited n).run first).1.shift k :=
    congrArg Run.outcome hrun
  have hprocessor : ((s.limited (k + n)).run first).2.1.processor =
      ((t.limited n).run first).2.1.processor :=
    congrArg (fun r => r.processor) hrun
  have hevents := congrArg (fun r => r.events.toList) hrun
  refine ⟨rfl, houtcome, hprocessor, hevents.trans Array.toList_append, ?_⟩
  intro second single
  obtain ⟨ho, hp⟩ := Processor.run_alike hf (k + n) single first
  obtain ⟨ho', hp'⟩ := Processor.run_alike ht n first second
  constructor
  · calc ((s.limited (k + n)).run single).1
        = ((s.limited (k + n)).run first).1 := ho
      _ = ((t.limited n).run first).1.shift k := houtcome
      _ = ((t.limited n).run second).1.shift k := congrArg (Outcome.shift k) ho'
  · calc ((s.limited (k + n)).run single).2.1.processor.uncounted
        = ((s.limited (k + n)).run first).2.1.processor.uncounted := hp
      _ = ((t.limited n).run first).2.1.processor.uncounted :=
          congrArg Processor.uncounted hprocessor
      _ = ((t.limited n).run second).2.1.processor.uncounted := hp'

def counting : Simulator :=
  ((new {}).load (.ofInstructions ["MOV R0, 7", "DEC R0", "PUSH R0", "HLT"])).1

theorem bounded_runs_compose_counting :
    let t := ((counting.limited 2).run .micro).2.1
    counting.processor.flight = none ∧ 1 ≤ 2 ∧
      ((counting.limited 2).run .micro).1 = .stepLimit 2 ∧
      ((t.limited 2).run .whole).1 = .halted 2 ∧
      ((counting.limited 4).run .micro).1 = .halted 4 ∧
      ((counting.limited 4).run .micro).2.1.processor.uncounted =
        ((t.limited 2).run .whole).2.1.processor.uncounted := by
  intro t
  have hf : counting.processor.flight = none := rfl
  have hm : 1 ≤ 2 := Nat.le_succ 1
  have hfirst : ((counting.limited 2).run .micro).1 = .stepLimit 2 := by decide +kernel
  have hsecond : ((t.limited 2).run .whole).1 = .halted 2 := by decide +kernel
  obtain ⟨-, -, -, -, hmixed⟩ := bounded_runs_compose counting hf hm .micro hfirst 2
  obtain ⟨ho, hp⟩ := hmixed .whole .micro
  exact ⟨hf, hm, hfirst, hsecond, ho.trans (congrArg (Outcome.shift 2) hsecond), hp⟩

end Simulator

end VectorMachine
