import VectorMachine.Proofs.Processor.Unheard

namespace VectorMachine

namespace Simulator

inductive Request where
  | processor (request : Processor.Request)
  | run (pace : Processor.Pace)
  | loadSource (source : String)
  | trace (on : Bool)
  | subscribeUnit (recipient : Nat)
  | unsubscribeUnit (id : ListenerId)

def onProcessor (s : Simulator) (f : Processor → Processor) : Simulator :=
  { s with processor := f s.processor }

def serve (s : Simulator) : Request → Simulator
  | .processor request => s.onProcessor fun p => (p.serve request).1
  | .run pace => (s.run pace).2.1
  | .loadSource source => ((s.loadSource source).toOption.map Prod.fst).getD s
  | .trace on => s.onProcessor fun p => { p with tracing := on }
  | .subscribeUnit recipient =>
      s.onProcessor fun p => { p with unit := p.unit.map fun u => (u.subscribe recipient).2 }
  | .unsubscribeUnit id =>
      s.onProcessor fun p => { p with unit := p.unit.map fun u => (u.unsubscribe id).2 }

def served (s : Simulator) (requests : List Request) : Simulator := requests.foldl serve s

def Reachable (s : Simulator) : Prop :=
  ∃ settings requests, s = (new settings).served requests

inductive Reply where
  | done
  | progress (r : Processor.Progress)
  | replaced (u : Option VectorUnit)
  | unit (r : Option VectorUnit.Reply)
  | ended (o : Outcome)
  | loaded (r : Except (List Assembly.Diagnostic) Unit)

def Reply.unheard : Reply → Reply
  | .replaced u => .replaced (u.map VectorUnit.unheard)
  | r => r

def answer (s : Simulator) : Request → Reply
  | .processor (.call pace) => .progress (s.processor.advance pace).result
  | .processor (.attach u) => .replaced (s.processor.attach u).1
  | .processor .detach => .replaced s.processor.detach.1
  | .processor (.unit request) => .unit (s.processor.unit.map fun u => u.answer request)
  | .run pace => .ended (s.run pace).1
  | .loadSource source => .loaded ((s.loadSource source).map fun _ => ())
  | _ => .done

def answers (s : Simulator) : List Request → List Reply
  | [] => []
  | r :: rest => s.answer r :: (s.serve r).answers rest

def unheard (s : Simulator) : Simulator := s.onProcessor Processor.unheard

def fresh (s : Simulator) (program : Program) : Simulator :=
  ((new s.settings).load program).1.onProcessor fun p =>
    { p with unit := s.processor.unit.map fun u => .new u.width }

section Unheard

variable {s t : Simulator}

theorem answer_unheard (s : Simulator) (r : Request) :
    (s.unheard.answer r).unheard = (s.answer r).unheard := by
  obtain ⟨p, settings⟩ := s
  cases r with
  | processor request =>
      cases request with
      | call pace => exact congrArg Reply.progress (p.advance_unheard pace).result
      | attach u | detach =>
          simp only [answer, unheard, onProcessor, Processor.attach, Processor.detach,
            Processor.unheard]
          cases p.unit <;> rfl
      | unit request =>
          simp only [answer, unheard, onProcessor, Processor.unheard]
          cases p.unit with
          | none => rfl
          | some u => exact congrArg (fun r => Reply.unit (some r)) (u.serve_unheard request).1
      | _ => rfl
  | run pace => exact congrArg Reply.ended (p.run_unheard pace _).1
  | loadSource source =>
      simp only [answer, loadSource]
      cases assemble source <;> rfl
  | _ => rfl

theorem serve_unheard (s : Simulator) (r : Request) :
    (s.unheard.serve r).unheard = (s.serve r).unheard := by
  obtain ⟨p, settings⟩ := s
  have hmake {q q' : Processor} (h : q.unheard = q'.unheard) :
      (mk q settings).unheard = (mk q' settings).unheard :=
    congrArg (fun p => mk p settings) h
  have hsame := p.unheard_unheard
  cases r with
  | processor request => exact hmake (p.serve_unheard request)
  | run pace =>
      refine hmake (Eq.trans ?_ (Processor.unheard_unheard _))
      exact congrArg Processor.unheard (p.run_unheard pace settings.general.maxSteps).2
  | loadSource source =>
      simp only [serve, loadSource]
      cases assemble source with
      | error problems => exact hmake hsame
      | ok program => exact hmake (p.serve_unheard (.load program))
  | trace on => exact hmake hsame
  | subscribeUnit recipient | unsubscribeUnit id =>
      refine hmake ?_
      simp only [unheard, onProcessor, Processor.unheard]
      cases p.unit <;> rfl

theorem alike_of_unheard_eq (h : s.unheard = t.unheard) (requests : List Request) :
    (s.answers requests).map Reply.unheard = (t.answers requests).map Reply.unheard ∧
      (s.served requests).unheard = (t.served requests).unheard := by
  induction requests generalizing s t with
  | nil => exact ⟨rfl, h⟩
  | cons r rest ih =>
      have hanswer : (s.answer r).unheard = (t.answer r).unheard := by
        rw [← answer_unheard s, ← answer_unheard t, h]
      have hserve : (s.serve r).unheard = (t.serve r).unheard := by
        rw [← serve_unheard s, ← serve_unheard t, h]
      obtain ⟨hanswers, hserved⟩ := ih hserve
      refine ⟨?_, hserved⟩
      simp only [answers, List.map_cons, hanswer, hanswers]

end Unheard

/-- But for listeners and trace switch, the state is that of a new simulator with the program, and
of as many lanes; so is all that comes of it. -/
structure Anew (s : Simulator) (program : Program) (t : Simulator) : Prop where
  state : t.unheard = (s.fresh program).unheard
  lanes : t.processor.unit.map VectorUnit.width = s.processor.unit.map VectorUnit.width
  later : ∀ requests,
    (t.answers requests).map Reply.unheard =
        ((s.fresh program).answers requests).map Reply.unheard ∧
      (t.served requests).unheard = ((s.fresh program).served requests).unheard

theorem anew_load (s : Simulator) (program : Program) : Anew s program (s.load program).1 := by
  have hstate : (s.load program).1.unheard = (s.fresh program).unheard := by
    simp only [unheard, onProcessor, fresh, load, new, Processor.load, Processor.reset,
      Processor.unheard]
    cases s.processor.unit with
    | none => rfl
    | some u =>
        have hu : u.reset.1.unheard = (VectorUnit.new u.width).unheard := by
          rw [u.reset_eq]
          rfl
        simp only [Option.map_some, hu]
  refine ⟨hstate, ?_, alike_of_unheard_eq hstate⟩
  simp only [load, Processor.load, Processor.reset]
  cases hu : s.processor.unit with
  | none => rfl
  | some u => exact congrArg some u.width_clearLanes

theorem reset_forgets (s : Simulator) :
    Anew s s.processor.program s.reset.1 ∧
    (∀ source program, assemble source = .ok program →
      ∃ t events, s.loadSource source = .ok (t, events) ∧ Anew s program t) ∧
    ∀ source problems, assemble source = .error problems →
      s.loadSource source = .error problems ∧ s.serve (.loadSource source) = s := by
  refine ⟨s.anew_load s.processor.program, fun source program h => ?_,
    fun source problems h => ?_⟩
  · refine ⟨(s.load program).1, (s.load program).2, ?_, s.anew_load program⟩
    simp only [loadSource, h]
    rfl
  · have hload : s.loadSource source = .error problems := by
      simp only [loadSource, h]
      rfl
    refine ⟨hload, ?_⟩
    simp only [serve, hload]
    rfl

def division : String := "MOV R0, 7\nDIV R0, R1"

def entangled : List Request :=
  [.loadSource division, .run .whole, .processor .reset, .processor (.writeMemory (Cell.ofNat 3) 5),
    .processor (.attach (.new 3)),
    .processor (.unit (.start ⟨.sum, Cell.ofNat 0, Cell.ofNat 0, 4, none⟩)),
    .processor (.unit .step), .processor (.call .micro)]

theorem reset_forgets_entangled :
    let s := (new {}).served entangled
    s.processor.flight.isSome = true ∧ Anew s s.processor.program s.reset.1 ∧
      (∃ t events, s.loadSource "HLT" = .ok (t, events) ∧ Anew s (.ofParts ["HLT"] .empty [1]) t) ∧
      s.serve (.loadSource "HALT") = s := by
  intro s
  have hbad : ∃ problems, assemble "HALT" = .error problems := ⟨_, rfl⟩
  obtain ⟨problems, hbad⟩ := hbad
  obtain ⟨hreset, hload, hrefuse⟩ := reset_forgets s
  refine ⟨?_, hreset, hload "HLT" _ rfl, (hrefuse "HALT" problems hbad).2⟩
  decide +kernel

end Simulator

end VectorMachine
