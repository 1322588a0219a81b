import Mathlib.Data.List.Induction
import VectorMachine.Proofs.Processor.Halting

namespace VectorMachine

def Concludes (plan : List MicroOp) : Prop :=
  ∃ n, plan.map MicroOp.stage = List.replicate n .execute ++ [.writeback]

namespace Concludes

variable {m : MicroOp} {plan rest : List MicroOp}

theorem uncons (h : Concludes (m :: rest)) (hne : rest ≠ []) :
    m.stage = .execute ∧ Concludes rest := by
  obtain ⟨n, hn⟩ := h
  cases n with
  | zero =>
      obtain ⟨-, hrest⟩ := List.cons.inj hn
      exact absurd (List.map_eq_nil_iff.1 hrest) hne
  | succ n =>
      obtain ⟨hm, hrest⟩ := List.cons.inj hn
      exact ⟨hm, n, hrest⟩

theorem of_append {replayed : List MicroOp} (h : Concludes (replayed ++ plan)) (hne : plan ≠ []) :
    Concludes plan := by
  induction replayed with
  | nil => exact h
  | cons m replayed ih => exact ih (h.uncons (List.append_ne_nil_of_right_ne_nil _ hne)).2

end Concludes

namespace Processor

theorem concludes_plan (p : Processor) (i : Instruction) : Concludes (p.plan i) := by
  rcases p.round_plan i with h | h
  · exact ⟨1, (List.append_right_inj [Stage.fetch, .decode]).1 h⟩
  · exact ⟨2, (List.append_right_inj [Stage.fetch, .decode]).1 h⟩

section Calls

variable {p : Processor}

theorem flight_step (h : p.FlightFits) : p.step.next.flight = none := by
  simp only [step]
  split
  · rename_i hh
    exact flight_eq_none_of_halted h hh
  · split
    · exact flight_commit _ _ _
    · exact flight_commitText _ _ _
    · split
      · rfl
      · exact flight_commitText _ _ _

variable {pc : Nat} {text : String} {i : Instruction} {stage : Stage} {plan : List MicroOp}

theorem decoded_microStep (hfit : p.FlightFits)
    (h : p.microStep.next.flight = some ⟨pc, text, some i, plan, stage⟩) :
    (p.flight = some ⟨pc, text, none, [], .fetch⟩ ∧ Instruction.decode text = .ok i ∧
        stage = .decode ∧ plan = p.plan i) ∨
      ∃ (before : Stage) (m : MicroOp), p.flight = some ⟨pc, text, some i, m :: plan, before⟩ ∧
        stage = m.stage ∧ plan ≠ [] := by
  simp only [microStep] at h
  split at h
  · rename_i hh
    rw [flight_eq_none_of_halted hfit hh] at h
    cases h
  · split at h
    · rename_i pc' text' i' steps before hf
      cases steps with
      | nil =>
          rw [planStep, flight_commit] at h
          cases h
      | cons m rest =>
          cases rest with
          | nil =>
              have hnone : (p.planStep pc' text' i' [m]).next.flight = none := flight_commit _ _ _
              rw [hnone] at h
              cases h
          | cons n rest =>
              cases h
              exact .inr ⟨before, m, hf, rfl, List.cons_ne_nil _ _⟩
    · rename_i pc' text' steps before hf
      obtain ⟨rfl, rfl⟩ := (hfit _ hf).planned
      simp only [decodeStep] at h
      split at h
      · cases h
      · rename_i j hj
        cases h
        exact .inl ⟨hf, hj, rfl, rfl⟩
    · split at h <;> cases h

end Calls

theorem served_concat (p : Processor) (requests : List Request) (request : Request) :
    p.served (requests ++ [request]) = ((p.served requests).serve request).1 := by
  rw [served, List.foldl_append]
  rfl

theorem flight_serve_of_restarts {p : Processor} {request : Request}
    (h : request.restarts = true) : (p.serve request).1.flight = none := by
  cases request with
  | reset | load program => rfl
  | _ => cases h

theorem flight_serve_of_pace?_eq_none {p : Processor} {request : Request}
    (hpace : request.pace? = none) (hrestarts : request.restarts = false) :
    (p.serve request).1.flight = p.flight := by
  cases request with
  | call pace => cases hpace
  | reset | load program => cases hrestarts
  | _ => rfl

/-- The record was decoded by the micro-step after the earlier requests; the later ones replayed
some steps of the plan made then, and left the rest in flight. -/
structure Replays (p : Processor) (earlier later : List Request) (f : Flight) (i : Instruction)
    (replayed : List MicroOp) : Prop where
  fetched : (p.served earlier).flight = some ⟨f.pc, f.text, none, [], .fetch⟩
  decoded : Instruction.decode f.text = .ok i
  plan_eq : (p.served earlier).plan i = replayed ++ f.plan
  stage_eq : f.stage = if replayed = [] then .decode else .execute
  calls : later.filterMap Request.pace? = List.replicate replayed.length .micro
  undisturbed : ∀ request ∈ later, request.restarts = false

section History

variable {p : Processor} {requests earlier later : List Request} {request : Request}
  {pc : Nat} {text : String} {i : Instruction} {stage before : Stage} {m : MicroOp}
  {plan replayed : List MicroOp}

theorem Replays.host {f : Flight} (h : Replays p earlier later f i replayed)
    (hpace : request.pace? = none) (hrestarts : request.restarts = false) :
    Replays p earlier (later ++ [request]) f i replayed := by
  refine { h with calls := ?_, undisturbed := ?_ }
  · rw [List.filterMap_append, h.calls, List.filterMap_cons, hpace]
    exact List.append_nil _
  · intro r hr
    rcases List.mem_append.1 hr with hr | hr
    · exact h.undisturbed r hr
    · rwa [List.mem_singleton.1 hr]

theorem Replays.call (h : Replays p earlier later ⟨pc, text, some i, m :: plan, before⟩ i replayed)
    (hne : plan ≠ []) :
    Replays p earlier (later ++ [.call .micro]) ⟨pc, text, some i, plan, m.stage⟩ i
      (replayed ++ [m]) := by
  have hplan : (p.served earlier).plan i = replayed ++ m :: plan := h.plan_eq
  have hsteps := hplan ▸ (p.served earlier).concludes_plan i
  have hm := ((hsteps.of_append (List.cons_ne_nil m plan)).uncons hne).1
  constructor
  case fetched => exact h.fetched
  case decoded => exact h.decoded
  case plan_eq => rw [hplan, List.append_assoc]; rfl
  case stage_eq =>
    rw [if_neg (List.append_ne_nil_of_right_ne_nil _ (List.cons_ne_nil m []))]
    exact hm
  case calls =>
    rw [List.filterMap_append, h.calls, List.length_append, List.length_singleton,
      List.replicate_succ']
    rfl
  case undisturbed =>
    intro r hr
    rcases List.mem_append.1 hr with hr | hr
    · exact h.undisturbed r hr
    · rw [List.mem_singleton.1 hr]
      rfl

theorem exists_decode_of_flight (hp : p.flight = none)
    (h : (p.served requests).flight = some ⟨pc, text, some i, plan, stage⟩) :
    ∃ earlier later replayed, requests = earlier ++ .call .micro :: later ∧
      Replays p earlier later ⟨pc, text, some i, plan, stage⟩ i replayed := by
  -- from the last request back: it left the record alone, made it, or took its plan's next step
  induction requests using List.reverseRecOn generalizing stage plan with
  | nil => cases hp.symm.trans h
  | append_singleton requests request ih =>
      have hfit := flightFits_served (flightFits_of_none hp) requests
      rw [served_concat] at h
      cases hrestarts : request.restarts with
      | true =>
          cases (flight_serve_of_restarts hrestarts).symm.trans h
      | false =>
          cases hpace : request.pace? with
          | none =>
              rw [flight_serve_of_pace?_eq_none hpace hrestarts] at h
              obtain ⟨earlier, later, replayed, rfl, hreplays⟩ := ih h
              exact ⟨earlier, later ++ [request], replayed, by simp, hreplays.host hpace hrestarts⟩
          | some pace =>
              obtain rfl := Request.eq_call hpace
              cases pace with
              | whole => cases (flight_step hfit).symm.trans h
              | micro =>
                  rcases decoded_microStep hfit h with ⟨hf, hi, rfl, rfl⟩ | ⟨s, m, hf, rfl, hne⟩
                  · exact ⟨requests, [], [], rfl, hf, hi, rfl, rfl, rfl, List.forall_mem_nil _⟩
                  · obtain ⟨earlier, later, replayed, rfl, hreplays⟩ := ih hf
                    exact ⟨earlier, later ++ [.call .micro], replayed ++ [m], by simp,
                      hreplays.call hne⟩

end History

theorem flight_is_on_record (settings : Settings) (requests : List Request) :
    (∀ f, ((new settings).served requests).flight = some f →
      f.Fits ((new settings).served requests) ∧
      (f.stage = .fetch ∧ f.decoded = none ∧ f.plan = [] ∨
        ∃ i earlier later replayed, f.decoded = some i ∧ Concludes f.plan ∧
          requests = earlier ++ .call .micro :: later ∧
          Replays (new settings) earlier later f i replayed)) ∧
    ∀ pc text i stage,
      ((new settings).served requests).flight ≠ some ⟨pc, text, some i, [], stage⟩ := by
  have hfit : ((new settings).served requests).FlightFits :=
    flightFits_served (flightFits_of_none rfl) requests
  constructor
  · intro f hf
    refine ⟨hfit f hf, ?_⟩
    cases f with
    | undecoded pc text plan stage =>
        obtain ⟨rfl, rfl⟩ := (hfit _ hf).planned
        exact .inl ⟨rfl, rfl, rfl⟩
    | decoded pc text i plan stage =>
        obtain ⟨-, hne, -⟩ := (hfit _ hf).planned
        obtain ⟨earlier, later, replayed, hrequests, hreplays⟩ := exists_decode_of_flight rfl hf
        have hplan := hreplays.plan_eq ▸ ((new settings).served earlier).concludes_plan i
        exact .inr ⟨i, earlier, later, replayed, rfl, hplan.of_append hne, hrequests, hreplays⟩
  · intro pc text i stage hf
    obtain ⟨-, hne, -⟩ := (hfit _ hf).planned
    exact hne rfl

def midway : List Request :=
  [.load (.ofInstructions ["ADD R0, R1"]), .call .micro, .call .micro,
    .setRegister ⟨1, by decide⟩ 9, .call .micro]

theorem flight_is_on_record_midway :
    ∃ f i earlier later replayed, ((new {}).served midway).flight = some f ∧
      f.stage = .execute ∧ Concludes f.plan ∧ midway = earlier ++ .call .micro :: later ∧
      Replays (new {}) earlier later f i replayed := by
  have hstage : ((new {}).served midway).flight.map Flight.stage = some .execute := by rfl
  obtain ⟨f, hf, hexecute⟩ := Option.map_eq_some_iff.1 hstage
  obtain ⟨-, hrecord⟩ := (flight_is_on_record {} midway).1 f hf
  rcases hrecord with ⟨hfetch, -⟩ | ⟨i, earlier, later, replayed, -, hplan, hmidway, hreplays⟩
  · cases hexecute.symm.trans hfetch
  · exact ⟨f, i, earlier, later, replayed, hf, hexecute, hplan, hmidway, hreplays⟩

end Processor

end VectorMachine
