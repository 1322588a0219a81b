import VectorMachine.Proofs.Processor.Requests
import VectorMachine.Proofs.Processor.Rounds

namespace VectorMachine.Processor

namespace Event

def ends : Event → Bool
  | .halt _ | .error .. => true
  | _ => false

end Event

def received (recipient : Nat) (deliveries : List (Nat × VectorMachine.Event)) : List Event :=
  deliveries.filterMap fun d => if d.1 = recipient then d.2.processor? else none

def hears (p : Processor) (recipient : Nat) (request : Request) : List Event :=
  received recipient (p.deliver (p.serve request).2)

def stream (p : Processor) (recipient : Nat) : List Request → List Event
  | [] => []
  | q :: rest => p.hears recipient q ++ (p.serve q).1.stream recipient rest

section Deliver

variable {p : Processor} {recipient : Nat}

theorem received_deliver_processor (ls : Listeners) (e : Event) :
    received recipient (ls.deliver (.processor e)) =
      List.replicate (ls.recipients.count recipient) e := by
  simp only [received, Listeners.deliver, List.filterMap_map, Function.comp_def,
    Event.processor?]
  induction ls.recipients with
  | nil => rfl
  | cons r rs ih =>
      by_cases h : r = recipient
      · simp [h, ih, List.replicate_succ]
      · simp [h, ih]

theorem received_deliver_unit (ls : Listeners) (e : VectorUnit.Event) :
    received recipient (ls.deliver (.unit e)) = [] := by
  simp [received, Listeners.deliver, Event.processor?]

theorem received_deliver (h : p.listeners.recipients.count recipient = 1)
    (events : List VectorMachine.Event) :
    received recipient (p.deliver events) = events.filterMap Event.processor? := by
  induction events with
  | nil => rfl
  | cons e es ih =>
      have hsplit : received recipient (p.deliver (e :: es)) =
          received recipient ((p.audience e).deliver e) ++ received recipient (p.deliver es) := by
        rw [deliver, List.flatMap_cons, received, List.filterMap_append]
        rfl
      rw [hsplit, ih]
      cases e with
      | processor e => rw [received_deliver_processor, audience, h]; rfl
      | unit e => rw [received_deliver_unit]; rfl

theorem heard_of_count (h : p.listeners.recipients.count recipient = 1) :
    p.listeners.heard = true := by
  cases hr : p.listeners.registered with
  | nil => simp [Listeners.recipients, hr] at h
  | cons l ls => simp [Listeners.heard, hr]

end Deliver

structure Listened (p : Processor) (recipient : Nat) : Prop where
  fits : p.FlightFits
  count : p.listeners.recipients.count recipient = 1

structure Passes (p : Processor) (s : Processor × List VectorMachine.Event) : Prop where
  events_eq : s.2 = []
  listeners_eq : s.1.listeners = p.listeners
  counters_eq : s.1.counters = p.counters
  halted_eq : s.1.halted = p.halted
  flight_eq : s.1.flight = p.flight

theorem passes_serve {q : Request} (hq : q.continues = true) (hcall : q.pace? = none)
    (p : Processor) : Passes p (p.serve q) := by
  cases q with
  | call pace => cases hcall
  | reset | load | subscribe | unsubscribe => cases hq
  | _ => exact ⟨rfl, rfl, rfl, rfl, rfl⟩

section Serve

variable {p : Processor} {recipient : Nat}

theorem Listened.hears_eq (h : Listened p recipient) (q : Request) :
    p.hears recipient q = (p.serve q).2.filterMap Event.processor? :=
  received_deliver h.count _

theorem Listened.reports (h : Listened p recipient) (pace : Pace) :
    (p.advance pace).Reports p pace :=
  reports_advance (heard_of_count h.count) h.fits pace

theorem Listened.hears_pass (h : Listened p recipient) {q : Request} (hq : q.continues = true)
    (hcall : q.pace? = none) : p.hears recipient q = [] := by
  rw [h.hears_eq, (passes_serve hq hcall p).events_eq]
  rfl

theorem Listened.serve_cases (h : Listened p recipient) {q : Request} (hq : q.continues = true) :
    (p.hears recipient q = [] ∧ Passes p (p.serve q)) ∨ ∃ pace, q = .call pace ∧
      p.hears recipient q = (p.advance pace).told ∧ (p.advance pace).Reports p pace := by
  cases hcall : q.pace? with
  | none => exact .inl ⟨h.hears_pass hq hcall, passes_serve hq hcall p⟩
  | some pace =>
      obtain rfl := Request.eq_call hcall
      exact .inr ⟨pace, rfl, h.hears_eq _, h.reports pace⟩

theorem Listened.serve (h : Listened p recipient) {q : Request} (hq : q.continues = true) :
    Listened (p.serve q).1 recipient := by
  refine ⟨flightFits_serve h.fits q, ?_⟩
  have hlisteners : (p.serve q).1.listeners = p.listeners := by
    rcases h.serve_cases hq with ⟨-, hpass⟩ | ⟨pace, rfl, -, hreports⟩
    · exact hpass.listeners_eq
    · exact hreports.listeners_eq
  rw [hlisteners, h.count]

theorem Listened.served (h : Listened p recipient) {requests : List Request}
    (hrequests : ∀ q ∈ requests, q.continues = true) :
    Listened (p.served requests) recipient := by
  induction requests generalizing p with
  | nil => exact h
  | cons q rest ih =>
      rw [List.forall_mem_cons] at hrequests
      exact ih (h.serve hrequests.1) hrequests.2

end Serve

section Tells

variable {p q : Processor} {pace : Pace} {result : Progress} {es : List Event}

theorem ends_micros {ms : List MicroOp} {e : Event} (h : e ∈ p.micros ms) : e.ends = false := by
  obtain ⟨m, -, rfl⟩ := List.mem_map.1 h
  rfl

theorem Ends.ends_of_running {i? : Option Instruction} (h : Ends p i? q result es)
    (hq : q.halted = false) : ∀ e ∈ es, e.ends = false := by
  cases h with
  | committed => simp [Event.ends]
  | halted _ _ hstop | faulted _ hstop => rw [hq] at hstop; cases hstop

theorem Ends.pairwise {i? : Option Instruction} (h : Ends p i? q result es) :
    es.Pairwise fun e _ => e.ends = false := by
  cases h <;> simp [Event.ends]

theorem Tells.silent_of_halted (h : Tells p pace q result es) (hp : p.halted = true) :
    q = p ∧ es = [] := by
  cases h with
  | silent _ hq => exact ⟨hq, rfl⟩
  | ranOut hrun | advanced hrun | ended hrun => rw [hp] at hrun; cases hrun

theorem Tells.ends_of_running (h : Tells p pace q result es) (hq : q.halted = false) :
    ∀ e ∈ es, e.ends = false := by
  cases h with
  | silent => simp
  | ranOut _ _ hstop => rw [hq] at hstop; cases hstop
  | advanced => simp [Event.ends]
  | ended _ _ _ h =>
      intro e he
      rcases List.mem_append.1 he with he | he
      · exact ends_micros he
      · exact h.ends_of_running hq e he

theorem Tells.pairwise (h : Tells p pace q result es) :
    es.Pairwise fun e _ => e.ends = false := by
  cases h with
  | silent | ranOut | advanced => simp
  | ended _ _ _ h =>
      rename_i ms _ _ _
      rw [List.pairwise_append]
      refine ⟨?_, h.pairwise, fun e he _ _ => ends_micros he⟩
      exact List.pairwise_of_forall_mem_list fun e he _ _ => ends_micros he

end Tells

section Stream

variable {p : Processor} {recipient : Nat} {requests : List Request}

theorem stream_of_halted (h : Listened p recipient) (hp : p.halted = true)
    (hrequests : ∀ q ∈ requests, q.continues = true) : p.stream recipient requests = [] := by
  induction requests generalizing p with
  | nil => rfl
  | cons q rest ih =>
      rw [List.forall_mem_cons] at hrequests
      rcases h.serve_cases hrequests.1 with ⟨hhears, hpass⟩ | ⟨pace, rfl, hhears, hreports⟩
      · rw [stream, hhears]
        exact ih (h.serve hrequests.1) (hpass.halted_eq.trans hp) hrequests.2
      · obtain ⟨hnext, htold⟩ := hreports.tells.silent_of_halted hp
        rw [stream, hhears, htold]
        exact ih (h.serve hrequests.1) ((congrArg halted hnext).trans hp) hrequests.2

theorem pairwise_stream (h : Listened p recipient)
    (hrequests : ∀ q ∈ requests, q.continues = true) :
    (p.stream recipient requests).Pairwise fun e _ => e.ends = false := by
  induction requests generalizing p with
  | nil => exact .nil
  | cons q rest ih =>
      rw [List.forall_mem_cons] at hrequests
      have hserve := h.serve hrequests.1
      have hrest := ih hserve hrequests.2
      rcases h.serve_cases hrequests.1 with ⟨hhears, -⟩ | ⟨pace, rfl, hhears, hreports⟩
      · rwa [stream, hhears]
      · rw [stream, hhears, List.pairwise_append]
        refine ⟨hreports.tells.pairwise, hrest, fun e he d hd => ?_⟩
        cases hhalted : (p.advance pace).next.halted with
        | false => exact hreports.tells.ends_of_running hhalted e he
        | true =>
            rw [stream_of_halted hserve hhalted hrequests.2] at hd
            cases hd

theorem tally_stream (h : Listened p recipient)
    (hrequests : ∀ q ∈ requests, q.continues = true) :
    Tally p (p.served requests) (p.stream recipient requests) := by
  induction requests generalizing p with
  | nil => exact .of_counters_eq rfl
  | cons q rest ih =>
      rw [List.forall_mem_cons] at hrequests
      refine .append ?_ (ih (h.serve hrequests.1) hrequests.2)
      rcases h.serve_cases hrequests.1 with ⟨hhears, hpass⟩ | ⟨pace, rfl, hhears, hreports⟩
      · rw [hhears]
        exact .of_counters_eq hpass.counters_eq
      · rw [hhears]
        exact hreports.tally

theorem rounds_stream (h : Listened p recipient) {stages : List Stage} (hs : p.Showed stages)
    (hrequests : ∀ q ∈ requests, q.continues = true)
    (hmicro : ∀ pace, .call pace ∈ requests → pace = .micro) :
    Rounds stages (p.stream recipient requests) := by
  -- Along the requests, the invariant is that the flight shows the stages told since the last step.
  induction requests generalizing p stages with
  | nil => exact .nil
  | cons q rest ih =>
      rw [List.forall_mem_cons] at hrequests
      have hserve := h.serve hrequests.1
      have hlater : ∀ pace, .call pace ∈ rest → pace = .micro := fun pace hmem =>
        hmicro pace (List.mem_cons_of_mem q hmem)
      rcases h.serve_cases hrequests.1 with ⟨hhears, hpass⟩ | ⟨pace, rfl, hhears, -⟩
      · rw [stream, hhears]
        refine ih hserve ?_ hrequests.2 hlater
        rwa [Showed, hpass.flight_eq]
      · obtain rfl := hmicro pace List.mem_cons_self
        rw [stream, hhears]
        exact extends_microStep (heard_of_count h.count) h.fits hs _
          (fun later hs' => ih hserve hs' hrequests.2 hlater)
          (fun hstop => stream_of_halted hserve hstop hrequests.2)

end Stream

structure Regular (p : Processor) (recipient : Nat) (requests : List Request) : Prop where
  call : ∀ before pace after, requests = before ++ .call pace :: after →
    Tells (p.served before) pace ((p.served before).advance pace).next
      ((p.served before).advance pace).result ((p.served before).hears recipient (.call pace))
  pass : ∀ before q after, requests = before ++ q :: after → q.pace? = none →
    (p.served before).hears recipient q = []
  ending : (p.stream recipient requests).Pairwise fun e _ => e.ends = false
  tally : Tally p (p.served requests) (p.stream recipient requests)
  round : (∀ pace, .call pace ∈ requests → pace = .micro) → ∀ before s rs mid s' rs' after,
    p.stream recipient requests = before ++ .step s rs :: (mid ++ .step s' rs' :: after) →
      (∀ e ∈ mid, e.isStep = false) →
        ∃ stages, Round stages ∧ mid.map Event.stage? = stages.map some

theorem event_stream_is_regular {p : Processor} (hp : Reachable p) {recipient : Nat}
    (hcount : p.listeners.recipients.count recipient = 1) {requests : List Request}
    (hrequests : ∀ q ∈ requests, q.continues = true) : Regular p recipient requests := by
  have h : Listened p recipient := ⟨hp.flightFits, hcount⟩
  have hsplit {before : List Request} {q : Request} {after : List Request}
      (he : requests = before ++ q :: after) :
      q.continues = true ∧ Listened (p.served before) recipient := by
    constructor
    · exact hrequests q (by simp [he])
    · exact h.served fun q hq => hrequests q (by simp [he, hq])
  constructor
  · intro before pace after he
    obtain ⟨-, hbefore⟩ := hsplit he
    rw [hbefore.hears_eq]
    exact (hbefore.reports pace).tells
  · intro before q after he hcall
    obtain ⟨hq, hbefore⟩ := hsplit he
    exact hbefore.hears_pass hq hcall
  · exact pairwise_stream h hrequests
  · exact tally_stream h hrequests
  · intro hmicro before s rs mid s' rs' after he hmid
    obtain ⟨stages, hs⟩ := exists_showed h.fits
    have hrounds := rounds_stream h hs hrequests hmicro
    rw [he] at hrounds
    exact hrounds.after_step.round_of_step hmid

def watched : Processor :=
  (new {}).served [.subscribe 7, .load (.ofInstructions ["MOV R1, 5", "ADD R1, R1", "HLT"]),
    .call .micro]

def watching : List Request :=
  [.call .micro, .detach, .call .micro, .call .micro, .call .micro, .call .micro,
    .call .micro, .call .micro, .call .micro, .call .whole, .call .micro]

theorem event_stream_is_regular_watched :
    Regular watched 7 watching ∧
      (watched.stream 7 watching).map Event.kind =
        ["micro", "micro", "micro", "step", "micro", "micro", "micro", "micro", "micro", "step",
          "step", "halt"] := by
  have hp : Reachable watched := ⟨{}, _, rfl⟩
  have hcount : watched.listeners.recipients.count 7 = 1 := by decide +kernel
  have hrequests : ∀ q ∈ watching, q.continues = true := by simp [watching, Request.continues]
  exact ⟨event_stream_is_regular hp hcount hrequests, by decide +kernel⟩

end VectorMachine.Processor
