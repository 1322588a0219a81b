import VectorMachine.Proofs.Processor.Flight
import VectorMachine.Proofs.VectorUnit.Requests

namespace VectorMachine.Processor

inductive Request where
  | call (pace : Pace)
  | reset
  | load (program : Program)
  | subscribe (recipient : Nat)
  | unsubscribe (id : ListenerId)
  | setRegister (r : Register) (w : Word)
  | writeMemory (a : PrimaryCell) (w : Word)
  | attach (u : VectorUnit)
  | detach
  | unit (request : VectorUnit.Request)

namespace Request

def pace? : Request → Option Pace
  | .call pace => some pace
  | _ => none

theorem eq_call {q : Request} {pace : Pace} (h : q.pace? = some pace) : q = .call pace := by
  cases q <;> cases h
  rfl

def continues : Request → Bool
  | .reset | .load _ | .subscribe _ | .unsubscribe _ => false
  | _ => true

end Request

def serve (p : Processor) : Request → Processor × List VectorMachine.Event
  | .call pace => ((p.advance pace).next, (p.advance pace).events)
  | .reset => p.reset
  | .load program => p.load program
  | .subscribe recipient => ((p.subscribe recipient).2, [])
  | .unsubscribe id => ((p.unsubscribe id).2, [])
  | .setRegister r w => (p.setRegister r w, [])
  | .writeMemory a w => (p.writeMemory a w, [])
  | .attach u => ((p.attach u).2, [])
  | .detach => (p.detach.2, [])
  | .unit request => ({ p with unit := p.unit.map fun u => u.serve request }, [])

def served (p : Processor) (requests : List Request) : Processor :=
  requests.foldl (fun q request => (q.serve request).1) p

def Reachable (p : Processor) : Prop :=
  ∃ settings requests, p = (new settings).served requests

theorem flightFits_congr {p q : Processor} (h : p.FlightFits) (hf : q.flight = p.flight)
    (hh : q.halted = p.halted) (hpc : q.pc = p.pc) (hprogram : q.program = p.program) :
    q.FlightFits := by
  intro f hqf
  obtain ⟨running, pc_eq, text_eq, decoded⟩ := h f (hf ▸ hqf)
  refine ⟨hh.trans running, pc_eq.trans hpc.symm, ?_, decoded⟩
  rw [hprogram, hpc, text_eq]

theorem flightFits_serve {p : Processor} (h : p.FlightFits) (request : Request) :
    (p.serve request).1.FlightFits := by
  cases request with
  | call pace => exact flightFits_advance h pace
  | reset | load program => exact flightFits_of_none rfl
  | _ => exact flightFits_congr h rfl rfl rfl rfl

theorem flightFits_served {p : Processor} (h : p.FlightFits) (requests : List Request) :
    (p.served requests).FlightFits := by
  induction requests generalizing p with
  | nil => exact h
  | cons q rest ih => exact ih (flightFits_serve h q)

theorem Reachable.flightFits {p : Processor} (h : Reachable p) : p.FlightFits := by
  obtain ⟨settings, requests, rfl⟩ := h
  exact flightFits_served (flightFits_of_none rfl) requests

end VectorMachine.Processor
