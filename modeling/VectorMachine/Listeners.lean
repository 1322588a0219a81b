namespace VectorMachine

abbrev ListenerId := Nat

structure Listener where
  id : ListenerId
  recipient : Nat
  deriving DecidableEq, Repr

structure Listeners where
  registered : List Listener := []
  nextId : ListenerId := 0
  deriving DecidableEq, Repr

namespace Listeners

def subscribe (ls : Listeners) (recipient : Nat) : ListenerId × Listeners :=
  (ls.nextId, ⟨ls.registered ++ [⟨ls.nextId, recipient⟩], ls.nextId + 1⟩)

def isRegistered (ls : Listeners) (id : ListenerId) : Bool :=
  ls.registered.any fun l => l.id == id

def unsubscribe (ls : Listeners) (id : ListenerId) : Bool × Listeners :=
  (ls.isRegistered id, { ls with registered := ls.registered.filter fun l => l.id != id })

def heard (ls : Listeners) : Bool :=
  !ls.registered.isEmpty

def recipients (ls : Listeners) : List Nat :=
  ls.registered.map Listener.recipient

def deliver {ε : Type} (ls : Listeners) (event : ε) : List (Nat × ε) :=
  ls.recipients.map fun r => (r, event)

theorem deliver_eq_nil_iff {ε : Type} {ls : Listeners} {event : ε} :
    ls.deliver event = [] ↔ ls.heard = false := by
  simp [deliver, recipients, heard]

def summary (ls : Listeners) : String :=
  "EventBus \x7b listeners: " ++ toString ls.registered.length ++ " \x7d"

end Listeners

end VectorMachine
