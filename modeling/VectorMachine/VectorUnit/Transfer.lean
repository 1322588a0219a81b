import VectorMachine.VectorUnit.Basic

namespace VectorMachine.VectorUnit

variable {size : Nat}

def copyIn (memory : Vector Word 128) (primary : Vector Word size) (src : PrimaryCell)
    (dst : UnitCell) (len : Nat) : Vector Word 128 :=
  Nat.fold len (fun i _ m => m.set (dst.offset i) (primary[(src.offset i).val]?.getD 0)) memory

def copyOut (memory : Vector Word 128) (primary : Vector Word size) (src : UnitCell)
    (dst : PrimaryCell) (len : Nat) : Vector Word size :=
  Nat.fold len (fun i _ m => m.setIfInBounds (dst.offset i).val (memory.get (src.offset i))) primary

def finishTransfer (u : VectorUnit) (direction : Direction) (words : Nat) :
    VectorUnit × List Event :=
  let counters := { u.counters with wordsTransferred := u.counters.wordsTransferred + words }
  let after := { u with counters := counters }
  (after, after.announce fun state => .transfer state direction words)

def loadBlock (u : VectorUnit) (primary : Vector Word size) (src : PrimaryCell) (dst : UnitCell)
    (len : Nat) : VectorUnit × List Event :=
  let loaded := { u with memory := copyIn u.memory primary src dst len }
  loaded.finishTransfer .toUnit len

def storeBlock (u : VectorUnit) (primary : Vector Word size) (src : UnitCell) (dst : PrimaryCell)
    (len : Nat) : Vector Word size × VectorUnit × List Event :=
  (copyOut u.memory primary src dst len, u.finishTransfer .toPrimary len)

end VectorMachine.VectorUnit
