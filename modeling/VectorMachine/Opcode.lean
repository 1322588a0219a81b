import VectorMachine.AluOp
import VectorMachine.Condition

namespace VectorMachine

inductive Opcode where
  | nop
  | hlt
  | mov
  | load
  | store
  | alu (op : AluOp)
  | cmp
  | jmp
  | jumpIf (c : Condition)
  | call
  | ret
  | push
  | pop
  | gload
  | gstore
  | gexec
  | gwait
  | gres
  | gread
  | gwrite
  deriving DecidableEq, Repr

inductive Arity where
  | exactly (n : Nat)
  | between (least most : Nat)
  deriving DecidableEq, Repr

namespace Arity

def accepts : Arity → Nat → Bool
  | .exactly n, count => count == n
  | .between least most, count => least ≤ count && count ≤ most

def text : Arity → String
  | .exactly n => toString n
  | .between least most => toString least ++ " or " ++ toString most

end Arity

inductive OpClass where
  | alu
  | memory
  | control
  | stack
  | bridge
  | system
  deriving DecidableEq, Repr

def OpClass.name : OpClass → String
  | .alu => "alu"
  | .memory => "memory"
  | .control => "control"
  | .stack => "stack"
  | .bridge => "bridge"
  | .system => "system"

namespace Opcode

def all : List Opcode :=
  [.nop, .hlt, .mov, .load, .store,
    .alu .add, .alu .sub, .alu .mul, .alu .div, .alu .mod, .alu .and, .alu .or, .alu .xor,
    .alu .shl, .alu .shr, .alu .not, .alu .inc, .alu .dec, .cmp,
    .jmp, .jumpIf .zero, .jumpIf .notZero, .jumpIf .greater, .jumpIf .greaterEqual,
    .jumpIf .less, .jumpIf .lessEqual, .jumpIf .carry, .jumpIf .noCarry,
    .call, .ret, .push, .pop,
    .gload, .gstore, .gexec, .gwait, .gres, .gread, .gwrite]

theorem mem_all (op : Opcode) : op ∈ all := by
  cases op with
  | alu a => cases a <;> decide
  | jumpIf c => cases c <;> decide
  | _ => decide

def mnemonic : Opcode → String
  | .nop => "NOP"
  | .hlt => "HLT"
  | .mov => "MOV"
  | .load => "LOAD"
  | .store => "STORE"
  | .alu op => op.mnemonic
  | .cmp => "CMP"
  | .jmp => "JMP"
  | .jumpIf c => c.mnemonic
  | .call => "CALL"
  | .ret => "RET"
  | .push => "PUSH"
  | .pop => "POP"
  | .gload => "GLOAD"
  | .gstore => "GSTORE"
  | .gexec => "GEXEC"
  | .gwait => "GWAIT"
  | .gres => "GRES"
  | .gread => "GREAD"
  | .gwrite => "GWRITE"

def ofMnemonic? (token : String) : Option Opcode :=
  all.find? fun op => op.mnemonic.toList == token.toList.map Char.toUpper

theorem ofMnemonic?_mnemonic (op : Opcode) : ofMnemonic? op.mnemonic = some op := by
  cases op with
  | alu a => cases a <;> decide +kernel
  | jumpIf c => cases c <;> decide +kernel
  | _ => decide +kernel

def arity : Opcode → Arity
  | .nop | .hlt | .ret | .gwait => .exactly 0
  | .jmp | .jumpIf _ | .call | .push | .pop | .gres => .exactly 1
  | .alu op => .exactly (if op.unary then 1 else 2)
  | .mov | .load | .store | .cmp | .gread | .gwrite => .exactly 2
  | .gload | .gstore => .exactly 3
  | .gexec => .between 4 5

def opClass : Opcode → OpClass
  | .nop | .hlt => .system
  | .mov | .load | .store => .memory
  | .alu _ | .cmp => .alu
  | .jmp | .jumpIf _ | .call | .ret => .control
  | .push | .pop => .stack
  | .gload | .gstore | .gexec | .gwait | .gres | .gread | .gwrite => .bridge

def aluOp? : Opcode → Option AluOp
  | .alu op => some op
  | .cmp => some .sub
  | _ => none

def condition? : Opcode → Option Condition
  | .jumpIf c => some c
  | _ => none

def controlTransfer : Opcode → Bool
  | .jmp | .call | .jumpIf _ => true
  | _ => false

end Opcode

end VectorMachine
