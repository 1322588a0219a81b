import VectorMachine.Processor.Action

namespace VectorMachine.Processor

def value? (p : Processor) (o : Option Operand) : Option Word :=
  o.bind fun o => (p.value o).toOption

def target? (p : Processor) (o : Option Operand) : Option Nat :=
  o.bind fun o => (p.target o).toOption

def execute (description : String) (source : Option Place := none)
    (destination : Option Place := none) (value : Option Int64 := none) : MicroOp :=
  ⟨.execute, description, source, destination, value⟩

def writeback (description : String) (destination : Option Place := none)
    (value : Option Int64 := none) : MicroOp :=
  ⟨.writeback, description, none, destination, value⟩

def countText : Option Nat → String
  | none => "?"
  | some n => toString n

def aluExpression (op : AluOp) (a b : Option Operand) : String :=
  let left := Place.operandText a
  match op with
  | .not => "~" ++ left
  | .inc | .dec => left ++ " " ++ op.symbol ++ " 1"
  | _ => left ++ " " ++ op.symbol ++ " " ++ Place.operandText b

def aluOutput? (p : Processor) (op : AluOp) (a b : Option Operand) : Option Alu.Output := do
  let x ← p.value? a
  let y ← if op.unary then some 0 else p.value? b
  Alu.eval? op x y

def planAlu (p : Processor) (op : AluOp) (a b : Option Operand) : List MicroOp :=
  let sources := if op.unary then .operand a else .operands a b
  [execute ("Read " ++ sources.text) (some sources),
    execute ("ALU: " ++ aluExpression op a b) (some .alu) none
      ((p.aluOutput? op a b).map Alu.Output.raw)]

def planLoad (p : Processor) (a b : Option Operand) : List MicroOp :=
  let cell : Option PrimaryCell := (p.value? b).map fun w => Cell.ofNat w.toNat
  let word := cell.map fun c => (p.memory.get c).toRaw
  let place := Place.primary cell
  [execute "Compute address" (some (.operand b)) none (cell.map fun c => Int64.ofNat c.val),
    execute ("Read " ++ place.text) (some place) none word,
    writeback (Place.operandText a ++ " <- " ++ place.text) (some (.operand a)) word]

def planStore (p : Processor) (a b : Option Operand) : List MicroOp :=
  let cell : Option PrimaryCell := (p.value? b).map fun w => Cell.ofNat w.toNat
  let word := (p.value? a).map Word.toRaw
  let place := Place.primary cell
  [execute "Compute address" (some (.operand b)) none (cell.map fun c => Int64.ofNat c.val),
    execute ("Read " ++ Place.operandText a) (some (.operand a)) none word,
    writeback (place.text ++ " <- " ++ Place.operandText a) (some place) word]

def planJump (p : Processor) (c : Condition) (a : Option Operand) : List MicroOp :=
  let taken := p.flags.satisfies c
  [execute ("Evaluate " ++ c.mnemonic ++ " against " ++ p.flags.text) (some .flags) none
      (some (if taken then 1 else 0)),
    if taken then
      writeback ("Branch taken: PC <- " ++ Place.operandText a) (some .pc)
        ((p.target? a).map Int64.ofNat)
    else
      writeback "Branch not taken: PC <- PC + 1" (some .pc) (some (Int64.ofNat (p.pc + 1)))]

def planCall (p : Processor) (a : Option Operand) : List MicroOp :=
  let target := (p.target? a).map Int64.ofNat
  [execute "Push return address" (some .pc) (some (.primary (some p.sp)))
      (some (Word.toRaw (UInt16.ofNat (p.pc + 1)))),
    execute "Resolve call target" (some (.operand a)) none target,
    writeback "PC <- target, SP <- SP - 1" (some .pc) target]

def planRet (p : Processor) : List MicroOp :=
  [execute "Pop return address" (some (.primary (some p.topCell))) none (some p.top.toRaw),
    writeback "PC <- return address, SP <- SP + 1" (some .pc) (some p.top.toRaw)]

def planPush (p : Processor) (a : Option Operand) : List MicroOp :=
  let word := (p.value? a).map Word.toRaw
  let place := Place.primary (some p.sp)
  [execute ("Read " ++ Place.operandText a) (some (.operand a)) none word,
    execute (place.text ++ " <- value") none (some place) word,
    writeback "SP <- SP - 1" (some .sp) (some (Int64.ofNat p.sp.pred.val))]

def planPop (p : Processor) (a : Option Operand) : List MicroOp :=
  let place := Place.primary (some p.topCell)
  [execute "SP <- SP + 1" none (some .sp) (some (Int64.ofNat p.topCell.val)),
    execute ("Read " ++ place.text) (some place) none (some p.top.toRaw),
    writeback (Place.operandText a ++ " <- " ++ place.text) (some (.operand a))
      (some p.top.toRaw)]

def planTransfer (p : Processor) (direction : Direction) (a b len : Option Operand) :
    List MicroOp :=
  let words := p.value? len
  [execute ("Transfer " ++ countText (words.map UInt16.toNat) ++ " word(s) " ++ direction.label)
      (some (.operand a)) (some (.operand b)) (words.map Word.toRaw),
    writeback "Transfer complete"]

def planLaunch (p : Processor) (op len : Option Operand) : List MicroOp :=
  let lanes := (p.unit.map VectorUnit.width).getD 0
  let batches := (p.value? len).map fun w => batchCount w.toNat lanes
  [execute ("Dispatch " ++ Place.operandText op ++ " to compute unit (" ++ countText batches ++
      " batch(es))") (some (.operand op)) (some .unit) (batches.map Int64.ofNat),
    writeback "Compute unit busy" (some .unit)]

def planResult (p : Processor) (a : Option Operand) : List MicroOp :=
  let word := p.unit.map fun u => u.result.toRaw
  [execute "Read compute result register" (some .unitResult) none word,
    writeback (Place.operandText a ++ " <- GPU.RESULT") (some (.operand a)) word]

def planUnitRead (p : Processor) (a b : Option Operand) : List MicroOp :=
  let cell : Option UnitCell := (p.value? b).map fun w => Cell.ofNat w.toNat
  let word := cell.bind fun c => p.unit.map fun u => (u.read c).toRaw
  let place := Place.unitCell cell
  [execute ("Read " ++ place.text) (some place) none word,
    writeback (Place.operandText a ++ " <- " ++ place.text) (some (.operand a)) word]

def planUnitWrite (p : Processor) (a b : Option Operand) : List MicroOp :=
  let cell : Option UnitCell := (p.value? a).map fun w => Cell.ofNat w.toNat
  let word := (p.value? b).map Word.toRaw
  let place := Place.unitCell cell
  [execute ("Read " ++ Place.operandText b) (some (.operand b)) none word,
    writeback (place.text ++ " <- " ++ Place.operandText b) (some place) word]

def plan (p : Processor) (i : Instruction) : List MicroOp :=
  let a := i.operand? 0
  let b := i.operand? 1
  match i.opcode with
  | .nop => [execute "No operation", writeback "Nothing to write back"]
  | .hlt => [execute "Halt requested", writeback "Processor halted" (some .halted)]
  | .mov =>
      let word := (p.value? b).map Word.toRaw
      [execute ("Read " ++ Place.operandText b) (some (.operand b)) none word,
        writeback (Place.operandText a ++ " <- " ++ Place.operandText b) (some (.operand a)) word]
  | .load => p.planLoad a b
  | .store => p.planStore a b
  | .alu op =>
      p.planAlu op a b ++
        [writeback (Place.operandText a ++ " <- ALU, update flags") (some (.operand a))
          ((p.aluOutput? op a b).map fun out => out.value.toRaw)]
  | .cmp =>
      p.planAlu .sub a b ++
        [writeback "Update flags" (some .flags) ((p.aluOutput? .sub a b).map Alu.Output.raw)]
  | .jmp =>
      let target := (p.target? a).map Int64.ofNat
      [execute "Resolve jump target" (some (.operand a)) none target,
        writeback "PC <- target" (some .pc) target]
  | .jumpIf c => p.planJump c a
  | .call => p.planCall a
  | .ret => p.planRet
  | .push => p.planPush a
  | .pop => p.planPop a
  | .gload => p.planTransfer .toUnit a b (i.operand? 2)
  | .gstore => p.planTransfer .toPrimary a b (i.operand? 2)
  | .gexec => p.planLaunch a (i.operand? 3)
  | .gwait =>
      [execute "Drain compute unit" (some .unit), writeback "Compute unit idle"]
  | .gres => p.planResult a
  | .gread => p.planUnitRead a b
  | .gwrite => p.planUnitWrite a b

theorem length_plan_le (p : Processor) (i : Instruction) : (p.plan i).length ≤ 3 := by
  unfold plan
  dsimp only
  split <;> first
    | exact Nat.le_refl 3
    | exact Nat.le_succ 2

theorem plan_ne_nil (p : Processor) (i : Instruction) : p.plan i ≠ [] := by
  unfold plan
  dsimp only
  split <;> exact List.cons_ne_nil _ _

end VectorMachine.Processor
