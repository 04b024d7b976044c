import RiscvPerfSim.Source.HazardUnit

/-!
# Decoder

`Decoder::recognize` as the nested dispatch of the source, and
`Decoder::decode`, which takes an object from the array of its class, reads the
operands through the hazard unit and locks the destination.
-/

namespace RiscvPerfSim

/-! ## Recognition -/

structure Recognized where
  name : InstrName := .none
  type : InstrType := .none
  memAccType : AccessType := .none
  accSize : BitVec 32 := 0
  isBranch : Bool := false
  executor : Option Executor := none
  deriving DecidableEq

namespace Decoder

def opcodeOf (instr : BitVec 32) : BitVec 7 := instr.extractLsb' 0 7

def funct3Of (instr : BitVec 32) : BitVec 3 := instr.extractLsb' 12 3

def funct7Of (instr : BitVec 32) : BitVec 7 := instr.extractLsb' 25 7

def numRs1 (instr : BitVec 32) : RegName := (instr.extractLsb' 15 5).toNat

def numRs2 (instr : BitVec 32) : RegName := (instr.extractLsb' 20 5).toNat

def numRd (instr : BitVec 32) : RegName := (instr.extractLsb' 7 5).toNat

def recognizeBranch (funct3 : BitVec 3) : Recognized :=
  let base : Recognized := { type := .b, isBranch := true }
  if funct3 = 0b000 then { base with name := .beq, executor := some .beq }
  else if funct3 = 0b001 then { base with name := .bne, executor := some .bne }
  else if funct3 = 0b100 then { base with name := .blt, executor := some .blt }
  else if funct3 = 0b101 then { base with name := .bge, executor := some .bge }
  else if funct3 = 0b110 then { base with name := .bltu, executor := some .bltu }
  else if funct3 = 0b111 then { base with name := .bgeu, executor := some .bgeu }
  else base

def recognizeLoad (funct3 : BitVec 3) : Recognized :=
  let base : Recognized := { type := .i, executor := some .load }
  if funct3 = 0b000 then { base with name := .lb, memAccType := .read, accSize := 1 }
  else if funct3 = 0b001 then { base with name := .lh, memAccType := .read, accSize := 2 }
  else if funct3 = 0b010 then { base with name := .lw, memAccType := .read, accSize := 4 }
  else if funct3 = 0b100 then { base with name := .lbu, memAccType := .read, accSize := 1 }
  else if funct3 = 0b101 then { base with name := .lhu, memAccType := .read, accSize := 2 }
  else base

def recognizeStore (funct3 : BitVec 3) : Recognized :=
  let base : Recognized := { type := .s }
  let store : Recognized :=
    { type := .s, memAccType := .write, executor := some .store }
  if funct3 = 0b000 then { store with name := .sb, accSize := 1 }
  else if funct3 = 0b001 then { store with name := .sh, accSize := 2 }
  else if funct3 = 0b010 then { store with name := .sw, accSize := 4 }
  else base

/-- Only `SRLI` and `SRAI` test `funct7`; a failed test leaves no type either. -/
def recognizeOpImm (funct3 : BitVec 3) (funct7 : BitVec 7) : Recognized :=
  let base : Recognized := { type := .i }
  if funct3 = 0b001 then { base with name := .slli, executor := some .slli }
  else if funct3 = 0b101 then
    if funct7 = 0b0000000 then { base with name := .srli, executor := some .srli }
    else if funct7 = 0b0100000 then { base with name := .srai, executor := some .srai }
    else {}
  else if funct3 = 0b000 then { base with name := .addi, executor := some .addi }
  else if funct3 = 0b010 then { base with name := .slti, executor := some .slti }
  else if funct3 = 0b011 then { base with name := .sltiu, executor := some .sltiu }
  else if funct3 = 0b100 then { base with name := .xori, executor := some .xori }
  else if funct3 = 0b110 then { base with name := .ori, executor := some .ori }
  else if funct3 = 0b111 then { base with name := .andi, executor := some .andi }
  else {}

/-- One inner `switch (funct7)` with the single case `0b0000000`. -/
def recognizeOpPlain (funct7 : BitVec 7) (name : InstrName) (executor : Executor) :
    Recognized :=
  if funct7 = 0b0000000 then { type := .r, name := name, executor := some executor }
  else { type := .r }

/-- One inner `switch (funct7)` with the cases `0b0000000` and `0b0100000`. -/
def recognizeOpPair (funct7 : BitVec 7) (name : InstrName) (executor : Executor)
    (altName : InstrName) (altExecutor : Executor) : Recognized :=
  if funct7 = 0b0000000 then { type := .r, name := name, executor := some executor }
  else if funct7 = 0b0100000 then
    { type := .r, name := altName, executor := some altExecutor }
  else { type := .r }

def recognizeOp (funct3 : BitVec 3) (funct7 : BitVec 7) : Recognized :=
  if funct3 = 0b000 then recognizeOpPair funct7 .add .add .sub .sub
  else if funct3 = 0b001 then recognizeOpPlain funct7 .sll .sll
  else if funct3 = 0b010 then recognizeOpPlain funct7 .slt .slt
  else if funct3 = 0b011 then recognizeOpPlain funct7 .sltu .sltu
  else if funct3 = 0b100 then recognizeOpPlain funct7 .xor .xor
  else if funct3 = 0b101 then recognizeOpPair funct7 .srl .srl .sra .sra
  else if funct3 = 0b110 then recognizeOpPlain funct7 .or .or
  else if funct3 = 0b111 then recognizeOpPlain funct7 .and .and
  else { type := .r }

def recognize (instr : BitVec 32) : Recognized :=
  let funct3 := funct3Of instr
  let funct7 := funct7Of instr
  let opcode := opcodeOf instr
  if opcode = 0b0110111 then { name := .lui, type := .u, executor := some .lui }
  else if opcode = 0b0010111 then { name := .auipc, type := .u, executor := some .auipc }
  else if opcode = 0b1101111 then
    { name := .jal, type := .j, isBranch := true, executor := some .jal }
  else if opcode = 0b1100111 then
    { name := .jalr, type := .i, isBranch := true, executor := some .jalr }
  else if opcode = 0b1100011 then recognizeBranch funct3
  else if opcode = 0b0000011 then recognizeLoad funct3
  else if opcode = 0b0100011 then recognizeStore funct3
  else if opcode = 0b0010011 then recognizeOpImm funct3 funct7
  else if opcode = 0b0110011 then recognizeOp funct3 funct7
  else if opcode = 0b1110011 then
    if instr = 0b1110011 then
      { name := .ecall, type := .system, executor := some .ecall }
    else { type := .system }
  else {}

/-! ## Decoding -/

def readOperand (env : Env) (dp : Datapath) (num : RegName)
    (needValueOn : PipelineStage) : Except Error (Datapath × Register) :=
  if dp.rf.isLock num ≠ 0 then
    HazardUnit.decode env dp (dp.rf.getReg num).2 needValueOn
  else .ok (dp, (dp.rf.getReg num).2)

/-- The copy of the destination register, with its lock taken. -/
def lockRd (dp : Datapath) (num : RegName) : Datapath × Register :=
  ({ dp with rf := (dp.rf.getReg num .write).1 }, (dp.rf.getReg num .write).2)

def readFields (env : Env) (dp : Datapath) (found : Recognized)
    (instr : BitVec 32) (old : Instruction) : Except Error (Datapath × Instruction) :=
  match found.type with
  | .r => do
      let (dp, rs1) ← readOperand env dp (numRs1 instr) .execute
      let (dp, rs2) ← readOperand env dp (numRs2 instr) .execute
      let (dp, rd) := lockRd dp (numRd instr)
      return (dp, { old with rs1 := rs1, rs2 := rs2, rd := rd })
  | .i => do
      let (dp, rs1) ← readOperand env dp (numRs1 instr) .execute
      let (dp, rd) := lockRd dp (numRd instr)
      return (dp, { old with loadSize := found.accSize, rs1 := rs1, rd := rd })
  | .s => do
      let (dp, rs1) ← readOperand env dp (numRs1 instr) .execute
      let (dp, rs2) ← readOperand env dp (numRs2 instr)
        (if found.memAccType = .write then .memory else .execute)
      return (dp, { old with storeSize := found.accSize, rs1 := rs1, rs2 := rs2 })
  | .b => do
      let (dp, rs1) ← readOperand env dp (numRs1 instr) .execute
      let (dp, rs2) ← readOperand env dp (numRs2 instr) .execute
      return (dp, { old with rs1 := rs1, rs2 := rs2 })
  | .u | .j => do
      let (dp, rd) := lockRd dp (numRd instr)
      return (dp, { old with rd := rd })
  | .system => .ok (dp, old)
  | .none => .ok (dp, {})

def finish (found : Recognized) (instr : BitVec 32) (object : Instruction) :
    Instruction :=
  Instruction.calcImm
    { object with
      name := found.name
      type := found.type
      mainExecutor := found.executor
      opcode := opcodeOf instr
      isBranch := found.isBranch
      memAccType := found.memAccType
      branchAddr := 0 } instr

def decode (env : Env) (dp : Datapath) (instr : BitVec 32) :
    Except Error (Datapath × InstrPtr) := do
  let found := recognize instr
  let (decoder, ptr) := dp.decoder.getNext found.type
  let (dp, object) ←
    readFields env { dp with decoder := decoder } found instr (decoder.get ptr)
  return ({ dp with decoder := dp.decoder.set ptr (finish found instr object) }, ptr)

end Decoder

end RiscvPerfSim
