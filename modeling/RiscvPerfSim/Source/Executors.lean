import RiscvPerfSim.Source.Instruction

/-!
# Executors

Each function of namespace `Executors` under its own name.  Signed additions
and subtractions wrap, as the compiled code does; a shift count outside
`0 .. 31` gives whatever `Undef.shift` says.
-/

namespace RiscvPerfSim

namespace Executors

/-! ## The shapes the executors share -/

def aluImm (f : BitVec 32 → BitVec 32 → BitVec 32) (instr : Instruction) :
    Except Error Instruction := do
  let imm ← instr.getImm
  let rs1 ← instr.getRs1
  instr.setRdValue (f rs1.value imm)

def aluReg (f : BitVec 32 → BitVec 32 → BitVec 32) (instr : Instruction) :
    Except Error Instruction := do
  instr.dynamicCast .r
  let rs1 ← instr.getRs1
  let rs2 ← instr.getRs2
  instr.setRdValue (f rs1.value rs2.value)

def branchIf (cond : BitVec 32 → BitVec 32 → Bool) (instr : Instruction) :
    Except Error Instruction := do
  instr.dynamicCast .b
  let res := cond instr.rs1.value instr.rs2.value
  let instr ← instr.setBrTargetAddr (instr.imm + instr.pc)
  return { instr with brIsTaken := res }

def setIf (cond : Bool) : BitVec 32 := if cond then 1 else 0

/-- A shift of an `int` by a register value, which is not masked. -/
def shiftBy (env : Env) (executor : Executor)
    (f : BitVec 32 → Nat → BitVec 32) (value count : BitVec 32) : BitVec 32 :=
  if count.toNat < 32 then f value count.toNat
  else env.undef.shift executor value count

/-! ## Upper immediates -/

def LUI (instr : Instruction) : Except Error Instruction := do
  instr.dynamicCast .u
  let imm ← instr.getImm
  instr.setRdValue imm

def AUIPC (instr : Instruction) : Except Error Instruction := do
  instr.dynamicCast .u
  let imm ← instr.getImm
  instr.setRdValue (imm + instr.pc)

/-! ## Effective addresses -/

def Store (instr : Instruction) : Except Error Instruction := do
  instr.dynamicCast .s
  let rs1 ← instr.getRs1
  let imm ← instr.getImm
  return { instr with storeAddres := imm + rs1.value }

def Load (instr : Instruction) : Except Error Instruction := do
  instr.dynamicCast .i
  let rs1 ← instr.getRs1
  let imm ← instr.getImm
  return { instr with loadAddres := imm + rs1.value }

/-! ## Immediate arithmetic -/

def ADDI (instr : Instruction) : Except Error Instruction := do
  instr.dynamicCast .i
  aluImm (fun rs1 imm => rs1 + imm) instr

def SLTI : Instruction → Except Error Instruction :=
  aluImm fun rs1 imm => setIf (rs1.slt imm)

def SLTIU : Instruction → Except Error Instruction :=
  aluImm fun rs1 imm => setIf (rs1.ult imm)

/-- The body computes a conjunction. -/
def XORI : Instruction → Except Error Instruction :=
  aluImm fun rs1 imm => rs1 &&& imm

def ORI : Instruction → Except Error Instruction :=
  aluImm fun rs1 imm => rs1 ||| imm

/-- The body computes an exclusive or. -/
def ANDI : Instruction → Except Error Instruction :=
  aluImm fun rs1 imm => rs1 ^^^ imm

def SLLI (instr : Instruction) : Except Error Instruction := do
  instr.dynamicCast .i
  aluImm (fun rs1 imm => rs1 <<< (imm &&& 0b11111).toNat) instr

def SRLI (instr : Instruction) : Except Error Instruction := do
  instr.dynamicCast .i
  aluImm (fun rs1 imm => rs1 >>> (imm &&& 0b11111).toNat) instr

def SRAI (instr : Instruction) : Except Error Instruction := do
  instr.dynamicCast .i
  aluImm (fun rs1 imm => rs1.sshiftRight (imm &&& 0b11111).toNat) instr

/-! ## Register arithmetic -/

def ADD : Instruction → Except Error Instruction :=
  aluReg fun rs1 rs2 => rs1 + rs2

def SUB : Instruction → Except Error Instruction :=
  aluReg fun rs1 rs2 => rs1 - rs2

def SLL (env : Env) : Instruction → Except Error Instruction :=
  aluReg (shiftBy env .sll fun value count => value <<< count)

def SLT : Instruction → Except Error Instruction :=
  aluReg fun rs1 rs2 => setIf (rs1.slt rs2)

def SLTU : Instruction → Except Error Instruction :=
  aluReg fun rs1 rs2 => setIf (rs1.ult rs2)

def XOR : Instruction → Except Error Instruction :=
  aluReg fun rs1 rs2 => rs1 ^^^ rs2

def SRL (env : Env) : Instruction → Except Error Instruction :=
  aluReg (shiftBy env .srl fun value count => value >>> count)

def SRA (env : Env) : Instruction → Except Error Instruction :=
  aluReg (shiftBy env .sra fun value count => value.sshiftRight count)

def OR : Instruction → Except Error Instruction :=
  aluReg fun rs1 rs2 => rs1 ||| rs2

def AND : Instruction → Except Error Instruction :=
  aluReg fun rs1 rs2 => rs1 &&& rs2

/-! ## Control transfer -/

def BLTU : Instruction → Except Error Instruction :=
  branchIf fun rs1 rs2 => rs1.ult rs2

def BGEU : Instruction → Except Error Instruction :=
  branchIf fun rs1 rs2 => rs2.ule rs1

def BEQ : Instruction → Except Error Instruction :=
  branchIf fun rs1 rs2 => rs1 == rs2

def BNE : Instruction → Except Error Instruction :=
  branchIf fun rs1 rs2 => rs1 != rs2

def BLT : Instruction → Except Error Instruction :=
  branchIf fun rs1 rs2 => rs1.slt rs2

def BGE : Instruction → Except Error Instruction :=
  branchIf fun rs1 rs2 => rs2.sle rs1

def JAL (instr : Instruction) : Except Error Instruction := do
  instr.dynamicCast .j
  let imm ← instr.getImm
  let instr ← instr.setBrTargetAddr (imm + instr.pc)
  instr.setRdValue (instr.pc + 4)

def JALR (instr : Instruction) : Except Error Instruction := do
  instr.dynamicCast .i
  let rs1 ← instr.getRs1
  let imm ← instr.getImm
  let instr ← instr.setBrTargetAddr (imm + rs1.value)
  instr.setRdValue (instr.pc + 4)

def ECALL (instr : Instruction) : Except Error Instruction :=
  .ok instr

end Executors

def Executor.call (env : Env) : Executor → Instruction → Except Error Instruction
  | .lui => Executors.LUI
  | .auipc => Executors.AUIPC
  | .jal => Executors.JAL
  | .jalr => Executors.JALR
  | .beq => Executors.BEQ
  | .bne => Executors.BNE
  | .blt => Executors.BLT
  | .bge => Executors.BGE
  | .bltu => Executors.BLTU
  | .bgeu => Executors.BGEU
  | .store => Executors.Store
  | .load => Executors.Load
  | .addi => Executors.ADDI
  | .slti => Executors.SLTI
  | .sltiu => Executors.SLTIU
  | .xori => Executors.XORI
  | .ori => Executors.ORI
  | .andi => Executors.ANDI
  | .slli => Executors.SLLI
  | .srli => Executors.SRLI
  | .srai => Executors.SRAI
  | .add => Executors.ADD
  | .sub => Executors.SUB
  | .sll => Executors.SLL env
  | .slt => Executors.SLT
  | .sltu => Executors.SLTU
  | .xor => Executors.XOR
  | .srl => Executors.SRL env
  | .sra => Executors.SRA env
  | .or => Executors.OR
  | .and => Executors.AND
  | .ecall => Executors.ECALL

/-- `Instruction::execute`: a null executor does nothing. -/
def Instruction.execute (env : Env) (instr : Instruction) :
    Except Error Instruction :=
  match instr.mainExecutor with
  | some executor => executor.call env instr
  | none => .ok instr

end RiscvPerfSim
