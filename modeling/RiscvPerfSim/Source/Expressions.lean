import RiscvPerfSim.Source.Executors
import RiscvPerfSim.Foundation.CInt

/-!
# The integer expressions of the executors

Each body of namespace `Executors` once more, as the C++ expressions that it
assigns: what is `int32_t`, `uint32_t` or `int64_t` there, and where the code
casts, decides which of the operations can be undefined.
-/

namespace RiscvPerfSim

open Foundation
open CInt (Expr Ty BinOp)

/-- What an executor reads: two `int32_t` values, `get_imm()` and `get_pc()`. -/
inductive Operand where
  | rs1 | rs2 | imm | pc
  deriving DecidableEq

inductive Member where
  | rd | brTargetAddr | brIsTaken | storeAddr | loadAddr
  deriving DecidableEq

namespace Executor

def rs1 : Expr Operand := .var .rs1

def rs2 : Expr Operand := .var .rs2

def imm : Expr Operand := .var .imm

/-- `int32_t imm = get_imm()`, and likewise the cast of the jumps. -/
def immS : Expr Operand := .cast .int32 imm

def pc : Expr Operand := .var .pc

def shamt : Expr Operand := .bin .and imm (.lit 0b11111)

def less (ty : Ty) (a b : Expr Operand) : Expr Operand := .bin .lt (.cast ty a) (.cast ty b)

/-- `int32_t j_addr`, as `set_br_target_addr` takes it. -/
def target : Expr Operand := .cast .uint32 (.cast .int32 (.bin .add immS pc))

def link : Expr Operand := .cast .int32 (.bin .add pc (.lit 4))

def branch (op : BinOp) (ty : Ty) : List (Member × Expr Operand) :=
  [(.brIsTaken, .bin op (.cast ty rs1) (.cast ty rs2)), (.brTargetAddr, target)]

def body : Executor → List (Member × Expr Operand)
  | .lui => [(.rd, .cast .int32 imm)]
  | .auipc => [(.rd, .cast .int32 (.bin .add immS pc))]
  | .store => [(.storeAddr, .bin .add immS rs1)]
  | .load => [(.loadAddr, .bin .add immS rs1)]
  | .addi => [(.rd, .cast .int32 (.bin .add (.cast .int64 rs1) immS))]
  | .slti => [(.rd, less .int32 rs1 immS)]
  | .sltiu => [(.rd, less .uint32 rs1 immS)]
  | .xori => [(.rd, .bin .and rs1 immS)]
  | .ori => [(.rd, .bin .or rs1 immS)]
  | .andi => [(.rd, .bin .xor rs1 immS)]
  | .slli => [(.rd, .bin .shl rs1 shamt)]
  | .srli => [(.rd, .cast .int32 (.bin .shr (.cast .uint32 rs1) shamt))]
  | .srai => [(.rd, .bin .shr rs1 shamt)]
  | .add => [(.rd, .bin .add rs1 rs2)]
  | .sub => [(.rd, .bin .sub rs1 rs2)]
  | .sll => [(.rd, .bin .shl rs1 rs2)]
  | .slt => [(.rd, .cast .int32 (.cast .uint32 (less .int32 rs1 rs2)))]
  | .sltu => [(.rd, .cast .int32 (.cast .uint32 (less .uint32 rs1 rs2)))]
  | .xor => [(.rd, .bin .xor rs1 rs2)]
  | .srl => [(.rd, .cast .int32 (.bin .shr (.cast .uint32 rs1) rs2))]
  | .sra => [(.rd, .bin .shr rs1 rs2)]
  | .or => [(.rd, .bin .or rs1 rs2)]
  | .and => [(.rd, .bin .and rs1 rs2)]
  | .bltu => branch .lt .uint32
  | .bgeu => branch .ge .uint32
  | .beq => branch .eq .uint32
  | .bne => branch .ne .uint32
  | .blt => branch .lt .int32
  | .bge => branch .ge .int32
  | .jal => [(.brTargetAddr, target), (.rd, link)]
  | .jalr => [(.brTargetAddr, .cast .uint32 (.bin .add immS rs1)), (.rd, link)]
  | .ecall => []

end Executor

def Instruction.operands (instr : Instruction) : Operand → CInt.Val
  | .rs1 => CInt.int32 instr.rs1.value
  | .rs2 => CInt.int32 instr.rs2.value
  | .imm => CInt.uint32 instr.imm
  | .pc => CInt.uint32 instr.pc

def Member.read (instr : Instruction) : Member → CInt.Val
  | .rd => CInt.int32 instr.rd.value
  | .brTargetAddr => CInt.uint32 instr.branchAddr
  | .brIsTaken => CInt.int32 (if instr.brIsTaken then 1 else 0)
  | .storeAddr => CInt.int32 instr.storeAddres
  | .loadAddr => CInt.int32 instr.loadAddres

def Executor.Defined (e : Executor) (instr : Instruction) : Prop :=
  ∀ x ∈ e.body, x.2.Defined instr.operands

end RiscvPerfSim
