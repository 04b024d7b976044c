import Mathlib.Algebra.Group.Int.Defs
import Mathlib.Algebra.Group.Nat.Defs
import Mathlib.Logic.Function.Basic

/-!
# Enumerations, errors and register values

The enumerations of `types.h`, the ways a cycle of the simulator can fail, and
the register copies that instructions carry.  `int32_t` and `uint32_t` are both
`BitVec 32`; the signed reading is taken where the code takes it.
-/

namespace RiscvPerfSim

/-- A C++ exception, or a step to which C++ gives no meaning. -/
inductive Error where
  | code (value : Nat)
  | runtime (message : String)
  | undefined (what : String)
  deriving DecidableEq

inductive AccessType where
  | read
  | write
  | none
  deriving DecidableEq

inductive InstrType where
  | r
  | i
  | s
  | b
  | u
  | j
  | system
  | none
  deriving DecidableEq

inductive InstrName where
  | lui | auipc | jal | jalr
  | beq | bne | blt | bge | bltu | bgeu
  | lb | lh | lw | lbu | lhu
  | sb | sh | sw
  | addi | slti | sltiu | xori | ori | andi | slli | srli | srai
  | add | sub | sll | slt | sltu | xor | srl | sra | or | and
  | ecall
  | none
  deriving DecidableEq

inductive Executor where
  | lui | auipc | jal | jalr
  | beq | bne | blt | bge | bltu | bgeu
  | store | load
  | addi | slti | sltiu | xori | ori | andi | slli | srli | srai
  | add | sub | sll | slt | sltu | xor | srl | sra | or | and
  | ecall
  deriving DecidableEq

/-- The enumeration `RegName` is only ever used through its number. -/
abbrev RegName := Nat

def REGISTER_NAME_ZERO : RegName := 0

def REGISTER_NAME_SP : RegName := 2

structure Register where
  value : BitVec 32 := 0
  name : RegName := 0
  deriving DecidableEq

def InstrType.writesRd : InstrType → Bool
  | .r | .i | .u | .j => true
  | .s | .b | .system | .none => false

/--
The values C++ leaves open: an `int` shifted by 32 or more, the bytes of an
uninitialised local and the `id` behind the end of an empty list.  `regName` is
the name in `Register()`, which C++ sets to zero; no result rests on that.
-/
structure Undef where
  shift : Executor → BitVec 32 → BitVec 32 → BitVec 32
  dData : Nat → BitVec 32
  endId : BitVec 32
  regName : RegName

/-- The constants of `Config`, and the one switch a run depends on. -/
structure Config where
  memorySize : Nat := 4096 * 1024
  isSq : Bool := true

def Config.numRegs : Nat := 32

def Config.stages : Nat := 5

structure Env where
  config : Config := {}
  undef : Undef

end RiscvPerfSim
