import RiscvPerfSim.Source.Types

/-!
# Instruction objects

One record holds the members of `Instruction` and of its six subclasses.  The
class of an object is its `type`: `Decoder::decode` takes an object of the
class that it then writes into `type`.
-/

namespace RiscvPerfSim

@[ext] structure Instruction where
  type : InstrType := .none
  name : InstrName := .none
  opcode : BitVec 7 := 0
  pc : BitVec 32 := 0
  memAccType : AccessType := .none
  isBranch : Bool := false
  branchAddr : BitVec 32 := 0
  mainExecutor : Option Executor := none
  imm : BitVec 32 := 0
  rs1 : Register := {}
  rs2 : Register := {}
  rd : Register := {}
  loadAddres : BitVec 32 := 0
  loadSize : BitVec 32 := 0
  storeAddres : BitVec 32 := 0
  storeSize : BitVec 32 := 0
  brIsTaken : Bool := false

namespace Instruction

/-! ## Accessors.  The base class throws 1 where a subclass has no member. -/

def getImm (instr : Instruction) : Except Error (BitVec 32) :=
  match instr.type with
  | .i | .s | .b | .u | .j => .ok instr.imm
  | .r | .system | .none => .error (.code 1)

def getRs1 (instr : Instruction) : Except Error Register :=
  match instr.type with
  | .r | .i | .s | .b => .ok instr.rs1
  | .u | .j | .system | .none => .error (.code 1)

def getRs2 (instr : Instruction) : Except Error Register :=
  match instr.type with
  | .r | .s | .b => .ok instr.rs2
  | .i | .u | .j | .system | .none => .error (.code 1)

def getRd (instr : Instruction) : Except Error Register :=
  if instr.type.writesRd then .ok instr.rd else .error (.code 1)

def setRdValue (instr : Instruction) (value : BitVec 32) :
    Except Error Instruction :=
  if instr.type.writesRd then
    .ok { instr with rd := { instr.rd with value := value } }
  else .error (.code 1)

def getBrTargetAddr (instr : Instruction) : Except Error (BitVec 32) :=
  if instr.isBranch then .ok instr.branchAddr else .error (.code 1)

def setBrTargetAddr (instr : Instruction) (addr : BitVec 32) :
    Except Error Instruction :=
  if instr.isBranch then .ok { instr with branchAddr := addr }
  else .error (.code 1)

/-- A failed `dynamic_cast` gives the null pointer that the caller follows. -/
def dynamicCast (type : InstrType) (instr : Instruction) : Except Error Unit :=
  if instr.type = type then .ok () else .error (.undefined "null dynamic_cast")

/-! ## Immediates -/

def immI (instr : BitVec 32) : BitVec 32 :=
  let s1 : BitVec 32 :=
    if (instr >>> 31) &&& 0b1 = 0b1 then 0b111111111111111111111 <<< 11 else 0
  let s2 : BitVec 32 := ((instr >>> 25) &&& 0b111111) <<< 5
  let s3 : BitVec 32 := ((instr >>> 21) &&& 0b1111) <<< 1
  let s4 : BitVec 32 := (instr >>> 20) &&& 0b1
  s1 + s2 + s3 + s4

def immS (instr : BitVec 32) : BitVec 32 :=
  let s1 : BitVec 32 :=
    if (instr >>> 31) &&& 0b1 = 0b1 then 0b111111111111111111111 <<< 11 else 0
  let s2 : BitVec 32 := ((instr >>> 25) &&& 0b111111) <<< 5
  let s3 : BitVec 32 := ((instr >>> 8) &&& 0b1111) <<< 1
  let s4 : BitVec 32 := (instr >>> 7) &&& 0b1
  s1 + s2 + s3 + s4

def immB (instr : BitVec 32) : BitVec 32 :=
  let s1 : BitVec 32 :=
    if (instr >>> 31) &&& 0b1 = 0b1 then 0b11111111111111111111 <<< 12 else 0
  let s2 : BitVec 32 := ((instr >>> 25) &&& 0b111111) <<< 5
  let s3 : BitVec 32 := ((instr >>> 8) &&& 0b1111) <<< 1
  let s4 : BitVec 32 := ((instr >>> 7) &&& 0b1) <<< 11
  s1 + s2 + s3 + s4

def immU (instr : BitVec 32) : BitVec 32 :=
  instr &&& 0b11111111111111111111000000000000

def immJ (instr : BitVec 32) : BitVec 32 :=
  let s1 : BitVec 32 :=
    if (instr >>> 31) &&& 0b1 = 0b1 then 0b111111111111 <<< 20 else 0
  let s2 : BitVec 32 := instr &&& (0b11111111 <<< 12)
  let s3 : BitVec 32 := ((instr >>> 20) &&& 0b1) <<< 11
  let s4 : BitVec 32 := ((instr >>> 25) &&& 0b111111) <<< 5
  let s5 : BitVec 32 := ((instr >>> 21) &&& 0b1111) <<< 1
  s1 + s2 + s3 + s4 + s5

/-- The virtual `calc_imm`; classes without an immediate keep the empty base body. -/
def calcImm (this : Instruction) (instr : BitVec 32) : Instruction :=
  match this.type with
  | .i => { this with imm := immI instr }
  | .s => { this with imm := immS instr }
  | .b => { this with imm := immB instr }
  | .u => { this with imm := immU instr }
  | .j => { this with imm := immJ instr }
  | .r | .system | .none => this

end Instruction

end RiscvPerfSim
