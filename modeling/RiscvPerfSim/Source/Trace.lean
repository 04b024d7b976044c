import RiscvPerfSim.Source.PerfSim

/-!
# The trace file

The text that `dumpInstruction` writes for an instruction, and the file that
the retired instructions of a run leave behind.
-/

namespace RiscvPerfSim

namespace PerfSim

/-- `std::string(count, ' ')`. -/
def spaces (count : Nat) : String := String.ofList (List.replicate count ' ')

/-- `std::hex` of an `int32_t`, with `0` filled in up to eight digits. -/
def intToHex (i : BitVec 32) : String :=
  let digits := Nat.toDigits 16 i.toNat
  "0x" ++ String.ofList (List.replicate (8 - digits.length) '0' ++ digits)

/-- Without a case for a number behind `REGISTER_NAME_NONE`. -/
def getRegName (name : RegName) : String :=
  ["zero", "ra", "sp", "gp", "tp", "t0", "t1", "t2", "s0", "s1", "a0", "a1", "a2", "a3", "a4",
    "a5", "a6", "a7", "s2", "s3", "s4", "s5", "s6", "s7", "s8", "s9", "s10", "s11", "t3", "t4",
    "t5", "t6", "none"].getD name ""

def getInstrName : InstrName → String
  | .lui => "LUI" | .auipc => "AUIPC" | .jal => "JAL" | .jalr => "JALR"
  | .beq => "BEQ" | .bne => "BNE" | .blt => "BLT" | .bge => "BGE" | .bltu => "BLTU"
  | .bgeu => "BGEU"
  | .lb => "LB" | .lh => "LH" | .lw => "LW" | .lbu => "LBU" | .lhu => "LHU"
  | .sb => "SB" | .sh => "SH" | .sw => "SW"
  | .addi => "ADDI" | .slti => "SLTI" | .sltiu => "SLTIU" | .xori => "XORI" | .ori => "ORI"
  | .andi => "ANDI" | .slli => "SLLI" | .srli => "SRLI" | .srai => "SRAI"
  | .add => "ADD" | .sub => "SUB" | .sll => "SLL" | .slt => "SLT" | .sltu => "SLTU"
  | .xor => "XOR" | .srl => "SRL" | .sra => "SRA" | .or => "OR" | .and => "AND"
  | .ecall => "ECALL"
  | .none => "NONE"

def dumpRegister (label : String) (reg : Register) : String :=
  label ++ getRegName reg.name ++ spaces (12 - (getRegName reg.name).length) ++ " (" ++
    toString reg.value.toInt ++ ")"

/-! The four columns; the getters throw for a type without the member. -/

def dumpRs1 (instruction : Instruction) : Except Error String :=
  let type := instruction.type
  if type = .r ∨ type = .i ∨ type = .s ∨ type = .b then
    dumpRegister "rs1 " <$> instruction.getRs1
  else .ok (spaces 16)

def dumpRs2 (instruction : Instruction) : Except Error String :=
  let type := instruction.type
  if type = .r ∨ type = .s ∨ type = .b then dumpRegister "rs2 " <$> instruction.getRs2
  else .ok (spaces 16)

def dumpRd (instruction : Instruction) : Except Error String :=
  let type := instruction.type
  if type = .r ∨ type = .i ∨ type = .u ∨ type = .j then dumpRegister "rd " <$> instruction.getRd
  else .ok (spaces 15)

def dumpImm (instruction : Instruction) : Except Error String :=
  let type := instruction.type
  if type = .i ∨ type = .s ∨ type = .b ∨ type = .u ∨ type = .j then do
    let imm ← instruction.getImm
    return "imm " ++ intToHex imm ++ spaces (12 - (intToHex imm).length)
  else .ok (spaces 16)

def dumpText (instruction : Instruction) : Except Error String :=
  let strPc := spaces (12 - (intToHex instruction.pc).length)
  let strName := spaces (12 - (getInstrName instruction.name).length)
  if getInstrName instruction.name ≠ "NONE" then do
    let rs1 ← dumpRs1 instruction
    let rs2 ← dumpRs2 instruction
    let rd ← dumpRd instruction
    let imm ← dumpImm instruction
    return toString instruction.pc.toNat ++ "\n" ++ intToHex instruction.pc ++ strPc ++
      getInstrName instruction.name ++ strName ++ rs1 ++ rs2 ++ rd ++ imm ++ "\n"
  else .ok ""

/-- The trace file once the given instructions have retired. -/
def traceFile (instructions : List Instruction) : Except Error String :=
  instructions.foldlM (fun text instr => (text ++ ·) <$> dumpText instr) ""

end PerfSim

end RiscvPerfSim
