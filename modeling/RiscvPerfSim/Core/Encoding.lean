import RiscvPerfSim.Core.Objects
import RiscvPerfSim.Foundation.Rv32i

/-!
# The decoder and the encodings of RV32I

What `recognize` and `calc_imm` make of a word, in the terms of the instruction
set: the name, the class and the executor of each instruction, and the five
immediates.
-/

namespace RiscvPerfSim

open Foundation

/-! ## Instructions under the names of the source -/

namespace Foundation.Rv32i

def UpperOp.name : UpperOp → InstrName
  | .lui => .lui
  | .auipc => .auipc

def BranchOp.name : BranchOp → InstrName
  | .beq => .beq
  | .bne => .bne
  | .blt => .blt
  | .bge => .bge
  | .bltu => .bltu
  | .bgeu => .bgeu

def LoadOp.name : LoadOp → InstrName
  | .lb => .lb
  | .lh => .lh
  | .lw => .lw
  | .lbu => .lbu
  | .lhu => .lhu

def StoreOp.name : StoreOp → InstrName
  | .sb => .sb
  | .sh => .sh
  | .sw => .sw

def ImmOp.name : ImmOp → InstrName
  | .addi => .addi
  | .slti => .slti
  | .sltiu => .sltiu
  | .xori => .xori
  | .ori => .ori
  | .andi => .andi

def ShiftOp.name : ShiftOp → InstrName
  | .slli => .slli
  | .srli => .srli
  | .srai => .srai

def RegOp.name : RegOp → InstrName
  | .add => .add
  | .sub => .sub
  | .sll => .sll
  | .slt => .slt
  | .sltu => .sltu
  | .xor => .xor
  | .srl => .srl
  | .sra => .sra
  | .or => .or
  | .and => .and

def AluOp.name : AluOp → InstrName
  | .upper op => op.name
  | .imm op => op.name
  | .shift op => op.name
  | .reg op => op.name

def ControlOp.name : ControlOp → InstrName
  | .branch op => op.name
  | .jal => .jal
  | .jalr => .jalr

namespace Instr

def name : Instr → InstrName
  | .upper op _ _ => op.name
  | .jal .. => .jal
  | .jalr .. => .jalr
  | .branch op _ _ _ => op.name
  | .load op _ _ _ => op.name
  | .store op _ _ _ => op.name
  | .opImm op _ _ _ => op.name
  | .shift op _ _ _ => op.name
  | .reg op _ _ _ => op.name
  | .ecall => .ecall

def type : Instr → InstrType
  | .upper .. => .u
  | .jal .. => .j
  | .jalr .. | .load .. | .opImm .. | .shift .. => .i
  | .branch .. => .b
  | .store .. => .s
  | .reg .. => .r
  | .ecall => .system

def access : Instr → AccessType
  | .load .. => .read
  | .store .. => .write
  | _ => .none

def accessSize : Instr → BitVec 32
  | .load op _ _ _ => BitVec.ofNat 32 op.width
  | .store op _ _ _ => BitVec.ofNat 32 op.width
  | _ => 0

def jumps : Instr → Bool
  | .jal .. | .jalr .. | .branch .. => true
  | _ => false

end Instr

end Foundation.Rv32i

/-- The executor that has the name of the instruction; all loads and all stores share one. -/
def InstrName.executor : InstrName → Option Executor
  | .lui => some .lui
  | .auipc => some .auipc
  | .jal => some .jal
  | .jalr => some .jalr
  | .beq => some .beq
  | .bne => some .bne
  | .blt => some .blt
  | .bge => some .bge
  | .bltu => some .bltu
  | .bgeu => some .bgeu
  | .lb | .lh | .lw | .lbu | .lhu => some .load
  | .sb | .sh | .sw => some .store
  | .addi => some .addi
  | .slti => some .slti
  | .sltiu => some .sltiu
  | .xori => some .xori
  | .ori => some .ori
  | .andi => some .andi
  | .slli => some .slli
  | .srli => some .srli
  | .srai => some .srai
  | .add => some .add
  | .sub => some .sub
  | .sll => some .sll
  | .slt => some .slt
  | .sltu => some .sltu
  | .xor => some .xor
  | .srl => some .srl
  | .sra => some .sra
  | .or => some .or
  | .and => some .and
  | .ecall => some .ecall
  | .none => Option.none

/-! ## Immediates -/

namespace Instruction

variable (word : BitVec 32)

private theorem toNat_sign (mask : BitVec 32) :
    (if (word >>> 31) &&& 0b1 = 0b1 then mask else 0).toNat =
      word.toNat / 2 ^ 31 * mask.toNat := by
  have hbit := Rv32i.toNat_masked word 0b1 31 1 rfl
  have hlt := word.isLt
  split_ifs with hsign
  · rw [hsign] at hbit
    have hone : word.toNat / 2 ^ 31 = 1 := by
      simp only [show (0b1 : BitVec 32).toNat = 1 from rfl] at hbit
      omega
    rw [hone, Nat.one_mul]
  · have hzero : word.toNat / 2 ^ 31 = 0 := by
      by_contra hne
      refine hsign (BitVec.eq_of_toNat_eq ?_)
      rw [hbit]
      change word.toNat / 2 ^ 31 % 2 ^ 1 = 1
      omega
    rw [hzero, Nat.zero_mul]
    rfl

private theorem toNat_shifted (field : BitVec 32) (k : Nat) :
    (field <<< k).toNat = field.toNat * 2 ^ k % 2 ^ 32 := by
  rw [BitVec.toNat_shiftLeft, Nat.shiftLeft_eq]

theorem immI_eq : immI word = Rv32i.immI word := by
  have h25 := Rv32i.toNat_masked word 0b111111 25 6 rfl
  have h21 := Rv32i.toNat_masked word 0b1111 21 4 rfl
  have h20 := Rv32i.toNat_masked word 0b1 20 1 rfl
  have hlt := word.isLt
  apply BitVec.eq_of_toNat_eq
  rw [Rv32i.immI, Rv32i.toNat_signExtend_of_le _ (by decide), Rv32i.toNat_extract]
  simp only [immI, BitVec.toNat_add, toNat_sign, toNat_shifted, h25, h21, h20]
  rw [show ((0b111111111111111111111 <<< 11 : Nat) : BitVec 32).toNat = 2 ^ 32 - 2 ^ 11 from rfl]
  split_ifs <;> omega

private theorem sum_signed12 {sign mid low bit : Nat} (hsign : sign < 2) (hmid : mid < 2 ^ 6)
    (hlow : low < 2 ^ 4) (hbit : bit < 2) :
    (((sign * (2 ^ 32 - 2 ^ 11) + mid * 2 ^ 5 % 2 ^ 32) % 2 ^ 32 + low * 2 ^ 1 % 2 ^ 32) %
        2 ^ 32 + bit) % 2 ^ 32 =
      if 2 ^ (12 - 1) ≤ (sign * 2 ^ 6 + mid) * 2 ^ 5 + (low * 2 + bit) then
        (sign * 2 ^ 6 + mid) * 2 ^ 5 + (low * 2 + bit) + (2 ^ 32 - 2 ^ 12)
      else (sign * 2 ^ 6 + mid) * 2 ^ 5 + (low * 2 + bit) := by
  rw [Nat.mod_eq_of_lt (by omega : mid * 2 ^ 5 < 2 ^ 32),
    Nat.mod_eq_of_lt (by omega : low * 2 ^ 1 < 2 ^ 32)]
  obtain rfl | rfl : sign = 0 ∨ sign = 1 := by omega
  · split_ifs <;> omega
  · split_ifs <;> omega

theorem immS_eq : immS word = Rv32i.immS word := by
  have h25 := Rv32i.toNat_masked word 0b111111 25 6 rfl
  have h8 := Rv32i.toNat_masked word 0b1111 8 4 rfl
  have h7 := Rv32i.toNat_masked word 0b1 7 1 rfl
  have hlt := word.isLt
  apply BitVec.eq_of_toNat_eq
  rw [Rv32i.immS, Rv32i.toNat_signExtend_of_le _ (by decide), Rv32i.toNat_append_eq,
    Rv32i.toNat_extract, Rv32i.toNat_extract]
  simp only [immS, BitVec.toNat_add, toNat_sign, toNat_shifted, h25, h8, h7]
  rw [show ((0b111111111111111111111 <<< 11 : Nat) : BitVec 32).toNat = 2 ^ 32 - 2 ^ 11 from rfl,
    sum_signed12 (by omega) (by omega) (by omega) (by omega)]
  have hhigh : word.toNat / 2 ^ 25 % 2 ^ 7 =
      word.toNat / 2 ^ 31 * 2 ^ 6 + word.toNat / 2 ^ 25 % 2 ^ 6 := by omega
  have hlow : word.toNat / 2 ^ 7 % 2 ^ 5 =
      word.toNat / 2 ^ 8 % 2 ^ 4 * 2 + word.toNat / 2 ^ 7 % 2 ^ 1 := by omega
  rw [hhigh, hlow]

theorem immB_eq : immB word = Rv32i.immB word := by
  have h25 := Rv32i.toNat_masked word 0b111111 25 6 rfl
  have h8 := Rv32i.toNat_masked word 0b1111 8 4 rfl
  have h7 := Rv32i.toNat_masked word 0b1 7 1 rfl
  have hlt := word.isLt
  apply BitVec.eq_of_toNat_eq
  rw [Rv32i.immB, Rv32i.toNat_signExtend_of_le _ (by decide)]
  simp only [Rv32i.toNat_append_eq, Rv32i.toNat_extract, immB, BitVec.toNat_add, toNat_sign,
    toNat_shifted, h25, h8, h7]
  rw [show ((0b11111111111111111111 <<< 12 : Nat) : BitVec 32).toNat = 2 ^ 32 - 2 ^ 12 from rfl,
    show (0#1).toNat = 0 from rfl]
  have hsign : word.toNat / 2 ^ 31 % 2 ^ 1 = word.toNat / 2 ^ 31 := by omega
  have hsign' : word.toNat / 2 ^ 31 < 2 := by omega
  have hmid : word.toNat / 2 ^ 25 % 2 ^ 6 < 2 ^ 6 := by omega
  have hlow : word.toNat / 2 ^ 8 % 2 ^ 4 < 2 ^ 4 := by omega
  have hbit : word.toNat / 2 ^ 7 % 2 ^ 1 < 2 := by omega
  rw [hsign]
  generalize word.toNat / 2 ^ 31 = sign at *
  generalize word.toNat / 2 ^ 25 % 2 ^ 6 = mid at *
  generalize word.toNat / 2 ^ 8 % 2 ^ 4 = low at *
  generalize word.toNat / 2 ^ 7 % 2 ^ 1 = bit at *
  rw [Nat.mod_eq_of_lt (by omega : mid * 2 ^ 5 < 2 ^ 32),
    Nat.mod_eq_of_lt (by omega : low * 2 ^ 1 < 2 ^ 32),
    Nat.mod_eq_of_lt (by omega : bit * 2 ^ 11 < 2 ^ 32)]
  obtain rfl | rfl : sign = 0 ∨ sign = 1 := by omega
  · split_ifs <;> omega
  · split_ifs <;> omega

private theorem toNat_and_field (mask : BitVec 32) (k n : Nat)
    (hmask : mask.toNat = (2 ^ n - 1) <<< k) :
    (word &&& mask).toNat = word.toNat / 2 ^ k % 2 ^ n * 2 ^ k := by
  have hfield : word.toNat &&& mask.toNat = ((word.toNat >>> k) &&& (2 ^ n - 1)) <<< k := by
    apply Nat.eq_of_testBit_eq
    intro i
    rw [hmask]
    simp only [Nat.testBit_and, Nat.testBit_shiftLeft, Nat.testBit_shiftRight]
    by_cases hk : k ≤ i
    · simp [hk, Nat.add_sub_cancel' hk]
    · simp [hk]
  rw [BitVec.toNat_and, hfield, Nat.and_two_pow_sub_one_eq_mod, Nat.shiftLeft_eq,
    Nat.shiftRight_eq_div_pow]

theorem immU_eq : immU word = Rv32i.immU word := by
  have hlt := word.isLt
  apply BitVec.eq_of_toNat_eq
  rw [immU, toNat_and_field word _ 12 20 rfl, Rv32i.immU, Rv32i.toNat_append_eq,
    Rv32i.toNat_extract, show (0#12).toNat = 0 from rfl, Nat.add_zero]

theorem immJ_eq : immJ word = Rv32i.immJ word := by
  have h12 := toNat_and_field word (0b11111111 <<< 12) 12 8 rfl
  have h20 := Rv32i.toNat_masked word 0b1 20 1 rfl
  have h25 := Rv32i.toNat_masked word 0b111111 25 6 rfl
  have h21 := Rv32i.toNat_masked word 0b1111 21 4 rfl
  have hlt := word.isLt
  apply BitVec.eq_of_toNat_eq
  rw [Rv32i.immJ, Rv32i.toNat_signExtend_of_le _ (by decide)]
  simp only [Rv32i.toNat_append_eq, Rv32i.toNat_extract, immJ, BitVec.toNat_add, toNat_sign,
    toNat_shifted, h12, h25, h20, h21]
  rw [show ((0b111111111111 <<< 20 : Nat) : BitVec 32).toNat = 2 ^ 32 - 2 ^ 20 from rfl,
    show (0#1).toNat = 0 from rfl]
  have hsign : word.toNat / 2 ^ 31 % 2 ^ 1 = word.toNat / 2 ^ 31 := by omega
  have hten : word.toNat / 2 ^ 21 % 2 ^ 10 =
      word.toNat / 2 ^ 25 % 2 ^ 6 * 2 ^ 4 + word.toNat / 2 ^ 21 % 2 ^ 4 := by omega
  have hsign' : word.toNat / 2 ^ 31 < 2 := by omega
  have hhigh : word.toNat / 2 ^ 12 % 2 ^ 8 < 2 ^ 8 := by omega
  have hbit : word.toNat / 2 ^ 20 % 2 ^ 1 < 2 := by omega
  have hmid : word.toNat / 2 ^ 25 % 2 ^ 6 < 2 ^ 6 := by omega
  have hlow : word.toNat / 2 ^ 21 % 2 ^ 4 < 2 ^ 4 := by omega
  rw [hsign, hten]
  generalize word.toNat / 2 ^ 31 = sign at *
  generalize word.toNat / 2 ^ 12 % 2 ^ 8 = high at *
  generalize word.toNat / 2 ^ 20 % 2 ^ 1 = bit at *
  generalize word.toNat / 2 ^ 25 % 2 ^ 6 = mid at *
  generalize word.toNat / 2 ^ 21 % 2 ^ 4 = low at *
  rw [Nat.mod_eq_of_lt (by omega : bit * 2 ^ 11 < 2 ^ 32),
    Nat.mod_eq_of_lt (by omega : mid * 2 ^ 5 < 2 ^ 32),
    Nat.mod_eq_of_lt (by omega : low * 2 ^ 1 < 2 ^ 32)]
  obtain rfl | rfl : sign = 0 ∨ sign = 1 := by omega
  · split_ifs <;> omega
  · split_ifs <;> omega

end Instruction

/-! ## Recognition -/

def InstrName.accSize : InstrName → BitVec 32
  | .lb | .lbu | .sb => 1
  | .lh | .lhu | .sh => 2
  | .lw | .sw => 4
  | _ => 0

/-- The executor and the size of the access go with the name.  Without a name there is no access,
but a load may have kept its executor, and a branch its flag. -/
structure Recognized.Paired (found : Recognized) : Prop where
  executor : found.name = .none ∨ found.executor = found.name.executor
  accSize : found.accSize = found.name.accSize
  access : found.name = .none → found.memAccType = .none
  kept : found.name = .none →
    found.executor = none ∨ found.executor = some .load ∧ found.type = .i
  flagged : found.name = .none → (found.isBranch = true ↔ found.type = .b)

def Foundation.Rv32i.Instr.recognized (i : Rv32i.Instr) : Recognized where
  name := i.name
  type := i.type
  memAccType := i.access
  accSize := i.accessSize
  isBranch := i.jumps
  executor := i.name.executor

namespace Decoder

variable {word : BitVec 32}

theorem recognize_upper (op : Rv32i.UpperOp) (h : opcodeOf word = op.opcode) :
    recognize word = { name := op.name, type := .u, executor := op.name.executor } := by
  cases op <;> simp [recognize, h, Rv32i.UpperOp.opcode, Rv32i.UpperOp.name, InstrName.executor]

theorem recognize_jal (h : opcodeOf word = 0b1101111) : recognize word =
    { name := .jal, type := .j, isBranch := true, executor := some .jal } := by
  simp [recognize, h]

theorem recognize_jalr (h : opcodeOf word = 0b1100111) : recognize word =
    { name := .jalr, type := .i, isBranch := true, executor := some .jalr } := by
  simp [recognize, h]

theorem recognize_branch (h : opcodeOf word = 0b1100011) :
    recognize word = recognizeBranch (funct3Of word) := by
  simp [recognize, h]

theorem recognize_load (h : opcodeOf word = 0b0000011) :
    recognize word = recognizeLoad (funct3Of word) := by
  simp [recognize, h]

theorem recognize_store (h : opcodeOf word = 0b0100011) :
    recognize word = recognizeStore (funct3Of word) := by
  simp [recognize, h]

theorem recognize_opImm (h : opcodeOf word = 0b0010011) :
    recognize word = recognizeOpImm (funct3Of word) (funct7Of word) := by
  simp [recognize, h]

theorem recognize_op (h : opcodeOf word = 0b0110011) :
    recognize word = recognizeOp (funct3Of word) (funct7Of word) := by
  simp [recognize, h]

theorem recognize_encode (i : Rv32i.Instr) : recognize i.encode = i.recognized := by
  cases i with
  | upper op rd imm => exact (recognize_upper op (Rv32i.opcodeOf_encU ..)).trans rfl
  | jal rd offset => exact (recognize_jal (Rv32i.opcodeOf_encJ ..)).trans rfl
  | jalr rd rs1 imm => exact (recognize_jalr (Rv32i.opcodeOf_encI ..)).trans rfl
  | branch op rs1 rs2 offset =>
      have hopcode : opcodeOf (Rv32i.Instr.branch op rs1 rs2 offset).encode = 0b1100011 :=
        Rv32i.opcodeOf_encB ..
      have hfunct3 : funct3Of (Rv32i.Instr.branch op rs1 rs2 offset).encode = op.funct3 :=
        Rv32i.funct3Of_encB ..
      rw [recognize_branch hopcode, hfunct3]
      cases op <;> rfl
  | load op rd rs1 imm =>
      have hopcode : opcodeOf (Rv32i.Instr.load op rd rs1 imm).encode = 0b0000011 :=
        Rv32i.opcodeOf_encI ..
      have hfunct3 : funct3Of (Rv32i.Instr.load op rd rs1 imm).encode = op.funct3 :=
        Rv32i.funct3Of_encI ..
      rw [recognize_load hopcode, hfunct3]
      cases op <;> rfl
  | store op rs1 rs2 imm =>
      have hopcode : opcodeOf (Rv32i.Instr.store op rs1 rs2 imm).encode = 0b0100011 :=
        Rv32i.opcodeOf_encS ..
      have hfunct3 : funct3Of (Rv32i.Instr.store op rs1 rs2 imm).encode = op.funct3 :=
        Rv32i.funct3Of_encS ..
      rw [recognize_store hopcode, hfunct3]
      cases op <;> rfl
  | opImm op rd rs1 imm =>
      have hopcode : opcodeOf (Rv32i.Instr.opImm op rd rs1 imm).encode = 0b0010011 :=
        Rv32i.opcodeOf_encI ..
      have hfunct3 : funct3Of (Rv32i.Instr.opImm op rd rs1 imm).encode = op.funct3 :=
        Rv32i.funct3Of_encI ..
      rw [recognize_opImm hopcode, hfunct3]
      cases op <;> rfl
  | shift op rd rs1 shamt =>
      have hopcode : opcodeOf (Rv32i.Instr.shift op rd rs1 shamt).encode = 0b0010011 :=
        Rv32i.opcodeOf_encR ..
      have hfunct3 : funct3Of (Rv32i.Instr.shift op rd rs1 shamt).encode = op.funct3 :=
        Rv32i.funct3Of_encR ..
      have hfunct7 : funct7Of (Rv32i.Instr.shift op rd rs1 shamt).encode = op.funct7 :=
        Rv32i.funct7Of_encR ..
      rw [recognize_opImm hopcode, hfunct3, hfunct7]
      cases op <;> rfl
  | reg op rd rs1 rs2 =>
      have hopcode : opcodeOf (Rv32i.Instr.reg op rd rs1 rs2).encode = 0b0110011 :=
        Rv32i.opcodeOf_encR ..
      have hfunct3 : funct3Of (Rv32i.Instr.reg op rd rs1 rs2).encode = op.funct3 :=
        Rv32i.funct3Of_encR ..
      have hfunct7 : funct7Of (Rv32i.Instr.reg op rd rs1 rs2).encode = op.funct7 :=
        Rv32i.funct7Of_encR ..
      rw [recognize_op hopcode, hfunct3, hfunct7]
      cases op <;> rfl
  | ecall => rfl

section Paired

variable (funct3 : BitVec 3) (funct7 : BitVec 7)

private theorem recognizeOp_paired : (recognizeOp funct3 funct7).Paired := by
  unfold recognizeOp recognizeOpPair recognizeOpPlain
  split_ifs <;> constructor <;> simp [InstrName.executor, InstrName.accSize]

private theorem recognizeOpImm_paired : (recognizeOpImm funct3 funct7).Paired := by
  unfold recognizeOpImm
  split_ifs <;> constructor <;> simp [InstrName.executor, InstrName.accSize]

private theorem recognizeFunct3_paired : (recognizeBranch funct3).Paired ∧
    (recognizeLoad funct3).Paired ∧ (recognizeStore funct3).Paired := by
  refine ⟨?_, ?_, ?_⟩
  · unfold recognizeBranch
    split_ifs <;> constructor <;> simp [InstrName.executor, InstrName.accSize]
  · unfold recognizeLoad
    split_ifs <;> constructor <;> simp [InstrName.executor, InstrName.accSize]
  · unfold recognizeStore
    split_ifs <;> constructor <;> simp [InstrName.executor, InstrName.accSize]

end Paired

theorem recognize_paired (word : BitVec 32) : (recognize word).Paired := by
  unfold recognize
  dsimp only
  split
  · exact ⟨.inr rfl, rfl, nofun, nofun, nofun⟩
  split
  · exact ⟨.inr rfl, rfl, nofun, nofun, nofun⟩
  split
  · exact ⟨.inr rfl, rfl, nofun, nofun, nofun⟩
  split
  · exact ⟨.inr rfl, rfl, nofun, nofun, nofun⟩
  split
  · exact (recognizeFunct3_paired _).1
  split
  · exact (recognizeFunct3_paired _).2.1
  split
  · exact (recognizeFunct3_paired _).2.2
  split
  · exact recognizeOpImm_paired _ _
  split
  · exact recognizeOp_paired _ _
  split
  · split
    · exact ⟨.inr rfl, rfl, nofun, nofun, nofun⟩
    · constructor <;> simp [InstrName.accSize]
  · constructor <;> simp [InstrName.accSize]

end Decoder

/-! ## Decoded objects -/

structure Instruction.Shaped (instr : Instruction) (word : BitVec 32) : Prop where
  type : instr.type = (Decoder.recognize word).type
  name : instr.name = (Decoder.recognize word).name
  executor : instr.mainExecutor = (Decoder.recognize word).executor
  isBranch : instr.isBranch = (Decoder.recognize word).isBranch
  memAccType : instr.memAccType = (Decoder.recognize word).memAccType
  imm : instr.calcImm word = instr

namespace Instruction

variable {instr : Instruction} {word : BitVec 32}

theorem Carries.shaped (h : instr.Carries word) : instr.Shaped word :=
  ⟨h.type, h.name, h.executor, h.isBranch, h.memAccType, h.imm⟩

def setPc (instr : Instruction) (pc : BitVec 32) : Instruction := { instr with pc := pc }

theorem Shaped.setPc (h : instr.Shaped word) (pc : BitVec 32) : (instr.setPc pc).Shaped word :=
  ⟨h.type, h.name, h.executor, h.isBranch, h.memAccType, calcImm_setPc h.imm pc⟩

theorem Shaped.executor_of_name (h : instr.Shaped word) {name : InstrName} {e : Executor}
    (hname : (Decoder.recognize word).name = name) (he : name.executor = some e) :
    instr.mainExecutor = some e ∧ instr.type = e.type ∧
      (e.jumps = true → instr.isBranch = true) := by
  have hexecutor : (Decoder.recognize word).executor = some e := by
    rcases (Decoder.recognize_paired word).executor with hnone | hpaired
    · rw [← hname, hnone] at he
      cases he
    · rw [hpaired, hname, he]
  have hsound := (Decoder.recognize_sound word).executor e hexecutor
  exact ⟨h.executor.trans hexecutor, h.type.trans hsound.1.symm,
    fun hjumps => h.isBranch.trans (hsound.2 hjumps)⟩

theorem Shaped.getImm (h : instr.Shaped word) : instr.getImm =
    match instr.type with
    | .i => .ok (Rv32i.immI word)
    | .s => .ok (Rv32i.immS word)
    | .b => .ok (Rv32i.immB word)
    | .u => .ok (Rv32i.immU word)
    | .j => .ok (Rv32i.immJ word)
    | .r | .system | .none => .error (.code 1) := by
  have himm := congrArg Instruction.imm h.imm
  unfold Instruction.getImm
  cases htype : instr.type <;> simp only [calcImm, htype] at himm ⊢
  case i => rw [← himm, immI_eq]
  case s => rw [← himm, immS_eq]
  case b => rw [← himm, immB_eq]
  case u => rw [← himm, immU_eq]
  case j => rw [← himm, immJ_eq]

end Instruction

theorem Decoder.finish_shaped (word : BitVec 32) (object : Instruction) :
    (finish (recognize word) word object).Shaped word := by
  cases h : (recognize word).type <;>
    constructor <;> simp [finish, Instruction.calcImm, h]

theorem Decoder.decode_shaped {env : Env} {dp dp' : Datapath} {word : BitVec 32}
    {ptr : InstrPtr} (h : decode env dp word = .ok (dp', ptr)) (pc : BitVec 32) :
    ((dp'.decoder.get ptr).setPc pc).Shaped word := by
  unfold decode at h
  obtain ⟨x, -, h⟩ := ok_of_bind h
  cases h
  simp only [get_set_self]
  exact (finish_shaped word _).setPc pc

namespace Decoder

private theorem readFields_sizes {env : Env} {dp dp' : Datapath} {found : Recognized}
    {word : BitVec 32} {old object : Instruction}
    (h : readFields env dp found word old = .ok (dp', object)) :
    (found.type = .i → object.loadSize = found.accSize) ∧
      (found.type = .s → object.storeSize = found.accSize) := by
  unfold readFields at h
  cases htype : found.type <;> simp only [htype] at h
  case i =>
    obtain ⟨x, -, h⟩ := ok_of_bind h
    cases h
    exact ⟨fun _ => rfl, nofun⟩
  case s =>
    obtain ⟨x, -, h⟩ := ok_of_bind h
    obtain ⟨y, -, h⟩ := ok_of_bind h
    cases h
    exact ⟨nofun, fun _ => rfl⟩
  all_goals exact ⟨nofun, nofun⟩

theorem decode_sizes {env : Env} {dp dp' : Datapath} {word : BitVec 32} {ptr : InstrPtr}
    (h : decode env dp word = .ok (dp', ptr)) :
    ((recognize word).type = .i →
        (dp'.decoder.get ptr).loadSize = (recognize word).accSize) ∧
      ((recognize word).type = .s →
        (dp'.decoder.get ptr).storeSize = (recognize word).accSize) := by
  unfold decode at h
  obtain ⟨x, hfields, h⟩ := ok_of_bind h
  cases h
  have hkeeps : (finish (recognize word) word x.2).loadSize = x.2.loadSize ∧
      (finish (recognize word) word x.2).storeSize = x.2.storeSize := by
    unfold finish Instruction.calcImm
    split <;> exact ⟨rfl, rfl⟩
  simp only [get_set_self, hkeeps]
  exact readFields_sizes hfields

end Decoder

end RiscvPerfSim
