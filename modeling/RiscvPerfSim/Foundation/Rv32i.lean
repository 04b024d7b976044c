import Mathlib.Algebra.Group.Int.Defs
import Mathlib.Algebra.Group.Nat.Defs
import Mathlib.Logic.Basic
import Mathlib.Tactic.SplitIfs

/-!
# RV32I

The base integer instruction set in the words of its specification:
instructions over their operand fields, the 32-bit encodings, the immediates of
the formats, and what the instructions compute.
-/

namespace RiscvPerfSim.Foundation.Rv32i

abbrev Reg := BitVec 5

inductive UpperOp where
  | lui | auipc
  deriving DecidableEq

inductive BranchOp where
  | beq | bne | blt | bge | bltu | bgeu
  deriving DecidableEq

inductive LoadOp where
  | lb | lh | lw | lbu | lhu
  deriving DecidableEq

inductive StoreOp where
  | sb | sh | sw
  deriving DecidableEq

inductive ImmOp where
  | addi | slti | sltiu | xori | ori | andi
  deriving DecidableEq

inductive ShiftOp where
  | slli | srli | srai
  deriving DecidableEq

inductive RegOp where
  | add | sub | sll | slt | sltu | xor | srl | sra | or | and
  deriving DecidableEq

/-- Offsets are in units of two bytes, as the B and J formats hold them. -/
inductive Instr where
  | upper (op : UpperOp) (rd : Reg) (imm : BitVec 20)
  | jal (rd : Reg) (offset : BitVec 20)
  | jalr (rd rs1 : Reg) (imm : BitVec 12)
  | branch (op : BranchOp) (rs1 rs2 : Reg) (offset : BitVec 12)
  | load (op : LoadOp) (rd rs1 : Reg) (imm : BitVec 12)
  | store (op : StoreOp) (rs1 rs2 : Reg) (imm : BitVec 12)
  | opImm (op : ImmOp) (rd rs1 : Reg) (imm : BitVec 12)
  | shift (op : ShiftOp) (rd rs1 : Reg) (shamt : BitVec 5)
  | reg (op : RegOp) (rd rs1 rs2 : Reg)
  | ecall
  deriving DecidableEq

/-! ## Formats -/

def encR (funct7 : BitVec 7) (rs2 rs1 : Reg) (funct3 : BitVec 3) (rd : Reg)
    (opcode : BitVec 7) : BitVec 32 :=
  funct7 ++ rs2 ++ rs1 ++ funct3 ++ rd ++ opcode

def encI (imm : BitVec 12) (rs1 : Reg) (funct3 : BitVec 3) (rd : Reg) (opcode : BitVec 7) :
    BitVec 32 :=
  imm ++ rs1 ++ funct3 ++ rd ++ opcode

def encS (imm : BitVec 12) (rs2 rs1 : Reg) (funct3 : BitVec 3) (opcode : BitVec 7) :
    BitVec 32 :=
  imm.extractLsb' 5 7 ++ rs2 ++ rs1 ++ funct3 ++ imm.extractLsb' 0 5 ++ opcode

def encB (offset : BitVec 12) (rs2 rs1 : Reg) (funct3 : BitVec 3) (opcode : BitVec 7) :
    BitVec 32 :=
  offset.extractLsb' 11 1 ++ offset.extractLsb' 4 6 ++ rs2 ++ rs1 ++ funct3 ++
    offset.extractLsb' 0 4 ++ offset.extractLsb' 10 1 ++ opcode

def encU (imm : BitVec 20) (rd : Reg) (opcode : BitVec 7) : BitVec 32 :=
  imm ++ rd ++ opcode

def encJ (offset : BitVec 20) (rd : Reg) (opcode : BitVec 7) : BitVec 32 :=
  offset.extractLsb' 19 1 ++ offset.extractLsb' 0 10 ++ offset.extractLsb' 10 1 ++
    offset.extractLsb' 11 8 ++ rd ++ opcode

section Fields

variable (word : BitVec 32)

def opcodeOf : BitVec 7 := word.extractLsb' 0 7

def rdOf : Reg := word.extractLsb' 7 5

def funct3Of : BitVec 3 := word.extractLsb' 12 3

def rs1Of : Reg := word.extractLsb' 15 5

def rs2Of : Reg := word.extractLsb' 20 5

def funct7Of : BitVec 7 := word.extractLsb' 25 7

/-! The immediates, each with its own permutation of the bits. -/

def immI : BitVec 32 := (word.extractLsb' 20 12).signExtend 32

def immS : BitVec 32 := (word.extractLsb' 25 7 ++ word.extractLsb' 7 5).signExtend 32

def immB : BitVec 32 :=
  (word.extractLsb' 31 1 ++ word.extractLsb' 7 1 ++ word.extractLsb' 25 6 ++
    word.extractLsb' 8 4 ++ 0#1).signExtend 32

def immU : BitVec 32 := word.extractLsb' 12 20 ++ 0#12

def immJ : BitVec 32 :=
  (word.extractLsb' 31 1 ++ word.extractLsb' 12 8 ++ word.extractLsb' 20 1 ++
    word.extractLsb' 21 10 ++ 0#1).signExtend 32

end Fields

/-! ## Words as numbers -/

theorem toNat_append_eq {m n : Nat} (x : BitVec m) (y : BitVec n) :
    (x ++ y).toNat = x.toNat * 2 ^ n + y.toNat := by
  rw [BitVec.toNat_append, ← Nat.shiftLeft_add_eq_or_of_lt y.isLt, Nat.shiftLeft_eq]

theorem toNat_extract {w : Nat} (x : BitVec w) (start len : Nat) :
    (x.extractLsb' start len).toNat = x.toNat / 2 ^ start % 2 ^ len := by
  rw [BitVec.extractLsb'_toNat, Nat.shiftRight_eq_div_pow]

theorem extract_extract {w start len start' len' : Nat} {x : BitVec w}
    (h : start' + len' ≤ len) :
    (x.extractLsb' start len).extractLsb' start' len' = x.extractLsb' (start + start') len' := by
  ext i hi
  simp only [BitVec.getElem_extractLsb', BitVec.getLsbD_extractLsb', Nat.add_assoc]
  rw [decide_eq_true (by omega : start' + i < len), Bool.true_and]

theorem extract_signExtend {w v start len : Nat} {x : BitVec w} (h : start + len ≤ w)
    (hv : w ≤ v) : (x.signExtend v).extractLsb' start len = x.extractLsb' start len := by
  ext i hi
  rw [BitVec.getElem_extractLsb', BitVec.getElem_extractLsb', BitVec.getLsbD_signExtend,
    decide_eq_true (by omega : start + i < v), Bool.true_and, if_pos (by omega)]

theorem toNat_masked (word mask : BitVec 32) (k n : Nat) (hmask : mask.toNat = 2 ^ n - 1) :
    ((word >>> k) &&& mask).toNat = word.toNat / 2 ^ k % 2 ^ n := by
  rw [BitVec.toNat_and, hmask, Nat.and_two_pow_sub_one_eq_mod, BitVec.toNat_ushiftRight,
    Nat.shiftRight_eq_div_pow]

theorem toNat_signExtend_of_le {n : Nat} (x : BitVec n) (hn : n ≤ 32) :
    (x.signExtend 32).toNat =
      if 2 ^ (n - 1) ≤ x.toNat then x.toNat + (2 ^ 32 - 2 ^ n) else x.toNat := by
  have hlt : x.toNat < 2 ^ 32 := Nat.lt_of_lt_of_le x.isLt (Nat.pow_le_pow_right (by omega) hn)
  rw [BitVec.toNat_signExtend, BitVec.msb_eq_decide, BitVec.toNat_setWidth,
    Nat.mod_eq_of_lt hlt]
  simp only [decide_eq_true_eq]
  split_ifs
  · rfl
  · rfl

/-- The lowest bits decide a sign extension when the value fits into them. -/
theorem signExtend_extract_iff {n k : Nat} (x : BitVec n) (hle : k + 1 ≤ n) (hn : n ≤ 32) :
    (x.extractLsb' 0 (k + 1)).signExtend 32 = x.signExtend 32 ↔
      -2 ^ k ≤ x.toInt ∧ x.toInt < 2 ^ k := by
  have hlow : (x.extractLsb' 0 (k + 1)).toInt = x.toInt.bmod (2 ^ (k + 1)) := by
    rw [← BitVec.setWidth_eq_extractLsb' hle, ← BitVec.signExtend_eq_setWidth_of_le x hle,
      BitVec.toInt_signExtend_eq_toInt_bmod_of_le x hle]
  rw [← BitVec.toInt_inj, BitVec.toInt_signExtend_of_le (by omega),
    BitVec.toInt_signExtend_of_le hn, hlow, Int.bmod_eq_iff (Nat.two_pow_pos _), Nat.pow_succ,
    Int.sub_self]
  have hcast : ((2 ^ k * 2 : Nat) : Int) = 2 ^ k * 2 := by
    rw [Int.natCast_mul, Int.natCast_pow]
    rfl
  rw [hcast]
  constructor
  · rintro ⟨hlower, hupper, -⟩
    omega
  · rintro ⟨hlower, hupper⟩
    refine ⟨?_, ?_, Int.dvd_zero _⟩
    · omega
    · omega

theorem setWidth_extract_iff {n k : Nat} (x : BitVec n) (hn : n ≤ 32) (hk : k ≤ 32) :
    (x.extractLsb' 0 k).setWidth 32 = x.setWidth 32 ↔ x.toNat < 2 ^ k := by
  have hlt : x.toNat < 2 ^ 32 := Nat.lt_of_lt_of_le x.isLt (Nat.pow_le_pow_right (by omega) hn)
  have hmod : x.toNat % 2 ^ k < 2 ^ 32 :=
    Nat.lt_of_lt_of_le (Nat.mod_lt _ (Nat.two_pow_pos k)) (Nat.pow_le_pow_right (by omega) hk)
  rw [← BitVec.toNat_inj, BitVec.toNat_setWidth, BitVec.toNat_setWidth, toNat_extract,
    Nat.pow_zero, Nat.div_one, Nat.mod_eq_of_lt hlt, Nat.mod_eq_of_lt hmod]
  constructor
  · intro h
    rw [← h]
    exact Nat.mod_lt _ (Nat.two_pow_pos k)
  · exact Nat.mod_eq_of_lt

section Encodings

variable (funct7 : BitVec 7) (rs2 rs1 rd : Reg) (funct3 : BitVec 3) (opcode : BitVec 7)
  (imm : BitVec 12) (imm20 : BitVec 20) (word : BitVec 32)

theorem toNat_encR : (encR funct7 rs2 rs1 funct3 rd opcode).toNat =
    funct7.toNat * 2 ^ 25 + rs2.toNat * 2 ^ 20 + rs1.toNat * 2 ^ 15 + funct3.toNat * 2 ^ 12 +
      rd.toNat * 2 ^ 7 + opcode.toNat := by
  unfold encR
  simp only [toNat_append_eq]
  omega

/-! The other formats split the same word differently. -/

theorem encI_eq : encI imm rs1 funct3 rd opcode =
    encR (imm.extractLsb' 5 7) (imm.extractLsb' 0 5) rs1 funct3 rd opcode := by
  apply BitVec.eq_of_toNat_eq
  unfold encI encR
  simp only [toNat_append_eq, toNat_extract]
  omega

theorem encS_eq : encS imm rs2 rs1 funct3 opcode =
    encR (imm.extractLsb' 5 7) rs2 rs1 funct3 (imm.extractLsb' 0 5) opcode := rfl

theorem encB_eq : encB imm rs2 rs1 funct3 opcode =
    encR (imm.extractLsb' 11 1 ++ imm.extractLsb' 4 6) rs2 rs1 funct3
      (imm.extractLsb' 0 4 ++ imm.extractLsb' 10 1) opcode := by
  apply BitVec.eq_of_toNat_eq
  unfold encB encR
  simp only [toNat_append_eq]
  omega

theorem encU_eq : encU imm20 rd opcode =
    encR (imm20.extractLsb' 13 7) (imm20.extractLsb' 8 5) (imm20.extractLsb' 3 5)
      (imm20.extractLsb' 0 3) rd opcode := by
  apply BitVec.eq_of_toNat_eq
  unfold encU encR
  simp only [toNat_append_eq, toNat_extract]
  omega

theorem encJ_eq : encJ imm20 rd opcode =
    encU (imm20.extractLsb' 19 1 ++ imm20.extractLsb' 0 10 ++ imm20.extractLsb' 10 1 ++
      imm20.extractLsb' 11 8) rd opcode := rfl

/-! ## Fields of an encoding -/

@[simp] theorem opcodeOf_encR : opcodeOf (encR funct7 rs2 rs1 funct3 rd opcode) = opcode := by
  apply BitVec.eq_of_toNat_eq
  rw [opcodeOf, toNat_extract, toNat_encR]
  omega

@[simp] theorem rdOf_encR : rdOf (encR funct7 rs2 rs1 funct3 rd opcode) = rd := by
  apply BitVec.eq_of_toNat_eq
  rw [rdOf, toNat_extract, toNat_encR]
  omega

@[simp] theorem funct3Of_encR : funct3Of (encR funct7 rs2 rs1 funct3 rd opcode) = funct3 := by
  apply BitVec.eq_of_toNat_eq
  rw [funct3Of, toNat_extract, toNat_encR]
  omega

@[simp] theorem rs1Of_encR : rs1Of (encR funct7 rs2 rs1 funct3 rd opcode) = rs1 := by
  apply BitVec.eq_of_toNat_eq
  rw [rs1Of, toNat_extract, toNat_encR]
  omega

@[simp] theorem rs2Of_encR : rs2Of (encR funct7 rs2 rs1 funct3 rd opcode) = rs2 := by
  apply BitVec.eq_of_toNat_eq
  rw [rs2Of, toNat_extract, toNat_encR]
  omega

@[simp] theorem funct7Of_encR : funct7Of (encR funct7 rs2 rs1 funct3 rd opcode) = funct7 := by
  apply BitVec.eq_of_toNat_eq
  rw [funct7Of, toNat_extract, toNat_encR]
  omega

@[simp] theorem opcodeOf_encI : opcodeOf (encI imm rs1 funct3 rd opcode) = opcode := by
  rw [encI_eq, opcodeOf_encR]

@[simp] theorem rdOf_encI : rdOf (encI imm rs1 funct3 rd opcode) = rd := by
  rw [encI_eq, rdOf_encR]

@[simp] theorem funct3Of_encI : funct3Of (encI imm rs1 funct3 rd opcode) = funct3 := by
  rw [encI_eq, funct3Of_encR]

@[simp] theorem rs1Of_encI : rs1Of (encI imm rs1 funct3 rd opcode) = rs1 := by
  rw [encI_eq, rs1Of_encR]

@[simp] theorem opcodeOf_encS : opcodeOf (encS imm rs2 rs1 funct3 opcode) = opcode := by
  rw [encS_eq, opcodeOf_encR]

@[simp] theorem funct3Of_encS : funct3Of (encS imm rs2 rs1 funct3 opcode) = funct3 := by
  rw [encS_eq, funct3Of_encR]

@[simp] theorem rs1Of_encS : rs1Of (encS imm rs2 rs1 funct3 opcode) = rs1 := by
  rw [encS_eq, rs1Of_encR]

@[simp] theorem rs2Of_encS : rs2Of (encS imm rs2 rs1 funct3 opcode) = rs2 := by
  rw [encS_eq, rs2Of_encR]

@[simp] theorem opcodeOf_encB : opcodeOf (encB imm rs2 rs1 funct3 opcode) = opcode := by
  rw [encB_eq, opcodeOf_encR]

@[simp] theorem funct3Of_encB : funct3Of (encB imm rs2 rs1 funct3 opcode) = funct3 := by
  rw [encB_eq, funct3Of_encR]

@[simp] theorem rs1Of_encB : rs1Of (encB imm rs2 rs1 funct3 opcode) = rs1 := by
  rw [encB_eq, rs1Of_encR]

@[simp] theorem rs2Of_encB : rs2Of (encB imm rs2 rs1 funct3 opcode) = rs2 := by
  rw [encB_eq, rs2Of_encR]

@[simp] theorem opcodeOf_encU : opcodeOf (encU imm20 rd opcode) = opcode := by
  rw [encU_eq, opcodeOf_encR]

@[simp] theorem rdOf_encU : rdOf (encU imm20 rd opcode) = rd := by
  rw [encU_eq, rdOf_encR]

@[simp] theorem opcodeOf_encJ : opcodeOf (encJ imm20 rd opcode) = opcode := by
  rw [encJ_eq, opcodeOf_encU]

@[simp] theorem rdOf_encJ : rdOf (encJ imm20 rd opcode) = rd := by
  rw [encJ_eq, rdOf_encU]

theorem encR_fields : encR (funct7Of word) (rs2Of word) (rs1Of word) (funct3Of word)
    (rdOf word) (opcodeOf word) = word := by
  apply BitVec.eq_of_toNat_eq
  simp only [toNat_encR, funct7Of, rs2Of, rs1Of, funct3Of, rdOf, opcodeOf, toNat_extract]
  omega

theorem encI_fields : encI (word.extractLsb' 20 12) (rs1Of word) (funct3Of word) (rdOf word)
    (opcodeOf word) = word := by
  rw [encI_eq, extract_extract (by decide), extract_extract (by decide)]
  exact encR_fields word

theorem encS_fields : encS (word.extractLsb' 25 7 ++ word.extractLsb' 7 5) (rs2Of word)
    (rs1Of word) (funct3Of word) (opcodeOf word) = word := by
  rw [encS_eq, BitVec.extractLsb'_append_eq_left, BitVec.extractLsb'_append_eq_right]
  exact encR_fields word

private theorem extract_offsetB (a b : BitVec 1) (c : BitVec 6) (d : BitVec 4) :
    (a ++ b ++ c ++ d : BitVec 12).extractLsb' 11 1 = a ∧
      (a ++ b ++ c ++ d : BitVec 12).extractLsb' 10 1 = b ∧
      (a ++ b ++ c ++ d : BitVec 12).extractLsb' 4 6 = c ∧
      (a ++ b ++ c ++ d : BitVec 12).extractLsb' 0 4 = d := by
  refine ⟨?_, ?_, ?_, ?_⟩
  all_goals
    apply BitVec.eq_of_toNat_eq
    simp only [toNat_append_eq, toNat_extract]
    omega

theorem encB_fields : encB (word.extractLsb' 31 1 ++ word.extractLsb' 7 1 ++
    word.extractLsb' 25 6 ++ word.extractLsb' 8 4) (rs2Of word) (rs1Of word) (funct3Of word)
    (opcodeOf word) = word := by
  obtain ⟨h11, h10, h4, h0⟩ := extract_offsetB (word.extractLsb' 31 1) (word.extractLsb' 7 1)
    (word.extractLsb' 25 6) (word.extractLsb' 8 4)
  have hfunct7 : word.extractLsb' 31 1 ++ word.extractLsb' 25 6 = funct7Of word := by
    apply BitVec.eq_of_toNat_eq
    simp only [funct7Of, toNat_append_eq, toNat_extract]
    omega
  have hrd : word.extractLsb' 8 4 ++ word.extractLsb' 7 1 = rdOf word := by
    apply BitVec.eq_of_toNat_eq
    simp only [rdOf, toNat_append_eq, toNat_extract]
    omega
  rw [encB_eq, h11, h10, h4, h0, hfunct7, hrd, encR_fields]

theorem encU_fields : encU (word.extractLsb' 12 20) (rdOf word) (opcodeOf word) = word := by
  apply BitVec.eq_of_toNat_eq
  unfold encU
  simp only [toNat_append_eq, rdOf, opcodeOf, toNat_extract]
  omega

private theorem extract_offsetJ (a : BitVec 1) (b : BitVec 8) (c : BitVec 1) (d : BitVec 10) :
    (a ++ b ++ c ++ d : BitVec 20).extractLsb' 19 1 = a ∧
      (a ++ b ++ c ++ d : BitVec 20).extractLsb' 11 8 = b ∧
      (a ++ b ++ c ++ d : BitVec 20).extractLsb' 10 1 = c ∧
      (a ++ b ++ c ++ d : BitVec 20).extractLsb' 0 10 = d := by
  refine ⟨?_, ?_, ?_, ?_⟩
  all_goals
    apply BitVec.eq_of_toNat_eq
    simp only [toNat_append_eq, toNat_extract]
    omega

theorem encJ_fields : encJ (word.extractLsb' 31 1 ++ word.extractLsb' 12 8 ++
    word.extractLsb' 20 1 ++ word.extractLsb' 21 10) (rdOf word) (opcodeOf word) = word := by
  obtain ⟨h19, h11, h10, h0⟩ := extract_offsetJ (word.extractLsb' 31 1)
    (word.extractLsb' 12 8) (word.extractLsb' 20 1) (word.extractLsb' 21 10)
  rw [encJ_eq, h19, h11, h10, h0]
  refine Eq.trans (congrArg (encU · _ _) ?_) (encU_fields word)
  apply BitVec.eq_of_toNat_eq
  simp only [toNat_append_eq, toNat_extract]
  omega

/-! ## Immediates of an encoding -/

theorem immI_encI : immI (encI imm rs1 funct3 rd opcode) = imm.signExtend 32 := by
  unfold immI
  congr 1
  apply BitVec.eq_of_toNat_eq
  rw [encI_eq, toNat_extract, toNat_encR]
  simp only [toNat_extract]
  omega

theorem shamt_immI : (immI word).extractLsb' 0 5 = rs2Of word := by
  rw [immI, extract_signExtend (by decide) (by decide), extract_extract (by decide)]
  rfl

theorem immS_encS : immS (encS imm rs2 rs1 funct3 opcode) = imm.signExtend 32 := by
  have hfields : immS (encS imm rs2 rs1 funct3 opcode) =
      (funct7Of (encS imm rs2 rs1 funct3 opcode) ++
        rdOf (encS imm rs2 rs1 funct3 opcode)).signExtend 32 := rfl
  rw [hfields, encS_eq, funct7Of_encR, rdOf_encR]
  congr 1
  apply BitVec.eq_of_toNat_eq
  simp only [toNat_append_eq, toNat_extract]
  omega

private theorem immB_eq : immB word =
    ((funct7Of word).extractLsb' 6 1 ++ (rdOf word).extractLsb' 0 1 ++
      (funct7Of word).extractLsb' 0 6 ++ (rdOf word).extractLsb' 1 4 ++ 0#1).signExtend 32 := by
  unfold funct7Of rdOf
  rw [extract_extract (by decide), extract_extract (by decide), extract_extract (by decide),
    extract_extract (by decide)]
  rfl

theorem immB_encB : immB (encB imm rs2 rs1 funct3 opcode) = (imm ++ 0#1).signExtend 32 := by
  rw [immB_eq, encB_eq, funct7Of_encR, rdOf_encR, BitVec.extractLsb'_append_eq_left,
    BitVec.extractLsb'_append_eq_right, BitVec.extractLsb'_append_eq_right,
    BitVec.extractLsb'_append_eq_left]
  congr 1
  apply BitVec.eq_of_toNat_eq
  simp only [toNat_append_eq, toNat_extract]
  omega

theorem upper_encU : (encU imm20 rd opcode).extractLsb' 12 20 = imm20 := by
  apply BitVec.eq_of_toNat_eq
  unfold encU
  simp only [toNat_append_eq, toNat_extract]
  omega

theorem immU_encU : immU (encU imm20 rd opcode) = imm20 ++ 0#12 := by
  rw [immU, upper_encU]

private theorem immJ_eq : immJ word =
    ((word.extractLsb' 12 20).extractLsb' 19 1 ++ (word.extractLsb' 12 20).extractLsb' 0 8 ++
      (word.extractLsb' 12 20).extractLsb' 8 1 ++ (word.extractLsb' 12 20).extractLsb' 9 10 ++
      0#1).signExtend 32 := by
  rw [extract_extract (by decide), extract_extract (by decide), extract_extract (by decide),
    extract_extract (by decide)]
  rfl

private theorem extract_upperJ (a : BitVec 1) (b : BitVec 10) (c : BitVec 1) (d : BitVec 8) :
    (a ++ b ++ c ++ d : BitVec 20).extractLsb' 19 1 = a ∧
      (a ++ b ++ c ++ d : BitVec 20).extractLsb' 9 10 = b ∧
      (a ++ b ++ c ++ d : BitVec 20).extractLsb' 8 1 = c ∧
      (a ++ b ++ c ++ d : BitVec 20).extractLsb' 0 8 = d := by
  refine ⟨?_, ?_, ?_, ?_⟩
  all_goals
    apply BitVec.eq_of_toNat_eq
    simp only [toNat_append_eq, toNat_extract]
    omega

theorem immJ_encJ : immJ (encJ imm20 rd opcode) = (imm20 ++ 0#1).signExtend 32 := by
  obtain ⟨h19, h9, h8, h0⟩ := extract_upperJ (imm20.extractLsb' 19 1) (imm20.extractLsb' 0 10)
    (imm20.extractLsb' 10 1) (imm20.extractLsb' 11 8)
  rw [immJ_eq, encJ_eq, upper_encU, h19, h9, h8, h0]
  congr 1
  apply BitVec.eq_of_toNat_eq
  simp only [toNat_append_eq, toNat_extract]
  omega

end Encodings

/-! ## Instructions -/

def UpperOp.opcode : UpperOp → BitVec 7
  | .lui => 0b0110111
  | .auipc => 0b0010111

def BranchOp.funct3 : BranchOp → BitVec 3
  | .beq => 0b000
  | .bne => 0b001
  | .blt => 0b100
  | .bge => 0b101
  | .bltu => 0b110
  | .bgeu => 0b111

def LoadOp.width : LoadOp → Nat
  | .lb | .lbu => 1
  | .lh | .lhu => 2
  | .lw => 4

def StoreOp.width : StoreOp → Nat
  | .sb => 1
  | .sh => 2
  | .sw => 4

def LoadOp.funct3 : LoadOp → BitVec 3
  | .lb => 0b000
  | .lh => 0b001
  | .lw => 0b010
  | .lbu => 0b100
  | .lhu => 0b101

def StoreOp.funct3 : StoreOp → BitVec 3
  | .sb => 0b000
  | .sh => 0b001
  | .sw => 0b010

def ImmOp.funct3 : ImmOp → BitVec 3
  | .addi => 0b000
  | .slti => 0b010
  | .sltiu => 0b011
  | .xori => 0b100
  | .ori => 0b110
  | .andi => 0b111

def ShiftOp.funct3 : ShiftOp → BitVec 3
  | .slli => 0b001
  | .srli | .srai => 0b101

def ShiftOp.funct7 : ShiftOp → BitVec 7
  | .slli | .srli => 0b0000000
  | .srai => 0b0100000

def RegOp.funct3 : RegOp → BitVec 3
  | .add | .sub => 0b000
  | .sll => 0b001
  | .slt => 0b010
  | .sltu => 0b011
  | .xor => 0b100
  | .srl | .sra => 0b101
  | .or => 0b110
  | .and => 0b111

def RegOp.funct7 : RegOp → BitVec 7
  | .sub | .sra => 0b0100000
  | .add | .sll | .slt | .sltu | .xor | .srl | .or | .and => 0b0000000

namespace Instr

def encode : Instr → BitVec 32
  | .upper op rd imm => encU imm rd op.opcode
  | .jal rd offset => encJ offset rd 0b1101111
  | .jalr rd rs1 imm => encI imm rs1 0b000 rd 0b1100111
  | .branch op rs1 rs2 offset => encB offset rs2 rs1 op.funct3 0b1100011
  | .load op rd rs1 imm => encI imm rs1 op.funct3 rd 0b0000011
  | .store op rs1 rs2 imm => encS imm rs2 rs1 op.funct3 0b0100011
  | .opImm op rd rs1 imm => encI imm rs1 op.funct3 rd 0b0010011
  | .shift op rd rs1 shamt => encR op.funct7 shamt rs1 op.funct3 rd 0b0010011
  | .reg op rd rs1 rs2 => encR op.funct7 rs2 rs1 op.funct3 rd 0b0110011
  | .ecall => 0x00000073

def rd : Instr → Option Reg
  | .upper _ rd _ | .jal rd _ | .jalr rd _ _ | .load _ rd _ _ | .opImm _ rd _ _
  | .shift _ rd _ _ | .reg _ rd _ _ => some rd
  | .branch .. | .store .. | .ecall => none

def rs1 : Instr → Option Reg
  | .jalr _ rs1 _ | .branch _ rs1 _ _ | .load _ _ rs1 _ | .store _ rs1 _ _
  | .opImm _ _ rs1 _ | .shift _ _ rs1 _ | .reg _ _ rs1 _ => some rs1
  | .upper .. | .jal .. | .ecall => none

def rs2 : Instr → Option Reg
  | .branch _ _ rs2 _ | .store _ _ rs2 _ | .reg _ _ _ rs2 => some rs2
  | .upper .. | .jal .. | .jalr .. | .load .. | .opImm .. | .shift .. | .ecall => none

def imm : Instr → Option (BitVec 32)
  | .upper _ _ imm => some (imm ++ 0#12)
  | .jal _ offset => some ((offset ++ 0#1).signExtend 32)
  | .branch _ _ _ offset => some ((offset ++ 0#1).signExtend 32)
  | .jalr _ _ imm | .load _ _ _ imm | .store _ _ _ imm | .opImm _ _ _ imm =>
      some (imm.signExtend 32)
  | .shift .. | .reg .. | .ecall => none

def shamt : Instr → Option (BitVec 5)
  | .shift _ _ _ shamt => some shamt
  | _ => none

end Instr

/-! ## What the instructions compute -/

def flag (p : Bool) : BitVec 32 := if p then 1 else 0

/-- A register shift uses the low five bits of its second operand. -/
def amount (b : BitVec 32) : BitVec 5 := b.extractLsb' 0 5

section Values

variable (pc a b imm : BitVec 32)

def UpperOp.value : UpperOp → BitVec 32
  | .lui => imm
  | .auipc => pc + imm

def ImmOp.value : ImmOp → BitVec 32
  | .addi => a + imm
  | .slti => flag (a.toInt < imm.toInt)
  | .sltiu => flag (a.toNat < imm.toNat)
  | .xori => a ^^^ imm
  | .ori => a ||| imm
  | .andi => a &&& imm

def ShiftOp.value (shamt : BitVec 5) : ShiftOp → BitVec 32
  | .slli => a <<< shamt.toNat
  | .srli => a >>> shamt.toNat
  | .srai => a.sshiftRight shamt.toNat

def RegOp.value : RegOp → BitVec 32
  | .add => a + b
  | .sub => a - b
  | .sll => ShiftOp.slli.value a (amount b)
  | .slt => flag (a.toInt < b.toInt)
  | .sltu => flag (a.toNat < b.toNat)
  | .xor => a ^^^ b
  | .srl => ShiftOp.srli.value a (amount b)
  | .sra => ShiftOp.srai.value a (amount b)
  | .or => a ||| b
  | .and => a &&& b

def BranchOp.taken : BranchOp → Bool
  | .beq => a = b
  | .bne => a ≠ b
  | .blt => a.toInt < b.toInt
  | .bge => b.toInt ≤ a.toInt
  | .bltu => a.toNat < b.toNat
  | .bgeu => b.toNat ≤ a.toNat

def BranchOp.next (op : BranchOp) : BitVec 32 :=
  if op.taken a b then pc + imm else pc + 4

/-- The target of a `JALR`, with its lowest bit cleared. -/
def jalrNext : BitVec 32 := (a + imm) &&& ~~~1#32

def LoadOp.value (bytes : Nat → BitVec 8) : LoadOp → BitVec 32
  | .lb => (bytes 0).signExtend 32
  | .lh => (bytes 1 ++ bytes 0).signExtend 32
  | .lw => bytes 3 ++ bytes 2 ++ bytes 1 ++ bytes 0
  | .lbu => (bytes 0).setWidth 32
  | .lhu => (bytes 1 ++ bytes 0).setWidth 32

end Values

inductive AluOp where
  | upper (op : UpperOp)
  | imm (op : ImmOp)
  | shift (op : ShiftOp)
  | reg (op : RegOp)
  deriving DecidableEq

def AluOp.value (word pc a b : BitVec 32) : AluOp → BitVec 32
  | .upper op => op.value pc (immU word)
  | .imm op => op.value a (immI word)
  | .shift op => op.value a (rs2Of word)
  | .reg op => op.value a b

inductive ControlOp where
  | branch (op : BranchOp)
  | jal
  | jalr
  deriving DecidableEq

namespace ControlOp

def taken (a b : BitVec 32) : ControlOp → Bool
  | .branch op => op.taken a b
  | .jal | .jalr => true

def links : ControlOp → Bool
  | .branch _ => false
  | .jal | .jalr => true

def next (word pc a b : BitVec 32) : ControlOp → BitVec 32
  | .branch op => op.next pc a b (immB word)
  | .jal => pc + immJ word
  | .jalr => jalrNext a (immI word)

theorem next_of_not_taken {op : ControlOp} {a b : BitVec 32} (h : op.taken a b = false)
    (word pc : BitVec 32) : op.next word pc a b = pc + 4 := by
  cases op with
  | branch op =>
      change op.taken a b = false at h
      simp [next, BranchOp.next, h]
  | jal => cases h
  | jalr => cases h

end ControlOp

end RiscvPerfSim.Foundation.Rv32i
