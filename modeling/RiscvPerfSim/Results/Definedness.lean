import RiscvPerfSim.Core.Encoding
import RiscvPerfSim.Core.Reachable
import RiscvPerfSim.Source.Expressions

/-!
# Definedness

On which operands the integer expressions of the executors are defined, and
that the executors of the model compute what the defined ones do.
-/

namespace RiscvPerfSim

open Foundation
open CInt (Ty)

/-! ## The operands of the executors -/

def Executor.InBounds (a b imm : BitVec 32) : Executor → Prop
  | .add => Ty.int32.Holds (a.toInt + b.toInt)
  | .sub => Ty.int32.Holds (a.toInt - b.toInt)
  | .load | .store | .jalr => Ty.int32.Holds (imm.toInt + a.toInt)
  | .slli => 0 ≤ a.toInt ∧ a.toInt * 2 ^ (imm.toNat % 32) < 2 ^ 32
  | .sll => b.toNat < 32 ∧ 0 ≤ a.toInt ∧ a.toInt * 2 ^ b.toNat < 2 ^ 32
  | .srl | .sra => b.toNat < 32
  | _ => True

section Counts

variable (a b : BitVec 32)

theorem count_iff : (0 ≤ b.toInt ∧ b.toInt < 32) ↔ b.toNat < 32 := by
  have hlt := b.isLt
  rw [BitVec.toInt_eq_toNat_cond]
  split_ifs <;> omega

theorem count_toNat (h : b.toNat < 32) : b.toInt.toNat = b.toNat := by
  rw [BitVec.toInt_eq_toNat_cond, if_pos (by omega)]
  exact Int.toNat_natCast _

theorem shamt_toNat : (b &&& 0b11111).toNat = b.toNat % 32 := by
  rw [BitVec.toNat_and, show (0b11111 : BitVec 32).toNat = 2 ^ 5 - 1 from rfl,
    Nat.and_two_pow_sub_one_eq_mod]

theorem shamt_count : 0 ≤ (CInt.uint32 (b &&& 0b11111)).toInt ∧
    (CInt.uint32 (b &&& 0b11111)).toInt < 32 := by
  rw [CInt.toInt_uint32, shamt_toNat]
  omega

end Counts

namespace Executor

variable {env : Env} {instr : Instruction}

/-! ## What the bodies evaluate to -/

section Bodies

variable (instr)

theorem eval_immS : immS.eval instr.operands = some (CInt.int32 instr.imm) := by
  simp [immS, imm, CInt.Expr.eval, Instruction.operands]

theorem eval_shamt :
    shamt.eval instr.operands = some (CInt.uint32 (instr.imm &&& 0b11111)) := by
  simp [shamt, imm, CInt.Expr.eval, Instruction.operands, CInt.eval_total,
    CInt.bitwise_uint32_int32]

theorem eval_target :
    target.eval instr.operands = some (CInt.uint32 (instr.imm + instr.pc)) := by
  simp [target, immS, imm, pc, CInt.Expr.eval, Instruction.operands, CInt.add_int32_uint32]

theorem eval_link : link.eval instr.operands = some (CInt.int32 (instr.pc + 4)) := by
  simp [link, pc, CInt.Expr.eval, Instruction.operands, CInt.add_uint32_int32]

theorem eval_shl :
    (CInt.Expr.bin .shl rs1 shamt).eval instr.operands =
        (if 0 ≤ instr.rs1.value.toInt ∧
            instr.rs1.value.toInt * 2 ^ (instr.imm.toNat % 32) < 2 ^ 32 then
          some (CInt.int32 (instr.rs1.value <<< (instr.imm &&& 0b11111).toNat))
        else none) ∧
      (CInt.Expr.bin .shl rs1 rs2).eval instr.operands =
        (if instr.rs2.value.toNat < 32 ∧ 0 ≤ instr.rs1.value.toInt ∧
            instr.rs1.value.toInt * 2 ^ instr.rs2.value.toNat < 2 ^ 32 then
          some (CInt.int32 (instr.rs1.value <<< instr.rs2.value.toNat))
        else none) := by
  constructor
  · have hcount := shamt_count instr.imm
    simp only [CInt.Expr.eval, eval_shamt, rs1, Instruction.operands, Option.bind_some,
      bind, CInt.shl_int32, hcount, true_and]
    rw [CInt.toInt_uint32, Int.toNat_natCast, shamt_toNat]
  · simp only [CInt.Expr.eval, rs1, rs2, Instruction.operands, Option.bind_some, bind,
      CInt.shl_int32, CInt.toInt_int32, count_iff]
    by_cases hcount : instr.rs2.value.toNat < 32
    · simp only [hcount, count_toNat _ hcount]
    · simp only [hcount, false_and, if_false]

theorem eval_shr :
    (CInt.Expr.bin .shr rs1 shamt).eval instr.operands =
        some (CInt.int32 (instr.rs1.value.sshiftRight (instr.imm &&& 0b11111).toNat)) ∧
      (CInt.Expr.bin .shr rs1 rs2).eval instr.operands =
        (if instr.rs2.value.toNat < 32 then
          some (CInt.int32 (instr.rs1.value.sshiftRight instr.rs2.value.toNat))
        else none) ∧
      (CInt.Expr.bin .shr (.cast .uint32 rs1) shamt).eval instr.operands =
        some (CInt.uint32 (instr.rs1.value >>> (instr.imm &&& 0b11111).toNat)) ∧
      (CInt.Expr.bin .shr (.cast .uint32 rs1) rs2).eval instr.operands =
        (if instr.rs2.value.toNat < 32 then
          some (CInt.uint32 (instr.rs1.value >>> instr.rs2.value.toNat))
        else none) := by
  have hshamt := shamt_count instr.imm
  have hamount : (CInt.uint32 (instr.imm &&& 0b11111)).toInt.toNat =
      (instr.imm &&& 0b11111).toNat := by
    rw [CInt.toInt_uint32, Int.toNat_natCast]
  by_cases hcount : instr.rs2.value.toNat < 32
  · have hsmall := count_toNat _ hcount
    refine ⟨?_, ?_, ?_, ?_⟩ <;>
      simp only [CInt.Expr.eval, eval_shamt, rs1, rs2, Instruction.operands, Option.map_some,
        Option.bind_some, bind, CInt.convert_int32_uint32, CInt.shr_int32, CInt.shr_uint32,
        hshamt, hamount, CInt.toInt_int32, count_iff, hcount, hsmall, and_self, if_true]
  · refine ⟨?_, ?_, ?_, ?_⟩ <;>
      simp only [CInt.Expr.eval, eval_shamt, rs1, rs2, Instruction.operands, Option.map_some,
        Option.bind_some, bind, CInt.convert_int32_uint32, CInt.shr_int32, CInt.shr_uint32,
        hshamt, hamount, CInt.toInt_int32, count_iff, hcount, and_self, if_true, if_false]

end Bodies

theorem defined_iff (e : Executor) (instr : Instruction) :
    e.Defined instr ↔ e.InBounds instr.rs1.value instr.rs2.value instr.imm := by
  obtain ⟨v, hv, -⟩ := CInt.add_widened instr.rs1.value instr.imm
  unfold Defined CInt.Expr.Defined
  cases e
  case slli | sll => simp [body, eval_shl, InBounds]
  case srli | srai | srl | sra => simp [body, CInt.Expr.eval_cast, eval_shr, InBounds]
  all_goals
    simp [body, branch, less, eval_target, eval_link, eval_immS, imm, pc, rs1, rs2,
      CInt.Expr.eval, InBounds, Instruction.operands, CInt.eval_total, CInt.add_int32,
      CInt.sub_int32, CInt.add_int32_uint32, CInt.bitwise_int32, CInt.compare_int32,
      CInt.compare_uint32, hv]

/-! ## The executors of the model -/

/-- Where its expressions are defined, an executor leaves in the object what they give. -/
theorem call_computes (env : Env) (e : Executor) (htype : instr.type = e.type)
    (hjumps : e.jumps = true → instr.isBranch = true) (hdefined : e.Defined instr) :
    ∃ done, e.call env instr = .ok done ∧
      ∀ x ∈ e.body, x.2.eval instr.operands = some (x.1.read done) := by
  obtain ⟨v, hv, hnarrow⟩ := CInt.add_widened instr.rs1.value instr.imm
  rw [defined_iff] at hdefined
  cases e <;>
    simp only [Executor.type, Executor.jumps, forall_const, InBounds] at htype hjumps hdefined
  case slli =>
    simp [call, Executors.SLLI, Executors.aluImm, Instruction.dynamicCast, Instruction.getImm,
      Instruction.getRs1, Instruction.setRdValue, InstrType.writesRd, htype, hdefined, body,
      eval_shl, Member.read, bind, Except.bind]
    exact hdefined.2
  case srli | srai =>
    simp [call, Executors.SRLI, Executors.SRAI, Executors.aluImm, Instruction.dynamicCast,
      Instruction.getImm, Instruction.getRs1, Instruction.setRdValue, InstrType.writesRd, htype,
      body, CInt.Expr.eval_cast, eval_shr, Member.read, bind, Except.bind]
  case sll =>
    simp [call, Executors.SLL, Executors.aluReg, Executors.shiftBy, Instruction.dynamicCast,
      Instruction.getRs1, Instruction.getRs2, Instruction.setRdValue, InstrType.writesRd, htype,
      hdefined, body, eval_shl, Member.read, bind, Except.bind]
    exact hdefined.2.2
  case srl | sra =>
    simp [call, Executors.SRL, Executors.SRA, Executors.aluReg, Executors.shiftBy,
      Instruction.dynamicCast, Instruction.getRs1, Instruction.getRs2, Instruction.setRdValue,
      InstrType.writesRd, htype, hdefined, body, CInt.Expr.eval_cast, eval_shr, Member.read,
      bind, Except.bind]
  case beq | bne =>
    simp [call, Executors.BEQ, Executors.BNE, Executors.branchIf, Instruction.dynamicCast,
      Instruction.setBrTargetAddr, htype, hjumps, body, branch, eval_target, rs1, rs2,
      CInt.Expr.eval, Instruction.operands, CInt.eval_total, CInt.compare_eq_uint32,
      CInt.compare_ne_uint32, Member.read, bind, Except.bind, pure, Except.pure]
  case blt | bge | bltu | bgeu =>
    simp [call, Executors.BLT, Executors.BGE, Executors.BLTU, Executors.BGEU,
      Executors.branchIf, Instruction.dynamicCast,
      Instruction.setBrTargetAddr, htype, hjumps, body, branch, eval_target, rs1, rs2,
      CInt.Expr.eval, Instruction.operands, CInt.eval_total, CInt.compare_int32,
      CInt.compare_uint32, BitVec.slt, BitVec.sle, BitVec.ult, BitVec.ule,
      Member.read, bind, Except.bind, pure, Except.pure]
  all_goals
    simp [call, Executors.LUI, Executors.AUIPC, Executors.JAL, Executors.JALR,
      Executors.Store, Executors.Load, Executors.ADDI, Executors.SLTI, Executors.SLTIU,
      Executors.XORI, Executors.ORI, Executors.ANDI, Executors.ADD, Executors.SUB,
      Executors.SLT, Executors.SLTU, Executors.XOR, Executors.OR, Executors.AND,
      Executors.ECALL, Executors.aluImm, Executors.aluReg, Executors.setIf, BitVec.slt,
      BitVec.ult, Instruction.dynamicCast, Instruction.getImm, Instruction.getRs1,
      Instruction.getRs2, Instruction.setRdValue, Instruction.setBrTargetAddr,
      InstrType.writesRd, htype, hjumps, hdefined, body, less, eval_target, eval_link,
      eval_immS, imm, pc, rs1, rs2, CInt.Expr.eval, Instruction.operands, CInt.eval_total,
      CInt.add_int32, CInt.sub_int32, CInt.add_int32_uint32, CInt.bitwise_int32,
      CInt.compare_int32, CInt.compare_uint32, hv, hnarrow, Member.read, bind, Except.bind,
      pure, Except.pure]

end Executor

/-! ## Decoded words -/

def InstrName.InBounds (word a b : BitVec 32) : InstrName → Prop
  | .add => Ty.int32.Holds (a.toInt + b.toInt)
  | .sub => Ty.int32.Holds (a.toInt - b.toInt)
  | .lb | .lh | .lw | .lbu | .lhu | .jalr =>
      Ty.int32.Holds ((Rv32i.immI word).toInt + a.toInt)
  | .sb | .sh | .sw => Ty.int32.Holds ((Rv32i.immS word).toInt + a.toInt)
  | .slli => 0 ≤ a.toInt ∧ a.toInt * 2 ^ (Rv32i.rs2Of word).toNat < 2 ^ 32
  | .sll => b.toNat < 32 ∧ 0 ≤ a.toInt ∧ a.toInt * 2 ^ b.toNat < 2 ^ 32
  | .srl | .sra => b.toNat < 32
  | _ => True

/-- No operation that executing the object evaluates is undefined. -/
def Instruction.Defined (instr : Instruction) : Prop :=
  ∀ e, instr.mainExecutor = some e → e.Defined instr

namespace Instruction

variable {instr : Instruction} {word : BitVec 32}

theorem Shaped.imm_eq (h : instr.Shaped word) :
    (instr.type = .i → instr.imm = Rv32i.immI word) ∧
      (instr.type = .s → instr.imm = Rv32i.immS word) := by
  have himm := congrArg Instruction.imm h.imm
  constructor
  · intro htype
    simp only [calcImm, htype] at himm
    rw [← himm, immI_eq]
  · intro htype
    simp only [calcImm, htype] at himm
    rw [← himm, immS_eq]

private theorem immI_mod (word : BitVec 32) :
    (Rv32i.immI word).toNat % 32 = (Rv32i.rs2Of word).toNat := by
  have hextract := Rv32i.toNat_extract (Rv32i.immI word) 0 5
  rw [Rv32i.shamt_immI] at hextract
  omega

theorem Shaped.defined_iff (h : instr.Shaped word) (hname : (Decoder.recognize word).name ≠ .none) :
    instr.Defined ↔
      (Decoder.recognize word).name.InBounds word instr.rs1.value instr.rs2.value := by
  obtain ⟨e, he⟩ : ∃ e, (Decoder.recognize word).name.executor = some e := by
    cases hn : (Decoder.recognize word).name <;> first | exact ⟨_, rfl⟩ | exact absurd hn hname
  obtain ⟨hexecutor, htype, -⟩ := h.executor_of_name rfl he
  have hdefined : instr.Defined ↔ e.Defined instr := by
    constructor
    · exact fun hall => hall e hexecutor
    · intro hone e' he'
      rw [hexecutor, Option.some.injEq] at he'
      exact he' ▸ hone
  rw [hdefined, Executor.defined_iff]
  have himm := h.imm_eq
  cases hn : (Decoder.recognize word).name <;> rw [hn] at he <;> cases he
  case lb | lh | lw | lbu | lhu | jalr =>
    rw [himm.1 htype]
    rfl
  case sb | sh | sw =>
    rw [himm.2 htype]
    rfl
  case slli =>
    rw [himm.1 htype, Executor.InBounds, immI_mod]
    rfl
  all_goals rfl

end Instruction

namespace Decoder

variable {env : Env} {dp dp' : Datapath} {word : BitVec 32} {ptr : InstrPtr}

/-- `decode` and then `execute`, at any pc and on whatever operands `decode` has read. -/
theorem execute_defined_iff (hdecode : decode env dp word = .ok (dp', ptr))
    (hname : (recognize word).name ≠ .none) (pc : BitVec 32) :
    ((dp'.decoder.get ptr).setPc pc).Defined ↔
      (recognize word).name.InBounds word (dp'.decoder.get ptr).rs1.value
        (dp'.decoder.get ptr).rs2.value :=
  (decode_shaped hdecode pc).defined_iff hname

def extremes : Datapath :=
  (PerfSim.boot { size := 64, bytes := fun _ => 0 } 0 fun num =>
    if num = 1 then 0x7fffffff else if num = 2 then 1 else if num = 3 then 0xffffffff
    else 0).toDatapath

/-- `ADD x4, x1, x2`, `SLLI x4, x3, 1` and `SRL x4, x2, x1` on that register file. -/
theorem extremes_undefined :
    (∃ dp' ptr, decode .plain extremes 0x00208233 = .ok (dp', ptr) ∧
      ¬ (dp'.decoder.get ptr).Defined) ∧
    (∃ dp' ptr, decode .plain extremes 0x00119213 = .ok (dp', ptr) ∧
      ¬ (dp'.decoder.get ptr).Defined) ∧
    (∃ dp' ptr, decode .plain extremes 0x00115233 = .ok (dp', ptr) ∧
      ¬ (dp'.decoder.get ptr).Defined) := by
  refine ⟨⟨_, _, rfl, fun h => ?_⟩, ⟨_, _, rfl, fun h => ?_⟩, ⟨_, _, rfl, fun h => ?_⟩⟩
  · have hsum : ¬ Ty.int32.Holds ((0x7fffffff#32).toInt + (1#32).toInt) := by decide
    exact hsum ((Executor.defined_iff ..).mp (h .add rfl))
  · have hnegative : ¬ 0 ≤ (0xffffffff#32).toInt := by decide
    exact hnegative ((Executor.defined_iff ..).mp (h .slli rfl)).1
  · have hlarge : ¬ (0x7fffffff#32).toNat < 32 := by decide
    exact hlarge ((Executor.defined_iff ..).mp (h .srl rfl))

theorem execute_defined_iff_sub : ∃ dp' ptr,
    decode .plain extremes 0x40208233 = .ok (dp', ptr) ∧
      (((dp'.decoder.get ptr).setPc 0).Defined ↔
        (recognize 0x40208233).name.InBounds 0x40208233 (dp'.decoder.get ptr).rs1.value
          (dp'.decoder.get ptr).rs2.value) := by
  have hdecode : ∃ dp' ptr, decode .plain extremes 0x40208233 = .ok (dp', ptr) := ⟨_, _, rfl⟩
  obtain ⟨dp', ptr, hdecode⟩ := hdecode
  exact ⟨dp', ptr, hdecode, execute_defined_iff hdecode (by decide) 0⟩

end Decoder

end RiscvPerfSim
