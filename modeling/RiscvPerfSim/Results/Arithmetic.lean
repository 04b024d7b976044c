import RiscvPerfSim.Core.Encoding
import RiscvPerfSim.Core.Reachable

/-!
# Arithmetic

What the executors of the instructions without a jump or a memory access leave
in `rd`, against the instruction set.
-/

namespace RiscvPerfSim

open Foundation

/-! ## What the executors compute -/

namespace Foundation.Rv32i

/-- The bodies of `XORI` and `ANDI` have changed places. -/
def ImmOp.computed (a imm : BitVec 32) : ImmOp → BitVec 32
  | .xori => a &&& imm
  | .andi => a ^^^ imm
  | op => op.value a imm

/-- The shift amounts of `SLL`, `SRL` and `SRA` are not cut to five bits. -/
def RegOp.computed (env : Env) (a b : BitVec 32) : RegOp → BitVec 32
  | .sll => Executors.shiftBy env .sll (fun value count => value <<< count) a b
  | .srl => Executors.shiftBy env .srl (fun value count => value >>> count) a b
  | .sra => Executors.shiftBy env .sra (fun value count => value.sshiftRight count) a b
  | op => op.value a b

def AluOp.computed (env : Env) (word pc a b : BitVec 32) : AluOp → BitVec 32
  | .upper op => op.value pc (immU word)
  | .imm op => op.computed a (immI word)
  | .shift op => op.value a (rs2Of word)
  | .reg op => op.computed env a b

def AluOp.Agrees (word a b : BitVec 32) : AluOp → Prop
  | .imm .xori | .imm .andi => a = 0 ∧ immI word = 0
  | .reg .sll | .reg .srl | .reg .sra => b.toNat < 32
  | _ => True

theorem amount_toNat (b : BitVec 32) : (amount b).toNat = b.toNat % 32 := by
  have hextract : (amount b).toNat = b.toNat / 2 ^ 0 % 2 ^ 5 := toNat_extract b 0 5
  omega

end Foundation.Rv32i

namespace Instruction

variable {env : Env} {instr : Instruction} {word : BitVec 32}

private theorem masked_toNat (word : BitVec 32) :
    (Rv32i.immI word &&& 0b11111).toNat = (Rv32i.rs2Of word).toNat := by
  rw [← Rv32i.shamt_immI, BitVec.toNat_and, show (0b11111 : BitVec 32).toNat = 2 ^ 5 - 1 from rfl,
    Nat.and_two_pow_sub_one_eq_mod, Rv32i.toNat_extract, Nat.pow_zero, Nat.div_one]

section Execute

variable (h : instr.Shaped word)
include h

private theorem execute_upper (op : Rv32i.UpperOp)
    (hname : (Decoder.recognize word).name = op.name) :
    instr.execute env = .ok (instr.withRd (op.value instr.pc (Rv32i.immU word))) := by
  have himm := h.getImm
  cases op with
  | lui =>
      obtain ⟨hexecutor, htype, -⟩ := h.executor_of_name hname rfl
      rw [htype] at himm
      simp [execute, hexecutor, Executor.call, Executors.LUI, dynamicCast, htype, himm,
        Executor.type, setRdValue, withRd, InstrType.writesRd, Rv32i.UpperOp.value, bind,
        Except.bind]
  | auipc =>
      obtain ⟨hexecutor, htype, -⟩ := h.executor_of_name hname rfl
      rw [htype] at himm
      simp [execute, hexecutor, Executor.call, Executors.AUIPC, dynamicCast, htype, himm,
        Executor.type, setRdValue, withRd, InstrType.writesRd, Rv32i.UpperOp.value, bind,
        Except.bind, BitVec.add_comm]

omit h in
private theorem aluImm_eq (f : BitVec 32 → BitVec 32 → BitVec 32) (htype : instr.type = .i)
    (himm : instr.getImm = .ok (Rv32i.immI word)) :
    Executors.aluImm f instr = .ok (instr.withRd (f instr.rs1.value (Rv32i.immI word))) := by
  simp [Executors.aluImm, himm, getRs1, htype, setRdValue, withRd, InstrType.writesRd, bind,
    Except.bind]

private theorem execute_imm (op : Rv32i.ImmOp) (hname : (Decoder.recognize word).name = op.name) :
    instr.execute env = .ok (instr.withRd (op.computed instr.rs1.value (Rv32i.immI word))) := by
  have hi : ∃ e, op.name.executor = some e ∧ e.type = .i := by
    cases op <;> exact ⟨_, rfl, rfl⟩
  obtain ⟨e, he, hclass⟩ := hi
  obtain ⟨hexecutor, htype, -⟩ := h.executor_of_name hname he
  rw [hclass] at htype
  have himm := h.getImm
  rw [htype] at himm
  have halu := fun f => aluImm_eq f htype himm
  unfold execute
  rw [hexecutor]
  cases op <;> cases he
  case addi => simp [Executor.call, Executors.ADDI, dynamicCast, htype, halu,
      Rv32i.ImmOp.computed, Rv32i.ImmOp.value, bind, Except.bind]
  case slti => exact halu fun rs1 imm => Executors.setIf (rs1.slt imm)
  case sltiu => exact halu fun rs1 imm => Executors.setIf (rs1.ult imm)
  all_goals exact halu _

private theorem execute_shift (op : Rv32i.ShiftOp)
    (hname : (Decoder.recognize word).name = op.name) :
    instr.execute env = .ok (instr.withRd (op.value instr.rs1.value (Rv32i.rs2Of word))) := by
  have hi : ∃ e, op.name.executor = some e ∧ e.type = .i := by
    cases op <;> exact ⟨_, rfl, rfl⟩
  obtain ⟨e, he, hclass⟩ := hi
  obtain ⟨hexecutor, htype, -⟩ := h.executor_of_name hname he
  rw [hclass] at htype
  have himm := h.getImm
  rw [htype] at himm
  have halu := fun f => aluImm_eq f htype himm
  unfold execute
  rw [hexecutor]
  cases op <;> cases he <;>
    simp only [Executor.call, Executors.SLLI, Executors.SRLI, Executors.SRAI, dynamicCast, htype,
      halu, if_true, masked_toNat, bind, Except.bind, Rv32i.ShiftOp.value]

private theorem execute_reg (op : Rv32i.RegOp) (hname : (Decoder.recognize word).name = op.name) :
    instr.execute env =
      .ok (instr.withRd (op.computed env instr.rs1.value instr.rs2.value)) := by
  have hr : ∃ e, op.name.executor = some e ∧ e.type = .r := by
    cases op <;> exact ⟨_, rfl, rfl⟩
  obtain ⟨e, he, hclass⟩ := hr
  obtain ⟨hexecutor, htype, -⟩ := h.executor_of_name hname he
  rw [hclass] at htype
  have halu (f : BitVec 32 → BitVec 32 → BitVec 32) : Executors.aluReg f instr =
      .ok (instr.withRd (f instr.rs1.value instr.rs2.value)) := by
    simp [Executors.aluReg, dynamicCast, getRs1, getRs2, htype, setRdValue, withRd,
      InstrType.writesRd, bind, Except.bind]
  unfold execute
  rw [hexecutor]
  cases op <;> cases he
  case slt => exact halu fun rs1 rs2 => Executors.setIf (rs1.slt rs2)
  case sltu => exact halu fun rs1 rs2 => Executors.setIf (rs1.ult rs2)
  all_goals exact halu _

theorem Shaped.execute_alu (alu : Rv32i.AluOp) (hname : (Decoder.recognize word).name = alu.name) :
    instr.execute env = .ok (instr.withRd
      (alu.computed env word instr.pc instr.rs1.value instr.rs2.value)) := by
  cases alu with
  | upper op => exact execute_upper h op hname
  | imm op => exact execute_imm h op hname
  | shift op => exact execute_shift h op hname
  | reg op => exact execute_reg h op hname

end Execute

end Instruction

/-! ## Where the executors are right -/

namespace Foundation.Rv32i

theorem and_eq_xor_iff (a imm : BitVec 32) : a &&& imm = a ^^^ imm ↔ a = 0 ∧ imm = 0 := by
  constructor
  · intro h
    have hbit (i : Nat) : a.getLsbD i = false ∧ imm.getLsbD i = false := by
      have hi := congrArg (BitVec.getLsbD · i) h
      simp only [BitVec.getLsbD_and, BitVec.getLsbD_xor] at hi
      cases ha : a.getLsbD i <;> cases hb : imm.getLsbD i <;> simp [ha, hb] at hi ⊢
    constructor
    · apply BitVec.eq_of_getLsbD_eq
      intro i _
      simpa using (hbit i).1
    · apply BitVec.eq_of_getLsbD_eq
      intro i _
      simpa using (hbit i).2
  · rintro ⟨rfl, rfl⟩
    rfl

theorem shiftBy_iff (executor : Executor) (f : BitVec 32 → Nat → BitVec 32)
    (a b : BitVec 32) :
    (∀ env, Executors.shiftBy env executor f a b = f a (amount b).toNat) ↔ b.toNat < 32 := by
  rw [amount_toNat]
  constructor
  · intro h
    by_contra hlarge
    have hother := h { undef :=
      { shift := fun _ _ _ => f a (b.toNat % 32) + 1
        dData := fun _ => 0
        endId := 0
        regName := 0 } }
    simp [Executors.shiftBy, hlarge] at hother
  · intro hsmall env
    rw [Executors.shiftBy, if_pos hsmall, Nat.mod_eq_of_lt hsmall]

theorem AluOp.computed_eq_iff (alu : AluOp) (word pc a b : BitVec 32) :
    (∀ env, alu.computed env word pc a b = alu.value word pc a b) ↔ alu.Agrees word a b := by
  cases alu with
  | upper op => exact ⟨fun _ => by cases op <;> trivial, fun _ _ => rfl⟩
  | shift op => exact ⟨fun _ => by cases op <;> trivial, fun _ _ => rfl⟩
  | imm op =>
      cases op with
      | xori =>
          exact ⟨fun h => (and_eq_xor_iff a _).mp (h .plain), fun h _ => (and_eq_xor_iff a _).mpr h⟩
      | andi =>
          exact ⟨fun h => (and_eq_xor_iff a _).mp (h .plain).symm,
            fun h _ => ((and_eq_xor_iff a _).mpr h).symm⟩
      | addi | slti | sltiu | ori => exact ⟨fun _ => trivial, fun _ _ => rfl⟩
  | reg op =>
      cases op with
      | sll => exact shiftBy_iff ..
      | srl => exact shiftBy_iff ..
      | sra => exact shiftBy_iff ..
      | add | sub | slt | sltu | xor | or | and => exact ⟨fun _ => trivial, fun _ _ => rfl⟩

end Foundation.Rv32i

/-- The value is in `rd` once the object has executed, whatever C++ leaves open. -/
def Instruction.Yields (instr : Instruction) (value : BitVec 32) : Prop :=
  ∀ env, ∃ done, instr.execute env = .ok done ∧ done.rd.value = value

theorem Instruction.Shaped.yields_iff {instr : Instruction} {word : BitVec 32}
    (h : instr.Shaped word) (alu : Rv32i.AluOp) (hname : (Decoder.recognize word).name = alu.name) :
    instr.Yields (alu.value word instr.pc instr.rs1.value instr.rs2.value) ↔
      alu.Agrees word instr.rs1.value instr.rs2.value := by
  rw [← alu.computed_eq_iff word instr.pc]
  constructor
  · intro hyields env
    obtain ⟨done, hdone, hvalue⟩ := hyields env
    rw [h.execute_alu alu hname] at hdone
    cases hdone
    exact hvalue
  · intro hcomputed env
    exact ⟨_, h.execute_alu alu hname, hcomputed env⟩

namespace Decoder

variable {env : Env} {dp dp' : Datapath} {word : BitVec 32} {ptr : InstrPtr}

/-- `decode` and then `execute`, at any pc and on whatever operands `decode` has read. -/
theorem execute_alu_iff (hdecode : decode env dp word = .ok (dp', ptr)) (alu : Rv32i.AluOp)
    (hname : (recognize word).name = alu.name) (pc : BitVec 32) :
    ((dp'.decoder.get ptr).setPc pc).Yields
        (alu.value word pc (dp'.decoder.get ptr).rs1.value (dp'.decoder.get ptr).rs2.value) ↔
      alu.Agrees word (dp'.decoder.get ptr).rs1.value (dp'.decoder.get ptr).rs2.value :=
  (decode_shaped hdecode pc).yields_iff alu hname

def idleDatapath : Datapath :=
  (PerfSim.boot { size := 64, bytes := fun _ => 0 } 0 fun num =>
    if num = 1 then 2 else if num = 2 then 33 else 0).toDatapath

/-- `XORI x3, x1, 1`, `ANDI x3, x1, 2` and `SLL x3, x1, x2` on that register file. -/
theorem execute_alu_differs :
    (∃ dp' ptr, decode .plain idleDatapath 0x0010c193 = .ok (dp', ptr) ∧
      ¬ (dp'.decoder.get ptr).Yields (Rv32i.ImmOp.xori.value 2 1)) ∧
    (∃ dp' ptr, decode .plain idleDatapath 0x0020f193 = .ok (dp', ptr) ∧
      ¬ (dp'.decoder.get ptr).Yields (Rv32i.ImmOp.andi.value 2 2)) ∧
    (∃ dp' ptr, decode .plain idleDatapath 0x002091b3 = .ok (dp', ptr) ∧
      ¬ (dp'.decoder.get ptr).Yields (Rv32i.RegOp.sll.value 2 33)) := by
  refine ⟨⟨_, _, rfl, fun h => ?_⟩, ⟨_, _, rfl, fun h => ?_⟩, ⟨_, _, rfl, fun h => ?_⟩⟩
  · obtain ⟨done, hdone, hvalue⟩ := h .plain
    cases hdone
    exact absurd hvalue (by decide)
  · obtain ⟨done, hdone, hvalue⟩ := h .plain
    cases hdone
    exact absurd hvalue (by decide)
  · obtain ⟨done, hdone, hvalue⟩ := h .plain
    cases hdone
    exact absurd hvalue (by decide)

/-- `SUB x3, x1, x2` on that register file. -/
theorem execute_alu_iff_sub : ∃ dp' ptr, decode .plain idleDatapath 0x402081b3 = .ok (dp', ptr) ∧
    (((dp'.decoder.get ptr).setPc 8).Yields
        (Rv32i.AluOp.value 0x402081b3 8 (dp'.decoder.get ptr).rs1.value
          (dp'.decoder.get ptr).rs2.value (.reg .sub)) ↔
      Rv32i.AluOp.Agrees 0x402081b3 (dp'.decoder.get ptr).rs1.value
        (dp'.decoder.get ptr).rs2.value (.reg .sub)) := by
  have hdecode : ∃ dp' ptr, decode .plain idleDatapath 0x402081b3 = .ok (dp', ptr) :=
    ⟨_, _, rfl⟩
  obtain ⟨dp', ptr, hdecode⟩ := hdecode
  exact ⟨dp', ptr, hdecode, execute_alu_iff hdecode (.reg .sub) rfl 8⟩

end Decoder

end RiscvPerfSim
