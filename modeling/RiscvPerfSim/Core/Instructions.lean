import Mathlib.Tactic.SplitIfs
import RiscvPerfSim.Core.Machine

/-!
# What recognition and execution guarantee

The facts about single instructions on which every pipeline argument rests:
which members `recognize` sets together, that an executor never fails on the
class it is paired with, and which members executing leaves alone.
-/

namespace RiscvPerfSim

/-! ## Recognition -/

def Executor.type : Executor → InstrType
  | .lui | .auipc => .u
  | .jal => .j
  | .jalr | .load | .addi | .slti | .sltiu | .xori | .ori | .andi
  | .slli | .srli | .srai => .i
  | .beq | .bne | .blt | .bge | .bltu | .bgeu => .b
  | .store => .s
  | .add | .sub | .sll | .slt | .sltu | .xor | .srl | .sra | .or | .and => .r
  | .ecall => .system

def Executor.jumps : Executor → Bool
  | .jal | .jalr | .beq | .bne | .blt | .bge | .bltu | .bgeu => true
  | _ => false

/-- The members of the decoder that are only ever set together. -/
structure Recognized.Sound (found : Recognized) : Prop where
  executor : ∀ e, found.executor = some e →
    e.type = found.type ∧ (e.jumps = true → found.isBranch = true)
  read : found.memAccType = .read →
    found.type = .i ∧ found.isBranch = false ∧ found.executor = some .load ∧
      (found.name = .lb ∨ found.name = .lh ∨ found.name = .lw ∨ found.name = .lbu ∨
        found.name = .lhu)
  write : found.memAccType = .write → found.type = .s ∧ found.executor = some .store
  size : found.memAccType ≠ .none →
    found.accSize = 1 ∨ found.accSize = 2 ∨ found.accSize = 4
  system : found.type = .system →
    found.memAccType = .none ∧ found.isBranch = false ∧
      (found.executor = none ∨ found.executor = some .ecall)
  ecall : found.name = .ecall → found.type = .system
  branch : found.isBranch = true →
    found.memAccType = .none ∧
      (found.type = .b ∨ found.type = .i ∨ found.type = .j)
  named : found.name ≠ .none → ∃ e, found.executor = some e ∧
    (e = .load → found.memAccType = .read) ∧ (e = .store → found.memAccType = .write)
  load : found.name = .lb ∨ found.name = .lh ∨ found.name = .lw ∨ found.name = .lbu ∨
      found.name = .lhu → found.memAccType = .read

section Sound

variable (funct3 : BitVec 3) (funct7 : BitVec 7)

private theorem recognizeBranch_sound : (Decoder.recognizeBranch funct3).Sound := by
  unfold Decoder.recognizeBranch
  split_ifs <;> constructor <;> simp [Executor.type, Executor.jumps]

private theorem recognizeLoad_sound : (Decoder.recognizeLoad funct3).Sound := by
  unfold Decoder.recognizeLoad
  split_ifs <;> constructor <;> simp [Executor.type, Executor.jumps]

private theorem recognizeStore_sound : (Decoder.recognizeStore funct3).Sound := by
  unfold Decoder.recognizeStore
  split_ifs <;> constructor <;> simp [Executor.type, Executor.jumps]

private theorem recognizeOpImm_sound :
    (Decoder.recognizeOpImm funct3 funct7).Sound := by
  unfold Decoder.recognizeOpImm
  split_ifs <;> constructor <;> simp [Executor.type, Executor.jumps]

private theorem recognizeOp_sound : (Decoder.recognizeOp funct3 funct7).Sound := by
  unfold Decoder.recognizeOp Decoder.recognizeOpPair Decoder.recognizeOpPlain
  split_ifs <;> constructor <;> simp [Executor.type, Executor.jumps]

end Sound

theorem Decoder.recognize_sound (word : BitVec 32) : (recognize word).Sound := by
  unfold recognize
  dsimp only
  split
  · constructor <;> simp [Executor.type, Executor.jumps]
  split
  · constructor <;> simp [Executor.type, Executor.jumps]
  split
  · constructor <;> simp [Executor.type, Executor.jumps]
  split
  · constructor <;> simp [Executor.type, Executor.jumps]
  split
  · exact recognizeBranch_sound _
  split
  · exact recognizeLoad_sound _
  split
  · exact recognizeStore_sound _
  split
  · exact recognizeOpImm_sound _ _
  split
  · exact recognizeOp_sound _ _
  split
  · split <;> constructor <;> simp [Executor.type, Executor.jumps]
  · constructor <;> simp

theorem Decoder.numRd_lt (word : BitVec 32) : numRd word < Config.numRegs := by
  have h := (word.extractLsb' 7 5).isLt
  exact h

/-! ## Decoded objects -/

namespace Instruction

/-- The object still says what `decode` made of the word. -/
structure Carries (instr : Instruction) (word : BitVec 32) : Prop where
  type : instr.type = (Decoder.recognize word).type
  name : instr.name = (Decoder.recognize word).name
  opcode : instr.opcode = Decoder.opcodeOf word
  executor : instr.mainExecutor = (Decoder.recognize word).executor
  isBranch : instr.isBranch = (Decoder.recognize word).isBranch
  memAccType : instr.memAccType = (Decoder.recognize word).memAccType
  imm : instr.calcImm word = instr
  loadSize : instr.type = .i → instr.loadSize = (Decoder.recognize word).accSize
  storeSize : instr.type = .s → instr.storeSize = (Decoder.recognize word).accSize
  rdName : instr.type.writesRd = true → instr.rd.name = Decoder.numRd word

/-- What executing and accessing memory leave alone, the rest blanked out. -/
def fixed (instr : Instruction) : Instruction :=
  { instr with
    branchAddr := 0
    rd := { instr.rd with value := 0 }
    loadAddres := 0
    storeAddres := 0
    brIsTaken := false }

section Fixed

variable {instr instr' : Instruction}

theorem type_of_fixed (h : instr'.fixed = instr.fixed) : instr'.type = instr.type := by
  simpa [fixed] using congrArg Instruction.type h

theorem name_of_fixed (h : instr'.fixed = instr.fixed) : instr'.name = instr.name := by
  simpa [fixed] using congrArg Instruction.name h

theorem pc_of_fixed (h : instr'.fixed = instr.fixed) : instr'.pc = instr.pc := by
  simpa [fixed] using congrArg Instruction.pc h

theorem memAccType_of_fixed (h : instr'.fixed = instr.fixed) :
    instr'.memAccType = instr.memAccType := by
  simpa [fixed] using congrArg Instruction.memAccType h

theorem isBranch_of_fixed (h : instr'.fixed = instr.fixed) :
    instr'.isBranch = instr.isBranch := by
  simpa [fixed] using congrArg Instruction.isBranch h

theorem executor_of_fixed (h : instr'.fixed = instr.fixed) :
    instr'.mainExecutor = instr.mainExecutor := by
  simpa [fixed] using congrArg Instruction.mainExecutor h

theorem rdName_of_fixed (h : instr'.fixed = instr.fixed) :
    instr'.rd.name = instr.rd.name := by
  simpa [fixed] using congrArg (fun i => i.rd.name) h

theorem calcImm_eq_self_iff (word : BitVec 32) :
    instr.calcImm word = instr ↔ instr.fixed.calcImm word = instr.fixed := by
  cases h : instr.type <;> simp [calcImm, fixed, h, Instruction.ext_iff]

theorem Carries.of_fixed {word : BitVec 32} (h : instr'.fixed = instr.fixed)
    (hcarries : instr.Carries word) : instr'.Carries word where
  type := (type_of_fixed h).trans hcarries.type
  name := (name_of_fixed h).trans hcarries.name
  opcode := by
    have ho : instr'.opcode = instr.opcode := by
      simpa [fixed] using congrArg Instruction.opcode h
    exact ho.trans hcarries.opcode
  executor := (executor_of_fixed h).trans hcarries.executor
  isBranch := (isBranch_of_fixed h).trans hcarries.isBranch
  memAccType := (memAccType_of_fixed h).trans hcarries.memAccType
  imm := by
    rw [calcImm_eq_self_iff, h, ← calcImm_eq_self_iff]
    exact hcarries.imm
  loadSize := fun ht => by
    have hl : instr'.loadSize = instr.loadSize := by
      simpa [fixed] using congrArg Instruction.loadSize h
    exact hl.trans (hcarries.loadSize ((type_of_fixed h).symm.trans ht))
  storeSize := fun ht => by
    have hs : instr'.storeSize = instr.storeSize := by
      simpa [fixed] using congrArg Instruction.storeSize h
    exact hs.trans (hcarries.storeSize ((type_of_fixed h).symm.trans ht))
  rdName := fun ht =>
    (rdName_of_fixed h).trans (hcarries.rdName (by rw [← type_of_fixed h]; exact ht))

end Fixed

theorem calcImm_setPc {instr : Instruction} {word : BitVec 32}
    (h : instr.calcImm word = instr) (pc : BitVec 32) :
    ({ instr with pc := pc } : Instruction).calcImm word = { instr with pc := pc } := by
  have himm := congrArg Instruction.imm h
  cases htype : instr.type <;> simp only [calcImm, htype] at himm ⊢ <;> rw [himm]

theorem Carries.setPc {instr : Instruction} {word : BitVec 32} (h : instr.Carries word)
    (pc : BitVec 32) : ({ instr with pc := pc } : Instruction).Carries word where
  type := h.type
  name := h.name
  opcode := h.opcode
  executor := h.executor
  isBranch := h.isBranch
  memAccType := h.memAccType
  imm := calcImm_setPc h.imm pc
  loadSize := h.loadSize
  storeSize := h.storeSize
  rdName := h.rdName

end Instruction

namespace Decoder

@[simp] theorem finish_rs1 (found : Recognized) (word : BitVec 32) (object : Instruction) :
    (finish found word object).rs1 = object.rs1 := by
  unfold finish Instruction.calcImm
  split <;> rfl

@[simp] theorem finish_rs2 (found : Recognized) (word : BitVec 32) (object : Instruction) :
    (finish found word object).rs2 = object.rs2 := by
  unfold finish Instruction.calcImm
  split <;> rfl

theorem fill_carries (old : Instruction) (word : BitVec 32) (rs1 rs2 : Register)
    {rd : Register} (hrd : rd.name = numRd word) :
    (fill old word rs1 rs2 rd).Carries word := by
  cases h : (recognize word).type <;>
    constructor <;>
      simp [fill, finish, Instruction.calcImm, h, InstrType.writesRd, hrd]

@[simp] theorem fill_type (old : Instruction) (word : BitVec 32)
    (rs1 rs2 rd : Register) :
    (fill old word rs1 rs2 rd).type = (recognize word).type := by
  cases h : (recognize word).type <;> simp [fill, finish, Instruction.calcImm, h]

theorem fill_rd (old : Instruction) {word : BitVec 32} (rs1 rs2 rd : Register)
    (h : (recognize word).type.writesRd = true) : (fill old word rs1 rs2 rd).rd = rd := by
  cases htype : (recognize word).type <;>
    simp_all [fill, finish, Instruction.calcImm, InstrType.writesRd]

end Decoder

/-! ## Execution -/

theorem Executor.call_ok (env : Env) (executor : Executor) (instr : Instruction)
    (htype : instr.type = executor.type)
    (hbranch : executor.jumps = true → instr.isBranch = true) :
    ∃ instr', executor.call env instr = .ok instr' ∧ instr'.fixed = instr.fixed := by
  cases executor <;>
    simp only [Executor.type, Executor.jumps, forall_const] at htype hbranch <;>
    simp [Executor.call, Executors.LUI, Executors.AUIPC, Executors.JAL,
      Executors.JALR, Executors.BEQ, Executors.BNE, Executors.BLT, Executors.BGE,
      Executors.BLTU, Executors.BGEU, Executors.Store, Executors.Load,
      Executors.ADDI, Executors.SLTI, Executors.SLTIU, Executors.XORI,
      Executors.ORI, Executors.ANDI, Executors.SLLI, Executors.SRLI,
      Executors.SRAI, Executors.ADD, Executors.SUB, Executors.SLL,
      Executors.SLT, Executors.SLTU, Executors.XOR, Executors.SRL,
      Executors.SRA, Executors.OR, Executors.AND, Executors.ECALL,
      Executors.aluImm, Executors.aluReg, Executors.branchIf,
      Instruction.dynamicCast, Instruction.getImm, Instruction.getRs1,
      Instruction.getRs2, Instruction.setRdValue, Instruction.setBrTargetAddr,
      InstrType.writesRd, Instruction.fixed, htype, hbranch, bind, Except.bind,
      pure, Except.pure]

namespace Instruction

section Executed

variable {env : Env} {instr : Instruction} {word : BitVec 32}

private theorem Carries.execute_ok (env : Env) (h : instr.Carries word) :
    ∃ instr', instr.execute env = .ok instr' ∧ instr'.fixed = instr.fixed := by
  unfold execute
  cases he : instr.mainExecutor with
  | none => exact ⟨instr, rfl, rfl⟩
  | some e =>
      have hsound := (Decoder.recognize_sound word).executor e (h.executor ▸ he)
      apply Executor.call_ok
      · rw [h.type, hsound.1]
      · rw [h.isBranch]
        exact hsound.2

theorem Carries.execute_eq (h : instr.Carries word) :
    instr.execute env = .ok (instr.executed env) := by
  obtain ⟨instr', hexec, -⟩ := h.execute_ok env
  simp [executed, hexec]

theorem Carries.executed_fixed (h : instr.Carries word) :
    (instr.executed env).fixed = instr.fixed := by
  obtain ⟨instr', hexec, hfixed⟩ := h.execute_ok env
  simpa [executed, hexec] using hfixed

theorem Carries.executed (h : instr.Carries word) : (instr.executed env).Carries word :=
  .of_fixed h.executed_fixed h

/-- A SYSTEM word either has no executor or the one of `ECALL`, which does nothing. -/
theorem Carries.executed_system (h : instr.Carries word) (htype : instr.type = .system) :
    instr.executed env = instr := by
  obtain ⟨-, -, hnone | hecall⟩ :=
    (Decoder.recognize_sound word).system (h.type ▸ htype)
  · simp [Instruction.executed, execute, h.executor, hnone]
  · simp [Instruction.executed, execute, h.executor, hecall, Executor.call,
      Executors.ECALL]

theorem Carries.memAccType_system (h : instr.Carries word) (htype : instr.type = .system) :
    instr.memAccType = .none := by
  rw [h.memAccType]
  exact ((Decoder.recognize_sound word).system (h.type ▸ htype)).1

theorem Carries.target_system (h : instr.Carries word) (htype : instr.type = .system) :
    instr.target = none := by
  have hbranch : instr.isBranch = false := by
    rw [h.isBranch]
    exact ((Decoder.recognize_sound word).system (h.type ▸ htype)).2.1
  simp [target, PerfSim.transfers, hbranch]

theorem Carries.writes_eq (h : instr.Carries word) (num : RegName) :
    instr.writes num = Decoder.writes word num := by
  have hname := h.rdName
  unfold writes Decoder.writes
  rw [h.type] at hname ⊢
  cases htype : (Decoder.recognize word).type.writesRd with
  | false => rfl
  | true => rw [hname htype]

def withRd (instr : Instruction) (value : BitVec 32) : Instruction :=
  { instr with rd := { instr.rd with value := value } }

theorem setRdValue_eq (value : BitVec 32) (h : instr.type.writesRd = true) :
    instr.setRdValue value = .ok (instr.withRd value) := by
  rw [setRdValue, if_pos h]
  rfl

theorem setRdValue_fixed {value : BitVec 32} {instr' : Instruction}
    (h : instr.setRdValue value = .ok instr') : instr'.fixed = instr.fixed := by
  unfold setRdValue at h
  split at h
  · cases h
    rfl
  · cases h

end Executed

end Instruction

end RiscvPerfSim
