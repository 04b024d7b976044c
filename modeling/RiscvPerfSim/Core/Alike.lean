import RiscvPerfSim.Core.Bypass
import RiscvPerfSim.Core.Stores

/-!
# What an instruction keeps of the object it was written into

A decoded object still has members of the instruction that had it before, and
its copy of `rd` may be out of date.  No executor reads either: two objects
with the same word and the same operands stay alike in every later stage.
-/

namespace RiscvPerfSim

open Foundation

/-- A word that `recognize` gives a name, or at least the class SYSTEM. -/
def Decoder.Recognised (word : BitVec 32) : Prop :=
  (recognize word).name ≠ .none ∨ (recognize word).type = .system

namespace Instruction

variable {env : Env} {a b a' b' : Instruction} {word : BitVec 32}

structure Primed (a b : Instruction) : Prop where
  type : a.type = b.type
  name : a.name = b.name
  pc : a.pc = b.pc
  memAccType : a.memAccType = b.memAccType
  isBranch : a.isBranch = b.isBranch
  branchAddr : a.branchAddr = b.branchAddr
  mainExecutor : a.mainExecutor = b.mainExecutor
  imm : a.type ≠ .r → a.type ≠ .system → a.type ≠ .none → a.imm = b.imm
  rs1 : Decoder.readsRs1 a.type = true → a.rs1.value = b.rs1.value
  rs2 : Decoder.readsRs2 a.type = true → a.rs2.value = b.rs2.value
  rdName : a.type.writesRd = true → a.rd.name = b.rd.name
  loadSize : a.type = .i → a.loadSize = b.loadSize
  storeSize : a.type = .s → a.storeSize = b.storeSize

/-- Executed alike: memory access and write-back cannot tell them apart. -/
structure Alike (a b : Instruction) : Prop where
  type : a.type = b.type
  name : a.name = b.name
  pc : a.pc = b.pc
  memAccType : a.memAccType = b.memAccType
  target : a.target = b.target
  rdName : a.type.writesRd = true → a.rd.name = b.rd.name
  rdValue : a.type.writesRd = true → a.memAccType ≠ .read → a.rd.value = b.rd.value
  load : a.memAccType = .read → a.loadAddres = b.loadAddres ∧ a.loadSize = b.loadSize
  store : a.memAccType = .write → a.asStore = b.asStore

structure Same (a b : Instruction) : Prop where
  type : a.type = b.type
  name : a.name = b.name
  pc : a.pc = b.pc
  rdName : a.type.writesRd = true → a.rd.name = b.rd.name
  rdValue : a.type.writesRd = true → a.rd.value = b.rd.value

/-! ## Decode -/

theorem fill_primed (old old' : Instruction) (word pc : BitVec 32)
    {rs1 rs2 rd rs1' rs2' rd' : Register}
    (h1 : Decoder.readsRs1 (Decoder.recognize word).type = true → rs1.value = rs1'.value)
    (h2 : Decoder.readsRs2 (Decoder.recognize word).type = true → rs2.value = rs2'.value)
    (hrd : rd.name = rd'.name) :
    ({ Decoder.fill old word rs1 rs2 rd with pc := pc } : Instruction).Primed
      { Decoder.fill old' word rs1' rs2' rd' with pc := pc } := by
  cases htype : (Decoder.recognize word).type <;> rw [htype] at h1 h2 <;> constructor <;>
    simp_all [Decoder.fill, Decoder.finish, calcImm, Decoder.readsRs1, Decoder.readsRs2,
      InstrType.writesRd]

end Instruction

/-! ## Execute -/

theorem Decoder.Recognised.access {word : BitVec 32} (h : Recognised word) {e : Executor}
    (he : (recognize word).executor = some e) :
    ((recognize word).memAccType = .read ↔ e = .load) ∧
      ((recognize word).memAccType = .write ↔ e = .store) := by
  have hsound := recognize_sound word
  have hread : (recognize word).memAccType = .read → e = .load := by
    intro hacc
    obtain ⟨-, -, hload, -⟩ := hsound.read hacc
    rw [he] at hload
    exact Option.some.inj hload
  have hwrite : (recognize word).memAccType = .write → e = .store := by
    intro hacc
    obtain ⟨-, hstore⟩ := hsound.write hacc
    rw [he] at hstore
    exact Option.some.inj hstore
  rcases h with hname | hsystem
  · obtain ⟨e', he', hload, hstore⟩ := hsound.named hname
    rw [he, Option.some.injEq] at he'
    subst he'
    exact ⟨⟨hread, hload⟩, ⟨hwrite, hstore⟩⟩
  · have htype := (hsound.executor e he).1.trans hsystem
    refine ⟨⟨hread, ?_⟩, ⟨hwrite, ?_⟩⟩ <;>
      · rintro rfl
        cases htype

theorem Executor.call_alike (env : Env) (e : Executor) {a b a' b' : Instruction}
    (h : a.Primed b) (htype : a.type = e.type) (hbranch : e.jumps = true → a.isBranch = true)
    (hload : a.memAccType = .read ↔ e = .load) (hstore : a.memAccType = .write ↔ e = .store)
    (ha : e.call env a = .ok a') (hb : e.call env b = .ok b') : a'.Alike b' := by
  have htype' := h.type.symm.trans htype
  have hflag := h.isBranch
  obtain ⟨-, hname, hpc, hacc, -, haddr, -, himm, hrs1, hrs2, hrd, hloadSize, hstoreSize⟩ := h
  rw [htype] at himm hrs1 hrs2 hrd hloadSize hstoreSize
  cases e <;>
    simp [Executor.type, Executor.jumps, InstrType.writesRd, Decoder.readsRs1, Decoder.readsRs2]
      at htype htype' hbranch himm hrs1 hrs2 hrd hloadSize hstoreSize hload hstore <;>
    simp [Executor.call, Executors.LUI, Executors.AUIPC, Executors.JAL,
      Executors.JALR, Executors.BEQ, Executors.BNE, Executors.BLT, Executors.BGE,
      Executors.BLTU, Executors.BGEU, Executors.Store, Executors.Load,
      Executors.ADDI, Executors.SLTI, Executors.SLTIU, Executors.XORI,
      Executors.ORI, Executors.ANDI, Executors.SLLI, Executors.SRLI,
      Executors.SRAI, Executors.ADD, Executors.SUB, Executors.SLL,
      Executors.SLT, Executors.SLTU, Executors.XOR, Executors.SRL,
      Executors.SRA, Executors.OR, Executors.AND, Executors.ECALL,
      Executors.aluImm, Executors.aluReg, Executors.branchIf,
      Instruction.dynamicCast, Instruction.getImm, Instruction.getRs1,
      Instruction.getRs2, Instruction.setRdValue, Instruction.setBrTargetAddr,
      InstrType.writesRd, htype, htype', hbranch, ← hflag, bind, Except.bind,
      pure, Except.pure] at ha hb <;>
    subst ha hb <;> constructor <;>
      simp_all [Instruction.target, PerfSim.transfers, Instruction.asStore, InstrType.writesRd]

namespace Instruction

variable {env : Env} {a b b' : Instruction} {word : BitVec 32}

theorem Primed.executed (h : a.Primed b) (hrecognised : Decoder.Recognised word)
    (ha : a.Carries word) (hb : b.Carries word) : (a.executed env).Alike (b.executed env) := by
  have hsound := Decoder.recognize_sound word
  cases he : (Decoder.recognize word).executor with
  | some e =>
      have hexec (i : Instruction) (hi : i.Carries word) :
          e.call env i = .ok (i.executed env) := by
        rw [← hi.execute_eq, execute, hi.executor, he]
      obtain ⟨htype, hjumps⟩ := hsound.executor e he
      apply Executor.call_alike env e h (ha.type.trans htype.symm)
      case hbranch =>
        intro hjump
        rw [ha.isBranch]
        exact hjumps hjump
      case ha => exact hexec a ha
      case hb => exact hexec b hb
      all_goals rw [ha.memAccType]
      case hload => exact (hrecognised.access he).1
      case hstore => exact (hrecognised.access he).2
  | none =>
      -- only a SYSTEM word is recognised without an executor
      have hsystem : (Decoder.recognize word).type = .system := by
        rcases hrecognised with hname | hsystem
        · obtain ⟨e, he', -⟩ := hsound.named hname
          rw [he] at he'
          cases he'
        · exact hsystem
      have htype := ha.type.trans hsystem
      rw [ha.executed_system htype, hb.executed_system (hb.type.trans hsystem)]
      have hacc := ha.memAccType_system htype
      constructor
      case target => rw [ha.target_system htype, hb.target_system (hb.type.trans hsystem)]
      case rdName => exact h.rdName
      case rdValue => simp [htype, InstrType.writesRd]
      case load => simp [hacc]
      case store => simp [hacc]
      case type => exact h.type
      case name => exact h.name
      case pc => exact h.pc
      case memAccType => exact h.memAccType

/-! ## Memory access -/

theorem Alike.pending (h : a.Alike b) : a.pending = b.pending := by
  unfold Instruction.pending
  rw [h.memAccType, h.type]
  split_ifs with hstore
  · exact h.store (h.memAccType.trans hstore.1)
  · rfl

theorem Alike.loadEffect (env : Env) (clock : Nat) {memory : Memory} (h : a.Alike b)
    (ha : a.Carries word) (hb : Core.loadEffect env.direct 0 memory b = .ok b') :
    ∃ a', Core.loadEffect env clock memory a = .ok a' ∧ a'.Same b' := by
  have hbuffer : Core.loadEffect env clock memory a = Core.loadEffect env.direct 0 memory a :=
    Core.loadEffect_congr env env.direct clock memory ha
  rw [hbuffer]
  unfold Core.loadEffect at hb ⊢
  rw [h.memAccType, h.type]
  split_ifs at hb ⊢ with hload
  · obtain ⟨data, hread, hb⟩ := ok_of_bind hb
    obtain ⟨value, hextend, hb⟩ := ok_of_bind hb
    obtain ⟨haddr, hsize⟩ := h.load (h.memAccType.trans hload.1)
    rw [haddr, hsize, hread]
    have hextend' : PerfSim.extendLoaded a data = .ok value := by
      rw [← hextend, PerfSim.extendLoaded, PerfSim.extendLoaded, h.name, hsize]
    have hrd : b.type.writesRd = true := by rw [hload.2]; rfl
    have hrd' : a.type.writesRd = true := by rw [h.type, hrd]
    rw [setRdValue, if_pos hrd] at hb
    cases hb
    refine ⟨{ a with rd := { a.rd with value := value } }, ?_, ?_⟩
    · simp only [bind, Except.bind, hextend', setRdValue, if_pos hrd']
    · exact ⟨h.type, h.name, h.pc, h.rdName, fun _ => rfl⟩
  · cases hb
    refine ⟨a, rfl, h.type, h.name, h.pc, h.rdName, fun hrd => h.rdValue hrd fun hread => ?_⟩
    -- only an instruction of type I reads memory
    have htype := ((Decoder.recognize_sound word).read (ha.memAccType ▸ hread)).1
    exact hload ⟨h.memAccType.symm.trans hread, h.type.symm.trans (ha.type.trans htype)⟩

end Instruction

end RiscvPerfSim
