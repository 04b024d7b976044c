import RiscvPerfSim.Core.Encoding
import RiscvPerfSim.Core.Frontend
import RiscvPerfSim.Core.Safe

/-!
# Control transfer

Where the path goes on behind a branch or a jump: the executor's target and
its taken flag, `execute`, `HazardUnit::branch` and `fetch` put together.
-/

namespace RiscvPerfSim

open Foundation

/-! ## The executors -/

/-- The target that the executor computes; that of `JALR` keeps its lowest bit. -/
def Foundation.Rv32i.ControlOp.target (word pc a : BitVec 32) : Rv32i.ControlOp → BitVec 32
  | .branch _ => Rv32i.immB word + pc
  | .jal => Rv32i.immJ word + pc
  | .jalr => Rv32i.immI word + a

namespace Instruction

variable {env : Env} {instr : Instruction} {word : BitVec 32}

structure Resolved (instr : Instruction) (word : BitVec 32) (op : Rv32i.ControlOp)
    (done : Instruction) : Prop where
  transfers : PerfSim.transfers done = op.taken instr.rs1.value instr.rs2.value
  target : done.branchAddr = op.target word instr.pc instr.rs1.value
  link : op.links = true → done.rd.value = instr.pc + 4

section Execute

variable (h : instr.Shaped word)
include h

private theorem execute_branch (op : Rv32i.BranchOp)
    (hname : (Decoder.recognize word).name = op.name) :
    ∃ done, instr.execute env = .ok done ∧ instr.Resolved word (.branch op) done := by
  have hb : ∃ e, op.name.executor = some e ∧ e.type = .b ∧ e.jumps = true := by
    cases op <;> exact ⟨_, rfl, rfl, rfl⟩
  obtain ⟨e, he, hclass, hjumps⟩ := hb
  obtain ⟨hexecutor, htype, hbranch⟩ := h.executor_of_name hname he
  rw [hclass] at htype
  have himm := congrArg Instruction.imm h.imm
  simp only [calcImm, htype] at himm
  rw [immB_eq] at himm
  have hif (cond : BitVec 32 → BitVec 32 → Bool) : Executors.branchIf cond instr =
      .ok { instr with
        branchAddr := Rv32i.immB word + instr.pc
        brIsTaken := cond instr.rs1.value instr.rs2.value } := by
    simp [Executors.branchIf, dynamicCast, htype, setBrTargetAddr, hbranch hjumps, himm, bind,
      Except.bind, pure, Except.pure]
  have hdone (cond : BitVec 32 → BitVec 32 → Bool)
      (hcond : cond instr.rs1.value instr.rs2.value = op.taken instr.rs1.value instr.rs2.value) :
      ∃ done, Executors.branchIf cond instr = .ok done ∧
        instr.Resolved word (.branch op) done := by
    refine ⟨_, hif cond, ?_, rfl, fun hlinks => by cases hlinks⟩
    simp [PerfSim.transfers, hbranch hjumps, htype, hcond, Rv32i.ControlOp.taken]
  unfold execute
  rw [hexecutor]
  cases op <;> cases he
  case beq => exact hdone _ rfl
  case bne => exact hdone _ (Bool.eq_iff_iff.mpr (by simp [Rv32i.BranchOp.taken]))
  case blt => exact hdone _ rfl
  case bge => exact hdone (fun rs1 rs2 => rs2.sle rs1) rfl
  case bltu => exact hdone _ rfl
  case bgeu => exact hdone (fun rs1 rs2 => rs2.ule rs1) rfl

private theorem execute_jal (hname : (Decoder.recognize word).name = .jal) :
    ∃ done, instr.execute env = .ok done ∧ instr.Resolved word .jal done := by
  obtain ⟨hexecutor, htype, hbranch⟩ := h.executor_of_name hname rfl
  have himm := h.getImm
  rw [htype] at himm
  refine ⟨{ instr with
    branchAddr := Rv32i.immJ word + instr.pc
    rd := { instr.rd with value := instr.pc + 4 } }, ?_, ?_, rfl, fun _ => rfl⟩
  · simp [execute, hexecutor, Executor.call, Executors.JAL, dynamicCast, htype, himm,
      Executor.type, setBrTargetAddr, hbranch rfl, setRdValue, InstrType.writesRd, bind,
      Except.bind]
  · simp [PerfSim.transfers, hbranch rfl, htype, Executor.type, Rv32i.ControlOp.taken]

/-- The copy of `rs1` is read before `rd` is set, also where both are one register. -/
private theorem execute_jalr (hname : (Decoder.recognize word).name = .jalr) :
    ∃ done, instr.execute env = .ok done ∧ instr.Resolved word .jalr done := by
  obtain ⟨hexecutor, htype, hbranch⟩ := h.executor_of_name hname rfl
  have himm := h.getImm
  rw [htype] at himm
  refine ⟨{ instr with
    branchAddr := Rv32i.immI word + instr.rs1.value
    rd := { instr.rd with value := instr.pc + 4 } }, ?_, ?_, rfl, fun _ => rfl⟩
  · simp [execute, hexecutor, Executor.call, Executors.JALR, dynamicCast, htype, himm,
      Executor.type, getRs1, setBrTargetAddr, hbranch rfl, setRdValue, InstrType.writesRd, bind,
      Except.bind]
  · simp [PerfSim.transfers, hbranch rfl, htype, Executor.type, Rv32i.ControlOp.taken]

theorem Shaped.execute_control (env : Env) (op : Rv32i.ControlOp)
    (hname : (Decoder.recognize word).name = op.name) :
    ∃ done, instr.execute env = .ok done ∧ instr.Resolved word op done := by
  cases op with
  | branch op => exact execute_branch h op hname
  | jal => exact execute_jal h hname
  | jalr => exact execute_jalr h hname

end Execute

end Instruction

private theorem and_not_one_iff (x : BitVec 32) : x = x &&& ~~~1#32 ↔ x.getLsbD 0 = false := by
  constructor
  · intro h
    rw [h]
    simp
  · intro h
    apply BitVec.eq_of_getLsbD_eq
    intro i hi
    rcases Nat.eq_zero_or_pos i with rfl | hpos
    · simp only [BitVec.getLsbD_and, h, Bool.false_and]
    · have hone : (1#32).getLsbD i = false := by
        rw [BitVec.getLsbD_one]
        simp [Nat.pos_iff_ne_zero.mp hpos]
      simp only [BitVec.getLsbD_and, BitVec.getLsbD_not, hi, hone, decide_true, Bool.not_false,
        Bool.and_true]

theorem Foundation.Rv32i.ControlOp.target_eq_next_iff {op : Rv32i.ControlOp}
    {word pc a b : BitVec 32} (htaken : op.taken a b = true) :
    op.target word pc a = op.next word pc a b ↔
      (op = .jalr → (a + Rv32i.immI word).getLsbD 0 = false) := by
  cases op with
  | branch op =>
      change op.taken a b = true at htaken
      simp [target, next, Rv32i.BranchOp.next, htaken, BitVec.add_comm]
  | jal => simp [target, next, BitVec.add_comm]
  | jalr =>
      rw [target, next, Rv32i.jalrNext, BitVec.add_comm, and_not_one_iff]
      exact ⟨fun h _ => h, fun h => h rfl⟩

namespace PerfSim

variable {env : Env} {s u : PerfSim} {ptr : InstrPtr} {instr done : Instruction}

/-! ## Execute, the hazard unit and fetch -/

structure Executing (s : PerfSim) (ptr : InstrPtr) (instr : Instruction) : Prop where
  stall : s.deSt.load.isStall = false
  hazard : s.deSt.load.hazardStall = false
  latch : s.deSt.load.instr = some ptr
  object : s.decoder.get ptr = instr
  running : s.emSt.stopCount = 0
  wf : (s.fetchSt.store.isStall || s.fetchSt.store.hazardStall) = false
  fresh : s.fetchSt.store.isJump = false

theorem Good.executing (hgood : s.Good) (h : s.deSt.load.instrOf s.decoder = some instr) :
    ∃ ptr, s.Executing ptr instr := by
  obtain ⟨hstall, hhazard, ptr, hptr, hget⟩ :=
    InstrLatch.slotOf_eq_some (InstrLatch.slotOf_of_instrOf h)
  have hexec : s.core.executing .plain = some (instr.executed .plain) := by
    rw [executing_core, h]
    rfl
  exact ⟨ptr, hstall, hhazard, hptr, hget, hgood.latches.emStop, hgood.latches.fetchStore,
    hgood.isJump_eq_false hexec⟩

theorem Executing.execute (h : s.Executing ptr instr) (hexec : instr.execute env = .ok done) :
    ∃ u, s.execute env = .ok u ∧ u.decoder.get ptr = done ∧
      u.fetchSt.store = jumped done.target s.fetchSt.store := by
  obtain ⟨hstall, hhazard, hlatch, rfl, hrunning, -, -⟩ := h
  cases htransfers : transfers done with
  | false =>
      by_cases htype : done.type = .system <;>
        simp [PerfSim.execute, hstall, hhazard, hlatch, hrunning, Stage.isStop,
          Stage.modifyStore, Decoder.deref, hexec, htransfers, htype, HazardUnit.exit,
          Stage.extend, Instruction.target, jumped, bind, Except.bind, pure, Except.pure]
  | true =>
      have hbranch : done.isBranch = true := by
        simp only [transfers, Bool.and_eq_true] at htransfers
        exact htransfers.1
      by_cases htype : done.type = .system <;>
        simp [PerfSim.execute, hstall, hhazard, hlatch, hrunning, Stage.isStop,
          Stage.modifyStore, Decoder.deref, hexec, htransfers, htype, HazardUnit.exit,
          HazardUnit.branch, Instruction.getBrTargetAddr, hbranch,
          Stage.extend, Instruction.target, jumped, bind, Except.bind, pure, Except.pure]

theorem fetch_reads {t t' : PerfSim} (h : t.fetch = .ok t') {addr : BitVec 32}
    (haddr : t.fetchAddr = some addr) :
    t'.fdSt.store.pc = addr ∧ t.memory.read 0 addr.toNat 4 = .ok t'.fdSt.store.instr := by
  unfold fetchAddr at haddr
  dsimp only at haddr
  split at haddr
  · cases haddr
  · rename_i hstop
    cases haddr
    unfold fetch at h
    dsimp only at h
    rw [show Stage.isStop (t.fdSt.modifyStore _) = t.fdSt.isStop from rfl, if_neg hstop] at h
    obtain ⟨word, hread, h⟩ := ok_of_bind h
    cases h
    exact ⟨rfl, hread⟩

/-- Where the path goes on behind `pc`: where `fetch` reads once a recorded redirect has been
swapped in, and at the next word without one. -/
def Resumes (u : PerfSim) (pc next : BitVec 32) : Prop :=
  if u.fetchSt.store.isJump then
    ∀ t : PerfSim, t.fetchSt.load = u.fetchSt.store → t.fdSt.isStop = false →
      t.fetchAddr = some next
  else next = pc + 4

structure Resolves (u : PerfSim) (ptr : InstrPtr) (op : Rv32i.ControlOp)
    (word pc a b : BitVec 32) : Prop where
  taken : u.fetchSt.store.isJump = op.taken a b
  next : u.Resumes pc (op.next word pc a b)
  link : op.links = true → (u.decoder.get ptr).rd.value = pc + 4

section Behind

variable {op : Rv32i.ControlOp} {word : BitVec 32}

private theorem resumes_iff (hstore : u.fetchSt.store = jumped done.target s.fetchSt.store)
    (hwf : (s.fetchSt.store.isStall || s.fetchSt.store.hazardStall) = false)
    (htransfers : transfers done = true) (pc next : BitVec 32) :
    u.Resumes pc next ↔ done.branchAddr = next := by
  have htarget : done.target = some done.branchAddr := by
    rw [Instruction.target, if_pos htransfers]
  rw [htarget] at hstore
  have haddr (t : PerfSim) (hload : t.fetchSt.load = u.fetchSt.store)
      (hstop : t.fdSt.isStop = false) : t.fetchAddr = some done.branchAddr := by
    simp [fetchAddr, hload, hstore, jumped, hwf, hstop]
  have hjump : u.fetchSt.store.isJump = true := by
    rw [hstore]
    rfl
  rw [Resumes, if_pos hjump]
  constructor
  · intro h
    have hnext := h { u with
      fetchSt := { u.fetchSt with load := u.fetchSt.store }
      fdSt := { u.fdSt with stopCount := 0 } } rfl rfl
    rw [haddr _ rfl rfl, Option.some.injEq] at hnext
    exact hnext
  · rintro rfl t hload hstop
    exact haddr t hload hstop

theorem Executing.resolves_iff (h : s.Executing ptr instr) (hshaped : instr.Shaped word)
    (hname : (Decoder.recognize word).name = op.name) :
    (∃ u, s.execute env = .ok u ∧
        u.Resolves ptr op word instr.pc instr.rs1.value instr.rs2.value) ↔
      (op = .jalr → (instr.rs1.value + Rv32i.immI word).getLsbD 0 = false) := by
  obtain ⟨done, hexec, htransfers, htarget, hlink⟩ := hshaped.execute_control env op hname
  obtain ⟨u, hu, hdone, hstore⟩ := h.execute hexec
  have hlinks : op.links = true → (u.decoder.get ptr).rd.value = instr.pc + 4 := by
    rw [hdone]
    exact hlink
  cases htaken : op.taken instr.rs1.value instr.rs2.value with
  | false =>
      rw [htaken] at htransfers
      have hjump : u.fetchSt.store.isJump = false := by
        simp [hstore, Instruction.target, htransfers, jumped, h.fresh]
      have hnext := Rv32i.ControlOp.next_of_not_taken htaken word instr.pc
      refine ⟨fun _ hjalr => ?_, fun _ => ⟨u, hu, ?_, ?_, hlinks⟩⟩
      · subst hjalr
        cases htaken
      · rw [hjump, htaken]
      · rw [Resumes, hjump, hnext, if_neg (by decide)]
  | true =>
      rw [htaken] at htransfers
      have hjump : u.fetchSt.store.isJump = true := by
        simp [hstore, Instruction.target, htransfers, jumped]
      have hresumes := resumes_iff hstore h.wf htransfers
      rw [← Rv32i.ControlOp.target_eq_next_iff htaken, ← htarget, ← hresumes]
      constructor
      · rintro ⟨u', hu', hresolves⟩
        rw [hu] at hu'
        cases hu'
        exact hresolves.next
      · intro hnext
        exact ⟨u, hu, by rw [hjump, htaken], hnext, hlinks⟩

/-- Behind a decoded branch or jump the path goes on where it has to, but for an odd `JALR`. -/
theorem control_iff {dp dp' : Datapath} {p : InstrPtr} {pc : BitVec 32}
    (hdecode : Decoder.decode env dp word = .ok (dp', p))
    (h : s.Executing ptr ((dp'.decoder.get p).setPc pc))
    (hname : (Decoder.recognize word).name = op.name) :
    (∃ u, s.execute env = .ok u ∧ u.Resolves ptr op word pc (dp'.decoder.get p).rs1.value
        (dp'.decoder.get p).rs2.value) ↔
      (op = .jalr →
        ((dp'.decoder.get p).rs1.value + Rv32i.immI word).getLsbD 0 = false) :=
  h.resolves_iff (Decoder.decode_shaped hdecode pc) hname

end Behind

def inExecute (dp : Datapath) (p : InstrPtr) (pc : BitVec 32) : PerfSim :=
  let s := bootWords 64 []
  { s with
    toDatapath := { s.toDatapath with
      decoder := dp.decoder.set p ((dp.decoder.get p).setPc pc)
      deSt :=
        { store := InstrLatch.clear
          load := { isStall := false, pc := pc, instr := some p } } } }

theorem inExecute_executing (dp : Datapath) (p : InstrPtr) (pc : BitVec 32) :
    (inExecute dp p pc).Executing p ((dp.decoder.get p).setPc pc) :=
  ⟨rfl, rfl, rfl, Decoder.get_set_self .., rfl, rfl, rfl⟩

def oddTarget : Datapath :=
  (boot { size := 64, bytes := fun _ => 0 } 0 fun num => if num = 1 then 5 else 0).toDatapath

/-- `JALR x0, 0(x1)` at 0 with `x1 = 5` goes on at 5 and not at 4. -/
theorem oddTarget_kept : ∃ dp' p u, Decoder.decode .plain oddTarget 0x00008067 = .ok (dp', p) ∧
    (inExecute dp' p 0).execute .plain = .ok u ∧ u.fetchSt.store.pcJump = 5 ∧
    ¬ u.Resolves p .jalr 0x00008067 0 (dp'.decoder.get p).rs1.value
      (dp'.decoder.get p).rs2.value := by
  have hdecode : ∃ dp' p, Decoder.decode .plain oddTarget 0x00008067 = .ok (dp', p) ∧
      (dp'.decoder.get p).rs1.value = 5 :=
    ⟨_, _, rfl, rfl⟩
  obtain ⟨dp', p, hdecode, hrs1⟩ := hdecode
  have hshaped := Decoder.decode_shaped hdecode 0
  obtain ⟨done, hexec, htransfers, htarget, -⟩ :=
    hshaped.execute_control .plain (.jalr) rfl
  obtain ⟨u, hu, -, hstore⟩ := (inExecute_executing dp' p 0).execute hexec
  have hpc : u.fetchSt.store.pcJump = 5 := by
    have hjump : done.target = some done.branchAddr := by
      exact if_pos htransfers
    rw [hstore, hjump, htarget]
    change Rv32i.immI 0x00008067 + (dp'.decoder.get p).rs1.value = 5
    rw [hrs1]
    rfl
  refine ⟨dp', p, u, hdecode, hu, hpc, fun h => ?_⟩
  have heven := ((inExecute_executing dp' p 0).resolves_iff hshaped rfl).mp ⟨u, hu, h⟩ rfl
  rw [show ((dp'.decoder.get p).setPc 0).rs1.value = 5 from hrs1] at heven
  cases heven

/-- `BEQ x1, x0, 8` at 4, with `x1 = 5`, goes on at 8. -/
theorem control_iff_beq : ∃ dp' p,
    Decoder.decode .plain oddTarget 0x00008463 = .ok (dp', p) ∧
    ((∃ u, (inExecute dp' p 4).execute .plain = .ok u ∧
        u.Resolves p (.branch .beq) 0x00008463 4 (dp'.decoder.get p).rs1.value
          (dp'.decoder.get p).rs2.value) ↔
      (Rv32i.ControlOp.branch .beq = .jalr →
        ((dp'.decoder.get p).rs1.value + Rv32i.immI 0x00008463).getLsbD 0 = false)) := by
  have hdecode : ∃ dp' p, Decoder.decode .plain oddTarget 0x00008463 = .ok (dp', p) :=
    ⟨_, _, rfl⟩
  obtain ⟨dp', p, hdecode⟩ := hdecode
  exact ⟨dp', p, hdecode, control_iff hdecode (inExecute_executing dp' p 4) rfl⟩

end PerfSim

end RiscvPerfSim
