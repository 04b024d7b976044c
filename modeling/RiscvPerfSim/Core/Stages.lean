import RiscvPerfSim.Core.Objects
import RiscvPerfSim.Foundation.Loop

/-!
# One lemma for each stage

Each stage of the simulator, run from a state whose latches hold what they
should, in closed form: what it leaves in the latches, the registers and the
objects, in terms of the instructions that `PerfSim.core` reads out of them.
-/

namespace RiscvPerfSim

open Foundation

/-! ## Registers -/

theorem RegFile.write_eq_put (rf : RegFile) {reg : Register}
    (h : reg.name < Config.numRegs) : rf.write reg = .ok (rf.put reg) := by
  have hle : ¬ reg.name > Config.numRegs := Nat.not_lt.mpr (Nat.le_of_lt h)
  have hne : reg.name ≠ Config.numRegs := Nat.ne_of_lt h
  unfold write put
  split_ifs <;> rfl

theorem HazardUnit.write_eq (dp : Datapath) {instr : Instruction} {word : BitVec 32}
    (h : instr.Carries word) :
    HazardUnit.write dp instr = .ok { dp with rf := dp.rf.release instr } := by
  unfold HazardUnit.write RegFile.release Instruction.getRd
  cases hrd : instr.type.writesRd with
  | false => rfl
  | true =>
      have hname : instr.rd.name < Config.numRegs := by
        rw [h.rdName hrd]
        exact Decoder.numRd_lt word
      simp [bind, Except.bind, pure, Except.pure, RegFile.write_eq_put _ hname]

/-! ## Latches -/

namespace InstrLatch

variable {latch : InstrLatch} {decoder decoder' : Decoder} {age : Nat}

def moved (latch : InstrLatch) : InstrLatch :=
  if latch.isLive then { isStall := false, pc := latch.pc, instr := latch.instr } else clear

theorem isLive_iff : latch.isLive = true ↔
    latch.isStall = false ∧ latch.hazardStall = false := by
  simp [isLive]

@[simp] theorem moved_of_isStall (h : latch.isStall = true) : latch.moved = clear := by
  simp [moved, isLive, h]

@[simp] theorem moved_of_hazardStall (h : latch.hazardStall = true) :
    latch.moved = clear := by
  simp [moved, isLive, h]

theorem moved_of_live (hstall : latch.isStall = false)
    (hhazard : latch.hazardStall = false) :
    latch.moved = { isStall := false, pc := latch.pc, instr := latch.instr } := by
  simp [moved, isLive, hstall, hhazard]

theorem slotOf_of_isStall (decoder : Decoder) (h : latch.isStall = true) :
    latch.slotOf decoder = none := by
  simp [slotOf, h]

theorem slotOf_of_ptr (decoder : Decoder) {ptr : InstrPtr} (hstall : latch.isStall = false)
    (hptr : latch.instr = some ptr) :
    latch.slotOf decoder = some ⟨decoder.get ptr, latch.hazardStall⟩ := by
  simp [slotOf, hstall, hptr]

theorem instrOf_eq_slotOf (decoder : Decoder) (h : latch.hazardStall = false) :
    latch.instrOf decoder = (latch.slotOf decoder).map Slot.instr := by
  cases hstall : latch.isStall <;> cases hptr : latch.instr <;>
    simp [instrOf, slotOf, isLive, h, hstall, hptr]

end InstrLatch

namespace Decoder

def assign (decoder : Decoder) : Option InstrPtr → Option Instruction → Decoder
  | some ptr, some instr => decoder.set ptr instr
  | _, _ => decoder

@[simp] theorem assign_none (decoder : Decoder) (ptr : Option InstrPtr) :
    decoder.assign ptr none = decoder := by
  cases ptr <;> rfl

@[simp] theorem index_assign (decoder : Decoder) (ptr : Option InstrPtr)
    (instr : Option Instruction) (type : InstrType) :
    (decoder.assign ptr instr).index type = decoder.index type := by
  cases ptr <;> cases instr <;> simp [assign]

theorem get_assign_ne (decoder : Decoder) {ptr : Option InstrPtr} {ptr' : InstrPtr}
    (instr : Option Instruction) (h : ptr ≠ some ptr') :
    (decoder.assign ptr instr).get ptr' = decoder.get ptr' := by
  cases ptr with
  | none => rfl
  | some p =>
      cases instr with
      | none => rfl
      | some i =>
          have hne : ptr' ≠ p := by
            rintro rfl
            exact h rfl
          exact get_set_ne decoder i hne

end Decoder

namespace RegFile

variable (rf : RegFile) (instr : Instruction)

@[simp] theorem squash_none : rf.squash none = rf := rfl

@[simp] theorem squash_killed : rf.squash (some ⟨instr, true⟩) = rf.release instr := rfl

@[simp] theorem squash_live : rf.squash (some ⟨instr, false⟩) = rf := rfl

end RegFile

namespace PerfSim

variable {env : Env} {s : PerfSim}

@[simp] theorem core_de : s.core.de = s.deSt.load.slotOf s.decoder := rfl

@[simp] theorem core_em : s.core.em = s.emSt.load.slotOf s.decoder := rfl

@[simp] theorem core_mw : s.core.mw = s.mwSt.load.instrOf s.decoder := rfl

/-! ## Write-back -/

def afterWriteBack (s : PerfSim) : PerfSim :=
  { s with
    rf := s.core.wbRf
    ic := if s.core.mw.isSome then s.ic + 1 else s.ic
    isStop := s.isStop || s.core.mw.any fun instr => instr.name = .ecall
    trace := s.trace ++ s.core.mw.toList }

theorem writeBack_eq (hmw : s.mwSt.load.Holds s.decoder 3)
    (hhazard : s.mwSt.load.hazardStall = false) :
    s.writeBack = .ok s.afterWriteBack := by
  cases hstall : s.mwSt.load.isStall with
  | true =>
      simp [writeBack, afterWriteBack, core, InstrLatch.instrOf, InstrLatch.isLive,
        Core.wbRf, hstall]
  | false =>
      obtain ⟨ptr, word, hptr, -, hcarries, -⟩ := hmw hstall
      simp [writeBack, afterWriteBack, dumpInstruction, core, InstrLatch.instrOf,
        InstrLatch.isLive, Core.wbRf, hstall, hhazard, hptr, Decoder.deref,
        HazardUnit.write_eq _ hcarries, bind, Except.bind, pure, Except.pure]

/-! ## Memory access -/

/-- The pending slot of the queue holds this store; all older ones have drained. -/
structure Pending (pipeline : Pipeline) (store : Store) : Prop where
  queue : pipeline.queue = []
  addr : pipeline.store.addr = store.addr
  size : pipeline.store.size = store.size
  data : pipeline.store.data = store.data

def afterAccess (s : PerfSim) (accessed : Core.Accessed) (pipeline : Pipeline) :
    PerfSim :=
  { s with
    rf := s.rf.squash s.core.em
    decoder := s.decoder.assign s.emSt.load.instr accessed.mw
    mwSt := { s.mwSt with store := s.emSt.load.moved }
    memory := accessed.memory
    pipeline := pipeline }

private theorem push_eq (env : Env) {pipeline : Pipeline} {instr : Instruction}
    (hqueue : pipeline.queue = []) (hacc : instr.memAccType = .write)
    (htype : instr.type = .s) :
    ∃ pipeline', pipeline.push env instr = .ok pipeline' ∧
      Pending pipeline'
        { addr := toAddress instr.storeAddres
          size := toAddress instr.storeSize
          data := instr.rs2.value } := by
  refine ⟨{ pipeline with
    id := pipeline.id + 1
    store :=
      { addr := toAddress instr.storeAddres
        size := toAddress instr.storeSize
        data := instr.rs2.value
        id := pipeline.id + 1 } }, ?_, ⟨hqueue, rfl, rfl, rfl⟩⟩
  simp [Pipeline.push, hacc, Instruction.dynamicCast, htype, Pipeline.tryConcatenate,
    hqueue, Pipeline.concatLoop, bind, Except.bind, pure, Except.pure]

theorem mask_empty_and (data : BitVec 32) :
    Pipeline.mask (fun _ => false) &&& data = data := by
  have hmask : Pipeline.mask (fun _ => false) = BitVec.allOnes 32 := by decide
  rw [hmask, BitVec.allOnes_and]

theorem searchData_eq {pipeline : Pipeline} {instr : Instruction} (clock : Nat)
    (memory : Memory) (hqueue : pipeline.queue = []) (hacc : instr.memAccType = .read)
    (htype : instr.type = .i) :
    pipeline.searchData env clock memory instr =
      memory.read (env.undef.dData clock) (toAddress instr.loadAddres).toNat
        (toAddress instr.loadSize).toNat := by
  cases hread : memory.read (env.undef.dData clock) (toAddress instr.loadAddres).toNat
      (toAddress instr.loadSize).toNat <;>
    simp [Pipeline.searchData, hacc, Instruction.dynamicCast, htype, hqueue,
      Pipeline.searchLoop, mask_empty_and, hread, bind, Except.bind, pure, Except.pure]

private theorem storeAccess_agree (instr : Instruction) (hqueue : s.pipeline.queue = [])
    (hpending : s.pipeline.store = Store.clear) :
    Agree (fun s' (result : Memory × Store) =>
        ∃ pipeline, Pending pipeline result.2 ∧
          s' = { s with memory := result.1, pipeline := pipeline })
      (storeAccess env s instr) (Core.storeEffect env s.memory instr) := by
  unfold storeAccess Core.storeEffect
  split_ifs with hstore hsq
  · obtain ⟨pipeline, hpush, hp⟩ := push_eq env hqueue hstore.1 hstore.2
    simp only [hpush, bind, Except.bind, pure, Except.pure]
    exact ⟨pipeline, hp, rfl⟩
  · simp only [Instruction.dynamicCast, hstore.2, if_true, bind, Except.bind]
    cases s.memory.write (Word.byte instr.rs2.value)
        (toAddress instr.storeAddres).toNat (toAddress instr.storeSize).toNat with
    | error e => rfl
    | ok memory =>
        exact ⟨s.pipeline, ⟨hqueue, by simp [hpending], by simp [hpending],
          by simp [hpending]⟩, rfl⟩
  · exact ⟨s.pipeline, ⟨hqueue, by simp [hpending], by simp [hpending],
      by simp [hpending]⟩, rfl⟩

theorem loadAccess_eq (instr : Instruction) (hqueue : s.pipeline.queue = []) :
    loadAccess env s instr = Core.loadEffect env s.clocks s.memory instr := by
  unfold loadAccess Core.loadEffect Core.loadBuffer
  split_ifs with hload hsq
  · rw [searchData_eq s.clocks s.memory hqueue hload.1 hload.2]
    simp [Instruction.dynamicCast, hload.2, bind, Except.bind]
  · simp [Instruction.dynamicCast, hload.2, bind, Except.bind]
  · rfl

section MemoryAccess

private def accessing (s : PerfSim) : PerfSim :=
  { s with mwSt := s.mwSt.modifyStore fun mw => { mw with isStall := false } }

variable (hstop : s.mwSt.stopCount = 0) (hstore : s.mwSt.store = InstrLatch.clear)
include hstore

private theorem memoryAccess_bubble (hstall : s.emSt.load.isStall = true) :
    s.memoryAccess env = .ok (s.afterAccess ⟨none, s.memory, Store.clear⟩ s.pipeline) := by
  have hslot := InstrLatch.slotOf_of_isStall s.decoder hstall
  simp [memoryAccess, afterAccess, hslot, hstall, Stage.modifyStore, hstore,
    InstrLatch.clear]

private theorem memoryAccess_killed {ptr : InstrPtr} {word : BitVec 32}
    (hstall : s.emSt.load.isStall = false) (hkill : s.emSt.load.hazardStall = true)
    (hptr : s.emSt.load.instr = some ptr) (hcarries : (s.decoder.get ptr).Carries word) :
    s.memoryAccess env = .ok (s.afterAccess ⟨none, s.memory, Store.clear⟩ s.pipeline) := by
  have hslot := InstrLatch.slotOf_of_ptr s.decoder hstall hptr
  simp [memoryAccess, afterAccess, hslot, hstall, hkill, Stage.modifyStore, hstore,
    InstrLatch.clear, Decoder.deref, hptr, HazardUnit.write_eq _ hcarries, bind,
    Except.bind, pure, Except.pure]

include hstop

theorem memoryAccess_live {ptr : InstrPtr}
    (hstall : s.emSt.load.isStall = false) (hkill : s.emSt.load.hazardStall = false)
    (hptr : s.emSt.load.instr = some ptr) (hqueue : s.pipeline.queue = [])
    (hpending : s.pipeline.store = Store.clear) :
    Agree (fun s' accessed =>
        ∃ pipeline, Pending pipeline accessed.pending ∧
          s' = s.afterAccess accessed pipeline)
      (s.memoryAccess env) (s.core.memStage env) := by
  have hslot := InstrLatch.slotOf_of_ptr s.decoder hstall hptr
  have hmem : s.core.memStage env = (do
      let stored ← Core.storeEffect env s.memory (s.decoder.get ptr)
      let instr ← Core.loadEffect env s.clocks stored.1 (s.decoder.get ptr)
      return ⟨some instr, stored.1, stored.2⟩) := by
    simp [Core.memStage, hslot, hkill]
    rfl
  have hrun : s.memoryAccess env = (do
      let t ← storeAccess env s.accessing (s.decoder.get ptr)
      let instr ← loadAccess env t (s.decoder.get ptr)
      return { t with
        decoder := t.decoder.set ptr instr
        mwSt := t.mwSt.modifyStore fun mw =>
          { mw with instr := s.emSt.load.instr, pc := s.emSt.load.pc } }) := by
    simp [memoryAccess, accessing, hstall, hkill, Stage.modifyStore, Stage.isStop, hstop,
      Decoder.deref, hptr, bind, Except.bind]
  rw [hmem, hrun]
  refine (storeAccess_agree (s := s.accessing) _ hqueue hpending).bind ?_
  rintro _ ⟨memory, pending⟩ ⟨pipeline, hp, rfl⟩
  rw [loadAccess_eq _ hp.queue]
  have hclocks : s.accessing.clocks = s.clocks := rfl
  simp only [hclocks]
  cases hload : Core.loadEffect env s.clocks memory (s.decoder.get ptr) with
  | error e => simp [bind, Except.bind, Agree]
  | ok instr =>
      refine Agree.ok ⟨pipeline, hp, ?_⟩
      simp [afterAccess, accessing, hslot, hkill, Decoder.assign, hptr, Stage.modifyStore,
        hstore, InstrLatch.moved_of_live hstall hkill, InstrLatch.clear]

end MemoryAccess

theorem memoryAccess_agree (hstop : s.mwSt.stopCount = 0)
    (hstore : s.mwSt.store = InstrLatch.clear) (hqueue : s.pipeline.queue = [])
    (hpending : s.pipeline.store = Store.clear) (hem : s.emSt.load.Holds s.decoder 2) :
    Agree (fun s' accessed =>
        ∃ pipeline, Pending pipeline accessed.pending ∧
          s' = s.afterAccess accessed pipeline)
      (s.memoryAccess env) (s.core.memStage env) := by
  have hclear : Pending s.pipeline Store.clear :=
    ⟨hqueue, by rw [hpending], by rw [hpending], by rw [hpending]⟩
  cases hstall : s.emSt.load.isStall with
  | true =>
      have hslot := InstrLatch.slotOf_of_isStall s.decoder hstall
      rw [memoryAccess_bubble hstore hstall]
      simp only [Core.memStage, core_em, hslot]
      exact ⟨s.pipeline, hclear, rfl⟩
  | false =>
      obtain ⟨ptr, word, hptr, -, hcarries, -⟩ := hem hstall
      have hslot := InstrLatch.slotOf_of_ptr s.decoder hstall hptr
      cases hkill : s.emSt.load.hazardStall with
      | true =>
          rw [memoryAccess_killed hstore hstall hkill hptr hcarries]
          simp only [Core.memStage, core_em, hslot, hkill]
          exact ⟨s.pipeline, hclear, rfl⟩
      | false => exact memoryAccess_live hstop hstore hstall hkill hptr hqueue hpending

/-! ## Execute -/

def jumped (target : Option (BitVec 32)) (wf : WF) : WF :=
  match target with
  | some addr => { wf with isJump := true, pcJump := addr }
  | none => wf

def marked (mark : Bool) (latch : InstrLatch) : InstrLatch :=
  if mark then { latch with hazardStall := true } else latch

def markedFd (mark : Bool) (fd : FD) : FD :=
  if mark then { fd with hazardStall := true } else fd

def afterExecute (env : Env) (s : PerfSim) : PerfSim :=
  let c := s.core
  { s with
    rf := s.rf.squash c.de
    decoder := s.decoder.assign s.deSt.load.instr (c.executing env)
    emSt := { s.emSt with store := s.deSt.load.moved }
    fetchSt := (s.fetchSt.modifyStore (jumped (c.target env))).extend (c.exitStop env)
    fdSt := (s.fdSt.modifyStore (markedFd (c.target env).isSome)).extend (c.exitStop env)
    deSt := ((s.deSt.modifyStore (marked (c.target env).isSome)).modifyLoad
      (marked (c.exits env))).extend (c.exitStop env)
    hu := { s.hu with
      branches := if (c.target env).isSome then s.hu.branches + 1 else s.hu.branches } }

section Execute

variable (hstop : s.emSt.stopCount = 0) (hstore : s.emSt.store = InstrLatch.clear)
include hstore

private theorem execute_bubble (hstall : s.deSt.load.isStall = true) :
    s.execute env = .ok (s.afterExecute env) := by
  have hslot := InstrLatch.slotOf_of_isStall s.decoder hstall
  simp [execute, afterExecute, hslot, hstall, Stage.modifyStore, hstore,
    InstrLatch.clear, Core.executing, Core.target, Core.exits, Core.exitStop, jumped, marked,
    markedFd,
    Stage.modifyLoad, Stage.extend]

private theorem execute_killed {ptr : InstrPtr} {word : BitVec 32}
    (hstall : s.deSt.load.isStall = false) (hkill : s.deSt.load.hazardStall = true)
    (hptr : s.deSt.load.instr = some ptr) (hcarries : (s.decoder.get ptr).Carries word) :
    s.execute env = .ok (s.afterExecute env) := by
  have hslot := InstrLatch.slotOf_of_ptr s.decoder hstall hptr
  simp [execute, afterExecute, hslot, hstall, hkill, Stage.modifyStore, hstore,
    InstrLatch.clear, Core.executing, Core.target, Core.exits, Core.exitStop, jumped, marked,
    markedFd,
    Stage.modifyLoad, Stage.extend, Decoder.deref, hptr, HazardUnit.write_eq _ hcarries,
    bind, Except.bind, pure, Except.pure]

include hstop

private theorem execute_live {ptr : InstrPtr} {word : BitVec 32}
    (hstall : s.deSt.load.isStall = false) (hkill : s.deSt.load.hazardStall = false)
    (hptr : s.deSt.load.instr = some ptr) (hcarries : (s.decoder.get ptr).Carries word) :
    s.execute env = .ok (s.afterExecute env) := by
  have hslot := InstrLatch.slotOf_of_ptr s.decoder hstall hptr
  have hexecuting : s.core.executing env = some ((s.decoder.get ptr).executed env) := by
    simp [Core.executing, hslot, hkill]
  have hmoved := InstrLatch.moved_of_live hstall hkill
  simp only [execute, hstall, hkill, Stage.isStop, Stage.modifyStore, hstop, Decoder.deref,
    hptr, hcarries.execute_eq, bind, Except.bind, pure, Except.pure]
  generalize hx : (s.decoder.get ptr).executed env = instr at hexecuting
  cases htransfers : transfers instr with
  | false =>
      by_cases htype : instr.type = .system <;>
        simp [afterExecute, hexecuting, Core.target, Core.exits, Core.exitStop, marked, markedFd,
          Instruction.target, htransfers, htype, HazardUnit.exit, hslot, hkill, hmoved,
          hptr, Decoder.assign, jumped, Stage.modifyLoad, Stage.modifyStore,
          Stage.extend, hstore, hstop, InstrLatch.clear]
  | true =>
      have hbranch : instr.isBranch = true := by
        simp only [transfers, Bool.and_eq_true] at htransfers
        exact htransfers.1
      by_cases htype : instr.type = .system <;>
        simp [afterExecute, hexecuting, Core.target, Core.exits, Core.exitStop, marked, markedFd,
          Instruction.target, htransfers, htype, HazardUnit.branch,
          Instruction.getBrTargetAddr, hbranch, HazardUnit.exit, hslot, hkill, hmoved,
          hptr, Decoder.assign, jumped, Stage.modifyLoad, Stage.modifyStore,
          Stage.extend, hstore, hstop, InstrLatch.clear, bind, Except.bind, pure, Except.pure]

end Execute

theorem execute_eq (hstop : s.emSt.stopCount = 0) (hstore : s.emSt.store = InstrLatch.clear)
    (hde : s.deSt.load.Holds s.decoder 1) : s.execute env = .ok (s.afterExecute env) := by
  cases hstall : s.deSt.load.isStall with
  | true => exact execute_bubble hstore hstall
  | false =>
      obtain ⟨ptr, word, hptr, -, hcarries, -⟩ := hde hstall
      cases hkill : s.deSt.load.hazardStall with
      | true => exact execute_killed hstore hstall hkill hptr hcarries
      | false => exact execute_live hstop hstore hstall hkill hptr hcarries

end PerfSim

end RiscvPerfSim
