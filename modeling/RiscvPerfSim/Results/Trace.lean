import RiscvPerfSim.Core.TraceLine
import RiscvPerfSim.Results.History

/-!
# What the trace file tells

The file can be read back, whatever a run does, and the lines alone lead to the
registers and the memory that the run has.
-/

namespace RiscvPerfSim

open Foundation

/-! ## What a line does -/

def InstrName.storeWidth : InstrName → BitVec 64
  | .sb => 1
  | .sh => 2
  | .sw => 4
  | _ => 0

namespace Recognized

/-- What accesses memory as a store is named after its width, and nothing else is. -/
def StoresByName (found : Recognized) : Prop :=
  (if found.memAccType = .write then toAddress found.accSize else 0) = found.name.storeWidth

end Recognized

namespace Decoder

section StoresByName

variable (funct3 : BitVec 3) (funct7 : BitVec 7)

private theorem recognizeBranch_storesByName : (recognizeBranch funct3).StoresByName := by
  unfold recognizeBranch
  dsimp only
  split_ifs <;> rfl

private theorem recognizeLoad_storesByName : (recognizeLoad funct3).StoresByName := by
  unfold recognizeLoad
  dsimp only
  split_ifs <;> rfl

private theorem recognizeStore_storesByName : (recognizeStore funct3).StoresByName := by
  unfold recognizeStore
  dsimp only
  split_ifs <;> rfl

private theorem recognizeOpImm_storesByName : (recognizeOpImm funct3 funct7).StoresByName := by
  unfold recognizeOpImm
  dsimp only
  split_ifs <;> rfl

private theorem recognizeOp_storesByName : (recognizeOp funct3 funct7).StoresByName := by
  unfold recognizeOp recognizeOpPair recognizeOpPlain
  split_ifs <;> rfl

end StoresByName

theorem recognize_storesByName (word : BitVec 32) : (recognize word).StoresByName := by
  unfold recognize
  dsimp only
  split
  · rfl
  split
  · rfl
  split
  · rfl
  split
  · rfl
  split
  · exact recognizeBranch_storesByName _
  split
  · exact recognizeLoad_storesByName _
  split
  · exact recognizeStore_storesByName _
  split
  · exact recognizeOpImm_storesByName _ _
  split
  · exact recognizeOp_storesByName _ _
  split
  · split <;> rfl
  · rfl

end Decoder

structure Replay where
  regs : Rv32i.Reg → BitVec 32
  memory : Memory

namespace TraceLine

/-- The store that a line shows, of no byte at all if it shows none. -/
def store (line : TraceLine) : Store :=
  match line.rs1, line.rs2, line.imm with
  | some rs1, some rs2, some imm =>
      { addr := toAddress (imm + rs1.2), size := line.name.storeWidth, data := rs2.2 }
  | _, _, _ => Store.clear

def replay (state : Replay) (line : TraceLine) : Replay where
  regs := fun r =>
    match line.rd with
    | some rd => if rd.1 = r ∧ r ≠ 0 then rd.2 else state.regs r
    | none => state.regs r
  memory := line.store.drained state.memory

end TraceLine

namespace Instruction

variable {env : Env} {instr i : Instruction} {word : BitVec 32}

structure Addressed (instr : Instruction) : Prop where
  decoded : instr.Decoded
  address : instr.memAccType = .write → instr.storeAddres = instr.imm + instr.rs1.value

theorem Labelled.addressed (env : Env) (h : i.Labelled word) : (i.executed env).Addressed where
  decoded := ⟨word, .of_fixed h.carries.executed_fixed h⟩
  address := by
    rw [memAccType_of_fixed h.carries.executed_fixed]
    intro hwrite
    obtain ⟨htype, hexecutor⟩ :=
      (Decoder.recognize_sound word).write (h.carries.memAccType ▸ hwrite)
    rw [← h.carries.type] at htype
    rw [← h.carries.executor] at hexecutor
    have hexec : i.execute env = .ok { i with storeAddres := i.imm + i.rs1.value } := by
      simp [execute, hexecutor, Executor.call, Executors.Store, dynamicCast, htype, getImm,
        getRs1, bind, Except.bind, pure, Except.pure]
    rw [executed, hexec]

theorem Addressed.loaded {clock : Nat} {memory : Memory} (h : i.Addressed)
    (hload : Core.loadEffect env clock memory i = .ok instr) : instr.Addressed where
  decoded := h.decoded.of_fixed (Core.loadEffect_fixed hload)
  address := by
    have hacc := memAccType_of_fixed (Core.loadEffect_fixed hload)
    intro hwrite
    rw [Core.loadEffect_of_ne (by rw [← hacc, hwrite]; decide), Except.ok.injEq] at hload
    rw [← hload] at hwrite ⊢
    exact h.address hwrite

theorem size_store_of_unnamed (h : instr.name = .none) : instr.line.store.size = 0 := by
  unfold TraceLine.store
  split
  · change instr.name.storeWidth = 0
    rw [h]
    rfl
  · rfl

theorem Addressed.store_line (h : instr.Addressed) (memory : Memory) :
    instr.line.store.drained memory = instr.pending.drained memory := by
  obtain ⟨word, hlabelled⟩ := h.decoded
  have hcarries := hlabelled.carries
  have hwidth : (if instr.memAccType = .write then toAddress (Decoder.recognize word).accSize
      else 0) = instr.name.storeWidth := by
    rw [hcarries.memAccType, hcarries.name]
    exact Decoder.recognize_storesByName word
  by_cases hwrite : instr.memAccType = .write
  · have htype : instr.type = .s := by
      rw [hcarries.type]
      exact ((Decoder.recognize_sound word).write (hcarries.memAccType ▸ hwrite)).1
    rw [if_pos hwrite, ← hcarries.storeSize htype] at hwidth
    have hstore : instr.line.store = instr.asStore := by
      simp only [TraceLine.store, line, shown, htype, Decoder.readsRs1, Decoder.readsRs2, showsImm,
        if_true]
      rw [asStore, h.address hwrite, hwidth]
    rw [hstore, pending, if_pos ⟨hwrite, htype⟩]
  · rw [if_neg hwrite] at hwidth
    have hnone : instr.line.store.size = 0 := by
      unfold TraceLine.store
      split
      · exact hwidth.symm
      · rfl
    rw [pending, if_neg fun hboth => hwrite hboth.1, Store.drained, hnone]
    rfl

theorem Labelled.regs_replay (h : instr.Labelled word) (state : Replay) (r : Rv32i.Reg) :
    (TraceLine.replay state instr.line).regs r =
      Core.settle (some instr) r.toNat (state.regs r) := by
  have hzero : r ≠ 0 ↔ r.toNat ≠ 0 := BitVec.toNat_ne_iff_ne.symm
  by_cases hwrites : instr.type.writesRd = true
  · have hname : instr.rd.name < 32 := h.carries.rdName hwrites ▸ Decoder.numRd_lt word
    have hiff : BitVec.ofNat 5 instr.rd.name = r ↔ instr.rd.name = r.toNat := by
      rw [← BitVec.toNat_inj, BitVec.toNat_ofNat, Nat.mod_eq_of_lt hname]
    simp only [TraceLine.replay, line, shown, hwrites, if_true, Core.settle, writes, Bool.true_and,
      decide_eq_true_eq]
    exact if_congr (and_congr hiff hzero) rfl rfl
  · simp [TraceLine.replay, line, Core.settle, writes, hwrites]

end Instruction

namespace PerfSim

variable {env : Env} {memory : Memory} {pc : BitVec 32} {values : RegName → BitVec 32}
  {s : PerfSim} {G : PerfSim → Prop}

/-! ## The file of a run -/

theorem addressed_advance {accessed : Core.Accessed} {decoded : Core.Decoded} {word : BitVec 32}
    {memory' : Memory} (hgood : s.Good)
    (h : Core.Stepped env s.leftover s.core accessed decoded word memory')
    (hall : s.core.Throughout Instruction.Decoded Instruction.Addressed) :
    (s.core.advance env accessed decoded word memory').Throughout
      Instruction.Decoded Instruction.Addressed := by
  refine .advance hgood.pipeline h (fun instr hinstr => ?_) (fun i _ hi => ?_)
    (fun i i' _ _ hi hload => hi.loaded hload) hall
  · obtain ⟨fetched, -, hlabelled, -⟩ :=
      Core.decodeStage_labelled hgood.pipeline h.access h.decode hinstr
    exact ⟨fetched.word, hlabelled⟩
  · obtain ⟨w, hlabelled⟩ := hi
    exact hlabelled.addressed env

theorem addressed_history (h : (loop env).Reaches G (boot memory pc values) s) :
    s.core.Throughout Instruction.Decoded Instruction.Addressed :=
  core_invariant (P := Core.Throughout _ _)
    (fun hgood _ _ hstepped hall => addressed_advance hgood hstepped hall) (.boot ..) h

/-- The trace file of every run is written without an exception, and can be read back at every
moment: it gives the entries of the instructions that have retired, in their order.  That the
widths of its columns are not negative is `columns_fit`. -/
theorem trace_readable (h : (loop env).Reaches (fun _ => True) (boot memory pc values) s) :
    ∃ text, traceFile s.trace = .ok text ∧
      TraceLine.parse text = some (s.trace.filterMap Instruction.entry) := by
  have hdecoded : ∀ instr ∈ s.trace, instr.Decoded := fun instr hinstr =>
    ((addressed_history h).retired instr hinstr).decoded
  exact ⟨_, traceFile_eq hdecoded, parse_of_traceFile hdecoded (traceFile_eq hdecoded)⟩

theorem trace_readable_storeLoop : ∃ s text, runFor .plain 15 storeLoop = .ok s ∧
    traceFile s.trace = .ok text ∧
      TraceLine.parse text = some (s.trace.filterMap Instruction.entry) := by
  obtain ⟨s, hrun, hreaches⟩ := reaches_of_tests (fun _ => true) (fun _ _ _ => trivial)
    (.boot .plain _ _ _) (by decide +kernel : checkAfter .plain 15 storeLoop _ = true)
    (by decide +kernel)
  obtain ⟨text, hfile, hparse⟩ := trace_readable hreaches
  exact ⟨s, text, hrun, hfile, hparse⟩

/-! ## Replaying the file -/

/-- An instruction that retires without a name has no destination. -/
def NamedWriters (s : PerfSim) : Prop :=
  ∀ instr, s.core.mw = some instr → instr.name = .none → instr.type.writesRd = false

def replay (start : Replay) (instrs : List Instruction) : Replay :=
  (instrs.filterMap Instruction.entry).foldl TraceLine.replay start

theorem replay_append (start : Replay) (instrs later : List Instruction) :
    replay start (instrs ++ later) = replay (replay start instrs) later := by
  rw [replay, List.filterMap_append, List.foldl_append]
  rfl

theorem replay_named {instr : Instruction} (start : Replay) (h : instr.name ≠ .none) :
    replay start [instr] = TraceLine.replay start instr.line := by
  simp [replay, Instruction.entry, h]

theorem replay_unnamed {instr : Instruction} (start : Replay) (h : instr.name = .none) :
    replay start [instr] = start := by
  simp [replay, Instruction.entry, h]

section Retires

variable {mw : Option Instruction} (start : Replay)

theorem regs_replay (haddressed : ∀ instr, mw = some instr → instr.Addressed)
    (hnamed : ∀ instr, mw = some instr → instr.name = .none → instr.type.writesRd = false)
    (r : Rv32i.Reg) :
    (replay start mw.toList).regs r = Core.settle mw r.toNat (start.regs r) := by
  cases mw with
  | none => rfl
  | some instr =>
      obtain ⟨word, hword⟩ := (haddressed instr rfl).decoded
      rw [Option.toList_some]
      by_cases hname : instr.name = .none
      · rw [replay_unnamed start hname, Core.settle_of_not_writes]
        simp [Instruction.writes, hnamed instr rfl hname]
      · rw [replay_named start hname, hword.regs_replay]

theorem memory_replay {instr : Instruction} (haddressed : instr.Addressed) :
    (replay start [instr]).memory = instr.pending.drained start.memory := by
  by_cases hname : instr.name = .none
  · rw [replay_unnamed start hname, ← haddressed.store_line, Store.drained,
      Instruction.size_store_of_unnamed hname]
    rfl
  · rw [replay_named start hname]
    exact haddressed.store_line start.memory

end Retires

/-- Registers behind the retired instructions, memory behind those that have accessed it. -/
structure Replayed (start : Replay) (c : Core) : Prop where
  regs : ∀ r : Rv32i.Reg, (c.rf.regs r.toNat).value = (replay start c.trace).regs r
  memory : c.memory = (replay start (c.trace ++ c.mw.toList)).memory

theorem replayed_advance {start : Replay} {accessed : Core.Accessed} {decoded : Core.Decoded}
    {word : BitVec 32} {memory' : Memory} (hgood : s.Good) (hfresh : s.FreshDiscards)
    (hnamed : s.NamedWriters)
    (hstepped : Core.Stepped env s.leftover s.core accessed decoded word memory')
    (hall : s.core.Throughout Instruction.Decoded Instruction.Addressed)
    (hnext : (s.core.advance env accessed decoded word memory').Throughout
      Instruction.Decoded Instruction.Addressed)
    (h : Replayed start s.core) :
    Replayed start (s.core.advance env accessed decoded word memory') where
  regs := by
    intro r
    change (decoded.rf.regs r.toNat).value =
      (replay start (s.core.trace ++ s.core.mw.toList)).regs r
    rw [Core.decodeStage_regs hstepped.decode, hgood.regs_exRf hfresh, Core.value_wbRf, h.regs,
      replay_append, regs_replay _ hall.accessed hnamed]
  memory := by
    change memory' = (replay start ((s.core.trace ++ s.core.mw.toList) ++
      accessed.mw.toList)).memory
    rw [replay_append]
    cases hmw : accessed.mw with
    | none => exact (hstepped.memory_of_idle hmw).trans h.memory
    | some instr =>
        rw [Option.toList_some, memory_replay _ (hnext.accessed instr hmw), ← h.memory]
        exact (hstepped.serves hgood.pipeline hmw).stores

/-- The trace file is all that is needed to know what a run has done so far: from the initial state
its lines lead to the registers, and to the memory once nothing is about to retire. -/
theorem trace_replays (h : (loop env).Reaches (fun s => s.FreshDiscards ∧ s.NamedWriters)
      (boot memory pc values) s) :
    ∃ text lines, traceFile s.trace = .ok text ∧ TraceLine.parse text = some lines ∧
      let start : Replay := ⟨fun r => ((bootRegs values).regs r.toNat).value, memory⟩
      (∀ r : Rv32i.Reg, (s.rf.regs r.toNat).value = (lines.foldl TraceLine.replay start).regs r) ∧
        (s.mwSt.load.instrOf s.decoder = none →
          s.memory = (lines.foldl TraceLine.replay start).memory) := by
  let start : Replay := ⟨fun r => ((bootRegs values).regs r.toNat).value, memory⟩
  have hdecoded : ∀ instr ∈ s.trace, instr.Decoded := fun instr hinstr =>
    ((addressed_history h).retired instr hinstr).decoded
  refine ⟨_, s.trace.filterMap Instruction.entry, traceFile_eq hdecoded,
    parse_of_traceFile hdecoded (traceFile_eq hdecoded), ?_⟩
  have hcore : s.core.Throughout Instruction.Decoded Instruction.Addressed ∧
      Replayed start s.core := by
    refine core_invariant (P := fun c => c.Throughout Instruction.Decoded
      Instruction.Addressed ∧ Replayed start c) ?_ ⟨.boot .., fun _ => rfl, rfl⟩ h
    rintro s accessed decoded word memory' hgood - ⟨hfresh, hnamed⟩ hstepped ⟨hall, hreplays⟩
    have hnext := addressed_advance hgood hstepped hall
    exact ⟨hnext, replayed_advance hgood hfresh hnamed hstepped hall hnext hreplays⟩
  obtain ⟨-, hregs, hmemory⟩ := hcore
  refine ⟨hregs, fun hmw => ?_⟩
  rw [show s.core.mw = none from hmw, Option.toList_none, List.append_nil] at hmemory
  exact hmemory

def namedTest (s : PerfSim) : Bool :=
  (s.mwSt.load.instrOf s.decoder).all fun instr =>
    decide (instr.name ≠ .none) || !instr.type.writesRd

theorem namedWriters_of_test (h : s.namedTest = true) : s.NamedWriters := by
  intro instr hmw hname
  have htest := (Option.all_eq_true _ _).mp h instr hmw
  simpa [hname] using htest

theorem trace_replays_storeLoop : ∃ s text lines, runFor .plain 30 storeLoop = .ok s ∧
    s.isStop = true ∧ traceFile s.trace = .ok text ∧ TraceLine.parse text = some lines ∧
      let start : Replay := ⟨fun r => ((bootRegs fun _ => 0).regs r.toNat).value, storeLoop.memory⟩
      s.memory = (lines.foldl TraceLine.replay start).memory := by
  obtain ⟨s, hrun, hreaches⟩ := reaches_of_tests
    (G := fun s => s.FreshDiscards ∧ s.NamedWriters)
    (fun s => s.freshDiscardsTest && s.namedTest)
    (fun _ _ htest => ⟨freshDiscards_of_test (Bool.and_eq_true_iff.mp htest).1,
      namedWriters_of_test (Bool.and_eq_true_iff.mp htest).2⟩) (.boot .plain _ _ _)
    (by decide +kernel : checkAfter .plain 30 storeLoop _ = true) (by decide +kernel)
  obtain ⟨t, ht, -, hends⟩ := checkAfter_spec 30
    (fun s => s.isStop && (s.mwSt.load.instrOf s.decoder).isNone) (.boot .plain _ _ _)
    (by decide +kernel : checkAfter .plain 30 storeLoop _ = true)
  rw [hrun, Except.ok.injEq] at ht
  rw [← ht, Bool.and_eq_true, Option.isNone_iff_eq_none] at hends
  obtain ⟨text, lines, hfile, hparse, -, hmemory⟩ := trace_replays hreaches
  exact ⟨s, text, lines, hrun, hends.1, hfile, hparse, hmemory hends.2⟩

end PerfSim

end RiscvPerfSim
