import RiscvPerfSim.Core.Safe

/-!
# The front end in lockstep

How the stop counts of the five latches go together between two cycles, and
what follows for the latches: a stopped one is not swapped, a word leaves its
latch only when the next stage has read it, and what a swap brings into a load
latch was written in the same cycle.
-/

namespace RiscvPerfSim

open Foundation

namespace Stage

variable {α : Type}

def Held (before after : Stage α) : Prop :=
  after = { before with stopCount := before.stopCount - 1 }

theorem isStop_eq_false {stage : Stage α} : stage.isStop = false ↔ stage.stopCount = 0 := by
  simp [isStop]

theorem held_update {stage : Stage α} (clear : α) (h : stage.isStop = true) :
    stage.Held (stage.update clear) :=
  if_pos (of_decide_eq_true h)

end Stage

namespace PerfSim

variable {env : Env} {s t d f s' : PerfSim}

/-! ## Stage by stage -/

structure Staged (env : Env) (s t d f s' : PerfSim) : Prop where
  untilDecode : s.untilDecode env = .ok t
  decode : t.decode env = .ok d
  fetch : d.fetch = .ok f
  updates : f.updates = .ok s'

theorem cycle_eq_ok_iff : s.cycle env = .ok s' ↔ ∃ t d f, Staged env s t d f s' := by
  have hcycle : s.cycle env = s.untilDecode env >>= fun t => t.decode env >>= fun d =>
      d.fetch >>= updates := by
    simp only [cycle, untilDecode, bind_assoc]
  rw [hcycle]
  constructor
  · intro h
    obtain ⟨t, ht, h⟩ := ok_of_bind h
    obtain ⟨d, hd, h⟩ := ok_of_bind h
    obtain ⟨f, hf, h⟩ := ok_of_bind h
    exact ⟨t, d, f, ht, hd, hf, h⟩
  · rintro ⟨t, d, f, ht, hd, hf, hs'⟩
    rw [ht]
    change (t.decode env >>= fun d => d.fetch >>= PerfSim.updates) = _
    rw [hd]
    change (d.fetch >>= PerfSim.updates) = _
    rw [hf]
    exact hs'

/-! ## The stop counts between two cycles -/

structure InStep (s : PerfSim) : Prop where
  fetch : s.fetchSt.stopCount = s.fdSt.stopCount
  decode : 0 < s.deSt.stopCount → s.deSt.stopCount = s.fdSt.stopCount
  execute : s.emSt.stopCount = 0
  access : s.mwSt.stopCount = 0

theorem Good.inStep (hgood : s.Good) : s.InStep where
  fetch := hgood.latches.fetchStop
  decode := fun hpos => by
    rcases hgood.pipeline.control with ⟨hde, -⟩ | ⟨hde, -⟩ | ⟨-, hstop⟩
    · exact absurd hde (Nat.pos_iff_ne_zero.mp hpos)
    · exact absurd hde (Nat.pos_iff_ne_zero.mp hpos)
    · exact hstop.symm
  execute := hgood.latches.emStop
  access := hgood.latches.mwStop

/-! ## The latches over a cycle -/

/--
What a cycle does with the latches.  `t`, `d` and `f` are the states in which
decode, fetch and the updates find the simulator.
-/
structure Passes (env : Env) (s t d f s' : PerfSim) : Prop where
  fetchHeld : d.fdSt.isStop = true → f.fdSt.Held s'.fdSt ∧ f.fetchSt.Held s'.fetchSt
  decodeHeld : t.deSt.isStop = true → f.deSt.Held s'.deSt ∧ f.deSt.load = t.deSt.load
  /-- The word in front of decode only goes when decode has taken it. -/
  fetchedRead : d.fdSt.isStop = false →
    (t.fdSt.load.isStall || t.fdSt.load.hazardStall) = false → t.decodes = true
  fetched : d.fdSt.isStop = false → ∃ pc word, d.fetchAddr = some pc ∧
    d.memory.read 0 pc.toNat 4 = .ok word ∧ s'.fdSt.load.isStall = false ∧
    s'.fdSt.load.pc = pc ∧ s'.fdSt.load.instr = word ∧ s'.fetchSt.load.pc = pc + 4
  decoded : t.decodes = true → ∃ dp ptr,
    Decoder.decode env t.decoding t.fdSt.load.instr = .ok (dp, ptr) ∧
    s'.deSt.load.isStall = false ∧ s'.deSt.load.instr = some ptr ∧
    s'.deSt.load.pc = t.fdSt.load.pc
  /-- Decode has returned nothing although its latch runs: a bubble comes into it. -/
  bubble : t.deSt.isStop = false → t.decodes = false → s'.deSt.load.isStall = true
  executed : ∃ mark, s'.emSt.load = marked mark s.deSt.load.moved
  accessed : s'.mwSt.load = s.emSt.load.moved

theorem updates_ok (h : f.updates = .ok s') :
    ∃ memory pipeline, s' = f.afterUpdates memory pipeline := by
  obtain ⟨⟨memory, pipeline⟩, -, h⟩ := ok_of_bind h
  cases h
  exact ⟨memory, pipeline, rfl⟩

theorem fetch_ok (hload : (d.fetchSt.load.isStall || d.fetchSt.load.hazardStall) = false)
    (h : d.fetch = .ok f) : ∃ word, f = d.afterFetch word ∧
      (d.fdSt.isStop = false → d.fetchAddr = some d.core.nextPc ∧
        d.memory.read 0 d.core.nextPc.toNat 4 = .ok word) := by
  obtain ⟨word, hword, rfl⟩ := (fetch_agree hload).of_ok h
  refine ⟨word, rfl, fun hstop => ⟨?_, ?_⟩⟩
  · simp [fetchAddr, hload, hstop, core]
  · rw [Core.fetchStage, if_pos (Stage.isStop_eq_false.mp hstop)] at hword
    exact hword

theorem decode_ok (hwired : t.toDatapath.Wired) (hdecodes : t.decodes = true)
    (h : t.decode env = .ok d) : ∃ dp ptr,
      Decoder.decode env t.decoding t.fdSt.load.instr = .ok (dp, ptr) ∧
      d.deSt.store.isStall = false ∧ d.deSt.store.instr = some ptr ∧
      d.deSt.store.pc = t.fdSt.load.pc := by
  rw [decodes, Bool.and_eq_true, Bool.not_eq_true', Bool.not_eq_true'] at hdecodes
  obtain ⟨hfd, hstop⟩ := hdecodes
  rw [decode_eq env hfd (Stage.isStop_eq_false.mp hstop)] at h
  obtain ⟨⟨dp, ptr⟩, hdecode, h⟩ := ok_of_bind h
  have hwired' : t.decoding.Wired := ⟨hwired.de, hwired.em⟩
  obtain ⟨decoded, -, hu, instr, -, -, -, hdp⟩ :=
    (Decoder.decode_agree env hwired' t.fdSt.load.pc t.fdSt.load.instr).of_ok hdecode
  dsimp only at hdp
  subst hdp
  have hrun : (t.decoding.deSt).isStop = false := hstop
  refine ⟨_, ptr, hdecode, ?_⟩
  simp only [Datapath.stopped, hrun, bind, Except.bind, Bool.false_eq_true, if_false] at h
  cases h
  exact ⟨rfl, rfl, rfl⟩

section Staged

variable (hgood : s.Good) (h : Staged env s t d f s')
include hgood h

theorem Good.stops_of_staged : d.fetchSt.stopCount = d.fdSt.stopCount ∧
    d.deSt.stopCount = t.deSt.stopCount ∧ d.deSt.load = t.deSt.load ∧
    (d.fdSt.stopCount = 0 → t.deSt.stopCount = 0) := by
  obtain ⟨accessed, pipeline, haccess, ht⟩ := untilDecode_ok hgood.latches h.untilDecode
  have hdecode := h.decode
  rw [ht] at hdecode
  obtain ⟨decoded, -, hu, latch, decoder, -, -, hd⟩ :=
    (decodeStage_agree hgood.latches pipeline haccess).of_ok hdecode
  have hinStep := hgood.inStep
  have hfd : d.fdSt.stopCount = s.fdSt.stopCount + s.core.exitStop env + decoded.hits := by
    rw [hd]
    rfl
  have hfetch : d.fetchSt.stopCount =
      s.fetchSt.stopCount + s.core.exitStop env + decoded.hits := by
    rw [hd]
    rfl
  have hde : t.deSt.stopCount = s.deSt.stopCount + s.core.exitStop env := by
    rw [ht]
    rfl
  have hkept : d.deSt.stopCount = t.deSt.stopCount ∧ d.deSt.load = t.deSt.load := by
    rw [hd, ht]
    exact ⟨rfl, rfl⟩
  refine ⟨by rw [hfetch, hfd, hinStep.fetch], hkept.1, hkept.2, fun hzero => ?_⟩
  have hstep := hinStep.decode
  omega

theorem Good.stalls_of_staged :
    (d.fetchSt.load.isStall || d.fetchSt.load.hazardStall) = false ∧
      (∃ mark, d.emSt.store = marked mark s.deSt.load.moved) ∧
      d.mwSt.store = s.emSt.load.moved ∧ d.emSt.stopCount = 0 ∧ d.mwSt.stopCount = 0 := by
  obtain ⟨accessed, pipeline, haccess, ht⟩ := untilDecode_ok hgood.latches h.untilDecode
  have hdecode := h.decode
  rw [ht] at hdecode
  obtain ⟨decoded, -, hu, latch, decoder, -, -, hd⟩ :=
    (decodeStage_agree hgood.latches pipeline haccess).of_ok hdecode
  rw [hd]
  exact ⟨hgood.latches.fetchLoad, ⟨decide (decoded.hits > 0), rfl⟩, rfl,
    hgood.latches.emStop, hgood.latches.mwStop⟩

theorem Good.passes : Passes env s t d f s' := by
  obtain ⟨hfetchStop, hdeStop, hdeLoad, hrun⟩ := hgood.stops_of_staged h
  obtain ⟨hload, ⟨mark, hem⟩, hmw, hemStop, hmwStop⟩ := hgood.stalls_of_staged h
  obtain ⟨word, hf, hword⟩ := fetch_ok hload h.fetch
  obtain ⟨memory, pipeline, hs'⟩ := updates_ok h.updates
  have hfdSwap (hzero : d.fdSt.stopCount = 0) : s'.fdSt.load = f.fdSt.store := by
    rw [hs', hf]
    exact (load_update ..).trans (if_pos hzero)
  have hfetchSwap (hzero : d.fdSt.stopCount = 0) : s'.fetchSt.load = f.fetchSt.store := by
    rw [hs', hf]
    exact (load_update ..).trans (if_pos (hfetchStop.trans hzero))
  have hdeSwap (hzero : t.deSt.stopCount = 0) : s'.deSt.load = d.deSt.store := by
    rw [hs', hf]
    exact (load_update ..).trans (if_pos (hdeStop.trans hzero))
  constructor
  case fetchHeld =>
    intro hstop
    have hstop' : d.fetchSt.isStop = true := by
      rw [Stage.isStop, hfetchStop]
      exact hstop
    rw [hs', hf]
    exact ⟨Stage.held_update _ hstop, Stage.held_update _ hstop'⟩
  case decodeHeld =>
    intro hstop
    have hstop' : d.deSt.isStop = true := by
      rw [Stage.isStop, hdeStop]
      exact hstop
    rw [hs', hf]
    exact ⟨Stage.held_update _ hstop', hdeLoad⟩
  case fetchedRead =>
    intro hstop hlive
    rw [decodes, hlive, Stage.isStop_eq_false.mpr (hrun (Stage.isStop_eq_false.mp hstop))]
    rfl
  case fetched =>
    intro hstop
    have hzero := Stage.isStop_eq_false.mp hstop
    obtain ⟨haddr, hread⟩ := hword hstop
    refine ⟨d.core.nextPc, word, haddr, hread, ?_⟩
    rw [hfdSwap hzero, hfetchSwap hzero, hf]
    simp only [afterFetch, Stage.modifyStore, hzero, if_true, and_self]
  case decoded =>
    intro hdecodes
    have hwired : t.toDatapath.Wired := by
      obtain ⟨accessed, pipeline, -, ht⟩ := untilDecode_ok hgood.latches h.untilDecode
      rw [ht]
      exact beforeDecode_wired hgood.latches pipeline
    have hstop := hdecodes
    rw [decodes, Bool.and_eq_true, Bool.not_eq_true', Bool.not_eq_true'] at hstop
    rw [hdeSwap (Stage.isStop_eq_false.mp hstop.2)]
    exact decode_ok hwired hdecodes h.decode
  case bubble =>
    intro hstop hidle
    have hstall : (t.fdSt.load.isStall || t.fdSt.load.hazardStall) = true := by
      rw [decodes, hstop, Bool.not_false, Bool.and_true, Bool.not_eq_false'] at hidle
      exact hidle
    have hdecode := h.decode
    simp only [PerfSim.decode, hstall, Bool.true_or, if_true, Except.ok.injEq] at hdecode
    rw [hdeSwap (Stage.isStop_eq_false.mp hstop), ← hdecode]
    rfl
  case executed =>
    refine ⟨mark, ?_⟩
    rw [hs', hf]
    exact ((load_update ..).trans (if_pos hemStop)).trans hem
  case accessed =>
    rw [hs', hf]
    exact ((load_update ..).trans (if_pos hmwStop)).trans hmw

end Staged

/-- In every reachable state the stop counts are in step, and every cycle passes the latches on. -/
theorem lockstep (h : Reachable env s) :
    s.InStep ∧ ∀ s', s.cycle env = .ok s' → ∃ t d f, Staged env s t d f s' ∧
      Passes env s t d f s' := by
  refine ⟨h.good.inStep, fun s' hcycle => ?_⟩
  obtain ⟨t, d, f, hstaged⟩ := cycle_eq_ok_iff.mp hcycle
  exact ⟨t, d, f, hstaged, h.good.passes hstaged⟩

theorem lockstep_load : ∃ s s' t d f, runFor .plain 2
      (bootWords 64 [0x00002083#32, 0x00108113#32, 0x00000073#32]) = .ok s ∧
    s.cycle .plain = .ok s' ∧ s.InStep ∧ Staged .plain s t d f s' ∧
    Passes .plain s t d f s' := by
  obtain ⟨s, hs, hreach, htest⟩ :=
    checkAfter_spec 2 (fun s => !s.isStop && checkAfter .plain 1 s fun _ => true)
      (.boot .plain _ _ _)
      (by decide +kernel : checkAfter .plain 2
        (bootWords 64 [0x00002083#32, 0x00108113#32, 0x00000073#32]) _ = true)
  rw [Bool.and_eq_true, Bool.not_eq_true'] at htest
  obtain ⟨hrun, hnext⟩ := htest
  obtain ⟨u, hu, -, -⟩ := checkAfter_spec 1 _ hreach hnext
  rcases runFor_succ hu with ⟨hstop, -⟩ | ⟨-, s', hcycle, -⟩
  · rw [hrun] at hstop
    cases hstop
  obtain ⟨hin, hpass⟩ := lockstep hreach
  obtain ⟨t, d, f, hstaged, hpasses⟩ := hpass s' hcycle
  exact ⟨s, s', t, d, f, hs, hcycle, hin, hstaged, hpasses⟩

end PerfSim

end RiscvPerfSim
