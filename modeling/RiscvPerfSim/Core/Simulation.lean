import RiscvPerfSim.Core.Refinement

/-!
# One cycle of the simulator

Fetch and the updates that end a cycle, what the latches hold after them, and
the theorem that the rest of the development uses: a cycle of `PerfSim` and a
cycle of `Core` raise the same exceptions or end in matching states.
-/

namespace RiscvPerfSim

open Foundation

namespace PerfSim

variable {env : Env} {s : PerfSim}

/-! ## Fetch and the updates -/

section Update

variable {α : Type} (stage : Stage α) (clear : α)

@[simp] theorem stopCount_update : (stage.update clear).stopCount = stage.stopCount - 1 := by
  unfold Stage.update
  split_ifs with h
  · rfl
  · simp [Nat.eq_zero_of_not_pos h]

@[simp] theorem load_update : (stage.update clear).load =
    if stage.stopCount = 0 then stage.store else stage.load := by
  unfold Stage.update
  split_ifs with h h' <;> first | rfl | omega

@[simp] theorem store_update : (stage.update clear).store =
    if stage.stopCount = 0 then clear else stage.store := by
  unfold Stage.update
  split_ifs with h h' <;> first | rfl | omega

end Update

def afterFetch (s : PerfSim) (word : BitVec 32) : PerfSim :=
  { s with
    fdSt := s.fdSt.modifyStore fun fd =>
      if s.fdSt.stopCount = 0 then
        { fd with pc := s.core.nextPc, instr := word, isStall := false }
      else { fd with isStall := false }
    fetchSt := s.fetchSt.modifyStore fun wf =>
      if s.fdSt.stopCount = 0 then { wf with pc := s.core.nextPc + 4 } else wf }

theorem fetch_agree
    (hload : (s.fetchSt.load.isStall || s.fetchSt.load.hazardStall) = false) :
    Agree (fun s' word => s' = s.afterFetch word) s.fetch
      (Core.fetchStage s.memory s.core.nextPc s.fdSt.stopCount) := by
  unfold fetch Core.fetchStage afterFetch
  by_cases hstop : s.fdSt.stopCount = 0
  · simp only [hload, Stage.isStop, Stage.modifyStore, hstop, if_true]
    refine (Agree.refl (s.memory.read 0 s.core.nextPc.toNat 4)).then_ok ?_
    rintro word _ rfl
    exact ⟨_, rfl, rfl⟩
  · have hpos : 0 < s.fdSt.stopCount := Nat.pos_of_ne_zero hstop
    simp [hload, Stage.isStop, Stage.modifyStore, hstop, hpos, Agree]

def afterUpdates (s : PerfSim) (memory : Memory) (pipeline : Pipeline) : PerfSim :=
  { s with
    fetchSt := s.fetchSt.update WF.clear
    fdSt := s.fdSt.update FD.clear
    deSt := s.deSt.update InstrLatch.clear
    emSt := s.emSt.update InstrLatch.clear
    mwSt := s.mwSt.update InstrLatch.clear
    memory := memory
    pipeline := pipeline
    clocks := s.clocks + 1 }

/-- One pending store drains in the cycle that pushed it. -/
theorem drain_agree {pipeline : Pipeline} {store : Store} (memory : Memory)
    (h : Pending pipeline store) :
    Agree (fun (x y : Memory × Pipeline) =>
        x.1 = y.1 ∧ x.2.queue = [] ∧ x.2.store = Store.clear)
      (Pipeline.update memory pipeline) (Pipeline.update memory { store := store }) := by
  have hfront : (pipeline.queue ++ [pipeline.store]).headD Store.clear = pipeline.store := by
    simp [h.queue]
  have htail : (pipeline.queue ++ [pipeline.store]).tail = [] := by
    simp [h.queue]
  unfold Pipeline.update
  simp only [hfront, htail, h.addr, h.size, h.data, List.nil_append, List.headD_cons,
    List.tail_cons]
  by_cases hsize : store.size > 0
  · simp only [hsize, if_true]
    refine (Agree.refl _).bind ?_
    rintro memory' _ rfl
    by_cases hlarge : store.size > 4
    · simp only [hlarge, if_true]
      rfl
    · simp only [hlarge, if_false]
      exact ⟨rfl, rfl, rfl⟩
  · simp only [hsize, if_false]
    exact ⟨rfl, rfl, rfl⟩

theorem updates_agree {store : Store} (h : Pending s.pipeline store) :
    Agree (fun s' (y : Memory × Pipeline) =>
        ∃ pipeline, pipeline.queue = [] ∧ pipeline.store = Store.clear ∧
          s' = s.afterUpdates y.1 pipeline)
      s.updates (Pipeline.update s.memory { store := store }) := by
  refine (drain_agree s.memory h).then_ok ?_
  rintro ⟨memory, pipeline⟩ y ⟨hmemory, hqueue, hstore⟩
  dsimp only at hmemory
  subst hmemory
  exact ⟨_, rfl, pipeline, hqueue, hstore, rfl⟩

/-! ## What the latches hold at the end of the cycle -/

section Latches

variable {accessed : Core.Accessed} {pipeline : Pipeline} {instr : Option Instruction}
  {latch : InstrLatch} {decoder : Decoder} (hinv : s.Inv)
  (haccess : s.core.memStage env = .ok accessed)
  (hissued : (s.beforeDecode env accessed pipeline).Issued instr latch decoder)

include hissued in
private theorem get_final_ne {ptr : InstrPtr}
    (h : ∀ type, ptr ≠ s.decoder.nextPtr type) :
    decoder.get ptr = (s.midway env accessed).get ptr := by
  cases hinstr : instr with
  | none => rw [(hissued.idle hinstr).1]; rfl
  | some i =>
      rw [(hissued.fresh i hinstr).2.2.2]
      exact Decoder.get_allocated_ne (by simpa [beforeDecode] using h _)

include hissued in
private theorem index_final (type : InstrType) :
    s.decoder.index type ≤ decoder.index type ∧
      decoder.index type ≤ s.decoder.index type + 1 := by
  cases hinstr : instr with
  | none =>
      rw [(hissued.idle hinstr).1]
      exact ⟨by simp [beforeDecode], by simp [beforeDecode]⟩
  | some i =>
      rw [(hissued.fresh i hinstr).2.2.2, Decoder.index_allocated]
      split_ifs <;> exact ⟨by simp [beforeDecode], by simp [beforeDecode]⟩

include hinv haccess hissued

private theorem slotOf_final_em (mark : Bool) :
    (marked mark s.deSt.load.moved).slotOf decoder =
      (s.core.executing env).map fun i => ⟨i, mark⟩ := by
  cases hlive : s.deSt.load.isLive with
  | false =>
      have hexec : s.core.executing env = none := by
        cases hexec : s.core.executing env with
        | none => rfl
        | some i =>
            obtain ⟨hstall, hkill, -⟩ := executing_eq_some hexec
            simp [InstrLatch.isLive, hstall, hkill] at hlive
      rw [hexec]
      cases mark <;>
        simp [marked, InstrLatch.moved, hlive, InstrLatch.slotOf, InstrLatch.clear]
  | true =>
      obtain ⟨hstall, hkill⟩ := InstrLatch.isLive_iff.mp hlive
      obtain ⟨ptr, -, hptr, hyoung, -⟩ := hinv.de hstall
      have hexec : s.core.executing env = some ((s.decoder.get ptr).executed env) := by
        simp [Core.executing, InstrLatch.slotOf_of_ptr _ hstall hptr, hkill]
      have hget : decoder.get ptr = (s.decoder.get ptr).executed env := by
        rw [get_final_ne hissued fun type => hyoung.ne_nextPtr (by decide),
          get_midway_de hinv haccess hstall hptr, hexec, Option.getD_some]
      rw [hexec]
      cases mark <;> simp [marked, InstrLatch.moved, hlive, InstrLatch.slotOf, hptr, hget]

private theorem instrOf_final_mw : s.emSt.load.moved.instrOf decoder = accessed.mw := by
  rw [← instrOf_midway_em hinv haccess]
  cases hlive : s.emSt.load.isLive with
  | false =>
      have hmoved : s.emSt.load.moved = InstrLatch.clear := by
        simp [InstrLatch.moved, hlive]
      rw [hmoved]
      simp only [InstrLatch.instrOf, hlive]
      rfl
  | true =>
      obtain ⟨hstall, hkill⟩ := InstrLatch.isLive_iff.mp hlive
      obtain ⟨ptr, -, hptr, hyoung, -⟩ := hinv.em hstall
      have hget := get_final_ne hissued fun type =>
        (hyoung.ne_nextPtr (by decide) : ptr ≠ s.decoder.nextPtr type)
      rw [InstrLatch.moved_of_live hstall hkill]
      simp [InstrLatch.instrOf, InstrLatch.isLive, hstall, hkill, hptr, hget]

private theorem slotOf_final_kept :
    (marked (s.core.exits env) s.deSt.load).slotOf decoder =
      s.core.de.map fun slot =>
        ⟨(s.core.executing env).getD slot.instr, slot.killed || s.core.exits env⟩ := by
  cases hstall : s.deSt.load.isStall with
  | true =>
      cases s.core.exits env <;> simp [marked, InstrLatch.slotOf, hstall]
  | false =>
      obtain ⟨ptr, -, hptr, hyoung, -⟩ := hinv.de hstall
      have hget : decoder.get ptr =
          (s.core.executing env).getD (s.decoder.get ptr) := by
        rw [get_final_ne hissued fun type => hyoung.ne_nextPtr (by decide),
          get_midway_de hinv haccess hstall hptr]
      rw [core_de, InstrLatch.slotOf_of_ptr _ hstall hptr]
      cases s.core.exits env <;> simp [marked, InstrLatch.slotOf, hstall, hptr, hget]

omit haccess in
private theorem slotOf_final_new (hstop : s.deSt.stopCount + s.core.exitStop env = 0) :
    latch.slotOf decoder = instr.map fun i => ⟨i, (s.core.target env).isSome⟩ := by
  have hkill : latch.hazardStall = (s.core.target env).isSome := by
    rw [hissued.hazard]
    cases htarget : (s.core.target env).isSome <;>
      simp [beforeDecode, Stage.modifyStore, Stage.modifyLoad, Stage.extend, marked, htarget,
        hinv.deStore]
  cases hinstr : instr with
  | none => simp [InstrLatch.slotOf, (hissued.idle hinstr).2 hstop]
  | some i =>
      obtain ⟨hstall, -, hptr, hdecoder⟩ := hissued.fresh i hinstr
      rw [InstrLatch.slotOf_of_ptr _ hstall hptr, hkill, hdecoder, Decoder.get_allocated]
      rfl

end Latches

/-! ## The front end at the end of the cycle -/

section Front

variable (word : BitVec 32) (memory : Memory) (pipeline : Pipeline)
  (hstop : s.fetchSt.stopCount = s.fdSt.stopCount)

private abbrev ended (s : PerfSim) (word : BitVec 32) (memory : Memory)
    (pipeline : Pipeline) : PerfSim :=
  (s.afterFetch word).afterUpdates memory pipeline

private theorem ended_stop :
    (s.ended word memory pipeline).core.stop = s.core.stop - 1 :=
  stopCount_update ..

private theorem ended_fd : (s.ended word memory pipeline).core.fd =
    if s.core.stop = 0 then some ⟨s.core.nextPc, word, s.core.flush⟩ else s.core.fd := by
  by_cases h : s.fdSt.stopCount = 0 <;>
    simp [core, afterUpdates, afterFetch, Stage.modifyStore, h, fetched]

private theorem ended_flush : (s.ended word memory pipeline).core.flush =
    if s.core.stop = 0 then false else s.core.flush := by
  by_cases h : s.fdSt.stopCount = 0 <;>
    simp [core, afterUpdates, afterFetch, Stage.modifyStore, h, FD.clear]

include hstop

private theorem ended_nextPc : (s.ended word memory pipeline).core.nextPc =
    if s.core.stop = 0 then s.core.redirect.getD (s.core.nextPc + 4)
    else s.core.nextPc := by
  by_cases h : s.fdSt.stopCount = 0
  · cases hjump : s.fetchSt.store.isJump <;>
      simp [core, afterUpdates, afterFetch, Stage.modifyStore, h, hstop, hjump]
  · simp [core, afterUpdates, afterFetch, Stage.modifyStore, h, hstop]

private theorem ended_redirect : (s.ended word memory pipeline).core.redirect =
    if s.core.stop = 0 then none else s.core.redirect := by
  by_cases h : s.fdSt.stopCount = 0 <;>
    simp [core, afterUpdates, afterFetch, Stage.modifyStore, h, hstop, WF.clear]

end Front

section Flags

variable (word : BitVec 32) (memory : Memory) (pipeline : Pipeline)

private theorem jumped_flags (target : Option (BitVec 32)) (wf : WF) :
    ((jumped target wf).isStall || (jumped target wf).hazardStall) =
      (wf.isStall || wf.hazardStall) := by
  cases target <;> rfl

private theorem ended_fetchFlags :
    ((s.ended word memory pipeline).fetchSt.load.isStall ||
      (s.ended word memory pipeline).fetchSt.load.hazardStall) =
    if s.fetchSt.stopCount = 0 then
      s.fetchSt.store.isStall || s.fetchSt.store.hazardStall
    else s.fetchSt.load.isStall || s.fetchSt.load.hazardStall := by
  by_cases h : s.fetchSt.stopCount = 0 <;> by_cases h' : s.fdSt.stopCount = 0 <;>
    simp [afterUpdates, afterFetch, Stage.modifyStore, h, h']

private theorem ended_fetchStoreFlags :
    ((s.ended word memory pipeline).fetchSt.store.isStall ||
      (s.ended word memory pipeline).fetchSt.store.hazardStall) =
    if s.fetchSt.stopCount = 0 then false
    else s.fetchSt.store.isStall || s.fetchSt.store.hazardStall := by
  by_cases h : s.fetchSt.stopCount = 0 <;> by_cases h' : s.fdSt.stopCount = 0 <;>
    simp [afterUpdates, afterFetch, Stage.modifyStore, h, h', WF.clear]

end Flags

/-! ## The state at the end of the cycle -/

section Final

variable {accessed : Core.Accessed} {decoded : Core.Decoded} {t : PerfSim}
  {pipeline pipeline' : Pipeline} (word : BitVec 32) (memory : Memory) (hinv : s.Inv)
  (haccess : s.core.memStage env = .ok accessed)
  (hmatch : (s.beforeDecode env accessed pipeline).DecodeMatch t decoded)
include hinv hmatch

private theorem fetchStop_matched : t.fetchSt.stopCount = t.fdSt.stopCount := by
  obtain ⟨hu, latch, decoder, -, -, rfl⟩ := hmatch
  change s.fetchSt.stopCount + _ + _ = s.fdSt.stopCount + _ + _
  rw [hinv.fetchStop]

omit hinv in
private theorem redirect_matched :
    t.core.redirect = (s.core.target env).or s.core.redirect := by
  obtain ⟨hu, latch, decoder, -, -, rfl⟩ := hmatch
  change (if (jumped (s.core.target env) s.fetchSt.store).isJump then
      some (jumped (s.core.target env) s.fetchSt.store).pcJump else none) =
    (s.core.target env).or
      (if s.fetchSt.store.isJump then some s.fetchSt.store.pcJump else none)
  cases s.core.target env <;> rfl

omit hinv in
private theorem flush_matched :
    t.core.flush = (s.core.flush || (s.core.target env).isSome) := by
  obtain ⟨hu, latch, decoder, -, -, rfl⟩ := hmatch
  change (markedFd (s.core.target env).isSome s.fdSt.store).hazardStall =
    (s.fdSt.store.hazardStall || (s.core.target env).isSome)
  cases (s.core.target env).isSome <;> simp [markedFd]

include haccess

private theorem core_final :
    (t.ended word memory pipeline').core =
      s.core.advance env accessed decoded word memory := by
  have hstop := fetchStop_matched hinv hmatch
  have hredirect := redirect_matched hmatch
  have hflush := flush_matched hmatch
  have hnextPc : t.core.nextPc = s.core.nextPc := by
    obtain ⟨hu, latch, decoder, -, -, rfl⟩ := hmatch
    rfl
  have hcount : t.core.stop = s.core.stop + s.core.exitStop env + decoded.hits := by
    obtain ⟨hu, latch, decoder, -, -, rfl⟩ := hmatch
    rfl
  have hfd : t.core.fd = s.core.fd := by
    obtain ⟨hu, latch, decoder, -, -, rfl⟩ := hmatch
    rfl
  apply Core.ext
  case nextPc =>
    rw [ended_nextPc word memory pipeline' hstop, hcount, hredirect, hnextPc]
    rfl
  case redirect =>
    rw [ended_redirect word memory pipeline' hstop, hcount, hredirect]
    rfl
  case flush =>
    rw [ended_flush, hcount, hflush]
    rfl
  case fd =>
    rw [ended_fd, hcount, hnextPc, hflush, hfd]
    rfl
  case stop =>
    rw [ended_stop, hcount]
    rfl
  all_goals
    obtain ⟨hu, latch, decoder, hcounts, hissued, rfl⟩ := hmatch
  case deStop => exact stopCount_update ..
  case de =>
    change InstrLatch.slotOf (Stage.update _ _).load decoder = _
    rw [load_update]
    by_cases hzero : s.core.deStop + s.core.exitStop env = 0
    · have hnew := slotOf_final_new hinv hissued hzero
      simp only [Core.advance, hzero, if_true]
      refine Eq.trans ?_ hnew
      exact congrArg (fun l => InstrLatch.slotOf l decoder) (if_pos hzero)
    · have hkept := slotOf_final_kept hinv haccess hissued
      simp only [Core.advance, hzero, if_false]
      refine Eq.trans ?_ hkept
      exact congrArg (fun l => InstrLatch.slotOf l decoder) (if_neg hzero)
  case em =>
    change InstrLatch.slotOf (Stage.update _ _).load decoder = _
    rw [load_update]
    refine Eq.trans ?_ (slotOf_final_em hinv haccess hissued (decide (decoded.hits > 0)))
    exact congrArg (fun l => InstrLatch.slotOf l decoder) (if_pos hinv.emStop)
  case mw =>
    change InstrLatch.instrOf (Stage.update _ _).load decoder = _
    rw [load_update]
    refine Eq.trans ?_ (instrOf_final_mw hinv haccess hissued)
    exact congrArg (fun l => InstrLatch.instrOf l decoder) (if_pos hinv.mwStop)
  case branches => exact hcounts.branches
  case stops => exact hcounts.stops
  all_goals rfl

end Final

/-! ## The invariant at the end of the cycle -/

section Invariant

variable {accessed : Core.Accessed} {decoded : Core.Decoded} {instr : Option Instruction}
  {latch : InstrLatch} {decoder : Decoder} {pipeline : Pipeline} (hinv : s.Inv)

theorem exits_iff : s.core.exits env = true ↔
    ∃ instr, s.core.executing env = some instr ∧ instr.type = .system := by
  simp [Core.exits, Option.any_eq_true]

include hinv

/-- A stage is only ever stopped in front of a SYSTEM word, which transfers nothing. -/
private theorem target_of_stopped (hstop : s.deSt.stopCount + s.core.exitStop env ≠ 0) :
    s.core.target env = none := by
  cases hexec : s.core.executing env with
  | none => simp [Core.target, hexec]
  | some x =>
      obtain ⟨hstall, hkill, ptr, hptr, rfl⟩ := executing_eq_some hexec
      obtain ⟨p, word, hp, -, hcarries, -⟩ := hinv.de hstall
      obtain rfl : ptr = p := by
        rw [hptr] at hp
        exact Option.some.inj hp
      have hexits : s.core.exits env = true := by
        cases hexits : s.core.exits env with
        | true => rfl
        | false =>
            have hpos : 0 < s.deSt.stopCount := by
              simp only [Core.exitStop, hexits, Bool.false_eq_true, if_false] at hstop
              omega
            simp [(hinv.frozen hpos).2.1] at hkill
      obtain ⟨x, hx, htype⟩ := exits_iff.mp hexits
      rw [hexec, Option.some.injEq] at hx
      subst hx
      simp [Core.target, hexec, hcarries.executed.target_system htype]

private theorem frozen_of_stopped (hstop : s.deSt.stopCount + s.core.exitStop env ≠ 0) :
    (marked (s.core.exits env) s.deSt.load).isStall = false ∧
      (marked (s.core.exits env) s.deSt.load).hazardStall = true ∧
      ∀ ptr, (marked (s.core.exits env) s.deSt.load).instr = some ptr →
        ptr.type = .system := by
  cases hexits : s.core.exits env with
  | false =>
      have hpos : 0 < s.deSt.stopCount := by
        simp only [Core.exitStop, hexits, Bool.false_eq_true, if_false] at hstop
        omega
      exact hinv.frozen hpos
  | true =>
      obtain ⟨x, hexec, htype⟩ := exits_iff.mp hexits
      obtain ⟨hstall, -, ptr, hptr, rfl⟩ := executing_eq_some hexec
      obtain ⟨p, word, hp, -, hcarries, hclass⟩ := hinv.de hstall
      refine ⟨hstall, rfl, fun q hq => ?_⟩
      obtain rfl : ptr = p := by
        rw [hptr] at hp
        exact Option.some.inj hp
      obtain rfl : ptr = q := by
        simp only [marked, if_true, hptr, Option.some.injEq] at hq
        exact hq
      rw [← hclass, ← Instruction.type_of_fixed hcarries.executed_fixed, htype]

omit hinv in
private theorem idle_of_stopped
    (hissued : (s.beforeDecode env accessed pipeline).Issued instr latch decoder)
    (hstop : s.deSt.stopCount + s.core.exitStop env ≠ 0) : instr = none := by
  cases hsome : instr with
  | none => rfl
  | some i => exact absurd (hissued.fresh i hsome).2.1 hstop

variable (haccess : s.core.memStage env = .ok accessed)
  (hissued : (s.beforeDecode env accessed pipeline).Issued instr latch decoder)
include haccess hissued

private theorem holds_em (mark : Bool) :
    (marked mark s.deSt.load.moved).Holds decoder 2 := by
  intro hstall
  cases hlive : s.deSt.load.isLive with
  | false =>
      cases mark <;> simp [marked, InstrLatch.moved, hlive, InstrLatch.clear] at hstall
  | true =>
      obtain ⟨hde, hkill⟩ := InstrLatch.isLive_iff.mp hlive
      obtain ⟨ptr, word, hptr, hyoung, hcarries, hclass⟩ := hinv.de hde
      have hget : decoder.get ptr = (s.decoder.get ptr).executed env := by
        rw [get_final_ne hissued fun type => hyoung.ne_nextPtr (by decide),
          get_midway_de hinv haccess hde hptr]
        simp [Core.executing, InstrLatch.slotOf_of_ptr _ hde hptr, hkill]
      have hindex := index_final hissued ptr.type
      refine ⟨ptr, word, ?_, hyoung.older hindex.1 hindex.2, ?_, ?_⟩
      · cases mark <;> simp [marked, InstrLatch.moved, hlive, hptr]
      · rw [hget]
        exact hcarries.executed
      · rw [hget, Instruction.type_of_fixed hcarries.executed_fixed, hclass]

private theorem holds_mw : s.emSt.load.moved.Holds decoder 3 := by
  intro hstall
  cases hlive : s.emSt.load.isLive with
  | false => simp [InstrLatch.moved, hlive, InstrLatch.clear] at hstall
  | true =>
      obtain ⟨hem, hkill⟩ := InstrLatch.isLive_iff.mp hlive
      obtain ⟨ptr, word, hptr, hyoung, hcarries, hclass⟩ := hinv.em hem
      have hslot : s.core.em = some ⟨s.decoder.get ptr, false⟩ := by
        rw [core_em, InstrLatch.slotOf_of_ptr _ hem hptr, hkill]
      rcases Core.memStage_ok haccess with ⟨i, i', hi, hmw, -, hload⟩ | ⟨hnone, -⟩
      · rw [hslot, Option.some.injEq, Slot.mk.injEq] at hi
        obtain ⟨rfl, -⟩ := hi
        have hfixed := Core.loadEffect_fixed hload
        have hget : decoder.get ptr = i' := by
          rw [get_final_ne hissued fun type => hyoung.ne_nextPtr (by decide),
            get_midway_em hinv haccess hmw hptr]
        have hindex := index_final hissued ptr.type
        refine ⟨ptr, word, ?_, hyoung.older hindex.1 hindex.2, ?_, ?_⟩
        · simp [InstrLatch.moved, hlive, hptr]
        · rw [hget]
          exact .of_fixed hfixed hcarries
        · rw [hget, Instruction.type_of_fixed hfixed, hclass]
      · exact absurd hslot (hnone _)

private theorem holds_kept (hidle : instr = none) :
    (marked (s.core.exits env) s.deSt.load).Holds decoder 1 := by
  intro hstall
  have hde : s.deSt.load.isStall = false := by
    cases hexits : s.core.exits env <;> simpa [marked, hexits] using hstall
  obtain ⟨ptr, word, hptr, hyoung, hcarries, hclass⟩ := hinv.de hde
  have hget : decoder.get ptr = (s.core.executing env).getD (s.decoder.get ptr) := by
    rw [get_final_ne hissued fun type => hyoung.ne_nextPtr (by decide),
      get_midway_de hinv haccess hde hptr]
  have hfixed : (decoder.get ptr).fixed = (s.decoder.get ptr).fixed := by
    rw [hget]
    cases hexec : s.core.executing env with
    | none => rfl
    | some x =>
        obtain ⟨-, -, p, hp, rfl⟩ := executing_eq_some hexec
        obtain rfl : ptr = p := by
          rw [hptr] at hp
          exact Option.some.inj hp
        exact hcarries.executed_fixed
  refine ⟨ptr, word, ?_, hyoung.of_index_eq ?_, .of_fixed hfixed hcarries, ?_⟩
  · cases hexits : s.core.exits env <;> simpa [marked, hexits] using hptr
  · rw [(hissued.idle hidle).1]
    exact index_midway _
  · rw [Instruction.type_of_fixed hfixed, hclass]

omit haccess in
private theorem holds_new (hdecode : s.core.decodeStage env s.leftover accessed.mw =
      .ok decoded) (hinstr : instr = decoded.instr)
    (hstop : s.deSt.stopCount + s.core.exitStop env = 0) : latch.Holds decoder 1 := by
  intro hstall
  cases hsome : instr with
  | none => simp [(hissued.idle hsome).2 hstop] at hstall
  | some i =>
      obtain ⟨fd, hdecoding, hcarries, -⟩ :=
        Core.decodeStage_instr hinv.named hdecode (hinstr ▸ hsome)
      have hword : fd.word = s.fdSt.load.instr := by
        have hfd := (Core.decoding_eq_some hdecoding).1
        simp only [core, fetched] at hfd
        split_ifs at hfd
        simp only [Option.some.injEq, Fetched.mk.injEq] at hfd
        exact hfd.2.1.symm
      obtain ⟨-, -, hptr, hdecoder⟩ := hissued.fresh i hsome
      rw [hdecoder]
      refine ⟨_, fd.word, hptr, ?_, ?_, ?_⟩
      · exact Decoder.live_nextPtr (by simp [Decoder.index_allocated])
      · rw [Decoder.get_allocated]
        exact hcarries
      · rw [Decoder.get_allocated, hcarries.type, hword]
        rfl

omit haccess in
/-- Memory access and execute hold one object only when execute is stopped over a SYSTEM word. -/
private theorem apart_final (mark : Bool)
    (hstall : (if s.deSt.stopCount + s.core.exitStop env = 0 then latch
      else marked (s.core.exits env) s.deSt.load).isStall = false)
    (hptr : (if s.deSt.stopCount + s.core.exitStop env = 0 then latch
      else marked (s.core.exits env) s.deSt.load).instr = some ptr)
    (hstall' : (marked mark s.deSt.load.moved).isStall = false)
    (hptr' : (marked mark s.deSt.load.moved).instr = some ptr') :
    ptr' ≠ ptr ∨ ptr.type = .system := by
  obtain ⟨hlive, hold⟩ : s.deSt.load.isLive = true ∧ s.deSt.load.instr = some ptr' := by
    cases hlive : s.deSt.load.isLive <;> cases mark <;>
      simp_all [marked, InstrLatch.moved, InstrLatch.clear]
  obtain ⟨p, word, hp, hyoung, -⟩ := hinv.de (InstrLatch.isLive_iff.mp hlive).1
  obtain rfl : ptr' = p := by
    rw [hold] at hp
    exact Option.some.inj hp
  by_cases hstop : s.deSt.stopCount + s.core.exitStop env = 0
  · rw [if_pos hstop] at hstall hptr
    cases hsome : instr with
    | none => simp [(hissued.idle hsome).2 hstop] at hstall
    | some i =>
        obtain ⟨-, -, hnew, -⟩ := hissued.fresh i hsome
        rw [hptr, Option.some.injEq] at hnew
        rw [hnew]
        exact .inl (by simpa [beforeDecode] using hyoung.ne_nextPtr (by decide))
  · rw [if_neg hstop] at hptr
    exact .inr ((frozen_of_stopped hinv hstop).2.2 ptr hptr)

end Invariant

section Preservation

variable {accessed : Core.Accessed} {decoded : Core.Decoded} {t : PerfSim}
  {pipeline pipeline' : Pipeline} (word : BitVec 32) (memory : Memory) (hinv : s.Inv)
  (haccess : s.core.memStage env = .ok accessed)
  (hdecode : s.core.decodeStage env s.leftover accessed.mw = .ok decoded)
  (hmatch : (s.beforeDecode env accessed pipeline).DecodeMatch t decoded)
  (hqueue : pipeline'.queue = []) (hpending : pipeline'.store = Store.clear)
include hinv haccess hdecode hmatch hqueue hpending

private theorem inv_final : (t.ended word memory pipeline').Inv := by
  have hfetchStop := fetchStop_matched hinv hmatch
  obtain ⟨hu, latch, decoder, hcounts, hissued, rfl⟩ := hmatch
  have hde : (((s.beforeDecode env accessed pipeline).afterDecode hu decoded latch
      decoder).ended word memory pipeline').deSt.load =
        if s.deSt.stopCount + s.core.exitStop env = 0 then latch
        else marked (s.core.exits env) s.deSt.load := by
    exact load_update ..
  have hem : (((s.beforeDecode env accessed pipeline).afterDecode hu decoded latch
      decoder).ended word memory pipeline').emSt.load =
        marked (decide (decoded.hits > 0)) s.deSt.load.moved := by
    exact (load_update ..).trans (if_pos hinv.emStop)
  have hmw : (((s.beforeDecode env accessed pipeline).afterDecode hu decoded latch
      decoder).ended word memory pipeline').mwSt.load = s.emSt.load.moved := by
    exact (load_update ..).trans (if_pos hinv.mwStop)
  constructor
  case named => exact Core.decodeStage_named hinv.named hdecode
  case fetchStop =>
    change (Stage.update _ _).stopCount = (Stage.update _ _).stopCount
    rw [stopCount_update, stopCount_update]
    exact congrArg (· - 1) hfetchStop
  case emStop => exact (stopCount_update ..).trans (congrArg (· - 1) hinv.emStop)
  case mwStop => exact (stopCount_update ..).trans (congrArg (· - 1) hinv.mwStop)
  case emStore => exact (store_update ..).trans (if_pos hinv.emStop)
  case mwStore => exact (store_update ..).trans (if_pos hinv.mwStop)
  case deStore =>
    change InstrLatch.hazardStall (Stage.update _ _).store = _
    rw [store_update]
    split_ifs with hstop
    · rfl
    · have htarget := target_of_stopped hinv hstop
      refine hissued.hazard.trans ?_
      change (marked (s.core.target env).isSome s.deSt.store).hazardStall = false
      rw [htarget]
      exact hinv.deStore
  case fetchLoad =>
    rw [ended_fetchFlags]
    split_ifs
    · exact (jumped_flags ..).trans hinv.fetchStore
    · exact hinv.fetchLoad
  case fetchStore =>
    rw [ended_fetchStoreFlags]
    split_ifs
    · rfl
    · exact (jumped_flags ..).trans hinv.fetchStore
  case queue => exact hqueue
  case pending => exact hpending
  case de =>
    rw [hde]
    split_ifs with hstop
    · exact holds_new hinv hissued hdecode rfl hstop
    · exact holds_kept hinv haccess hissued (idle_of_stopped hissued hstop)
  case em =>
    rw [hem]
    exact holds_em hinv haccess hissued _
  case mw =>
    rw [hmw]
    exact holds_mw hinv haccess hissued
  case mwHazard =>
    rw [hmw]
    unfold InstrLatch.moved
    split_ifs <;> rfl
  case frozen =>
    intro hpos
    have hcount : 0 < s.deSt.stopCount + s.core.exitStop env - 1 :=
      lt_of_lt_of_eq hpos (stopCount_update ..)
    have hstop : s.deSt.stopCount + s.core.exitStop env ≠ 0 := by omega
    rw [hde, if_neg hstop]
    exact frozen_of_stopped hinv hstop
  case apart =>
    intro ptr ptr' hstall hstall' hptr hptr'
    rw [hem] at hstall' hptr'
    rw [hde] at hstall hptr
    exact apart_final hinv hissued _ hstall hptr hstall' hptr'

end Preservation

/-! ## The cycle -/

/-- A cycle of the simulator is a cycle of the abstract pipeline. -/
theorem cycle_agree (env : Env) (hinv : s.Inv) :
    Agree (fun s' c' => s'.core = c' ∧ s'.Inv) (s.cycle env)
      (s.core.step env s.leftover) := by
  unfold cycle Core.step
  rw [writeBack_eq hinv.mw hinv.mwHazard]
  refine (memoryAccess_agree (s := s.afterWriteBack) hinv.mwStop hinv.mwStore hinv.queue
    hinv.pending hinv.em).bind_of_eq ?_
  rintro _ accessed haccess ⟨pipeline, hpending, rfl⟩
  replace haccess : s.core.memStage env = .ok accessed := haccess
  have hde : (s.afterWriteBack.afterAccess accessed pipeline).deSt.load.Holds
      (s.afterWriteBack.afterAccess accessed pipeline).decoder 1 :=
    holds_afterAccess hinv haccess
  rw [execute_eq (s := s.afterWriteBack.afterAccess accessed pipeline) hinv.emStop
    hinv.emStore hde, afterExecute_eq hinv pipeline haccess]
  refine (decodeStage_agree hinv pipeline haccess).bind_of_eq ?_
  intro t decoded hdecode hmatch
  have hcopy := hmatch
  obtain ⟨hu, latch, decoder, -, -, ht⟩ := hcopy
  have hfetch : Agree (fun s' word => s' = t.afterFetch word) t.fetch
      (Core.fetchStage accessed.memory s.core.nextPc
        (s.core.stop + s.core.exitStop env + decoded.hits)) := by
    subst ht
    exact fetch_agree hinv.fetchLoad
  refine hfetch.bind ?_
  rintro _ word rfl
  have hdrain : Pending (t.afterFetch word).pipeline accessed.pending := by
    subst ht
    exact hpending
  have hmemory : (t.afterFetch word).memory = accessed.memory := by
    subst ht
    rfl
  have hupdates := updates_agree hdrain
  rw [hmemory] at hupdates
  rw [← bind_pure (t.afterFetch word).updates]
  refine hupdates.bind ?_
  rintro _ ⟨memory, -⟩ ⟨pipeline', hqueue, hstore, rfl⟩
  exact ⟨core_final word memory hinv haccess hmatch,
    inv_final word memory hinv haccess hdecode hmatch hqueue hstore⟩

def untilDecode (env : Env) (s : PerfSim) : Except Error PerfSim := do
  let s ← s.writeBack
  let s ← s.memoryAccess env
  s.execute env

def decodes (s : PerfSim) : Bool :=
  !(s.fdSt.load.isStall || s.fdSt.load.hazardStall) && !s.deSt.isStop

theorem untilDecode_eq {accessed : Core.Accessed} (hinv : s.Inv)
    (haccess : s.core.memStage env = .ok accessed) :
    ∃ pipeline, s.untilDecode env = .ok (s.beforeDecode env accessed pipeline) := by
  obtain ⟨t, ht, pipeline, -, rfl⟩ := (memoryAccess_agree (s := s.afterWriteBack) hinv.mwStop
    hinv.mwStore hinv.queue hinv.pending hinv.em).of_ok_right haccess
  refine ⟨pipeline, ?_⟩
  simp only [untilDecode, writeBack_eq hinv.mw hinv.mwHazard, bind, Except.bind]
  rw [ht]
  simp only
  rw [execute_eq (s := s.afterWriteBack.afterAccess accessed pipeline) hinv.emStop
    hinv.emStore (holds_afterAccess hinv haccess), afterExecute_eq hinv pipeline haccess]

theorem untilDecode_ok {t : PerfSim} (hinv : s.Inv) (h : s.untilDecode env = .ok t) :
    ∃ accessed pipeline, s.core.memStage env = .ok accessed ∧
      t = s.beforeDecode env accessed pipeline := by
  have hstages := h
  unfold untilDecode at hstages
  obtain ⟨t', hwrite, hstages⟩ := ok_of_bind hstages
  rw [writeBack_eq hinv.mw hinv.mwHazard] at hwrite
  cases hwrite
  obtain ⟨t', hmem, -⟩ := ok_of_bind hstages
  obtain ⟨accessed, haccess, -⟩ := (memoryAccess_agree (s := s.afterWriteBack) hinv.mwStop
    hinv.mwStore hinv.queue hinv.pending hinv.em).of_ok hmem
  obtain ⟨pipeline, ht⟩ := untilDecode_eq hinv haccess
  refine ⟨accessed, pipeline, haccess, ?_⟩
  rw [ht] at h
  cases h
  rfl

/-! ## Runs -/

theorem boot_inv (memory : Memory) (pc : BitVec 32) (values : RegName → BitVec 32) :
    (boot memory pc values).Inv := by
  constructor <;> simp [boot, WF.clear, FD.clear, InstrLatch.clear, InstrLatch.Holds,
    Store.clear, bootRegs, RegFile.Named]

end PerfSim

end RiscvPerfSim
