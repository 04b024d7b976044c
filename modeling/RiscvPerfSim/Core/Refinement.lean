import RiscvPerfSim.Core.DecodeStage

/-!
# The simulator refines the abstract pipeline

One cycle of `PerfSim` is one cycle of `Core` on the instructions that its
latches point to, and the invariant on latches and objects survives it.
-/

namespace RiscvPerfSim

open Foundation

/-! ## Latches and objects -/

namespace InstrLatch

variable {latch : InstrLatch} {decoder : Decoder}

theorem slotOf_eq_some {instr : Instruction} {killed : Bool}
    (h : latch.slotOf decoder = some ⟨instr, killed⟩) :
    latch.isStall = false ∧ latch.hazardStall = killed ∧
      ∃ ptr, latch.instr = some ptr ∧ decoder.get ptr = instr := by
  cases hstall : latch.isStall with
  | true => simp [slotOf, hstall] at h
  | false =>
      cases hptr : latch.instr with
      | none => simp [slotOf, hstall, hptr] at h
      | some ptr =>
          simp only [slotOf, hstall, hptr, Bool.false_eq_true, if_false, Option.map_some,
            Option.some.injEq, Slot.mk.injEq] at h
          exact ⟨rfl, h.2, ptr, rfl, h.1⟩

theorem slotOf_of_instrOf {instr : Instruction} (h : latch.instrOf decoder = some instr) :
    latch.slotOf decoder = some ⟨instr, false⟩ := by
  unfold instrOf at h
  split_ifs at h with hlive
  obtain ⟨hstall, hkill⟩ := isLive_iff.mp hlive
  obtain ⟨ptr, hptr, rfl⟩ := Option.map_eq_some_iff.mp h
  rw [slotOf_of_ptr _ hstall hptr, hkill]

end InstrLatch

namespace Decoder

variable {decoder : Decoder}

@[simp] theorem nextPtr_assign (ptr : Option InstrPtr) (instr : Option Instruction)
    (type : InstrType) : (decoder.assign ptr instr).nextPtr type = decoder.nextPtr type := by
  simp [nextPtr]

theorem get_allocated_ne {ptr : InstrPtr} {type : InstrType} {instr : Instruction}
    (h : ptr ≠ decoder.nextPtr type) :
    (decoder.allocated type instr).get ptr = decoder.get ptr := by
  rw [allocated, get_set_ne _ _ h, get_getNext]

theorem get_allocated (type : InstrType) (instr : Instruction) :
    (decoder.allocated type instr).get (decoder.nextPtr type) = instr := by
  simp [allocated]

theorem index_allocated (type type' : InstrType) (instr : Instruction) :
    (decoder.allocated type instr).index type' =
      if type' = type then decoder.index type' + 1 else decoder.index type' := by
  rw [allocated, index_set, index_getNext]

end Decoder

namespace PerfSim

variable {env : Env} {s : PerfSim} {accessed : Core.Accessed}

/-! ## The objects after memory access and execute -/

def midway (env : Env) (s : PerfSim) (accessed : Core.Accessed) : Decoder :=
  (s.decoder.assign s.emSt.load.instr accessed.mw).assign s.deSt.load.instr
    (s.core.executing env)

@[simp] theorem index_midway (type : InstrType) :
    (s.midway env accessed).index type = s.decoder.index type := by
  simp [midway]

@[simp] theorem nextPtr_midway (type : InstrType) :
    (s.midway env accessed).nextPtr type = s.decoder.nextPtr type := by
  simp [midway]

theorem executing_eq_some {instr : Instruction} (h : s.core.executing env = some instr) :
    s.deSt.load.isStall = false ∧ s.deSt.load.hazardStall = false ∧
      ∃ ptr, s.deSt.load.instr = some ptr ∧ (s.decoder.get ptr).executed env = instr := by
  obtain ⟨i, hde, rfl⟩ := Core.executing_eq_some h
  obtain ⟨hstall, hkill, ptr, hptr, rfl⟩ := InstrLatch.slotOf_eq_some hde
  exact ⟨hstall, hkill, ptr, hptr, rfl⟩

section Midway

variable (hinv : s.Inv)
include hinv

/-- An object that memory access and execute share belongs to a SYSTEM word. -/
private theorem shared_system {ptr : InstrPtr} {instr instr' : Instruction}
    (hde : s.deSt.load.isStall = false) (hptr : s.deSt.load.instr = some ptr)
    (hem : s.emSt.load.isStall = false) (hptr' : s.emSt.load.instr = some ptr)
    (hget : s.decoder.get ptr = instr)
    (hload : Core.loadEffect env s.clocks accessed.memory instr = .ok instr') :
    instr' = instr ∧ instr.executed env = instr := by
  have htype : ptr.type = .system :=
    (hinv.apart ptr ptr hde hem hptr hptr').resolve_left fun h => h rfl
  obtain ⟨p, word, hp, -, hcarries, hclass⟩ := hinv.de hde
  obtain rfl : ptr = p := by
    rw [hptr] at hp
    exact Option.some.inj hp
  rw [hget] at hcarries hclass
  have hsystem : instr.type = .system := hclass.trans htype
  have hnone := hcarries.memAccType_system hsystem
  rw [Core.loadEffect_of_ne (by simp [hnone])] at hload
  cases hload
  exact ⟨rfl, hcarries.executed_system hsystem⟩

variable (haccess : s.core.memStage env = .ok accessed)
include haccess

private theorem accessed_de {ptr : InstrPtr} (hde : s.deSt.load.isStall = false)
    (hptr : s.deSt.load.instr = some ptr) :
    (s.decoder.assign s.emSt.load.instr accessed.mw).get ptr = s.decoder.get ptr := by
  rcases Core.memStage_ok haccess with ⟨instr, instr', hem, hmw, -, hload⟩ | ⟨-, rfl⟩
  · obtain ⟨hstall, -, ptr', hptr', hget⟩ := InstrLatch.slotOf_eq_some hem
    by_cases heq : ptr' = ptr
    · subst heq
      obtain ⟨hsame, -⟩ := shared_system hinv hde hptr hstall hptr' hget hload
      rw [hptr', hmw, hsame, ← hget]
      exact Decoder.get_set_self ..
    · exact Decoder.get_assign_ne _ _ (by rw [hptr']; simpa using heq)
  · rw [Decoder.assign_none]

theorem core_afterAccess_de :
    s.deSt.load.slotOf (s.decoder.assign s.emSt.load.instr accessed.mw) = s.core.de := by
  cases hstall : s.deSt.load.isStall with
  | true => simp [InstrLatch.slotOf, hstall]
  | false =>
      obtain ⟨ptr, -, hptr, -⟩ := hinv.de hstall
      rw [core_de, InstrLatch.slotOf_of_ptr _ hstall hptr, InstrLatch.slotOf_of_ptr _ hstall hptr,
        accessed_de hinv haccess hstall hptr]

theorem holds_afterAccess :
    s.deSt.load.Holds (s.decoder.assign s.emSt.load.instr accessed.mw) 1 := by
  intro hstall
  obtain ⟨ptr, word, hptr, hyoung, hcarries, hclass⟩ := hinv.de hstall
  have hget := accessed_de hinv haccess hstall hptr
  refine ⟨ptr, word, hptr, hyoung.of_index_eq (Decoder.index_assign ..), ?_, ?_⟩
  · rw [hget]
    exact hcarries
  · rw [hget, hclass]

theorem get_midway_de {ptr : InstrPtr} (hde : s.deSt.load.isStall = false)
    (hptr : s.deSt.load.instr = some ptr) :
    (s.midway env accessed).get ptr =
      (s.core.executing env).getD (s.decoder.get ptr) := by
  unfold midway
  rw [hptr]
  cases s.core.executing env with
  | none => exact accessed_de hinv haccess hde hptr
  | some instr => exact Decoder.get_set_self ..

theorem get_midway_em {ptr : InstrPtr} {instr : Instruction}
    (hmw : accessed.mw = some instr) (hptr : s.emSt.load.instr = some ptr) :
    (s.midway env accessed).get ptr = instr := by
  rcases Core.memStage_ok haccess with ⟨i, i', hem, hmw', -, hload⟩ | ⟨-, rfl⟩
  · obtain rfl : i' = instr := by
      rw [hmw'] at hmw
      exact Option.some.inj hmw
    obtain ⟨hstall, -, p, hp, hget⟩ := InstrLatch.slotOf_eq_some hem
    obtain rfl : ptr = p := by
      rw [hptr] at hp
      exact Option.some.inj hp
    have hfirst : (s.decoder.assign s.emSt.load.instr accessed.mw).get ptr = i' := by
      rw [hptr, hmw]
      exact Decoder.get_set_self ..
    cases hexec : s.core.executing env with
    | none => rw [midway, hexec, Decoder.assign_none, hfirst]
    | some x =>
        by_cases hshared : s.deSt.load.instr = some ptr
        · obtain ⟨hde, -, q, hq, hrun⟩ := executing_eq_some hexec
          obtain rfl : ptr = q := by
            rw [hshared] at hq
            exact Option.some.inj hq
          obtain ⟨hsame, hidle⟩ := shared_system hinv hde hshared hstall hptr hget hload
          rw [get_midway_de hinv haccess hde hshared, hexec, Option.getD_some, hsame, ← hrun,
            hget, hidle]
        · rw [midway, Decoder.get_assign_ne _ _ hshared, hfirst]
  · cases hmw

theorem get_midway_next (type : InstrType) :
    (s.midway env accessed).get (s.decoder.nextPtr type) =
      s.decoder.get (s.decoder.nextPtr type) := by
  have hem : (s.decoder.assign s.emSt.load.instr accessed.mw).get (s.decoder.nextPtr type) =
      s.decoder.get (s.decoder.nextPtr type) := by
    rcases Core.memStage_ok haccess with ⟨i, i', hem, -⟩ | ⟨-, rfl⟩
    · obtain ⟨hstall, -⟩ := InstrLatch.slotOf_eq_some hem
      obtain ⟨ptr, -, hptr, hlive, -⟩ := hinv.em hstall
      apply Decoder.get_assign_ne
      rw [hptr, ne_eq, Option.some.injEq]
      exact hlive.ne_nextPtr (by decide)
    · rw [Decoder.assign_none]
  unfold midway
  cases hexec : s.core.executing env with
  | none => rw [Decoder.assign_none, hem]
  | some x =>
      obtain ⟨hde, -⟩ := executing_eq_some hexec
      obtain ⟨ptr, -, hptr, hlive, -⟩ := hinv.de hde
      rw [Decoder.get_assign_ne, hem]
      rw [hptr, ne_eq, Option.some.injEq]
      exact hlive.ne_nextPtr (by decide)

end Midway

/-! ## Up to decode -/

def beforeDecode (env : Env) (s : PerfSim) (accessed : Core.Accessed)
    (pipeline : Pipeline) : PerfSim :=
  let c := s.core
  { s.afterWriteBack with
    rf := c.exRf
    decoder := s.midway env accessed
    memory := accessed.memory
    pipeline := pipeline
    fetchSt := (s.fetchSt.modifyStore (jumped (c.target env))).extend (c.exitStop env)
    fdSt := (s.fdSt.modifyStore (markedFd (c.target env).isSome)).extend (c.exitStop env)
    deSt := ((s.deSt.modifyStore (marked (c.target env).isSome)).modifyLoad
      (marked (c.exits env))).extend (c.exitStop env)
    emSt := { s.emSt with store := s.deSt.load.moved }
    mwSt := { s.mwSt with store := s.emSt.load.moved }
    hu := { s.hu with
      branches := if (c.target env).isSome then s.hu.branches + 1 else s.hu.branches } }

section Decode

variable (hinv : s.Inv) (pipeline : Pipeline)
include hinv

theorem beforeDecode_wired :
    (s.beforeDecode env accessed pipeline).toDatapath.Wired where
  de := fun hlive => by
    have hstall : s.deSt.load.isStall = false := by
      cases hexits : s.core.exits env <;>
        simp_all [beforeDecode, Stage.modifyStore, Stage.modifyLoad, Stage.extend, marked,
          InstrLatch.isLive]
    obtain ⟨ptr, -, hptr, -⟩ := hinv.de hstall
    refine ⟨ptr, ?_⟩
    cases hexits : s.core.exits env <;>
      simpa [beforeDecode, Stage.modifyStore, Stage.modifyLoad, Stage.extend, marked,
        hexits] using hptr
  em := fun hlive => by
    obtain ⟨hstall, -⟩ := InstrLatch.isLive_iff.mp hlive
    obtain ⟨ptr, -, hptr, -⟩ := hinv.em hstall
    exact ⟨ptr, hptr⟩

variable (haccess : s.core.memStage env = .ok accessed)
include haccess

theorem afterExecute_eq :
    (s.afterWriteBack.afterAccess accessed pipeline).afterExecute env =
      s.beforeDecode env accessed pipeline := by
  let t := s.afterWriteBack.afterAccess accessed pipeline
  have hde : t.core.de = s.core.de := core_afterAccess_de hinv haccess
  have hexec : t.core.executing env = s.core.executing env := Core.executing_congr hde
  have htarget : t.core.target env = s.core.target env := by
    simp only [Core.target, hexec]
  have hexits : t.core.exits env = s.core.exits env := by
    simp only [Core.exits, hexec]
  have hstop : t.core.exitStop env = s.core.exitStop env := by
    simp only [Core.exitStop, hexits]
  change t.afterExecute env = _
  simp only [afterExecute, hde, hexec, htarget, hexits, hstop]
  rfl

private theorem beforeDecode_leftover :
    (s.beforeDecode env accessed pipeline).leftover = s.leftover := by
  change (s.midway env accessed).get
      ((s.midway env accessed).nextPtr (Decoder.recognize s.fdSt.load.instr).type) = _
  rw [nextPtr_midway, get_midway_next hinv haccess]
  rfl

theorem beforeDecode_de (hexits : s.core.exits env = false) :
    (s.beforeDecode env accessed pipeline).deSt.load.instrOf (s.midway env accessed) =
      s.core.executing env := by
  have hload : (s.beforeDecode env accessed pipeline).deSt.load = s.deSt.load := by
    simp [beforeDecode, hexits, Stage.modifyStore, Stage.modifyLoad, Stage.extend]
  rw [hload]
  cases hlive : s.deSt.load.isLive with
  | false =>
      have hexec : s.core.executing env = none := by
        cases hexec : s.core.executing env with
        | none => rfl
        | some i =>
            obtain ⟨hstall, hkill, -⟩ := executing_eq_some hexec
            simp [InstrLatch.isLive, hstall, hkill] at hlive
      simp [InstrLatch.instrOf, hlive, hexec]
  | true =>
      obtain ⟨hstall, hkill⟩ := InstrLatch.isLive_iff.mp hlive
      obtain ⟨ptr, -, hptr, -⟩ := hinv.de hstall
      have hexec : s.core.executing env = some ((s.decoder.get ptr).executed env) := by
        simp [Core.executing, InstrLatch.slotOf_of_ptr _ hstall hptr, hkill]
      simp [InstrLatch.instrOf, hlive, hptr, get_midway_de hinv haccess hstall hptr, hexec]

theorem instrOf_midway_em :
    s.emSt.load.instrOf (s.midway env accessed) = accessed.mw := by
  rcases Core.memStage_ok haccess with ⟨i, i', hem, hmw, -⟩ | ⟨hem, rfl⟩
  · obtain ⟨hstall, hkill, ptr, hptr, -⟩ := InstrLatch.slotOf_eq_some hem
    simp [InstrLatch.instrOf, InstrLatch.isLive, hstall, hkill, hptr, hmw,
      get_midway_em hinv haccess hmw hptr]
  · cases hlive : s.emSt.load.isLive with
    | false => simp [InstrLatch.instrOf, hlive]
    | true =>
        obtain ⟨hstall, hkill⟩ := InstrLatch.isLive_iff.mp hlive
        obtain ⟨ptr, -, hptr, -⟩ := hinv.em hstall
        exact absurd (by rw [core_em, InstrLatch.slotOf_of_ptr _ hstall hptr, hkill])
          (hem (s.decoder.get ptr))

theorem decodeStage_agree :
    Agree (s.beforeDecode env accessed pipeline).DecodeMatch
      ((s.beforeDecode env accessed pipeline).decode env)
      (s.core.decodeStage env s.leftover accessed.mw) := by
  have hidle (hnone : s.core.decoding env = none)
      (hcause : (s.fdSt.load.isStall || s.fdSt.load.hazardStall) = true ∨
        0 < s.deSt.stopCount + s.core.exitStop env) :
      Agree (s.beforeDecode env accessed pipeline).DecodeMatch
        ((s.beforeDecode env accessed pipeline).decode env)
        (s.core.decodeStage env s.leftover accessed.mw) := by
    obtain ⟨t, hrun, hmatch⟩ :=
      decode_idle env (s := s.beforeDecode env accessed pipeline) hcause
    rw [Core.decodeStage, hnone, hrun]
    exact hmatch
  cases hfd : s.fdSt.load.isStall || s.fdSt.load.hazardStall with
  | true =>
      refine hidle ?_ (.inl hfd)
      rw [Bool.or_eq_true] at hfd
      rcases hfd with hstall | hkill
      · simp [Core.decoding, core, fetched, hstall]
      · cases hstall : s.fdSt.load.isStall <;>
          simp [Core.decoding, core, fetched, hstall, hkill]
  | false =>
      obtain ⟨hstall, hkill⟩ := Bool.or_eq_false_iff.mp hfd
      have hfetched : s.core.fd = some ⟨s.fdSt.load.pc, s.fdSt.load.instr, false⟩ := by
        simp [core, fetched, hstall, hkill]
      by_cases hstop : s.deSt.stopCount + s.core.exitStop env = 0
      · have hexits : s.core.exits env = false := by
          cases hexits : s.core.exits env with
          | false => rfl
          | true => simp [Core.exitStop, hexits] at hstop
        have hdecoding : s.core.decoding env =
            some ⟨s.fdSt.load.pc, s.fdSt.load.instr, false⟩ := by
          simp only [Core.decoding, hfetched]
          exact if_pos hstop
        have hagree := decode_agree env (s := s.beforeDecode env accessed pipeline)
          (beforeDecode_wired hinv pipeline) hfd hstop
        rw [beforeDecode_leftover hinv pipeline haccess] at hagree
        rw [Core.decodeStage, hdecoding, ← beforeDecode_de hinv pipeline haccess hexits,
          ← instrOf_midway_em hinv haccess]
        exact hagree
      · refine hidle ?_ (.inr (Nat.pos_of_ne_zero hstop))
        simp only [Core.decoding, hfetched]
        exact if_neg hstop

end Decode

end PerfSim

end RiscvPerfSim
