import RiscvPerfSim.Core.Bypass
import RiscvPerfSim.Core.Reachable

/-!
# Load-use hits

A word in decode that wants a register which the load in execute is still to
fetch.  If it needs the value for its execute stage, decode charges a stop, and
in no other cycle; if it is to store the value, decode raises.
-/

namespace RiscvPerfSim

namespace Decoder

variable {word : BitVec 32}

theorem reads_rs1 (h : readsRs1 (recognize word).type = true) :
    reads word (numRs1 word) = true := by
  simp [reads, needs, h]

theorem reads_rs2 (h : readsRs2 (recognize word).type = true) :
    reads word (numRs2 word) = true := by
  cases hstage : rs2Stage (recognize word) <;> simp [reads, needs, stores, h, hstage]

end Decoder

namespace Core

variable {env : Env} {old : Instruction} {c : Core} {accessed : Accessed}
  {decoded : Decoded} {load : Instruction} {fetched : Fetched} {num : RegName}
  {wants : BitVec 32 → RegName → Bool}

structure LoadAhead (wants : BitVec 32 → RegName → Bool) (c : Core) (load : Instruction)
    (fetched : Fetched) (num : RegName) : Prop where
  de : c.de = some ⟨load, false⟩
  isLoad : HazardUnit.isLoad load = true
  writes : load.writes num = true
  notZero : num ≠ 0
  fd : c.fd = some fetched
  live : fetched.killed = false
  wants : wants fetched.word num = true

abbrev LoadUse : Core → Instruction → Fetched → RegName → Prop := LoadAhead Decoder.needs

abbrev StoreUse : Core → Instruction → Fetched → RegName → Prop := LoadAhead Decoder.stores

theorem Inv.deStop_of_live (hinv : c.Inv) (hde : c.de = some ⟨load, false⟩) : c.deStop = 0 := by
  cases hinv.control with
  | running hstop => exact hstop
  | held hstop => exact hstop
  | frozen hpos hstop hle instr hslot =>
      rw [hde, Option.some.injEq, Slot.mk.injEq] at hslot
      cases hslot.2

structure LoadAhead.Executing (env : Env) (c : Core) (load : Instruction) (fetched : Fetched)
    (num : RegName) : Prop where
  executing : c.executing env = some (load.executed env)
  isLoad : HazardUnit.isLoad (load.executed env) = true
  writes : (load.executed env).writes num = true
  exits : c.exits env = false
  target : c.target env = none
  decoding : c.decoding env = some fetched

theorem LoadAhead.executing (env : Env) (hinv : c.Inv) (h : c.LoadAhead wants load fetched num) :
    Executing env c load fetched num := by
  have hexec : c.executing env = some (load.executed env) := by
    rw [Core.executing, h.de]
  obtain ⟨word, hcarries⟩ := hinv.decoded _ h.de
  have hfixed : (load.executed env).fixed = load.fixed := hcarries.executed_fixed
  have hload : HazardUnit.isLoad (load.executed env) = true := by
    rw [Instruction.isLoad_of_fixed hfixed]
    exact h.isLoad
  obtain ⟨htype, htarget⟩ := hcarries.executed.of_isLoad hload
  have hexits : c.exits env = false := by
    simp [exits, hexec, htype]
  constructor
  case executing => exact hexec
  case isLoad => exact hload
  case writes =>
    rw [Instruction.writes_of_fixed hfixed]
    exact h.writes
  case exits => exact hexits
  case target => simp [Core.target, hexec, htarget]
  case decoding =>
    have hlive := h.live
    have hfd := h.fd
    have hstop := hinv.deStop_of_live h.de
    rcases fetched with ⟨pc, w, killed⟩
    dsimp only at hlive
    subst hlive
    simp [Core.decoding, hfd, hstop, exitStop, hexits]

theorem operand_load (hinv : c.Inv) (haccess : c.memStage env = .ok accessed) (hnum : num ≠ 0)
    (hexec : c.executing env = some load) (hload : HazardUnit.isLoad load = true)
    (hwrites : load.writes num = true) (stage : PipelineStage) :
    operand env c.exRf (c.executing env) accessed.mw num stage =
      if stage = .execute then .ok (c.exRf.regs num, 1)
      else .error (.runtime "load hazart") := by
  have hlock : c.exRf.regLocker num ≠ 0 := by
    rw [regLocker_exRf hinv haccess, if_neg hnum, hexec, claim_some, hwrites, if_pos rfl]
    have hem := claim_nonneg accessed.mw num
    omega
  have hfeeds : feeds (some load) num = some load := by
    simp [feeds, Option.filter_some, hwrites]
  unfold operand
  rw [if_neg hlock, exRf_named hinv.named num, hexec, hfeeds]
  exact if_pos hload

theorem LoadAhead.hits_pos (hinv : c.Inv) (h : c.LoadUse load fetched num)
    (haccess : c.memStage env = .ok accessed)
    (hdecode : c.decodeStage env old accessed.mw = .ok decoded) : 0 < decoded.hits := by
  have hexec := h.executing env hinv
  have hhit := operand_load hinv haccess h.notZero hexec.executing hexec.isLoad hexec.writes
    .execute
  rw [if_pos rfl] at hhit
  rcases decodeStage_ok hdecode with ⟨f, hf, hword⟩ | ⟨hnone, -⟩
  · rw [hexec.decoding, Option.some.injEq] at hf
    subst hf
    obtain ⟨rs1, rs2, hits1, hits2, h1, h2, rfl⟩ := decodeWord_ok hword
    have hneeds := h.wants
    simp only [Decoder.needs, Bool.or_eq_true, Bool.and_eq_true, decide_eq_true_eq] at hneeds
    change 0 < hits1 + hits2
    rcases hneeds with ⟨hreads, hrs1⟩ | ⟨⟨hreads, hstage⟩, hrs2⟩
    · rw [operand1, if_pos hreads, hrs1, hhit] at h1
      cases h1
      omega
    · rw [operand2, if_pos hreads, hrs2, hstage, hhit] at h2
      cases h2
      omega
  · rw [hexec.decoding] at hnone
    cases hnone

theorem hits_pos_iff (hinv : c.Inv) (haccess : c.memStage env = .ok accessed)
    (hdecode : c.decodeStage env old accessed.mw = .ok decoded) :
    0 < decoded.hits ↔ ∃ load fetched num, c.LoadUse load fetched num := by
  constructor
  · intro hpos
    obtain ⟨-, -, -, -, ld, instr, word, num, hexec, hload, -, hfd, -, hneeds, hwrites, hlock,
      -⟩ := hits_spec hinv hdecode hpos
    obtain ⟨i, w, hde, -, -, -, hfixed⟩ := executing_spec hinv hexec
    have hnum : num ≠ 0 := by
      rintro rfl
      exact hlock (regLocker_exRf hinv haccess 0)
    refine ⟨i, _, num, hde, ?_, ?_, hnum, hfd, rfl, hneeds⟩
    · rw [← Instruction.isLoad_of_fixed hfixed]
      exact hload
    · rw [← Instruction.writes_of_fixed hfixed]
      exact hwrites
  · rintro ⟨load, fetched, num, h⟩
    exact h.hits_pos hinv haccess hdecode

/-! ## No load in front of its consumer -/

section Clear

variable (hinv : c.Inv) (huse : ∀ load fetched num, ¬ c.LoadUse load fetched num)
  (hstore : ∀ load fetched num, ¬ c.StoreUse load fetched num)
include hinv huse hstore

theorem not_load_of_reads (hdecoding : c.decoding env = some fetched)
    (hreads : Decoder.reads fetched.word num = true) : ∀ ld, c.executing env = some ld →
      HazardUnit.isLoad ld = true → ld.writes num = true → num = 0 := by
  intro ld hexec hload hwrites
  obtain ⟨i, w, hde, -, -, -, hfixed⟩ := executing_spec hinv hexec
  rw [Instruction.isLoad_of_fixed hfixed] at hload
  rw [Instruction.writes_of_fixed hfixed] at hwrites
  obtain ⟨hfd, -⟩ := decoding_eq_some hdecoding
  by_contra hnum
  rcases Bool.or_eq_true_iff.mp hreads with hneeds | hstores
  · exact huse i _ num ⟨hde, hload, hwrites, hnum, hfd, rfl, hneeds⟩
  · exact hstore i _ num ⟨hde, hload, hwrites, hnum, hfd, rfl, hstores⟩

theorem decodeStage_clear (old : Instruction) (haccess : c.memStage env = .ok accessed) :
    ∃ decoded, c.decodeStage env old accessed.mw = .ok decoded ∧ decoded.hits = 0 ∧
      ∀ fetched, c.decoding env = some fetched → ∃ rs1 rs2, decoded.instr =
          some { Decoder.fill old fetched.word rs1 rs2
            (c.exRf.regs (Decoder.numRd fetched.word)) with pc := fetched.pc } ∧
        (Decoder.readsRs1 (Decoder.recognize fetched.word).type = true →
          rs1.value = c.bypassed env accessed.mw (Decoder.numRs1 fetched.word)) ∧
        (Decoder.readsRs2 (Decoder.recognize fetched.word).type = true →
          rs2.value = c.bypassed env accessed.mw (Decoder.numRs2 fetched.word)) := by
  unfold decodeStage
  cases hdecoding : c.decoding env with
  | none => exact ⟨_, rfl, rfl, fun _ h => by cases h⟩
  | some fetched =>
      have hclear (num : RegName) (hreads : Decoder.reads fetched.word num = true) :=
        not_load_of_reads hinv huse hstore hdecoding hreads
      have hfirst : ∃ rs1, operand1 env c.exRf (c.executing env) accessed.mw fetched.word =
          .ok (rs1, 0) ∧ (Decoder.readsRs1 (Decoder.recognize fetched.word).type = true →
            rs1.value = c.bypassed env accessed.mw (Decoder.numRs1 fetched.word)) := by
        unfold operand1
        split_ifs with hreads
        · obtain ⟨reg, hread, hvalue⟩ := operand_bypassed hinv haccess .execute
            (hclear _ (Decoder.reads_rs1 hreads))
          exact ⟨reg, hread, fun _ => hvalue⟩
        · exact ⟨_, rfl, fun h => absurd h hreads⟩
      have hsecond : ∃ rs2, operand2 env c.exRf (c.executing env) accessed.mw fetched.word =
          .ok (rs2, 0) ∧ (Decoder.readsRs2 (Decoder.recognize fetched.word).type = true →
            rs2.value = c.bypassed env accessed.mw (Decoder.numRs2 fetched.word)) := by
        unfold operand2
        split_ifs with hreads
        · obtain ⟨reg, hread, hvalue⟩ := operand_bypassed hinv haccess _
            (hclear _ (Decoder.reads_rs2 hreads))
          exact ⟨reg, hread, fun _ => hvalue⟩
        · exact ⟨_, rfl, fun h => absurd h hreads⟩
      obtain ⟨rs1, h1, hvalue1⟩ := hfirst
      obtain ⟨rs2, h2, hvalue2⟩ := hsecond
      have hword : decodeWord env old c.exRf (c.executing env) accessed.mw fetched.pc
          fetched.word = .ok ⟨some { Decoder.fill old fetched.word rs1 rs2
            (c.exRf.regs (Decoder.numRd fetched.word)) with pc := fetched.pc },
            lockedRf c.exRf fetched.word, 0⟩ := by
        simp only [decodeWord, h1, h2, bind, Except.bind]
        rfl
      refine ⟨_, hword, rfl, ?_⟩
      rintro f hf
      cases hf
      exact ⟨rs1, rs2, rfl, hvalue1, hvalue2⟩

end Clear

end Core

theorem InstrLatch.live_slotOf (latch : InstrLatch) (decoder : Decoder) :
    Core.live (latch.slotOf decoder) = latch.instrOf decoder := by
  cases hstall : latch.isStall with
  | true => simp [slotOf, instrOf, isLive, hstall, Core.live]
  | false =>
      cases hptr : latch.instr with
      | none => simp [slotOf, instrOf, hstall, hptr, Core.live]
      | some ptr =>
          cases hkill : latch.hazardStall <;>
            simp [slotOf, instrOf, isLive, hstall, hptr, hkill, Core.live]

namespace PerfSim

variable {env : Env} {s : PerfSim} {load : Instruction} {num : RegName}
  {wants : BitVec 32 → RegName → Bool}

theorem instrOf_de (s : PerfSim) : s.deSt.load.instrOf s.decoder = Core.live s.core.de :=
  (InstrLatch.live_slotOf _ _).symm

theorem instrOf_em (s : PerfSim) : s.emSt.load.instrOf s.decoder = Core.live s.core.em :=
  (InstrLatch.live_slotOf _ _).symm

theorem executing_core (env : Env) (s : PerfSim) : s.core.executing env =
    (s.deSt.load.instrOf s.decoder).map fun instr => instr.executed env := by
  rw [Core.live_de env, instrOf_de]

/--
The cycle that leaves `s` executes a live load of `num` and decodes a live word
that wants the loaded value.
-/
structure LoadAhead (wants : BitVec 32 → RegName → Bool) (s : PerfSim) (load : Instruction)
    (num : RegName) : Prop where
  de : s.deSt.load.instrOf s.decoder = some load
  isLoad : HazardUnit.isLoad load = true
  writes : load.writes num = true
  notZero : num ≠ REGISTER_NAME_ZERO
  decodes : s.decodes = true
  wants : wants s.fdSt.load.instr num = true

/-- The word needs the loaded value in its execute stage. -/
abbrev LoadUse : PerfSim → Instruction → RegName → Prop := LoadAhead Decoder.needs

/-- The word is a store of the loaded value. -/
abbrev StoreUse : PerfSim → Instruction → RegName → Prop := LoadAhead Decoder.stores

def aheadTest (wants : BitVec 32 → RegName → Bool) (s : PerfSim) (num : RegName) : Bool :=
  (s.deSt.load.instrOf s.decoder).any (fun load => HazardUnit.isLoad load && load.writes num) &&
    s.decodes && wants s.fdSt.load.instr num

theorem loadAhead_iff_test (hnum : num ≠ REGISTER_NAME_ZERO) :
    (∃ load, s.LoadAhead wants load num) ↔ s.aheadTest wants num = true := by
  simp only [aheadTest, Bool.and_eq_true, Option.any_eq_true]
  constructor
  · rintro ⟨load, h⟩
    exact ⟨⟨⟨load, h.de, h.isLoad, h.writes⟩, h.decodes⟩, h.wants⟩
  · rintro ⟨⟨⟨load, hde, hload, hwrites⟩, hdecodes⟩, hwants⟩
    exact ⟨load, hde, hload, hwrites, hnum, hdecodes, hwants⟩

def freeTest (wants : BitVec 32 → RegName → Bool) (s : PerfSim) : Bool :=
  (s.deSt.load.instrOf s.decoder).all fun load =>
    load.rd.name = REGISTER_NAME_ZERO || !s.aheadTest wants load.rd.name

theorem not_loadAhead_iff_test :
    (∀ load num, ¬ s.LoadAhead wants load num) ↔ s.freeTest wants = true := by
  simp only [freeTest, Option.all_eq_true, Bool.or_eq_true, decide_eq_true_eq,
    Bool.not_eq_true']
  constructor
  · intro h load hde
    by_cases hnum : load.rd.name = REGISTER_NAME_ZERO
    · exact .inl hnum
    · right
      rw [Bool.eq_false_iff, ne_eq, ← loadAhead_iff_test hnum]
      rintro ⟨load', huse⟩
      exact h load' _ huse
  · intro h load num huse
    have hname : load.rd.name = num :=
      of_decide_eq_true (Bool.and_eq_true_iff.mp huse.writes).2
    subst hname
    rcases h load huse.de with hzero | hfalse
    · exact huse.notZero hzero
    · rw [(loadAhead_iff_test huse.notZero).mp ⟨load, huse⟩] at hfalse
      cases hfalse

def fdLoad (s : PerfSim) : Fetched := ⟨s.fdSt.load.pc, s.fdSt.load.instr, false⟩

theorem LoadAhead.core (h : s.LoadAhead wants load num) :
    s.core.LoadAhead wants load s.fdLoad num where
  de := InstrLatch.slotOf_of_instrOf h.de
  isLoad := h.isLoad
  writes := h.writes
  notZero := h.notZero
  fd := by
    have hdecodes := h.decodes
    simp only [PerfSim.decodes, Bool.and_eq_true, Bool.not_eq_true', Bool.or_eq_false_iff]
      at hdecodes
    obtain ⟨⟨hstall, hkill⟩, -⟩ := hdecodes
    change PerfSim.fetched s.fdSt.load = some s.fdLoad
    rw [PerfSim.fetched, hstall, hkill]
    rfl
  live := rfl
  wants := h.wants

theorem Good.loadAhead_iff (hgood : s.Good) {fetched : Fetched} :
    s.core.LoadAhead wants load fetched num ↔
      s.LoadAhead wants load num ∧ fetched = s.fdLoad := by
  constructor
  · intro h
    obtain ⟨hstall, hkill, ptr, hptr, hget⟩ := InstrLatch.slotOf_eq_some h.de
    have hfd : PerfSim.fetched s.fdSt.load = some fetched := h.fd
    have hstop : s.deSt.stopCount = 0 := hgood.pipeline.deStop_of_live h.de
    have hlive := h.live
    unfold PerfSim.fetched at hfd
    split_ifs at hfd with hfdStall
    rw [Option.some.injEq] at hfd
    subst hfd
    dsimp only at hlive
    refine ⟨⟨?_, h.isLoad, h.writes, h.notZero, ?_, h.wants⟩, by rw [hlive]; rfl⟩
    · simp [InstrLatch.instrOf, InstrLatch.isLive, hstall, hkill, hptr, hget]
    · simp [decodes, Stage.isStop, hfdStall, hlive, hstop]
  · rintro ⟨h, rfl⟩
    exact h.core

theorem Good.mw_of_loadUse (hgood : s.Good) (huse : s.LoadUse load num) {s1 s2 : PerfSim}
    (hfirst : s.cycle env = .ok s1) (hsecond : s1.cycle env = .ok s2) :
    s2.core.mw = none := by
  obtain ⟨-, accessed, decoded, word, memory, hstepped, hcore⟩ := hgood.stepped hfirst
  obtain ⟨-, accessed1, decoded1, word1, memory1, hstepped1, hcore1⟩ :=
    (hgood.cycle hfirst).stepped hsecond
  have hexec := huse.core.executing env hgood.pipeline
  have hhits : 0 < decoded.hits :=
    huse.core.hits_pos hgood.pipeline hstepped.access hstepped.decode
  have hem : s1.core.em = some ⟨load.executed env, true⟩ := by
    rw [hcore]
    simp [Core.advance, hexec.executing, hhits]
  rcases Core.memStage_ok hstepped1.access with ⟨j, j', hj, -⟩ | ⟨-, haccessed⟩
  · rw [hem] at hj
    cases hj
  · rw [hcore1, haccessed]
    rfl

end PerfSim

end RiscvPerfSim
