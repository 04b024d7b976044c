import RiscvPerfSim.Core.LoadUse
import RiscvPerfSim.Core.Stores

/-!
# What a cycle can raise

A cycle raises in three places and for three reasons: decode meets a store of a
value that is still to be loaded, memory access or the store queue leaves guest
memory, or fetch does.  Every other `throw` of the source is out of reach.
-/

namespace RiscvPerfSim

open Foundation

/-- The range error of `Memory`, or the `memcpy` behind a test that has wrapped. -/
def Error.OfMemory (e : Error) : Prop :=
  e = .runtime "addr is out of memory" ∨ e = .undefined "memcpy outside memory"

/-! ## Memory -/

namespace Memory

variable {memory memory' : Memory} {buffer word : BitVec 32} {data : Nat → BitVec 8}
  {addr count : Nat} {e : Error}

theorem inRange_of_read (h : memory.read buffer addr count = .ok word) :
    addr + count ≤ memory.size := by
  unfold read at h
  split_ifs at h
  omega

theorem read_error (h : memory.read buffer addr count = .error e) :
    ¬ addr + count ≤ memory.size ∧ e.OfMemory := by
  refine ⟨fun hrange => ?_, ?_⟩
  · rw [read_of_inRange buffer hrange] at h
    cases h
  · unfold read at h
    split_ifs at h
    · cases h
      exact .inl rfl
    · cases h
      exact .inr rfl

theorem write_error (h : memory.write data addr count = .error e) :
    ¬ addr + count ≤ memory.size ∧ e.OfMemory := by
  refine ⟨fun hrange => ?_, ?_⟩
  · rw [write_of_inRange data hrange] at h
    cases h
  · unfold write at h
    split_ifs at h
    · cases h
      exact .inl rfl
    · cases h
      exact .inr rfl

end Memory

theorem Store.update_error {store : Store} {memory : Memory} {e : Error}
    (hsmall : store.size ≤ 4) (h : Pipeline.update memory { store := store } = .error e) :
    store.size > 0 ∧ ¬ store.addr.toNat + store.size.toNat ≤ memory.size ∧ e.OfMemory := by
  rw [update_store] at h
  split_ifs at h with hsize hlarge
  · bv_omega
  · rcases error_of_bind h with hwrite | ⟨written, -, h⟩
    · exact ⟨hsize, Memory.write_error hwrite⟩
    · cases h

namespace PerfSim

theorem signExtend_ok (num size : BitVec 32) (type : ExtendType) :
    ∃ value, signExtend num size type = .ok value := by
  by_cases hsize : size = 4
  · exact ⟨num, by simp [signExtend, hsize]⟩
  · cases type with
    | zero => exact ⟨_, by simp only [signExtend, if_neg hsize, if_true]; rfl⟩
    | sign =>
        simp only [signExtend, if_neg hsize, reduceCtorEq, if_false, if_true]
        split_ifs <;> exact ⟨_, rfl⟩

theorem extendLoaded_ok (instr : Instruction) (data : BitVec 32) :
    ∃ value, extendLoaded instr data = .ok value := by
  unfold extendLoaded
  split_ifs
  · exact signExtend_ok _ _ _
  · exact signExtend_ok _ _ _
  · exact ⟨_, rfl⟩

end PerfSim

namespace Instruction

structure InRange (instr : Instruction) (memory : Memory) : Prop where
  load : instr.memAccType = .read →
    (toAddress instr.loadAddres).toNat + (toAddress instr.loadSize).toNat ≤ memory.size
  store : instr.memAccType = .write →
    (toAddress instr.storeAddres).toNat + (toAddress instr.storeSize).toNat ≤ memory.size

theorem InRange.of_size {instr : Instruction} {memory memory' : Memory}
    (h : instr.InRange memory) (hsize : memory.size = memory'.size) : instr.InRange memory' where
  load := fun hread => hsize ▸ h.load hread
  store := fun hwrite => hsize ▸ h.store hwrite

end Instruction

namespace Core

variable {env : Env} {old : Instruction} {c c' : Core} {accessed : Accessed}
  {decoded : Decoded} {word : BitVec 32} {memory memory' : Memory} {instr : Instruction}
  {e : Error} {clock : Nat}

/-! ## Memory access -/

theorem loadEffect_error (h : loadEffect env clock memory instr = .error e) :
    ¬ instr.InRange memory ∧ e.OfMemory := by
  unfold loadEffect at h
  split_ifs at h with hload
  rcases error_of_bind h with hread | ⟨data, -, h⟩
  · obtain ⟨hrange, he⟩ := Memory.read_error hread
    exact ⟨fun hin => hrange (hin.load hload.1), he⟩
  · obtain ⟨value, hextend⟩ := PerfSim.extendLoaded_ok instr data
    rw [hextend] at h
    have hrd : instr.type.writesRd = true := by
      rw [hload.2]
      rfl
    change instr.setRdValue value = .error e at h
    rw [Instruction.setRdValue, if_pos hrd] at h
    cases h

theorem storeEffect_size {store : Store}
    (h : storeEffect env memory instr = .ok (memory', store)) : memory'.size = memory.size := by
  unfold storeEffect at h
  split_ifs at h with hstore hsq
  · cases h
    rfl
  · obtain ⟨written, hwrite, h⟩ := ok_of_bind h
    cases h
    rw [Memory.eq_blit_of_write hwrite]
    rfl
  · cases h
    rfl

theorem memStage_size (h : c.memStage env = .ok accessed) :
    accessed.memory.size = c.memory.size := by
  rcases memStage_ok h with ⟨i, i', -, -, hstore, -⟩ | ⟨-, rfl⟩
  · exact storeEffect_size hstore
  · rfl

theorem storeEffect_error (h : storeEffect env memory instr = .error e) :
    ¬ instr.InRange memory ∧ e.OfMemory := by
  unfold storeEffect at h
  split_ifs at h with hstore hsq
  rcases error_of_bind h with hwrite | ⟨memory', -, h⟩
  · obtain ⟨hrange, he⟩ := Memory.write_error hwrite
    exact ⟨fun hin => hrange (hin.store hstore.1), he⟩
  · cases h

theorem memStage_error (h : c.memStage env = .error e) :
    (∃ instr, live c.em = some instr ∧ ¬ instr.InRange c.memory) ∧ e.OfMemory := by
  unfold memStage at h
  split at h
  · rename_i instr hem
    rcases error_of_bind h with hstore | ⟨⟨memory, store⟩, hstore, h⟩
    · obtain ⟨hrange, he⟩ := storeEffect_error hstore
      exact ⟨⟨instr, live_iff.mpr hem, hrange⟩, he⟩
    · rcases error_of_bind h with hload | ⟨loaded, -, h⟩
      · obtain ⟨hrange, he⟩ := loadEffect_error hload
        refine ⟨⟨instr, live_iff.mpr hem, fun hin => hrange ?_⟩, he⟩
        exact hin.of_size (storeEffect_size hstore).symm
      · cases h
  · cases h

theorem drain_error (hinv : c.Inv) (haccess : c.memStage env = .ok accessed)
    (h : Pipeline.update accessed.memory { store := accessed.pending } = .error e) :
    (∃ instr, live c.em = some instr ∧ ¬ instr.InRange c.memory) ∧ e.OfMemory := by
  have hidle (memory : Memory) : Pipeline.update memory { store := Store.clear } ≠ .error e := by
    rw [Store.update_eq (Store.fits_clear memory)]
    exact fun h => by cases h
  rcases memStage_ok haccess with ⟨instr, -, hem, -, hstore, -⟩ | ⟨-, rfl⟩
  · obtain ⟨word, hcarries⟩ := hinv.executed _ hem
    unfold storeEffect at hstore
    split_ifs at hstore with haccess hsq
    · rw [Except.ok.injEq, Prod.mk.injEq] at hstore
      obtain ⟨hmemory, hpending⟩ := hstore
      rw [← hmemory, ← hpending] at h
      obtain ⟨hpos, hrange, he⟩ := Store.update_error
        (hcarries.asStore_size haccess.1 haccess.2).2 h
      exact ⟨⟨instr, live_iff.mpr hem, fun hin => hrange (hin.store haccess.1)⟩, he⟩
    · obtain ⟨written, -, hstore⟩ := ok_of_bind hstore
      have hpending := congrArg Prod.snd (Except.ok.inj hstore)
      rw [← show Store.clear = accessed.pending from hpending] at h
      exact absurd h (hidle _)
    · rw [Except.ok.injEq, Prod.mk.injEq] at hstore
      rw [← hstore.2] at h
      exact absurd h (hidle _)
  · exact absurd h (hidle _)

theorem inRange_of_effects {store : Store} {pipeline : Pipeline} (hcarries : instr.Carries word)
    (hstore : storeEffect env memory instr = .ok (memory', store))
    (hload : ∃ loaded, loadEffect env clock memory' instr = .ok loaded)
    (hdrain : ∃ drained, Pipeline.update memory' { store := store } = .ok (drained, pipeline)) :
    instr.InRange memory := by
  have hsound := Decoder.recognize_sound word
  constructor
  case load =>
    intro hread
    have htype := (hsound.read (hcarries.memAccType ▸ hread)).1
    rw [storeEffect_of_ne (by simp [hread])] at hstore
    cases hstore
    obtain ⟨loaded, hload⟩ := hload
    rw [loadEffect, if_pos ⟨hread, hcarries.type.trans htype⟩] at hload
    obtain ⟨data, hdata, -⟩ := ok_of_bind hload
    exact Memory.inRange_of_read hdata
  case store =>
    intro hwrite
    have htype := hcarries.type.trans (hsound.write (hcarries.memAccType ▸ hwrite)).1
    rw [storeEffect, if_pos ⟨hwrite, htype⟩] at hstore
    split_ifs at hstore with hsq
    · cases hstore
      obtain ⟨drained, hdrain⟩ := hdrain
      exact Store.inRange_of_update hdrain (hcarries.asStore_size hwrite htype).1
    · obtain ⟨written, hwritten, -⟩ := ok_of_bind hstore
      exact Memory.inRange_of_write hwritten

/-! ## Decode -/

theorem operand_error {num : RegName} {stage : PipelineStage} {rf : RegFile}
    {de em : Option Instruction} (h : operand env rf de em num stage = .error e) :
    stage ≠ .execute ∧ rf.regLocker num ≠ 0 ∧ (∃ ld, de = some ld ∧
      HazardUnit.isLoad ld = true ∧ ld.writes (rf.regs num).name = true) ∧
      e = .runtime "load hazart" := by
  unfold operand at h
  by_cases hlock : rf.regLocker num = 0
  · rw [if_pos hlock] at h
    cases h
  · rw [if_neg hlock] at h
    split at h
    · rename_i ld hfeeds
      obtain ⟨hde, hwrites⟩ := Option.filter_eq_some_iff.mp hfeeds
      split_ifs at h with hload hstage
      cases h
      exact ⟨hstage, hlock, ⟨ld, hde, hload, hwrites⟩, rfl⟩
    · split at h <;> cases h

/-- Decode raises only for a store of a value that is still to be loaded. -/
theorem decodeStage_error (hinv : c.Inv) (haccess : c.memStage env = .ok accessed)
    (h : c.decodeStage env old accessed.mw = .error e) :
    (∃ load fetched num, c.StoreUse load fetched num) ∧ e = .runtime "load hazart" := by
  unfold decodeStage at h
  split at h
  · rename_i fetched hdecoding
    unfold decodeWord at h
    rcases error_of_bind h with h1 | ⟨read1, -, h⟩
    · unfold operand1 at h1
      split_ifs at h1
      exact absurd rfl (operand_error h1).1
    · rcases error_of_bind h with h2 | ⟨read2, -, h⟩
      · unfold operand2 at h2
        split_ifs at h2 with hreads
        obtain ⟨hstage, hlock, ⟨ld, hexec, hload, hwrites⟩, he⟩ := operand_error h2
        rw [exRf_named hinv.named] at hwrites
        obtain ⟨i, w, hde, -, -, -, hfixed⟩ := executing_spec hinv hexec
        rw [Instruction.isLoad_of_fixed hfixed] at hload
        rw [Instruction.writes_of_fixed hfixed] at hwrites
        have hnum : Decoder.numRs2 fetched.word ≠ 0 := fun hzero =>
          hlock (by rw [hzero, regLocker_exRf hinv haccess, if_pos rfl])
        have hmemory : Decoder.rs2Stage (Decoder.recognize fetched.word) = .memory := by
          cases hcase : Decoder.rs2Stage (Decoder.recognize fetched.word) with
          | execute => exact absurd hcase hstage
          | memory => rfl
        exact ⟨⟨i, _, _, hde, hload, hwrites, hnum, (decoding_eq_some hdecoding).1, rfl,
          by simp [Decoder.stores, hreads, hmemory]⟩, he⟩
      · cases h
  · cases h

theorem not_storeUse_of_decodeStage {load : Instruction} {fetched : Fetched} {num : RegName}
    (hinv : c.Inv) (haccess : c.memStage env = .ok accessed)
    (hdecode : c.decodeStage env old accessed.mw = .ok decoded) :
    ¬ c.StoreUse load fetched num := by
  intro h
  have hexec := h.executing env hinv
  have hraise := operand_load hinv haccess h.notZero hexec.executing hexec.isLoad hexec.writes
    .memory
  rcases decodeStage_ok hdecode with ⟨f, hf, hword⟩ | ⟨hnone, -⟩
  · rw [hexec.decoding, Option.some.injEq] at hf
    subst hf
    obtain ⟨rs1, rs2, hits1, hits2, -, h2, -⟩ := decodeWord_ok hword
    have hstores := h.wants
    simp only [Decoder.stores, Bool.and_eq_true, decide_eq_true_eq] at hstores
    obtain ⟨⟨hreads, hstage⟩, hnum⟩ := hstores
    rw [operand2, if_pos hreads, hstage, hnum, hraise] at h2
    cases h2
  · rw [hexec.decoding] at hnone
    cases hnone

/-! ## The cycle -/

structure Safe (env : Env) (c : Core) : Prop where
  storeUse : ∀ load fetched num, ¬ c.StoreUse load fetched num
  access : ∀ instr, live c.em = some instr → instr.InRange c.memory
  fetch : c.stop + c.exitStop env = 0 → (∀ load fetched num, ¬ c.LoadUse load fetched num) →
    c.nextPc.toNat + 4 ≤ c.memory.size

theorem safe_of_step (hinv : c.Inv) (h : c.step env old = .ok c') : c.Safe env := by
  obtain ⟨accessed, decoded, word, memory, hstepped, -⟩ := step_ok h
  obtain ⟨pipeline, hdrain⟩ := hstepped.drain
  constructor
  case storeUse =>
    exact fun _ _ _ => not_storeUse_of_decodeStage hinv hstepped.access hstepped.decode
  case access =>
    intro instr hem
    rcases memStage_ok hstepped.access with ⟨i, i', hslot, -, hstore, hload⟩ | ⟨hnone, -⟩
    · rw [hslot] at hem
      cases hem
      obtain ⟨w, hcarries⟩ := hinv.executed _ hslot
      exact inRange_of_effects hcarries hstore ⟨_, hload⟩ ⟨_, hdrain⟩
    · exact absurd (live_iff.mp hem) (hnone instr)
  case fetch =>
    intro hstop huse
    have hhits : decoded.hits = 0 := by
      by_contra hne
      obtain ⟨load, fetched, num, h⟩ :=
        (hits_pos_iff hinv hstepped.access hstepped.decode).mp (Nat.pos_of_ne_zero hne)
      exact huse load fetched num h
    have hfetch := hstepped.fetch
    rw [fetchStage, if_pos (by omega)] at hfetch
    rw [← memStage_size hstepped.access]
    exact Memory.inRange_of_read hfetch

theorem step_error (hinv : c.Inv) (h : c.step env old = .error e) :
    ¬ c.Safe env ∧ (e = .runtime "load hazart" ∨ e.OfMemory) := by
  unfold step at h
  rcases error_of_bind h with haccess | ⟨accessed, haccess, h⟩
  · obtain ⟨⟨instr, hem, hrange⟩, he⟩ := memStage_error haccess
    exact ⟨fun hsafe => hrange (hsafe.access instr hem), .inr he⟩
  rcases error_of_bind h with hdecode | ⟨decoded, hdecode, h⟩
  · obtain ⟨⟨load, fetched, num, huse⟩, he⟩ := decodeStage_error hinv haccess hdecode
    exact ⟨fun hsafe => hsafe.storeUse load fetched num huse, .inl he⟩
  rcases error_of_bind h with hfetch | ⟨word, -, h⟩
  · unfold fetchStage at hfetch
    split_ifs at hfetch with hstop
    obtain ⟨hrange, he⟩ := Memory.read_error hfetch
    rw [memStage_size haccess] at hrange
    refine ⟨fun hsafe => hrange (hsafe.fetch (by omega) fun load fetched num huse => ?_), .inr he⟩
    have hpos := (hits_pos_iff hinv haccess hdecode).mpr ⟨load, fetched, num, huse⟩
    omega
  rcases error_of_bind h with hdrain | ⟨drained, -, h⟩
  · obtain ⟨⟨instr, hem, hrange⟩, he⟩ := drain_error hinv haccess hdrain
    exact ⟨fun hsafe => hrange (hsafe.access instr hem), .inr he⟩
  · cases h

theorem step_ok_iff (hinv : c.Inv) (old : Instruction) :
    (∃ c', c.step env old = .ok c') ↔ c.Safe env := by
  constructor
  · rintro ⟨c', h⟩
    exact safe_of_step hinv h
  · intro hsafe
    cases h : c.step env old with
    | ok c' => exact ⟨c', rfl⟩
    | error e => exact absurd hsafe (step_error hinv h).1

end Core

namespace PerfSim

variable {env : Env} {s s' : PerfSim} {e : Error}

/-! ## The cycle of the simulator -/

def fetchAddr (s : PerfSim) : Option (BitVec 32) :=
  let wf := s.fetchSt.load
  if (wf.isStall || wf.hazardStall) || s.fdSt.isStop then none
  else some (if wf.isJump then wf.pcJump else wf.pc)

/-- The word of this cycle, unless a SYSTEM word or a load-use stops fetch, lies in memory. -/
def FetchInRange (s : PerfSim) : Prop :=
  (∀ instr, s.deSt.load.instrOf s.decoder = some instr → instr.type ≠ .system) →
  (∀ load num, ¬ s.LoadUse load num) →
  ∀ pc, s.fetchAddr = some pc → pc.toNat + 4 ≤ s.memory.size

def fetchTest (s : PerfSim) : Bool :=
  (s.deSt.load.instrOf s.decoder).any (fun instr => instr.type = .system) ||
    !s.freeTest Decoder.needs ||
    s.fetchAddr.all fun pc => pc.toNat + 4 ≤ s.memory.size

theorem fetchInRange_of_test (h : s.fetchTest = true) : s.FetchInRange := by
  intro hsystem huse pc hpc
  rw [fetchTest, not_loadAhead_iff_test.mp huse, Bool.not_true, Bool.or_false,
    Bool.or_eq_true, Option.any_eq_true] at h
  rcases h with ⟨instr, hde, htype⟩ | h
  · exact absurd (of_decide_eq_true htype) (hsystem instr hde)
  · rw [hpc] at h
    exact of_decide_eq_true h

/-- No store of a value that is still to be loaded, and no access outside memory. -/
structure Safe (s : PerfSim) : Prop where
  storeUse : ∀ load num, ¬ s.StoreUse load num
  access : ∀ instr, s.emSt.load.instrOf s.decoder = some instr → instr.InRange s.memory
  fetch : s.FetchInRange

namespace Good

variable (hgood : s.Good)
include hgood

theorem not_loadAhead_iff {wants : BitVec 32 → RegName → Bool} :
    (∀ load fetched num, ¬ s.core.LoadAhead wants load fetched num) ↔
      ∀ load num, ¬ s.LoadAhead wants load num := by
  constructor
  · exact fun h load num huse => h load s.fdLoad num huse.core
  · exact fun h load fetched num huse => h load num (hgood.loadAhead_iff.mp huse).1

theorem exitStop_iff (env : Env) : s.core.exitStop env = 0 ↔
    ∀ instr, s.deSt.load.instrOf s.decoder = some instr → instr.type ≠ .system := by
  have hexits : s.core.exits env = true ↔
      ∃ instr, s.deSt.load.instrOf s.decoder = some instr ∧ instr.type = .system := by
    rw [exits_iff]
    constructor
    · rintro ⟨x, hexec, htype⟩
      obtain ⟨i, word, hde, -, -, -, hfixed⟩ := Core.executing_spec hgood.pipeline hexec
      refine ⟨i, ?_, (Instruction.type_of_fixed hfixed).symm.trans htype⟩
      rw [instrOf_de]
      exact Core.live_iff.mpr hde
    · rintro ⟨i, hde, htype⟩
      obtain ⟨word, hcarries⟩ := hgood.pipeline.decoded _ (InstrLatch.slotOf_of_instrOf hde)
      refine ⟨i.executed env, ?_, ?_⟩
      · rw [executing_core, hde]
        rfl
      · rw [Instruction.type_of_fixed hcarries.executed_fixed, htype]
  unfold Core.exitStop
  cases h : s.core.exits env with
  | true =>
      obtain ⟨instr, hde, htype⟩ := hexits.mp h
      simp only [if_true, OfNat.ofNat_ne_zero, false_iff, not_forall]
      exact ⟨instr, hde, fun hne => hne htype⟩
  | false =>
      simp only [Bool.false_eq_true, if_false, true_iff]
      intro instr hde htype
      rw [hexits.mpr ⟨instr, hde, htype⟩] at h
      cases h

theorem fetchInRange_iff (env : Env) :
    (s.core.stop + s.core.exitStop env = 0 →
      (∀ load fetched num, ¬ s.core.LoadUse load fetched num) →
        s.core.nextPc.toNat + 4 ≤ s.core.memory.size) ↔ s.FetchInRange := by
  have haddr : ∀ pc, s.fetchAddr = some pc ↔ s.core.stop = 0 ∧ s.core.nextPc = pc := by
    intro pc
    have hstall := hgood.latches.fetchLoad
    unfold fetchAddr
    simp only [hstall, Bool.false_or, Stage.isStop, decide_eq_true_eq]
    by_cases hstop : s.fdSt.stopCount > 0
    · have hne : s.core.stop ≠ 0 := Nat.pos_iff_ne_zero.mp hstop
      simp [hstop, hne]
    · have hzero : s.core.stop = 0 := Nat.eq_zero_of_not_pos hstop
      rw [if_neg hstop, Option.some.injEq]
      exact (and_iff_right hzero).symm
  unfold FetchInRange
  rw [← hgood.exitStop_iff env, ← hgood.not_loadAhead_iff]
  constructor
  · intro h hexit huse pc hpc
    obtain ⟨hstop, rfl⟩ := (haddr pc).mp hpc
    exact h (by omega) huse
  · intro h hstop huse
    exact h (by omega) huse _ ((haddr _).mpr ⟨by omega, rfl⟩)

theorem safe_iff (env : Env) : s.core.Safe env ↔ s.Safe := by
  constructor
  · rintro ⟨hstore, haccess, hfetch⟩
    refine ⟨hgood.not_loadAhead_iff.mp hstore, fun instr hem => haccess instr ?_,
      (hgood.fetchInRange_iff env).mp hfetch⟩
    rw [← instrOf_em, hem]
  · rintro ⟨hstore, haccess, hfetch⟩
    refine ⟨hgood.not_loadAhead_iff.mpr hstore, fun instr hem => haccess instr ?_,
      (hgood.fetchInRange_iff env).mpr hfetch⟩
    rw [instrOf_em]
    exact hem

theorem cycle_ok_iff : (∃ s', s.cycle env = .ok s') ↔ s.Safe := by
  rw [← hgood.safe_iff env, ← Core.step_ok_iff hgood.pipeline s.leftover]
  have hagree := cycle_agree env hgood.latches
  constructor
  · rintro ⟨s', h⟩
    obtain ⟨c', hstep, -⟩ := hagree.of_ok h
    exact ⟨c', hstep⟩
  · rintro ⟨c', h⟩
    obtain ⟨s', hcycle, -⟩ := hagree.of_ok_right h
    exact ⟨s', hcycle⟩

theorem cycle_error (h : s.cycle env = .error e) :
    e = .runtime "load hazart" ∨ e.OfMemory :=
  (Core.step_error hgood.pipeline ((cycle_agree env hgood.latches).of_error h)).2

end Good

end PerfSim

end RiscvPerfSim
