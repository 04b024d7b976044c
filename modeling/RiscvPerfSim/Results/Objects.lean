import RiscvPerfSim.Core.Counting

/-!
# Objects in flight

A run is watched by a ghost that keeps, beside the simulator and out of the
reach of its recycled arrays, what `Decoder::decode` made of each word, and
moves these records as the latches move.  The objects behind the latches agree
with the records in every reachable state.  The counters of the arrays, natural
numbers in the model, are those of the source for the first 2^64 cycles.
-/

namespace RiscvPerfSim.PerfSim

open Foundation

variable {env : Env} {s : PerfSim}

/-! ## The ghost -/

structure Record where
  word : BitVec 32
  pc : BitVec 32
  object : Instruction

structure Ghost where
  de : Option Record := none
  em : Option Record := none
  mw : Option Record := none

def issue (env : Env) (s : PerfSim) : Option Record :=
  match s.untilDecode env with
  | .error _ => none
  | .ok t =>
      if t.decodes then
        match t.decode env with
        | .error _ => none
        | .ok t' => t'.deSt.store.instr.map fun ptr =>
            ⟨t.fdSt.load.instr, t.fdSt.load.pc, t'.decoder.get ptr⟩
      else none

def deStops (env : Env) (s : PerfSim) : Bool :=
  match s.untilDecode env with
  | .error _ => false
  | .ok t => t.deSt.isStop

def Ghost.next (env : Env) (s : PerfSim) (g : Ghost) : Ghost where
  de := if s.deStops env then g.de else s.issue env
  em := g.de
  mw := g.em

inductive Tracked (env : Env) : PerfSim → Ghost → Prop
  | boot (memory : Memory) (pc : BitVec 32) (values : RegName → BitVec 32) :
      Tracked env (boot memory pc values) {}
  | cycle {s s' : PerfSim} {g : Ghost} (h : Tracked env s g) (hrun : s.isStop = false)
      (hcycle : s.cycle env = .ok s') : Tracked env s' (g.next env s)

theorem Tracked.reachable {g : Ghost} (h : Tracked env s g) : Reachable env s := by
  induction h with
  | boot memory pc values => exact .boot env memory pc values
  | cycle h hrun hcycle ih => exact ih.cycle hrun hcycle

theorem Reachable.tracked (h : Reachable env s) : ∃ g, Tracked env s g := by
  obtain ⟨memory, pc, values, hreaches⟩ := h
  refine hreaches.invariant (P := fun s => ∃ g, Tracked env s g) ?_
    ⟨_, .boot memory pc values⟩
  rintro s s' ⟨g, hg⟩ hrun - hcycle
  exact ⟨_, hg.cycle hrun hcycle⟩

/-! ## Instructions and their records -/

def Kept (instr : Option Instruction) (record : Option Record) : Prop :=
  ∀ i, instr = some i → ∃ r, record = some r ∧ i.fixed = r.object.fixed ∧
    r.object.Carries r.word ∧ r.object.pc = r.pc

theorem Kept.map {instr instr' : Option Instruction} {record : Option Record}
    (h : Kept instr record)
    (hfixed : ∀ i', instr' = some i' → ∃ i, instr = some i ∧ i'.fixed = i.fixed) :
    Kept instr' record := by
  intro i' hi'
  obtain ⟨i, hi, heq⟩ := hfixed i' hi'
  obtain ⟨r, hr, hobject, hcarries, hpc⟩ := h i hi
  exact ⟨r, hr, heq.trans hobject, hcarries, hpc⟩

section Cycle

variable {accessed : Core.Accessed} {decoded : Core.Decoded} (hgood : s.Good)
  (haccess : s.core.memStage env = .ok accessed)
include hgood haccess

private theorem deStops_iff :
    s.deStops env = true ↔ s.core.deStop + s.core.exitStop env ≠ 0 := by
  obtain ⟨pipeline, ht⟩ := untilDecode_eq hgood.latches haccess
  rw [deStops, ht]
  change decide (s.deSt.stopCount + s.core.exitStop env > 0) = true ↔
    s.deSt.stopCount + s.core.exitStop env ≠ 0
  rw [decide_eq_true_eq]
  omega

private theorem issue_eq (hdecode : s.core.decodeStage env s.leftover accessed.mw =
      .ok decoded) {instr : Instruction} (hinstr : decoded.instr = some instr) :
    s.issue env = some ⟨s.fdSt.load.instr, s.fdSt.load.pc, instr⟩ := by
  obtain ⟨pipeline, ht⟩ := untilDecode_eq hgood.latches haccess
  obtain ⟨t', ht', hu, latch, decoder, -, hissued, rfl⟩ :=
    (decodeStage_agree hgood.latches pipeline haccess).of_ok_right hdecode
  obtain ⟨hstall, hstop, hptr, hdecoder⟩ := hissued.fresh instr hinstr
  obtain ⟨fd, hdecoding, -⟩ := Core.decodeStage_instr hgood.latches.named hdecode hinstr
  have hfd := (Core.decoding_eq_some hdecoding).1
  have hlive : (s.fdSt.load.isStall || s.fdSt.load.hazardStall) = false := by
    simp only [core, fetched] at hfd
    split_ifs at hfd with h
    simp only [Option.some.injEq, Fetched.mk.injEq] at hfd
    simp [h, hfd.2.2]
  have hdecodes : (s.beforeDecode env accessed pipeline).decodes = true := by
    have hfd' : ((s.beforeDecode env accessed pipeline).fdSt.load.isStall ||
        (s.beforeDecode env accessed pipeline).fdSt.load.hazardStall) = false := hlive
    simp [decodes, Stage.isStop, hfd', hstop]
  have hget : decoder.get ((s.beforeDecode env accessed pipeline).decoder.nextPtr
      (Decoder.recognize s.fdSt.load.instr).type) = instr := by
    rw [hdecoder]
    exact Decoder.get_allocated ..
  have hresult : latch.instr.map (fun ptr => (⟨s.fdSt.load.instr, s.fdSt.load.pc,
      decoder.get ptr⟩ : Record)) =
        some ⟨s.fdSt.load.instr, s.fdSt.load.pc, instr⟩ := by
    rw [hptr, Option.map_some]
    exact congrArg _ (congrArg _ hget)
  rw [issue, ht]
  simp only [hdecodes, if_true, ht']
  exact hresult

end Cycle

structure Ghost.Agrees (g : Ghost) (c : Core) : Prop where
  de : Kept (c.de.map Slot.instr) g.de
  em : Kept (c.em.map Slot.instr) g.em
  mw : Kept c.mw g.mw

theorem Ghost.Agrees.next {g : Ghost} {s' : PerfSim} (h : g.Agrees s.core) (hgood : s.Good)
    (hcycle : s.cycle env = .ok s') : (g.next env s).Agrees s'.core := by
  obtain ⟨-, accessed, decoded, word, memory, hstepped, hcore⟩ := hgood.stepped hcycle
  have hexec : Kept (s.core.executing env) g.de := h.de.map fun i' hi' => by
    obtain ⟨i, w, hde, -, -, -, hfixed⟩ := Core.executing_spec hgood.pipeline hi'
    exact ⟨i, by rw [hde]; rfl, hfixed⟩
  rw [hcore]
  constructor
  case de =>
    have hstops := deStops_iff hgood hstepped.access
    by_cases hstop : s.core.deStop + s.core.exitStop env = 0
    · have hrunning : s.deStops env = false := by
        rw [← Bool.not_eq_true, hstops]
        exact fun hne => hne hstop
      simp only [Core.advance, hstop, if_true, Ghost.next, hrunning, Bool.false_eq_true,
        if_false, Option.map_map]
      intro i hi
      obtain ⟨instr, hinstr, rfl⟩ := Option.map_eq_some_iff.mp hi
      obtain ⟨fd, hdecoding, hcarries, hpc, -⟩ :=
        Core.decodeStage_instr hgood.latches.named hstepped.decode hinstr
      have hfd := (Core.decoding_eq_some hdecoding).1
      simp only [core, fetched] at hfd
      split_ifs at hfd
      simp only [Option.some.injEq, Fetched.mk.injEq] at hfd
      refine ⟨_, issue_eq hgood hstepped.access hstepped.decode hinstr, rfl, ?_, ?_⟩
      · rw [hfd.2.1]
        exact hcarries
      · rw [hfd.1]
        exact hpc
    · have hstopped : s.deStops env = true := hstops.mpr hstop
      simp only [Core.advance, hstop, if_false, Ghost.next, hstopped, if_true]
      refine h.de.map fun i' hi' => ?_
      cases hde : s.core.de with
      | none =>
          rw [hde] at hi'
          cases hi'
      | some slot =>
          refine ⟨slot.instr, rfl, ?_⟩
          rw [hde] at hi'
          cases hi'
          cases hrun : s.core.executing env with
          | none => rfl
          | some x =>
              obtain ⟨i, w, hi, -, -, -, hfixed⟩ := Core.executing_spec hgood.pipeline hrun
              rw [hde, Option.some.injEq] at hi
              subst hi
              exact hfixed
  case em =>
    refine hexec.map fun i' hi' => ?_
    simp only [Core.advance, Option.map_map, Option.map_eq_some_iff] at hi'
    obtain ⟨x, hx, rfl⟩ := hi'
    exact ⟨x, hx, rfl⟩
  case mw =>
    refine h.em.map fun i' hi' => ?_
    rcases Core.memStage_ok hstepped.access with ⟨i, x, hem, hmw, -, hload⟩ | ⟨-, hnone⟩
    · have hx : x = i' := by
        rw [show (Core.advance env s.core accessed decoded word memory).mw = accessed.mw from
          rfl, hmw] at hi'
        exact Option.some.inj hi'
      subst hx
      exact ⟨i, by rw [hem]; rfl, Core.loadEffect_fixed hload⟩
    · rw [hnone] at hi'
      cases hi'

theorem Tracked.agrees {g : Ghost} (h : Tracked env s g) : g.Agrees s.core := by
  induction h with
  | boot memory pc values =>
      constructor <;> (intro i hi; cases hi)
  | cycle h hrun hcycle ih => exact ih.next h.reachable.good hcycle

/-! ## The objects behind the latches -/

/-- The latch points to an object that is still what decode made of its word. -/
def Carried (latch : InstrLatch) (decoder : Decoder) (record : Option Record) : Prop :=
  latch.isStall = false → ∃ ptr r, latch.instr = some ptr ∧ record = some r ∧
    (decoder.get ptr).fixed = r.object.fixed ∧ (decoder.get ptr).Carries r.word ∧
    (decoder.get ptr).pc = r.pc

private theorem Kept.carried {latch : InstrLatch} {decoder : Decoder}
    {record : Option Record} {age : Nat}
    (h : Kept ((latch.slotOf decoder).map Slot.instr) record)
    (hholds : latch.Holds decoder age) : Carried latch decoder record := by
  intro hstall
  obtain ⟨ptr, word, hptr, -, -, -⟩ := hholds hstall
  obtain ⟨r, hr, hfixed, hcarries, hpc⟩ := h (decoder.get ptr) (by
    rw [InstrLatch.slotOf_of_ptr _ hstall hptr]
    rfl)
  exact ⟨ptr, r, hptr, hr, hfixed, .of_fixed hfixed hcarries,
    (Instruction.pc_of_fixed hfixed).trans hpc⟩

private theorem isStall_of_moved {latch : InstrLatch} (h : latch.moved.isStall = false) :
    latch.isStall = false ∧ latch.moved.instr = latch.instr := by
  unfold InstrLatch.moved at h ⊢
  split_ifs at h ⊢ with hlive
  · exact ⟨(InstrLatch.isLive_iff.mp hlive).1, rfl⟩
  · cases h

/--
Every latch that is not a bubble holds its instruction unchanged, and the
element that decode is about to take is behind none of the latches.
-/
theorem objects_kept {g : Ghost} (h : Tracked env s g) :
    Carried s.deSt.load s.decoder g.de ∧ Carried s.emSt.load s.decoder g.em ∧
      Carried s.mwSt.load s.decoder g.mw ∧
      ∀ t, s.untilDecode env = .ok t → ∀ type,
        ∀ latch ∈ [t.deSt.load, t.emSt.load, t.mwSt.load, t.emSt.store, t.mwSt.store],
          latch.isStall = false → latch.instr ≠ some (t.decoder.getNext type).2 := by
  have hinv := h.reachable.good.latches
  obtain ⟨hde, hem, hmw⟩ := h.agrees
  rw [core_mw, InstrLatch.instrOf_eq_slotOf s.decoder hinv.mwHazard] at hmw
  refine ⟨hde.carried hinv.de, hem.carried hinv.em, hmw.carried hinv.mw, ?_⟩
  intro t ht type latch hlatch hstall
  obtain ⟨accessed, pipeline, -, rfl⟩ := untilDecode_ok hinv ht
  -- every latch of the middle of the cycle has its pointer from a latch of its start
  have hsource : ∃ (source : InstrLatch) (age : Nat), source.Holds s.decoder age ∧
      age < Config.stages ∧ source.isStall = false ∧ latch.instr = source.instr := by
    simp only [List.mem_cons, List.not_mem_nil, or_false] at hlatch
    rcases hlatch with rfl | rfl | rfl | rfl | rfl
    · refine ⟨s.deSt.load, 1, hinv.de, by decide, ?_⟩
      cases hexits : s.core.exits env <;>
        simpa [beforeDecode, Stage.modifyStore, Stage.modifyLoad, Stage.extend, marked, hexits]
          using hstall
    · exact ⟨s.emSt.load, 2, hinv.em, by decide, hstall, rfl⟩
    · exact ⟨s.mwSt.load, 3, hinv.mw, by decide, hstall, rfl⟩
    · exact ⟨s.deSt.load, 1, hinv.de, by decide, isStall_of_moved hstall⟩
    · exact ⟨s.emSt.load, 2, hinv.em, by decide, isStall_of_moved hstall⟩
  obtain ⟨source, age, hholds, hage, hlive, hptr⟩ := hsource
  obtain ⟨ptr, word, hsome, hyoung, -⟩ := hholds hlive
  rw [hptr, hsome, ne_eq, Option.some.injEq, Decoder.getNext_snd]
  exact fun heq => hyoung.ne_nextPtr hage (heq.trans (nextPtr_midway type))

theorem objects_kept_load : ∃ (s : PerfSim) (g : Ghost),
    runFor .plain 4 (bootWords 64 [0x01002083#32, 0x00108113#32]) = .ok s ∧
      s.emSt.load.isStall = false ∧ Carried s.emSt.load s.decoder g.em := by
  obtain ⟨s, hrun, hreach, htest⟩ :=
    checkAfter_spec 4 (fun s => !s.emSt.load.isStall) (.boot .plain _ _ _)
      (by decide +kernel : checkAfter .plain 4
        (bootWords 64 [0x01002083#32, 0x00108113#32]) _ = true)
  obtain ⟨g, hg⟩ := hreach.tracked
  exact ⟨s, g, hrun, by simpa using htest, (objects_kept hg).2.1⟩

/-! ## The counters of the arrays -/

theorem Good.index_cycle {s' : PerfSim} (hgood : s.Good) (h : s.cycle env = .ok s')
    (type : InstrType) : s'.decoder.index type ≤ s.decoder.index type + 1 := by
  rw [cycle_stages] at h
  obtain ⟨t, ht, hrest⟩ := ok_of_bind h
  obtain ⟨d, hd, hlast⟩ := ok_of_bind hrest
  obtain ⟨f, hf, hupdates⟩ := ok_of_bind hlast
  obtain ⟨accessed, pipeline, haccess, rfl⟩ := untilDecode_ok hgood.latches ht
  obtain ⟨decoded, -, hu, latch, decoder, -, hissued, rfl⟩ :=
    (decodeStage_agree hgood.latches pipeline haccess).of_ok hd
  rw [(updates_frame hupdates).2, (fetch_frame hf).2]
  have hmidway : (s.midway env accessed).index type = s.decoder.index type := index_midway type
  change decoder.index type ≤ s.decoder.index type + 1
  cases hinstr : decoded.instr with
  | none =>
      rw [(hissued.idle hinstr).1]
      change (s.midway env accessed).index type ≤ _
      omega
  | some instr =>
      rw [(hissued.fresh instr hinstr).2.2.2, Decoder.index_allocated]
      change (if _ then (s.midway env accessed).index type + 1 else
        (s.midway env accessed).index type) ≤ _
      rw [hmidway]
      split_ifs
      · exact Nat.le_refl _
      · exact Nat.le_succ _

theorem index_le_of_runFor {s' : PerfSim} {n : Nat} (hgood : s.Good)
    (hrun : runFor env n s = .ok s') (type : InstrType) :
    s'.decoder.index type ≤ s.decoder.index type + n := by
  induction n generalizing s with
  | zero =>
      cases hrun
      omega
  | succ n ih =>
      rcases runFor_succ hrun with ⟨-, rfl⟩ | ⟨-, t, hcycle, hrest⟩
      · omega
      · have hnext := ih (hgood.cycle hcycle) hrest
        have hstep := hgood.index_cycle hcycle type
        omega

/--
For 2^64 cycles decode takes the elements that the `uint64_t` counters of the
source choose.  A counter that wraps later takes the first element twice running.
-/
theorem slot_of_counter {memory : Memory} {pc : BitVec 32} {values : RegName → BitVec 32}
    {n : Nat} (hn : n < 2 ^ 64) (hrun : runFor env n (boot memory pc values) = .ok s)
    {type : InstrType} (htype : type ≠ .none) :
    (s.decoder.getNext type).2.slot =
      (s.decoder.arrays type).counter.toNat % Config.stages := by
  have hindex : s.decoder.index type ≤ 0 + n :=
    index_le_of_runFor (boot_good memory pc values) hrun type
  have hsmall : s.decoder.index type < 2 ^ 64 := by omega
  have hcounter : (s.decoder.arrays type).counter.toNat = s.decoder.index type := by
    rw [CyclicArray.counter, BitVec.toNat_ofNat]
    exact Nat.mod_eq_of_lt hsmall
  rw [hcounter]
  exact if_neg htype

end RiscvPerfSim.PerfSim
