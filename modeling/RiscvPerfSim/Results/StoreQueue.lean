import RiscvPerfSim.Core.Safe

/-!
# The store queue against direct accesses

The same run with the store queue and without it.  Every store leaves the queue
at the end of the cycle that pushed it, so that the two memories differ only
within a cycle, and what an extension keeps of a loaded word has been read.
-/

namespace RiscvPerfSim

open Foundation

namespace Core

variable {env : Env} {c : Core}

/-- What memory access does with the queue is what it does without it, one drain later. -/
theorem memStage_direct (hsq : env.config.isSq = true) (hinv : c.Inv)
    (hfits : c.stored.Fits c.memory) :
    Agree (fun (queued direct : Accessed) => queued.mw = direct.mw ∧
        queued.memory = c.memory ∧ queued.pending = c.stored ∧
        direct.memory = c.stored.drained c.memory ∧ direct.pending = Store.clear)
      (c.memStage env) (c.memStage env.direct) := by
  rcases hem : c.em with - | ⟨instr, - | -⟩
  · simp only [memStage, stored, live, hem]
    exact ⟨rfl, rfl, rfl, rfl, rfl⟩
  · have hlive : live c.em = some instr := by
      rw [hem]
      rfl
    obtain ⟨word, hword⟩ := hinv.executed _ hem
    by_cases hstore : instr.memAccType = .write ∧ instr.type = .s
    · have hpending : c.stored = instr.asStore := by
        simp only [stored, hlive, if_pos hstore]
      have hload : ∀ e memory, loadEffect e c.clocks memory instr = .ok instr := fun e memory =>
        loadEffect_of_ne (by simp [hstore.1])
      have hpos := (hword.asStore_size hstore.1 hstore.2).1
      rw [hpending] at hfits ⊢
      have hqueued : storeEffect env c.memory instr = .ok (c.memory, instr.asStore) := by
        rw [storeEffect, if_pos hstore, if_pos hsq]
        rfl
      have hdirect : storeEffect env.direct c.memory instr =
          .ok (instr.asStore.drained c.memory, Store.clear) := by
        rw [storeEffect, if_pos hstore, Env.direct, if_neg (by simp), Store.drained,
          if_pos hpos]
        have hwrite := Memory.write_of_inRange (Word.byte instr.rs2.value) (hfits.inRange hpos)
        simp only [Instruction.asStore] at hwrite
        rw [hwrite]
        rfl
      simp only [memStage, hem, hqueued, hdirect, hload, bind, Except.bind]
      exact ⟨rfl, rfl, rfl, rfl, rfl⟩
    · have hpending : c.stored = Store.clear := by
        simp only [stored, hlive, if_neg hstore]
      rw [hpending]
      simp only [memStage, hem, storeEffect, if_neg hstore, bind, Except.bind,
        loadEffect_congr env.direct env c.clocks c.memory hword]
      cases loadEffect env c.clocks c.memory instr with
      | error e => rfl
      | ok instr' => exact ⟨rfl, rfl, rfl, rfl, rfl⟩
  · simp only [memStage, stored, live, hem]
    exact ⟨rfl, rfl, rfl, rfl, rfl⟩

end Core

namespace PerfSim

variable {env : Env} {s s' t u : PerfSim} {n : Nat} (memory : Memory) (pipeline : Pipeline)

/-! ## Stages that leave memory alone -/

def onMemory (s : PerfSim) (memory : Memory) (pipeline : Pipeline) : PerfSim :=
  { s with memory := memory, pipeline := pipeline }

theorem execute_onMemory (env : Env) (s : PerfSim) :
    Agree (fun t' t => t' = t.onMemory memory pipeline)
      ((s.onMemory memory pipeline).execute env) (s.execute env) := by
  unfold execute
  refine Agree.ite (fun _ => Agree.ite (fun _ => ?_) fun _ => rfl) fun _ => ?_
  · refine (Agree.refl _).bind ?_
    rintro ⟨ptr, instr⟩ _ rfl
    refine (Agree.refl _).bind ?_
    rintro dp _ rfl
    exact rfl
  · refine (Agree.refl _).bind ?_
    rintro ⟨ptr, instr⟩ _ rfl
    refine (Agree.refl _).bind ?_
    rintro instr _ rfl
    dsimp only
    refine Agree.ite (fun _ => ?_) fun _ => rfl
    refine (Agree.refl _).bind ?_
    rintro dp _ rfl
    exact rfl

theorem decode_onMemory (env : Env) (s : PerfSim) :
    Agree (fun t' t => t' = t.onMemory memory pipeline)
      ((s.onMemory memory pipeline).decode env) (s.decode env) := by
  unfold decode
  refine Agree.ite (fun _ => rfl) fun _ => ?_
  refine (Agree.refl _).bind ?_
  rintro ⟨dp, ptr⟩ _ rfl
  dsimp only
  refine Agree.ite (fun _ => ?_) fun _ => rfl
  refine (Agree.refl _).bind ?_
  rintro dp _ rfl
  exact rfl

/-! ## Up to the fetch -/

def untilFetch (env : Env) (s : PerfSim) : Except Error PerfSim := do
  let s ← s.untilDecode env
  s.decode env

theorem cycle_eq (env : Env) (s : PerfSim) :
    s.cycle env = s.untilFetch env >>= fun t => t.fetch >>= updates := by
  simp only [cycle, untilFetch, untilDecode, bind_assoc]

def stored (s : PerfSim) : Store :=
  match s.emSt.load.instrOf s.decoder with
  | some instr =>
      if instr.memAccType = .write ∧ instr.type = .s then instr.asStore else Store.clear
  | none => Store.clear

theorem stored_core (s : PerfSim) : s.core.stored = s.stored := by
  have hlive := (instrOf_em s).symm
  unfold Core.stored stored
  cases hinstr : s.emSt.load.instrOf s.decoder <;> simp only [hlive, hinstr]

def StoreInRange (s : PerfSim) : Prop :=
  s.stored.size > 0 → s.stored.addr.toNat + s.stored.size.toNat ≤ s.memory.size

def FetchApart (env : Env) (s : PerfSim) : Prop :=
  ∀ t pc, s.untilFetch env = .ok t → t.fetchAddr = some pc → s.stored.size > 0 →
    ∀ addr, ¬ (pc.toNat ≤ addr ∧ addr < pc.toNat + 4 ∧
      s.stored.addr.toNat ≤ addr ∧ addr < s.stored.addr.toNat + s.stored.size.toNat)

/-- The direct run has the same state, except for what the store slot still holds. -/
structure Ahead (s t t' : PerfSim) : Prop where
  memory : t.memory = s.memory
  pending : Pending t.pipeline s.stored
  drained : ∃ pipeline, Pending pipeline Store.clear ∧
    t' = t.onMemory (s.stored.drained s.memory) pipeline

theorem Ahead.stage {f : PerfSim → Except Error PerfSim}
    (hframe : ∀ memory pipeline, memory = t.memory ∨ memory = s.stored.drained s.memory →
      Agree (fun t' t => t' = t.onMemory memory pipeline) (f (t.onMemory memory pipeline)) (f t))
    (h : Ahead s t u) : Agree (Ahead s) (f t) (f u) := by
  obtain ⟨pipeline, hpipeline, rfl⟩ := h.drained
  have hsame := hframe t.memory t.pipeline (.inl rfl)
  have hother := hframe (s.stored.drained s.memory) pipeline (.inr rfl)
  cases ht : f t with
  | error e =>
      rw [hother.symm.of_error ht]
      rfl
  | ok t' =>
      rw [ht] at hother
      obtain ⟨u', hu', rfl⟩ := hother.of_ok_right rfl
      rw [hu']
      have hkept : t' = t'.onMemory t.memory t.pipeline := by
        change Agree _ (f t) (f t) at hsame
        rw [ht] at hsame
        exact hsame
      have hpending : t'.pipeline = t.pipeline := (congrArg PerfSim.pipeline hkept).trans rfl
      have hmemory : t'.memory = t.memory := (congrArg PerfSim.memory hkept).trans rfl
      exact ⟨hmemory.trans h.memory, hpending ▸ h.pending, pipeline, hpipeline, rfl⟩

section Cycle

variable {memory pipeline}
variable (hsq : env.config.isSq = true) (hgood : s.Good) (hrange : s.StoreInRange)
  (hqueue : pipeline.queue = []) (hclear : pipeline.store = Store.clear)
include hsq hgood hrange hqueue hclear

private theorem memoryAccess_ahead :
    Agree (Ahead s) (s.afterWriteBack.memoryAccess env)
      ((s.onMemory s.memory pipeline).afterWriteBack.memoryAccess env.direct) := by
  have hinv := hgood.latches
  have hqueued : Agree _ (s.afterWriteBack.memoryAccess env) (s.core.memStage env) :=
    memoryAccess_agree (s := s.afterWriteBack) hinv.mwStop hinv.mwStore hinv.queue hinv.pending
      hinv.em
  have hdirect : Agree _ ((s.onMemory s.memory pipeline).afterWriteBack.memoryAccess env.direct)
      (s.core.memStage env.direct) :=
    memoryAccess_agree (s := (s.onMemory s.memory pipeline).afterWriteBack) hinv.mwStop
      hinv.mwStore hqueue hclear hinv.em
  have hboth := Core.memStage_direct (c := s.core) hsq hgood.pipeline
    ⟨Core.stored_size_le hgood.pipeline, by rw [stored_core]; exact hrange⟩
  refine ((hqueued.trans hboth).trans hdirect.symm).mono ?_
  rintro t t' ⟨direct, ⟨queued, ⟨pl, hpl, rfl⟩, hmw, hmemory, hpending, hdrained, hdone⟩,
    pl', hpl', rfl⟩
  rw [hpending, stored_core] at hpl
  rw [hdone] at hpl'
  rw [stored_core] at hdrained
  refine ⟨hmemory, hpl, pl', hpl', ?_⟩
  unfold afterAccess onMemory
  rw [hmw, hdrained]
  rfl

theorem untilFetch_ahead :
    Agree (Ahead s) (s.untilFetch env)
      ((s.onMemory s.memory pipeline).untilFetch env.direct) := by
  have hinv := hgood.latches
  have hwrite := writeBack_eq hinv.mw hinv.mwHazard
  have hwrite' : (s.onMemory s.memory pipeline).writeBack =
      .ok (s.onMemory s.memory pipeline).afterWriteBack := writeBack_eq hinv.mw hinv.mwHazard
  have hqueued : s.untilFetch env =
      (s.afterWriteBack.memoryAccess env >>= execute env) >>= decode env := by
    simp only [untilFetch, untilDecode, hwrite]
    rfl
  have hdirect : (s.onMemory s.memory pipeline).untilFetch env.direct =
      ((s.onMemory s.memory pipeline).afterWriteBack.memoryAccess env.direct >>= execute env) >>=
        decode env := by
    simp only [untilFetch, untilDecode, hwrite']
    rfl
  rw [hqueued, hdirect]
  refine Agree.bind (R := Ahead s)
    ((memoryAccess_ahead hsq hgood hrange hqueue hclear).bind ?_) ?_
  · exact fun t u h => h.stage fun memory pipeline _ => execute_onMemory memory pipeline env t
  · exact fun t u h => h.stage fun memory pipeline _ => decode_onMemory memory pipeline env t

end Cycle

/-! ## Fetch and the end of the cycle -/

theorem fetch_onMemory (t : PerfSim) (h : ∀ pc, t.fetchAddr = some pc →
      memory.read 0 pc.toNat 4 = t.memory.read 0 pc.toNat 4) :
    Agree (fun t' t => t' = t.onMemory memory pipeline)
      (t.onMemory memory pipeline).fetch t.fetch := by
  unfold fetch
  refine Agree.ite (fun _ => rfl) fun hrun => ?_
  have hsame : Agree Eq (memory.read 0 t.core.nextPc.toNat 4)
      (t.memory.read 0 t.core.nextPc.toNat 4) := by
    rw [h t.core.nextPc (if_neg hrun)]
    exact Agree.refl _
  refine hsame.bind ?_
  rintro word _ rfl
  exact rfl

variable {memory pipeline}

/-- The states of the two runs, of which only one has given identifiers to stores. -/
def Matches (s d : PerfSim) : Prop := d = s.onMemory s.memory d.pipeline

theorem updates_ahead (hfits : s.stored.Fits s.memory) (h : Ahead s t u) :
    Agree Matches t.updates u.updates := by
  obtain ⟨pipeline, hpipeline, rfl⟩ := h.drained
  have hqueued := Store.update_eq hfits
  have hdirect := Store.update_eq (Store.fits_clear (s.stored.drained s.memory))
  have hmemory := h.memory
  rw [← hmemory] at hqueued
  obtain ⟨t', ht', p, -, -, rfl⟩ := (updates_agree h.pending).of_ok_right hqueued
  obtain ⟨u', hu', p', -, -, rfl⟩ := (updates_agree
    (s := t.onMemory (s.stored.drained s.memory) pipeline) hpipeline).of_ok_right hdirect
  rw [ht', hu']
  change Matches (t.afterUpdates (s.stored.drained t.memory) p)
    ((t.onMemory (s.stored.drained s.memory) pipeline).afterUpdates
      (s.stored.drained s.memory) p')
  rw [hmemory]
  exact rfl

theorem cycle_direct (hsq : env.config.isSq = true) (hgood : s.Good) (hrange : s.StoreInRange)
    (hapart : s.FetchApart env) (hqueue : pipeline.queue = [])
    (hclear : pipeline.store = Store.clear) :
    Agree Matches (s.cycle env) ((s.onMemory s.memory pipeline).cycle env.direct) := by
  rw [cycle_eq, cycle_eq]
  have hfits : s.stored.Fits s.memory :=
    ⟨by rw [← stored_core]; exact Core.stored_size_le hgood.pipeline, hrange⟩
  have huntil := untilFetch_ahead hsq hgood hrange hqueue hclear
  cases ht : s.untilFetch env with
  | error e =>
      rw [huntil.of_error ht]
      rfl
  | ok t =>
      obtain ⟨u, hu, hahead⟩ := huntil.of_ok ht
      rw [hu]
      have hfetch : Agree (Ahead s) t.fetch u.fetch := by
        refine hahead.stage fun memory pipeline hmemory => ?_
        refine fetch_onMemory memory pipeline t fun pc hpc => ?_
        rcases hmemory with rfl | rfl
        · rfl
        · rw [hahead.memory]
          unfold Store.drained
          split_ifs with hsize
          · have hfree := hapart t pc ht hpc hsize
            have hpos : 0 < s.stored.size.toNat := by bv_omega
            refine Memory.read_blit _ _ (by_contra fun hmeet => ?_)
            -- the first byte that both have
            refine hfree (max pc.toNat s.stored.addr.toNat) ⟨?_, ?_, ?_, ?_⟩ <;> omega
          · rfl
      exact hfetch.bind fun t u h => updates_ahead hfits h

/-! ## Runs -/

theorem cycle_drained (hsq : env.config.isSq = true) (hgood : s.Good) (h : s.cycle env = .ok s') :
    s'.pipeline.queue = [] ∧ s'.pipeline.store = Store.clear ∧
      s'.memory = s.stored.drained s.memory := by
  have hnext := (hgood.cycle h).latches
  refine ⟨hnext.queue, hnext.pending, ?_⟩
  obtain ⟨-, accessed, decoded, word, memory, hstepped, hcore⟩ := hgood.stepped h
  obtain ⟨hmemory, hpending⟩ := Core.memStage_queued hsq hstepped.access
  obtain ⟨pipeline, hdrain⟩ := hstepped.drain
  rw [hmemory, hpending, stored_core] at hdrain
  have hlast : s'.memory = memory := congrArg Core.memory hcore
  rw [hlast]
  exact Store.eq_drained_of_update hdrain

theorem Good.onMemory (hgood : s.Good) {pipeline : Pipeline} (hqueue : pipeline.queue = [])
    (hclear : pipeline.store = Store.clear) : (s.onMemory s.memory pipeline).Good where
  latches := { hgood.latches with
    queue := hqueue
    pending := hclear }
  pipeline := hgood.pipeline

theorem runFor_direct (hsq : env.config.isSq = true) (hgood : s.Good) {pipeline : Pipeline}
    (hqueue : pipeline.queue = []) (hclear : pipeline.store = Store.clear)
    (hsafe : ∀ m t, m < n → runFor env m s = .ok t → t.isStop = false →
      t.StoreInRange ∧ t.FetchApart env) :
    Agree Matches (runFor env n s) (runFor env.direct n (s.onMemory s.memory pipeline)) := by
  induction n generalizing s pipeline with
  | zero => exact rfl
  | succ n ih =>
      unfold PerfSim.runFor
      refine Agree.ite (fun _ => rfl) fun hrun => ?_
      have hstop : s.isStop = false := by simpa using hrun
      obtain ⟨hrange, hapart⟩ := hsafe 0 s (Nat.succ_pos n) rfl hstop
      have hcycle := cycle_direct hsq hgood hrange hapart hqueue hclear
      cases ht : s.cycle env with
      | error e =>
          rw [hcycle.of_error ht]
          rfl
      | ok t =>
          obtain ⟨u, hu, hmatch⟩ := hcycle.of_ok ht
          have hother := ((hgood.onMemory hqueue hclear).cycle hu).latches
          have hlater : ∀ m t', m < n → runFor env m t = .ok t' → t'.isStop = false →
              t'.StoreInRange ∧ t'.FetchApart env := by
            intro m t' hm ht'
            refine hsafe (m + 1) t' (Nat.succ_lt_succ hm) ?_
            rw [PerfSim.runFor, hstop, ht]
            exact ht'
          have hrest := ih (hgood.cycle ht) hother.queue hother.pending hlater
          rw [← show u = t.onMemory t.memory u.pipeline from hmatch] at hrest
          rw [hu]
          exact hrest

/--
From any reachable state, at the end of every number of rounds: the runs with
and without the store queue either raise the same exception or agree on
everything except the queue.  Each cycle of the queued run puts exactly its own
store into memory, and no load depends on what its buffer held.
-/
theorem store_queue_agrees (hsq : env.config.isSq = true) (h : Reachable env s)
    (hsafe : ∀ m t, m < n → runFor env m s = .ok t → t.isStop = false →
      t.StoreInRange ∧ t.FetchApart env) :
    Agree Matches (runFor env n s) (runFor env.direct n s) ∧
    (∀ m t t', runFor env m s = .ok t → t.cycle env = .ok t' →
      t'.pipeline.queue = [] ∧ t'.pipeline.store = Store.clear ∧
        t'.memory = t.stored.drained t.memory) ∧
    ∀ m t instr dData, runFor env m s = .ok t →
      t.emSt.load.instrOf t.decoder = some instr →
      loadAccess { env with undef := { env.undef with dData := dData } } t instr =
        loadAccess env t instr := by
  have hgood := h.good
  refine ⟨runFor_direct hsq hgood hgood.latches.queue hgood.latches.pending hsafe, ?_, ?_⟩
  · intro m t t' ht ht'
    exact cycle_drained hsq (h.runFor ht).good ht'
  · intro m t instr dData ht hem
    have hlater := (h.runFor ht).good
    obtain ⟨word, hcarries⟩ := hlater.pipeline.executed _ (InstrLatch.slotOf_of_instrOf hem)
    rw [loadAccess_eq instr hlater.latches.queue, loadAccess_eq instr hlater.latches.queue]
    exact Core.loadEffect_congr _ _ _ _ hcarries

/-- `ADDI x1, x0, 7; SW x1, 32(x0); LW x2, 32(x0); ECALL`. -/
def storeThenLoad : PerfSim :=
  bootWords 64 [0x00700093#32, 0x02102023#32, 0x02002103#32, 0x00000073#32]

def safeTest (env : Env) (s : PerfSim) : Bool :=
  decide (s.stored.addr.toNat + s.stored.size.toNat ≤ s.memory.size) &&
    match s.untilFetch env with
    | .ok t => t.fetchAddr.all fun pc => decide (s.stored.size = 0) ||
        decide (pc.toNat + 4 ≤ s.stored.addr.toNat)
    | .error _ => true

theorem safe_of_test (h : s.safeTest env = true) : s.StoreInRange ∧ s.FetchApart env := by
  rw [safeTest, Bool.and_eq_true, decide_eq_true_eq] at h
  refine ⟨fun _ => h.1, ?_⟩
  intro t pc ht hpc hsize addr hmeet
  have hapart := h.2
  simp only [ht, hpc, Option.all_some, Bool.or_eq_true, decide_eq_true_eq] at hapart
  rcases hapart with hzero | hle
  · rw [hzero] at hsize
    exact absurd hsize (by decide)
  · omega

theorem store_queue_agrees_load :
    Agree Matches (runFor .plain 12 storeThenLoad) (runFor Env.plain.direct 12 storeThenLoad) ∧
    (∀ m t t', runFor .plain m storeThenLoad = .ok t → t.cycle .plain = .ok t' →
      t'.pipeline.queue = [] ∧ t'.pipeline.store = Store.clear ∧
        t'.memory = t.stored.drained t.memory) ∧
    ∀ m t instr dData, runFor .plain m storeThenLoad = .ok t →
      t.emSt.load.instrOf t.decoder = some instr →
      loadAccess { Env.plain with undef := { Env.plain.undef with dData := dData } } t instr =
        loadAccess .plain t instr := by
  have htests := forall_of_checks 12 (safeTest .plain)
    (by decide +kernel : checkAfter .plain 12 storeThenLoad PerfSim.isStop = true)
    (by decide +kernel)
  exact store_queue_agrees rfl (.boot .plain _ _ _)
    fun m t _ ht _ => safe_of_test (htests m t ht)

end PerfSim

end RiscvPerfSim
