import RiscvPerfSim.Results.StoreQueue

/-!
# Elements of the store queue

The calls that a cycle makes on the store queue, and the lists of which these
calls ask for an element: `begin()` in `searchData`, `rbegin()` in
`tryConcatenate`, `front()` in `update`.  The listed calls are those that
`memoryAccess` makes.
-/

namespace RiscvPerfSim

open Foundation

namespace Pipeline

inductive Call where
  | push (instruction : Instruction)
  | searchData (instruction : Instruction)
  | update

/-- The list that a call wants the first or the last element of, unless it throws before. -/
def asked (pipeline : Pipeline) : Call → Option (List Store)
  | .push instruction =>
      if instruction.memAccType = .write ∧ instruction.type = .s then some pipeline.queue
      else none
  | .searchData instruction =>
      if instruction.memAccType = .read ∧ instruction.type = .i then some pipeline.queue
      else none
  | .update => some (pipeline.queue ++ [pipeline.store])

theorem asked_update_ne_nil {pipeline : Pipeline} {queue : List Store}
    (h : pipeline.asked .update = some queue) : queue ≠ [] := by
  rw [asked, Option.some.injEq] at h
  rw [← h]
  exact List.append_ne_nil_of_right_ne_nil _ (List.cons_ne_nil _ _)

end Pipeline

namespace PerfSim

variable {env : Env} {s : PerfSim}

def accessCalls (env : Env) (s : PerfSim) : List Pipeline.Call :=
  match s.emSt.load.instrOf s.decoder with
  | some instr =>
      if env.config.isSq && !s.mwSt.isStop then
        (if instr.memAccType = .write ∧ instr.type = .s then [.push instr] else []) ++
          if instr.memAccType = .read ∧ instr.type = .i then [.searchData instr] else []
      else []
  | none => []

def calls (env : Env) (s : PerfSim) : List (Pipeline × Pipeline.Call) :=
  (match s.writeBack with
    | .ok t => (t.accessCalls env).map fun call => (t.pipeline, call)
    | .error _ => []) ++
  match s.untilFetch env >>= fetch with
  | .ok t => [(t.pipeline, .update)]
  | .error _ => []

def Occupied (env : Env) (s : PerfSim) : Prop :=
  ∀ pipeline call queue, (pipeline, call) ∈ s.calls env →
    pipeline.asked call = some queue → queue ≠ []

/-- The queue is off, or no live load or store is in front of memory access. -/
def QueueIdle (env : Env) (s : PerfSim) : Prop :=
  env.config.isSq = true → ∀ instr, s.emSt.load.instrOf s.decoder = some instr →
    instr.memAccType = .none

def perform (env : Env) (x : PerfSim × Instruction) :
    Pipeline.Call → Except Error (PerfSim × Instruction)
  | .push instruction => do
      let pipeline ← x.1.pipeline.push env instruction
      return ({ x.1 with pipeline := pipeline }, x.2)
  | .searchData instruction => do
      let data ← x.1.pipeline.searchData env x.1.clocks x.1.memory instruction
      let data ← extendLoaded instruction data
      let instr ← instruction.setRdValue data
      return (x.1, instr)
  | .update => do
      let (memory, pipeline) ← x.1.pipeline.update x.1.memory
      return ({ x.1 with memory := memory, pipeline := pipeline }, x.2)

theorem accessCalls_of_running {instr : Instruction} (hsq : env.config.isSq = true)
    (hstop : s.mwSt.isStop = false) (hem : s.emSt.load.instrOf s.decoder = some instr) :
    s.accessCalls env =
      (if instr.memAccType = .write ∧ instr.type = .s then [.push instr] else []) ++
        if instr.memAccType = .read ∧ instr.type = .i then [.searchData instr] else [] := by
  simp [accessCalls, hem, hsq, hstop]

theorem accesses_eq_calls {instr : Instruction} (hsq : env.config.isSq = true)
    (hstop : s.mwSt.isStop = false) (hem : s.emSt.load.instrOf s.decoder = some instr) :
    (storeAccess env s instr >>= fun t =>
      loadAccess env t instr >>= fun i => .ok (t, i)) =
        (s.accessCalls env).foldlM (perform env) (s, instr) := by
  rw [accessCalls_of_running hsq hstop hem]
  by_cases hwrite : instr.memAccType = .write ∧ instr.type = .s
  · have hread : ¬ (instr.memAccType = .read ∧ instr.type = .i) := by
      rw [hwrite.1]
      exact fun h => nomatch h.1
    have hload (t : PerfSim) : loadAccess env t instr = .ok instr := if_neg hread
    rw [storeAccess, if_pos hwrite, if_pos hwrite, if_pos hsq, if_neg hread]
    simp only [hload, List.append_nil, List.foldlM_cons, List.foldlM_nil, perform]
    cases s.pipeline.push env instr <;> rfl
  · rw [storeAccess, if_neg hwrite, if_neg hwrite, List.nil_append]
    by_cases hread : instr.memAccType = .read ∧ instr.type = .i
    · rw [if_pos hread]
      change loadAccess env s instr >>= (fun i => .ok (s, i)) = _
      rw [loadAccess, if_pos hread, Instruction.dynamicCast, if_pos hread.2, if_pos hsq]
      simp only [List.foldlM_cons, List.foldlM_nil, perform, bind_assoc]
      rfl
    · rw [if_neg hread]
      simp only [loadAccess, if_neg hread]
      rfl

/-- Over a live instruction memory access makes the listed calls on the queue, in their order. -/
theorem memoryAccess_eq_calls {ptr : InstrPtr} (hsq : env.config.isSq = true)
    (hstop : s.mwSt.isStop = false) (hlive : s.emSt.load.isLive = true)
    (hptr : s.emSt.load.instr = some ptr) :
    s.memoryAccess env = (s.accessCalls env).foldlM (perform env)
        ({ s with mwSt := s.mwSt.modifyStore fun mw => { mw with isStall := false } },
          s.decoder.get ptr) >>= fun x =>
      .ok { x.1 with
        decoder := x.1.decoder.set ptr x.2
        mwSt := x.1.mwSt.modifyStore fun mw =>
          { mw with instr := s.emSt.load.instr, pc := s.emSt.load.pc } } := by
  let t : PerfSim :=
    { s with mwSt := s.mwSt.modifyStore fun mw => { mw with isStall := false } }
  have hem : t.emSt.load.instrOf t.decoder = some (s.decoder.get ptr) := by
    change (if s.emSt.load.isLive then s.emSt.load.instr.map s.decoder.get else none) = _
    rw [hlive, hptr]
    rfl
  have hcalls : s.accessCalls env = t.accessCalls env := rfl
  have hrunning : (s.emSt.load.isStall || s.emSt.load.hazardStall) = false := by
    simpa [InstrLatch.isLive] using hlive
  have hmw : t.mwSt.isStop = false := hstop
  rw [hcalls, ← accesses_eq_calls (s := t) hsq hmw hem]
  unfold memoryAccess
  simp only [hrunning, hptr, Decoder.deref]
  change (if (false || t.mwSt.isStop) = true then _ else _) = _
  rw [hmw, Bool.or_false, if_neg Bool.false_ne_true, bind_assoc]
  change storeAccess env t (s.decoder.get ptr) >>= _ = _
  simp only [bind_assoc]
  rfl

theorem updates_eq_call (instr : Instruction) :
    s.updates = perform env (s, instr) .update >>= fun x =>
      .ok { x.1 with
        fetchSt := s.fetchSt.update WF.clear
        fdSt := s.fdSt.update FD.clear
        deSt := s.deSt.update InstrLatch.clear
        emSt := s.emSt.update InstrLatch.clear
        mwSt := s.mwSt.update InstrLatch.clear
        clocks := s.clocks + 1 } := by
  rw [perform, updates, bind_assoc]
  rfl

section Unasked

variable {instr : Instruction} (pipeline : Pipeline)

theorem storeAccess_setPipeline
    (h : env.config.isSq = true → ¬ (instr.memAccType = .write ∧ instr.type = .s)) :
    storeAccess env { s with pipeline := pipeline } instr =
      (storeAccess env s instr).map fun t => { t with pipeline := pipeline } := by
  unfold storeAccess
  by_cases hwrite : instr.memAccType = .write ∧ instr.type = .s
  · have hsq : ¬ env.config.isSq = true := fun hsq => h hsq hwrite
    rw [if_pos hwrite, if_pos hwrite, if_neg hsq, if_neg hsq, Instruction.dynamicCast,
      if_pos hwrite.2]
    change s.memory.write _ _ _ >>= _ = (s.memory.write _ _ _ >>= _).map _
    cases s.memory.write _ _ _ <;> rfl
  · rw [if_neg hwrite, if_neg hwrite]
    rfl

theorem loadAccess_setPipeline
    (h : env.config.isSq = true → ¬ (instr.memAccType = .read ∧ instr.type = .i)) :
    loadAccess env { s with pipeline := pipeline } instr = loadAccess env s instr := by
  unfold loadAccess
  by_cases hread : instr.memAccType = .read ∧ instr.type = .i
  · have hsq : ¬ env.config.isSq = true := fun hsq => h hsq hread
    rw [if_pos hread, if_pos hread, if_neg hsq, if_neg hsq]
  · rw [if_neg hread, if_neg hread]

theorem not_asks_of_accessCalls (hcalls : s.accessCalls env = [])
    (hstop : s.mwSt.isStop = false) (hem : s.emSt.load.instrOf s.decoder = some instr)
    (hsq : env.config.isSq = true) :
    ¬ (instr.memAccType = .write ∧ instr.type = .s) ∧
      ¬ (instr.memAccType = .read ∧ instr.type = .i) := by
  rw [accessCalls_of_running hsq hstop hem, List.append_eq_nil_iff] at hcalls
  refine ⟨fun hwrite => ?_, fun hread => ?_⟩
  · rw [if_pos hwrite] at hcalls
    cases hcalls.1
  · rw [if_pos hread] at hcalls
    cases hcalls.2

/-- Without a listed call memory access neither reads nor changes the queue. -/
theorem memoryAccess_setPipeline (hcalls : s.accessCalls env = []) :
    memoryAccess env { s with pipeline := pipeline } =
      (s.memoryAccess env).map fun t => { t with pipeline := pipeline } := by
  unfold memoryAccess
  dsimp only
  split_ifs with hstop hkill
  · cases s.decoder.deref s.emSt.load.instr with
    | error e => rfl
    | ok found =>
        change HazardUnit.write _ _ >>= _ = (HazardUnit.write _ _ >>= _).map _
        cases HazardUnit.write _ _ <;> rfl
  · rfl
  · cases hptr : s.emSt.load.instr with
    | none => rfl
    | some ptr =>
        have hem : s.emSt.load.instrOf s.decoder = some (s.decoder.get ptr) := by
          have hlive : s.emSt.load.isLive = true := by simp_all [InstrLatch.isLive]
          rw [InstrLatch.instrOf, if_pos hlive, hptr, Option.map_some]
        have hmw : s.mwSt.isStop = false := by simp_all [Stage.isStop, Stage.modifyStore]
        let t : PerfSim := { s with mwSt := s.mwSt.modifyStore fun mw =>
          { mw with isStall := s.emSt.load.isStall || s.emSt.load.hazardStall } }
        have hstore := storeAccess_setPipeline (s := t) pipeline
          fun hsq => (not_asks_of_accessCalls hcalls hmw hem hsq).1
        have hload (u : PerfSim) := loadAccess_setPipeline (s := u) pipeline
          fun hsq => (not_asks_of_accessCalls hcalls hmw hem hsq).2
        change storeAccess env { t with pipeline := pipeline } (s.decoder.get ptr) >>= _ =
          (storeAccess env t (s.decoder.get ptr) >>= _).map _
        rw [hstore]
        cases storeAccess env t (s.decoder.get ptr) with
        | error e => rfl
        | ok u =>
            change loadAccess env { u with pipeline := pipeline } _ >>= _ =
              (loadAccess env u _ >>= _).map _
            rw [hload]
            cases loadAccess env u (s.decoder.get ptr) <;> rfl

end Unasked

theorem writeBack_calls (hinv : s.Inv) (pipeline : Pipeline) (call : Pipeline.Call) :
    (pipeline, call) ∈ (match s.writeBack with
      | .ok t => (t.accessCalls env).map fun call => (t.pipeline, call)
      | .error _ => []) ↔ pipeline = s.pipeline ∧ call ∈ s.accessCalls env := by
  rw [writeBack_eq hinv.mw hinv.mwHazard]
  change (pipeline, call) ∈ (s.accessCalls env).map (fun call => (s.pipeline, call)) ↔ _
  rw [List.mem_map]
  constructor
  · rintro ⟨call', hmem, heq⟩
    cases heq
    exact ⟨rfl, hmem⟩
  · rintro ⟨rfl, hmem⟩
    exact ⟨call, hmem, rfl⟩

theorem accessCalls_of_idle (hidle : s.QueueIdle env) : s.accessCalls env = [] := by
  unfold accessCalls
  cases hem : s.emSt.load.instrOf s.decoder with
  | none => rfl
  | some instr =>
      by_cases hsq : env.config.isSq = true
      · simp [hidle hsq instr hem]
      · simp [hsq]

theorem Good.asks (hgood : s.Good) (hbusy : ¬ s.QueueIdle env) :
    ∃ call ∈ s.accessCalls env, s.pipeline.asked call = some [] := by
  simp only [QueueIdle, Classical.not_imp, not_forall] at hbusy
  obtain ⟨hsq, instr, hem, haccess⟩ := hbusy
  have hslot := Core.live_iff.mp ((instrOf_em s).symm.trans hem)
  obtain ⟨word, hcarries⟩ := hgood.pipeline.executed _ hslot
  have hstop : s.mwSt.isStop = false := by
    simp [Stage.isStop, hgood.latches.mwStop]
  have hqueue := hgood.latches.queue
  have hsound := Decoder.recognize_sound word
  cases hacc : instr.memAccType with
  | none => exact absurd hacc haccess
  | read =>
      have htype : instr.type = .i :=
        hcarries.type.trans (hsound.read (hcarries.memAccType.symm.trans hacc)).1
      refine ⟨.searchData instr, ?_, ?_⟩
      · simp [accessCalls, hem, hsq, hstop, hacc, htype]
      · simp [Pipeline.asked, hacc, htype, hqueue]
  | write =>
      have htype : instr.type = .s :=
        hcarries.type.trans (hsound.write (hcarries.memAccType.symm.trans hacc)).1
      refine ⟨.push instr, ?_, ?_⟩
      · simp [accessCalls, hem, hsq, hstop, hacc, htype]
      · simp [Pipeline.asked, hacc, htype, hqueue]

theorem Good.occupied_iff (hgood : s.Good) : s.Occupied env ↔ s.QueueIdle env := by
  constructor
  · intro hoccupied
    by_contra hbusy
    obtain ⟨call, hmem, hasked⟩ := hgood.asks hbusy
    refine hoccupied s.pipeline call [] ?_ hasked rfl
    exact List.mem_append_left _
      ((writeBack_calls hgood.latches _ _).mpr ⟨rfl, hmem⟩)
  · intro hidle pipeline call queue hmem hasked
    rcases List.mem_append.mp hmem with haccess | hupdate
    · rw [writeBack_calls hgood.latches, accessCalls_of_idle hidle] at haccess
      cases haccess.2
    · split at hupdate
      · rw [List.mem_singleton, Prod.mk.injEq] at hupdate
        obtain ⟨-, rfl⟩ := hupdate
        exact Pipeline.asked_update_ne_nil hasked
      · cases hupdate

/--
A run asks no empty queue for an element exactly when it accesses memory with
the queue off, or not at all.
-/
theorem queue_occupied_iff (env : Env) (memory : Memory) (pc : BitVec 32)
    (values : RegName → BitVec 32) :
    (∀ s, (loop env).Reaches (fun _ => True) (boot memory pc values) s → s.isStop = false →
      s.Occupied env) ↔
    ∀ s, (loop env).Reaches (fun _ => True) (boot memory pc values) s → s.isStop = false →
      s.QueueIdle env := by
  refine forall_congr' fun s => forall_congr' fun hreaches => forall_congr' fun _ => ?_
  have hreach : Reachable env s := ⟨memory, pc, values, hreaches⟩
  exact hreach.good.occupied_iff

/-- `LW x1, 0(x0)` in front of memory access. -/
theorem load_asks_empty : ∃ s, Reachable .plain s ∧ s.isStop = false ∧ ¬ s.Occupied .plain := by
  obtain ⟨s, -, hreach, htest⟩ :=
    checkAfter_spec 3 (fun s => !s.isStop &&
      (s.emSt.load.instrOf s.decoder).any fun instr => instr.memAccType != .none)
      (.boot .plain _ _ _)
      (by decide +kernel : checkAfter .plain 3
        (bootWords 64 [0x00002083#32, 0x00000073#32]) _ = true)
  rw [Bool.and_eq_true, Bool.not_eq_true', Option.any_eq_true] at htest
  obtain ⟨hrun, instr, hem, haccess⟩ := htest
  refine ⟨s, hreach, hrun, fun hoccupied => ?_⟩
  have hnone := hreach.good.occupied_iff.mp hoccupied rfl instr hem
  rw [hnone] at haccess
  cases haccess

end PerfSim

end RiscvPerfSim
