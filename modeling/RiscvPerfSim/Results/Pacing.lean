import RiscvPerfSim.Core.Timing
import RiscvPerfSim.Results.Execution

/-!
# Paced programs on the simulator

A paced sequential run is one that the pipeline replays, with no condition on
any state of the pipeline, and its length in cycles is known beforehand.
-/

namespace RiscvPerfSim

open Foundation

namespace PerfSim

variable {env : Env} {memory : Memory} {pc : BitVec 32} {values : RegName → BitVec 32}
  {q : Nat → Seq} {instr : Nat → Instruction} {n m : Nat} {s : PerfSim}

theorem follows_with {P : PerfSim → Prop} (hexec : Execution env memory pc values q instr n)
    (hboot : P (boot memory pc values))
    (hsmooth : ∀ m s, runFor env m (boot memory pc values) = .ok s → s.isStop = false →
      s.core.Follows env q instr n → P s → s.core.Smooth env)
    (hstep : ∀ {s t accessed decoded word}, s.Good → s.core.Follows env q instr n →
      s.isStop = false → Core.Produces env q instr n s.leftover s.core accessed decoded word →
      Core.fetchStage accessed.memory s.core.nextPc (s.core.stop + s.core.exitStop env) =
        .ok word → s.cycle env = .ok t →
      t.core = s.core.advance env accessed decoded word (q s.core.deIndex).memory → P s → P t)
    (m : Nat) :
    ∃ s, runFor env m (boot memory pc values) = .ok s ∧ s.core.Follows env q instr n ∧ P s := by
  induction m with
  | zero => exact ⟨_, rfl, .boot hexec, hboot⟩
  | succ m ih =>
      obtain ⟨s, hrun, hfollows, hholds⟩ := ih
      rw [runFor_add, hrun]
      change ∃ t, runFor env 1 s = .ok t ∧ _
      cases hstop : s.isStop with
      | true => exact ⟨s, runFor_of_isStop 1 hstop, hfollows, hholds⟩
      | false =>
          have hgood := ((Reachable.boot env memory pc values).runFor hrun).good
          have hcore := hsmooth m s hrun hstop hfollows hholds
          obtain ⟨accessed, haccess⟩ := hfollows.accesses hexec hgood.pipeline
          obtain ⟨decoded, hdecode, hhits, hissued⟩ :=
            hfollows.decodes s.leftover hexec hgood.pipeline hcore haccess
          obtain ⟨word, hfetch, hword⟩ := hfollows.fetches hexec hcore.fetch haccess
          have hproduces : Core.Produces env q instr n s.leftover s.core accessed decoded word :=
            ⟨haccess, hdecode, hhits, hfollows.regs_exRf hexec hcore.fresh, hissued, hword⟩
          have hnext : s.core.step env s.leftover =
              .ok (s.core.advance env accessed decoded word (q s.core.deIndex).memory) := by
            simp only [Core.step, haccess.access, hdecode, hhits, Nat.add_zero, hfetch,
              haccess.drain, bind, Except.bind]
            rfl
          obtain ⟨t, hcycle, hcoreEq, -⟩ :=
            (cycle_agree env hgood.latches).of_ok_right hnext
          refine ⟨t, ?_, ?_, hstep hgood hfollows hstop hproduces hfetch hcycle hcoreEq hholds⟩
          · rw [runFor, hstop, if_neg (by decide), hcycle]
            rfl
          · rw [hcoreEq]
            exact hfollows.advance hexec hgood.pipeline hstop hproduces

theorem Good.smooth_of_core (hgood : s.Good) (h : s.core.Smooth env) : s.Smooth where
  loadUse := hgood.not_loadAhead_iff.mp h.loadUse
  storeUse := hgood.not_loadAhead_iff.mp h.storeUse
  fresh := fun instr hdiscard => h.fresh instr (slotOf_discarded hdiscard)
  fetch := (hgood.fetchInRange_iff env).mp fun hstop _ => h.fetch hstop

section Run

variable (hexec : Execution env memory pc values q instr n) (hpaced : Paced memory q instr n)
include hexec hpaced

theorem keeps_runFor (m : Nat) : ∃ s, runFor env m (boot memory pc values) = .ok s ∧
    s.core.Follows env q instr n ∧ s.core.Keeps memory q instr n :=
  follows_with (P := fun s => s.core.Keeps memory q instr n) hexec .boot
    (fun _ _ hrun hstop hfollows hkeeps => hkeeps.smooth hexec
      ((Reachable.boot env memory pc values).runFor hrun).good.pipeline hfollows hstop hpaced)
    (fun hgood hfollows hstop hproduces hfetch _ hcore hkeeps =>
      hcore ▸ hkeeps.advance hexec hgood.pipeline hfollows hstop hproduces hfetch hpaced) m

theorem smooth_of_paced (hrun : runFor env m (boot memory pc values) = .ok s)
    (hstop : s.isStop = false) : s.Smooth := by
  obtain ⟨t, ht, hfollows, hkeeps⟩ := keeps_runFor hexec hpaced m
  rw [hrun] at ht
  cases ht
  have hgood := ((Reachable.boot env memory pc values).runFor hrun).good
  exact hgood.smooth_of_core (hkeeps.smooth hexec hgood.pipeline hfollows hstop hpaced)

end Run

/-! ## The clock of a run -/

theorem clocks_runFor {t : PerfSim} (hgood : s.Good) (hrun : runFor env m s = .ok t) :
    t.clocks ≤ s.clocks + m ∧ (t.isStop = false → t.clocks = s.clocks + m) := by
  induction m generalizing s with
  | zero =>
      cases hrun
      exact ⟨le_rfl, fun _ => rfl⟩
  | succ m ih =>
      rcases runFor_succ hrun with ⟨hstop, rfl⟩ | ⟨-, u, hcycle, hrest⟩
      · exact ⟨Nat.le_add_right _ _, fun hrunning => by rw [hstop] at hrunning; cases hrunning⟩
      · obtain ⟨-, accessed, decoded, word, memory, -, hcore⟩ := hgood.stepped hcycle
        have hclocks : u.clocks = s.clocks + 1 := congrArg Core.clocks hcore
        have hlater := ih (hgood.cycle hcycle) hrest
        rw [hclocks] at hlater
        exact ⟨by omega, fun hrunning => by have := hlater.2 hrunning; omega⟩

/-! ## The end of a run -/

theorem indices_of_isStop (h : s.core.Follows env q instr n) (hstop : s.isStop = true) :
    s.core.mwIndex = n + 1 ∧ s.core.emIndex = n + 1 ∧ s.core.deIndex = n + 1 ∧
      s.core.fdIndex = n + 1 := by
  have hmw := h.isStop.mp hstop
  have hbound := h.bound
  have hem : s.core.mwIndex ≤ s.core.emIndex := Nat.le_add_right _ _
  have hde : s.core.emIndex ≤ s.core.deIndex := Nat.le_add_right _ _
  have hfd : s.core.deIndex ≤ s.core.fdIndex := Nat.le_add_right _ _
  omega

theorem replays_of_isStop (h : s.core.Follows env q instr n) (hstop : s.isStop = true) :
    s.Replays q instr n := by
  obtain ⟨hmw, hem, -⟩ := indices_of_isStop h hstop
  exact ⟨hmw ▸ h.trace, hmw ▸ h.regs, hem ▸ h.memory⟩

structure Measures (s : PerfSim) (instr : Nat → Instruction) (n : Nat) : Prop where
  clocks : s.clocks = n + 5 + 2 * taken instr n + 5 * systems instr n
  ic : s.ic = n + 1
  branches : s.hu.branches = BitVec.ofNat 32 (taken instr n)
  stops : s.hu.stops = 0

theorem measures_of_isStop (hexec : Execution env memory pc values q instr n)
    (hreach : Reachable env s) (h : s.core.Follows env q instr n)
    (htimed : s.core.Timed instr) (hstop : s.isStop = true) : s.Measures instr n := by
  obtain ⟨hmw, hem, hde, hfd⟩ := indices_of_isStop h hstop
  have htaken : taken instr (n + 1) = taken instr n := by
    rw [taken_succ, hexec.target_last]
    rfl
  have hlast : (instr n).type = .system := by
    have hcarries := (hexec.stepped le_rfl).instr_carries
    have hname := hcarries.name
    rw [hexec.ends] at hname
    exact hcarries.type.trans ((Decoder.recognize_sound _).ecall hname.symm)
  have hsystems : systems instr (n + 1) = systems instr n + 1 := by
    rw [systems_succ, if_pos hlast]
  have hlive : Core.live s.core.de = none := by
    have hlength : s.core.fdIndex = s.core.deIndex + (Core.live s.core.de).toList.length := rfl
    rw [hfd, hde] at hlength
    cases hlive : Core.live s.core.de with
    | none => rfl
    | some a =>
        rw [hlive, Option.toList_some, List.length_singleton] at hlength
        omega
  constructor
  case clocks =>
    have htwo : s.core.deStop = 2 := htimed.ended hstop
    have hclocks := htimed.idle hlive
    rw [htimed.stopped (by omega), if_pos rfl, htwo, hfd, fetchedAt, htaken, hsystems] at hclocks
    change s.clocks + 2 = _ at hclocks
    omega
  case ic =>
    rw [hreach.ledger.ic]
    exact hmw
  case branches =>
    have hbranches := htimed.branches
    rw [hde, htaken] at hbranches
    exact hbranches
  case stops => exact htimed.stops

section Smooth

variable (hexec : Execution env memory pc values q instr n)
  (hsmooth : ∀ m s, runFor env m (boot memory pc values) = .ok s → s.isStop = false → s.Smooth)
include hexec hsmooth

theorem timed_runFor (m : Nat) : ∃ s, runFor env m (boot memory pc values) = .ok s ∧
    s.core.Follows env q instr n ∧ s.core.Timed instr :=
  follows_with (P := fun s => s.core.Timed instr) hexec .boot
    (fun m s hrun hstop _ _ =>
      ((Reachable.boot env memory pc values).runFor hrun).good.smooth (hsmooth m s hrun hstop))
    (fun hgood hfollows hstop hproduces _ _ hcore htimed =>
      hcore ▸ htimed.advance hexec hgood.pipeline hfollows hproduces hstop) m

theorem ends_measured : ∃ m s, (loop env).run m (boot memory pc values) = some (.ok s) ∧
    s.Replays q instr n ∧ s.Measures instr n := by
  obtain ⟨s, hrun, hstop, hfollows⟩ := stops_in_rounds hexec hsmooth
  obtain ⟨t, ht, -, htimed⟩ := timed_runFor hexec hsmooth (8 * (n + 2))
  rw [hrun] at ht
  cases ht
  have hreach := (Reachable.boot env memory pc values).runFor hrun
  exact ⟨_, s, by rw [run_eq, hrun]; exact if_pos hstop, replays_of_isStop hfollows hstop,
    measures_of_isStop hexec hreach hfollows htimed hstop⟩

/-- A run that loses nothing takes as many cycles as its instructions say, whatever their
operands are. -/
theorem clocks_of_smooth : ∃ m s, (loop env).run m (boot memory pc values) = some (.ok s) ∧
    s.Measures instr n := by
  obtain ⟨m, s, hrun, -, hmeasures⟩ := ends_measured hexec hsmooth
  exact ⟨m, s, hrun, hmeasures⟩

theorem scheduled_runFor (m : Nat) : ∃ s, runFor env m (boot memory pc values) = .ok s ∧
    s.core.Follows env q instr n ∧ s.core.Scheduled instr :=
  follows_with (P := fun s => s.core.Scheduled instr) hexec .boot
    (fun m s hrun hstop _ _ =>
      ((Reachable.boot env memory pc values).runFor hrun).good.smooth (hsmooth m s hrun hstop))
    (fun hgood hfollows hstop hproduces _ _ hcore hscheduled =>
      hcore ▸ hscheduled.advance hexec hgood.pipeline hfollows hstop hproduces) m

end Smooth

theorem smooth_storeLoop (hrun : runFor .plain m storeLoop = .ok s) (hstop : s.isStop = false) :
    s.Smooth := by
  have htests := forall_of_checks 26 (fun s => s.isStop || s.smoothTest)
    (by decide +kernel : checkAfter .plain 26 storeLoop PerfSim.isStop = true)
    (by decide +kernel)
  have htest := htests m s hrun
  rw [hstop, Bool.false_or] at htest
  exact smooth_of_test htest

theorem clocks_of_smooth_storeLoop : ∃ q instr,
    Execution .plain storeLoop.memory 0 (fun _ => 0) q instr 12 ∧
      ∃ m s, (loop .plain).run m storeLoop = some (.ok s) ∧ s.Measures instr 12 := by
  have hexec : Execution .plain storeLoop.memory 0 (fun _ => 0) _ _ 12 :=
    Seq.execution (by decide +kernel)
  exact ⟨_, _, hexec, clocks_of_smooth hexec fun _ _ hrun hstop => smooth_storeLoop hrun hstop⟩

/-- A paced program ends with the trace, the registers and the memory of its sequential run. -/
theorem paced_replays (hexec : Execution env memory pc values q instr n)
    (hpaced : Paced memory q instr n) :
    ∃ m s, (loop env).run m (boot memory pc values) = some (.ok s) ∧ s.Replays q instr n := by
  obtain ⟨m, s, hrun, hreplays, -⟩ :=
    ends_measured hexec fun _ _ hrun hstop => smooth_of_paced hexec hpaced hrun hstop
  exact ⟨m, s, hrun, hreplays⟩

theorem paced_replays_storeLoop : ∃ q instr,
    Execution .plain storeLoop.memory 0 (fun _ => 0) q instr 12 ∧
      ∃ m s, (loop .plain).run m storeLoop = some (.ok s) ∧ s.Replays q instr 12 := by
  have hexec : Execution .plain storeLoop.memory 0 (fun _ => 0) _ _ 12 :=
    Seq.execution (by decide +kernel)
  exact ⟨_, _, hexec, paced_replays hexec (Paced.of_test (by decide +kernel))⟩

end PerfSim

end RiscvPerfSim
