import RiscvPerfSim.Core.Follows
import RiscvPerfSim.Core.Safe
import RiscvPerfSim.Results.Interlock
import RiscvPerfSim.Results.Progress
import RiscvPerfSim.Results.Squash

/-!
# The run of the simulator and the sequential run

A run that meets no load-use pair, puts no stale copy back and fetches inside
memory ends, and retires what the sequential run retires.
-/

namespace RiscvPerfSim

open Foundation

namespace PerfSim

variable {env : Env} {memory : Memory} {pc : BitVec 32} {values : RegName → BitVec 32}
  {q : Nat → Seq} {instr : Nat → Instruction} {n m : Nat} {s s' : PerfSim}

/-! ## The condition on a state -/

/-- No load is about to be discarded, and no register to be put back. -/
structure Lossless (s : PerfSim) : Prop where
  loadUse : ∀ load num, ¬ s.LoadUse load num
  fresh : ∀ instr, s.discarded s.deSt.load = some instr → s.Fresh instr

/-- In addition the cycle raises nothing that the sequential run does not raise. -/
structure Smooth (s : PerfSim) : Prop extends Lossless s where
  storeUse : ∀ load num, ¬ s.StoreUse load num
  fetch : s.FetchInRange

def smoothTest (s : PerfSim) : Bool :=
  s.freeTest Decoder.needs && s.freeTest Decoder.stores &&
    (s.discarded s.deSt.load).all s.freshTest && s.fetchTest

theorem smooth_of_test (h : s.smoothTest = true) : s.Smooth := by
  simp only [smoothTest, Bool.and_eq_true, Option.all_eq_true] at h
  obtain ⟨⟨⟨huse, hstore⟩, hfresh⟩, hfetch⟩ := h
  exact ⟨⟨not_loadAhead_iff_test.mpr huse,
    fun instr hdiscard => fresh_iff_test.mpr (hfresh instr hdiscard)⟩,
    not_loadAhead_iff_test.mpr hstore, fetchInRange_of_test hfetch⟩

theorem discarded_of_core {instr : Instruction} (h : s.core.de = some ⟨instr, true⟩) :
    s.discarded s.deSt.load = some instr := by
  obtain ⟨hstall, hhazard, ptr, hptr, rfl⟩ := InstrLatch.slotOf_eq_some h
  simp [discarded, hstall, hhazard, hptr]

theorem Good.smooth (hgood : s.Good) (h : s.Smooth) : s.core.Smooth env where
  loadUse := hgood.not_loadAhead_iff.mpr h.loadUse
  storeUse := hgood.not_loadAhead_iff.mpr h.storeUse
  fresh := fun instr hde => h.fresh instr (discarded_of_core hde)
  fetch := fun hstop =>
    (hgood.fetchInRange_iff env).mpr h.fetch hstop (hgood.not_loadAhead_iff.mpr h.loadUse)

/-! ## The run -/

theorem run_eq (m : Nat) (s : PerfSim) : (loop env).run m s =
    match runFor env m s with
    | .ok s' => if s'.isStop then some (.ok s') else none
    | .error e => some (.error e) := by
  induction m generalizing s with
  | zero => rfl
  | succ m ih =>
      have hhalted : (loop env).halted s = s.isStop := rfl
      have hround : (loop env).step s = s.cycle env := rfl
      rw [Loop.run, runFor, hhalted, hround]
      cases hstop : s.isStop with
      | true => simp [hstop]
      | false =>
          rw [if_neg (by decide), if_neg (by decide)]
          cases s.cycle env with
          | error e => rfl
          | ok t => exact ih t

structure Replays (s : PerfSim) (q : Nat → Seq) (instr : Nat → Instruction) (n : Nat) : Prop where
  trace : s.trace.map Instruction.outcome =
    (List.range (n + 1)).map fun k => (instr k).outcome
  regs : ∀ num, (s.rf.regs num).value = ((q (n + 1)).rf.regs num).value
  memory : s.memory = (q (n + 1)).memory

section Run

variable (hexec : Execution env memory pc values q instr n)
  (hsmooth : ∀ m s, runFor env m (boot memory pc values) = .ok s → s.isStop = false → s.Smooth)
include hexec hsmooth

theorem follows_runFor (m : Nat) : ∃ s, runFor env m (boot memory pc values) = .ok s ∧
    s.core.Follows env q instr n := by
  induction m with
  | zero => exact ⟨_, rfl, .boot hexec⟩
  | succ m ih =>
      obtain ⟨s, hrun, hfollows⟩ := ih
      rw [runFor_add, hrun]
      change ∃ t, runFor env 1 s = .ok t ∧ _
      cases hstop : s.isStop with
      | true => exact ⟨s, runFor_of_isStop 1 hstop, hfollows⟩
      | false =>
          have hgood := ((Reachable.boot env memory pc values).runFor hrun).good
          have hcore : s.core.Smooth env := hgood.smooth (hsmooth m s hrun hstop)
          obtain ⟨c', hstep, hnext⟩ :=
            hfollows.step hexec hgood.pipeline hstop hcore s.leftover
          obtain ⟨t, hcycle, rfl, -⟩ := (cycle_agree env hgood.latches).of_ok_right hstep
          refine ⟨t, ?_, hnext⟩
          rw [runFor, hstop, if_neg (by decide), hcycle]
          rfl

theorem stops_in_rounds : ∃ s, runFor env (8 * (n + 2)) (boot memory pc values) = .ok s ∧
    s.isStop = true ∧ s.core.Follows env q instr n := by
  obtain ⟨s, hrun, hfollows⟩ := follows_runFor hexec hsmooth (8 * (n + 2))
  have hreach := Reachable.boot env memory pc values
  refine ⟨s, hrun, ?_, hfollows⟩
  have hfree : ∀ m t u, runFor env m (boot memory pc values) = .ok t → t.isStop = false →
      t.cycle env = .ok u → ¬ t.SelfLoad := by
    rintro m t u ht hstop - ⟨load, num, huse, -⟩
    exact (hsmooth m t ht hstop).loadUse load num huse
  rcases le_ic_of_rounds hreach hfree hrun with hstop | hle
  · exact hstop
  · apply hfollows.isStop.mpr
    change n < s.trace.length
    rw [← (hreach.runFor hrun).ledger.ic]
    omega

/-- The run ends with the trace, the registers and the memory of the sequential run. -/
theorem refines_sequential : ∃ m s, (loop env).run m (boot memory pc values) = some (.ok s) ∧
    s.Replays q instr n := by
  obtain ⟨s, hrun, hstop, hfollows⟩ := stops_in_rounds hexec hsmooth
  refine ⟨_, s, by rw [run_eq, hrun]; exact if_pos hstop, ?_⟩
  have hmw := hfollows.isStop.mp hstop
  have hbound := hfollows.bound
  have hem : s.core.mwIndex ≤ s.core.emIndex := Nat.le_add_right _ _
  have hde : s.core.emIndex ≤ s.core.deIndex := Nat.le_add_right _ _
  have hfd : s.core.deIndex ≤ s.core.fdIndex := Nat.le_add_right _ _
  have hretired : s.core.mwIndex = n + 1 := by omega
  have haccessed : s.core.emIndex = n + 1 := by omega
  exact ⟨hretired ▸ hfollows.trace, hretired ▸ hfollows.regs, haccessed ▸ hfollows.memory⟩

end Run

/-- The load-use of `LW x1, 16(x0); ADDI x2, x1, 1` retires the `ADDI` twice and the load never. -/
theorem loadThenUse_diverges : ∃ q instr n,
    Execution .plain loadThenUse.memory 0 (fun _ => 0) q instr n ∧
      ¬ ∃ m s, (loop .plain).run m loadThenUse = some (.ok s) ∧ s.Replays q instr n := by
  refine ⟨_, _, 2, Seq.execution (by decide +kernel), ?_⟩
  rintro ⟨m, s, hrun, hreplays⟩
  have htests := forall_of_checks 11 (fun s => !s.isStop ||
      decide (s.trace.map Instruction.outcome ≠ (List.range 3).map fun k =>
        ((Seq.boot loadThenUse.memory 0 fun _ => 0).retired .plain k).outcome))
    (by decide +kernel : checkAfter .plain 11 loadThenUse PerfSim.isStop = true)
    (by decide +kernel)
  rw [run_eq] at hrun
  split at hrun
  · rename_i t ht
    split_ifs at hrun with hstop
    cases hrun
    have htest := htests m s ht
    rw [hstop, Bool.not_true, Bool.false_or, decide_eq_true_eq] at htest
    exact htest hreplays.trace
  · cases hrun

/-- A loop that stores, loads what it has stored, bypasses and jumps back. -/
def storeLoop : PerfSim :=
  bootWords 128 [0x00200093#32, 0x00308113#32, 0x04202023#32, 0x04002183#32, 0xfff08093#32,
    0xfe0098e3#32, 0x00218233#32, 0x00000073#32]

theorem refines_sequential_storeLoop : ∃ q instr,
    Execution .plain storeLoop.memory 0 (fun _ => 0) q instr 12 ∧
      ∃ m s, (loop .plain).run m storeLoop = some (.ok s) ∧ s.Replays q instr 12 := by
  have hexec : Execution .plain storeLoop.memory 0 (fun _ => 0) _ _ 12 :=
    Seq.execution (by decide +kernel)
  have htests := forall_of_checks 26 (fun s => s.isStop || s.smoothTest)
    (by decide +kernel : checkAfter .plain 26 storeLoop PerfSim.isStop = true)
    (by decide +kernel)
  refine ⟨_, _, hexec, refines_sequential hexec fun m s hrun hstop => ?_⟩
  have htest := htests m s hrun
  rw [hstop, Bool.false_or] at htest
  exact smooth_of_test htest

end PerfSim

end RiscvPerfSim
