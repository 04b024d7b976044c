import RiscvPerfSim.Results.Execution

/-!
# Exceptions

When a run raises, which exceptions it can raise, and what is left of the
condition in a run that follows a sequential one.
-/

namespace RiscvPerfSim

open Foundation

namespace PerfSim

variable {env : Env} {memory : Memory} {pc : BitVec 32} {values : RegName → BitVec 32}
  {q : Nat → Seq} {instr : Nat → Instruction} {n m : Nat} {s t : PerfSim} {e : Error}

def NeverRaises (env : Env) (s : PerfSim) : Prop :=
  ∀ m e, (loop env).run m s ≠ some (.error e)

theorem run_error_iff : (loop env).run m s = some (.error e) ↔ runFor env m s = .error e := by
  rw [run_eq]
  cases runFor env m s with
  | ok t => cases t.isStop <;> simp
  | error e' => simp

theorem neverRaises_iff_runFor : NeverRaises env s ↔ ∀ m, ∃ t, runFor env m s = .ok t := by
  constructor
  · intro h m
    cases hrun : runFor env m s with
    | ok t => exact ⟨t, rfl⟩
    | error e => exact absurd (run_error_iff.mpr hrun) (h m e)
  · intro h m e herror
    obtain ⟨t, hrun⟩ := h m
    rw [run_error_iff, hrun] at herror
    cases herror

theorem runFor_error (hreach : Reachable env s) (h : runFor env m s = .error e) :
    ∃ k t, runFor env k s = .ok t ∧ Reachable env t ∧ t.isStop = false ∧
      t.cycle env = .error e := by
  induction m generalizing s with
  | zero => cases h
  | succ m ih =>
      unfold runFor at h
      split_ifs at h with hstop
      rw [Bool.not_eq_true] at hstop
      rcases error_of_bind h with hcycle | ⟨u, hcycle, hrest⟩
      · exact ⟨0, s, rfl, hreach, hstop, hcycle⟩
      · obtain ⟨k, t, hrun, hlast⟩ := ih (hreach.cycle hstop hcycle) hrest
        refine ⟨k + 1, t, ?_, hlast⟩
        rw [runFor, hstop, if_neg (by decide), hcycle]
        exact hrun

theorem raised_kind (hreach : Reachable env s) (h : runFor env m s = .error e) :
    e = .runtime "load hazart" ∨ e.OfMemory := by
  obtain ⟨k, t, -, hlast, -, hcycle⟩ := runFor_error hreach h
  exact hlast.good.cycle_error hcycle

theorem neverRaises_iff (hreach : Reachable env s) : NeverRaises env s ↔
    ∀ m t, runFor env m s = .ok t → t.isStop = false → t.Safe := by
  rw [neverRaises_iff_runFor]
  constructor
  · intro h m t hrun hstop
    obtain ⟨u, hu⟩ := h (m + 1)
    rw [runFor_add, hrun] at hu
    rcases runFor_succ hu with ⟨htrue, -⟩ | ⟨-, t', hcycle, -⟩
    · rw [hstop] at htrue
      cases htrue
    · exact (hreach.runFor hrun).good.cycle_ok_iff.mp ⟨t', hcycle⟩
  · intro h m
    cases hrun : runFor env m s with
    | ok t => exact ⟨t, rfl⟩
    | error e =>
        obtain ⟨k, t, ht, hlast, hstop, hcycle⟩ := runFor_error hreach hrun
        have hok : ∃ t', t.cycle env = .ok t' := hlast.good.cycle_ok_iff.mpr (h k t ht hstop)
        obtain ⟨t', ht'⟩ := hok
        rw [hcycle] at ht'
        cases ht'

/-- Along a sequential run the accesses are those of the run, and need no condition. -/
theorem neverRaises_iff_of_lossless (hexec : Execution env memory pc values q instr n)
    (hlossless : ∀ m t, runFor env m (boot memory pc values) = .ok t → t.isStop = false →
      t.Lossless) :
    NeverRaises env (boot memory pc values) ↔
      ∀ m t, runFor env m (boot memory pc values) = .ok t → t.isStop = false →
        (∀ load num, ¬ t.StoreUse load num) ∧ t.FetchInRange := by
  constructor
  · intro h m t hrun hstop
    have hsafe := (neverRaises_iff (.boot env memory pc values)).mp h m t hrun hstop
    exact ⟨hsafe.storeUse, hsafe.fetch⟩
  · intro h
    rw [neverRaises_iff_runFor]
    intro m
    obtain ⟨t, hrun, -⟩ := follows_runFor hexec (fun m s hrun hstop =>
      ⟨hlossless m s hrun hstop, (h m s hrun hstop).1, (h m s hrun hstop).2⟩) m
    exact ⟨t, hrun⟩

/--
A run raises nothing exactly when in every cycle no loaded value is stored by
the next word and the access and the fetch of the cycle lie in memory.  It
raises nothing but the two corresponding exceptions.  Along a sequential run
in which no load is discarded only the store and the fetch remain.
-/
theorem exception_free (env : Env) (memory : Memory) (pc : BitVec 32)
    (values : RegName → BitVec 32) :
    (NeverRaises env (boot memory pc values) ↔
      ∀ m t, runFor env m (boot memory pc values) = .ok t → t.isStop = false → t.Safe) ∧
    (∀ m e, (loop env).run m (boot memory pc values) = some (.error e) →
      e = .runtime "load hazart" ∨ e.OfMemory) ∧
    ∀ q instr n, Execution env memory pc values q instr n →
      (∀ m t, runFor env m (boot memory pc values) = .ok t → t.isStop = false → t.Lossless) →
      (NeverRaises env (boot memory pc values) ↔
        ∀ m t, runFor env m (boot memory pc values) = .ok t → t.isStop = false →
          (∀ load num, ¬ t.StoreUse load num) ∧ t.FetchInRange) :=
  ⟨neverRaises_iff (.boot env memory pc values),
    fun _ _ h => raised_kind (.boot env memory pc values) (run_error_iff.mp h),
    fun _ _ _ hexec hlossless => neverRaises_iff_of_lossless hexec hlossless⟩

/-- `LW x1, 16(x0); SW x1, 20(x0); ECALL`. -/
def loadThenStore : PerfSim := bootWords 64 [0x01002083#32, 0x00102a23#32, 0x00000073#32]

/-- `ADDI x0, x0, 0; ECALL` in a memory of eight bytes. -/
def ecallAtEnd : PerfSim := bootWords 8 [0x00000013#32, 0x00000073#32]

def Raises (s : PerfSim) (e : Error) : Prop :=
  (∃ q instr n, Execution .plain s.memory 0 (fun _ => 0) q instr n) ∧
    ∃ m, (loop .plain).run m s = some (.error e)

theorem raises_of_check (m : Nat) (hrun : (match runFor .plain m s with
    | .ok _ => false
    | .error e' => decide (e' = e)) = true)
    (hexec : ∃ q instr n, Execution .plain s.memory 0 (fun _ => 0) q instr n) : s.Raises e := by
  refine ⟨hexec, m, run_error_iff.mpr ?_⟩
  split at hrun
  · cases hrun
  · rename_i e' h
    rw [h, of_decide_eq_true hrun]

/-- The store of a loaded value, and the fetch behind an `ECALL` in the last word. -/
theorem good_programs_raise : loadThenStore.Raises (.runtime "load hazart") ∧
    ecallAtEnd.Raises (.runtime "addr is out of memory") := by
  constructor
  · exact raises_of_check 4 (by decide +kernel) ⟨_, _, 2, Seq.execution (by decide +kernel)⟩
  · exact raises_of_check 4 (by decide +kernel) ⟨_, _, 1, Seq.execution (by decide +kernel)⟩

theorem exception_free_storeLoop : NeverRaises .plain storeLoop := by
  have hexec : Execution .plain storeLoop.memory 0 (fun _ => 0) _ _ 12 :=
    Seq.execution (by decide +kernel)
  have htests := forall_of_checks 26 (fun s => s.isStop || s.smoothTest)
    (by decide +kernel : checkAfter .plain 26 storeLoop PerfSim.isStop = true)
    (by decide +kernel)
  have hsmooth : ∀ m t, runFor .plain m storeLoop = .ok t → t.isStop = false → t.Smooth := by
    intro m t hrun hstop
    have htest := htests m t hrun
    rw [hstop, Bool.false_or] at htest
    exact smooth_of_test htest
  refine ((exception_free .plain storeLoop.memory 0 fun _ => 0).2.2 _ _ 12 hexec ?_).mpr ?_
  · exact fun m t hrun hstop => (hsmooth m t hrun hstop).toLossless
  · exact fun m t hrun hstop => ⟨(hsmooth m t hrun hstop).storeUse, (hsmooth m t hrun hstop).fetch⟩

end PerfSim

end RiscvPerfSim
