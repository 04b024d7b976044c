import RiscvPerfSim.Core.Invariant
import RiscvPerfSim.Core.Simulation

/-!
# Reachable states

The states that the loop of `PerfSim::run` passes between two cycles, for every
memory, entry and register contents, and the two invariants they all satisfy.
-/

namespace RiscvPerfSim

open Foundation

/-- The default configuration, with everything that C++ leaves open at zero. -/
def Env.plain : Env := { undef := ⟨fun _ _ _ => 0, fun _ => 0, 0, 0⟩ }

theorem Core.inv_boot (memory : Memory) (pc : BitVec 32) (values : RegName → BitVec 32) :
    (PerfSim.boot memory pc values).core.Inv where
  named := fun num => rfl
  zero := rfl
  locks := fun num => by
    change (0 : Int) = if num = 0 then 0 else -(0 + 0 + 0)
    split_ifs <;> rfl
  decoded := fun slot h => by cases h
  executed := fun slot h => by cases h
  accessed := fun instr h => by cases h
  captured := fun slot h => by cases h
  control := .running rfl rfl
  bubble := fun ld h => by cases h
  flushed := fun h => by cases h
  redirected := rfl

namespace PerfSim

variable {env : Env} {s s' : PerfSim}

/-- Both invariants: that of the latches and objects, and that of the pipeline they hold. -/
structure Good (s : PerfSim) : Prop where
  latches : s.Inv
  pipeline : s.core.Inv

theorem boot_good (memory : Memory) (pc : BitVec 32) (values : RegName → BitVec 32) :
    (boot memory pc values).Good :=
  ⟨boot_inv memory pc values, Core.inv_boot memory pc values⟩

theorem Good.stepped (hgood : s.Good) (h : s.cycle env = .ok s') :
    s'.Inv ∧ ∃ accessed decoded word memory,
      Core.Stepped env s.leftover s.core accessed decoded word memory ∧
      s'.core = s.core.advance env accessed decoded word memory := by
  obtain ⟨c', hstep, rfl, hinv⟩ := (cycle_agree env hgood.latches).of_ok h
  obtain ⟨accessed, decoded, word, memory, hstepped, hcore⟩ := Core.step_ok hstep
  exact ⟨hinv, accessed, decoded, word, memory, hstepped, hcore⟩

theorem Good.cycle (hgood : s.Good) (h : s.cycle env = .ok s') : s'.Good := by
  obtain ⟨hinv, accessed, decoded, word, memory, hstepped, hcore⟩ := hgood.stepped h
  exact ⟨hinv, hcore ▸ hgood.pipeline.advance hstepped⟩

/-! ## Runs from a boot state -/

def Reachable (env : Env) (s : PerfSim) : Prop :=
  ∃ memory pc values, (loop env).Reaches (fun _ => True) (boot memory pc values) s

theorem Reachable.good (h : Reachable env s) : s.Good := by
  obtain ⟨memory, pc, values, hreaches⟩ := h
  exact hreaches.invariant (fun _ _ hgood _ _ hstep => hgood.cycle hstep)
    (boot_good memory pc values)

theorem Reachable.boot (env : Env) (memory : Memory) (pc : BitVec 32)
    (values : RegName → BitVec 32) : Reachable env (boot memory pc values) :=
  ⟨memory, pc, values, .refl _⟩

theorem Reachable.cycle (h : Reachable env s) (hrun : s.isStop = false)
    (hcycle : s.cycle env = .ok s') : Reachable env s' := by
  obtain ⟨memory, pc, values, hreaches⟩ := h
  exact ⟨memory, pc, values, hreaches.snoc hrun trivial hcycle⟩

theorem Reachable.last (h : Reachable env s) :
    (∃ memory pc values, s = PerfSim.boot memory pc values) ∨
      ∃ r, Reachable env r ∧ r.isStop = false ∧ r.cycle env = .ok s := by
  obtain ⟨memory, pc, values, n, rounds⟩ := h
  rcases rounds.last with rfl | ⟨m, r, before, hrun, -, hcycle⟩
  · exact .inl ⟨memory, pc, values, rfl⟩
  · exact .inr ⟨r, ⟨memory, pc, values, m, before⟩, hrun, hcycle⟩

def cycles (env : Env) : Nat → PerfSim → Except Error PerfSim
  | 0, s => .ok s
  | n + 1, s => s.cycle env >>= cycles env n

theorem cycles_snoc {n : Nat} {t : PerfSim} (hrun : cycles env n s = .ok t)
    (hcycle : t.cycle env = .ok s') : cycles env (n + 1) s = .ok s' := by
  induction n generalizing s with
  | zero =>
      cases hrun
      simp only [cycles, hcycle, bind, Except.bind]
  | succ n ih =>
      obtain ⟨r, hr, hrest⟩ := ok_of_bind hrun
      rw [cycles, hr]
      exact ih hrest

theorem Good.cycles {n : Nat} (hgood : s.Good) (hrun : PerfSim.cycles env n s = .ok s') :
    s'.Good := by
  induction n generalizing s with
  | zero =>
      cases hrun
      exact hgood
  | succ n ih =>
      obtain ⟨t, hcycle, hrest⟩ := ok_of_bind hrun
      exact ih (hgood.cycle hcycle) hrest

def runFor (env : Env) : Nat → PerfSim → Except Error PerfSim
  | 0, s => .ok s
  | n + 1, s => if s.isStop then .ok s else s.cycle env >>= runFor env n

theorem runFor_of_isStop (n : Nat) (h : s.isStop = true) : runFor env n s = .ok s := by
  cases n with
  | zero => rfl
  | succ n => simp [PerfSim.runFor, h]

theorem runFor_succ {n : Nat} (h : runFor env (n + 1) s = .ok s') :
    s.isStop = true ∧ s' = s ∨
      s.isStop = false ∧ ∃ t, s.cycle env = .ok t ∧ runFor env n t = .ok s' := by
  unfold PerfSim.runFor at h
  split at h
  · rename_i hstop
    cases h
    exact .inl ⟨hstop, rfl⟩
  · rename_i hstop
    obtain ⟨t, hcycle, hrest⟩ := ok_of_bind h
    exact .inr ⟨by simpa using hstop, t, hcycle, hrest⟩

theorem runFor_add (m n : Nat) : runFor env (m + n) s = runFor env m s >>= runFor env n := by
  induction m generalizing s with
  | zero => rw [Nat.zero_add]; rfl
  | succ m ih =>
      rw [Nat.add_right_comm]
      unfold PerfSim.runFor
      split
      · rename_i hstop
        exact (runFor_of_isStop n hstop).symm
      · cases s.cycle env with
        | error e => rfl
        | ok t => exact ih

theorem Reachable.runFor {n : Nat} (h : Reachable env s) (hrun : runFor env n s = .ok s') :
    Reachable env s' := by
  induction n generalizing s with
  | zero =>
      cases hrun
      exact h
  | succ n ih =>
      rcases runFor_succ hrun with ⟨-, rfl⟩ | ⟨hstop, t, hcycle, hrest⟩
      · exact h
      · exact ih (h.cycle hstop hcycle) hrest

def bootWords (size : Nat) (words : List (BitVec 32)) : PerfSim :=
  boot { size := size, bytes := fun addr => Word.byte (words.getD (addr / 4) 0) (addr % 4) } 0
    fun _ => 0

def passes {α : Type} (x : Except Error α) (test : α → Bool) : Bool :=
  match x with
  | .ok a => test a
  | .error _ => false

theorem passes_iff {α : Type} {x : Except Error α} {test : α → Bool} :
    passes x test = true ↔ ∃ a, x = .ok a ∧ test a = true := by
  cases x with
  | error e => simp [passes]
  | ok a => simp [passes]

/-- A test on the state after at most `n` rounds, false if one of them raises. -/
def checkAfter (env : Env) (n : Nat) (s : PerfSim) (test : PerfSim → Bool) : Bool :=
  match runFor env n s with
  | .ok s' => test s'
  | .error _ => false

theorem checkAfter_spec (n : Nat) (test : PerfSim → Bool) (hreach : Reachable env s)
    (h : checkAfter env n s test = true) :
    ∃ s', runFor env n s = .ok s' ∧ Reachable env s' ∧ test s' = true := by
  unfold checkAfter at h
  split at h
  · rename_i s' hrun
    exact ⟨s', hrun, hreach.runFor hrun, h⟩
  · cases h

theorem forall_of_checks (n : Nat) (test : PerfSim → Bool)
    (hends : checkAfter env n s PerfSim.isStop = true)
    (htests : ∀ m ∈ List.range (n + 1), checkAfter env m s test = true) :
    ∀ m s', runFor env m s = .ok s' → test s' = true := by
  intro m s' hrun
  unfold checkAfter at hends htests
  split at hends
  · rename_i t ht
    rcases Nat.lt_or_ge m (n + 1) with hlt | hge
    · have htest := htests m (List.mem_range.mpr hlt)
      rw [hrun] at htest
      exact htest
    · have hlast := htests n (List.mem_range.mpr (Nat.lt_succ_self n))
      rw [ht] at hlast
      rw [← Nat.add_sub_of_le (Nat.le_of_succ_le hge), runFor_add, ht] at hrun
      change runFor env _ t = .ok s' at hrun
      rw [runFor_of_isStop _ hends] at hrun
      cases hrun
      exact hlast
  · cases hends

/-- The constructor delivers a boot state: `x2` has been locked, written and released. -/
theorem construct_boots {config : Config} {image : Nat → BitVec 8} {entry : BitVec 32}
    (h : construct config image entry = .ok s) :
    ∃ memory values, s = PerfSim.boot memory entry values := by
  unfold construct at h
  obtain ⟨memory, -, h⟩ := ok_of_bind h
  obtain ⟨rf, hrf, h⟩ := ok_of_bind h
  cases h
  refine ⟨memory, fun num => if num = REGISTER_NAME_SP then
    BitVec.ofNat 32 (config.memorySize - 5) else 0, ?_⟩
  have hregs : rf = bootRegs fun num => if num = REGISTER_NAME_SP then
      BitVec.ofNat 32 (config.memorySize - 5) else 0 := by
    cases hrf
    refine congrArg₂ RegFile.mk (funext fun num => ?_) (funext fun num => ?_)
    · by_cases hsp : num = REGISTER_NAME_SP
      · subst hsp
        rfl
      · refine (Function.update_of_ne hsp _ _).trans ?_
        simp only [bootRegs, hsp, if_false]
    · by_cases hsp : num = REGISTER_NAME_SP
      · subst hsp
        rfl
      · exact (Function.update_of_ne hsp _ _).trans (Function.update_of_ne hsp _ _)
  rw [hregs]
  rfl

end PerfSim

end RiscvPerfSim
