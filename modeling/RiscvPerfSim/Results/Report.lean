import RiscvPerfSim.Core.Course
import RiscvPerfSim.Results.Programs

/-!
# The report of a run

What a paced program leaves in `Log.txt`: every number but the two measured ones
is known from the course of the program.
-/

namespace RiscvPerfSim

open Foundation

def Course.ofHart (h : Nat → Rv32i.Hart) (i : Nat → Rv32i.Instr) : Course where
  word k := (i k).encode
  taken k := (i k).taken (h k)
  behind k := (h 0).word ((h k).pc + 4)

namespace PerfSim

variable {env : Env} {memory : Memory} {pc : BitVec 32} {values : RegName → BitVec 32}
  {q : Nat → Seq} {instr : Nat → Instruction} {n m : Nat} {s : PerfSim}

structure Tallies (memory : Memory) (q : Nat → Seq) (instr : Nat → Instruction) (n : Nat)
    (s : PerfSim) : Prop where
  keeps : s.core.Keeps memory q instr n
  scheduled : s.core.Scheduled instr
  counted : HazardUnit.Counted {} s.hu
    ((Course.ofRun memory q instr).readsTo s.core.fdIndex s.core.deIndex)

private theorem add_ofNat_toNat (x : Nat) :
    ((0 : BitVec 32) + BitVec.ofNat 32 x).toNat = x % 2 ^ 32 := by
  simp

section Run

variable (hexec : Execution env memory pc values q instr n) (hpaced : Paced memory q instr n)
include hexec hpaced

theorem tallies_runFor (m : Nat) : ∃ s, runFor env m (boot memory pc values) = .ok s ∧
    s.core.Follows env q instr n ∧ s.Tallies memory q instr n := by
  refine follows_with (P := Tallies memory q instr n) hexec ⟨.boot, .boot, .nil rfl rfl⟩
    (fun _ _ hrun hstop hfollows htallies => htallies.keeps.smooth hexec
      ((Reachable.boot env memory pc values).runFor hrun).good.pipeline hfollows hstop hpaced)
    (fun {s t accessed decoded word} hgood hfollows hstop hproduces hfetch hcycle hcore htallies =>
      ?_) m
  obtain ⟨accessed', haccess, hcounted⟩ := hgood.cycle_counted hcycle
  obtain rfl : accessed = accessed' := Except.ok.inj (hproduces.access.symm.trans haccess)
  constructor
  case keeps =>
    rw [hcore]
    exact htallies.keeps.advance hexec hgood.pipeline hfollows hstop hproduces hfetch hpaced
  case scheduled =>
    rw [hcore]
    exact htallies.scheduled.advance hexec hgood.pipeline hfollows hstop hproduces
  case counted =>
    rw [hcore]
    exact (htallies.counted.append hcounted).perm (htallies.scheduled.bypasses_advance hexec
      hgood.pipeline hfollows hproduces hstop htallies.keeps)

theorem ends_reported : ∃ m s, (loop env).run m (boot memory pc values) = some (.ok s) ∧
    ∀ executionTime kips, s.dump executionTime kips =
      (Course.ofRun memory q instr).report n executionTime kips := by
  obtain ⟨s, hrun, hstop, hfollows⟩ := stops_in_rounds hexec
    fun m s hrun hstop => smooth_of_paced hexec hpaced hrun hstop
  obtain ⟨t, ht, -, htallies⟩ := tallies_runFor hexec hpaced (8 * (n + 2))
  rw [hrun] at ht
  cases ht
  refine ⟨_, s, by rw [run_eq, hrun]; exact if_pos hstop, fun executionTime kips => ?_⟩
  have hmeasures := measures_of_isStop hexec ((Reachable.boot env memory pc values).runFor hrun)
    hfollows htallies.scheduled.timed hstop
  obtain ⟨-, -, hde, hfd⟩ := indices_of_isStop hfollows hstop
  have hcounted := htallies.counted
  rw [hde, hfd] at hcounted
  have hclocks : s.clocks = (Course.ofRun memory q instr).starts n + 5 := by
    rw [hmeasures.clocks, hexec.starts_ofRun (Nat.le_succ n), fetchedAt]
    omega
  unfold dump HazardUnit.dump Course.report
  rw [hmeasures.ic, hclocks, hcounted.memEx, hcounted.wbEx, hmeasures.stops, hmeasures.branches]
  rw [add_ofNat_toNat, add_ofNat_toNat]
  rfl

end Run

section Hart

variable {h : Nat → Rv32i.Hart} {i : Nat → Rv32i.Instr}

end Hart

end PerfSim

end RiscvPerfSim
