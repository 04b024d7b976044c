import RiscvPerfSim.Core.Invariant
import RiscvPerfSim.Core.Stages

/-!
# Registers as decode finds them

What a read of a source operand delivers in each of the cases that the locks
and the latches behind decode can be in, and what a discarded instruction does
to the register file in front of it.
-/

namespace RiscvPerfSim

namespace Core

variable {env : Env} {c : Core} {accessed : Accessed}

/-! ## The bypass network -/

section Operand

variable (hinv : c.Inv) (haccess : c.memStage env = .ok accessed) {num : RegName}
  (stage : PipelineStage)
include hinv haccess

theorem regLocker_eq_zero_iff (hnum : num ≠ 0) : c.exRf.regLocker num = 0 ↔
    feeds (c.executing env) num = none ∧ feeds accessed.mw num = none := by
  rw [regLocker_exRf hinv haccess, if_neg hnum, ← claim_eq_zero_iff, ← claim_eq_zero_iff]
  have hde := claim_nonneg (c.executing env) num
  have hem := claim_nonneg accessed.mw num
  omega

theorem operand_zero :
    operand env c.exRf (c.executing env) accessed.mw 0 stage = .ok (c.exRf.regs 0, 0) := by
  have hlock := regLocker_exRf hinv haccess 0
  exact if_pos hlock

theorem operand_de {instr : Instruction} (hnum : num ≠ 0)
    (hde : feeds (c.executing env) num = some instr)
    (hload : HazardUnit.isLoad instr = false) :
    operand env c.exRf (c.executing env) accessed.mw num stage = .ok (instr.rd, 0) := by
  have hlock : c.exRf.regLocker num ≠ 0 := fun hzero => by
    rw [((regLocker_eq_zero_iff hinv haccess hnum).mp hzero).1] at hde
    cases hde
  unfold operand
  rw [if_neg hlock, exRf_named hinv.named num, hde]
  simp [hload]

theorem operand_em {instr : Instruction} (hnum : num ≠ 0)
    (hde : feeds (c.executing env) num = none) (hem : feeds accessed.mw num = some instr) :
    operand env c.exRf (c.executing env) accessed.mw num stage = .ok (instr.rd, 0) := by
  have hlock : c.exRf.regLocker num ≠ 0 := fun hzero => by
    rw [((regLocker_eq_zero_iff hinv haccess hnum).mp hzero).2] at hem
    cases hem
  unfold operand
  rw [if_neg hlock, exRf_named hinv.named num, hde, hem]

theorem operand_none (hnum : num ≠ 0) (hde : feeds (c.executing env) num = none)
    (hem : feeds accessed.mw num = none) :
    operand env c.exRf (c.executing env) accessed.mw num stage =
      .ok (c.exRf.regs num, 0) := by
  have hlock := (regLocker_eq_zero_iff hinv haccess hnum).mpr ⟨hde, hem⟩
  exact if_pos hlock

end Operand

def bypassed (env : Env) (c : Core) (em : Option Instruction) (num : RegName) : BitVec 32 :=
  if num = 0 then 0
  else
    match feeds (c.executing env) num with
    | some instr => instr.rd.value
    | none =>
        match feeds em num with
        | some instr => instr.rd.value
        | none => (c.exRf.regs num).value

theorem operand_bypassed (hinv : c.Inv) (haccess : c.memStage env = .ok accessed) {num : RegName}
    (stage : PipelineStage) (hclear : ∀ ld, c.executing env = some ld →
      HazardUnit.isLoad ld = true → ld.writes num = true → num = 0) :
    ∃ reg, operand env c.exRf (c.executing env) accessed.mw num stage = .ok (reg, 0) ∧
      reg.value = c.bypassed env accessed.mw num := by
  unfold bypassed
  by_cases hnum : num = 0
  · subst hnum
    refine ⟨_, operand_zero hinv haccess stage, ?_⟩
    rw [if_pos rfl]
    exact regs_exRf_zero hinv
  · rw [if_neg hnum]
    cases hde : feeds (c.executing env) num with
    | some instr =>
        have hload : HazardUnit.isLoad instr = false := by
          obtain ⟨hexec, hwrites⟩ := Option.filter_eq_some_iff.mp hde
          rw [Bool.eq_false_iff]
          exact fun hload => hnum (hclear instr hexec hload hwrites)
        exact ⟨_, operand_de hinv haccess stage hnum hde hload, rfl⟩
    | none =>
        cases hem : feeds accessed.mw num with
        | some instr => exact ⟨_, operand_em hinv haccess stage hnum hde hem, rfl⟩
        | none => exact ⟨_, operand_none hinv haccess stage hnum hde hem, rfl⟩

/-! ## Discards -/

section Discards

variable {instr : Instruction} {num : RegName}

def due (c : Core) (num : RegName) : BitVec 32 :=
  match feeds c.mw num with
  | some instr => instr.rd.value
  | none => (c.rf.regs num).value

theorem regs_wbRf (hnum : num ≠ 0) : (c.wbRf.regs num).value = c.due num := by
  unfold wbRf due feeds
  cases c.mw with
  | none => rfl
  | some instr =>
      rw [RegFile.regs_release, Option.filter_some]
      cases hwrites : instr.writes num <;> simp [hnum]

/-- At most one instruction of a cycle is discarded with a copy to write back. -/
theorem exRf_of_killed (hinv : c.Inv)
    (h : c.de = some ⟨instr, true⟩ ∨ c.em = some ⟨instr, true⟩) :
    c.exRf.regs = (c.wbRf.release instr).regs ∧
      c.exRf.regLocker = (c.wbRf.release instr).regLocker := by
  rcases h with hde | hem
  · have hmem : c.memRf = c.wbRf := by
      rcases hem : c.em with - | ⟨ld, - | -⟩
      · rw [memRf, hem, RegFile.squash_none]
      · rw [memRf, hem, RegFile.squash_live]
      · obtain ⟨held, word, num, hslot, -⟩ := (hinv.bubble ld hem).held
        rw [hde] at hslot
        cases hslot
    rw [exRf, hmem, hde, RegFile.squash_killed]
    exact ⟨rfl, rfl⟩
  · obtain ⟨held, word, num, hslot, -⟩ := (hinv.bubble instr hem).held
    rw [exRf, memRf, hem, hslot, RegFile.squash_live, RegFile.squash_killed]
    exact ⟨rfl, rfl⟩

theorem regs_release_wbRf_iff :
    (∀ num, ((c.wbRf.release instr).regs num).value = (c.wbRf.regs num).value) ↔
      ∀ num, num ≠ 0 → instr.writes num = true → instr.rd.value = c.due num := by
  constructor
  · intro h num hnum hwrites
    have hvalue := h num
    rw [RegFile.regs_release, if_pos ⟨hwrites, hnum⟩, regs_wbRf hnum] at hvalue
    exact hvalue
  · intro h num
    rw [RegFile.regs_release]
    split_ifs with hwrites
    · rw [regs_wbRf hwrites.2]
      exact h num hwrites.2 hwrites.1
    · rfl

end Discards

end Core

end RiscvPerfSim
