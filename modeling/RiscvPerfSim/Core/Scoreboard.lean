import RiscvPerfSim.Core.Cycle
import Mathlib.Data.Int.Basic

/-!
# Locks

Who holds the lock of a register: a decoded instruction from decode on, until
write-back or a squash releases it.  `Core.Scoreboard` counts the holders, and
every cycle of the abstract pipeline keeps the count right.
-/

namespace RiscvPerfSim

namespace Instruction

variable {instr instr' : Instruction}

theorem writes_of_fixed (h : instr'.fixed = instr.fixed) (num : RegName) :
    instr'.writes num = instr.writes num := by
  unfold writes
  rw [type_of_fixed h, rdName_of_fixed h]

theorem not_writes_of_system (h : instr.type = .system) (num : RegName) :
    instr.writes num = false := by
  simp [writes, h, InstrType.writesRd]

end Instruction

namespace Core

def claim (instr : Option Instruction) (num : RegName) : Int :=
  if instr.any fun instr => instr.writes num then 1 else 0

def killed : Option Slot → Option Instruction
  | some ⟨instr, true⟩ => some instr
  | _ => none

def live : Option Slot → Option Instruction
  | some ⟨instr, false⟩ => some instr
  | _ => none

theorem live_iff {slot : Option Slot} {instr : Instruction} :
    live slot = some instr ↔ slot = some ⟨instr, false⟩ := by
  rcases slot with - | ⟨i, - | -⟩ <;> simp [live]

def claims (c : Core) (num : RegName) : Int :=
  claim (c.de.map Slot.instr) num + claim (c.em.map Slot.instr) num + claim c.mw num

@[simp] theorem claim_none (num : RegName) : claim none num = 0 := rfl

theorem claim_some (instr : Instruction) (num : RegName) :
    claim (some instr) num = if instr.writes num then 1 else 0 := rfl

theorem claim_nonneg (instr : Option Instruction) (num : RegName) : 0 ≤ claim instr num := by
  unfold claim
  split_ifs <;> decide

theorem claim_eq_zero_iff (instr : Option Instruction) (num : RegName) :
    claim instr num = 0 ↔ feeds instr num = none := by
  cases instr with
  | none => simp [claim, feeds]
  | some instr => cases h : instr.writes num <;> simp [claim, feeds, h]

theorem claim_of_fixed {instr instr' : Instruction} (h : instr'.fixed = instr.fixed)
    (num : RegName) : claim (some instr') num = claim (some instr) num := by
  rw [claim_some, claim_some, Instruction.writes_of_fixed h]

theorem claim_slot (slot : Option Slot) (num : RegName) :
    claim (slot.map Slot.instr) num = claim (live slot) num + claim (killed slot) num := by
  rcases slot with - | ⟨instr, - | -⟩ <;> simp [live, killed]

end Core

/-! ## What the register file operations do to the locks -/

namespace RegFile

open RiscvPerfSim.Core

variable (rf : RegFile)

theorem regLocker_release (instr : Instruction) (num : RegName) :
    (rf.release instr).regLocker num =
      rf.regLocker num + if num = 0 then 0 else claim (some instr) num := by
  unfold release put
  rw [claim_some]
  cases hrd : instr.type.writesRd with
  | false => simp [Instruction.writes, hrd]
  | true =>
      by_cases hzero : instr.rd.name = REGISTER_NAME_ZERO
      · by_cases hnum : num = 0
        · simp [hzero, hnum]
        · have hne : ¬ 0 = num := fun h => hnum h.symm
          simp [Instruction.writes, hrd, hzero, REGISTER_NAME_ZERO, hnum, hne]
      · by_cases hnum : num = instr.rd.name
        · subst hnum
          have hne : ¬ instr.rd.name = 0 := hzero
          simp [Instruction.writes, hrd, hzero, hne]
        · have hne : ¬ instr.rd.name = num := fun h => hnum h.symm
          simp [Instruction.writes, hrd, hzero, hnum, hne]

theorem regs_release (instr : Instruction) (num : RegName) :
    (rf.release instr).regs num =
      if instr.writes num ∧ num ≠ 0 then instr.rd else rf.regs num := by
  unfold release put
  cases hrd : instr.type.writesRd with
  | false => simp [Instruction.writes, hrd]
  | true =>
      by_cases hzero : instr.rd.name = REGISTER_NAME_ZERO
      · simp only [hzero, if_true, Instruction.writes, hrd, Bool.true_and, decide_eq_true_eq]
        rw [if_neg]
        rintro ⟨rfl, hne⟩
        exact hne rfl
      · by_cases hnum : num = instr.rd.name
        · subst hnum
          have hne : ¬ instr.rd.name = 0 := hzero
          simp [Instruction.writes, hrd, hzero, hne]
        · have hne : ¬ instr.rd.name = num := fun h => hnum h.symm
          simp [Instruction.writes, hrd, hzero, hnum, hne]

theorem regLocker_squash (slot : Option Slot) (num : RegName) :
    (rf.squash slot).regLocker num =
      rf.regLocker num + if num = 0 then 0 else claim (killed slot) num := by
  rcases slot with - | ⟨instr, - | -⟩
  · simp [squash, killed]
  · simp [squash, killed]
  · exact rf.regLocker_release instr num

theorem regs_lock (num : RegName) : (rf.lock num).regs = rf.regs := by
  unfold lock getReg
  split_ifs <;> rfl

theorem regLocker_lock (num num' : RegName) :
    (rf.lock num).regLocker num' =
      rf.regLocker num' - if num' = num ∧ num' ≠ 0 then 1 else 0 := by
  unfold lock getReg
  by_cases hzero : num = REGISTER_NAME_ZERO
  · subst hzero
    have hne : ¬ (num' = REGISTER_NAME_ZERO ∧ num' ≠ 0) := fun h => h.2 h.1
    simp [hne]
  · by_cases hnum : num' = num
    · subst hnum
      have hne : num' ≠ 0 := hzero
      simp [hzero, hne]
    · simp [hzero, hnum]

end RegFile

namespace Core

variable {env : Env} {c : Core}

/-! ## The scoreboard -/

/-- The lock counters say how many instructions in flight are to write a register. -/
def Scoreboard (c : Core) : Prop :=
  ∀ num, c.rf.regLocker num = if num = 0 then 0 else -c.claims num

theorem regLocker_wbRf (num : RegName) :
    c.wbRf.regLocker num = c.rf.regLocker num + if num = 0 then 0 else claim c.mw num := by
  unfold wbRf
  cases c.mw with
  | none => simp
  | some instr => exact c.rf.regLocker_release instr num

end Core

end RiscvPerfSim
