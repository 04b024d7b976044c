import RiscvPerfSim.Core.Invariant
import RiscvPerfSim.Core.Stores

/-!
# The back half of the pipeline

The latches behind execute over a cycle, and the value of a register behind the
write-backs and the discards that it meets there.
-/

namespace RiscvPerfSim

open Foundation

namespace Core

variable {env : Env} {old : Instruction} {c c' : Core} {accessed : Accessed}
  {decoded : Decoded} {word : BitVec 32} {memory : Memory} {hits : Nat}

/-! ## Values behind a write-back -/

def settle (mw : Option Instruction) (num : RegName) (value : BitVec 32) : BitVec 32 :=
  match mw with
  | some instr => if instr.writes num ∧ num ≠ 0 then instr.rd.value else value
  | none => value

section Settle

variable {instr instr' : Instruction} {num : RegName} {value : BitVec 32}

theorem settle_of_writes (h : instr.writes num = true) (hnum : num ≠ 0) :
    settle (some instr) num value = instr.rd.value := if_pos ⟨h, hnum⟩

theorem settle_of_not_writes (h : instr.writes num = false) :
    settle (some instr) num value = value := if_neg (by simp [h])

theorem settle_zero (mw : Option Instruction) : settle mw 0 value = value := by
  cases mw <;> simp [settle]

theorem value_release (rf : RegFile) (instr : Instruction) (num : RegName) :
    ((rf.release instr).regs num).value = settle (some instr) num (rf.regs num).value := by
  rw [RegFile.regs_release, settle]
  split_ifs <;> rfl

theorem value_wbRf (num : RegName) :
    (c.wbRf.regs num).value = settle c.mw num (c.rf.regs num).value := by
  unfold wbRf
  cases c.mw with
  | none => rfl
  | some instr => exact value_release c.rf instr num

theorem value_squash (rf : RegFile) (slot : Option Slot) (num : RegName) :
    ((rf.squash slot).regs num).value = settle (killed slot) num (rf.regs num).value := by
  rcases slot with - | ⟨instr, - | -⟩
  · rfl
  · rfl
  · exact value_release rf instr num

theorem value_exRf (num : RegName) : (c.exRf.regs num).value =
    settle (killed c.de) num
      (settle (killed c.em) num (settle c.mw num (c.rf.regs num).value)) := by
  rw [exRf, memRf, value_squash, value_squash, value_wbRf]

end Settle

/-! ## The back half of a cycle -/

structure Moved (env : Env) (c c' : Core) (accessed : Accessed) (hits : Nat) : Prop where
  access : c.memStage env = .ok accessed
  drain : ∃ pipeline,
    Pipeline.update accessed.memory { store := accessed.pending } = .ok (c'.memory, pipeline)
  em : c'.em = (c.executing env).map fun instr => ⟨instr, decide (hits > 0)⟩
  mw : c'.mw = accessed.mw
  regs : c'.rf.regs = c.exRf.regs
  clocks : c'.clocks = c.clocks + 1

theorem Stepped.moved (h : Stepped env old c accessed decoded word memory) :
    Moved env c (c.advance env accessed decoded word memory) accessed decoded.hits where
  access := h.access
  drain := h.drain
  em := rfl
  mw := rfl
  regs := decodeStage_regs h.decode
  clocks := rfl

theorem Moved.of_idle (h : Moved env c c' accessed hits)
    (hem : ∀ instr, c.em ≠ some ⟨instr, false⟩) : c'.memory = c.memory ∧ c'.mw = none := by
  obtain ⟨pipeline, hdrain⟩ := h.drain
  rcases memStage_ok h.access with ⟨instr, -, hlive, -⟩ | ⟨-, rfl⟩
  · exact absurd hlive (hem instr)
  · rw [Store.update_eq (Store.fits_clear _), Except.ok.injEq, Prod.mk.injEq] at hdrain
    exact ⟨hdrain.1.symm, h.mw⟩

theorem Moved.of_not_accessing (h : Moved env c c' accessed hits) {instr : Instruction}
    (hem : c.em = some ⟨instr, false⟩) (hnone : instr.memAccType = .none) :
    c'.memory = c.memory ∧ c'.mw = some instr := by
  obtain ⟨pipeline, hdrain⟩ := h.drain
  have haccess := h.access
  rw [memStage, hem] at haccess
  dsimp only at haccess
  rw [storeEffect_of_ne (by rw [hnone]; nofun)] at haccess
  change (loadEffect env c.clocks c.memory instr >>= fun instr => _) = _ at haccess
  rw [loadEffect_of_ne (by rw [hnone]; nofun)] at haccess
  cases haccess
  rw [Store.update_eq (Store.fits_clear _), Except.ok.injEq, Prod.mk.injEq] at hdrain
  exact ⟨hdrain.1.symm, h.mw⟩

theorem Moved.value_exRf (h : Moved env c c' accessed hits) (hde : killed c'.de = none)
    (num : RegName) : (c'.exRf.regs num).value =
      settle (killed c'.em) num (settle accessed.mw num (c.exRf.regs num).value) := by
  rw [Core.value_exRf, hde, h.mw, h.regs]
  rfl

theorem Moved.killed_em (h : Moved env c c' accessed 0) : killed c'.em = none := by
  rw [h.em]
  cases c.executing env <;> rfl

end Core

end RiscvPerfSim
