import RiscvPerfSim.Core.Reachable

/-!
# The scoreboard of the simulator

`RegFile::reg_locker` against the latches: between two cycles the counter of a
register is minus the number of decoded instructions that are still to write it.
-/

namespace RiscvPerfSim.PerfSim

variable {env : Env} {s : PerfSim}

def holdsLock (decoder : Decoder) (num : RegName) (latch : InstrLatch) : Bool :=
  !latch.isStall && latch.instr.any fun ptr => (decoder.get ptr).writes num

def lockHolders (s : PerfSim) (num : RegName) : Nat :=
  [s.deSt.load, s.emSt.load, s.mwSt.load].countP (holdsLock s.decoder num)

private theorem claim_slotOf (decoder : Decoder) (latch : InstrLatch) (num : RegName) :
    Core.claim ((latch.slotOf decoder).map Slot.instr) num =
      if holdsLock decoder num latch then 1 else 0 := by
  cases hstall : latch.isStall with
  | true => simp [InstrLatch.slotOf, holdsLock, hstall]
  | false =>
      cases hptr : latch.instr with
      | none => simp [InstrLatch.slotOf, holdsLock, hstall, hptr]
      | some ptr =>
          simp [InstrLatch.slotOf, holdsLock, hstall, hptr, Core.claim_some]

theorem Good.claims_eq (hgood : s.Good) (num : RegName) :
    s.core.claims num = s.lockHolders num := by
  have hmw := InstrLatch.instrOf_eq_slotOf s.decoder hgood.latches.mwHazard
  simp only [Core.claims, core_de, core_em, core_mw, hmw, claim_slotOf, lockHolders,
    List.countP_cons, List.countP_nil]
  split_ifs <;> rfl

/-- The lock counters in every state between two cycles. -/
theorem scoreboard (h : Reachable env s) :
    (∀ num, 1 ≤ num → num < Config.numRegs →
      s.rf.isLock num = -(s.lockHolders num : Int) ∧
        -3 ≤ s.rf.isLock num ∧ s.rf.isLock num ≤ 0) ∧
      s.rf.isLock REGISTER_NAME_ZERO = 0 ∧ (s.rf.regs REGISTER_NAME_ZERO).value = 0 := by
  have hgood := h.good
  have hlocks := hgood.pipeline.locks
  refine ⟨fun num hone _ => ?_, hlocks 0, hgood.pipeline.zero⟩
  have hne : num ≠ 0 := by
    rintro rfl
    exact absurd hone (by decide)
  have hcount : s.rf.isLock num = -(s.lockHolders num : Int) := by
    refine (hlocks num).trans ?_
    rw [if_neg hne, hgood.claims_eq]
  have hle : s.lockHolders num ≤ 3 := List.countP_le_length
  exact ⟨hcount, by omega, by omega⟩

theorem scoreboard_load : ∃ s,
    runFor .plain 2 (bootWords 64 [0x01002083#32, 0x00108113#32]) = .ok s ∧
      s.lockHolders 1 = 1 ∧ s.rf.isLock 1 = -1 := by
  obtain ⟨s, hrun, hreach, htest⟩ :=
    checkAfter_spec 2 (fun s => decide (s.lockHolders 1 = 1)) (.boot .plain _ _ _)
      (by decide +kernel : checkAfter .plain 2
        (bootWords 64 [0x01002083#32, 0x00108113#32]) _ = true)
  have hone := of_decide_eq_true htest
  have hlock := ((scoreboard hreach).1 1 (by decide) (by decide)).1
  rw [hone] at hlock
  exact ⟨s, hrun, hone, hlock⟩

end RiscvPerfSim.PerfSim
