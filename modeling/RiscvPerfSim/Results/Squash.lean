import RiscvPerfSim.Core.Bypass
import RiscvPerfSim.Core.Reachable

/-!
# Discarded instructions

`HazardUnit::write` releases the lock of a discarded instruction by writing its
copy of `rd` back.  The copy was taken at decode, and the theorem says for which
states that write leaves the registers as write-back made them.
-/

namespace RiscvPerfSim

open Foundation

namespace PerfSim

variable {env : Env} {s s' u t : PerfSim} {instr : Instruction} {latch : InstrLatch}

def discarded (s : PerfSim) (latch : InstrLatch) : Option Instruction :=
  if !latch.isStall && latch.hazardStall then latch.instr.map s.decoder.get else none

/--
The cycle from `s` to `s'` treats the discarded instruction as if it had never
been decoded: the registers hold what write-back left in them, and between
write-back and decode only its own lock is released.
-/
structure NoEffect (env : Env) (s s' : PerfSim) (instr : Instruction) : Prop where
  values : ∀ u, s.writeBack = .ok u → ∀ num,
    (s'.rf.regs num).value = (u.rf.regs num).value
  lock : ∀ u t, s.writeBack = .ok u → s.untilDecode env = .ok t → ∀ num,
    t.rf.isLock num =
      u.rf.isLock num + if instr.writes num ∧ num ≠ REGISTER_NAME_ZERO then 1 else 0

def due (s : PerfSim) (num : RegName) : BitVec 32 :=
  match (s.mwSt.load.instrOf s.decoder).filter fun instr => instr.writes num with
  | some instr => instr.rd.value
  | none => (s.rf.regs num).value

/-- The copy of `rd` is the value its register is due to hold after write-back. -/
def Fresh (s : PerfSim) (instr : Instruction) : Prop :=
  ∀ num, num ≠ REGISTER_NAME_ZERO → instr.writes num = true →
    instr.rd.value = s.due num

def freshTest (s : PerfSim) (instr : Instruction) : Bool :=
  instr.rd.name = REGISTER_NAME_ZERO || !instr.writes instr.rd.name ||
    instr.rd.value = s.due instr.rd.name

theorem fresh_iff_test : s.Fresh instr ↔ s.freshTest instr = true := by
  simp only [freshTest, Bool.or_eq_true, decide_eq_true_eq, Bool.not_eq_true']
  constructor
  · intro h
    by_cases hnum : instr.rd.name = REGISTER_NAME_ZERO
    · exact .inl (.inl hnum)
    · cases hwrites : instr.writes instr.rd.name with
      | false => exact .inl (.inr rfl)
      | true => exact .inr (h _ hnum hwrites)
  · intro h num hnum hwrites
    have hname : instr.rd.name = num :=
      of_decide_eq_true (Bool.and_eq_true_iff.mp hwrites).2
    subst hname
    rcases h with (hzero | hfalse) | hvalue
    · exact absurd hzero hnum
    · rw [hwrites] at hfalse
      cases hfalse
    · exact hvalue

theorem slotOf_discarded (h : s.discarded latch = some instr) :
    latch.slotOf s.decoder = some ⟨instr, true⟩ := by
  unfold discarded at h
  split_ifs at h with hmarked
  obtain ⟨hstall, hkill⟩ := Bool.and_eq_true_iff.mp hmarked
  rw [Bool.not_eq_true'] at hstall
  obtain ⟨ptr, hptr, rfl⟩ := Option.map_eq_some_iff.mp h
  rw [InstrLatch.slotOf_of_ptr _ hstall hptr, hkill]

/-- A discard has no effect exactly when the copy that it writes back is not stale. -/
theorem discard_iff (h : Reachable env s) (hcycle : s.cycle env = .ok s')
    (hlatch : latch = s.deSt.load ∨ latch = s.emSt.load)
    (hdiscard : s.discarded latch = some instr) :
    NoEffect env s s' instr ↔ s.Fresh instr := by
  have hgood := h.good
  obtain ⟨-, accessed, decoded, word, memory, hstepped, hcore⟩ := hgood.stepped hcycle
  have hwrite := writeBack_eq hgood.latches.mw hgood.latches.mwHazard
  have hslot := slotOf_discarded hdiscard
  have hkilled : s.core.de = some ⟨instr, true⟩ ∨ s.core.em = some ⟨instr, true⟩ := by
    rcases hlatch with rfl | rfl
    · exact .inl hslot
    · exact .inr hslot
  obtain ⟨hregs, hlocker⟩ := Core.exRf_of_killed hgood.pipeline hkilled
  have hfinal : s'.rf.regs = (s.core.wbRf.release instr).regs := by
    rw [show s'.rf = s'.core.rf from rfl, hcore, ← hregs]
    exact Core.decodeStage_regs hstepped.decode
  refine Iff.trans ?_ (Core.regs_release_wbRf_iff (c := s.core))
  constructor
  · intro heffect num
    rw [← hfinal]
    exact heffect.values s.afterWriteBack hwrite num
  · intro hvalues
    refine ⟨fun u hu num => ?_, fun u t hu ht num => ?_⟩
    · rw [hwrite] at hu
      cases hu
      rw [hfinal]
      exact hvalues num
    · rw [hwrite] at hu
      cases hu
      obtain ⟨accessed', pipeline, -, rfl⟩ := untilDecode_ok hgood.latches ht
      change s.core.exRf.regLocker num = s.core.wbRf.regLocker num + _
      rw [hlocker, RegFile.regLocker_release, Core.claim_some]
      by_cases hnum : num = 0
      · simp [hnum, REGISTER_NAME_ZERO]
      · cases hwrites : instr.writes num <;> simp [hnum, REGISTER_NAME_ZERO]

theorem Good.fresh_execute_iff (hgood : s.Good) (hdiscard : s.discarded s.deSt.load = some instr) :
    s.Fresh instr ↔ ∀ num older, num ≠ REGISTER_NAME_ZERO → instr.writes num = true →
      s.mwSt.load.instrOf s.decoder = some older → older.writes num = true →
        older.rd.value = (s.rf.regs num).value := by
  have hcopy : ∀ num, instr.writes num = true → instr.rd.value = (s.rf.regs num).value := by
    intro num hwrites
    obtain ⟨htype, hname⟩ := Bool.and_eq_true_iff.mp hwrites
    have hcaptured := hgood.pipeline.captured _ (slotOf_discarded hdiscard) htype
    rw [of_decide_eq_true hname] at hcaptured
    exact congrArg Register.value hcaptured
  constructor
  · intro hfresh num older hnum hwrites hmw holder
    have hdue := hfresh num hnum hwrites
    rw [hcopy num hwrites] at hdue
    simp only [due, hmw, Option.filter_some, holder, if_true] at hdue
    exact hdue.symm
  · intro h num hnum hwrites
    rw [hcopy num hwrites]
    unfold due
    split
    · rename_i older hfilter
      obtain ⟨hmw, holder⟩ := Option.filter_eq_some_iff.mp hfilter
      exact (h num older hnum hwrites hmw holder).symm
    · rfl

/-- `ADDI x1, x0, 7; BEQ x0, x0, 8; ADDI x1, x0, 3`, the last one on the wrong path. -/
def wrongPathWrite : PerfSim :=
  bootWords 64 [0x00700093#32, 0x00000463#32, 0x00300093#32, 0x00000073#32]

/-- The second `ADDI` takes the 7 of the first one out of `x1` again. -/
theorem wrongPathWrite_undoes : ∃ s s' instr,
    runFor .plain 4 wrongPathWrite = .ok s ∧ Reachable .plain s ∧ s.isStop = false ∧
      s.cycle .plain = .ok s' ∧ s.discarded s.deSt.load = some instr ∧
      ¬ NoEffect .plain s s' instr := by
  obtain ⟨s, hrun, hreach, htest⟩ :=
    checkAfter_spec 4 (fun s => !s.isStop && (s.discarded s.deSt.load).any fun _ =>
      passes (s.cycle .plain) fun s' => passes s.writeBack fun u =>
        decide ((s'.rf.regs 1).value ≠ (u.rf.regs 1).value)) (.boot .plain _ _ _)
      (by decide +kernel : checkAfter .plain 4 wrongPathWrite _ = true)
  simp only [Bool.and_eq_true, Bool.not_eq_true', Option.any_eq_true, passes_iff,
    decide_eq_true_eq] at htest
  obtain ⟨hstop, instr, hdiscard, s', hcycle, u, hwrite, hvalue⟩ := htest
  exact ⟨s, s', instr, hrun, hreach, hstop, hcycle, hdiscard,
    fun heffect => hvalue (heffect.values u hwrite 1)⟩

theorem discard_iff_jump : ∃ s s' instr,
    runFor .plain 3 (bootWords 64 [0x00000463#32, 0x00300093#32, 0x00000073#32]) = .ok s ∧
      s.cycle .plain = .ok s' ∧ s.discarded s.deSt.load = some instr ∧
      (NoEffect .plain s s' instr ↔ s.Fresh instr) := by
  obtain ⟨s, hrun, hreach, htest⟩ :=
    checkAfter_spec 3 (fun s => (s.discarded s.deSt.load).any fun _ =>
      passes (s.cycle .plain) fun _ => true) (.boot .plain _ _ _)
      (by decide +kernel : checkAfter .plain 3
        (bootWords 64 [0x00000463#32, 0x00300093#32, 0x00000073#32]) _ = true)
  simp only [Option.any_eq_true, passes_iff] at htest
  obtain ⟨instr, hdiscard, s', hcycle, -⟩ := htest
  exact ⟨s, s', instr, hrun, hcycle, hdiscard, discard_iff hreach hcycle (.inl rfl) hdiscard⟩

end PerfSim

end RiscvPerfSim
