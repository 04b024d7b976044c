import RiscvPerfSim.Core.LoadUse

/-!
# The load-use interlock

`HazardUnit::decode` answers a load-use hit with one stop of the front end and a
`hazard_stall` in the latch behind execute.  That latch receives the load, so
the mark takes the load out of the pipeline and not the instruction behind it.
-/

namespace RiscvPerfSim

open Foundation

namespace PerfSim

variable {env : Env} {s : PerfSim} {load : Instruction} {num : RegName}

structure Uses (instr : Instruction) (word : BitVec 32) (num : RegName)
    (value : BitVec 32) : Prop where
  rs1 : Decoder.readsRs1 (Decoder.recognize word).type = true → Decoder.numRs1 word = num →
    instr.rs1.value = value
  rs2 : Decoder.readsRs2 (Decoder.recognize word).type = true → Decoder.numRs2 word = num →
    instr.rs2.value = value

/--
The five cycles from `s`: execution of the load, its memory access, its
write-back, the write-back of one bubble, the write-back of the consumer.  The
stages behind execute never stop, so these are the cycles in which an
interlock of one bubble retires the two instructions.
-/
def Interlocked (env : Env) (s : PerfSim) (load : Instruction) (num : RegName) : Prop :=
  ∃ s1 s2 s3 s4 s5 loaded consumer,
    s.cycle env = .ok s1 ∧ s1.cycle env = .ok s2 ∧ s2.cycle env = .ok s3 ∧
      s3.cycle env = .ok s4 ∧ s4.cycle env = .ok s5 ∧
    loadAccess env s1 (load.executed env) = .ok loaded ∧
    s3.trace = s2.trace ++ [loaded] ∧ (s3.rf.regs num).value = loaded.rd.value ∧
    s4.trace = s3.trace ∧
    s5.trace = s4.trace ++ [consumer] ∧ consumer.pc = s.fdSt.load.pc ∧
      Uses consumer s.fdSt.load.instr num loaded.rd.value

/-- No load-use is interlocked: the load does not reach write-back. -/
theorem loadUse_not_interlocked (h : Reachable env s) (huse : s.LoadUse load num) :
    ¬ Interlocked env s load num := by
  rintro ⟨s1, s2, s3, s4, s5, loaded, consumer, h1, h2, h3, -, -, -, hretired, -⟩
  have hgood2 := (h.good.cycle h1).cycle h2
  have hmw := h.good.mw_of_loadUse huse h1 h2
  obtain ⟨-, accessed, decoded, word, memory, -, hcore⟩ := hgood2.stepped h3
  have htrace : s3.trace = s2.trace ++ s2.core.mw.toList := congrArg Core.trace hcore
  rw [htrace, hmw, Option.toList_none, List.append_cancel_left_eq] at hretired
  cases hretired

/-- `LW x1, 16(x0); ADDI x2, x1, 1; ECALL`. -/
def loadThenUse : PerfSim := bootWords 64 [0x01002083#32, 0x00108113#32, 0x00000073#32]

theorem loadThenUse_loses : ∃ s load, runFor .plain 2 loadThenUse = .ok s ∧
    Reachable .plain s ∧ s.isStop = false ∧ s.LoadUse load 1 ∧
      ¬ Interlocked .plain s load 1 := by
  obtain ⟨s, hrun, hreach, htest⟩ :=
    checkAfter_spec 2 (fun s => !s.isStop && s.aheadTest Decoder.needs 1 &&
      passes (cycles .plain 2 s) fun s2 => passes (cycles .plain 3 s) fun s3 =>
        decide (s3.trace.length = s2.trace.length)) (.boot .plain _ _ _)
      (by decide +kernel : checkAfter .plain 2 loadThenUse _ = true)
  simp only [Bool.and_eq_true, Bool.not_eq_true', passes_iff, decide_eq_true_eq] at htest
  obtain ⟨⟨hstop, huse⟩, t2, ht2, t3, ht3, hlength⟩ := htest
  obtain ⟨load, huse⟩ := (loadAhead_iff_test (by decide)).mpr huse
  refine ⟨s, load, hrun, hreach, hstop, huse, ?_⟩
  rintro ⟨s1, s2, s3, s4, s5, loaded, consumer, h1, h2, h3, -, -, -, hretired, -⟩
  simp only [cycles, h1, h2, bind, Except.bind, Except.ok.injEq] at ht2
  simp only [cycles, h1, h2, h3, bind, Except.bind, Except.ok.injEq] at ht3
  rw [← ht2, ← ht3, hretired, List.length_append] at hlength
  simp at hlength

theorem loadUse_not_interlocked_addi : ∃ s load, runFor .plain 2 loadThenUse = .ok s ∧
    s.LoadUse load 1 ∧ ¬ Interlocked .plain s load 1 := by
  obtain ⟨s, hrun, hreach, huse⟩ :=
    checkAfter_spec 2 (fun s => s.aheadTest Decoder.needs 1) (.boot .plain _ _ _)
      (by decide +kernel : checkAfter .plain 2 loadThenUse _ = true)
  obtain ⟨load, huse⟩ := (loadAhead_iff_test (by decide)).mpr huse
  exact ⟨s, load, hrun, huse, loadUse_not_interlocked hreach huse⟩

end PerfSim

end RiscvPerfSim
