import RiscvPerfSim.Core.Instructions
import RiscvPerfSim.Foundation.Loop

/-!
# What one cycle of the abstract pipeline does

The inversion of each stage of `Core.step`, once, and what the stages do to
register names and to instructions whatever the program is.
-/

namespace RiscvPerfSim

open Foundation

/-! ## Registers -/

namespace RegFile

def Named (rf : RegFile) : Prop := ∀ num, (rf.regs num).name = num

namespace Named

variable {rf : RegFile} (h : rf.Named)
include h

theorem put (reg : Register) : (rf.put reg).Named := by
  intro num
  unfold RegFile.put
  split_ifs
  · exact h num
  · by_cases hnum : num = reg.name
    · simp [hnum]
    · simp [hnum, h num]

theorem release (instr : Instruction) : (rf.release instr).Named := by
  unfold RegFile.release
  split_ifs
  · exact h.put _
  · exact h

theorem squash (slot : Option Slot) : (rf.squash slot).Named := by
  unfold RegFile.squash
  split
  · exact h.release _
  · exact h

theorem lock (num : RegName) : (rf.lock num).Named := by
  unfold RegFile.lock RegFile.getReg
  split_ifs <;> exact h

end Named

end RegFile

namespace Core

variable {env : Env} {old : Instruction} {c c' : Core} {accessed : Accessed}
  {decoded : Decoded} {word : BitVec 32} {memory : Memory}

/-! ## Memory access -/

theorem loadEffect_of_ne {clock : Nat} {instr : Instruction}
    (h : instr.memAccType ≠ .read) : loadEffect env clock memory instr = .ok instr := by
  simp [loadEffect, h]

theorem storeEffect_of_ne {instr : Instruction} (h : instr.memAccType ≠ .write) :
    storeEffect env memory instr = .ok (memory, Store.clear) := by
  simp [storeEffect, h]

theorem loadEffect_fixed {clock : Nat} {instr instr' : Instruction}
    (h : loadEffect env clock memory instr = .ok instr') : instr'.fixed = instr.fixed := by
  unfold loadEffect at h
  split_ifs at h
  · obtain ⟨data, -, h⟩ := ok_of_bind h
    obtain ⟨data', -, h⟩ := ok_of_bind h
    exact Instruction.setRdValue_fixed h
  · cases h
    rfl

theorem memStage_ok (h : c.memStage env = .ok accessed) :
    (∃ instr instr', c.em = some ⟨instr, false⟩ ∧ accessed.mw = some instr' ∧
      storeEffect env c.memory instr = .ok (accessed.memory, accessed.pending) ∧
      loadEffect env c.clocks accessed.memory instr = .ok instr') ∨
    ((∀ instr, c.em ≠ some ⟨instr, false⟩) ∧
      accessed = ⟨none, c.memory, Store.clear⟩) := by
  unfold memStage at h
  split at h
  · rename_i instr hem
    obtain ⟨result, hstore, h⟩ := ok_of_bind h
    obtain ⟨instr', hload, h⟩ := ok_of_bind h
    cases h
    exact .inl ⟨instr, instr', hem, rfl, hstore, hload⟩
  · rename_i hem
    cases h
    exact .inr ⟨hem, rfl⟩

/-! ## Execute -/

theorem executing_eq_some {instr : Instruction} (h : c.executing env = some instr) :
    ∃ i, c.de = some ⟨i, false⟩ ∧ i.executed env = instr := by
  unfold executing at h
  split at h
  · rename_i i hde
    cases h
    exact ⟨i, hde, rfl⟩
  · cases h

theorem executing_congr (h : c'.de = c.de) : c'.executing env = c.executing env := by
  simp only [executing, h]

/-! ## Decode -/

theorem decodeWord_ok {rf : RegFile} {de em : Option Instruction} {pc : BitVec 32}
    (h : decodeWord env old rf de em pc word = .ok decoded) :
    ∃ rs1 rs2 hits1 hits2, operand1 env rf de em word = .ok (rs1, hits1) ∧
      operand2 env rf de em word = .ok (rs2, hits2) ∧
      decoded =
        ⟨some { Decoder.fill old word rs1 rs2 (rf.regs (Decoder.numRd word)) with pc := pc },
          lockedRf rf word, hits1 + hits2⟩ := by
  unfold decodeWord at h
  obtain ⟨read1, h1, h⟩ := ok_of_bind h
  obtain ⟨read2, h2, h⟩ := ok_of_bind h
  cases h
  exact ⟨read1.1, read2.1, read1.2, read2.2, h1, h2, rfl⟩

theorem operand_hits {rf : RegFile} {de em : Option Instruction} {num : RegName}
    {stage : PipelineStage} {reg : Register} {hits : Nat}
    (h : operand env rf de em num stage = .ok (reg, hits)) :
    hits = 0 ∨ hits = 1 ∧ stage = .execute ∧ rf.regLocker num ≠ 0 ∧
      ∃ ld, de = some ld ∧ HazardUnit.isLoad ld = true ∧
        ld.writes (rf.regs num).name = true := by
  unfold operand at h
  by_cases hlock : rf.regLocker num = 0
  · rw [if_pos hlock] at h
    cases h
    exact .inl rfl
  · rw [if_neg hlock] at h
    split at h
    · rename_i ld hfeeds
      obtain ⟨hde, hwrites⟩ := Option.filter_eq_some_iff.mp hfeeds
      by_cases hload : HazardUnit.isLoad ld = true
      · rw [if_pos hload] at h
        split_ifs at h with hstage
        cases h
        exact .inr ⟨rfl, hstage, hlock, ld, hde, hload, hwrites⟩
      · rw [if_neg hload] at h
        cases h
        exact .inl rfl
    · split at h <;> cases h <;> exact .inl rfl

theorem decodeWord_hits {rf : RegFile} {de em : Option Instruction} {pc : BitVec 32}
    (hnamed : rf.Named) (h : decodeWord env old rf de em pc word = .ok decoded) :
    decoded.hits ≤ 2 ∧
      (decoded.hits = 2 → Decoder.needsTwice word = true) ∧
      (0 < decoded.hits → ∃ ld num, de = some ld ∧ HazardUnit.isLoad ld = true ∧
        ld.writes num = true ∧ Decoder.needs word num = true ∧
          rf.regLocker num ≠ 0) := by
  obtain ⟨rs1, rs2, hits1, hits2, h1, h2, rfl⟩ := decodeWord_ok h
  have hfirst : hits1 = 0 ∨ hits1 = 1 ∧
      Decoder.readsRs1 (Decoder.recognize word).type = true ∧
        rf.regLocker (Decoder.numRs1 word) ≠ 0 ∧ ∃ ld, de = some ld ∧
          HazardUnit.isLoad ld = true ∧ ld.writes (Decoder.numRs1 word) = true := by
    unfold operand1 at h1
    split_ifs at h1 with hreads
    · rcases operand_hits h1 with rfl | ⟨rfl, -, hlock, ld, hde, hload, hwrites⟩
      · exact .inl rfl
      · rw [hnamed] at hwrites
        exact .inr ⟨rfl, hreads, hlock, ld, hde, hload, hwrites⟩
    · cases h1
      exact .inl rfl
  have hsecond : hits2 = 0 ∨ hits2 = 1 ∧
      Decoder.readsRs2 (Decoder.recognize word).type = true ∧
        Decoder.rs2Stage (Decoder.recognize word) = .execute ∧
        rf.regLocker (Decoder.numRs2 word) ≠ 0 ∧ ∃ ld, de = some ld ∧
          HazardUnit.isLoad ld = true ∧ ld.writes (Decoder.numRs2 word) = true := by
    unfold operand2 at h2
    split_ifs at h2 with hreads
    · rcases operand_hits h2 with rfl | ⟨rfl, hstage, hlock, ld, hde, hload, hwrites⟩
      · exact .inl rfl
      · rw [hnamed] at hwrites
        exact .inr ⟨rfl, hreads, hstage, hlock, ld, hde, hload, hwrites⟩
    · cases h2
      exact .inl rfl
  rcases hfirst with rfl | ⟨rfl, hreads1, hlock1, ld1, hde1, hload1, hwrites1⟩ <;>
    rcases hsecond with rfl | ⟨rfl, hreads2, hstage, hlock2, ld2, hde2, hload2, hwrites2⟩
  · simp
  · exact ⟨by simp, fun h => by simp at h, fun _ => ⟨ld2, _, hde2, hload2, hwrites2,
      by simp [Decoder.needs, hreads2, hstage], hlock2⟩⟩
  · exact ⟨by simp, fun h => by simp at h, fun _ => ⟨ld1, _, hde1, hload1, hwrites1,
      by simp [Decoder.needs, hreads1], hlock1⟩⟩
  · obtain rfl : ld1 = ld2 := by
      rw [hde1] at hde2
      exact Option.some.inj hde2
    have hsame : Decoder.numRs1 word = Decoder.numRs2 word := by
      simp only [Instruction.writes, Bool.and_eq_true, decide_eq_true_eq] at hwrites1 hwrites2
      rw [← hwrites1.2, hwrites2.2]
    exact ⟨by simp, fun _ => by simp [Decoder.needsTwice, hreads1, hreads2, hstage, hsame],
      fun _ => ⟨ld1, _, hde1, hload1, hwrites1, by simp [Decoder.needs, hreads1], hlock1⟩⟩

theorem decoding_eq_some {fetched : Fetched} (h : c.decoding env = some fetched) :
    c.fd = some ⟨fetched.pc, fetched.word, false⟩ ∧ c.deStop + c.exitStop env = 0 := by
  unfold decoding at h
  split at h
  · rename_i hfd
    split_ifs at h with hstop
    cases h
    exact ⟨hfd, hstop⟩
  · cases h

theorem decodeStage_ok {em : Option Instruction}
    (h : c.decodeStage env old em = .ok decoded) :
    (∃ fetched, c.decoding env = some fetched ∧
      decodeWord env old c.exRf (c.executing env) em fetched.pc fetched.word =
        .ok decoded) ∨
    (c.decoding env = none ∧ decoded = ⟨none, c.exRf, 0⟩) := by
  unfold decodeStage at h
  cases hdecoding : c.decoding env with
  | some fetched =>
      rw [hdecoding] at h
      exact .inl ⟨fetched, rfl, h⟩
  | none =>
      rw [hdecoding] at h
      cases h
      exact .inr ⟨rfl, rfl⟩

theorem decodeStage_isSome {em : Option Instruction}
    (h : c.decodeStage env old em = .ok decoded) :
    decoded.instr.isSome = (c.decoding env).isSome := by
  rcases decodeStage_ok h with ⟨fetched, hdecoding, hword⟩ | ⟨hnone, rfl⟩
  · obtain ⟨rs1, rs2, hits1, hits2, -, -, rfl⟩ := decodeWord_ok hword
    rw [hdecoding]
    rfl
  · rw [hnone]
    rfl

theorem exRf_named (h : c.rf.Named) : c.exRf.Named := by
  refine RegFile.Named.squash (RegFile.Named.squash ?_ _) _
  unfold wbRf
  split
  · exact h.release _
  · exact h

theorem decodeStage_named {em : Option Instruction} (h : c.rf.Named)
    (hdecode : c.decodeStage env old em = .ok decoded) : decoded.rf.Named := by
  rcases decodeStage_ok hdecode with ⟨fetched, -, hword⟩ | ⟨-, rfl⟩
  · obtain ⟨rs1, rs2, hits1, hits2, -, -, rfl⟩ := decodeWord_ok hword
    simp only [lockedRf]
    split_ifs
    · exact (exRf_named h).lock _
    · exact exRf_named h
  · exact exRf_named h

theorem decodeStage_instr {em : Option Instruction} {instr : Instruction} (h : c.rf.Named)
    (hdecode : c.decodeStage env old em = .ok decoded) (hinstr : decoded.instr = some instr) :
    ∃ fetched, c.decoding env = some fetched ∧ instr.Carries fetched.word ∧
      instr.pc = fetched.pc ∧
      (instr.type.writesRd = true → instr.rd = c.exRf.regs instr.rd.name) := by
  rcases decodeStage_ok hdecode with ⟨fetched, hdecoding, hword⟩ | ⟨-, rfl⟩
  · obtain ⟨rs1, rs2, hits1, hits2, -, -, rfl⟩ := decodeWord_ok hword
    cases hinstr
    refine ⟨fetched, hdecoding, ?_, rfl, fun hrd => ?_⟩
    · exact (Decoder.fill_carries _ _ _ _ (exRf_named h _)).setPc _
    · have htype : (Decoder.recognize fetched.word).type.writesRd = true := by
        simpa using hrd
      rw [Decoder.fill_rd _ _ _ _ htype, exRf_named h]
  · cases hinstr

/-! ## The cycle -/

/-- What the stages of a cycle that raises nothing produced. -/
structure Stepped (env : Env) (old : Instruction) (c : Core) (accessed : Accessed)
    (decoded : Decoded) (word : BitVec 32) (memory : Memory) : Prop where
  access : c.memStage env = .ok accessed
  decode : c.decodeStage env old accessed.mw = .ok decoded
  fetch : fetchStage accessed.memory c.nextPc
    (c.stop + c.exitStop env + decoded.hits) = .ok word
  drain : ∃ pipeline,
    Pipeline.update accessed.memory { store := accessed.pending } = .ok (memory, pipeline)

theorem step_ok (h : c.step env old = .ok c') :
    ∃ accessed decoded word memory, Stepped env old c accessed decoded word memory ∧
      c' = c.advance env accessed decoded word memory := by
  unfold step at h
  obtain ⟨accessed, haccess, h⟩ := ok_of_bind h
  obtain ⟨decoded, hdecode, h⟩ := ok_of_bind h
  obtain ⟨word, hfetch, h⟩ := ok_of_bind h
  obtain ⟨result, hdrain, h⟩ := ok_of_bind h
  cases h
  exact ⟨accessed, decoded, word, result.1, ⟨haccess, hdecode, hfetch, result.2, hdrain⟩,
    rfl⟩

end Core

end RiscvPerfSim
