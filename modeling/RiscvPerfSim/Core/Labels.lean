import RiscvPerfSim.Core.Bypass

/-!
# What holds of every instruction on its way

An instruction object keeps the numbers of its registers from decode to
write-back, and a property that decode or execute establishes is still there
when the instruction retires.
-/

namespace RiscvPerfSim

structure Instruction.Labelled (instr : Instruction) (word : BitVec 32) : Prop where
  carries : instr.Carries word
  rs1 : Decoder.readsRs1 instr.type = true → instr.rs1.name = Decoder.numRs1 word
  rs2 : Decoder.readsRs2 instr.type = true → instr.rs2.name = Decoder.numRs2 word

def Instruction.Decoded (instr : Instruction) : Prop := ∃ word, instr.Labelled word

namespace Instruction

variable {a b : Instruction} {word : BitVec 32}

theorem rs1_of_fixed (h : b.fixed = a.fixed) : b.rs1 = a.rs1 := by
  simpa [fixed] using congrArg Instruction.rs1 h

theorem rs2_of_fixed (h : b.fixed = a.fixed) : b.rs2 = a.rs2 := by
  simpa [fixed] using congrArg Instruction.rs2 h

theorem imm_of_fixed (h : b.fixed = a.fixed) : b.imm = a.imm := by
  simpa [fixed] using congrArg Instruction.imm h

theorem Labelled.of_fixed (h : b.fixed = a.fixed) (hlabelled : a.Labelled word) :
    b.Labelled word where
  carries := .of_fixed h hlabelled.carries
  rs1 := by
    rw [type_of_fixed h, rs1_of_fixed h]
    exact hlabelled.rs1
  rs2 := by
    rw [type_of_fixed h, rs2_of_fixed h]
    exact hlabelled.rs2

theorem Decoded.of_fixed (h : b.fixed = a.fixed) (hdecoded : a.Decoded) : b.Decoded := by
  obtain ⟨word, hlabelled⟩ := hdecoded
  exact ⟨word, .of_fixed h hlabelled⟩

end Instruction

theorem Decoder.fill_labelled (old : Instruction) (word pc : BitVec 32) {rs1 rs2 rd : Register}
    (hrs1 : readsRs1 (recognize word).type = true → rs1.name = numRs1 word)
    (hrs2 : readsRs2 (recognize word).type = true → rs2.name = numRs2 word)
    (hrd : rd.name = numRd word) :
    ({ fill old word rs1 rs2 rd with pc := pc } : Instruction).Labelled word where
  carries := (fill_carries old word rs1 rs2 hrd).setPc pc
  rs1 := by
    cases htype : (recognize word).type <;> rw [htype] at hrs1 <;>
      simp_all [fill, finish, Instruction.calcImm, readsRs1]
  rs2 := by
    cases htype : (recognize word).type <;> rw [htype] at hrs2 <;>
      simp_all [fill, finish, Instruction.calcImm, readsRs2]

namespace Core

variable {env : Env} {old : Instruction} {c : Core} {accessed : Accessed} {decoded : Decoded}
  {word : BitVec 32} {memory : Memory} {num : RegName}

/-! ## Operands -/

theorem operand_name (hinv : c.Inv) (haccess : c.memStage env = .ok accessed)
    (stage : PipelineStage) {reg : Register} {hits : Nat}
    (h : operand env c.exRf (c.executing env) accessed.mw num stage = .ok (reg, hits)) :
    reg.name = num := by
  have hnamed := exRf_named hinv.named num
  by_cases hnum : num = 0
  · subst hnum
    rw [operand_zero hinv haccess, Except.ok.injEq, Prod.mk.injEq] at h
    rw [← h.1, hnamed]
  · have hfed {from' : Option Instruction} {instr : Instruction}
        (hfeeds : feeds from' num = some instr) : instr.rd.name = num :=
      of_decide_eq_true (Bool.and_eq_true_iff.mp (Option.filter_eq_some_iff.mp hfeeds).2).2
    cases hde : feeds (c.executing env) num with
    | some instr =>
        cases hload : HazardUnit.isLoad instr with
        | false =>
            rw [operand_de hinv haccess stage hnum hde hload, Except.ok.injEq,
              Prod.mk.injEq] at h
            rw [← h.1, hfed hde]
        | true =>
            have hlock : c.exRf.regLocker num ≠ 0 := fun hzero => by
              rw [((regLocker_eq_zero_iff hinv haccess hnum).mp hzero).1] at hde
              cases hde
            unfold operand at h
            rw [if_neg hlock, hnamed, hde] at h
            simp only [hload, if_true] at h
            split_ifs at h
            cases h
            exact hnamed
    | none =>
        cases hem : feeds accessed.mw num with
        | some instr =>
            rw [operand_em hinv haccess stage hnum hde hem, Except.ok.injEq, Prod.mk.injEq] at h
            rw [← h.1, hfed hem]
        | none =>
            rw [operand_none hinv haccess stage hnum hde hem, Except.ok.injEq,
              Prod.mk.injEq] at h
            rw [← h.1, hnamed]

theorem decodeStage_labelled (hinv : c.Inv) (haccess : c.memStage env = .ok accessed)
    (hdecode : c.decodeStage env old accessed.mw = .ok decoded) {instr : Instruction}
    (hinstr : decoded.instr = some instr) :
    ∃ fetched, c.decoding env = some fetched ∧ instr.Labelled fetched.word ∧
      instr.pc = fetched.pc := by
  rcases decodeStage_ok hdecode with ⟨fetched, hdecoding, hword⟩ | ⟨-, rfl⟩
  · obtain ⟨rs1, rs2, hits1, hits2, h1, h2, rfl⟩ := decodeWord_ok hword
    cases hinstr
    refine ⟨fetched, hdecoding, Decoder.fill_labelled _ _ _ (fun hreads => ?_) (fun hreads => ?_)
      (exRf_named hinv.named _), rfl⟩
    · rw [operand1, if_pos hreads] at h1
      exact operand_name hinv haccess _ h1
    · rw [operand2, if_pos hreads] at h2
      exact operand_name hinv haccess _ h2
  · cases hinstr

/-! ## From decode to write-back -/

/-- `D` holds of what has been decoded, `E` of what has been executed. -/
structure Throughout (D E : Instruction → Prop) (c : Core) : Prop where
  decoded : ∀ slot, c.de = some slot → D slot.instr
  executed : ∀ slot, c.em = some slot → E slot.instr
  accessed : ∀ instr, c.mw = some instr → E instr
  retired : ∀ instr ∈ c.trace, E instr

theorem Throughout.boot (D E : Instruction → Prop) (memory : Memory) (pc : BitVec 32)
    (values : RegName → BitVec 32) : (PerfSim.boot memory pc values).core.Throughout D E where
  decoded := fun _ h => by cases h
  executed := fun _ h => by cases h
  accessed := fun _ h => by cases h
  retired := fun _ h => by cases h

theorem Throughout.advance {D E : Instruction → Prop} (hinv : c.Inv)
    (h : Stepped env old c accessed decoded word memory)
    (hdecoded : ∀ instr, decoded.instr = some instr → D instr)
    (hexecuted : ∀ i, c.de = some ⟨i, false⟩ → D i → E (i.executed env))
    (hloaded : ∀ i i' clock memory, E i → loadEffect env clock memory i = .ok i' → E i')
    (hall : c.Throughout D E) :
    (c.advance env accessed decoded word memory).Throughout D E where
  decoded := by
    intro slot hslot
    rcases advance_de hinv h.decode with hde | ⟨-, i, -, ⟨killed, hi⟩, hde⟩
    · rw [hde, Option.map_eq_some_iff] at hslot
      obtain ⟨instr, hinstr, rfl⟩ := hslot
      exact hdecoded instr hinstr
    · rw [hde, Option.some.injEq] at hslot
      subst hslot
      exact hall.decoded ⟨i, killed⟩ hi
  executed := by
    intro slot hslot
    have hslot' : ((c.executing env).map fun instr =>
        (⟨instr, decide (decoded.hits > 0)⟩ : Slot)) = some slot := hslot
    obtain ⟨x, hexec, rfl⟩ := Option.map_eq_some_iff.mp hslot'
    obtain ⟨i, hde, rfl⟩ := executing_eq_some hexec
    exact hexecuted i hde (hall.decoded _ hde)
  accessed := by
    intro instr hinstr
    have hmw : accessed.mw = some instr := hinstr
    rcases memStage_ok h.access with ⟨i, i', hem, hmw', -, hload⟩ | ⟨-, rfl⟩
    · obtain rfl : i' = instr := by
        rw [hmw'] at hmw
        exact Option.some.inj hmw
      exact hloaded i i' _ _ (hall.executed _ hem) hload
    · cases hmw
  retired := by
    intro instr hinstr
    change instr ∈ c.trace ++ c.mw.toList at hinstr
    rcases List.mem_append.mp hinstr with hold | hnew
    · exact hall.retired instr hold
    · exact hall.accessed instr (Option.mem_toList.mp hnew)

end Core

end RiscvPerfSim
