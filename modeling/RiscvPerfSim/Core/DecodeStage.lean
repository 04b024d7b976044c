import RiscvPerfSim.Core.Stages

/-!
# The decode stage

The bypass network and `Decoder::decode` against `Core.operand` and
`Core.decodeWord`: the same operands, the same exceptions, and the stops that
the hazard unit spreads over three stages counted in one number.
-/

namespace RiscvPerfSim

open Foundation

/-! ## The mark that a load-use stop leaves -/

namespace PerfSim

@[simp] theorem marked_false (latch : InstrLatch) : marked false latch = latch := rfl

theorem marked_marked (mark mark' : Bool) (latch : InstrLatch) :
    marked mark (marked mark' latch) = marked (mark' || mark) latch := by
  cases mark <;> cases mark' <;> rfl

end PerfSim

namespace Datapath

def stopped (dp : Datapath) (hu : HazardUnit) (hits : Nat) : Datapath :=
  { dp with
    hu := hu
    fdSt := dp.fdSt.extend hits
    fetchSt := dp.fetchSt.extend hits
    emSt := dp.emSt.modifyStore (PerfSim.marked (decide (hits > 0))) }

structure Counts (hu hu' : HazardUnit) (hits : Nat) : Prop where
  branches : hu'.branches = hu.branches
  stops : hu'.stops = hu.stops + BitVec.ofNat 32 hits

theorem Counts.refl (hu : HazardUnit) : Counts hu hu 0 :=
  ⟨rfl, by simp⟩

theorem Counts.trans {hu hu' hu'' : HazardUnit} {hits hits' : Nat}
    (first : Counts hu hu' hits) (second : Counts hu' hu'' hits') :
    Counts hu hu'' (hits + hits') :=
  ⟨second.branches.trans first.branches, by
    rw [second.stops, first.stops, BitVec.ofNat_add, BitVec.add_assoc]⟩

@[simp] theorem stopped_zero (dp : Datapath) (hu : HazardUnit) :
    dp.stopped hu 0 = { dp with hu := hu } := rfl

theorem stopped_stopped (dp : Datapath) (hu hu' : HazardUnit) (hits hits' : Nat) :
    (dp.stopped hu hits).stopped hu' hits' = dp.stopped hu' (hits + hits') := by
  have hmark : (decide (hits > 0) || decide (hits' > 0)) = decide (hits + hits' > 0) := by
    by_cases h : hits > 0
    · simp [h, Nat.add_pos_left h]
    · simp [Nat.eq_zero_of_not_pos h]
  simp only [stopped, Stage.extend, Stage.modifyStore, PerfSim.marked_marked, hmark,
    Nat.add_assoc]

end Datapath

/-! ## Operands -/

@[simp] theorem RegFile.getReg_snd (rf : RegFile) (num : RegName) (acc : AccessType) :
    (rf.getReg num acc).2 = rf.regs num := by
  unfold getReg
  split_ifs <;> rfl

@[simp] theorem Decoder.lockRd_snd (dp : Datapath) (num : RegName) :
    (lockRd dp num).2 = dp.rf.regs num :=
  dp.rf.getReg_snd num .write

structure Datapath.Wired (dp : Datapath) : Prop where
  de : dp.deSt.load.isLive = true → ∃ ptr, dp.deSt.load.instr = some ptr
  em : dp.emSt.load.isLive = true → ∃ ptr, dp.emSt.load.instr = some ptr

section Operands

variable {env : Env} {dp : Datapath}

theorem HazardUnit.producer_eq {latch : InstrLatch} (name : RegName)
    (h : latch.isLive = true → ∃ ptr, latch.instr = some ptr) :
    producer dp latch name = .ok (Core.feeds (latch.instrOf dp.decoder) name) := by
  unfold producer InstrLatch.instrOf InstrLatch.isLive Core.feeds Instruction.writes
  cases hstall : latch.isStall || latch.hazardStall with
  | true => simp
  | false =>
      have hlive : latch.isLive = true := by simp [InstrLatch.isLive, hstall]
      obtain ⟨ptr, hptr⟩ := h hlive
      simp only [hptr, Decoder.deref, bind, Except.bind, pure, Except.pure,
        Bool.false_eq_true, if_false, Bool.not_false, if_true, Option.map_some,
        Option.filter_some]
      split_ifs <;> rfl

theorem Decoder.readOperand_agree (env : Env) (hwired : dp.Wired) (num : RegName)
    (needValueOn : PipelineStage) :
    Agree (fun (result : Datapath × Register) (expected : Register × Nat) =>
        result.2 = expected.1 ∧
          ∃ hu, Datapath.Counts dp.hu hu expected.2 ∧
            result.1 = dp.stopped hu expected.2)
      (readOperand env dp num needValueOn)
      (Core.operand env dp.rf (dp.deSt.load.instrOf dp.decoder)
        (dp.emSt.load.instrOf dp.decoder) num needValueOn) := by
  unfold readOperand Core.operand RegFile.isLock
  have hreg : (dp.rf.getReg num).2 = dp.rf.regs num := dp.rf.getReg_snd num .read
  by_cases hlock : dp.rf.regLocker num = 0
  · simp only [hlock, hreg, ne_eq, not_true_eq_false, if_false, if_true]
    exact ⟨rfl, dp.hu, .refl _, rfl⟩
  · simp only [hlock, hreg, ne_eq, not_false_eq_true, if_false, if_true]
    unfold HazardUnit.decode
    rw [HazardUnit.producer_eq _ hwired.de]
    simp only [bind, Except.bind]
    cases Core.feeds (dp.deSt.load.instrOf dp.decoder) (dp.rf.regs num).name with
    | some instr =>
        cases hload : HazardUnit.isLoad instr with
        | true =>
            by_cases hneed : needValueOn = .execute
            · simp only [hload, hneed, if_true]
              exact ⟨rfl, { dp.hu with
                stops := dp.hu.stops + 1
                bypassesWbEx := dp.hu.bypassesWbEx + 1 }, ⟨rfl, rfl⟩, rfl⟩
            · simp only [hload, hneed, if_true, if_false]
              rfl
        | false =>
            simp only [hload, Bool.false_eq_true, if_false]
            exact ⟨rfl, { dp.hu with bypassesMemEx := dp.hu.bypassesMemEx + 1 },
              ⟨rfl, by simp⟩, rfl⟩
    | none =>
        rw [HazardUnit.producer_eq _ hwired.em]
        simp only
        cases Core.feeds (dp.emSt.load.instrOf dp.decoder) (dp.rf.regs num).name with
        | some instr =>
            exact ⟨rfl, { dp.hu with bypassesWbEx := dp.hu.bypassesWbEx + 1 },
              ⟨rfl, by simp⟩, rfl⟩
        | none => exact ⟨rfl, dp.hu, .refl _, rfl⟩

private theorem readTwo_agree (hwired : dp.Wired) (num1 num2 : RegName)
    (needValueOn : PipelineStage) {R : Datapath × Instruction → Core.Decoded → Prop}
    {f : Datapath × Register → Datapath × Register → Datapath × Instruction}
    {g : Register × Nat → Register × Nat → Core.Decoded}
    (h : ∀ dp1 hu rs1 rs2 hits1 hits2, Datapath.Counts dp.hu hu (hits1 + hits2) →
      R (f (dp1, rs1) (dp.stopped hu (hits1 + hits2), rs2))
        (g (rs1, hits1) (rs2, hits2))) :
    Agree R
      (do
        let x ← Decoder.readOperand env dp num1 .execute
        let y ← Decoder.readOperand env x.1 num2 needValueOn
        return f x y)
      (do
        let x ← Core.operand env dp.rf (dp.deSt.load.instrOf dp.decoder)
          (dp.emSt.load.instrOf dp.decoder) num1 .execute
        let y ← Core.operand env dp.rf (dp.deSt.load.instrOf dp.decoder)
          (dp.emSt.load.instrOf dp.decoder) num2 needValueOn
        return g x y) := by
  refine (Decoder.readOperand_agree env hwired num1 .execute).bind ?_
  rintro ⟨dp1, rs1⟩ ⟨rs1', hits1⟩ ⟨h1, hu1, hcounts1, hdp1⟩
  dsimp only at h1 hcounts1 hdp1
  subst h1 hdp1
  have hwired1 : (dp.stopped hu1 hits1).Wired := ⟨hwired.de, hwired.em⟩
  refine (Decoder.readOperand_agree env hwired1 num2 needValueOn).bind ?_
  rintro ⟨dp2, rs2⟩ ⟨rs2', hits2⟩ ⟨h2, hu2, hcounts2, hdp2⟩
  dsimp only at h2 hcounts2 hdp2
  subst h2 hdp2
  refine Agree.ok ?_
  rw [Datapath.stopped_stopped]
  exact h _ hu2 rs1 rs2 hits1 hits2 (hcounts1.trans hcounts2)

private theorem readOne_agree (hwired : dp.Wired) (num : RegName)
    {R : Datapath × Instruction → Core.Decoded → Prop}
    {f : Datapath × Register → Datapath × Instruction}
    {g : Register × Nat → Core.Decoded}
    (h : ∀ hu hits rs1, Datapath.Counts dp.hu hu hits →
      R (f (dp.stopped hu hits, rs1)) (g (rs1, hits))) :
    Agree R
      (do
        let x ← Decoder.readOperand env dp num .execute
        return f x)
      (do
        let x ← Core.operand env dp.rf (dp.deSt.load.instrOf dp.decoder)
          (dp.emSt.load.instrOf dp.decoder) num .execute
        return g x) := by
  refine (Decoder.readOperand_agree env hwired num .execute).bind ?_
  rintro ⟨dp1, rs1⟩ ⟨rs1', hits⟩ ⟨h1, hu, hcounts, hdp⟩
  dsimp only at h1 hcounts hdp
  subst h1 hdp
  exact Agree.ok (h hu hits rs1 hcounts)

def FieldsMatch (dp : Datapath) (pc word : BitVec 32) (result : Datapath × Instruction)
    (decoded : Core.Decoded) : Prop :=
  ∃ hu, Datapath.Counts dp.hu hu decoded.hits ∧
    result.1 = { dp.stopped hu decoded.hits with rf := decoded.rf } ∧
    decoded.instr = some
      { Decoder.finish (Decoder.recognize word) word result.2 with pc := pc }

theorem Decoder.readFields_agree (env : Env) (hwired : dp.Wired) (old : Instruction)
    (pc word : BitVec 32) :
    Agree (FieldsMatch dp pc word)
      (readFields env dp (recognize word) word old)
      (Core.decodeWord env old dp.rf (dp.deSt.load.instrOf dp.decoder)
        (dp.emSt.load.instrOf dp.decoder) pc word) := by
  unfold readFields Core.decodeWord Core.operand1 Core.operand2 Core.lockedRf fill
  cases htype : (recognize word).type with
  | r =>
      simp only [readsRs1, readsRs2, rs2Stage, htype, InstrType.writesRd, if_true, lockRd_snd]
      exact readTwo_agree hwired _ _ _ fun dp1 hu rs1 rs2 hits1 hits2 hcounts =>
        ⟨hu, hcounts, rfl, rfl⟩
  | i =>
      simp only [readsRs1, readsRs2, htype, InstrType.writesRd, if_true,
        Bool.false_eq_true, if_false, lockRd_snd]
      exact readOne_agree hwired _ fun hu hits rs1 hcounts => ⟨hu, hcounts, rfl, rfl⟩
  | s =>
      simp only [readsRs1, readsRs2, rs2Stage, htype, InstrType.writesRd, if_true,
        Bool.false_eq_true, if_false, true_and]
      exact readTwo_agree hwired _ _ _ fun dp1 hu rs1 rs2 hits1 hits2 hcounts =>
        ⟨hu, hcounts, rfl, rfl⟩
  | b =>
      simp only [readsRs1, readsRs2, rs2Stage, htype, InstrType.writesRd, if_true,
        Bool.false_eq_true, if_false]
      exact readTwo_agree hwired _ _ _ fun dp1 hu rs1 rs2 hits1 hits2 hcounts =>
        ⟨hu, hcounts, rfl, rfl⟩
  | u =>
      simp only [readsRs1, readsRs2, htype, InstrType.writesRd, if_true,
        Bool.false_eq_true, if_false, lockRd_snd]
      exact Agree.ok ⟨dp.hu, .refl _, rfl, rfl⟩
  | j =>
      simp only [readsRs1, readsRs2, htype, InstrType.writesRd, if_true,
        Bool.false_eq_true, if_false, lockRd_snd]
      exact Agree.ok ⟨dp.hu, .refl _, rfl, rfl⟩
  | system =>
      simp only [readsRs1, readsRs2, htype, InstrType.writesRd, Bool.false_eq_true, if_false]
      exact Agree.ok ⟨dp.hu, .refl _, rfl, rfl⟩
  | none =>
      simp only [readsRs1, readsRs2, htype, InstrType.writesRd, Bool.false_eq_true, if_false]
      exact Agree.ok ⟨dp.hu, .refl _, rfl, rfl⟩

end Operands

/-! ## The stage -/

theorem Decoder.set_set (decoder : Decoder) (ptr : InstrPtr) (instr instr' : Instruction) :
    (decoder.set ptr instr).set ptr instr' = decoder.set ptr instr' := by
  simp [set]

def Decoder.allocated (decoder : Decoder) (type : InstrType) (instr : Instruction) :
    Decoder :=
  (decoder.getNext type).1.set (decoder.nextPtr type) instr

def Decoder.taken (dp : Datapath) (word : BitVec 32) : Datapath :=
  { dp with decoder := (dp.decoder.getNext (recognize word).type).1 }

theorem Decoder.decode_eq (env : Env) (dp : Datapath) (word : BitVec 32) :
    Decoder.decode env dp word = (do
      let x ← readFields env (taken dp word) (recognize word) word
        (dp.decoder.get (dp.decoder.nextPtr (recognize word).type))
      return ({ x.1 with
          decoder := x.1.decoder.set (dp.decoder.nextPtr (recognize word).type)
            (finish (recognize word) word x.2) },
        dp.decoder.nextPtr (recognize word).type)) := by
  simp [Decoder.decode, taken]

theorem Decoder.decode_agree (env : Env) {dp : Datapath} (hwired : dp.Wired)
    (pc word : BitVec 32) :
    Agree (fun (result : Datapath × InstrPtr) (decoded : Core.Decoded) =>
        ∃ hu instr, Datapath.Counts dp.hu hu decoded.hits ∧
          decoded.instr = some { instr with pc := pc } ∧
          result.2 = dp.decoder.nextPtr (recognize word).type ∧
          result.1 = { dp.stopped hu decoded.hits with
            rf := decoded.rf
            decoder := dp.decoder.allocated (recognize word).type instr })
      (Decoder.decode env dp word)
      (Core.decodeWord env (dp.decoder.get (dp.decoder.nextPtr (recognize word).type)) dp.rf
        (dp.deSt.load.instrOf dp.decoder) (dp.emSt.load.instrOf dp.decoder) pc word) := by
  let dp' := taken dp word
  have hwired' : dp'.Wired := ⟨hwired.de, hwired.em⟩
  have hde : dp'.deSt.load.instrOf dp'.decoder = dp.deSt.load.instrOf dp.decoder := by
    simp [dp', taken, InstrLatch.instrOf, Option.map_congr]
  have hem : dp'.emSt.load.instrOf dp'.decoder = dp.emSt.load.instrOf dp.decoder := by
    simp [dp', taken, InstrLatch.instrOf, Option.map_congr]
  have hfields := readFields_agree env hwired'
    (dp.decoder.get (dp.decoder.nextPtr (recognize word).type)) pc word
  rw [hde, hem] at hfields
  rw [decode_eq]
  refine hfields.then_ok ?_
  rintro ⟨dp'', object⟩ decoded ⟨hu, hcounts, hdp, hinstr⟩
  dsimp only at hdp
  subst hdp
  exact ⟨_, rfl, hu, _, hcounts, hinstr, rfl, rfl⟩

namespace PerfSim

variable {env : Env} {s : PerfSim}

def afterDecode (s : PerfSim) (hu : HazardUnit) (decoded : Core.Decoded)
    (latch : InstrLatch) (decoder : Decoder) : PerfSim :=
  { s with
    toDatapath :=
      { s.toDatapath.stopped hu decoded.hits with
        rf := decoded.rf
        decoder := decoder
        deSt := { s.deSt with store := latch } } }

/-- The latch and the objects that go with what decode issued, if it issued anything. -/
structure Issued (s : PerfSim) (instr : Option Instruction) (latch : InstrLatch)
    (decoder : Decoder) : Prop where
  hazard : latch.hazardStall = s.deSt.store.hazardStall
  idle : instr = none →
    decoder = s.decoder ∧ (s.deSt.stopCount = 0 → latch.isStall = true)
  fresh : ∀ i, instr = some i →
    latch.isStall = false ∧ s.deSt.stopCount = 0 ∧
      latch.instr =
        some (s.decoder.nextPtr (Decoder.recognize s.fdSt.load.instr).type) ∧
      decoder = s.decoder.allocated (Decoder.recognize s.fdSt.load.instr).type i

def DecodeMatch (s s' : PerfSim) (decoded : Core.Decoded) : Prop :=
  ∃ hu latch decoder, Datapath.Counts s.hu hu decoded.hits ∧
    s.Issued decoded.instr latch decoder ∧ s' = s.afterDecode hu decoded latch decoder

theorem decode_idle (env : Env)
    (h : (s.fdSt.load.isStall || s.fdSt.load.hazardStall) = true ∨ 0 < s.deSt.stopCount) :
    ∃ s', s.decode env = .ok s' ∧ s.DecodeMatch s' ⟨none, s.rf, 0⟩ := by
  let latch : InstrLatch :=
    { s.deSt.store with isStall := s.fdSt.load.isStall || s.fdSt.load.hazardStall }
  refine ⟨s.afterDecode s.hu ⟨none, s.rf, 0⟩ latch s.decoder, ?_, s.hu, latch, s.decoder,
    .refl _, ⟨rfl, fun _ => ⟨rfl, fun hstop => ?_⟩, fun _ hi => by cases hi⟩, rfl⟩
  rotate_left
  · exact h.resolve_right (by omega)
  · unfold decode
    rcases h with h | h
    · simp [h, afterDecode, latch, Stage.modifyStore]
    · simp [Stage.isStop, Stage.modifyStore, h, afterDecode, latch]

def decoding (s : PerfSim) : Datapath :=
  { s.toDatapath with
    deSt := s.deSt.modifyStore fun de => { de with isStall := false } }

theorem decode_eq (env : Env)
    (hfd : (s.fdSt.load.isStall || s.fdSt.load.hazardStall) = false)
    (hstop : s.deSt.stopCount = 0) :
    s.decode env = (do
      let x ← Decoder.decode env s.decoding s.fdSt.load.instr
      let dp' := { x.1 with
        decoder := x.1.decoder.set x.2 { x.1.decoder.get x.2 with pc := s.fdSt.load.pc } }
      let dp' ← if dp'.deSt.isStop then HazardUnit.write dp' (dp'.decoder.get x.2)
        else .ok dp'
      return { s with
        toDatapath := { dp' with
          deSt := dp'.deSt.modifyStore fun de =>
            { de with instr := some x.2, pc := s.fdSt.load.pc } } }) := by
  simp [decode, decoding, hfd, Stage.isStop, Stage.modifyStore, hstop]

theorem decode_agree (env : Env) (hwired : s.toDatapath.Wired)
    (hfd : (s.fdSt.load.isStall || s.fdSt.load.hazardStall) = false)
    (hstop : s.deSt.stopCount = 0) :
    Agree s.DecodeMatch (s.decode env)
      (Core.decodeWord env s.leftover s.rf (s.deSt.load.instrOf s.decoder)
        (s.emSt.load.instrOf s.decoder) s.fdSt.load.pc s.fdSt.load.instr) := by
  have hwired' : s.decoding.Wired := ⟨hwired.de, hwired.em⟩
  have hdecode := Decoder.decode_agree env hwired' s.fdSt.load.pc s.fdSt.load.instr
  rw [decode_eq env hfd hstop]
  refine hdecode.then_ok ?_
  rintro ⟨dp', ptr⟩ decoded ⟨hu, instr, hcounts, hinstr, hptr, hdp⟩
  dsimp only at hptr hdp
  subst hptr hdp
  let type := (Decoder.recognize s.fdSt.load.instr).type
  let latch : InstrLatch :=
    { s.deSt.store with
      isStall := false
      instr := some (s.decoder.nextPtr type)
      pc := s.fdSt.load.pc }
  let decoder := s.decoder.allocated type { instr with pc := s.fdSt.load.pc }
  refine ⟨s.afterDecode hu decoded latch decoder, ?_, hu, latch, decoder, hcounts,
    ⟨rfl, fun hnone => ?_, fun i hi => ?_⟩, rfl⟩
  · simp [afterDecode, latch, decoder, type, decoding, Datapath.stopped, Stage.isStop,
      Stage.modifyStore, hstop, Decoder.allocated, Decoder.set_set, bind, Except.bind, pure,
      Except.pure]
  · rw [hinstr] at hnone
    cases hnone
  · rw [hinstr, Option.some.injEq] at hi
    exact ⟨rfl, hstop, rfl, by rw [← hi]⟩

end PerfSim

end RiscvPerfSim
