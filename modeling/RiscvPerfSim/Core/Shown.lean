import RiscvPerfSim.Core.Follows
import RiscvPerfSim.Core.TraceLine

/-!
# The trace along a run that the pipeline follows

The objects in the latches are filled like the ones of the sequential machine,
and so the entries that they leave in the trace are the same.
-/

namespace RiscvPerfSim

open Foundation

namespace Instruction

variable {a b c : Instruction}

structure SameFields (a b : Instruction) : Prop where
  rs1 : Decoder.readsRs1 a.type = true → a.rs1 = b.rs1
  rs2 : Decoder.readsRs2 a.type = true → a.rs2 = b.rs2
  imm : showsImm a.type = true → a.imm = b.imm

theorem SameFields.congr {a' b' : Instruction} (h : a.SameFields b) (ha : a'.fixed = a.fixed)
    (hb : b'.fixed = b.fixed) : a'.SameFields b' where
  rs1 := by
    rw [type_of_fixed ha, rs1_of_fixed ha, rs1_of_fixed hb]
    exact h.rs1
  rs2 := by
    rw [type_of_fixed ha, rs2_of_fixed ha, rs2_of_fixed hb]
    exact h.rs2
  imm := by
    rw [type_of_fixed ha, imm_of_fixed ha, imm_of_fixed hb]
    exact h.imm

theorem Primed.sameFields {word : BitVec 32} (h : a.Primed b) (ha : a.Labelled word)
    (hb : b.Labelled word) : a.SameFields b where
  rs1 := fun hreads => by
    have hname := (ha.rs1 hreads).trans (hb.rs1 (h.type ▸ hreads)).symm
    exact congrArg₂ Register.mk (h.rs1 hreads) hname
  rs2 := fun hreads => by
    have hname := (ha.rs2 hreads).trans (hb.rs2 (h.type ▸ hreads)).symm
    exact congrArg₂ Register.mk (h.rs2 hreads) hname
  imm := fun hshows => by
    apply h.imm <;> rintro htype <;> rw [htype] at hshows <;> cases hshows

theorem SameFields.line (h : a.SameFields b) (hsame : a.Same b) : a.line = b.line := by
  have hrd (hwrites : a.type.writesRd = true) : shown a.rd = shown b.rd :=
    congrArg shown (congrArg₂ Register.mk (hsame.rdValue hwrites) (hsame.rdName hwrites))
  unfold Instruction.line
  rw [← hsame.type, ← hsame.pc, ← hsame.name]
  congr 1
  · split_ifs with hreads
    · rw [h.rs1 hreads]
    · rfl
  · split_ifs with hreads
    · rw [h.rs2 hreads]
    · rfl
  · split_ifs with hwrites
    · rw [hrd hwrites]
    · rfl
  · split_ifs with hshows
    · rw [h.imm hshows]
    · rfl

end Instruction

theorem Seq.decode_labelled {q : Seq} (hnamed : q.rf.Named) (word : BitVec 32) :
    (q.decode word).Labelled word :=
  Decoder.fill_labelled _ _ _ (fun _ => hnamed _) (fun _ => hnamed _) (hnamed _)

namespace Core

variable {env : Env} {memory memory' : Memory} {pc : BitVec 32} {values : RegName → BitVec 32}
  {q : Nat → Seq} {instr : Nat → Instruction} {n : Nat} {old : Instruction} {c : Core}
  {accessed : Accessed} {decoded : Decoded} {word : BitVec 32}

structure Shows (q : Nat → Seq) (instr : Nat → Instruction) (c : Core) : Prop where
  de : ∀ a, c.de = some ⟨a, false⟩ →
    a.SameFields ((q c.deIndex).decode (q c.deIndex).word)
  em : ∀ slot, c.em = some slot → slot.instr.SameFields (instr c.emIndex)
  mw : ∀ a, c.mw = some a → a.SameFields (instr c.mwIndex)
  trace : c.trace.map Instruction.line =
    (List.range c.mwIndex).map fun k => (instr k).line

theorem Shows.boot (memory : Memory) (pc : BitVec 32) (values : RegName → BitVec 32) :
    (PerfSim.boot memory pc values).core.Shows q instr where
  de := fun _ h => by cases h
  em := fun _ h => by cases h
  mw := fun _ h => by cases h
  trace := rfl

section Step

variable (hexec : Execution env memory pc values q instr n) (hinv : c.Inv)
  (h : c.Follows env q instr n) (hrun : c.isStop = false)
  (hcycle : Produces env q instr n old c accessed decoded word)
include hexec hinv h hrun hcycle

private theorem fields_issued {a : Instruction}
    (hde : (c.advance env accessed decoded word memory').de = some ⟨a, false⟩) :
    a.SameFields ((q c.fdIndex).decode (q c.fdIndex).word) := by
  have hlive := live_iff.mpr hde
  have hmoves : Moves env q n c word (c.advance env accessed decoded word memory') :=
    moves hexec hinv h hrun hcycle
  cases hmoves with
  | kept _ hnone => rw [hnone] at hlive; cases hlive
  | jumped _ hnone => rw [hnone] at hlive; cases hlive
  | started _ hnone => rw [hnone] at hlive; cases hlive
  | issued hle b hb hcarries hprimed =>
      obtain rfl : a = b := by
        rw [hb, Option.some.injEq, Slot.mk.injEq] at hde
        exact hde.1.symm
      refine hprimed.sameFields ?_ (Seq.decode_labelled (hexec.named (by omega)) _)
      rcases advance_de hinv hcycle.decode with hnew | ⟨-, i, -, -, hnew⟩
      swap
      · rw [hnew] at hde
        cases hde
      rw [hnew] at hde
      obtain ⟨i, hinstr, hslot⟩ := Option.map_eq_some_iff.mp hde
      obtain rfl : i = a := congrArg Slot.instr hslot
      have htarget : c.target env = none := by
        have hflag : (c.target env).isSome = false := congrArg Slot.killed hslot
        rwa [Option.isSome_eq_false_iff, Option.isNone_iff_eq_none] at hflag
      obtain ⟨fetched, hdecoding, hlabelled, -⟩ :=
        decodeStage_labelled hinv hcycle.access hcycle.decode hinstr
      have hfd := (decoding_eq_some hdecoding).1
      cases h.front htarget hle with
      | awaited hidle => exact absurd hfd (hidle _ _)
      | fetched hfd' =>
          rw [hfd, Option.some.injEq, Fetched.mk.injEq] at hfd'
          rw [← hfd'.2.1]
          exact hlabelled

theorem Shows.advance (hshows : c.Shows q instr) :
    (c.advance env accessed decoded word (q c.deIndex).memory).Shows q instr where
  de := fun a ha => by
    rw [deIndex_advance hcycle.toAccesses hcycle.hits]
    exact fields_issued hexec hinv h hrun hcycle ha
  em := fun slot hslot => by
    rw [emIndex_advance hcycle.toAccesses]
    obtain ⟨a, ha, rfl⟩ := Option.map_eq_some_iff.mp
      (show ((c.executing env).map fun instr =>
        (⟨instr, decide (decoded.hits > 0)⟩ : Slot)) = some slot from hslot)
    obtain ⟨i, hde, rfl⟩ := executing_eq_some ha
    obtain ⟨hle, hcarries, -⟩ := h.de i hde
    have hstepped := hexec.stepped hle
    refine (hshows.de i hde).congr hcarries.executed_fixed ?_
    exact hstepped.fixed.trans
      (Seq.decode_carries (hexec.named (by omega)) _).executed_fixed
  mw := fun a ha => by
    rw [mwIndex_advance]
    have hmw : accessed.mw = some a := ha
    rcases memStage_ok hcycle.access with ⟨i, i', hem, hmw', -, hload⟩ | ⟨-, rfl⟩
    · obtain rfl : i' = a := by
        rw [hmw'] at hmw
        exact Option.some.inj hmw
      exact (hshows.em _ hem).congr (loadEffect_fixed hload) rfl
    · cases hmw
  trace := by
    rw [mwIndex_advance]
    change (c.trace ++ c.mw.toList).map Instruction.line = _
    rw [List.map_append, hshows.trace, emIndex]
    cases hmw : c.mw with
    | none => simp
    | some a => simp [List.range_succ, (hshows.mw a hmw).line (h.mw a hmw).2]

end Step

end Core

end RiscvPerfSim
