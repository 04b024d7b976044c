import RiscvPerfSim.Core.Effects
import RiscvPerfSim.Core.Frontend

/-!
# The way of the program counter

Where the front end stands behind the instructions in the latches, as long as
no load is hit: behind the youngest of them, wherever that one goes on.
-/

namespace RiscvPerfSim

open Foundation

def Instruction.goesOn (instr : Instruction) : BitVec 32 := instr.target.getD (instr.pc + 4)

namespace Core

variable {env : Env} {old : Instruction} {c : Core} {accessed : Accessed} {decoded : Decoded}
  {word : BitVec 32} {memory : Memory} {clock : Nat} {instr loaded : Instruction} {pc : BitVec 32}

theorem loadEffect_goesOn (hcarries : instr.Carries word)
    (h : loadEffect env clock memory instr = .ok loaded) : loaded.goesOn = instr.goesOn := by
  rw [Instruction.goesOn, Instruction.goesOn, loadEffect_target hcarries h,
    Instruction.pc_of_fixed (loadEffect_fixed h)]

inductive Heading (c : Core) (pc : BitVec 32) : Prop
  | issued (instr : Instruction) (word : BitVec 32) (hde : c.de = some ⟨instr, false⟩)
      (hpc : instr.pc = pc) (hfd : c.fd = some ⟨pc + 4, word, false⟩)
  | fetched (word : BitVec 32) (hde : live c.de = none) (hfd : c.fd = some ⟨pc, word, false⟩)
  | awaited (hde : live c.de = none) (hfd : ∀ pc word, c.fd ≠ some ⟨pc, word, false⟩)
      (hpc : c.nextPc = pc)

def behind (pc : BitVec 32) : Option Instruction → BitVec 32
  | some instr => instr.goesOn
  | none => pc

/-- `pc` is the address of the next instruction to access memory. -/
structure Onward (c : Core) (pc : BitVec 32) : Prop where
  even : c.stop = c.deStop
  clean : c.flush = false
  em : ∀ slot, c.em = some slot → slot.killed = false ∧ slot.instr.pc = pc
  front : c.Heading (behind pc (live c.em))

theorem onward_boot (memory : Memory) (pc : BitVec 32) (values : RegName → BitVec 32) :
    (PerfSim.boot memory pc values).core.Onward pc where
  even := rfl
  clean := rfl
  em := fun slot h => by cases h
  front := .awaited rfl (fun pc word h => by cases h) rfl

section Step

variable (hinv : c.Inv) (hstraight : c.Straight)
  (h : Stepped env old c accessed decoded word memory) (hhits : decoded.hits = 0)
  (hon : c.Onward pc)
include hinv h hhits hon

private theorem heading_running (hstraight : c.Straight) (hde : c.deStop = 0) (hstop : c.stop = 0)
    (hexits : c.exits env = false) : (c.advance env accessed decoded word memory).Heading
      (behind (behind pc (live c.em)) (c.executing env)) := by
  have hzero := exitStop_of_not_exits hexits
  have hredirect : c.redirect = none := hinv.redirect_of_not_flush hon.clean
  have hde' : (c.advance env accessed decoded word memory).de =
      decoded.instr.map fun instr => ⟨instr, (c.target env).isSome⟩ :=
    advance_de_running hde hexits
  have hfd' : (c.advance env accessed decoded word memory).fd =
      some ⟨c.nextPc, word, (c.target env).isSome⟩ := by
    simp [advance, hstop, hzero, hhits, hon.clean]
  have hpc' : (c.advance env accessed decoded word memory).nextPc =
      (c.target env).getD (c.nextPc + 4) := by
    simp [advance, hstop, hzero, hhits, hredirect]
  -- without a taken transfer the word in the fetch latch is decoded
  have hissues (f : Fetched) (hfd : c.fd = some ⟨f.pc, f.word, false⟩)
      (htarget : c.target env = none) :
      (c.advance env accessed decoded word memory).Heading f.pc := by
    have hdecoding : c.decoding env = some ⟨f.pc, f.word, false⟩ := by
      simp [decoding, hfd, hde, hzero]
    obtain ⟨instr, hinstr, hissued, hslot⟩ := issued_of_decoding hinv h hdecoding
    rw [htarget] at hslot hfd'
    have hnext := hstraight.next _ hfd rfl
    exact .issued instr word hslot hissued.pc (by rw [hfd', hnext]; rfl)
  cases hon.front with
  | issued instr w hslot hpc hfd =>
      have hexec : c.executing env = some (instr.executed env) := by simp [executing, hslot]
      obtain ⟨w', hcarries⟩ := hinv.decoded _ hslot
      have hpc'' : (instr.executed env).pc = behind pc (live c.em) := by
        rw [Instruction.pc_of_fixed hcarries.executed_fixed, hpc]
      have htarget : c.target env = (instr.executed env).target := by simp [target, hexec]
      rw [hexec]
      change (c.advance env accessed decoded word memory).Heading (instr.executed env).goesOn
      rw [Instruction.goesOn, ← htarget, hpc'']
      cases hjump : c.target env with
      | none => exact hissues ⟨_, w, false⟩ hfd hjump
      | some pc =>
          rw [hjump] at hde' hfd' hpc'
          refine .awaited ?_ (fun pc word => by simp [hfd']) hpc'
          rw [hde']
          cases decoded.instr <;> rfl
  | fetched w hidle hfd =>
      have hexec : c.executing env = none := by simp [live_de env, hidle]
      rw [hexec]
      exact hissues ⟨_, w, false⟩ hfd (by simp [target, hexec])
  | awaited hidle hfd hpc =>
      have hexec : c.executing env = none := by simp [live_de env, hidle]
      have hnone : c.decoding env = none := by
        rw [Option.eq_none_iff_forall_ne_some]
        exact fun f hf => hfd _ _ (decoding_eq_some hf).1
      have hbubble := decodeStage_isSome h.decode
      rw [hnone, Option.isSome_none, Option.isSome_eq_false_iff,
        Option.isNone_iff_eq_none] at hbubble
      have htarget : c.target env = none := by simp [target, hexec]
      rw [hexec]
      refine .fetched word ?_ (by rw [hfd', hpc, htarget]; rfl)
      rw [hde', hbubble]
      rfl

private theorem heading_advance (hstraight : c.Straight) :
    (c.advance env accessed decoded word memory).Heading
      (behind (behind pc (live c.em)) (c.executing env)) := by
  cases hinv.phase h.decode with
  | flow hde hstop hexits => exact heading_running hinv h hhits hon hstraight hde hstop hexits
  | hit hde hstop hexits htarget hpos => omega
  | held hde hstop =>
      have heven := hon.even
      omega
  | exit hde hstop hexits =>
      obtain ⟨i, htype, hslot, hexec, hnew⟩ := advance_de_exit hinv hexits
      have hfive := exitStop_of_exits hexits
      obtain ⟨w', hcarries⟩ := hinv.decoded _ hslot
      have hfd' : (c.advance env accessed decoded word memory).fd = c.fd := by
        simp [advance, hfive]
      rw [hexec]
      cases hon.front with
      | issued instr w hslot' hpc hfd =>
          rw [hslot, Option.some.injEq, Slot.mk.injEq] at hslot'
          rw [← hslot'.1] at hpc
          refine .fetched w (by rw [hnew]; rfl) ?_
          rw [hfd', hfd, behind, Instruction.goesOn, hcarries.target_system htype, hpc]
          rfl
      | fetched w hidle => simp [hslot, live] at hidle
      | awaited hidle => simp [hslot, live] at hidle
  | frozen hpos hstop hle hexec =>
      have hde' : (c.advance env accessed decoded word memory).de = c.de :=
        advance_de_frozen hpos hexec
      have hne : c.stop ≠ 0 := by omega
      have hfd' : (c.advance env accessed decoded word memory).fd = c.fd := by
        simp [advance, hne]
      have hpc' : (c.advance env accessed decoded word memory).nextPc = c.nextPc := by
        simp [advance, hne]
      rw [hexec]
      cases hon.front with
      | issued instr w hslot => simp [executing, hslot] at hexec
      | fetched w hidle hfd => exact .fetched w (by rw [hde', hidle]) (by rw [hfd', hfd]; rfl)
      | awaited hidle hfd hpc =>
          exact .awaited (by rw [hde', hidle]) (by rw [hfd']; exact hfd) (by rw [hpc', hpc]; rfl)

omit hhits in
theorem Onward.retires (hmw : accessed.mw = some instr) :
    instr.pc = pc ∧ behind pc (live c.em) = instr.goesOn := by
  rcases memStage_ok h.access with ⟨i, i', hem, hmw', -, hload⟩ | ⟨-, rfl⟩
  · obtain rfl : i' = instr := by
      rw [hmw'] at hmw
      exact Option.some.inj hmw
    obtain ⟨w, hcarries⟩ := hinv.executed _ hem
    rw [live_iff.mpr hem, behind, loadEffect_goesOn hcarries hload,
      Instruction.pc_of_fixed (loadEffect_fixed hload)]
    exact ⟨(hon.em _ hem).2, rfl⟩
  · cases hmw

omit hinv hhits hon in
theorem behind_of_idle (hmw : accessed.mw = none) : behind pc (live c.em) = pc := by
  rcases live_accessed h.access with ⟨hem, -⟩ | ⟨i, i', -, hmw', -⟩
  · rw [hem, behind]
  · rw [hmw'] at hmw
    cases hmw

omit h hhits in
theorem Onward.executing_pc (hexec : c.executing env = some instr) :
    instr.pc = behind pc (live c.em) := by
  obtain ⟨i, w, hslot, -, -, -, hfixed⟩ := executing_spec hinv hexec
  rw [Instruction.pc_of_fixed hfixed]
  cases hon.front with
  | issued j w hslot' hpc =>
      rw [hslot, Option.some.injEq, Slot.mk.injEq] at hslot'
      rw [hslot'.1, hpc]
  | fetched w hidle => simp [hslot, live] at hidle
  | awaited hidle => simp [hslot, live] at hidle

include hstraight

theorem Onward.advance :
    (c.advance env accessed decoded word memory).Onward (behind pc (live c.em)) := by
  have hem : (c.advance env accessed decoded word memory).em =
      (c.executing env).map fun instr => ⟨instr, false⟩ := by
    simp [Core.advance, hhits]
  have hlive : live (c.advance env accessed decoded word memory).em = c.executing env := by
    rw [hem]
    cases c.executing env <;> rfl
  constructor
  case even =>
    have heven := hon.even
    simp only [Core.advance, hhits]
    omega
  case clean =>
    by_cases hstop : c.stop + c.exitStop env = 0
    · simp [Core.advance, hstop, hhits]
    · have htarget : c.target env = none := by
        cases hinv.phase h.decode with
        | flow hde hstop' hexits =>
            rw [hstop', exitStop_of_not_exits hexits] at hstop
            exact absurd rfl hstop
        | hit hde hstop' hexits htarget => exact htarget
        | held hde hstop' =>
            have heven := hon.even
            omega
        | exit hde hstop' hexits htarget => exact htarget
        | frozen hpos hstop' hle hexec => simp [target, hexec]
      simp [Core.advance, hhits, htarget, hon.clean]
  case em =>
    intro slot hslot
    rw [hem] at hslot
    obtain ⟨instr, hexec, rfl⟩ := Option.map_eq_some_iff.mp hslot
    exact ⟨rfl, executing_pc hinv hon hexec⟩
  case front =>
    rw [hlive]
    exact heading_advance hinv h hhits hon hstraight

end Step

end Core

end RiscvPerfSim
