import RiscvPerfSim.Core.Scoreboard

/-!
# The invariant of the abstract pipeline

What holds between two cycles on every program: what the latches carry, who
holds which lock, how the stop counts go with the latches, and what stands
around a bubble that a load-use stop has made.
-/

namespace RiscvPerfSim

theorem Instruction.isLoad_of_fixed {instr instr' : Instruction}
    (h : instr'.fixed = instr.fixed) :
    HazardUnit.isLoad instr' = HazardUnit.isLoad instr := by
  unfold HazardUnit.isLoad
  rw [memAccType_of_fixed h]

theorem Instruction.Carries.of_isLoad {instr : Instruction} {word : BitVec 32}
    (h : instr.Carries word) (hload : HazardUnit.isLoad instr = true) :
    instr.type = .i ∧ instr.target = none := by
  have hread : (Decoder.recognize word).memAccType = .read := by
    rw [← h.memAccType]
    simpa [HazardUnit.isLoad] using hload
  obtain ⟨htype, hbranch, -⟩ := (Decoder.recognize_sound word).read hread
  refine ⟨h.type.trans htype, ?_⟩
  simp [target, PerfSim.transfers, h.isBranch, hbranch]

namespace Core

/-- How the stop counts of the front end go with the latches. -/
inductive Control (c : Core) : Prop
  | running (hde : c.deStop = 0) (hstop : c.stop = 0)
  /-- Both operands of the held word hit the same load. -/
  | held (hde : c.deStop = 0) (hstop : c.stop = 1) (instr ld : Instruction)
      (hslot : c.de = some ⟨instr, false⟩) (hreads : Decoder.readsRs2 instr.type = true)
      (hbubble : c.em = some ⟨ld, true⟩)
  /-- A SYSTEM word has executed and drains. -/
  | frozen (hpos : 0 < c.deStop) (hstop : c.stop = c.deStop) (hle : c.deStop ≤ 4)
      (instr : Instruction) (hslot : c.de = some ⟨instr, true⟩)
      (htype : instr.type = .system)
      (hem : c.deStop = 4 → c.em = some ⟨instr, false⟩)
      (hmw : c.deStop = 3 → c.mw = some instr)

/-- A killed load stands behind the first copy of the word that killed it. -/
structure Bubble (c : Core) (ld : Instruction) : Prop where
  load : HazardUnit.isLoad ld = true
  running : c.deStop = 0
  held : ∃ instr word num, c.de = some ⟨instr, false⟩ ∧
    c.fd = some ⟨instr.pc, word, false⟩ ∧ instr.Carries word ∧
    Decoder.needs word num = true ∧ ld.writes num = true ∧ num ≠ 0

/-- After a jump that found fetch stopped: both operands of a taken branch had hit one load. -/
structure Flushed (c : Core) : Prop where
  running : c.deStop = 0
  resumed : c.stop = 0
  held : ∃ pc word, c.fd = some ⟨pc, word, false⟩
  squashed : ∃ instr, c.de = some ⟨instr, true⟩

structure Inv (c : Core) : Prop where
  named : c.rf.Named
  zero : (c.rf.regs 0).value = 0
  locks : c.Scoreboard
  decoded : ∀ slot, c.de = some slot → ∃ word, slot.instr.Carries word
  executed : ∀ slot, c.em = some slot → ∃ word, slot.instr.Carries word
  accessed : ∀ instr, c.mw = some instr → ∃ word, instr.Carries word
  captured : ∀ slot, c.de = some slot → slot.instr.type.writesRd = true →
    slot.instr.rd = c.rf.regs slot.instr.rd.name
  control : c.Control
  bubble : ∀ ld, c.em = some ⟨ld, true⟩ → c.Bubble ld
  flushed : c.flush = true → c.Flushed
  redirected : c.redirect.isSome = c.flush

variable {env : Env} {old : Instruction} {c : Core} {accessed : Accessed}
  {decoded : Decoded} {word : BitVec 32} {memory : Memory}

theorem Inv.redirect_of_not_flush (hinv : c.Inv) (h : c.flush = false) : c.redirect = none := by
  have hredirect := hinv.redirected
  rw [h, Option.isSome_eq_false_iff, Option.isNone_iff_eq_none] at hredirect
  exact hredirect

/-! ## What the stages hand on -/

theorem live_de (env : Env) :
    c.executing env = (live c.de).map fun instr => instr.executed env := by
  rcases hde : c.de with - | ⟨instr, - | -⟩ <;> simp [executing, live, hde]

section Stages

variable (hinv : c.Inv)
include hinv

theorem executing_spec {instr : Instruction} (h : c.executing env = some instr) :
    ∃ i word, c.de = some ⟨i, false⟩ ∧ i.executed env = instr ∧
      i.Carries word ∧ instr.Carries word ∧ instr.fixed = i.fixed := by
  obtain ⟨i, hde, rfl⟩ := executing_eq_some h
  obtain ⟨word, hcarries⟩ := hinv.decoded _ hde
  exact ⟨i, word, hde, rfl, hcarries, hcarries.executed, hcarries.executed_fixed⟩

theorem claim_executing (num : RegName) :
    claim (c.executing env) num = claim (live c.de) num := by
  rw [live_de env]
  cases hde : live c.de with
  | none => rfl
  | some i =>
      have hslot : c.de = some ⟨i, false⟩ := by
        unfold live at hde
        split at hde
        · cases hde
          assumption
        · cases hde
      obtain ⟨word, hcarries⟩ := hinv.decoded _ hslot
      exact claim_of_fixed hcarries.executed_fixed num

theorem exits_spec (h : c.exits env = true) :
    ∃ i, c.de = some ⟨i, false⟩ ∧ c.executing env = some i ∧ i.type = .system ∧
      c.target env = none := by
  simp only [exits, Option.any_eq_true, decide_eq_true_eq] at h
  obtain ⟨x, hexec, htype⟩ := h
  obtain ⟨i, word, hde, hrun, hcarries, -, hfixed⟩ := executing_spec hinv hexec
  have hsystem : i.type = .system := by
    rw [← Instruction.type_of_fixed hfixed, htype]
  obtain rfl : i = x := by
    rw [← hrun, hcarries.executed_system hsystem]
  exact ⟨i, hde, hexec, hsystem, by simp [target, hexec, hcarries.target_system hsystem]⟩

omit hinv in
theorem live_accessed (haccess : c.memStage env = .ok accessed) :
    (live c.em = none ∧ accessed.mw = none) ∨
      ∃ instr instr', live c.em = some instr ∧ accessed.mw = some instr' ∧
        instr'.fixed = instr.fixed := by
  rcases memStage_ok haccess with ⟨i, i', hem, hmw, -, hload⟩ | ⟨hem, rfl⟩
  · exact .inr ⟨i, i', live_iff.mpr hem, hmw, loadEffect_fixed hload⟩
  · refine .inl ⟨?_, rfl⟩
    rw [Option.eq_none_iff_forall_ne_some]
    exact fun i hi => hem i (live_iff.mp hi)

omit hinv in
theorem memStage_claim (haccess : c.memStage env = .ok accessed) (num : RegName) :
    claim accessed.mw num = claim (live c.em) num := by
  rcases live_accessed haccess with ⟨hem, hmw⟩ | ⟨i, i', hem, hmw, hfixed⟩
  · rw [hem, hmw]
  · rw [hem, hmw]
    exact claim_of_fixed hfixed num

theorem regLocker_exRf (haccess : c.memStage env = .ok accessed) (num : RegName) :
    c.exRf.regLocker num =
      if num = 0 then 0 else -(claim (c.executing env) num + claim accessed.mw num) := by
  have hlocks := hinv.locks num
  have hde := claim_slot c.de num
  have hem := claim_slot c.em num
  rw [exRf, memRf, RegFile.regLocker_squash, RegFile.regLocker_squash, regLocker_wbRf, hlocks,
    claim_executing hinv, memStage_claim haccess]
  unfold claims
  split_ifs <;> omega

omit hinv in
theorem regs_wbRf_zero (h : (c.rf.regs 0).value = 0) : (c.wbRf.regs 0).value = 0 := by
  unfold wbRf
  split
  · simpa [RegFile.regs_release] using h
  · exact h

omit hinv in
theorem regs_squash_zero {rf : RegFile} (h : (rf.regs 0).value = 0) (slot : Option Slot) :
    ((rf.squash slot).regs 0).value = 0 := by
  unfold RegFile.squash
  split
  · simpa [RegFile.regs_release] using h
  · exact h

theorem regs_exRf_zero : (c.exRf.regs 0).value = 0 :=
  regs_squash_zero (regs_squash_zero (regs_wbRf_zero hinv.zero) _) _

omit hinv in
theorem regs_lockedRf (rf : RegFile) (word : BitVec 32) : (lockedRf rf word).regs = rf.regs := by
  unfold lockedRf
  split_ifs
  · exact rf.regs_lock _
  · rfl

omit hinv in
theorem decodeStage_regs {em : Option Instruction}
    (hdecode : c.decodeStage env old em = .ok decoded) : decoded.rf.regs = c.exRf.regs := by
  rcases decodeStage_ok hdecode with ⟨fetched, -, hword⟩ | ⟨-, rfl⟩
  · obtain ⟨rs1, rs2, hits1, hits2, -, -, rfl⟩ := decodeWord_ok hword
    exact regs_lockedRf ..
  · rfl

theorem decodeStage_claim {em : Option Instruction}
    (hdecode : c.decodeStage env old em = .ok decoded) (num : RegName) :
    decoded.rf.regLocker num =
      c.exRf.regLocker num - if num = 0 then 0 else claim decoded.instr num := by
  rcases decodeStage_ok hdecode with ⟨fetched, hdecoding, hword⟩ | ⟨-, rfl⟩
  · obtain ⟨rs1, rs2, hits1, hits2, -, -, hdecoded⟩ := decodeWord_ok hword
    have hinstr := congrArg Decoded.instr hdecoded
    obtain ⟨f, hf, hcarries, -, -⟩ := decodeStage_instr hinv.named hdecode hinstr
    obtain rfl : fetched = f := by
      rw [hdecoding] at hf
      exact Option.some.inj hf
    have hwrites := hcarries.rdName
    rw [hcarries.type] at hwrites
    rw [hinstr, claim_some, congrArg Decoded.rf hdecoded]
    unfold lockedRf Instruction.writes
    rw [hcarries.type]
    cases hrd : (Decoder.recognize fetched.word).type.writesRd with
    | false => simp
    | true =>
        rw [hwrites hrd]
        simp only [if_true, RegFile.regLocker_lock, Bool.true_and, decide_eq_true_eq]
        by_cases hnum : num = 0
        · simp [hnum]
        · by_cases heq : num = Decoder.numRd fetched.word
          · simp [heq]
          · have hne : ¬ Decoder.numRd fetched.word = num := fun h => heq h.symm
            simp [heq, hne]
  · simp

theorem hits_spec {em : Option Instruction}
    (hdecode : c.decodeStage env old em = .ok decoded) (hhits : 0 < decoded.hits) :
    decoded.hits ≤ 2 ∧ c.deStop = 0 ∧ c.exits env = false ∧ c.target env = none ∧
      ∃ ld instr fetched num, c.executing env = some ld ∧ HazardUnit.isLoad ld = true ∧
        decoded.instr = some instr ∧ c.fd = some ⟨instr.pc, fetched, false⟩ ∧
        instr.Carries fetched ∧ Decoder.needs fetched num = true ∧
        ld.writes num = true ∧ c.exRf.regLocker num ≠ 0 ∧
        (decoded.hits = 2 → Decoder.needsTwice fetched = true) := by
  rcases decodeStage_ok hdecode with ⟨fetched, hdecoding, hword⟩ | ⟨-, rfl⟩
  · obtain ⟨hle, htwo, hsome⟩ := decodeWord_hits (exRf_named hinv.named) hword
    obtain ⟨ld, num, hexec, hload, hwrites, hreads, hlock⟩ := hsome hhits
    obtain ⟨i, w, -, -, -, hcarries, -⟩ := executing_spec hinv hexec
    obtain ⟨htype, htarget⟩ := hcarries.of_isLoad hload
    obtain ⟨hfd, hstop⟩ := decoding_eq_some hdecoding
    obtain ⟨rs1, rs2, hits1, hits2, -, -, hdecoded⟩ := decodeWord_ok hword
    have hinstr := congrArg Decoded.instr hdecoded
    obtain ⟨f, hf, hnew, hpc, -⟩ := decodeStage_instr hinv.named hdecode hinstr
    obtain rfl : fetched = f := by
      rw [hdecoding] at hf
      exact Option.some.inj hf
    refine ⟨hle, by omega, by simp [exits, hexec, htype], by simp [target, hexec, htarget],
      ld, _, fetched.word, num, hexec, hload, hinstr, hfd, hnew, hreads, hwrites, hlock, htwo⟩
  · simp at hhits

theorem hits_of_not_load {em : Option Instruction}
    (hdecode : c.decodeStage env old em = .ok decoded)
    (hfree : ∀ instr, c.executing env = some instr → HazardUnit.isLoad instr = false) :
    decoded.hits = 0 := by
  rcases Nat.eq_zero_or_pos decoded.hits with hhits | hpos
  · exact hhits
  · obtain ⟨-, -, -, -, ld, -, -, -, hld, hload, -⟩ := hits_spec hinv hdecode hpos
    rw [hfree ld hld] at hload
    cases hload

end Stages

/-! ## The kinds of cycle -/

inductive Phase (env : Env) (c : Core) (decoded : Decoded) : Prop
  | flow (hde : c.deStop = 0) (hstop : c.stop = 0) (hexits : c.exits env = false)
      (hhits : decoded.hits = 0)
  | hit (hde : c.deStop = 0) (hstop : c.stop = 0) (hexits : c.exits env = false)
      (htarget : c.target env = none) (hpos : 0 < decoded.hits) (hle : decoded.hits ≤ 2)
  | held (hde : c.deStop = 0) (hstop : c.stop = 1) (hexits : c.exits env = false)
      (hhits : decoded.hits = 0)
  | exit (hde : c.deStop = 0) (hstop : c.stop = 0) (hexits : c.exits env = true)
      (htarget : c.target env = none) (hidle : decoded = ⟨none, c.exRf, 0⟩)
  | frozen (hpos : 0 < c.deStop) (hstop : c.stop = c.deStop) (hle : c.deStop ≤ 4)
      (hexec : c.executing env = none) (hidle : decoded = ⟨none, c.exRf, 0⟩)

theorem decodeStage_stopped {em : Option Instruction}
    (hdecode : c.decodeStage env old em = .ok decoded)
    (hstop : c.deStop + c.exitStop env ≠ 0) : decoded = ⟨none, c.exRf, 0⟩ := by
  rcases decodeStage_ok hdecode with ⟨fetched, hdecoding, -⟩ | ⟨-, hidle⟩
  · exact absurd (decoding_eq_some hdecoding).2 hstop
  · exact hidle

theorem exitStop_of_exits (hexits : c.exits env = true) : c.exitStop env = 5 := by
  simp [exitStop, hexits]

theorem exitStop_of_not_exits (hexits : c.exits env = false) : c.exitStop env = 0 := by
  simp [exitStop, hexits]

theorem of_not_executing (hinv : c.Inv) (hexec : c.executing env = none) {em : Option Instruction}
    (hdecode : c.decodeStage env old em = .ok decoded) :
    c.target env = none ∧ c.exitStop env = 0 ∧ decoded.hits = 0 := by
  refine ⟨by rw [target, hexec]; rfl, exitStop_of_not_exits (by simp [exits, hexec]),
    hits_of_not_load hinv hdecode fun instr hsome => ?_⟩
  rw [hexec] at hsome
  cases hsome

theorem Inv.phase (hinv : c.Inv) {em : Option Instruction}
    (hdecode : c.decodeStage env old em = .ok decoded) : c.Phase env decoded := by
  cases hinv.control with
  | running hde hstop =>
      cases hexits : c.exits env with
      | true =>
          obtain ⟨i, -, -, -, htarget⟩ := exits_spec hinv hexits
          refine .exit hde hstop hexits htarget (decodeStage_stopped hdecode ?_)
          rw [exitStop_of_exits hexits]
          omega
      | false =>
          rcases Nat.eq_zero_or_pos decoded.hits with hhits | hpos
          · exact .flow hde hstop hexits hhits
          · obtain ⟨hle, -, -, htarget, -⟩ := hits_spec hinv hdecode hpos
            exact .hit hde hstop hexits htarget hpos hle
  | held hde hstop instr ld hslot hreads hbubble =>
      have hexec : c.executing env = some (instr.executed env) := by
        simp [executing, hslot]
      obtain ⟨i, w, hi, hrun, hcarries, hcarries', hfixed⟩ := executing_spec hinv hexec
      rw [hslot, Option.some.injEq, Slot.mk.injEq] at hi
      obtain ⟨rfl, -⟩ := hi
      have htype := Instruction.type_of_fixed hfixed
      have hexits : c.exits env = false := by
        cases hexits : c.exits env with
        | false => rfl
        | true =>
            obtain ⟨i, hi, -, hsystem, -⟩ := exits_spec hinv hexits
            rw [hslot, Option.some.injEq, Slot.mk.injEq] at hi
            rw [hi.1, hsystem] at hreads
            cases hreads
      refine .held hde hstop hexits (hits_of_not_load hinv hdecode fun ld hld => ?_)
      rw [hexec, Option.some.injEq] at hld
      subst hld
      rw [Bool.eq_false_iff]
      intro hload
      rw [← htype, (hcarries'.of_isLoad hload).1] at hreads
      cases hreads
  | frozen hpos hstop hle instr hslot htype hem hmw =>
      have hexec : c.executing env = none := by
        simp [executing, hslot]
      exact .frozen hpos hstop hle hexec (decodeStage_stopped hdecode (by omega))

/-! ## Preservation -/

theorem advance_de_running (hde : c.deStop = 0) (hexits : c.exits env = false) :
    (c.advance env accessed decoded word memory).de =
      decoded.instr.map fun instr => ⟨instr, (c.target env).isSome⟩ := by
  simp [advance, hde, exitStop, hexits]

theorem advance_de_frozen (hpos : 0 < c.deStop) (hexec : c.executing env = none) :
    (c.advance env accessed decoded word memory).de = c.de := by
  have hne : c.deStop ≠ 0 := by omega
  rcases hde : c.de with - | ⟨instr, killed⟩ <;> simp [advance, exits, hexec, hne, hde]

theorem advance_de_exit (hinv : c.Inv) (hexits : c.exits env = true) :
    ∃ i, i.type = .system ∧ c.de = some ⟨i, false⟩ ∧ c.executing env = some i ∧
      (c.advance env accessed decoded word memory).de = some ⟨i, true⟩ := by
  obtain ⟨i, hde, hexec, htype, -⟩ := exits_spec hinv hexits
  exact ⟨i, htype, hde, hexec, by simp [advance, exitStop, hexits, hde, hexec]⟩

theorem advance_de (hinv : c.Inv) {em : Option Instruction}
    (hdecode : c.decodeStage env old em = .ok decoded) :
    (c.advance env accessed decoded word memory).de =
        (decoded.instr.map fun instr => ⟨instr, (c.target env).isSome⟩) ∨
      decoded.instr = none ∧ ∃ i, i.type = .system ∧ (∃ killed, c.de = some ⟨i, killed⟩) ∧
        (c.advance env accessed decoded word memory).de = some ⟨i, true⟩ := by
  cases hinv.phase hdecode with
  | flow hde hstop hexits hhits => exact .inl (advance_de_running hde hexits)
  | hit hde hstop hexits => exact .inl (advance_de_running hde hexits)
  | held hde hstop hexits => exact .inl (advance_de_running hde hexits)
  | exit hde hstop hexits htarget hidle =>
      obtain ⟨i, htype, hi, -, hnew⟩ := advance_de_exit hinv hexits
      exact .inr ⟨by rw [hidle], i, htype, ⟨_, hi⟩, hnew⟩
  | frozen hpos hstop hle hexec hidle =>
      cases hinv.control with
      | running hde => omega
      | held hde => omega
      | frozen _ _ _ i hslot htype =>
          refine .inr ⟨by rw [hidle], i, htype, ⟨_, hslot⟩, ?_⟩
          rw [advance_de_frozen hpos hexec, hslot]

section Preservation

variable (hinv : c.Inv) (h : Stepped env old c accessed decoded word memory)
include hinv h

private theorem scoreboard_advance :
    (c.advance env accessed decoded word memory).Scoreboard := by
  intro num
  have hregs := decodeStage_claim hinv h.decode num
  have hexRf := regLocker_exRf hinv h.access num
  have hem : claim (((c.executing env).map fun instr =>
      (⟨instr, decide (decoded.hits > 0)⟩ : Slot)).map Slot.instr) num =
        claim (c.executing env) num := by
    cases c.executing env <;> rfl
  have hde : claim ((c.advance env accessed decoded word memory).de.map Slot.instr) num =
      claim decoded.instr num := by
    rcases advance_de hinv h.decode with hde | ⟨hnone, i, htype, -, hde⟩
    · rw [hde]
      cases decoded.instr <;> rfl
    · rw [hde, hnone, Option.map_some, claim_some, Instruction.not_writes_of_system htype]
      rfl
  change decoded.rf.regLocker num = _
  rw [hregs, hexRf]
  unfold claims
  rw [hde]
  change _ = if num = 0 then 0 else -(_ + claim (((c.executing env).map _).map _) num +
    claim accessed.mw num)
  rw [hem]
  split_ifs <;> omega

private theorem control_advance :
    (c.advance env accessed decoded word memory).Control := by
  cases hinv.phase h.decode with
  | flow hde hstop hexits hhits =>
      have hzero := exitStop_of_not_exits hexits
      exact .running (by simp [advance, hde, hzero]) (by simp [advance, hstop, hzero, hhits])
  | hit hde hstop hexits htarget hpos hle =>
      have hzero := exitStop_of_not_exits hexits
      by_cases hone : decoded.hits = 1
      · exact .running (by simp [advance, hde, hzero])
          (by simp [advance, hstop, hzero, hone])
      · have htwo : decoded.hits = 2 := by omega
        obtain ⟨-, -, -, -, ld, instr, fetched, num, hexec, -, hinstr, -, hcarries, -, -, -,
          htwice⟩ := hits_spec hinv h.decode hpos
        have hreads : Decoder.readsRs2 instr.type = true := by
          have hboth := htwice htwo
          simp only [Decoder.needsTwice, Bool.and_eq_true] at hboth
          rw [hcarries.type]
          exact hboth.1.1.2
        refine .held (by simp [advance, hde, hzero]) (by simp [advance, hstop, hzero, htwo])
          instr ld ?_ hreads (by simp [advance, hexec, htwo])
        rw [advance_de_running hde hexits, hinstr, htarget]
        rfl
  | held hde hstop hexits hhits =>
      have hzero := exitStop_of_not_exits hexits
      exact .running (by simp [advance, hde, hzero]) (by simp [advance, hstop, hzero, hhits])
  | exit hde hstop hexits htarget hidle =>
      have hfive := exitStop_of_exits hexits
      obtain ⟨i, htype, -, hexec, hnew⟩ := advance_de_exit hinv hexits
      have hhits : decoded.hits = 0 := by rw [hidle]
      exact .frozen (by simp [advance, hde, hfive])
        (by simp [advance, hde, hstop, hfive, hhits]) (by simp [advance, hde, hfive]) i hnew
        htype (by simp [advance, hexec, hhits]) (by simp [advance, hde, hfive])
  | frozen hpos hstop hle hexec hidle =>
      have hexits : c.exits env = false := by simp [exits, hexec]
      have hzero := exitStop_of_not_exits hexits
      have hhits : decoded.hits = 0 := by rw [hidle]
      cases hinv.control with
      | running hde => omega
      | held hde => omega
      | frozen _ _ _ i hslot htype hem hmw =>
          by_cases hone : c.deStop = 1
          · exact .running (by simp [advance, hone, hzero])
              (by simp [advance, hstop, hone, hzero, hhits])
          · refine .frozen (by simp [advance, hzero]; omega)
              (by simp [advance, hstop, hzero, hhits]) (by simp [advance, hzero]; omega) i
              (by rw [advance_de_frozen hpos hexec, hslot]) htype ?_ ?_
            · intro hfour
              simp only [advance, hzero] at hfour
              omega
            · intro hthree
              simp only [advance, hzero] at hthree
              have hslotEm := hem (by omega)
              obtain ⟨w, hcarries⟩ := hinv.executed _ hslotEm
              have hacc : i.memAccType = .none := hcarries.memAccType_system htype
              rcases memStage_ok h.access with ⟨j, j', hj, hmw', -, hload⟩ | ⟨hnone, -⟩
              · rw [hslotEm, Option.some.injEq, Slot.mk.injEq] at hj
                obtain ⟨rfl, -⟩ := hj
                rw [loadEffect_of_ne (by simp [hacc])] at hload
                cases hload
                exact hmw'
              · exact absurd hslotEm (hnone i)

private theorem bubble_advance (ld : Instruction)
    (hem : (c.advance env accessed decoded word memory).em = some ⟨ld, true⟩) :
    (c.advance env accessed decoded word memory).Bubble ld := by
  have hem' : ((c.executing env).map fun instr =>
      (⟨instr, decide (decoded.hits > 0)⟩ : Slot)) = some ⟨ld, true⟩ := hem
  obtain ⟨x, hexec, hx⟩ := Option.map_eq_some_iff.mp hem'
  rw [Slot.mk.injEq, decide_eq_true_eq] at hx
  obtain ⟨rfl, hpos⟩ := hx
  obtain ⟨-, hde, hexits, htarget, y, instr, fetched, num, hy, hload, hinstr, hfd, hcarries,
    hreads, hwrites, hlock, -⟩ := hits_spec hinv h.decode hpos
  obtain rfl : x = y := by
    rw [hexec] at hy
    exact Option.some.inj hy
  have hzero := exitStop_of_not_exits hexits
  have hnum : num ≠ 0 := by
    rintro rfl
    rw [regLocker_exRf hinv h.access] at hlock
    exact hlock rfl
  refine ⟨hload, by simp [advance, hde, hzero], instr, fetched, num, ?_, ?_, hcarries, hreads,
    hwrites, hnum⟩
  · rw [advance_de_running hde hexits, hinstr, htarget]
    rfl
  · have hne : decoded.hits ≠ 0 := by omega
    simp [advance, hzero, hne, hfd]

omit h in
theorem flush_of_executing {instr : Instruction} (hexec : c.executing env = some instr) :
    c.flush = false := by
  cases hflush : c.flush with
  | false => rfl
  | true =>
      obtain ⟨i, hde⟩ := (hinv.flushed hflush).squashed
      obtain ⟨j, hj, -⟩ := executing_eq_some hexec
      rw [hde] at hj
      cases hj

theorem held_of_flush (hflush : (c.advance env accessed decoded word memory).flush = true) :
    c.deStop = 0 ∧ c.stop = 1 ∧ c.exits env = false ∧ decoded.hits = 0 ∧
      (c.target env).isSome = true ∧ ∃ instr fetched num, c.de = some ⟨instr, false⟩ ∧
        c.fd = some ⟨instr.pc, fetched, false⟩ ∧ Decoder.needs fetched num = true := by
  have hkept : c.stop + c.exitStop env + decoded.hits ≠ 0 ∧
      (c.flush = true ∨ (c.target env).isSome = true) := by
    change (if c.stop + c.exitStop env + decoded.hits = 0 then false
      else c.flush || (c.target env).isSome) = true at hflush
    split_ifs at hflush with hzero
    exact ⟨hzero, by simpa using hflush⟩
  obtain ⟨hstopped, hcause⟩ := hkept
  cases hinv.phase h.decode with
  | flow hde hstop hexits hhits =>
      rw [hstop, hhits, exitStop_of_not_exits hexits] at hstopped
      exact absurd rfl hstopped
  | hit hde hstop hexits htarget hpos hle =>
      obtain ⟨-, -, -, -, ld, -, -, -, hexec, -⟩ := hits_spec hinv h.decode hpos
      simp [flush_of_executing hinv hexec, htarget] at hcause
  | exit hde hstop hexits htarget hidle =>
      obtain ⟨i, -, hexec, -, -⟩ := exits_spec hinv hexits
      simp [flush_of_executing hinv hexec, htarget] at hcause
  | frozen hpos hstop hle hexec hidle =>
      have htarget : c.target env = none := by simp [target, hexec]
      rcases hcause with hflush | hsome
      · have hrunning := (hinv.flushed hflush).running
        omega
      · simp [htarget] at hsome
  | held hde hstop hexits hhits =>
      have htaken : (c.target env).isSome = true := by
        rcases hcause with hflush | hsome
        · have hresumed := (hinv.flushed hflush).resumed
          omega
        · exact hsome
      refine ⟨hde, hstop, hexits, hhits, htaken, ?_⟩
      cases hinv.control with
      | running _ hrunning => omega
      | frozen hpos => omega
      | held _ _ instr ld hslot hreads hbubble =>
          obtain ⟨i, w, num, hi, hfd, -, hneeds, -⟩ := (hinv.bubble ld hbubble).held
          exact ⟨i, w, num, hi, hfd, hneeds⟩

private theorem flushed_advance
    (hflush : (c.advance env accessed decoded word memory).flush = true) :
    (c.advance env accessed decoded word memory).Flushed := by
  obtain ⟨hde, hstop, hexits, hhits, htaken, i, w, num, -, hfd, -⟩ := held_of_flush hinv h hflush
  have hzero := exitStop_of_not_exits hexits
  have hone : c.stop + c.exitStop env + decoded.hits = 1 := by omega
  have hdecoding : c.decoding env = some ⟨i.pc, w, false⟩ := by
    simp [decoding, hfd, hde, hzero]
  refine ⟨by simp [advance, hde, hzero], by simp [advance, hone], ⟨i.pc, w, ?_⟩, ?_⟩
  · simp [advance, hone, hfd]
  · have hissued := decodeStage_isSome h.decode
    rw [hdecoding, Option.isSome_some, Option.isSome_iff_exists] at hissued
    obtain ⟨issued, hinstr⟩ := hissued
    refine ⟨issued, ?_⟩
    rw [advance_de_running hde hexits, hinstr, htaken]
    rfl

theorem Inv.advance : (c.advance env accessed decoded word memory).Inv where
  named := decodeStage_named hinv.named h.decode
  zero := by
    change (decoded.rf.regs 0).value = 0
    rw [decodeStage_regs h.decode]
    exact regs_exRf_zero hinv
  locks := scoreboard_advance hinv h
  decoded := by
    intro slot hslot
    rcases advance_de hinv h.decode with hde | ⟨-, i, -, ⟨killed, hi⟩, hde⟩
    · rw [hde, Option.map_eq_some_iff] at hslot
      obtain ⟨instr, hinstr, rfl⟩ := hslot
      obtain ⟨fetched, -, hcarries, -, -⟩ := decodeStage_instr hinv.named h.decode hinstr
      exact ⟨fetched.word, hcarries⟩
    · rw [hde, Option.some.injEq] at hslot
      subst hslot
      exact hinv.decoded ⟨i, killed⟩ hi
  executed := by
    intro slot hslot
    have hslot' : ((c.executing env).map fun instr =>
        (⟨instr, decide (decoded.hits > 0)⟩ : Slot)) = some slot := hslot
    obtain ⟨x, hexec, rfl⟩ := Option.map_eq_some_iff.mp hslot'
    obtain ⟨-, w, -, -, -, hcarries, -⟩ := executing_spec hinv hexec
    exact ⟨w, hcarries⟩
  accessed := by
    intro instr hinstr
    have hmw : accessed.mw = some instr := hinstr
    rcases memStage_ok h.access with ⟨i, i', hem, hmw', -, hload⟩ | ⟨-, rfl⟩
    · obtain rfl : i' = instr := by
        rw [hmw'] at hmw
        exact Option.some.inj hmw
      obtain ⟨w, hcarries⟩ := hinv.executed _ hem
      exact ⟨w, .of_fixed (loadEffect_fixed hload) hcarries⟩
    · cases hmw
  captured := by
    intro slot hslot hrd
    change slot.instr.rd = decoded.rf.regs slot.instr.rd.name
    rcases advance_de hinv h.decode with hde | ⟨-, i, htype, -, hde⟩
    · rw [hde, Option.map_eq_some_iff] at hslot
      obtain ⟨instr, hinstr, rfl⟩ := hslot
      obtain ⟨-, -, -, -, hcopy⟩ := decodeStage_instr hinv.named h.decode hinstr
      rw [decodeStage_regs h.decode]
      exact hcopy hrd
    · rw [hde, Option.some.injEq] at hslot
      subst hslot
      simp [htype, InstrType.writesRd] at hrd
  control := control_advance hinv h
  bubble := bubble_advance hinv h
  flushed := flushed_advance hinv h
  redirected := by
    simp only [Core.advance]
    split_ifs
    · rfl
    · rw [Option.isSome_or, hinv.redirected, Bool.or_comm]

end Preservation

end Core

end RiscvPerfSim
