import RiscvPerfSim.Core.LoadUse

/-!
# The front end

How the word in the fetch latch goes with the address that fetch reads next,
and with a SYSTEM word in front of it.
-/

namespace RiscvPerfSim

open Foundation

theorem Decoder.not_system_of_needs {word : BitVec 32} {num : RegName}
    (h : needs word num = true) : (recognize word).type ≠ .system := by
  intro htype
  simp [needs, htype, readsRs1, readsRs2] at h

theorem Decoder.fill_brIsTaken (old : Instruction) {word : BitVec 32} (rs1 rs2 rd : Register)
    (h : (recognize word).type = .b) : (fill old word rs1 rs2 rd).brIsTaken = old.brIsTaken := by
  simp [fill, finish, Instruction.calcImm, h]

namespace Core

structure Straight (c : Core) : Prop where
  next : ∀ fetched, c.fd = some fetched → fetched.killed = false → c.nextPc = fetched.pc + 4
  held : c.flush = true → ∀ fetched, c.fd = some fetched →
    (Decoder.recognize fetched.word).type ≠ .system
  system : ∀ instr, c.de = some ⟨instr, false⟩ → instr.type = .system →
    ∃ word, c.fd = some ⟨instr.pc + 4, word, false⟩
  em : ∀ slot, c.em = some slot → slot.instr.type = .system → c.deStop = 4
  mw : ∀ instr, c.mw = some instr → instr.type = .system → c.deStop = 3

variable {env : Env} {old : Instruction} {c : Core} {accessed : Accessed}
  {decoded : Decoded} {word : BitVec 32} {memory : Memory}

theorem straight_boot (memory : Memory) (pc : BitVec 32) (values : RegName → BitVec 32) :
    (PerfSim.boot memory pc values).core.Straight where
  next := fun fetched h => by cases h
  held := fun h => by cases h
  system := fun instr h => by cases h
  em := fun slot h => by cases h
  mw := fun instr h => by cases h

structure Issued (env : Env) (old : Instruction) (c : Core) (fetched : Fetched)
    (instr : Instruction) : Prop where
  carries : instr.Carries fetched.word
  pc : instr.pc = fetched.pc
  copy : instr.type.writesRd = true → instr.rd = c.exRf.regs instr.rd.name
  flag : (Decoder.recognize fetched.word).type = .b → instr.brIsTaken = old.brIsTaken

theorem issued_of_decoding (hinv : c.Inv) (h : Stepped env old c accessed decoded word memory)
    {fetched : Fetched} (hdecoding : c.decoding env = some fetched) :
    ∃ instr, decoded.instr = some instr ∧ Issued env old c fetched instr ∧
      (c.advance env accessed decoded word memory).de = some ⟨instr, (c.target env).isSome⟩ := by
  have hsome := decodeStage_isSome h.decode
  rw [hdecoding, Option.isSome_some, Option.isSome_iff_exists] at hsome
  obtain ⟨instr, hinstr⟩ := hsome
  obtain ⟨f, hf, hcarries, hpc, hcopy⟩ := decodeStage_instr hinv.named h.decode hinstr
  obtain rfl : fetched = f := by
    rw [hdecoding] at hf
    exact Option.some.inj hf
  refine ⟨instr, hinstr, ⟨hcarries, hpc, hcopy, fun htype => ?_⟩, ?_⟩
  · rcases decodeStage_ok h.decode with ⟨f, hf, hword⟩ | ⟨hnone, -⟩
    · rw [hdecoding, Option.some.injEq] at hf
      subst hf
      obtain ⟨rs1, rs2, hits1, hits2, -, -, rfl⟩ := decodeWord_ok hword
      cases hinstr
      exact Decoder.fill_brIsTaken _ _ _ _ htype
    · rw [hdecoding] at hnone
      cases hnone
  · have hstop := (decoding_eq_some hdecoding).2
    have hde : c.deStop + c.exitStop env = 0 := hstop
    simp [advance, hde, hinstr]

section Preservation

variable (hinv : c.Inv) (hstraight : c.Straight)
  (h : Stepped env old c accessed decoded word memory)
include hinv hstraight h

omit hstraight h in
theorem redirect_of_executing {instr : Instruction} (hexec : c.executing env = some instr) :
    c.flush = false ∧ c.redirect = none := by
  have hflush := flush_of_executing hinv hexec
  exact ⟨hflush, hinv.redirect_of_not_flush hflush⟩

omit h in
private theorem next_advance (fetched : Fetched)
    (hfd : (c.advance env accessed decoded word memory).fd = some fetched)
    (hlive : fetched.killed = false) :
    (c.advance env accessed decoded word memory).nextPc = fetched.pc + 4 := by
  by_cases hstop : c.stop + c.exitStop env + decoded.hits = 0
  · simp only [advance, hstop, if_true, Option.some.injEq] at hfd ⊢
    subst hfd
    dsimp only at hlive ⊢
    rw [Bool.or_eq_false_iff] at hlive
    have htarget : c.target env = none := by
      simpa using hlive.2
    rw [htarget, hinv.redirect_of_not_flush hlive.1]
    rfl
  · simp only [advance, hstop, if_false] at hfd ⊢
    exact hstraight.next fetched hfd hlive

omit hstraight in
private theorem held_advance
    (hflush : (c.advance env accessed decoded word memory).flush = true) (fetched : Fetched)
    (hfd : (c.advance env accessed decoded word memory).fd = some fetched) :
    (Decoder.recognize fetched.word).type ≠ .system := by
  obtain ⟨-, hstop, hexits, hhits, -, i, w, num, -, hold, hneeds⟩ := held_of_flush hinv h hflush
  have hzero := exitStop_of_not_exits hexits
  have hne : c.stop + c.exitStop env + decoded.hits ≠ 0 := by omega
  simp only [advance, hne, if_false] at hfd
  rw [hold, Option.some.injEq] at hfd
  subst hfd
  exact Decoder.not_system_of_needs hneeds

private theorem system_advance (instr : Instruction)
    (hnew : (c.advance env accessed decoded word memory).de = some ⟨instr, false⟩)
    (htype : instr.type = .system) :
    ∃ w, (c.advance env accessed decoded word memory).fd = some ⟨instr.pc + 4, w, false⟩ := by
  rcases advance_de hinv h.decode with hde | ⟨-, i, -, -, hde⟩
  · rw [hde, Option.map_eq_some_iff] at hnew
    obtain ⟨i, hinstr, hslot⟩ := hnew
    rw [Slot.mk.injEq] at hslot
    obtain ⟨rfl, htarget⟩ := hslot
    obtain ⟨fetched, hdecoding, hcarries, hpc, -⟩ := decodeStage_instr hinv.named h.decode hinstr
    obtain ⟨hfd, -⟩ := decoding_eq_some hdecoding
    have hsystem : (Decoder.recognize fetched.word).type = .system := hcarries.type ▸ htype
    cases hinv.phase h.decode with
    | flow _ hstop hexits hhits =>
        have hflush : c.flush = false := by
          cases hflush : c.flush with
          | false => rfl
          | true =>
              exact absurd hsystem
                (hstraight.held hflush ⟨fetched.pc, fetched.word, false⟩ hfd)
        have hzero := exitStop_of_not_exits hexits
        refine ⟨word, ?_⟩
        simp [advance, hstop, hzero, hhits, hflush, htarget, hpc, hstraight.next _ hfd rfl]
    | hit _ _ _ _ hpos =>
        obtain ⟨-, -, -, -, ld, x, w, num, -, -, -, hfd', -, hneeds, -⟩ :=
          hits_spec hinv h.decode hpos
        rw [hfd, Option.some.injEq, Fetched.mk.injEq] at hfd'
        rw [← hfd'.2.1] at hneeds
        exact absurd hsystem (Decoder.not_system_of_needs hneeds)
    | held _ hstop =>
        cases hinv.control with
        | running _ hrunning => omega
        | frozen hpos hstopped => omega
        | held _ _ _ ld _ _ hbubble =>
            obtain ⟨i, w, num, -, hfd', -, hneeds, -⟩ := (hinv.bubble ld hbubble).held
            rw [hfd, Option.some.injEq, Fetched.mk.injEq] at hfd'
            rw [← hfd'.2.1] at hneeds
            exact absurd hsystem (Decoder.not_system_of_needs hneeds)
    | exit _ _ _ _ hidle =>
        rw [hidle] at hinstr
        cases hinstr
    | frozen _ _ _ _ hidle =>
        rw [hidle] at hinstr
        cases hinstr
  · rw [hde, Option.some.injEq, Slot.mk.injEq] at hnew
    cases hnew.2

omit hstraight h in
private theorem em_advance (slot : Slot)
    (hslot : (c.advance env accessed decoded word memory).em = some slot)
    (htype : slot.instr.type = .system) :
    (c.advance env accessed decoded word memory).deStop = 4 := by
  obtain ⟨instr, hexec, rfl⟩ := Option.map_eq_some_iff.mp hslot
  replace htype : instr.type = .system := htype
  have hexits : c.exits env = true := by
    simp [exits, hexec, htype]
  have hfive := exitStop_of_exits hexits
  obtain ⟨i, hde, -⟩ := exits_spec hinv hexits
  simp [advance, hinv.deStop_of_live hde, hfive]

private theorem mw_advance (instr : Instruction)
    (hmw : (c.advance env accessed decoded word memory).mw = some instr)
    (htype : instr.type = .system) :
    (c.advance env accessed decoded word memory).deStop = 3 := by
  rcases memStage_ok h.access with ⟨i, i', hem, hmw', -, hload⟩ | ⟨-, rfl⟩
  · obtain rfl : i' = instr := by
      rw [show (c.advance env accessed decoded word memory).mw = accessed.mw from rfl, hmw'] at hmw
      exact Option.some.inj hmw
    have hfour := hstraight.em _ hem
      ((Instruction.type_of_fixed (loadEffect_fixed hload)).symm.trans htype)
    have hexits : c.exits env = false := by
      cases hexits : c.exits env with
      | false => rfl
      | true =>
          obtain ⟨j, hde, -⟩ := exits_spec hinv hexits
          have hrunning := hinv.deStop_of_live hde
          omega
    simp [advance, hfour, exitStop_of_not_exits hexits]
  · cases hmw

theorem Straight.advance : (c.advance env accessed decoded word memory).Straight where
  next := next_advance hinv hstraight
  held := held_advance hinv h
  system := system_advance hinv hstraight h
  em := em_advance hinv
  mw := mw_advance hinv hstraight h

end Preservation

end Core

namespace PerfSim

variable {env : Env} {s s' : PerfSim}

theorem Good.isJump_eq_false {instr : Instruction} (hgood : s.Good)
    (hexec : s.core.executing env = some instr) : s.fetchSt.store.isJump = false := by
  obtain ⟨-, hredirect⟩ := Core.redirect_of_executing hgood.pipeline hexec
  cases hjump : s.fetchSt.store.isJump with
  | false => rfl
  | true => simp [core, hjump] at hredirect

theorem fdLoad_of_fetched {pc word : BitVec 32}
    (h : fetched s.fdSt.load = some ⟨pc, word, false⟩) : s.fdLoad = ⟨pc, word, false⟩ := by
  unfold fetched at h
  split_ifs at h
  rw [Option.some.injEq, Fetched.mk.injEq] at h
  rw [fdLoad, h.1, h.2.1]

theorem beforeDecode_decodes {accessed : Core.Accessed} {pipeline : Pipeline} :
    (s.beforeDecode env accessed pipeline).decodes = true ↔
      s.core.decoding env = some s.fdLoad := by
  have hstop : (s.beforeDecode env accessed pipeline).deSt.stopCount =
      s.deSt.stopCount + s.core.exitStop env := rfl
  have hfd : (s.beforeDecode env accessed pipeline).fdSt.load = s.fdSt.load := rfl
  have hcore : s.core.fd = fetched s.fdSt.load := rfl
  have hcount : s.core.deStop = s.deSt.stopCount := rfl
  rw [decodes, Stage.isStop, hstop, hfd, Core.decoding, hcore, hcount, fetched, fdLoad]
  cases hstall : s.fdSt.load.isStall with
  | true => simp
  | false =>
      cases hkill : s.fdSt.load.hazardStall with
      | true => simp
      | false =>
          by_cases hzero : s.deSt.stopCount + s.core.exitStop env = 0 <;> simp [hzero]

theorem decoding_eq_fdLoad {f : Fetched} (h : s.core.decoding env = some f) : f = s.fdLoad := by
  unfold Core.decoding at h
  split at h
  · rename_i hfd
    split_ifs at h
    cases h
    exact (fdLoad_of_fetched hfd).symm
  · cases h

theorem decodes_eq_isSome {accessed : Core.Accessed} {pipeline : Pipeline} :
    (s.beforeDecode env accessed pipeline).decodes = (s.core.decoding env).isSome := by
  rw [Bool.eq_iff_iff, beforeDecode_decodes]
  constructor
  · intro hdecoding
    rw [hdecoding]
    rfl
  · intro hsome
    obtain ⟨f, hf⟩ := Option.isSome_iff_exists.mp hsome
    rw [hf, decoding_eq_fdLoad hf]

theorem Good.straight_cycle (hgood : s.Good) (hstraight : s.core.Straight)
    (h : s.cycle env = .ok s') : s'.core.Straight := by
  obtain ⟨-, accessed, decoded, word, memory, hstepped, hcore⟩ := hgood.stepped h
  rw [hcore]
  exact .advance hgood.pipeline hstraight hstepped

theorem Reachable.straight (h : Reachable env s) : s.core.Straight := by
  obtain ⟨memory, pc, values, hreaches⟩ := h
  have hboth := hreaches.invariant (P := fun s => s.Good ∧ s.core.Straight)
    (fun _ _ hgood _ _ hstep => ⟨hgood.1.cycle hstep, hgood.1.straight_cycle hgood.2 hstep⟩)
    ⟨boot_good memory pc values, Core.straight_boot memory pc values⟩
  exact hboth.2

end PerfSim

end RiscvPerfSim
