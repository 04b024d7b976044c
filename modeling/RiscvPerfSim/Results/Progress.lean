import RiscvPerfSim.Core.LoadUse

/-!
# Progress

A rank that every cycle without a retirement lowers, unless a load that needs
its own destination is decoded behind a load of it.  Such a pair repeats itself
for ever; everything else retires within eight cycles.
-/

namespace RiscvPerfSim

open Foundation

namespace Core

variable {env : Env} {old : Instruction} {c : Core} {accessed : Accessed}
  {decoded : Decoded} {word : BitVec 32} {memory : Memory}

/-! ## Loads that wait for themselves -/

/-- The word that waits for the load in execute is itself a load of that register. -/
def SelfLoad (c : Core) : Prop :=
  ∃ load fetched num, c.LoadUse load fetched num ∧
    (Decoder.recognize fetched.word).memAccType = .read ∧
    Decoder.numRd fetched.word = num

theorem SelfLoad.advance (hinv : c.Inv) (hself : c.SelfLoad)
    (h : Stepped env old c accessed decoded word memory) :
    (c.advance env accessed decoded word memory).SelfLoad := by
  obtain ⟨load, fetched, num, huse, hread, hrd⟩ := hself
  have hexec := huse.executing env hinv
  have hhits := huse.hits_pos hinv h.access h.decode
  have hissued := decodeStage_isSome h.decode
  rw [hexec.decoding, Option.isSome_some, Option.isSome_iff_exists] at hissued
  obtain ⟨instr, hinstr⟩ := hissued
  obtain ⟨f, hf, hcarries, -, -⟩ := decodeStage_instr hinv.named h.decode hinstr
  rw [hexec.decoding, Option.some.injEq] at hf
  subst hf
  have htype : instr.type = .i :=
    hcarries.type.trans ((Decoder.recognize_sound fetched.word).read hread).1
  have hrunning : (c.advance env accessed decoded word memory).de =
      decoded.instr.map fun instr => ⟨instr, (c.target env).isSome⟩ :=
    advance_de_running (hinv.deStop_of_live huse.de) hexec.exits
  refine ⟨instr, fetched, num, ?_, hread, hrd⟩
  constructor
  case de =>
    rw [hrunning, hinstr, hexec.target]
    rfl
  case isLoad => simp [HazardUnit.isLoad, hcarries.memAccType, hread]
  case writes =>
    have hname := hcarries.rdName (by simp [htype, InstrType.writesRd])
    simp [Instruction.writes, htype, InstrType.writesRd, hname, hrd]
  case notZero => exact huse.notZero
  case fd =>
    have hne : decoded.hits ≠ 0 := by omega
    simp [Core.advance, hne, huse.fd]
  case live => exact huse.live
  case wants => exact huse.wants

/-! ## The rank -/

def frontRank (c : Core) : Nat :=
  match c.fd with
  | some ⟨_, _, false⟩ => 5
  | _ => 6

def rank (c : Core) : Nat :=
  if c.mw.isSome then 1
  else
    match c.em, c.de with
    | some ⟨_, false⟩, _ => 2
    | some ⟨_, true⟩, some ⟨_, false⟩ => 3
    | none, some ⟨_, false⟩ => 4
    | _, _ => c.deStop + c.frontRank

theorem rank_pos : 0 < c.rank := by
  unfold rank frontRank
  split
  · omega
  · split
    · omega
    · omega
    · omega
    · split <;> omega

theorem frontRank_le : c.frontRank ≤ 6 := by
  unfold frontRank
  split <;> omega

theorem rank_of_mw {instr : Instruction} (h : c.mw = some instr) : c.rank = 1 := by
  simp [rank, h]

theorem rank_le_of_em {instr : Instruction} (h : c.em = some ⟨instr, false⟩) : c.rank ≤ 2 := by
  unfold rank
  split
  · omega
  · simp [h]

theorem rank_le_of_bubble {instr ld : Instruction} (hde : c.de = some ⟨instr, false⟩)
    (hem : c.em = some ⟨ld, true⟩) : c.rank ≤ 3 := by
  unfold rank
  split
  · omega
  · simp [hde, hem]

theorem rank_le_of_de {instr : Instruction} (h : c.de = some ⟨instr, false⟩) : c.rank ≤ 4 := by
  unfold rank
  split
  · omega
  · rcases hem : c.em with - | ⟨ld, - | -⟩ <;> simp [h]

theorem rank_of_front (hmw : c.mw = none) (hem : ∀ instr, c.em ≠ some ⟨instr, false⟩)
    (hde : c.executing env = none) : c.rank = c.deStop + c.frontRank := by
  simp only [rank, hmw, Option.isSome_none, Bool.false_eq_true, if_false]
  rcases hslot : c.em with - | ⟨ld, - | -⟩
  · rcases hde' : c.de with - | ⟨i, - | -⟩
    · rfl
    · simp [executing, hde'] at hde
    · rfl
  · exact absurd hslot (hem ld)
  · rcases hde' : c.de with - | ⟨i, - | -⟩
    · rfl
    · simp [executing, hde'] at hde
    · rfl

section Rank

variable (hinv : c.Inv)
include hinv

theorem rank_le : c.rank ≤ 8 := by
  unfold rank
  have hfront := c.frontRank_le
  split
  · omega
  · rename_i hmw
    split
    · omega
    · omega
    · omega
    · rename_i hem _ _
      have hle : c.deStop ≤ 2 := by
        cases hinv.control with
        | running hde => omega
        | held hde => omega
        | frozen hpos hstop hle instr hslot htype hlive hdone =>
            have hfour : c.deStop ≠ 4 := fun h => hem instr (hlive h)
            have hthree : c.deStop ≠ 3 := fun h => by simp [hdone h] at hmw
            omega
      omega

theorem LoadUse.selfLoad {load ld : Instruction} {fetched : Fetched} {num : RegName}
    (huse : c.LoadUse load fetched num) (hem : c.em = some ⟨ld, true⟩) : c.SelfLoad := by
  obtain ⟨instr, w, r, hde, hfd, hcarries, -⟩ := (hinv.bubble ld hem).held
  have hslot := huse.de
  rw [hde, Option.some.injEq, Slot.mk.injEq] at hslot
  obtain ⟨rfl, -⟩ := hslot
  have hword := huse.fd
  rw [hfd, Option.some.injEq] at hword
  subst hword
  have hread : instr.memAccType = .read := by
    simpa [HazardUnit.isLoad] using huse.isLoad
  have hwrites := huse.writes
  simp only [Instruction.writes, Bool.and_eq_true, decide_eq_true_eq] at hwrites
  refine ⟨instr, _, num, huse, ?_, ?_⟩
  · rw [← hcarries.memAccType, hread]
  · rw [← hcarries.rdName hwrites.1, hwrites.2]

/-- An instruction that executes is two cycles from write-back, or has hit a load-use. -/
private theorem rank_advance_executing {instr : Instruction} (hmw : c.mw = none)
    (hem : ∀ instr, c.em ≠ some ⟨instr, false⟩) (hexec : c.executing env = some instr)
    (hfree : ¬ c.SelfLoad) (h : Stepped env old c accessed decoded word memory) :
    (c.advance env accessed decoded word memory).rank < c.rank := by
  obtain ⟨i, hde, -⟩ := executing_eq_some hexec
  have hnext : (c.advance env accessed decoded word memory).em =
      some ⟨instr, decide (decoded.hits > 0)⟩ := by
    simp [advance, hexec]
  rcases Nat.eq_zero_or_pos decoded.hits with hzero | hpos
  · have htwo : (c.advance env accessed decoded word memory).rank ≤ 2 :=
      rank_le_of_em (hnext.trans (by rw [hzero]; rfl))
    have hthree : 3 ≤ c.rank := by
      simp only [rank, hmw, Option.isSome_none, Bool.false_eq_true, if_false, hde]
      rcases hslot : c.em with - | ⟨ld, - | -⟩
      · simp
      · exact absurd hslot (hem ld)
      · simp
    omega
  · obtain ⟨load, fetched, num, huse⟩ := (hits_pos_iff hinv h.access h.decode).mp hpos
    have hload := huse.executing env hinv
    obtain ⟨-, -, -, -, -, issued, -, -, -, -, hissued, -⟩ := hits_spec hinv h.decode hpos
    have hslot : (c.advance env accessed decoded word memory).de = some ⟨issued, false⟩ := by
      rw [advance_de_running (hinv.deStop_of_live huse.de) hload.exits, hissued, hload.target]
      rfl
    have hthree : (c.advance env accessed decoded word memory).rank ≤ 3 :=
      rank_le_of_bubble hslot (hnext.trans (by rw [decide_eq_true hpos]))
    have hfour : c.rank = 4 := by
      rcases hslot : c.em with - | ⟨ld, - | -⟩
      · simp [rank, hmw, hslot, hde]
      · exact absurd hslot (hem ld)
      · exact absurd (huse.selfLoad hinv hslot) hfree
    omega

private theorem front_of_not_decoding (hdecoding : c.decoding env = none)
    (hrunning : c.deStop + c.exitStop env = 0) : c.frontRank = 6 ∧ c.flush = false := by
  have hdead : ∀ pc w, c.fd ≠ some ⟨pc, w, false⟩ := by
    intro pc w hfd
    simp [decoding, hfd, hrunning] at hdecoding
  constructor
  · unfold frontRank
    split
    · rename_i pc w hfd
      exact absurd hfd (hdead pc w)
    · rfl
  · cases hflush : c.flush with
    | false => rfl
    | true =>
        obtain ⟨pc, w, hfd⟩ := (hinv.flushed hflush).held
        exact absurd hfd (hdead pc w)

private theorem rank_advance_front (hmw : c.mw = none)
    (hem : ∀ instr, c.em ≠ some ⟨instr, false⟩) (hexec : c.executing env = none)
    (h : Stepped env old c accessed decoded word memory) :
    (c.advance env accessed decoded word memory).rank < c.rank := by
  rw [rank_of_front hmw hem hexec]
  have hexits : c.exits env = false := by simp [exits, hexec]
  obtain ⟨htarget, hzero, hhits⟩ := of_not_executing hinv hexec h.decode
  have hmw' : (c.advance env accessed decoded word memory).mw = none := by
    rcases memStage_ok h.access with ⟨i, -, hi, -⟩ | ⟨-, rfl⟩
    · exact absurd hi (hem i)
    · rfl
  have hem' : (c.advance env accessed decoded word memory).em = none := by
    simp [advance, hexec]
  cases hinv.control with
  | held hde hstop instr ld hslot =>
      simp [executing, hslot] at hexec
  | frozen hpos hstop hle instr hslot =>
      have hne : c.stop ≠ 0 := by omega
      have hde' : (c.advance env accessed decoded word memory).executing env = none := by
        rw [executing_congr (advance_de_frozen hpos hexec), hexec]
      have hfd : (c.advance env accessed decoded word memory).fd = c.fd := by
        simp [advance, hne]
      have hdeStop : (c.advance env accessed decoded word memory).deStop = c.deStop - 1 := by
        simp [advance, hzero]
      rw [rank_of_front hmw' (by simp [hem']) hde', hdeStop]
      simp only [frontRank, hfd]
      omega
  | running hde hstop =>
      have hrunning : (c.advance env accessed decoded word memory).de =
          decoded.instr.map fun instr => ⟨instr, (c.target env).isSome⟩ :=
        advance_de_running hde hexits
      have hissued := decodeStage_isSome h.decode
      cases hdecoding : c.decoding env with
      | some fetched =>
          rw [hdecoding, Option.isSome_some, Option.isSome_iff_exists] at hissued
          obtain ⟨instr, hinstr⟩ := hissued
          have hfour : (c.advance env accessed decoded word memory).rank ≤ 4 :=
            rank_le_of_de (hrunning.trans (by rw [hinstr, htarget]; rfl))
          have hfive : c.frontRank = 5 := by
            simp [frontRank, (decoding_eq_some hdecoding).1]
          omega
      | none =>
          rw [hdecoding, Option.isSome_none, Option.isSome_eq_false_iff,
            Option.isNone_iff_eq_none] at hissued
          obtain ⟨hsix, hflush⟩ := front_of_not_decoding hinv hdecoding (by rw [hde, hzero])
          have hfive : (c.advance env accessed decoded word memory).frontRank = 5 := by
            simp [frontRank, advance, hstop, hzero, hhits, hflush, htarget]
          have hde' : (c.advance env accessed decoded word memory).executing env = none := by
            simp [executing, hrunning, hissued]
          have hdeStop : (c.advance env accessed decoded word memory).deStop = 0 := by
            simp [advance, hde, hzero]
          rw [rank_of_front hmw' (by simp [hem']) hde']
          omega

theorem rank_advance (hmw : c.mw = none) (hfree : ¬ c.SelfLoad)
    (h : Stepped env old c accessed decoded word memory) :
    (c.advance env accessed decoded word memory).rank < c.rank := by
  by_cases hlive : ∃ instr, c.em = some ⟨instr, false⟩
  · obtain ⟨instr, hem⟩ := hlive
    rcases memStage_ok h.access with ⟨i, i', -, hmw', -⟩ | ⟨hnone, -⟩
    · have hone : (c.advance env accessed decoded word memory).rank = 1 := rank_of_mw hmw'
      rw [hone]
      simp [rank, hmw, hem]
    · exact absurd hem (hnone instr)
  · rw [not_exists] at hlive
    cases hexec : c.executing env with
    | some instr => exact rank_advance_executing hinv hmw hlive hexec hfree h
    | none => exact rank_advance_front hinv hmw hlive hexec h

end Rank

end Core

namespace PerfSim

variable {env : Env} {s t u : PerfSim} {n : Nat}

/-- A load waits in decode for a load of its own destination that executes. -/
def SelfLoad (s : PerfSim) : Prop :=
  ∃ load num, s.LoadUse load num ∧
    (Decoder.recognize s.fdSt.load.instr).memAccType = .read ∧
    Decoder.numRd s.fdSt.load.instr = num

theorem Good.selfLoad_iff (hgood : s.Good) : s.core.SelfLoad ↔ s.SelfLoad := by
  constructor
  · rintro ⟨load, fetched, num, huse, hread, hrd⟩
    obtain ⟨hlatch, rfl⟩ := hgood.loadAhead_iff.mp huse
    exact ⟨load, num, hlatch, hread, hrd⟩
  · rintro ⟨load, num, huse, hread, hrd⟩
    exact ⟨load, s.fdLoad, num, huse.core, hread, hrd⟩

theorem SelfLoad.cycles (hgood : s.Good) (hself : s.SelfLoad)
    (hrun : PerfSim.cycles env n s = .ok t) : t.SelfLoad := by
  induction n generalizing s with
  | zero =>
      cases hrun
      exact hself
  | succ n ih =>
      obtain ⟨u, hcycle, hrest⟩ := ok_of_bind hrun
      obtain ⟨-, accessed, decoded, word, memory, hstepped, hcore⟩ := hgood.stepped hcycle
      have hnext : u.core.SelfLoad := by
        rw [hcore]
        exact (hgood.selfLoad_iff.mpr hself).advance hgood.pipeline hstepped
      exact ih (hgood.cycle hcycle) ((hgood.cycle hcycle).selfLoad_iff.mp hnext) hrest

theorem SelfLoad.no_retirement (hgood : s.Good) (hself : s.SelfLoad)
    (hrun : PerfSim.cycles env n s = .ok t) {t' t'' u : PerfSim} (hfirst : t.cycle env = .ok t')
    (hsecond : t'.cycle env = .ok t'') (hthird : t''.cycle env = .ok u) :
    u.ic = t''.ic ∧ u.isStop = t''.isStop := by
  have hgood' := hgood.cycles hrun
  obtain ⟨load, num, huse, -⟩ := hself.cycles hgood hrun
  have hmw := hgood'.mw_of_loadUse huse hfirst hsecond
  obtain ⟨-, accessed, decoded, word, memory, -, hcore⟩ :=
    ((hgood'.cycle hfirst).cycle hsecond).stepped hthird
  have hic : u.ic = if t''.core.mw.isSome then t''.ic + 1 else t''.ic := congrArg Core.ic hcore
  have hstop : u.isStop = (t''.isStop || t''.core.mw.any fun instr => instr.name = .ecall) :=
    congrArg Core.isStop hcore
  rw [hmw] at hic hstop
  exact ⟨hic, hstop.trans (Bool.or_false _)⟩

/-! ## What has retired -/

/-- `ic` counts the retired instructions, and `is_stop` says that one was an `ECALL`. -/
structure Ledger (s : PerfSim) : Prop where
  ic : s.ic = s.trace.length
  isStop : s.isStop = s.trace.any fun instr => instr.name = .ecall

theorem Reachable.ledger (h : Reachable env s) : s.Ledger := by
  obtain ⟨memory, pc, values, hreaches⟩ := h
  have hboth := hreaches.invariant (P := fun s => s.Good ∧ s.Ledger) ?_
    ⟨boot_good memory pc values, rfl, rfl⟩
  · exact hboth.2
  · rintro s t ⟨hgood, hledger⟩ - - hcycle
    refine ⟨hgood.cycle hcycle, ?_⟩
    obtain ⟨-, accessed, decoded, word, memory, -, hcore⟩ := hgood.stepped hcycle
    have hic : t.ic = if s.core.mw.isSome then s.ic + 1 else s.ic := congrArg Core.ic hcore
    have hstop : t.isStop = (s.isStop || s.core.mw.any fun instr => instr.name = .ecall) :=
      congrArg Core.isStop hcore
    have htrace : t.trace = s.trace ++ s.core.mw.toList := congrArg Core.trace hcore
    constructor
    · rw [hic, htrace, hledger.ic, List.length_append]
      cases s.core.mw <;> rfl
    · rw [hstop, htrace, hledger.isStop, List.any_append]
      cases s.core.mw <;> simp

theorem ic_le_of_runFor (hgood : s.Good) (hrun : runFor env n s = .ok t) : s.ic ≤ t.ic := by
  induction n generalizing s with
  | zero =>
      cases hrun
      omega
  | succ n ih =>
      rcases runFor_succ hrun with ⟨-, rfl⟩ | ⟨-, u, hcycle, hrest⟩
      · omega
      · have hle := ih (hgood.cycle hcycle) hrest
        obtain ⟨-, accessed, decoded, word, memory, -, hcore⟩ := hgood.stepped hcycle
        have hic : u.ic = if s.core.mw.isSome then s.ic + 1 else s.ic := congrArg Core.ic hcore
        split_ifs at hic <;> omega

theorem retires_of_rank_le (hgood : s.Good) (hrank : s.core.rank ≤ n)
    (hfree : ∀ m t u, m < n → runFor env m s = .ok t → t.isStop = false → t.cycle env = .ok u →
      ¬ t.SelfLoad)
    (hrun : runFor env n s = .ok t) : t.isStop = true ∨ s.ic < t.ic := by
  induction n generalizing s with
  | zero =>
      have hpos := s.core.rank_pos
      omega
  | succ n ih =>
      rcases runFor_succ hrun with ⟨hstop, rfl⟩ | ⟨hstop, u, hcycle, hrest⟩
      · exact .inl hstop
      obtain ⟨-, accessed, decoded, word, memory, hstepped, hcore⟩ := hgood.stepped hcycle
      have hnext := hgood.cycle hcycle
      have hic : u.ic = if s.core.mw.isSome then s.ic + 1 else s.ic := congrArg Core.ic hcore
      cases hmw : s.core.mw with
      | some instr =>
          rw [hmw, Option.isSome_some, if_pos rfl] at hic
          have hle := ic_le_of_runFor hnext hrest
          exact .inr (by omega)
      | none =>
          rw [hmw] at hic
          have hself : ¬ s.core.SelfLoad := fun hself =>
            hfree 0 s u (Nat.succ_pos n) rfl hstop hcycle (hgood.selfLoad_iff.mp hself)
          have hlt := Core.rank_advance hgood.pipeline hmw hself hstepped
          rw [← hcore] at hlt
          have hlater : ∀ m t v, m < n → runFor env m u = .ok t → t.isStop = false →
              t.cycle env = .ok v → ¬ t.SelfLoad := by
            intro m t v hm ht
            refine hfree (m + 1) t v (Nat.succ_lt_succ hm) ?_
            rw [runFor, hstop, hcycle]
            exact ht
          have hu := ih hnext (by omega) hlater hrest
          rw [hic] at hu
          exact hu

section Retirement

variable (h : Reachable env s)
  (hfree : ∀ n t u, runFor env n s = .ok t → t.isStop = false → t.cycle env = .ok u →
    ¬ t.SelfLoad)
include h hfree

theorem retires_in_eight (ht : runFor env n s = .ok t) (hu : runFor env 8 t = .ok u) :
    u.isStop = true ∨ t.ic < u.ic := by
  have hgood := (h.runFor ht).good
  have hlater : ∀ m t' v, m < 8 → runFor env m t = .ok t' → t'.isStop = false →
      t'.cycle env = .ok v → ¬ t'.SelfLoad := by
    intro m t' v _ ht'
    refine hfree (n + m) t' v ?_
    rw [runFor_add, ht]
    exact ht'
  exact retires_of_rank_le hgood (Core.rank_le hgood.pipeline) hlater hu

theorem le_ic_of_rounds (ht : runFor env (8 * n) s = .ok t) :
    t.isStop = true ∨ n ≤ t.ic := by
  induction n generalizing t with
  | zero => exact .inr (Nat.zero_le _)
  | succ n ih =>
      rw [Nat.mul_succ, runFor_add] at ht
      obtain ⟨u, hu, hrest⟩ := ok_of_bind ht
      rcases ih hu with hstop | hle
      · rw [runFor_of_isStop 8 hstop] at hrest
        cases hrest
        exact .inl hstop
      · rcases retires_in_eight h hfree hu hrest with hstop | hlt
        · exact .inl hstop
        · exact .inr (by omega)

end Retirement

/--
In a run no completed cycle of which decodes a load of a register behind a load
of it that it needs: eight rounds from every state retire an instruction, stop or raise, and
so the run ends once its instructions reach an `ECALL`.
-/
theorem no_livelock (h : Reachable env s)
    (hfree : ∀ n t u, runFor env n s = .ok t → t.isStop = false → t.cycle env = .ok u →
      ¬ t.SelfLoad) :
    (∀ n t u, runFor env n s = .ok t → runFor env 8 t = .ok u →
      u.isStop = true ∨ t.ic < u.ic) ∧
    ∀ m, (∀ n t, runFor env n s = .ok t → m ≤ t.ic →
        ∃ instr ∈ t.trace, instr.name = .ecall) →
      ∀ t, runFor env (8 * m) s = .ok t → t.isStop = true := by
  refine ⟨fun n t u ht hu => retires_in_eight h hfree ht hu, fun m hecall t ht => ?_⟩
  rcases le_ic_of_rounds h hfree ht with hstop | hle
  · exact hstop
  · rw [(h.runFor ht).ledger.isStop, List.any_eq_true]
    obtain ⟨instr, hmem, hname⟩ := hecall _ t ht hle
    exact ⟨instr, hmem, decide_eq_true hname⟩

/-- `LW x1, 16(x0); LW x1, 0(x1); ECALL`. -/
def loadChain : PerfSim := bootWords 64 [0x01002083#32, 0x0000a083#32, 0x00000073#32]

theorem loadChain_stuck : ∃ s u, runFor .plain 2 loadChain = .ok s ∧ Reachable .plain s ∧
    s.isStop = false ∧ runFor .plain 8 s = .ok u ∧ ¬ (u.isStop = true ∨ s.ic < u.ic) := by
  obtain ⟨s, hrun, hreach, htest⟩ :=
    checkAfter_spec 2 (fun s => !s.isStop && checkAfter .plain 8 s fun u =>
      !(u.isStop || decide (s.ic < u.ic))) (.boot .plain _ _ _)
      (by decide +kernel : checkAfter .plain 2 loadChain _ = true)
  rw [Bool.and_eq_true, Bool.not_eq_true'] at htest
  obtain ⟨hstop, htest⟩ := htest
  obtain ⟨u, hu, -, hnot⟩ := checkAfter_spec 8 _ hreach htest
  refine ⟨s, u, hrun, hreach, hstop, hu, ?_⟩
  simpa using hnot

/-- A run of `LW x1, 16(x0); ADDI x2, x1, 1; ECALL`: a load-use, but no chain of loads. -/
theorem no_livelock_load :
    let s := bootWords 64 [0x01002083#32, 0x00108113#32, 0x00000073#32]
    (∀ n t u, runFor .plain n s = .ok t → runFor .plain 8 t = .ok u →
      u.isStop = true ∨ t.ic < u.ic) ∧
    ∀ m, (∀ n t, runFor .plain n s = .ok t → m ≤ t.ic →
        ∃ instr ∈ t.trace, instr.name = .ecall) →
      ∀ t, runFor .plain (8 * m) s = .ok t → t.isStop = true := by
  intro s
  have htests := forall_of_checks 11 (fun t => t.isStop ||
    !t.aheadTest Decoder.needs (Decoder.numRd t.fdSt.load.instr))
    (by decide +kernel : checkAfter .plain 11 s PerfSim.isStop = true) (by decide +kernel)
  refine no_livelock (.boot .plain _ _ _) fun n t _ hrun hstop _ hself => ?_
  have htest := htests n t hrun
  obtain ⟨load, num, huse, -, rfl⟩ := hself
  rw [hstop, (loadAhead_iff_test huse.notZero).mp ⟨load, huse⟩] at htest
  cases htest

end PerfSim

end RiscvPerfSim
