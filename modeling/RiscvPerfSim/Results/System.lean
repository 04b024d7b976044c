import RiscvPerfSim.Core.Drain
import RiscvPerfSim.Core.Frontend
import RiscvPerfSim.Core.Safe

/-!
# SYSTEM words

A SYSTEM word that executes stops the front end and drains.  `ECALL` ends the
run behind it; any other lets the front end go on where it stood.
-/

namespace RiscvPerfSim

open Foundation

/-! ## A front end that stands still -/

namespace Core

variable {env : Env} {old instr : Instruction} {c c' c'' : Core} {done : Option Instruction}
  {k : Nat}

structure Still (c c' : Core) (n : Nat) : Prop where
  fd : c'.fd = c.fd
  next : c'.nextPc = c.nextPc
  flush : c'.flush = c.flush
  stop : c'.stop = n
  deStop : c'.deStop = n
  isStop : c'.isStop = (c.isStop || c.mw.any fun instr => instr.name = .ecall)
  trace : c'.trace = c.trace ++ c.mw.toList
  values : ∀ num, (c'.rf.regs num).value = settle c.mw num (c.rf.regs num).value

theorem value_exRf_system {slot : Slot} (hde : c.de = some slot) (htype : slot.instr.type = .system)
    (hem : killed c.em = none) (num : RegName) :
    (c.exRf.regs num).value = settle c.mw num (c.rf.regs num).value := by
  rw [value_exRf, hem, hde]
  rcases slot with ⟨instr, - | -⟩
  · rfl
  · exact settle_of_not_writes (Instruction.not_writes_of_system htype num)

theorem Inv.killed_em_of_system (hinv : c.Inv) (hde : c.de = some ⟨instr, false⟩)
    (htype : instr.type = .system) : killed c.em = none := by
  rcases hem : c.em with - | ⟨ld, - | -⟩
  · rfl
  · rfl
  · obtain ⟨i, w, num, hi, -, hcarries, hneeds, -⟩ := (hinv.bubble ld hem).held
    rw [hde, Option.some.injEq, Slot.mk.injEq] at hi
    obtain ⟨rfl, -⟩ := hi
    exact absurd (hcarries.type ▸ htype) (Decoder.not_system_of_needs hneeds)

theorem freeze (hinv : c.Inv) (hde : c.de = some ⟨instr, false⟩) (htype : instr.type = .system)
    (h : c.step env old = .ok c') :
    c.decoding env = none ∧ Still c c' 4 ∧ c'.flush = false ∧ c'.de = some ⟨instr, true⟩ ∧
      c'.em = some ⟨instr, false⟩ ∧
      c'.mw.map Instruction.fixed = (live c.em).map Instruction.fixed := by
  obtain ⟨accessed, decoded, word, memory, hstepped, rfl⟩ := step_ok h
  obtain ⟨w, hcarries⟩ := hinv.decoded _ hde
  have hexec : c.executing env = some instr := by
    simp only [executing, hde, hcarries.executed_system htype]
  have hexits : c.exits env = true := by
    simp [exits, hexec, htype]
  have hfive := exitStop_of_exits hexits
  have hdecoding : c.decoding env = none := by
    cases hdecoding : c.decoding env with
    | none => rfl
    | some fetched =>
        have hzero := (decoding_eq_some hdecoding).2
        omega
  have hflush := flush_of_executing hinv hexec
  have hkilled := hinv.killed_em_of_system hde htype
  cases hinv.phase hstepped.decode with
  | exit hdeStop hstop _ htarget hidle =>
      subst hidle
      refine ⟨hdecoding, ⟨?_, ?_, ?_, ?_, ?_, rfl, rfl, ?_⟩, ?_, ?_, ?_, ?_⟩
      case refine_6 => exact value_exRf_system hde htype hkilled
      case refine_10 =>
        rcases live_accessed hstepped.access with ⟨hem, hmw⟩ | ⟨i, i', hem, hmw, hfixed⟩
        · rw [hem, show (c.advance env accessed _ word memory).mw = accessed.mw from rfl, hmw]
        · rw [hem, show (c.advance env accessed _ word memory).mw = accessed.mw from rfl, hmw]
          exact congrArg some hfixed
      all_goals simp [advance, hdeStop, hstop, hfive, htarget, hflush, hexec, hexits, hde]
  | flow _ _ hnot => rw [hnot] at hexits; cases hexits
  | hit _ _ hnot => rw [hnot] at hexits; cases hexits
  | held _ _ hnot => rw [hnot] at hexits; cases hexits
  | frozen _ _ _ hnone => rw [hnone] at hexec; cases hexec

theorem thaw {word : BitVec 32} {n : Nat} (old : Instruction) (hcarries : instr.Carries word)
    (htype : instr.type = .system) (hde : c.de = some ⟨instr, true⟩) (hstop : c.stop = n + 1)
    (hdeStop : c.deStop = n + 1) (hem : c.em = none ∨ c.em = some ⟨instr, false⟩) :
    c.decoding env = none ∧ ∃ c', c.step env old = .ok c' ∧ Still c c' n ∧ c'.de = c.de ∧
      c'.em = none ∧ c'.mw = live c.em ∧ c'.memory = c.memory := by
  have hnone : instr.memAccType = .none := by
    rw [hcarries.memAccType]
    exact ((Decoder.recognize_sound word).system (hcarries.type ▸ htype)).1
  have haccess : c.memStage env = .ok ⟨live c.em, c.memory, Store.clear⟩ := by
    rcases hem with hem | hem
    · simp only [memStage, hem, live]
    · have hwrite : instr.memAccType ≠ .write := by
        rw [hnone]
        decide
      have hread : instr.memAccType ≠ .read := by
        rw [hnone]
        decide
      simp only [memStage, hem, live, storeEffect_of_ne hwrite, loadEffect_of_ne hread, bind,
        Except.bind]
      rfl
  have hexec : c.executing env = none := by
    simp only [executing, hde]
  have hexits : c.exits env = false := by
    simp [exits, hexec]
  have hzero := exitStop_of_not_exits hexits
  have hdecoding : c.decoding env = none := by
    cases hdecoding : c.decoding env with
    | none => rfl
    | some fetched =>
        have hrunning := (decoding_eq_some hdecoding).2
        omega
  have hkilled : killed c.em = none := by
    rcases hem with hem | hem <;> rw [hem] <;> rfl
  have hstep : c.step env old = .ok (c.advance env ⟨live c.em, c.memory, Store.clear⟩
      ⟨none, c.exRf, 0⟩ 0 c.memory) := by
    have hne : c.stop + c.exitStop env + 0 ≠ 0 := by omega
    simp only [step, haccess, decodeStage, hdecoding, fetchStage, hne, if_false,
      Store.update_eq (Store.fits_clear c.memory), bind, Except.bind]
    rfl
  refine ⟨hdecoding, _, hstep, ⟨?_, ?_, ?_, ?_, ?_, rfl, rfl, ?_⟩, ?_, ?_, rfl, rfl⟩
  case refine_6 => exact value_exRf_system hde htype hkilled
  all_goals simp [advance, hdeStop, hstop, hzero, target, hexec, hexits, hde]

/--
`k` cycles after a SYSTEM word has started to execute in `c`: what was in memory
access then is `done`, and retires in front of the word.
-/
structure Drained (c : Core) (instr : Instruction) (done : Option Instruction) (k : Nat)
    (c' : Core) : Prop where
  fd : c'.fd = c.fd
  next : c'.nextPc = c.nextPc
  flush : c'.flush = false
  stop : c'.stop = 5 - k
  deStop : c'.deStop = 5 - k
  de : c'.de = some ⟨instr, true⟩
  em : c'.em = if k = 1 then some ⟨instr, false⟩ else none
  mw : c'.mw = if k = 1 then done else if k = 2 then some instr else none
  isStop : c'.isStop = decide (3 ≤ k ∧ instr.name = .ecall)
  trace : c'.trace = c.trace ++ c.mw.toList ++ (if 2 ≤ k then done.toList else []) ++
    if 3 ≤ k then [instr] else []
  values : ∀ num, (c'.rf.regs num).value =
    if 2 ≤ k then settle done num (settle c.mw num (c.rf.regs num).value)
    else settle c.mw num (c.rf.regs num).value

theorem Drained.next_cycle {word : BitVec 32} (old : Instruction)
    (h : Drained c instr done k c') (hcarries : instr.Carries word) (htype : instr.type = .system)
    (hdone : (done.any fun instr => instr.name = .ecall) = false) (hk : 1 ≤ k) (hle : k ≤ 4) :
    c'.decoding env = none ∧ ∃ c'', c'.step env old = .ok c'' ∧ Drained c instr done (k + 1) c'' ∧
      c''.memory = c'.memory := by
  have hem : c'.em = none ∨ c'.em = some ⟨instr, false⟩ := by
    rw [h.em]
    split_ifs
    · exact .inr rfl
    · exact .inl rfl
  obtain ⟨hdecoding, c'', hstep, hstill, hde, hem', hmw, hmemory⟩ :=
    thaw (n := 4 - k) old hcarries htype h.de (by rw [h.stop]; omega) (by rw [h.deStop]; omega) hem
  have hcases : k = 1 ∨ k = 2 ∨ k = 3 ∨ k = 4 := by omega
  refine ⟨hdecoding, c'', hstep, ?_, hmemory⟩
  constructor
  case fd => rw [hstill.fd, h.fd]
  case next => rw [hstill.next, h.next]
  case flush => rw [hstill.flush, h.flush]
  case stop =>
    rw [hstill.stop]
    omega
  case deStop =>
    rw [hstill.deStop]
    omega
  case de => rw [hde, h.de]
  case em => rw [hem', if_neg (by omega : ¬ k + 1 = 1)]
  case mw =>
    rw [hmw, h.em]
    rcases hcases with rfl | rfl | rfl | rfl <;> rfl
  case isStop =>
    rw [hstill.isStop, h.isStop, h.mw]
    rcases hcases with rfl | rfl | rfl | rfl <;> simp [hdone]
  case trace =>
    rw [hstill.trace, h.trace, h.mw]
    rcases hcases with rfl | rfl | rfl | rfl <;> simp
  case values =>
    intro num
    have hinstr (value : BitVec 32) : settle (some instr) num value = value :=
      settle_of_not_writes (Instruction.not_writes_of_system htype num)
    rw [hstill.values, h.values, h.mw]
    rcases hcases with rfl | rfl | rfl | rfl
    · rfl
    · exact hinstr _
    · rfl
    · rfl

private theorem any_ecall_of_not_system {x : Option Instruction}
    (hcarries : ∀ i, x = some i → ∃ word, i.Carries word)
    (hnot : ∀ i, x = some i → i.type ≠ .system) :
    (x.any fun instr => instr.name = .ecall) = false := by
  cases hx : x with
  | none => rfl
  | some i =>
      obtain ⟨word, hword⟩ := hcarries i hx
      rw [Option.any_some, decide_eq_false_iff_not]
      intro hname
      exact hnot i hx (hword.type.trans
        ((Decoder.recognize_sound word).ecall (hword.name.symm.trans hname)))

theorem drained_first (hinv : c.Inv) (hstraight : c.Straight) (hrun : c.isStop = false)
    (hde : c.de = some ⟨instr, false⟩) (htype : instr.type = .system)
    (h : c.step env old = .ok c') :
    c.decoding env = none ∧ ∃ done, Drained c instr done 1 c' ∧
      done.map Instruction.fixed = (live c.em).map Instruction.fixed ∧
      (done.any fun instr => instr.name = .ecall) = false := by
  obtain ⟨hdecoding, hstill, hflush, hde', hem, hmw⟩ := freeze hinv hde htype h
  have hrunning := hinv.deStop_of_live hde
  have hfirst : (c.mw.any fun instr => instr.name = .ecall) = false := by
    refine any_ecall_of_not_system hinv.accessed fun i hi hsystem => ?_
    have hthree := hstraight.mw i hi hsystem
    omega
  have hsecond : (c'.mw.any fun instr => instr.name = .ecall) = false := by
    have hlive {i' : Instruction} (hi' : c'.mw = some i') :
        ∃ i, c.em = some ⟨i, false⟩ ∧ i'.fixed = i.fixed := by
      rw [hi', Option.map_some, eq_comm, Option.map_eq_some_iff] at hmw
      obtain ⟨i, hi, hfixed⟩ := hmw
      exact ⟨i, live_iff.mp hi, hfixed.symm⟩
    refine any_ecall_of_not_system (fun i' hi' => ?_) fun i' hi' hsystem => ?_
    · obtain ⟨i, hi, hfixed⟩ := hlive hi'
      obtain ⟨word, hcarries⟩ := hinv.executed _ hi
      exact ⟨word, hcarries.of_fixed hfixed⟩
    · obtain ⟨i, hi, hfixed⟩ := hlive hi'
      have hfour := hstraight.em _ hi ((Instruction.type_of_fixed hfixed).symm.trans hsystem)
      omega
  refine ⟨hdecoding, c'.mw, ?_, hmw, hsecond⟩
  constructor
  case fd => exact hstill.fd
  case next => exact hstill.next
  case flush => exact hflush
  case stop => exact hstill.stop
  case deStop => exact hstill.deStop
  case de => exact hde'
  case em => exact hem
  case mw => rfl
  case isStop =>
    rw [hstill.isStop, hrun, hfirst]
    simp
  case trace =>
    rw [hstill.trace]
    simp
  case values => exact hstill.values

end Core

/-! ## Runs of the simulator -/

namespace PerfSim

variable {env : Env} {s s1 s' t : PerfSim} {instr : Instruction} {done : Option Instruction}
  {k : Nat}

theorem Good.decodes_iff {accessed : Core.Accessed} (hgood : s.Good)
    (haccess : s.core.memStage env = .ok accessed) :
    ∃ t, s.untilDecode env = .ok t ∧
      (t.decodes = true ↔ s.core.decoding env = some s.fdLoad) := by
  obtain ⟨pipeline, ht⟩ := untilDecode_eq hgood.latches haccess
  exact ⟨_, ht, beforeDecode_decodes⟩

theorem Good.idle (hgood : s.Good) (hcycle : s.cycle env = .ok s')
    (hdecoding : s.core.decoding env = none) :
    ∃ t, s.untilDecode env = .ok t ∧ t.decodes = false := by
  obtain ⟨-, accessed, decoded, word, memory, hstepped, -⟩ := hgood.stepped hcycle
  obtain ⟨t, ht, hiff⟩ := hgood.decodes_iff hstepped.access
  rw [hdecoding] at hiff
  exact ⟨t, ht, by simpa using hiff⟩

/-- The instruction in memory access reaches outside memory, and raises. -/
def Faults (env : Env) (s : PerfSim) : Prop :=
  (∃ older, s.emSt.load.instrOf s.decoder = some older ∧ ¬ older.InRange s.memory) ∧
    ∃ e, s.cycle env = .error e

theorem Good.faults_or_cycle (env : Env) (hgood : s.Good)
    (hde : s.deSt.load.instrOf s.decoder = some instr) (htype : instr.type = .system) :
    Faults env s ∨ ∃ s1, s.cycle env = .ok s1 := by
  cases hcycle : s.cycle env with
  | ok s1 => exact .inr ⟨s1, rfl⟩
  | error e =>
      refine .inl ⟨?_, e, hcycle⟩
      by_contra hrange
      have hsafe : s.Safe := by
        constructor
        case storeUse =>
          intro load num huse
          have hload := huse.de
          rw [hde, Option.some.injEq] at hload
          subst hload
          rw [instrOf_de] at hde
          obtain ⟨word, hcarries⟩ := hgood.pipeline.decoded _ (Core.live_iff.mp hde)
          have hi := (hcarries.of_isLoad huse.isLoad).1
          rw [htype] at hi
          cases hi
        case access =>
          intro older holder
          by_contra hout
          exact hrange ⟨older, holder, hout⟩
        case fetch => exact fun hsystem => absurd htype (hsystem instr hde)
      have hok : ∃ s1, s.cycle env = .ok s1 := hgood.cycle_ok_iff.mpr hsafe
      obtain ⟨s1, hok⟩ := hok
      rw [hok] at hcycle
      cases hcycle

theorem Reachable.drained (h : Reachable env s) (hrun : s.isStop = false)
    (hde : s.deSt.load.instrOf s.decoder = some instr) (htype : instr.type = .system)
    (hcycle : s.cycle env = .ok s1) :
    (∃ t, s.untilDecode env = .ok t ∧ t.decodes = false) ∧
      ∃ done, done.map Instruction.fixed =
          (s.emSt.load.instrOf s.decoder).map Instruction.fixed ∧
        ∀ k, k ≤ 4 → ∃ r, cycles env (k + 1) s = .ok r ∧ r.Good ∧
          Core.Drained s.core instr done (k + 1) r.core ∧ r.memory = s1.memory ∧
          (k < 4 → ∃ t, r.untilDecode env = .ok t ∧ t.decodes = false) := by
  have hgood := h.good
  rw [instrOf_de] at hde
  replace hde := Core.live_iff.mp hde
  obtain ⟨word, hcarries⟩ := hgood.pipeline.decoded _ hde
  obtain ⟨c1, hstep, rfl, -⟩ := (cycle_agree env hgood.latches).of_ok hcycle
  obtain ⟨hdecoding, done, hfirst, hfixed, hecall⟩ :=
    Core.drained_first hgood.pipeline h.straight hrun hde htype hstep
  refine ⟨hgood.idle hcycle hdecoding, done, by rw [instrOf_em]; exact hfixed, fun k hk => ?_⟩
  -- every state is drained; that decode is idle in it comes from the cycle that leaves it
  have hleave {k : Nat} {r : PerfSim} (hk : k < 4) (hr : r.Good)
      (hdrained : Core.Drained s.core instr done (k + 1) r.core) :
      ∃ r', r.cycle env = .ok r' ∧ (∃ t, r.untilDecode env = .ok t ∧ t.decodes = false) ∧
        Core.Drained s.core instr done (k + 2) r'.core ∧ r'.memory = r.memory := by
    obtain ⟨hidle, c', hstep', hnext, hmemory⟩ :=
      hdrained.next_cycle r.leftover hcarries htype hecall (Nat.succ_pos k) (by omega)
    obtain ⟨r', hcycle', rfl, -⟩ := (cycle_agree env hr.latches).of_ok_right hstep'
    exact ⟨r', hcycle', hr.idle hcycle' hidle, hnext, hmemory⟩
  induction k with
  | zero =>
      refine ⟨s1, ?_, hgood.cycle hcycle, hfirst, rfl, fun hlt => ?_⟩
      · exact cycles_snoc rfl hcycle
      · obtain ⟨-, -, hidle, -⟩ := hleave hlt (hgood.cycle hcycle) hfirst
        exact hidle
  | succ k ih =>
      obtain ⟨r, hr, hrgood, hdrained, hmemory, -⟩ := ih (by omega)
      obtain ⟨r', hcycle', -, hnext, hmemory'⟩ := hleave (by omega) hrgood hdrained
      refine ⟨r', cycles_snoc hr hcycle', hrgood.cycle hcycle', hnext, by rw [hmemory', hmemory],
        fun hlt => ?_⟩
      obtain ⟨-, -, hidle, -⟩ := hleave hlt (hrgood.cycle hcycle') hnext
      exact hidle

theorem runFor_eq_cycles {n : Nat} (h : ∀ k < n, ∃ r, cycles env k s = .ok r ∧ r.isStop = false) :
    runFor env n s = cycles env n s := by
  induction n generalizing s with
  | zero => rfl
  | succ n ih =>
      obtain ⟨r, hr, hrun⟩ := h 0 (Nat.succ_pos n)
      cases hr
      unfold PerfSim.runFor cycles
      rw [hrun]
      cases hcycle : s.cycle env with
      | error e => rfl
      | ok t =>
          refine ih fun k hk => ?_
          obtain ⟨r, hr, hstop⟩ := h (k + 1) (by omega)
          rw [cycles, hcycle] at hr
          exact ⟨r, hr, hstop⟩

/-! ## ECALL -/

/--
The run from the cycle of an `ECALL`, which leads from `s` to `s1`: nothing is
decoded any more, `done` and the instruction in write-back retire in front of the
`ECALL`, and nothing but these two writes to memory and registers.
-/
structure Halts (env : Env) (s s1 s3 : PerfSim) (done : Option Instruction)
    (ecall : Instruction) : Prop where
  idle : ∀ k < 3, ∃ r t, cycles env k s = .ok r ∧ r.isStop = false ∧
    r.untilDecode env = .ok t ∧ t.decodes = false
  stops : s3.isStop = true
  ends : ∀ n, runFor env (3 + n) s = .ok s3
  older : done.map Instruction.fixed = (s.emSt.load.instrOf s.decoder).map Instruction.fixed
  retired : s3.trace =
    s.trace ++ (s.mwSt.load.instrOf s.decoder).toList ++ done.toList ++ [ecall]
  memory : s3.memory = s1.memory
  released : ∀ num, s3.rf.isLock num = 0
  values : ∀ num, (s3.rf.regs num).value =
    Core.settle done num
      (Core.settle (s.mwSt.load.instrOf s.decoder) num (s.rf.regs num).value)

theorem Good.system_of_ecall {ecall : Instruction} (hgood : s.Good)
    (hde : s.deSt.load.instrOf s.decoder = some ecall) (hname : ecall.name = .ecall) :
    ecall.type = .system := by
  rw [instrOf_de] at hde
  obtain ⟨word, hcarries⟩ := hgood.pipeline.decoded _ (Core.live_iff.mp hde)
  exact hcarries.type.trans
    ((Decoder.recognize_sound word).ecall (hcarries.name.symm.trans hname))

theorem Reachable.halts {ecall : Instruction} (h : Reachable env s) (hrun : s.isStop = false)
    (hcycle : s.cycle env = .ok s1) (hde : s.deSt.load.instrOf s.decoder = some ecall)
    (hname : ecall.name = .ecall) : ∃ s3 done, Halts env s s1 s3 done ecall := by
  have htype := h.good.system_of_ecall hde hname
  obtain ⟨hfirst, done, hfixed, hdrained⟩ := h.drained hrun hde htype hcycle
  have hidle : ∀ k < 3, ∃ r t, cycles env k s = .ok r ∧ r.isStop = false ∧
      r.untilDecode env = .ok t ∧ t.decodes = false := by
    intro k hk
    cases k with
    | zero =>
        obtain ⟨t, ht, hdecodes⟩ := hfirst
        exact ⟨s, t, rfl, hrun, ht, hdecodes⟩
    | succ k =>
        obtain ⟨r, hr, -, hcore, -, hnext⟩ := hdrained k (by omega)
        obtain ⟨t, ht, hdecodes⟩ := hnext (by omega)
        refine ⟨r, t, hr, ?_, ht, hdecodes⟩
        rw [show r.isStop = r.core.isStop from rfl, hcore.isStop, decide_eq_false_iff_not]
        omega
  obtain ⟨s3, hs3, hgood, hcore, hmemory, -⟩ := hdrained 2 (by omega)
  have hstop : s3.isStop = true := by
    rw [show s3.isStop = s3.core.isStop from rfl, hcore.isStop]
    simp [hname]
  refine ⟨s3, done, hidle, hstop, fun n => ?_, hfixed, hcore.trace, hmemory, fun num => ?_,
    hcore.values⟩
  · rw [runFor_add, runFor_eq_cycles, hs3]
    · exact runFor_of_isStop n hstop
    · intro k hk
      obtain ⟨r, t, hr, hgoes, -⟩ := hidle k hk
      exact ⟨r, hr, hgoes⟩
  · have hem : s3.core.em = none := hcore.em
    have hmw : s3.core.mw = none := hcore.mw
    have hclaims : s3.core.claims num = 0 := by
      rw [Core.claims, hcore.de, hem, hmw, Option.map_some, Core.claim_some,
        Instruction.not_writes_of_system htype]
      rfl
    refine (hgood.pipeline.locks num).trans ?_
    rw [hclaims]
    split_ifs <;> rfl

structure Ended (env : Env) (s s0 : PerfSim) (ecall : Instruction) : Prop where
  reachable : Reachable env s0
  live : s0.deSt.load.instrOf s0.decoder = some ecall
  name : ecall.name = .ecall
  run : runFor env 3 s0 = .ok s

theorem Reachable.ended (h : Reachable env s) (hstop : s.isStop = true) :
    ∃ s0 ecall, Ended env s s0 ecall := by
  rcases h.last with ⟨memory, pc, values, rfl⟩ | ⟨r2, hr2, hrun2, hcycle2⟩
  · cases hstop
  obtain ⟨-, accessed2, decoded2, word2, memory2, -, hcore⟩ := hr2.good.stepped hcycle2
  have hretired : (r2.core.isStop || r2.core.mw.any fun instr => instr.name = .ecall) = true := by
    rw [← hstop, show s.isStop = s.core.isStop from rfl, hcore]
    rfl
  rw [show r2.core.isStop = false from hrun2, Bool.false_or, Option.any_eq_true] at hretired
  obtain ⟨i2, hmw, hname2⟩ := hretired
  -- from write-back to memory access
  rcases hr2.last with ⟨memory, pc, values, rfl⟩ | ⟨r1, hr1, hrun1, hcycle1⟩
  · cases hmw
  obtain ⟨-, accessed, decoded, word, memory, hstepped1, hcore1⟩ := hr1.good.stepped hcycle1
  rw [hcore1, show (r1.core.advance env accessed decoded word memory).mw = accessed.mw from rfl]
    at hmw
  rcases Core.live_accessed hstepped1.access with ⟨-, hnone⟩ | ⟨i1, i2', hem, hmw', hfixed⟩
  · rw [hnone] at hmw
    cases hmw
  obtain rfl : i2' = i2 := by
    rw [hmw'] at hmw
    exact Option.some.inj hmw
  -- from memory access to execute
  rcases hr1.last with ⟨memory, pc, values, rfl⟩ | ⟨r0, hr0, hrun0, hcycle0⟩
  · cases hem
  obtain ⟨-, accessed0, decoded0, word0, memory0, -, hcore0⟩ := hr0.good.stepped hcycle0
  have hslot := Core.live_iff.mp hem
  rw [hcore0] at hslot
  obtain ⟨x, hexec, hx⟩ := Option.map_eq_some_iff.mp hslot
  obtain rfl : x = i1 := congrArg Slot.instr hx
  obtain ⟨i, w, hde, -, -, -, hfixed0⟩ := Core.executing_spec hr0.good.pipeline hexec
  refine ⟨r0, i, hr0, ?_, ?_, ?_⟩
  · rw [instrOf_de]
    exact Core.live_iff.mpr hde
  · rw [← Instruction.name_of_fixed hfixed0, ← Instruction.name_of_fixed hfixed]
    exact of_decide_eq_true hname2
  · simp only [PerfSim.runFor, hrun0, hrun1, hrun2, hcycle0, hcycle1, hcycle2, bind, Except.bind,
      Bool.false_eq_true, if_false]

/-! ## Other SYSTEM words, and squashed ones -/

/-- A slot marked in front of execute stops nothing, and goes no further. -/
structure Skips (env : Env) (s : PerfSim) : Prop where
  counts : ∀ t, s.untilDecode env = .ok t → t.fetchSt.stopCount = s.fetchSt.stopCount ∧
    t.fdSt.stopCount = s.fdSt.stopCount ∧ t.deSt.stopCount = s.deSt.stopCount
  bubble : ∀ s1, s.cycle env = .ok s1 → s1.emSt.load.isStall = true

theorem Good.skips (hgood : s.Good)
    (hkilled : s.deSt.load.slotOf s.decoder = some ⟨instr, true⟩) : Skips env s := by
  have hexec : s.core.executing env = none := by
    rw [Core.executing, show s.core.de = some ⟨instr, true⟩ from hkilled]
  have hzero : s.core.exitStop env = 0 :=
    Core.exitStop_of_not_exits (by simp [Core.exits, hexec])
  constructor
  case counts =>
    intro t ht
    obtain ⟨accessed, pipeline, -, rfl⟩ := untilDecode_ok hgood.latches ht
    refine ⟨?_, ?_, ?_⟩
    · change s.fetchSt.stopCount + s.core.exitStop env = _
      rw [hzero]
      rfl
    · change s.fdSt.stopCount + s.core.exitStop env = _
      rw [hzero]
      rfl
    · change s.deSt.stopCount + s.core.exitStop env = _
      rw [hzero]
      rfl
  case bubble =>
    intro s1 hcycle
    obtain ⟨hinv1, accessed, decoded, word, memory, -, hcore⟩ := hgood.stepped hcycle
    have hem : s1.core.em = none := by
      rw [hcore, Core.advance, hexec]
      rfl
    cases hstall : s1.emSt.load.isStall with
    | true => rfl
    | false =>
        obtain ⟨ptr, w, hptr, -⟩ := hinv1.em hstall
        rw [show s1.core.em = s1.emSt.load.slotOf s1.decoder from rfl,
          InstrLatch.slotOf_of_ptr _ hstall hptr] at hem
        cases hem

/--
The run from the cycle of another SYSTEM word: decode stands still for five
cycles, execute gets nothing in the five after its own, and then the word behind
it, which the latch has kept, is decoded while fetch goes on.
-/
structure Thaws (env : Env) (s : PerfSim) (instr : Instruction) (word : BitVec 32) : Prop where
  behind : fetched s.fdSt.load = some ⟨instr.pc + 4, word, false⟩
  stands : ∀ k ≤ 5, ∃ r t, cycles env k s = .ok r ∧ r.isStop = false ∧
    fetched r.fdSt.load = some ⟨instr.pc + 4, word, false⟩ ∧
    (0 < k → r.deSt.load.instrOf r.decoder = none) ∧
    r.untilDecode env = .ok t ∧ (t.decodes = true ↔ k = 5)
  goes : ∀ r r', cycles env 5 s = .ok r → r.cycle env = .ok r' → ∃ next word',
    r'.deSt.load.instrOf r'.decoder = some next ∧ next.Carries word ∧ next.pc = instr.pc + 4 ∧
      fetched r'.fdSt.load = some ⟨instr.pc + 8, word', false⟩

theorem resumed_decoding (env : Env) {c : Core} {fetched : Fetched}
    (h : Core.Drained c instr done 5 s.core) (hfd : c.fd = some fetched)
    (hlive : fetched.killed = false) :
    s.core.executing env = none ∧ s.core.decoding env = some fetched := by
  have hexec : s.core.executing env = none := by
    simp only [Core.executing, h.de]
  have hzero : s.core.exitStop env = 0 :=
    Core.exitStop_of_not_exits (by simp [Core.exits, hexec])
  refine ⟨hexec, ?_⟩
  rcases fetched with ⟨pc, word, killed⟩
  dsimp only at hlive
  subst hlive
  have hrunning : s.core.deStop = 0 := h.deStop
  simp only [Core.decoding, h.fd.trans hfd, hrunning, hzero, if_true]

theorem Good.goes {c : Core} {pc word : BitVec 32} (hgood : s.Good)
    (h : Core.Drained c instr done 5 s.core) (hfd : c.fd = some ⟨pc, word, false⟩)
    (hnext : c.nextPc = pc + 4) (hcycle : s.cycle env = .ok s') :
    ∃ next word', s'.deSt.load.instrOf s'.decoder = some next ∧ next.Carries word ∧
      next.pc = pc ∧ fetched s'.fdSt.load = some ⟨pc + 4, word', false⟩ := by
  obtain ⟨-, accessed, decoded, word', memory, hstepped, hcore⟩ := hgood.stepped hcycle
  obtain ⟨hexec, hdecoding⟩ := resumed_decoding env h hfd rfl
  obtain ⟨next, -, hissued, hde⟩ :=
    Core.issued_of_decoding hgood.pipeline hstepped hdecoding
  obtain ⟨htarget, hzero, hhits⟩ := Core.of_not_executing hgood.pipeline hexec hstepped.decode
  refine ⟨next, word', ?_, hissued.carries, hissued.pc, ?_⟩
  · rw [instrOf_de, hcore, hde, htarget]
    rfl
  · have hstop : s.core.stop = 0 := h.stop
    have hflush := h.flush
    rw [show fetched s'.fdSt.load = s'.core.fd from rfl, hcore]
    simp [Core.advance, hstop, hzero, hhits, hflush, htarget, h.next, hnext]

theorem Reachable.thaws (h : Reachable env s) (hrun : s.isStop = false)
    (hcycle : s.cycle env = .ok s1) (hde : s.deSt.load.instrOf s.decoder = some instr)
    (htype : instr.type = .system) (hname : instr.name ≠ .ecall) :
    ∃ word, Thaws env s instr word := by
  have hslot := hde
  rw [instrOf_de] at hslot
  obtain ⟨word, hfd⟩ := h.straight.system instr (Core.live_iff.mp hslot) htype
  obtain ⟨hfirst, done, -, hdrained⟩ := h.drained hrun hde htype hcycle
  have hlast : ∃ r, cycles env 5 s = .ok r ∧ r.Good ∧ Core.Drained s.core instr done 5 r.core := by
    obtain ⟨r, hr, hgood, hcore, -⟩ := hdrained 4 (by omega)
    exact ⟨r, hr, hgood, hcore⟩
  have hthawed : ∀ k < 5, ∃ r t, cycles env (k + 1) s = .ok r ∧
      Core.Drained s.core instr done (k + 1) r.core ∧ r.untilDecode env = .ok t ∧
        (t.decodes = true ↔ k = 4) := by
    intro k hk
    obtain ⟨r, hr, hgood, hcore, -, hidle⟩ := hdrained k (by omega)
    by_cases hlt : k < 4
    · obtain ⟨t, ht, hdecodes⟩ := hidle hlt
      refine ⟨r, t, hr, hcore, ht, ?_⟩
      rw [hdecodes]
      simp only [Bool.false_eq_true, false_iff]
      omega
    · obtain rfl : k = 4 := by omega
      have hem : r.core.em = none := hcore.em
      have haccess : r.core.memStage env = .ok ⟨none, r.core.memory, Store.clear⟩ := by
        simp only [Core.memStage, hem]
      obtain ⟨t, ht, hiff⟩ := hgood.decodes_iff haccess
      obtain ⟨-, hdecoding⟩ := resumed_decoding env hcore hfd rfl
      have hlatch : r.fdLoad = ⟨instr.pc + 4, word, false⟩ :=
        fdLoad_of_fetched (hcore.fd.trans hfd)
      refine ⟨r, t, hr, hcore, ht, ?_⟩
      rw [hiff, hdecoding, hlatch]
      simp
  refine ⟨word, hfd, fun k hk => ?_, fun r r' hr hr' => ?_⟩
  · cases k with
    | zero =>
        obtain ⟨t, ht, hdecodes⟩ := hfirst
        exact ⟨s, t, rfl, hrun, hfd, fun hpos => by omega, ht, by simp [hdecodes]⟩
    | succ k =>
        obtain ⟨r, t, hr, hcore, ht, hiff⟩ := hthawed k (by omega)
        refine ⟨r, t, hr, ?_, hcore.fd.trans hfd, fun _ => ?_, ht, ?_⟩
        · rw [show r.isStop = r.core.isStop from rfl, hcore.isStop]
          simp [hname]
        · rw [instrOf_de, hcore.de]
          rfl
        · rw [hiff]
          omega
  · obtain ⟨r5, hr5, hgood, hcore⟩ := hlast
    rw [hr, Except.ok.injEq] at hr5
    subst hr5
    have hnext := h.straight.next _ hfd rfl
    have hgoes := hgood.goes hcore hfd hnext hr'
    rw [BitVec.add_assoc] at hgoes
    exact hgoes

/-! ## All of them -/

/--
SYSTEM words in a reachable state: `ECALL` ends the run, precisely and alone,
unless the access of an older instruction raises in its very cycle; a squashed
one does nothing; any other holds the front end back for five cycles.
-/
theorem system_precise (h : Reachable env s) :
    (∀ ecall, s.isStop = false → s.deSt.load.instrOf s.decoder = some ecall →
      ecall.name = .ecall →
        Faults env s ∨ ∃ s1 s3 done, s.cycle env = .ok s1 ∧ Halts env s s1 s3 done ecall) ∧
    (∀ instr, s.deSt.load.slotOf s.decoder = some ⟨instr, true⟩ → Skips env s) ∧
    (s.isStop = true → ∃ s0 ecall, Ended env s s0 ecall) ∧
    ∀ instr, s.isStop = false → s.deSt.load.instrOf s.decoder = some instr →
      instr.type = .system → instr.name ≠ .ecall →
        Faults env s ∨ ∃ word, Thaws env s instr word := by
  refine ⟨fun ecall hrun hde hname => ?_, fun _ hkilled => h.good.skips hkilled,
    fun hstop => h.ended hstop, fun instr hrun hde htype hname => ?_⟩
  · have htype := h.good.system_of_ecall hde hname
    rcases h.good.faults_or_cycle env hde htype with hfaults | ⟨s1, hcycle⟩
    · exact .inl hfaults
    · obtain ⟨s3, done, hhalts⟩ := h.halts hrun hcycle hde hname
      exact .inr ⟨s1, s3, done, hcycle, hhalts⟩
  · rcases h.good.faults_or_cycle env hde htype with hfaults | ⟨s1, hcycle⟩
    · exact .inl hfaults
    · exact .inr (h.thaws hrun hcycle hde htype hname)

theorem system_precise_ecall : ∃ s s1 s3 done ecall,
    runFor .plain 3 (bootWords 64 [0x00700093#32, 0x00000073#32]) = .ok s ∧
      s.deSt.load.instrOf s.decoder = some ecall ∧ ecall.name = .ecall ∧
      s.cycle .plain = .ok s1 ∧ Halts .plain s s1 s3 done ecall := by
  obtain ⟨s, hs, hreach, htest⟩ :=
    checkAfter_spec 3 (fun s => (!s.isStop && passes (s.cycle .plain) fun _ => true) &&
      (s.deSt.load.instrOf s.decoder).any fun instr => instr.name = .ecall)
      (.boot .plain _ _ _)
      (by decide +kernel : checkAfter .plain 3
        (bootWords 64 [0x00700093#32, 0x00000073#32]) _ = true)
  simp only [Bool.and_eq_true, Bool.not_eq_true', Option.any_eq_true, decide_eq_true_eq] at htest
  obtain ⟨⟨hrun, hpasses⟩, ecall, hde, hname⟩ := htest
  obtain ⟨s1, hcycle, -⟩ := passes_iff.mp hpasses
  rcases (system_precise hreach).1 ecall hrun hde hname with
    ⟨-, e, herror⟩ | ⟨s1', s3, done, hcycle', hhalts⟩
  · rw [hcycle] at herror
    cases herror
  · exact ⟨s, s1', s3, done, ecall, hs, hde, hname, hcycle', hhalts⟩

end PerfSim

end RiscvPerfSim
