import RiscvPerfSim.Core.Drain
import RiscvPerfSim.Core.Encoding
import RiscvPerfSim.Core.Frontend

/-!
# Words without a name

What a word that `recognize` gives no name leaves in the registers and in
memory, next to what the instructions in front of it leave there alone.
-/

namespace RiscvPerfSim

open Foundation

/-! ## Decoded objects without a name -/

namespace Instruction

variable {env : Env} {instr : Instruction} {word : BitVec 32}

theorem Carries.executed_of_load (h : instr.Carries word)
    (hexecutor : (Decoder.recognize word).executor = some .load)
    (htype : (Decoder.recognize word).type = .i) :
    (instr.executed env).rd = instr.rd ∧ (instr.executed env).brIsTaken = instr.brIsTaken := by
  have hi : instr.type = .i := h.type.trans htype
  simp [Instruction.executed, execute, h.executor, hexecutor, Executor.call, Executors.Load,
    dynamicCast, hi, getRs1, getImm, bind, Except.bind, pure, Except.pure]

theorem Carries.executed_unnamed (h : instr.Carries word)
    (hname : (Decoder.recognize word).name = .none) :
    (instr.executed env).rd = instr.rd ∧ (instr.executed env).brIsTaken = instr.brIsTaken := by
  rcases (Decoder.recognize_paired word).kept hname with hexecutor | ⟨hexecutor, htype⟩
  · simp [Instruction.executed, execute, h.executor, hexecutor]
  · exact h.executed_of_load hexecutor htype

theorem Carries.executed_load (h : instr.Carries word) (hload : HazardUnit.isLoad instr = true) :
    (instr.executed env).rd = instr.rd := by
  have hread : (Decoder.recognize word).memAccType = .read := by
    rw [← h.memAccType]
    simpa [HazardUnit.isLoad] using hload
  obtain ⟨htype, -, hexecutor, -⟩ := (Decoder.recognize_sound word).read hread
  exact (h.executed_of_load hexecutor htype).1

/-- Only a flag that the object has kept from an earlier branch makes it jump. -/
theorem Carries.transfers_unnamed (h : instr.Carries word)
    (hname : (Decoder.recognize word).name = .none) :
    PerfSim.transfers instr = true ↔
      (Decoder.recognize word).type = .b ∧ instr.brIsTaken = true := by
  have hflag := (Decoder.recognize_paired word).flagged hname
  rw [← h.isBranch, ← h.type] at hflag
  rw [← h.type]
  cases hb : instr.isBranch with
  | false =>
      rw [hb] at hflag
      have htype : instr.type ≠ .b := fun htype => by simpa using hflag.mpr htype
      simp [PerfSim.transfers, hb, htype]
  | true => simp [PerfSim.transfers, hb, hflag.mp hb]

end Instruction

/-! ## The older instructions alone -/

namespace PerfSim

variable {env : Env} {s s' : PerfSim}

/-- An empty latch in front of decode, and a front end that stays stopped for three cycles: what
is in the pipeline retires, and nothing follows it. -/
def alone (s : PerfSim) : PerfSim :=
  { s with
    fetchSt := { s.fetchSt with stopCount := 3 }
    fdSt := { s.fdSt with load := FD.clear, stopCount := 3 } }

theorem alone_inv (h : s.Inv) : s.alone.Inv where
  named := h.named
  fetchStop := rfl
  emStop := h.emStop
  mwStop := h.mwStop
  emStore := h.emStore
  mwStore := h.mwStore
  deStore := h.deStore
  fetchLoad := h.fetchLoad
  fetchStore := h.fetchStore
  queue := h.queue
  pending := h.pending
  de := h.de
  em := h.em
  mw := h.mw
  mwHazard := h.mwHazard
  frozen := h.frozen
  apart := h.apart

end PerfSim

namespace Core

variable {env : Env} {old : Instruction} {c c' : Core} {accessed : Accessed}
  {decoded : Decoded} {word : BitVec 32} {memory : Memory} {hits : Nat}

/-! ## A stopped front end -/

structure Idle (c : Core) : Prop where
  fd : c.fd = none
  stop : 0 < c.stop
  deStop : c.deStop = 0

theorem Idle.step (hidle : c.Idle) (hexits : c.exits env = false) (h : c.step env old = .ok c') :
    ∃ accessed, Moved env c c' accessed 0 ∧ c'.fd = none ∧ c'.stop = c.stop - 1 ∧
      c'.deStop = 0 ∧ c'.de = none := by
  obtain ⟨accessed, decoded, word, memory, hstepped, rfl⟩ := step_ok h
  have hzero := exitStop_of_not_exits hexits
  have hne : c.stop ≠ 0 := Nat.pos_iff_ne_zero.mp hidle.stop
  have hdecoding : c.decoding env = none := by
    simp [decoding, hidle.fd]
  rcases decodeStage_ok hstepped.decode with ⟨f, hf, -⟩ | ⟨-, rfl⟩
  · rw [hdecoding] at hf
    cases hf
  · refine ⟨accessed, hstepped.moved, ?_, ?_, ?_, ?_⟩
    all_goals simp [advance, hidle.fd, hidle.deStop, hzero, hne]

def accessing (env : Env) (c : Core) (memory : Memory) : Core :=
  { c with
    em := (c.executing env).map fun instr => ⟨instr, false⟩
    memory := memory
    clocks := c.clocks + 1 }

/-- What the instructions in memory access and in execute do with memory, and bring back. -/
structure Older (env : Env) (c : Core) (first second : Accessed) (memory memory' : Memory) :
    Prop where
  access : c.memStage env = .ok first
  drain : ∃ pipeline,
    Pipeline.update first.memory { store := first.pending } = .ok (memory, pipeline)
  access' : (c.accessing env memory).memStage env = .ok second
  drain' : ∃ pipeline,
    Pipeline.update second.memory { store := second.pending } = .ok (memory', pipeline)

def left (c : Core) (first second : Accessed) (num : RegName) : BitVec 32 :=
  settle second.mw num (settle first.mw num (c.exRf.regs num).value)

theorem memStage_congr (hem : c'.em = c.em) (hmemory : c'.memory = c.memory)
    (hclocks : c'.clocks = c.clocks) : c'.memStage env = c.memStage env := by
  simp only [memStage, hem, hmemory, hclocks]

theorem Moved.accessing (h : Moved env c c' accessed 0) :
    (c.accessing env c'.memory).memStage env = c'.memStage env :=
  memStage_congr h.em.symm rfl h.clocks.symm

theorem alone_steps {old1 old2 old3 : Instruction} {u1 u2 u3 : Core} (hde : c.deStop = 0)
    (hexits : c.exits env = false)
    (h1 : ({ c with fd := none, stop := 3 } : Core).step env old1 = .ok u1)
    (h2 : u1.step env old2 = .ok u2) (h3 : u2.step env old3 = .ok u3) :
    ∃ first second memory, c.Older env first second memory u3.memory ∧
      ∀ num, (u3.rf.regs num).value = c.left first second num := by
  have hidle : ({ c with fd := none, stop := 3 } : Core).Idle := ⟨rfl, Nat.succ_pos 2, hde⟩
  obtain ⟨first, hfirst, hfd1, hstop1, hdeStop1, hde1⟩ := hidle.step hexits h1
  replace hstop1 : u1.stop = 2 := hstop1
  have hexec1 : u1.executing env = none := by simp [executing, hde1]
  have hidle1 : u1.Idle := ⟨hfd1, by omega, hdeStop1⟩
  obtain ⟨second, hsecond, hfd2, hstop2, hdeStop2, hde2⟩ :=
    hidle1.step (by simp [exits, hexec1]) h2
  have hidle2 : u2.Idle := ⟨hfd2, by omega, hdeStop2⟩
  obtain ⟨third, hthird, -⟩ := hidle2.step (by simp [exits, executing, hde2]) h3
  have hem2 : u2.em = none := by
    rw [hsecond.em, hexec1]
    rfl
  have hbubble (instr : Instruction) : u2.em ≠ some ⟨instr, false⟩ := by
    rw [hem2]
    exact (Option.some_ne_none _).symm
  obtain ⟨hmemory, -⟩ := hthird.of_idle hbubble
  refine ⟨first, second, u1.memory, ⟨hfirst.access, hfirst.drain, ?_, ?_⟩, fun num => ?_⟩
  · exact hfirst.accessing.trans hsecond.access
  · rw [hmemory]
    exact hsecond.drain
  · rw [hthird.regs, hsecond.value_exRf (by rw [hde2]; rfl), hsecond.killed_em,
      hfirst.value_exRf (by rw [hde1]; rfl), hfirst.killed_em]
    rfl

end Core

/-! ## The word on its way -/

namespace Core

variable {env : Env} {old : Instruction} {c : Core} {accessed : Accessed} {decoded : Decoded}
  {word : BitVec 32} {memory : Memory} {fetched : Fetched} {hits : Nat}

theorem issued_step {c1 : Core} (hinv : c.Inv) (h : c.step env old = .ok c1)
    (hdecoding : c.decoding env = some fetched) :
    ∃ instr first hits, Issued env old c fetched instr ∧
      c1.de = some ⟨instr, (c.target env).isSome⟩ ∧ Moved env c c1 first hits ∧
      (0 < hits ↔ ∃ load fetched num, c.LoadUse load fetched num) := by
  obtain ⟨accessed, decoded, word, memory, hstepped, rfl⟩ := step_ok h
  obtain ⟨instr, -, hissued, hde⟩ := issued_of_decoding hinv hstepped hdecoding
  exact ⟨instr, accessed, decoded.hits, hissued, hde, hstepped.moved,
    hits_pos_iff hinv hstepped.access hstepped.decode⟩

private theorem settle_de {em : Option Instruction} (hinv : c.Inv)
    (hdecode : c.decodeStage env old em = .ok decoded) (htarget : c.target env = none)
    (num : RegName) (value : BitVec 32) :
    settle (killed (c.advance env accessed decoded word memory).de) num value = value := by
  rcases advance_de hinv hdecode with hde | ⟨-, i, htype, -, hde⟩
  · rw [hde, htarget]
    cases decoded.instr <;> rfl
  · rw [hde]
    exact settle_of_not_writes (Instruction.not_writes_of_system htype num)

theorem passed_steps {c1 c2 c3 : Core} {old1 old2 : Instruction} {instr : Instruction}
    (hinv1 : c1.Inv) (h2 : c1.step env old1 = .ok c2) (h3 : c2.step env old2 = .ok c3)
    (hde : c1.de = some ⟨instr, false⟩) (hcarries : instr.Carries word)
    (hname : (Decoder.recognize word).name = .none) (htarget : c1.target env = none) :
    ∃ second, c1.memStage env = .ok second ∧
      (∃ pipeline, Pipeline.update second.memory { store := second.pending } =
        .ok (c3.memory, pipeline)) ∧
      ∀ num, (c3.wbRf.regs num).value =
        settle (some instr) num (settle second.mw num (c1.exRf.regs num).value) := by
  obtain ⟨second, decoded, w, memory, hstepped, rfl⟩ := step_ok h2
  have hexec : c1.executing env = some (instr.executed env) := by
    simp [executing, hde]
  have hfixed : (instr.executed env).fixed = instr.fixed := hcarries.executed_fixed
  have hnone : (instr.executed env).memAccType = .none := by
    rw [Instruction.memAccType_of_fixed hfixed, hcarries.memAccType]
    exact (Decoder.recognize_paired word).access hname
  have hhits : decoded.hits = 0 :=
    hits_of_not_load hinv1 hstepped.decode fun i hi => by
      rw [hexec, Option.some.injEq] at hi
      simp [HazardUnit.isLoad, ← hi, hnone]
  have hmoved := hstepped.moved
  have hem : (c1.advance env second decoded w memory).em =
      some ⟨instr.executed env, false⟩ := by
    rw [hmoved.em, hexec, hhits]
    rfl
  obtain ⟨third, decoded', w', memory', hstepped', rfl⟩ := step_ok h3
  obtain ⟨hmemory, hmw⟩ := hstepped'.moved.of_not_accessing hem hnone
  refine ⟨second, hstepped.access, ?_, fun num => ?_⟩
  · rw [hmemory]
    exact hstepped.drain
  · have hsettle (value : BitVec 32) :
        settle (some (instr.executed env)) num value = settle (some instr) num value := by
      rw [settle, settle, Instruction.writes_of_fixed hfixed, (hcarries.executed_unnamed hname).1]
    rw [value_wbRf, hmw, hsettle, hstepped'.moved.regs, value_exRf, hem, hmoved.mw, hmoved.regs,
      settle_de hinv1 hstepped.decode htarget]
    rfl

/-! ### Next to the older instructions alone -/

section Beside

variable {c1 : Core} {first second first' second' : Accessed} {memory1 memory2 : Memory}
  {load : Instruction} {num : RegName} (hinv : c.Inv)
  (holder : Older env c first second memory1 memory2) (hmoved : Moved env c c1 first' hits)
  (hde : killed c1.de = none) (haccess : c1.memStage env = .ok second')
include holder hmoved

theorem Older.unique : first' = first ∧ c1.memory = memory1 := by
  have hfirst : first' = first := by
    have hok := holder.access
    rw [hmoved.access] at hok
    exact Except.ok.inj hok
  subst hfirst
  obtain ⟨pipeline, hdrain⟩ := holder.drain
  obtain ⟨pipeline', hdrain'⟩ := hmoved.drain
  rw [hdrain'] at hdrain
  cases hdrain
  exact ⟨rfl, rfl⟩

include haccess in
theorem Older.unique_of_flow (hflow : hits = 0) : second' = second := by
  subst hflow
  obtain ⟨-, rfl⟩ := holder.unique hmoved
  have hok := holder.access'
  rw [hmoved.accessing, haccess] at hok
  exact Except.ok.inj hok

include hinv haccess

theorem Older.of_hit (huse : c.LoadUse load fetched num) (hpos : 0 < hits) :
    killed c1.em = some (load.executed env) ∧ second' = ⟨none, memory2, Store.clear⟩ ∧
      ∃ load', second.mw = some load' ∧ load'.fixed = load.fixed := by
  obtain ⟨-, rfl⟩ := holder.unique hmoved
  have hexec := huse.executing env hinv
  obtain ⟨w, hcarries⟩ := hinv.decoded _ huse.de
  have hem : c1.em = some ⟨load.executed env, true⟩ := by
    rw [hmoved.em, hexec.executing]
    simp [hpos]
  have hread : (load.executed env).memAccType = .read := by
    have hload := hexec.isLoad
    simpa [HazardUnit.isLoad] using hload
  have hsecond : second.memory = c1.memory ∧ second.pending = Store.clear ∧
      ∃ load', second.mw = some load' ∧ load'.fixed = load.fixed := by
    rcases memStage_ok holder.access' with ⟨i, i', hi, hmw, hstore, hload⟩ | ⟨hnone, -⟩
    · have hi' : i = load.executed env := by
        simpa [Core.accessing, hexec.executing] using hi.symm
      subst hi'
      rw [storeEffect_of_ne (by rw [hread]; decide), Except.ok.injEq, Prod.mk.injEq] at hstore
      exact ⟨hstore.1.symm, hstore.2.symm, i', hmw,
        (loadEffect_fixed hload).trans hcarries.executed_fixed⟩
    · refine absurd ?_ (hnone (load.executed env))
      simp [Core.accessing, hexec.executing]
  obtain ⟨hmemory, hpending, hmw⟩ := hsecond
  obtain ⟨pipeline, hdrain⟩ := holder.drain'
  rw [hpending, Store.update_eq (Store.fits_clear _), Except.ok.injEq, Prod.mk.injEq] at hdrain
  refine ⟨by rw [hem]; rfl, ?_, hmw⟩
  rw [memStage, hem, Except.ok.injEq] at haccess
  rw [← haccess, ← hdrain.1, hmemory]
  rfl

include hde

theorem Older.value_hit (huse : c.LoadUse load fetched num) (hpos : 0 < hits) :
    settle second'.mw num (c1.exRf.regs num).value = load.rd.value := by
  obtain ⟨hem, rfl, -⟩ := holder.of_hit hinv hmoved haccess huse hpos
  obtain ⟨w, hcarries⟩ := hinv.decoded _ huse.de
  have hwrites := (huse.executing env hinv).writes
  rw [hmoved.value_exRf hde, hem, settle_of_writes hwrites huse.notZero]
  exact congrArg Register.value (hcarries.executed_load huse.isLoad)

theorem Older.value_of_not_hit
    (hnot : 0 < hits → ∃ load fetched num', c.LoadUse load fetched num' ∧ num' ≠ num) :
    settle second'.mw num (c1.exRf.regs num).value = c.left first second num := by
  obtain ⟨rfl, -⟩ := holder.unique hmoved
  rcases Nat.eq_zero_or_pos hits with rfl | hpos
  · rw [holder.unique_of_flow hmoved haccess rfl, hmoved.value_exRf hde, hmoved.killed_em]
    rfl
  · obtain ⟨load, fetched, num', huse, hne⟩ := hnot hpos
    obtain ⟨hem, rfl, load', hmw, hfixed⟩ := holder.of_hit hinv hmoved haccess huse hpos
    obtain ⟨w, hcarries⟩ := hinv.decoded _ huse.de
    have hother : load.writes num = false := by
      have hwrites := huse.writes
      simp only [Instruction.writes, Bool.and_eq_true, decide_eq_true_eq] at hwrites
      simp [Instruction.writes, hwrites.2, hne]
    have hexecuted : (load.executed env).writes num = false := by
      rw [Instruction.writes_of_fixed hcarries.executed_fixed, hother]
    have hloaded : load'.writes num = false := by
      rw [Instruction.writes_of_fixed hfixed, hother]
    rw [hmoved.value_exRf hde, hem, left, hmw, settle_of_not_writes hloaded]
    exact settle_of_not_writes hexecuted

end Beside

theorem Older.memory_eq {c1 : Core} {first second first' second' : Accessed}
    {memory1 memory2 memory' : Memory} {pipeline : Pipeline} (hinv : c.Inv)
    (holder : Older env c first second memory1 memory2) (hmoved : Moved env c c1 first' hits)
    (haccess : c1.memStage env = .ok second')
    (hdrain : Pipeline.update second'.memory { store := second'.pending } = .ok (memory', pipeline))
    (hhits : 0 < hits ↔ ∃ load fetched num, c.LoadUse load fetched num) : memory' = memory2 := by
  rcases Nat.eq_zero_or_pos hits with hflow | hpos
  · obtain ⟨pipeline', hdrain'⟩ := holder.drain'
    rw [← holder.unique_of_flow hmoved haccess hflow, hdrain] at hdrain'
    cases hdrain'
    rfl
  · obtain ⟨load, fetched, num, huse⟩ := hhits.mp hpos
    obtain ⟨-, rfl, -⟩ := holder.of_hit hinv hmoved haccess huse hpos
    rw [Store.update_eq (Store.fits_clear _), Except.ok.injEq, Prod.mk.injEq] at hdrain
    exact hdrain.1.symm

structure Untouched (c : Core) (instr : Instruction) (value : RegName → BitVec 32) : Prop where
  fresh : ∀ num, num ≠ 0 → instr.writes num = true → (c.exRf.regs num).value = value num
  kept : ∀ load fetched num, c.LoadUse load fetched num → instr.writes num = false →
    load.rd.value = value num

theorem Older.values_iff {c1 : Core} {first second first' second' : Accessed}
    {memory1 memory2 : Memory} {instr : Instruction} (hinv : c.Inv)
    (holder : Older env c first second memory1 memory2) (hmoved : Moved env c c1 first' hits)
    (hde : killed c1.de = none) (haccess : c1.memStage env = .ok second')
    (hhits : 0 < hits ↔ ∃ load fetched num, c.LoadUse load fetched num)
    (hissued : Issued env old c fetched instr) :
    (∀ num, settle (some instr) num (settle second'.mw num (c1.exRf.regs num).value) =
        c.left first second num) ↔ c.Untouched instr (c.left first second) := by
  have hcopy {num : RegName} (hwrites : instr.writes num = true) :
      instr.rd.value = (c.exRf.regs num).value := by
    simp only [Instruction.writes, Bool.and_eq_true, decide_eq_true_eq] at hwrites
    rw [hissued.copy hwrites.1, hwrites.2]
  constructor
  · intro hvalues
    refine ⟨fun num hnum hwrites => ?_, fun load f num huse hwrites => ?_⟩
    · rw [← hvalues num, settle_of_writes hwrites hnum, hcopy hwrites]
    · have hpos := hhits.mpr ⟨load, f, num, huse⟩
      rw [← hvalues num, settle_of_not_writes hwrites,
        holder.value_hit hinv hmoved hde haccess huse hpos]
  · rintro ⟨hfresh, hkept⟩ num
    by_cases hnum : num = 0
    · subst hnum
      rw [settle_zero]
      refine holder.value_of_not_hit hinv hmoved hde haccess fun hpos => ?_
      obtain ⟨load, f, num', huse⟩ := hhits.mp hpos
      exact ⟨load, f, num', huse, huse.notZero⟩
    · cases hwrites : instr.writes num with
      | true => rw [settle_of_writes hwrites hnum, hcopy hwrites, hfresh num hnum hwrites]
      | false =>
          rw [settle_of_not_writes hwrites]
          by_cases huse : ∃ load f, c.LoadUse load f num
          · obtain ⟨load, f, huse⟩ := huse
            rw [holder.value_hit hinv hmoved hde haccess huse (hhits.mpr ⟨load, f, num, huse⟩),
              hkept load f num huse hwrites]
          · refine holder.value_of_not_hit hinv hmoved hde haccess fun hpos => ?_
            obtain ⟨load, f, num', huse'⟩ := hhits.mp hpos
            refine ⟨load, f, num', huse', ?_⟩
            rintro rfl
            exact huse ⟨load, f, huse'⟩

end Core

/-! ## The simulator -/

namespace PerfSim

variable {env : Env} {s s1 s2 s3 t u : PerfSim}

/-- Where fetch goes on behind the word in its latch, unless what it reads there is marked. -/
def behind (s : PerfSim) : Option (BitVec 32) :=
  if s.fdSt.store.hazardStall then none
  else some (if s.fetchSt.load.isJump then s.fetchSt.load.pcJump else s.fetchSt.load.pc)

theorem behind_eq_some {pc : BitVec 32} :
    s.behind = some pc ↔ s.core.flush = false ∧ s.core.nextPc = pc := by
  unfold behind core
  cases s.fdSt.store.hazardStall <;> simp

theorem Good.behind_cycle {pc : BitVec 32} (hgood : s.Good) (hcycle : s.cycle env = .ok s1)
    (hstays : s.core.target env = none) (hbehind : s.behind = some pc) :
    (fetched s1.fdSt.load = fetched s.fdSt.load ∧ s1.behind = some pc) ∨
      ∃ word, fetched s1.fdSt.load = some ⟨pc, word, false⟩ := by
  obtain ⟨-, accessed, decoded, word, memory, -, hcore⟩ := hgood.stepped hcycle
  obtain ⟨hflush, rfl⟩ := behind_eq_some.mp hbehind
  have hfd : fetched s1.fdSt.load = s1.core.fd := rfl
  rw [behind_eq_some, hfd, hcore]
  by_cases hstop : s.core.stop + s.core.exitStop env + decoded.hits = 0
  · refine .inr ⟨word, ?_⟩
    simp [Core.advance, hstop, hstays, hflush]
  · refine .inl ⟨?_, ?_, ?_⟩
    · simp only [Core.advance, hstop, if_false]
      rfl
    · simp [Core.advance, hstays, hflush]
    · simp only [Core.advance, hstop, if_false]

/--
The word that `s` holds in its fetch latch, decoded in the cycle from `s` to
`s1`, executed in the next one and written back in that of `s3`, leaves what
the instructions in front of it leave alone, and the path goes straight on.
-/
structure NoOp (env : Env) (s s1 s3 : PerfSim) : Prop where
  absent : ∃ u w, cycles env 3 s.alone = .ok u ∧ s3.writeBack = .ok w ∧ w.memory = u.memory ∧
    ∀ num, (w.rf.regs num).value = (u.rf.regs num).value
  next : s.behind = some (s.fdSt.load.pc + 4)
  falls : ∃ t, s1.untilDecode env = .ok t ∧ t.fetchSt.store.isJump = false

/--
When that is so, `t` being the state that the word is decoded in and `u` the one
in which the instructions in front of it have retired: no flush is pending, the
object that decode recycles has not kept the flag of a taken branch, no
instruction in front changes `rd` any more, and a load that decode stops for
loads what its register holds.
-/
structure Harmless (s t u : PerfSim) : Prop where
  settled : s.fdSt.store.hazardStall = false
  untaken : (Decoder.recognize s.fdSt.load.instr).type = .b → s.leftover.brIsTaken = false
  fresh : ∀ num, num ≠ REGISTER_NAME_ZERO → Decoder.writes s.fdSt.load.instr num = true →
    (t.rf.regs num).value = (u.rf.regs num).value
  kept : ∀ load num, s.LoadUse load num → Decoder.writes s.fdSt.load.instr num = false →
    load.rd.value = (u.rf.regs num).value

theorem falls_iff {instr : Instruction} (hgood : s.Good) (hde : s.core.de = some ⟨instr, false⟩)
    (hcycle : s.cycle env = .ok s1) :
    (∃ t, s.untilDecode env = .ok t ∧ t.fetchSt.store.isJump = false) ↔
      s.core.target env = none := by
  obtain ⟨-, accessed, decoded, word, memory, hstepped, -⟩ := hgood.stepped hcycle
  obtain ⟨pipeline, ht⟩ := untilDecode_eq hgood.latches hstepped.access
  have hexec : s.core.executing env = some (instr.executed env) := by
    rw [Core.executing, hde]
  have hjump := hgood.isJump_eq_false hexec
  have hstore : (s.beforeDecode env accessed pipeline).fetchSt.store =
      jumped (s.core.target env) s.fetchSt.store := rfl
  rw [ht]
  simp only [Except.ok.injEq, exists_eq_left', hstore]
  cases s.core.target env <;> simp [jumped, hjump]

theorem alone_cycles (hgood : s.Good) (hde : s.deSt.stopCount = 0)
    (hexits : s.core.exits env = false) (hrun : cycles env 3 s.alone = .ok u) :
    ∃ first second memory, Core.Older env s.core first second memory u.memory ∧
      ∀ num, (u.rf.regs num).value = s.core.left first second num := by
  obtain ⟨u1, h1, hrun⟩ := ok_of_bind hrun
  obtain ⟨u2, h2, hrun⟩ := ok_of_bind hrun
  obtain ⟨u3, h3, hrun⟩ := ok_of_bind hrun
  cases hrun
  obtain ⟨c1, hstep1, rfl, hinv1⟩ := (cycle_agree env (alone_inv hgood.latches)).of_ok h1
  obtain ⟨c2, hstep2, rfl, hinv2⟩ := (cycle_agree env hinv1).of_ok h2
  obtain ⟨c3, hstep3, rfl, -⟩ := (cycle_agree env hinv2).of_ok h3
  exact Core.alone_steps hde hexits hstep1 hstep2 hstep3

theorem untouched_iff {accessed : Core.Accessed} {pipeline : Pipeline} {instr : Instruction}
    (hgood : s.Good) (hcarries : instr.Carries s.fdSt.load.instr) :
    s.core.Untouched instr (fun num => (u.rf.regs num).value) ↔
      (∀ num, num ≠ REGISTER_NAME_ZERO → Decoder.writes s.fdSt.load.instr num = true →
        ((s.beforeDecode env accessed pipeline).rf.regs num).value = (u.rf.regs num).value) ∧
      ∀ load num, s.LoadUse load num → Decoder.writes s.fdSt.load.instr num = false →
        load.rd.value = (u.rf.regs num).value := by
  constructor
  · rintro ⟨hfresh, hkept⟩
    refine ⟨fun num hnum hwrites => ?_, fun load num huse hwrites => ?_⟩
    · exact hfresh num hnum (by rw [hcarries.writes_eq, hwrites])
    · exact hkept load _ num huse.core (by rw [hcarries.writes_eq, hwrites])
  · rintro ⟨hfresh, hkept⟩
    refine ⟨fun num hnum hwrites => ?_, fun load f num huse hwrites => ?_⟩
    · rw [hcarries.writes_eq] at hwrites
      exact hfresh num hnum hwrites
    · rw [hcarries.writes_eq] at hwrites
      exact hkept load num (hgood.loadAhead_iff.mp huse).1 hwrites

theorem target_unnamed_iff {instr : Instruction} {c : Core} {fetched : Fetched}
    (hde : s1.core.de = some ⟨instr, false⟩) (hissued : Core.Issued env s.leftover c fetched instr)
    (hname : (Decoder.recognize fetched.word).name = .none) :
    s1.core.target env = none ↔
      ((Decoder.recognize fetched.word).type = .b → s.leftover.brIsTaken = false) := by
  have hexec : s1.core.executing env = some (instr.executed env) := by
    rw [Core.executing, hde]
  have hcarries := hissued.carries
  have hexecuted : (instr.executed env).Carries fetched.word := hcarries.executed
  have htransfers := hexecuted.transfers_unnamed hname
  rw [(hcarries.executed_unnamed hname).2] at htransfers
  have htarget : s1.core.target env = none ↔
      PerfSim.transfers (instr.executed env) = false := by
    rw [Core.target, hexec, Option.bind_some, Instruction.target]
    cases PerfSim.transfers (instr.executed env) <;> simp
  rw [htarget, ← Bool.not_eq_true, htransfers, not_and]
  refine forall_congr' fun htype => ?_
  rw [hissued.flag htype, Bool.not_eq_true]

/--
A word without a name that is decoded and not squashed is a no-op exactly when
it is harmless to the instructions around it.
-/
theorem unnamed_iff (h : Reachable env s) (ht : s.untilDecode env = .ok t)
    (hdecodes : t.decodes = true)
    (hname : (Decoder.recognize s.fdSt.load.instr).name = .none) (h1 : s.cycle env = .ok s1)
    (hlive : s1.deSt.load.hazardStall = false) (h2 : s1.cycle env = .ok s2)
    (h3 : s2.cycle env = .ok s3) :
    NoOp env s s1 s3 ↔ ∃ u, cycles env 3 s.alone = .ok u ∧ Harmless s t u := by
  have hgood := h.good
  have hgood1 := hgood.cycle h1
  have hinv := hgood.pipeline
  obtain ⟨accessed, pipeline, haccess, rfl⟩ := untilDecode_ok hgood.latches ht
  have hdecoding := beforeDecode_decodes.mp hdecodes
  obtain ⟨hfd, hstop⟩ := Core.decoding_eq_some hdecoding
  have hde : s.deSt.stopCount = 0 := (Nat.add_eq_zero_iff.mp hstop).1
  have hexits : s.core.exits env = false := by
    cases hexits : s.core.exits env with
    | false => rfl
    | true => simp [Core.exitStop, hexits] at hstop
  obtain ⟨c1, hstep1, rfl, -⟩ := (cycle_agree env hgood.latches).of_ok h1
  obtain ⟨c2, hstep2, rfl, -⟩ := (cycle_agree env hgood1.latches).of_ok h2
  obtain ⟨c3, hstep3, rfl, hinv3⟩ := (cycle_agree env (hgood1.cycle h2).latches).of_ok h3
  obtain ⟨instr, first, hits, hissued, hslot, hmoved, hhits⟩ :=
    Core.issued_step hinv hstep1 hdecoding
  have htarget : s.core.target env = none := by
    obtain ⟨-, hkill, -⟩ := InstrLatch.slotOf_eq_some hslot
    rw [hlive] at hkill
    simpa using hkill.symm
  rw [htarget] at hslot
  replace hslot : s1.core.de = some ⟨instr, false⟩ := hslot
  have hkilled : Core.killed s1.core.de = none := by
    rw [hslot]
    rfl
  have hnext : s.core.nextPc = s.fdSt.load.pc + 4 := h.straight.next _ hfd rfl
  have hbehind : s.behind = some (s.fdSt.load.pc + 4) ↔ s.fdSt.store.hazardStall = false :=
    behind_eq_some.trans (and_iff_left hnext)
  have hfalls := (falls_iff hgood1 hslot h2).trans (target_unnamed_iff hslot hissued hname)
  have hwrite := writeBack_eq hinv3.mw hinv3.mwHazard
  have hsame (u : PerfSim) (hrun : cycles env 3 s.alone = .ok u)
      (hstays : s1.core.target env = none) : s3.memory = u.memory ∧
        ((∀ num, (s3.core.wbRf.regs num).value = (u.rf.regs num).value) ↔
          s.core.Untouched instr fun num => (u.rf.regs num).value) := by
    obtain ⟨first', second', memory, holder, hleft⟩ := alone_cycles hgood hde hexits hrun
    obtain ⟨second, haccess1, ⟨pipeline', hdrain⟩, hvalues⟩ :=
      Core.passed_steps hgood1.pipeline hstep2 hstep3 hslot hissued.carries hname hstays
    refine ⟨holder.memory_eq hinv hmoved haccess1 hdrain hhits, ?_⟩
    have hleft' : (fun num => (u.rf.regs num).value) = s.core.left first' second' := funext hleft
    rw [hleft', ← holder.values_iff hinv hmoved hkilled haccess1 hhits hissued]
    exact forall_congr' fun num => by rw [hvalues, hleft]
  constructor
  · rintro ⟨⟨u, w, hrun, hw, hmemory, hvalues⟩, hgo, hstays⟩
    rw [hwrite] at hw
    cases hw
    obtain ⟨-, hiff⟩ := hsame u hrun ((falls_iff hgood1 hslot h2).mp hstays)
    obtain ⟨hfresh, hkept⟩ := (untouched_iff hgood hissued.carries).mp (hiff.mp hvalues)
    exact ⟨u, hrun, hbehind.mp hgo, hfalls.mp hstays, hfresh, hkept⟩
  · rintro ⟨u, hrun, hsettled, huntaken, hfresh, hkept⟩
    have hstays := hfalls.mpr huntaken
    obtain ⟨hmemory, hiff⟩ := hsame u hrun ((falls_iff hgood1 hslot h2).mp hstays)
    have hvalues := hiff.mpr ((untouched_iff hgood hissued.carries).mpr ⟨hfresh, hkept⟩)
    exact ⟨⟨u, _, hrun, hwrite, hmemory, hvalues⟩, hbehind.mpr hsettled, hstays⟩

def trial (env : Env) (s : PerfSim) (test : PerfSim → PerfSim → Bool) : Bool :=
  match s.untilDecode env, s.cycle env with
  | .ok t, .ok s1 =>
      t.decodes && decide ((Decoder.recognize s.fdSt.load.instr).name = .none) &&
        !s1.deSt.load.hazardStall &&
          match s1.cycle env with
          | .ok s2 =>
              match s2.cycle env, cycles env 3 s.alone with
              | .ok s3, .ok u => test s3 u
              | _, _ => false
          | _ => false
  | _, _ => false

theorem trial_spec {test : PerfSim → PerfSim → Bool} (h : trial env s test = true) :
    ∃ t s1 s2 s3 u, s.untilDecode env = .ok t ∧ t.decodes = true ∧
      (Decoder.recognize s.fdSt.load.instr).name = .none ∧ s.cycle env = .ok s1 ∧
      s1.deSt.load.hazardStall = false ∧ s1.cycle env = .ok s2 ∧ s2.cycle env = .ok s3 ∧
      cycles env 3 s.alone = .ok u ∧ test s3 u = true := by
  unfold trial at h
  split at h
  · rename_i t s1 ht h1
    simp only [Bool.and_eq_true, decide_eq_true_eq, Bool.not_eq_true'] at h
    obtain ⟨⟨⟨hdecodes, hname⟩, hlive⟩, h⟩ := h
    split at h
    · rename_i s2 h2
      split at h
      · rename_i s3 u h3 hu
        exact ⟨t, s1, s2, s3, u, ht, hdecodes, hname, h1, hlive, h2, h3, hu, h⟩
      · cases h
    · cases h
  · cases h

/-- `ADDI x1, x0, 7`, and a multiplication that is to leave `x1` alone. -/
def staleMul : PerfSim := bootWords 64 [0x00700093#32, 0x023100b3#32, 0x00000073#32]

/-- `x1` gets back the value that it had when the multiplication was decoded. -/
theorem staleMul_undoes : ∃ s t s1 s2 s3, Reachable .plain s ∧ s.isStop = false ∧
    s.untilDecode .plain = .ok t ∧ t.decodes = true ∧
    (Decoder.recognize s.fdSt.load.instr).name = .none ∧ s.cycle .plain = .ok s1 ∧
    s1.deSt.load.hazardStall = false ∧ s1.cycle .plain = .ok s2 ∧ s2.cycle .plain = .ok s3 ∧
    ¬ NoOp .plain s s1 s3 := by
  obtain ⟨s, -, hreach, htest⟩ :=
    checkAfter_spec 2 (fun s => !s.isStop && trial .plain s fun s3 u =>
      match s3.writeBack with
      | .ok w => decide ((w.rf.regs 1).value ≠ (u.rf.regs 1).value)
      | _ => false) (.boot .plain _ _ _)
      (by decide +kernel : checkAfter .plain 2 staleMul _ = true)
  rw [Bool.and_eq_true, Bool.not_eq_true'] at htest
  obtain ⟨hstop, htest⟩ := htest
  obtain ⟨t, s1, s2, s3, u, ht, hdecodes, hname, h1, hlive, h2, h3, hu, htest⟩ :=
    trial_spec htest
  refine ⟨s, t, s1, s2, s3, hreach, hstop, ht, hdecodes, hname, h1, hlive, h2, h3, ?_⟩
  rintro ⟨⟨u', w, hu', hw, -, hvalues⟩, -, -⟩
  rw [hu, Except.ok.injEq] at hu'
  subst hu'
  rw [hw] at htest
  exact of_decide_eq_true htest (hvalues 1)

theorem unnamed_iff_mul : ∃ s t s1 s2 s3, Reachable .plain s ∧ s.untilDecode .plain = .ok t ∧
    s.cycle .plain = .ok s1 ∧ s1.cycle .plain = .ok s2 ∧ s2.cycle .plain = .ok s3 ∧
    (NoOp .plain s s1 s3 ↔ ∃ u, cycles .plain 3 s.alone = .ok u ∧ Harmless s t u) := by
  obtain ⟨s, -, hreach, htest⟩ :=
    checkAfter_spec 2 (fun s => trial .plain s fun _ _ => true) (.boot .plain _ _ _)
      (by decide +kernel : checkAfter .plain 2
        (bootWords 64 [0x00700093#32, 0x027302b3#32, 0x00000073#32]) _ = true)
  obtain ⟨t, s1, s2, s3, u, ht, hdecodes, hname, h1, hlive, h2, h3, -, -⟩ := trial_spec htest
  exact ⟨s, t, s1, s2, s3, hreach, ht, h1, h2, h3,
    unnamed_iff hreach ht hdecodes hname h1 hlive h2 h3⟩

end PerfSim

end RiscvPerfSim
