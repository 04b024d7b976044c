import RiscvPerfSim.Core.LoadUse
import RiscvPerfSim.Core.Sequential

/-!
# The pipeline follows the sequential run

Between two cycles the instructions in the latches are consecutive instructions
of the sequential run: each latch holds what the run makes of its instruction up
to that stage, the register file is that of the oldest of them, memory that of
the one in front of memory access, and fetch stands behind the youngest.
-/

namespace RiscvPerfSim

open Foundation

namespace Instruction

variable {a b : Instruction}

theorem Same.writes (h : a.Same b) (num : RegName) : a.writes num = b.writes num := by
  unfold Instruction.writes
  rw [← h.type]
  cases hrd : a.type.writesRd with
  | false => rfl
  | true => rw [h.rdName hrd]

theorem Alike.writes (h : a.Alike b) (num : RegName) : a.writes num = b.writes num := by
  unfold Instruction.writes
  rw [← h.type]
  cases hrd : a.type.writesRd with
  | false => rfl
  | true => rw [h.rdName hrd]

theorem Same.outcome (h : a.Same b) : a.outcome = b.outcome := by
  unfold Instruction.outcome
  rw [h.pc, ← h.type]
  split_ifs with hrd
  · rw [h.rdValue hrd]
  · rfl

end Instruction

namespace Core

/-! ## Positions in the run -/

section Positions

variable (c : Core)

def mwIndex : Nat := c.trace.length

def emIndex : Nat := c.mwIndex + c.mw.toList.length

def deIndex : Nat := c.emIndex + (live c.em).toList.length

def fdIndex : Nat := c.deIndex + (live c.de).toList.length

end Positions

/-! ## The relation -/

inductive Front (q : Seq) (c : Core) : Prop
  | fetched (hfd : c.fd = some ⟨q.pc, q.word, false⟩) (hpc : c.nextPc = q.pc + 4)
  | awaited (hfd : ∀ pc word, c.fd ≠ some ⟨pc, word, false⟩) (hpc : c.nextPc = q.pc)

inductive Closing (n : Nat) (c : Core) : Prop
  | decoded (instr : Instruction) (hde : c.de = some ⟨instr, false⟩)
      (htype : instr.type = .system)
  | executed (hstop : c.deStop = 4)
  | accessed (hstop : c.deStop = 3) (hem : c.em = none)
  | retired (hmw : n < c.mwIndex)

structure Follows (env : Env) (q : Nat → Seq) (instr : Nat → Instruction) (n : Nat)
    (c : Core) : Prop where
  regs : ∀ num, (c.rf.regs num).value = ((q c.mwIndex).rf.regs num).value
  memory : c.memory = (q c.emIndex).memory
  trace : c.trace.map Instruction.outcome =
    (List.range c.mwIndex).map fun k => (instr k).outcome
  mw : ∀ a, c.mw = some a → c.mwIndex ≤ n ∧ a.Same (instr c.mwIndex)
  em : ∀ slot, c.em = some slot → slot.killed = false ∧ c.emIndex ≤ n ∧
    slot.instr.Alike ((q c.emIndex).executing env)
  de : ∀ a, c.de = some ⟨a, false⟩ → c.deIndex ≤ n ∧ a.Carries (q c.deIndex).word ∧
    a.Primed ((q c.deIndex).decode (q c.deIndex).word)
  /-- Behind a transfer that is still to execute fetch may be anywhere. -/
  front : c.target env = none → c.fdIndex ≤ n → c.Front (q c.fdIndex)
  bound : c.fdIndex ≤ n + 1
  closing : n < c.fdIndex → c.Closing n
  flush : c.flush = false
  isStop : c.isStop = true ↔ n < c.mwIndex

/-- What the sequential run cannot see: loads that are hit, stale copies and stray fetches. -/
structure Smooth (env : Env) (c : Core) : Prop where
  loadUse : ∀ load fetched num, ¬ c.LoadUse load fetched num
  storeUse : ∀ load fetched num, ¬ c.StoreUse load fetched num
  fresh : ∀ instr, c.de = some ⟨instr, true⟩ → ∀ num, num ≠ 0 →
    instr.writes num = true → instr.rd.value = c.due num
  fetch : c.stop + c.exitStop env = 0 → c.nextPc.toNat + 4 ≤ c.memory.size

variable {env : Env} {memory : Memory} {pc : BitVec 32} {values : RegName → BitVec 32}
  {q : Nat → Seq} {instr : Nat → Instruction} {n : Nat} {old : Instruction} {c : Core}
  {accessed : Accessed} {decoded : Decoded} {word : BitVec 32}

theorem Follows.boot (hexec : Execution env memory pc values q instr n) :
    (PerfSim.boot memory pc values).core.Follows env q instr n where
  regs := fun num => by
    change _ = ((q 0).rf.regs num).value
    rw [hexec.start]
    rfl
  memory := by
    change _ = (q 0).memory
    rw [hexec.start]
    rfl
  trace := rfl
  mw := fun a h => by cases h
  em := fun slot h => by cases h
  de := fun a h => by cases h
  front := fun _ _ => by
    refine .awaited (fun pc word h => by cases h) ?_
    change _ = (q 0).pc
    rw [hexec.start]
    rfl
  bound := Nat.zero_le _
  closing := fun h => absurd h (Nat.not_lt_zero n)
  flush := rfl
  isStop := iff_of_false (fun h => by cases h) (Nat.not_lt_zero n)

section Stages

variable (hexec : Execution env memory pc values q instr n) (hinv : c.Inv)
  (h : c.Follows env q instr n) (hrun : c.isStop = false)
include h

/-! ## What the stages make of the latches -/

theorem Follows.mwIndex_le (hrun : c.isStop = false) : c.mwIndex ≤ n := by
  by_contra hlt
  rw [h.isStop.mpr (by omega)] at hrun
  cases hrun

theorem Follows.stop_eq (hinv : c.Inv) : c.stop = c.deStop := by
  cases hinv.control with
  | running hde hstop => rw [hde, hstop]
  | frozen hpos hstop => exact hstop
  | held hde hstop instr ld hslot hreads hbubble =>
      have hkilled := (h.em _ hbubble).1
      cases hkilled

omit h in
theorem idle_of_deStop (env : Env) (hinv : c.Inv) (hpos : 0 < c.deStop) :
    c.executing env = none := by
  cases hinv.control with
  | running hde => omega
  | held hde => omega
  | frozen _ _ _ i hslot => simp [executing, hslot]

theorem Follows.target_of_stopped (hinv : c.Inv) (hstop : c.stop + c.exitStop env ≠ 0) :
    c.target env = none := by
  cases hexits : c.exits env with
  | true =>
      obtain ⟨i, -, -, -, htarget⟩ := exits_spec hinv hexits
      exact htarget
  | false =>
      rw [exitStop_of_not_exits hexits, h.stop_eq hinv] at hstop
      simp [target, idle_of_deStop env hinv (Nat.pos_of_ne_zero hstop)]

theorem Follows.regs_wbRf (hexec : Execution env memory pc values q instr n) (num : RegName) :
    (c.wbRf.regs num).value = ((q c.emIndex).rf.regs num).value := by
  unfold wbRf emIndex
  cases hmw : c.mw with
  | none => exact h.regs num
  | some a =>
      obtain ⟨hle, hsame⟩ := h.mw a hmw
      change ((c.rf.release a).regs num).value = ((q (c.mwIndex + 1)).rf.regs num).value
      rw [(hexec.stepped hle).regs, RegFile.regs_release, hsame.writes]
      split_ifs with hwrites
      · apply hsame.rdValue
        have htype := hwrites.1
        rw [← hsame.writes] at htype
        exact (Bool.and_eq_true_iff.mp htype).1
      · exact h.regs num

theorem Follows.regs_exRf (hexec : Execution env memory pc values q instr n)
    (hfresh : ∀ instr, c.de = some ⟨instr, true⟩ → ∀ num, num ≠ 0 →
      instr.writes num = true → instr.rd.value = c.due num) (num : RegName) :
    (c.exRf.regs num).value = ((q c.emIndex).rf.regs num).value := by
  have hmem : c.memRf = c.wbRf := by
    rcases hem : c.em with - | ⟨a, - | -⟩
    · rw [memRf, hem, RegFile.squash_none]
    · rw [memRf, hem, RegFile.squash_live]
    · have hkilled := (h.em _ hem).1
      cases hkilled
  rw [← h.regs_wbRf hexec, exRf, hmem]
  rcases hde : c.de with - | ⟨a, - | -⟩
  · rw [RegFile.squash_none]
  · rw [RegFile.squash_live]
  · rw [RegFile.squash_killed]
    exact regs_release_wbRf_iff.mpr (hfresh a hde) num

structure Accesses (env : Env) (q : Nat → Seq) (instr : Nat → Instruction) (c : Core)
    (accessed : Accessed) : Prop where
  access : c.memStage env = .ok accessed
  mw : ∀ a, accessed.mw = some a → a.Same (instr c.emIndex)
  drain : Pipeline.update accessed.memory { store := accessed.pending } =
    .ok ((q c.deIndex).memory, {})
  memory : ∃ k, c.emIndex ≤ k ∧ k ≤ c.deIndex ∧ accessed.memory = (q k).memory

theorem Follows.accesses (hexec : Execution env memory pc values q instr n) (hinv : c.Inv) :
    ∃ accessed, Accesses env q instr c accessed := by
  rcases hem : c.em with - | ⟨a, - | -⟩
  · have hindex : c.deIndex = c.emIndex := by simp [deIndex, hem, live]
    refine ⟨⟨none, c.memory, Store.clear⟩, ?_, ?_, ?_, c.emIndex, le_rfl, hindex.ge, h.memory⟩
    · simp only [memStage, hem]
    · intro a ha
      cases ha
    · rw [hindex, ← h.memory]
      rfl
  · obtain ⟨-, hle, halike⟩ := h.em _ hem
    obtain ⟨word, hcarries⟩ := hinv.executed _ hem
    have hstepped := hexec.stepped hle
    have hindex : c.deIndex = c.emIndex + 1 := by simp [deIndex, hem, live]
    have hfits := hstepped.fits
    have hmemory := hstepped.memory
    rw [← halike.pending, ← h.memory] at hfits hmemory
    obtain ⟨written, store, hstore, hdrain, hwritten⟩ :=
      hcarries.storeEffect_fits env hfits
    obtain ⟨a', hload, hsame⟩ := halike.loadEffect env c.clocks hcarries hstepped.load
    -- an instruction that loads does not store
    have hload' : loadEffect env c.clocks written a = .ok a' := by
      rw [← hload, hmemory]
      rcases hwritten with rfl | rfl
      · by_cases hread : a.memAccType = .read
        · rw [Instruction.pending, if_neg (by simp [hread])]
          rfl
        · rw [loadEffect_of_ne hread, loadEffect_of_ne hread]
      · rfl
    refine ⟨⟨some a', written, store⟩, ?_, ?_, ?_, ?_⟩
    · simp only [memStage, hem, hstore, hload', bind, Except.bind]
      rfl
    · rintro b hb
      cases hb
      exact hsame
    · rw [hindex, hmemory]
      exact hdrain
    · rcases hwritten with rfl | rfl
      · exact ⟨c.emIndex, le_rfl, by omega, h.memory⟩
      · exact ⟨c.emIndex + 1, by omega, by omega, hmemory.symm⟩
  · have hkilled := (h.em _ hem).1
    cases hkilled

theorem Follows.executing (hexec : Execution env memory pc values q instr n)
    {a : Instruction} (ha : c.executing env = some a) :
    c.deIndex ≤ n ∧ c.fdIndex = c.deIndex + 1 ∧ a.Alike ((q c.deIndex).executing env) := by
  obtain ⟨i, hde, rfl⟩ := executing_eq_some ha
  obtain ⟨hle, hcarries, hprimed⟩ := h.de i hde
  refine ⟨hle, by simp [fdIndex, hde, live], ?_⟩
  exact hprimed.executed (hexec.recognised _ hle) hcarries
    (Seq.decode_carries (hexec.named (by omega)) _)

theorem Follows.pc_next (hexec : Execution env memory pc values q instr n)
    {a : Instruction} (ha : c.executing env = some a) :
    (q c.fdIndex).pc = a.target.getD ((q c.deIndex).pc + 4) := by
  obtain ⟨hle, hindex, halike⟩ := h.executing hexec ha
  rw [hindex, (hexec.stepped hle).pc, halike.target]

omit h in
theorem fdIndex_of_idle (hidle : c.executing env = none) : c.fdIndex = c.deIndex := by
  rw [live_de env, Option.map_eq_none_iff] at hidle
  simp [fdIndex, hidle]

omit h in
theorem Accesses.deIndex_eq (haccess : Accesses env q instr c accessed) :
    c.deIndex = c.emIndex + accessed.mw.toList.length := by
  unfold deIndex
  rcases live_accessed haccess.access with ⟨hem, hmw⟩ | ⟨a, a', hem, hmw, -⟩
  · rw [hem, hmw]
  · rw [hem, hmw]
    rfl

theorem Follows.regs_deIndex (hexec : Execution env memory pc values q instr n)
    (haccess : Accesses env q instr c accessed)
    (hregs : ∀ num, (c.exRf.regs num).value = ((q c.emIndex).rf.regs num).value)
    {num : RegName} (hnum : num ≠ 0) :
    (match feeds accessed.mw num with
      | some a => a.rd.value
      | none => (c.exRf.regs num).value) = ((q c.deIndex).rf.regs num).value := by
  have hindex := haccess.deIndex_eq
  have hbound := h.bound
  cases hmw : accessed.mw with
  | none =>
      rw [hmw] at hindex
      rw [hindex]
      exact hregs num
  | some a =>
      have hsame := haccess.mw a hmw
      rw [hmw] at hindex
      have hle : c.emIndex ≤ n := by
        have hfd : c.deIndex ≤ c.fdIndex := Nat.le_add_right _ _
        simp only [Option.toList_some, List.length_singleton] at hindex
        omega
      rw [hindex]
      change _ = ((q (c.emIndex + 1)).rf.regs num).value
      cases hwrites : a.writes num with
      | true =>
          rw [hexec.regs_of_writes hle (by rw [← hsame.writes, hwrites]) hnum, feeds,
            Option.filter_some, if_pos hwrites]
          exact hsame.rdValue (Bool.and_eq_true_iff.mp hwrites).1
      | false =>
          rw [hexec.regs_of_not_writes hle (by rw [← hsame.writes, hwrites]), feeds,
            Option.filter_some, if_neg (by simp [hwrites])]
          exact hregs num

theorem Follows.bypassed (hexec : Execution env memory pc values q instr n)
    (haccess : Accesses env q instr c accessed)
    (hregs : ∀ num, (c.exRf.regs num).value = ((q c.emIndex).rf.regs num).value)
    {num : RegName} (hclear : ∀ ld, c.executing env = some ld → HazardUnit.isLoad ld = true →
      ld.writes num = true → num = 0) :
    c.bypassed env accessed.mw num = ((q c.fdIndex).rf.regs num).value := by
  have hbound := h.bound
  unfold Core.bypassed
  by_cases hnum : num = 0
  · subst hnum
    rw [if_pos rfl]
    exact (hexec.zero hbound).symm
  · rw [if_neg hnum]
    have hde := h.regs_deIndex hexec haccess hregs hnum
    cases ha : c.executing env with
    | none =>
        rw [fdIndex_of_idle ha]
        exact hde
    | some a =>
        obtain ⟨hle, hindex, halike⟩ := h.executing hexec ha
        have hstepped := hexec.stepped hle
        have hwritesEq : (instr c.deIndex).writes num = a.writes num := by
          rw [Instruction.writes_of_fixed hstepped.fixed, ← halike.writes]
        rw [hindex]
        cases hwrites : a.writes num with
        | true =>
            rw [hexec.regs_of_writes hle (hwritesEq.trans hwrites) hnum, feeds,
              Option.filter_some, if_pos hwrites]
            have hload : a.memAccType ≠ .read := fun hread =>
              hnum (hclear a ha (by simp [HazardUnit.isLoad, hread]) hwrites)
            have hsame := hstepped.load
            rw [loadEffect_of_ne (by rw [← halike.memAccType]; exact hload),
              Except.ok.injEq] at hsame
            rw [← hsame]
            exact halike.rdValue (Bool.and_eq_true_iff.mp hwrites).1 hload
        | false =>
            rw [hexec.regs_of_not_writes hle (hwritesEq.trans hwrites), feeds,
              Option.filter_some, if_neg (by simp [hwrites])]
            exact hde

theorem Follows.decodes (old : Instruction)
    (hexec : Execution env memory pc values q instr n) (hinv : c.Inv) (hsmooth : c.Smooth env)
    (haccess : Accesses env q instr c accessed) :
    ∃ decoded, c.decodeStage env old accessed.mw = .ok decoded ∧ decoded.hits = 0 ∧
      (c.decoding env = some ⟨(q c.fdIndex).pc, (q c.fdIndex).word, false⟩ →
        ∃ a, decoded.instr = some a ∧ a.Carries (q c.fdIndex).word ∧
          a.Primed ((q c.fdIndex).decode (q c.fdIndex).word)) := by
  obtain ⟨decoded, hdecode, hhits, hissues⟩ :=
    decodeStage_clear hinv hsmooth.loadUse hsmooth.storeUse old haccess.access
  refine ⟨decoded, hdecode, hhits, fun hdecoding => ?_⟩
  have hclear (num : RegName) (hreads : Decoder.reads (q c.fdIndex).word num = true) :=
    not_load_of_reads hinv hsmooth.loadUse hsmooth.storeUse hdecoding hreads
  have hregs := h.regs_exRf hexec hsmooth.fresh
  have hnamed := hexec.named h.bound
  obtain ⟨rs1, rs2, hinstr, hrs1, hrs2⟩ := hissues _ hdecoding
  refine ⟨_, hinstr, ?_, ?_⟩
  · exact (Decoder.fill_carries _ _ _ _ (exRf_named hinv.named _)).setPc _
  · apply Instruction.fill_primed
    case h1 =>
      intro hreads
      rw [hrs1 hreads]
      exact h.bypassed hexec haccess hregs (hclear _ (Decoder.reads_rs1 hreads))
    case h2 =>
      intro hreads
      rw [hrs2 hreads]
      exact h.bypassed hexec haccess hregs (hclear _ (Decoder.reads_rs2 hreads))
    case hrd => rw [exRf_named hinv.named, hnamed]

theorem Follows.fetches (hexec : Execution env memory pc values q instr n)
    (hfetch : c.stop + c.exitStop env = 0 → c.nextPc.toNat + 4 ≤ c.memory.size)
    (haccess : Accesses env q instr c accessed) :
    ∃ word, fetchStage accessed.memory c.nextPc (c.stop + c.exitStop env) = .ok word ∧
      (c.stop + c.exitStop env = 0 → ∀ j, c.fdIndex ≤ j → j ≤ n → c.nextPc = (q j).pc →
        word = (q j).word) := by
  unfold fetchStage
  by_cases hstop : c.stop + c.exitStop env = 0
  · have hbound := h.bound
    have hde : c.deIndex ≤ c.fdIndex := Nat.le_add_right _ _
    obtain ⟨k, hlow, hhigh, hmemory⟩ := haccess.memory
    have hrange := hfetch hstop
    rw [h.memory, hexec.size (by omega), ← hexec.size (k := k) (by omega)] at hrange
    rw [if_pos hstop, hmemory]
    refine ⟨_, Memory.read_of_inRange 0 hrange, fun _ j hfd hj hpc => ?_⟩
    have hread := hexec.read_later (k := k) (by omega) hj
    rw [← hpc, Memory.read_of_inRange 0 hrange] at hread
    exact Except.ok.inj hread
  · rw [if_neg hstop]
    exact ⟨0, rfl, fun h => absurd h hstop⟩

end Stages

/-! ## The state after the cycle -/

section Advance

variable {memory' : Memory}

theorem mwIndex_advance :
    (c.advance env accessed decoded word memory').mwIndex = c.emIndex := by
  simp [mwIndex, emIndex, advance]

theorem emIndex_advance (haccess : Accesses env q instr c accessed) :
    (c.advance env accessed decoded word memory').emIndex = c.deIndex := by
  rw [emIndex, mwIndex_advance, haccess.deIndex_eq]
  rfl

theorem deIndex_advance (haccess : Accesses env q instr c accessed) (hhits : decoded.hits = 0) :
    (c.advance env accessed decoded word memory').deIndex = c.fdIndex := by
  rw [deIndex, emIndex_advance haccess, fdIndex]
  congr 1
  simp only [advance, hhits, live_de]
  cases live c.de <;> rfl

theorem fdIndex_advance (haccess : Accesses env q instr c accessed) (hhits : decoded.hits = 0) :
    (c.advance env accessed decoded word memory').fdIndex = c.fdIndex +
      (live (c.advance env accessed decoded word memory').de).toList.length := by
  rw [fdIndex, deIndex_advance haccess hhits]

structure Produces (env : Env) (q : Nat → Seq) (instr : Nat → Instruction) (n : Nat)
    (old : Instruction) (c : Core) (accessed : Accessed) (decoded : Decoded)
    (word : BitVec 32) : Prop extends Accesses env q instr c accessed where
  decode : c.decodeStage env old accessed.mw = .ok decoded
  hits : decoded.hits = 0
  regs : ∀ num, (c.exRf.regs num).value = ((q c.emIndex).rf.regs num).value
  issued : c.decoding env = some ⟨(q c.fdIndex).pc, (q c.fdIndex).word, false⟩ →
    ∃ a, decoded.instr = some a ∧ a.Carries (q c.fdIndex).word ∧
      a.Primed ((q c.fdIndex).decode (q c.fdIndex).word)
  word : c.stop + c.exitStop env = 0 → ∀ j, c.fdIndex ≤ j → j ≤ n →
    c.nextPc = (q j).pc → word = (q j).word

inductive Moves (env : Env) (q : Nat → Seq) (n : Nat) (c : Core) (word : BitVec 32)
    (c' : Core) : Prop
  | kept (htarget : c.target env = none) (hde : live c'.de = none) (hfd : c'.fd = c.fd)
      (hpc : c'.nextPc = c.nextPc)
  | jumped (hle : c.fdIndex ≤ n) (hde : live c'.de = none)
      (hfd : ∀ pc word, c'.fd ≠ some ⟨pc, word, false⟩) (hpc : c'.nextPc = (q c.fdIndex).pc)
  | issued (hle : c.fdIndex ≤ n) (a : Instruction) (hde : c'.de = some ⟨a, false⟩)
      (hcarries : a.Carries (q c.fdIndex).word)
      (hprimed : a.Primed ((q c.fdIndex).decode (q c.fdIndex).word))
      (hfd : c'.fd = some ⟨(q c.fdIndex).pc + 4, word, false⟩)
      (hpc : c'.nextPc = (q c.fdIndex).pc + 4 + 4)
      (hword : ∀ j, c.fdIndex ≤ j → j ≤ n → (q j).pc = (q c.fdIndex).pc + 4 →
        word = (q j).word)
  | started (hle : c.fdIndex ≤ n) (hde : live c'.de = none)
      (hfd : c'.fd = some ⟨(q c.fdIndex).pc, (q c.fdIndex).word, false⟩)
      (hpc : c'.nextPc = (q c.fdIndex).pc + 4)

section Front

variable (hexec : Execution env memory pc values q instr n) (hinv : c.Inv)
  (h : c.Follows env q instr n) (hrun : c.isStop = false)
include hinv h hrun

theorem fdIndex_le (hde : c.deStop = 0) (hexits : c.exits env = false) :
    c.fdIndex ≤ n := by
  by_contra hlt
  cases h.closing (by omega) with
  | decoded i hslot htype =>
      have hexecuting : c.executing env = some (i.executed env) := by simp [executing, hslot]
      obtain ⟨w, hcarries⟩ := hinv.decoded _ hslot
      rw [exits, hexecuting, hcarries.executed_system htype] at hexits
      simp [htype] at hexits
  | executed hstop => omega
  | accessed hstop => omega
  | retired hmw =>
      have hle := h.mwIndex_le hrun
      omega

include hexec

private theorem moves_running (hcycle : Produces env q instr n old c accessed decoded word)
    (hde : c.deStop = 0) (hstop : c.stop = 0) (hexits : c.exits env = false) :
    Moves env q n c word (c.advance env accessed decoded word memory') := by
  have hle := fdIndex_le hinv h hrun hde hexits
  have hzero := exitStop_of_not_exits hexits
  have hhits := hcycle.hits
  have hredirect : c.redirect = none := hinv.redirect_of_not_flush h.flush
  have hde' : (c.advance env accessed decoded word memory').de =
      decoded.instr.map fun instr => ⟨instr, (c.target env).isSome⟩ :=
    advance_de_running hde hexits
  have hfd' : (c.advance env accessed decoded word memory').fd =
      some ⟨c.nextPc, word, (c.target env).isSome⟩ := by
    simp [advance, hstop, hzero, hhits, h.flush]
  have hpc' : (c.advance env accessed decoded word memory').nextPc =
      (c.target env).getD (c.nextPc + 4) := by
    simp [advance, hstop, hzero, hhits, hredirect]
  cases htarget : c.target env with
  | some pc =>
      rw [htarget] at hde' hfd' hpc'
      refine .jumped hle ?_ ?_ ?_
      · rw [hde']
        cases decoded.instr <;> rfl
      · rw [hfd']
        simp
      · obtain ⟨a, ha, hjump⟩ := Option.bind_eq_some_iff.mp htarget
        rw [hpc', h.pc_next hexec ha, hjump]
        rfl
  | none =>
      rw [htarget] at hde' hfd' hpc'
      have hidle : c.stop + c.exitStop env = 0 := by omega
      cases h.front htarget hle with
      | fetched hfd hpc =>
          have hdecoding : c.decoding env =
              some ⟨(q c.fdIndex).pc, (q c.fdIndex).word, false⟩ := by
            simp [decoding, hfd, hde, hzero]
          obtain ⟨a, hinstr, hcarries, hprimed⟩ := hcycle.issued hdecoding
          refine .issued hle a ?_ hcarries hprimed ?_ ?_ ?_
          · rw [hde', hinstr]
            rfl
          · rw [hfd', hpc]
            rfl
          · rw [hpc', hpc]
            rfl
          · intro j hlow hhigh hj
            exact hcycle.word hidle j hlow hhigh (hpc.trans hj.symm)
      | awaited hfd hpc =>
          have hnone : c.decoding env = none := by
            rw [Option.eq_none_iff_forall_ne_some]
            exact fun fetched hf => hfd _ _ (decoding_eq_some hf).1
          have hbubble := decodeStage_isSome hcycle.decode
          rw [hnone, Option.isSome_none, Option.isSome_eq_false_iff,
            Option.isNone_iff_eq_none] at hbubble
          refine .started hle ?_ ?_ ?_
          · rw [hde', hbubble]
            rfl
          · rw [hfd', hcycle.word hidle _ le_rfl hle hpc, hpc]
            rfl
          · rw [hpc', hpc]
            rfl

theorem moves (hcycle : Produces env q instr n old c accessed decoded word) :
    Moves env q n c word (c.advance env accessed decoded word memory') := by
  have heq := h.stop_eq hinv
  have hhits := hcycle.hits
  have hkept (htarget : c.target env = none) (hstop : c.stop + c.exitStop env ≠ 0)
      (hde : live (c.advance env accessed decoded word memory').de = none) :
      Moves env q n c word (c.advance env accessed decoded word memory') := by
    refine .kept htarget hde ?_ ?_ <;>
      simp only [advance, hhits, Nat.add_zero, if_neg hstop]
  cases hinv.phase hcycle.decode with
  | flow hde hstop hexits => exact moves_running hexec hinv h hrun hcycle hde hstop hexits
  | hit hde hstop hexits htarget hpos => omega
  | held hde hstop => omega
  | exit hde hstop hexits htarget hidle =>
      obtain ⟨i, -, -, -, hnew⟩ := advance_de_exit hinv hexits
      refine hkept htarget ?_ ?_
      · rw [exitStop_of_exits hexits]
        omega
      · rw [hnew]
        rfl
  | frozen hpos hstop hle hidle =>
      refine hkept (by simp [target, hidle]) (by omega) ?_
      rw [advance_de_frozen hpos hidle]
      cases hinv.control with
      | running hde => omega
      | held hde => omega
      | frozen _ _ _ i hslot =>
          rw [hslot]
          rfl

private theorem closing_advance
    (hcycle : Produces env q instr n old c accessed decoded word)
    (hlt : n < (c.advance env accessed decoded word memory').fdIndex) :
    (c.advance env accessed decoded word memory').Closing n := by
  rw [fdIndex_advance hcycle.toAccesses hcycle.hits] at hlt
  have hmoves : Moves env q n c word (c.advance env accessed decoded word memory') :=
    moves hexec hinv h hrun hcycle
  cases hmoves with
  | jumped hle hde =>
      rw [hde, Option.toList_none, List.length_nil] at hlt
      omega
  | started hle hde =>
      rw [hde, Option.toList_none, List.length_nil] at hlt
      omega
  | issued hle a hde hcarries =>
      rw [hde, live, Option.toList_some, List.length_singleton] at hlt
      obtain rfl : c.fdIndex = n := by omega
      refine .decoded a hde ?_
      have hname := (hexec.stepped le_rfl).instr_carries.name
      rw [hexec.ends] at hname
      rw [hcarries.type]
      exact (Decoder.recognize_sound _).ecall hname.symm
  | kept htarget hde =>
      rw [hde, Option.toList_none, List.length_nil] at hlt
      have hhits := hcycle.hits
      cases h.closing hlt with
      | decoded i hslot htype =>
          have hexecuting : c.executing env = some (i.executed env) := by
            simp [executing, hslot]
          obtain ⟨w, hcarries⟩ := hinv.decoded _ hslot
          have hexits : c.exits env = true := by
            rw [exits, hexecuting, hcarries.executed_system htype]
            simp [htype]
          have hrunning := hinv.deStop_of_live hslot
          refine .executed ?_
          simp [Core.advance, hrunning, exitStop_of_exits hexits]
      | executed hstop =>
          have hidle := idle_of_deStop env hinv (by omega)
          refine .accessed ?_ ?_
          · simp [Core.advance, exitStop, exits, hidle, hstop]
          · simp [Core.advance, hidle]
      | accessed hstop hem =>
          have hidle := idle_of_deStop env hinv (by omega)
          refine .retired ?_
          rw [fdIndex_of_idle hidle] at hlt
          simpa [mwIndex_advance, deIndex, hem, live] using hlt
      | retired hmw =>
          have hle := h.mwIndex_le hrun
          omega

private theorem front_advance
    (hcycle : Produces env q instr n old c accessed decoded word)
    (htarget : (c.advance env accessed decoded word memory').target env = none)
    (hle : (c.advance env accessed decoded word memory').fdIndex ≤ n) :
    (c.advance env accessed decoded word memory').Front
      (q (c.advance env accessed decoded word memory').fdIndex) := by
  rw [fdIndex_advance hcycle.toAccesses hcycle.hits] at hle ⊢
  cases moves hexec hinv h hrun hcycle with
  | kept htarget' hde hfd hpc =>
      rw [hde] at hle ⊢
      cases h.front htarget' hle with
      | fetched hfd' hpc' => exact .fetched (hfd.trans hfd') (hpc.trans hpc')
      | awaited hfd' hpc' =>
          refine .awaited (fun pc word => ?_) (hpc.trans hpc')
          rw [hfd]
          exact hfd' pc word
  | jumped hle' hde hfd hpc =>
      rw [hde]
      exact .awaited hfd hpc
  | started hle' hde hfd hpc =>
      rw [hde]
      exact .fetched hfd hpc
  | issued hle' a hde hcarries hprimed hfd hpc hword =>
      rw [hde] at hle ⊢
      have halike : (a.executed env).Alike ((q c.fdIndex).executing env) :=
        hprimed.executed (hexec.recognised _ hle') hcarries
          (Seq.decode_carries (hexec.named (by omega)) _)
      have hexecuting : (c.advance env accessed decoded word memory').executing env =
          some (a.executed env) := by
        simp [Core.executing, hde]
      have hnone : (a.executed env).target = none := by
        rw [target, hexecuting] at htarget
        exact htarget
      have hnext : (q (c.fdIndex + 1)).pc = (q c.fdIndex).pc + 4 := by
        rw [(hexec.stepped hle').pc, ← halike.target, hnone]
        rfl
      refine .fetched ?_ ?_
      · rw [hfd, hword (c.fdIndex + 1) (by omega) hle hnext, ← hnext]
        rfl
      · rw [hpc, ← hnext]
        rfl

omit hinv in
private theorem isStop_advance :
    (c.advance env accessed decoded word memory').isStop = true ↔
      n < (c.advance env accessed decoded word memory').mwIndex := by
  have hle := h.mwIndex_le hrun
  rw [mwIndex_advance, emIndex]
  change (c.isStop || c.mw.any fun instr => instr.name = .ecall) = true ↔ _
  rw [hrun, Bool.false_or]
  cases hmw : c.mw with
  | none => simp [hle]
  | some a =>
      have hname := hexec.name_iff hle
      rw [← (h.mw a hmw).2.name] at hname
      simp only [Option.any_some, decide_eq_true_eq, hname, Option.toList_some,
        List.length_singleton]
      omega

theorem Follows.advance (hcycle : Produces env q instr n old c accessed decoded word) :
    (c.advance env accessed decoded word (q c.deIndex).memory).Follows env q instr n where
  regs := fun num => by
    rw [mwIndex_advance, ← hcycle.regs]
    exact congrArg Register.value (congrFun (decodeStage_regs hcycle.decode) num)
  memory := by
    rw [emIndex_advance hcycle.toAccesses]
    rfl
  trace := by
    rw [mwIndex_advance]
    change (c.trace ++ c.mw.toList).map Instruction.outcome = _
    rw [List.map_append, h.trace, emIndex]
    cases hmw : c.mw with
    | none => simp
    | some a => simp [List.range_succ, (h.mw a hmw).2.outcome]
  mw := fun a ha => by
    rw [mwIndex_advance]
    have hmw : accessed.mw = some a := ha
    have hindex := hcycle.deIndex_eq
    have hfd : c.deIndex ≤ c.fdIndex := Nat.le_add_right _ _
    have hbound := h.bound
    rw [hmw] at hindex
    simp only [Option.toList_some, List.length_singleton] at hindex
    exact ⟨by omega, hcycle.mw a hmw⟩
  em := fun slot hslot => by
    rw [emIndex_advance hcycle.toAccesses]
    obtain ⟨a, ha, rfl⟩ := Option.map_eq_some_iff.mp
      (show ((c.executing env).map fun instr =>
        (⟨instr, decide (decoded.hits > 0)⟩ : Slot)) = some slot from hslot)
    obtain ⟨hle, -, halike⟩ := h.executing hexec ha
    exact ⟨by simp [hcycle.hits], hle, halike⟩
  de := fun a ha => by
    rw [deIndex_advance hcycle.toAccesses hcycle.hits]
    have hlive := live_iff.mpr ha
    cases moves hexec hinv h hrun hcycle with
    | kept htarget hde => rw [hde] at hlive; cases hlive
    | jumped hle hde => rw [hde] at hlive; cases hlive
    | started hle hde => rw [hde] at hlive; cases hlive
    | issued hle b hde hcarries hprimed =>
        rw [hde, Option.some.injEq, Slot.mk.injEq] at ha
        obtain ⟨rfl, -⟩ := ha
        exact ⟨hle, hcarries, hprimed⟩
  front := front_advance hexec hinv h hrun hcycle
  bound := by
    have hbound := h.bound
    rw [fdIndex_advance hcycle.toAccesses hcycle.hits]
    cases moves hexec hinv h hrun hcycle with
    | kept htarget hde => rw [hde]; exact hbound
    | jumped hle hde => rw [hde]; exact hbound
    | started hle hde => rw [hde]; exact hbound
    | issued hle a hde => rw [hde]; exact Nat.succ_le_succ hle
  closing := closing_advance hexec hinv h hrun hcycle
  flush := by
    change (if c.stop + c.exitStop env + decoded.hits = 0 then false
      else c.flush || (c.target env).isSome) = false
    rw [hcycle.hits, h.flush, Bool.false_or]
    split_ifs with hstop
    · rfl
    · rw [h.target_of_stopped hinv hstop]
      rfl
  isStop := isStop_advance hexec h hrun

theorem Follows.step (hsmooth : c.Smooth env) (old : Instruction) :
    ∃ c', c.step env old = .ok c' ∧ c'.Follows env q instr n := by
  obtain ⟨accessed, haccess⟩ := h.accesses hexec hinv
  obtain ⟨decoded, hdecode, hhits, hissued⟩ := h.decodes old hexec hinv hsmooth haccess
  obtain ⟨word, hfetch, hword⟩ := h.fetches hexec hsmooth.fetch haccess
  refine ⟨_, ?_, h.advance hexec hinv hrun
    ⟨haccess, hdecode, hhits, h.regs_exRf hexec hsmooth.fresh, hissued, hword⟩⟩
  simp only [Core.step, haccess.access, hdecode, hhits, Nat.add_zero, hfetch, haccess.drain,
    bind, Except.bind]
  rfl

end Front

end Advance

end Core

end RiscvPerfSim
