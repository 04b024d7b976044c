import RiscvPerfSim.Core.Effects
import RiscvPerfSim.Core.Follows

/-!
# Paced programs

A discipline on the sequential run alone: no instruction reads what a load in
front of it brings, the word behind a taken transfer does not touch what has
just been computed, and fetch finds memory wherever it runs ahead.  A pipeline
that follows a paced run meets none of the cycles that lose something.
-/

namespace RiscvPerfSim

open Foundation

def Memory.wordAt (memory : Memory) (pc : BitVec 32) : BitVec 32 :=
  Word.ofBytes fun i => memory.bytes (pc.toNat + i)

theorem Memory.read_wordAt {memory : Memory} {pc : BitVec 32}
    (h : pc.toNat + 4 ≤ memory.size) : memory.read 0 pc.toNat 4 = .ok (memory.wordAt pc) := by
  rw [read_of_inRange 0 h, Word.overlay_full]
  rfl

structure Paced (memory : Memory) (q : Nat → Seq) (instr : Nat → Instruction) (n : Nat) :
    Prop where
  /-- No word reads a register that the load in front of it brings. -/
  loads : ∀ k < n, (instr k).memAccType = .read → ∀ num, num ≠ 0 →
    (instr k).writes num = true → Decoder.reads (q (k + 1)).word num = false
  /-- The word behind a taken transfer does not write what the instruction before changes. -/
  shadows : ∀ k < n, (instr k).target = none → (instr (k + 1)).target.isSome = true → ∀ num,
    num ≠ 0 → Decoder.writes (memory.wordAt ((q (k + 1)).pc + 4)) num = true →
      ((q (k + 1)).rf.regs num).value = ((q k).rf.regs num).value
  /-- Nor is that word stored to. -/
  spares : ∀ k ≤ n, (instr k).target.isSome = true → ∀ j ≤ n,
    ¬ (instr j).Overwrites ((q k).pc + 4)
  next : ∀ k ≤ n, ((q k).pc + 4).toNat + 4 ≤ memory.size
  beyond : ∀ k ≤ n, (instr k).target.isSome = true → ((q k).pc + 4 + 4).toNat + 4 ≤ memory.size

namespace Paced

variable {memory : Memory} {q : Nat → Seq} {instr : Nat → Instruction} {n : Nat}

def testAt (memory : Memory) (q : Nat → Seq) (instr : Nat → Instruction) (n k : Nat) : Bool :=
  let behind := memory.wordAt ((q (k + 1)).pc + 4)
  (decide (k = n) || decide ((instr k).memAccType ≠ .read) || decide ((instr k).rd.name = 0) ||
    !(instr k).writes (instr k).rd.name ||
      !Decoder.reads (q (k + 1)).word (instr k).rd.name) &&
  (decide (k = n) || (instr k).target.isSome || (instr (k + 1)).target.isNone ||
    !Decoder.writes behind (Decoder.numRd behind) || decide (Decoder.numRd behind = 0) ||
      decide (((q (k + 1)).rf.regs (Decoder.numRd behind)).value =
        ((q k).rf.regs (Decoder.numRd behind)).value)) &&
  ((instr k).target.isNone || (List.range (n + 1)).all fun j =>
    !decide ((instr j).Overwrites ((q k).pc + 4))) &&
  decide (((q k).pc + 4).toNat + 4 ≤ memory.size) &&
  ((instr k).target.isNone || decide (((q k).pc + 4 + 4).toNat + 4 ≤ memory.size))

theorem of_test (h : ∀ k ≤ n, testAt memory q instr n k = true) : Paced memory q instr n := by
  simp only [testAt, Bool.and_eq_true, Bool.or_eq_true, decide_eq_true_eq, Bool.not_eq_true',
    Option.isNone_iff_eq_none, List.all_eq_true, List.mem_range, decide_eq_false_iff_not] at h
  constructor
  case loads =>
    intro k hk hread num hnum hwrites
    obtain ⟨⟨⟨⟨hloads, -⟩, -⟩, -⟩, -⟩ := h k hk.le
    obtain ⟨-, hname⟩ := Bool.and_eq_true_iff.mp hwrites
    obtain rfl := of_decide_eq_true hname
    rcases hloads with (((hend | hother) | hzero) | hnot) | hclear
    · omega
    · exact absurd hread hother
    · exact absurd hzero hnum
    · rw [hwrites] at hnot
      cases hnot
    · exact hclear
  case shadows =>
    intro k hk hnone hjump num hnum hwrites
    obtain ⟨⟨⟨⟨-, hshadows⟩, -⟩, -⟩, -⟩ := h k hk.le
    obtain ⟨-, hname⟩ := Bool.and_eq_true_iff.mp hwrites
    obtain rfl := of_decide_eq_true hname
    rcases hshadows with ((((hend | htaken) | hother) | hnot) | hzero) | hvalue
    · omega
    · rw [hnone] at htaken
      cases htaken
    · rw [hother] at hjump
      cases hjump
    · rw [hwrites] at hnot
      cases hnot
    · exact absurd hzero hnum
    · exact hvalue
  case spares =>
    intro k hk hjump j hj
    obtain ⟨⟨⟨-, hspares⟩, -⟩, -⟩ := h k hk
    rcases hspares with hnone | hall
    · rw [hnone] at hjump
      cases hjump
    · exact hall j (Nat.lt_succ_of_le hj)
  case next => exact fun k hk => (h k hk).1.2
  case beyond =>
    intro k hk hjump
    rcases (h k hk).2 with hnone | hrange
    · rw [hnone] at hjump
      cases hjump
    · exact hrange

end Paced

/-! ## The sequential run -/

namespace Seq.Stepped

variable {env : Env} {q q' : Seq} {instr : Instruction}

theorem target_eq (h : Stepped env q instr q') : instr.target = (q.executing env).target :=
  Core.loadEffect_target h.carries h.load

end Seq.Stepped

namespace Execution

variable {env : Env} {memory : Memory} {pc : BitVec 32} {values : RegName → BitVec 32}
  {q : Nat → Seq} {instr : Nat → Instruction} {n k : Nat}

theorem read_start (h : Execution env memory pc values q instr n) {addr : BitVec 32}
    (hapart : ∀ j ≤ n, ¬ (instr j).Overwrites addr) (hk : k ≤ n + 1) :
    (q k).memory.read 0 addr.toNat 4 = memory.read 0 addr.toNat 4 := by
  induction k with
  | zero =>
      rw [h.start]
      rfl
  | succ k ih =>
      rw [(h.stepped (by omega)).read_eq (hapart k (by omega))]
      exact ih (by omega)

theorem target_last (h : Execution env memory pc values q instr n) : (instr n).target = none := by
  have hcarries := (h.stepped le_rfl).instr_carries
  have hname := hcarries.name
  rw [h.ends] at hname
  exact hcarries.target_system
    (hcarries.type.trans ((Decoder.recognize_sound _).ecall hname.symm))

end Execution

namespace Core

variable {env : Env} {memory memory' : Memory} {pc : BitVec 32} {values : RegName → BitVec 32}
  {q : Nat → Seq} {instr : Nat → Instruction} {n : Nat} {old : Instruction} {c : Core}
  {accessed : Accessed} {decoded : Decoded} {word : BitVec 32}

/-! ## What fetch has read ahead -/

structure Keeps (memory : Memory) (q : Nat → Seq) (instr : Nat → Instruction) (n : Nat)
    (c : Core) : Prop where
  ahead : ∀ a, c.de = some ⟨a, false⟩ → ∃ w,
    c.fd = some ⟨(q c.deIndex).pc + 4, w, false⟩ ∧ c.nextPc = (q c.deIndex).pc + 4 + 4 ∧
      ((instr c.deIndex).target.isSome = true → w = memory.wordAt ((q c.deIndex).pc + 4))
  behind : ∀ a, c.em = some ⟨a, false⟩ → (instr c.emIndex).target.isSome = true →
    live c.de = none
  /-- What is discarded stands behind a taken transfer, or releases nothing. -/
  stray : ∀ a, c.de = some ⟨a, true⟩ → a.type.writesRd = true →
    c.emIndex ≤ n ∧ (instr c.emIndex).target.isSome = true ∧
      a.Carries (memory.wordAt ((q c.emIndex).pc + 4)) ∧
      (c.mwIndex = c.emIndex ∨ c.mwIndex + 1 = c.emIndex ∧ (instr c.mwIndex).target = none)

theorem Keeps.boot : (PerfSim.boot memory pc values).core.Keeps memory q instr n where
  ahead := fun a h => by cases h
  behind := fun a h => by cases h
  stray := fun a h => by cases h

theorem Follows.target_eq (hexec : Execution env memory pc values q instr n)
    (h : c.Follows env q instr n) {a : Instruction} (ha : c.executing env = some a) :
    a.target = (instr c.deIndex).target := by
  obtain ⟨hle, -, halike⟩ := h.executing hexec ha
  exact halike.target.trans (hexec.stepped hle).target_eq.symm

theorem Follows.target_of_live (hexec : Execution env memory pc values q instr n)
    (h : c.Follows env q instr n) {a : Instruction} (hde : c.de = some ⟨a, false⟩) :
    c.target env = (instr c.deIndex).target := by
  have hexecuting : c.executing env = some (a.executed env) := by simp [Core.executing, hde]
  rw [target, hexecuting]
  exact h.target_eq hexec hexecuting

section Step

variable (hexec : Execution env memory pc values q instr n) (hinv : c.Inv)
  (h : c.Follows env q instr n) (hrun : c.isStop = false)
  (hcycle : Produces env q instr n old c accessed decoded word)
  (hfetch : fetchStage accessed.memory c.nextPc (c.stop + c.exitStop env) = .ok word)
  (hpaced : Paced memory q instr n) (hkeeps : c.Keeps memory q instr n)
include hexec h hcycle

private theorem word_behind (hfetch : fetchStage accessed.memory c.nextPc
      (c.stop + c.exitStop env) = .ok word)
    (hpaced : Paced memory q instr n) {k : Nat} (hk : k ≤ n)
    (hjump : (instr k).target.isSome = true) (hpc : c.nextPc = (q k).pc + 4)
    (hstop : c.stop + c.exitStop env = 0) : word = memory.wordAt ((q k).pc + 4) := by
  have hbound := h.bound
  have hde : c.deIndex ≤ c.fdIndex := Nat.le_add_right _ _
  obtain ⟨j, -, hj, hmemory⟩ := hcycle.memory
  rw [fetchStage, if_pos hstop, hmemory, hpc,
    hexec.read_start (hpaced.spares k hk hjump) (by omega),
    Memory.read_wordAt (hpaced.next k hk)] at hfetch
  exact (Except.ok.inj hfetch).symm

include hinv

omit hexec in
theorem running_of_live {a : Instruction}
    (hde : (c.advance env accessed decoded word memory').de = some ⟨a, false⟩) :
    c.deStop = 0 ∧ c.stop = 0 ∧ c.exits env = false ∧ c.target env = none := by
  have heq := h.stop_eq hinv
  have hhits := hcycle.hits
  cases hinv.phase hcycle.decode with
  | flow hrunning hstop hexits =>
      refine ⟨hrunning, hstop, hexits, ?_⟩
      rw [advance_de_running hrunning hexits] at hde
      obtain ⟨b, -, hslot⟩ := Option.map_eq_some_iff.mp hde
      have hflag : (c.target env).isSome = false := congrArg Slot.killed hslot
      rwa [Option.isSome_eq_false_iff, Option.isNone_iff_eq_none] at hflag
  | hit _ _ _ _ hpos => omega
  | held hrunning hstop => omega
  | exit _ _ hexits =>
      obtain ⟨i, -, -, -, hnew⟩ := advance_de_exit hinv hexits
      rw [hnew] at hde
      cases hde
  | frozen hpos _ _ hidle =>
      rw [advance_de_frozen hpos hidle] at hde
      simp [executing, hde] at hidle

include hrun

private theorem ahead_advance (hfetch : fetchStage accessed.memory c.nextPc
      (c.stop + c.exitStop env) = .ok word)
    (hpaced : Paced memory q instr n) (a : Instruction)
    (hde : (c.advance env accessed decoded word memory').de = some ⟨a, false⟩) :
    ∃ w, (c.advance env accessed decoded word memory').fd =
        some ⟨(q c.fdIndex).pc + 4, w, false⟩ ∧
      (c.advance env accessed decoded word memory').nextPc = (q c.fdIndex).pc + 4 + 4 ∧
      ((instr c.fdIndex).target.isSome = true →
        w = memory.wordAt ((q c.fdIndex).pc + 4)) := by
  have hlive := live_iff.mpr hde
  obtain ⟨-, hstop, hexits, -⟩ := running_of_live hinv h hcycle hde
  have hidle : c.stop + c.exitStop env = 0 := by rw [hstop, exitStop_of_not_exits hexits]
  have hmoves : Moves env q n c word (c.advance env accessed decoded word memory') :=
    moves hexec hinv h hrun hcycle
  cases hmoves with
  | kept htarget hnone => rw [hnone] at hlive; cases hlive
  | jumped hle hnone => rw [hnone] at hlive; cases hlive
  | started hle hnone => rw [hnone] at hlive; cases hlive
  | issued hle b hde' hcarries hprimed hfd hpc =>
      refine ⟨word, hfd, hpc, fun hjump => ?_⟩
      have hhits := hcycle.hits
      have hnext : c.nextPc = (q c.fdIndex).pc + 4 := by
        have hfetched : (c.advance env accessed decoded word memory').fd =
            some ⟨c.nextPc, word, c.flush || (c.target env).isSome⟩ := by
          simp [advance, hidle, hhits]
        rw [hfetched, Option.some.injEq] at hfd
        exact congrArg Fetched.pc hfd
      exact word_behind hexec h hcycle hfetch hpaced hle hjump hnext hidle

omit hrun in
private theorem behind_advance {a : Instruction}
    (hem : (c.advance env accessed decoded word memory').em = some ⟨a, false⟩)
    (hjump : (instr c.deIndex).target.isSome = true) :
    live (c.advance env accessed decoded word memory').de = none := by
  obtain ⟨b, hexecuting, -⟩ := Option.map_eq_some_iff.mp
    (show ((c.executing env).map fun instr =>
      (⟨instr, decide (decoded.hits > 0)⟩ : Slot)) = some ⟨a, false⟩ from hem)
  have htarget : (c.target env).isSome = true := by
    rw [target, hexecuting, Option.bind_some, h.target_eq hexec hexecuting]
    exact hjump
  rw [Option.eq_none_iff_forall_ne_some]
  intro i hi
  rw [(running_of_live hinv h hcycle (live_iff.mp hi)).2.2.2] at htarget
  cases htarget

omit hrun in
private theorem stray_advance (hkeeps : c.Keeps memory q instr n) (a : Instruction)
    (hde : (c.advance env accessed decoded word memory').de = some ⟨a, true⟩)
    (hwrites : a.type.writesRd = true) :
    c.deIndex ≤ n ∧ (instr c.deIndex).target.isSome = true ∧
      a.Carries (memory.wordAt ((q c.deIndex).pc + 4)) ∧
      (c.emIndex = c.deIndex ∨ c.emIndex + 1 = c.deIndex ∧ (instr c.emIndex).target = none) := by
  rcases advance_de hinv hcycle.decode with hnew | ⟨-, i, htype, -, hnew⟩
  · rw [hnew] at hde
    obtain ⟨b, hinstr, hslot⟩ := Option.map_eq_some_iff.mp hde
    obtain rfl : b = a := congrArg Slot.instr hslot
    have hjump : (c.target env).isSome = true := congrArg Slot.killed hslot
    obtain ⟨x, hx⟩ := Option.isSome_iff_exists.mp hjump
    obtain ⟨y, hexecuting, -⟩ := Option.bind_eq_some_iff.mp hx
    obtain ⟨i, hslot, -⟩ := executing_eq_some hexecuting
    have htaken : (instr c.deIndex).target.isSome = true := by
      rw [← h.target_of_live hexec hslot]
      exact hjump
    obtain ⟨w, hfd, -, hw⟩ := hkeeps.ahead i hslot
    obtain ⟨fetched, hdecoding, hcarries, -⟩ := decodeStage_instr hinv.named hcycle.decode hinstr
    have hword : fetched.word = w := by
      have hfd' := (decoding_eq_some hdecoding).1
      rw [hfd, Option.some.injEq] at hfd'
      exact (congrArg Fetched.word hfd').symm
    rw [hword, hw htaken] at hcarries
    refine ⟨(h.de i hslot).1, htaken, hcarries, ?_⟩
    unfold deIndex
    cases hem : live c.em with
    | none => exact .inl rfl
    | some j =>
        refine .inr ⟨rfl, by_contra fun hbefore => ?_⟩
        have hidle := hkeeps.behind j (live_iff.mp hem) (Option.ne_none_iff_isSome.mp hbefore)
        rw [live_iff.mpr hslot] at hidle
        cases hidle
  · rw [hnew] at hde
    cases hde
    rw [htype] at hwrites
    cases hwrites

theorem Keeps.advance (hfetch : fetchStage accessed.memory c.nextPc
      (c.stop + c.exitStop env) = .ok word)
    (hpaced : Paced memory q instr n) (hkeeps : c.Keeps memory q instr n) :
    (c.advance env accessed decoded word memory').Keeps memory q instr n where
  ahead := fun a hde => by
    rw [deIndex_advance hcycle.toAccesses hcycle.hits]
    exact ahead_advance hexec hinv h hrun hcycle hfetch hpaced a hde
  behind := fun a hem hjump => by
    rw [emIndex_advance hcycle.toAccesses] at hjump
    exact behind_advance hexec hinv h hcycle hem hjump
  stray := fun a hde hwrites => by
    rw [emIndex_advance hcycle.toAccesses, mwIndex_advance]
    exact stray_advance hexec hinv h hcycle hkeeps a hde hwrites

end Step

/-! ## Paced runs are smooth -/

section Smooth

variable (hexec : Execution env memory pc values q instr n) (hinv : c.Inv)
  (h : c.Follows env q instr n) (hrun : c.isStop = false)
  (hpaced : Paced memory q instr n) (hkeeps : c.Keeps memory q instr n)
include hexec hinv h hpaced hkeeps

private theorem not_loadAhead {wants : BitVec 32 → RegName → Bool}
    (hwants : ∀ word num, wants word num = true → Decoder.reads word num = true)
    {load : Instruction} {fetched : Fetched} {num : RegName} :
    ¬ c.LoadAhead wants load fetched num := by
  intro hload
  obtain ⟨hle, hcarries, -⟩ := h.de load hload.de
  have hstepped := hexec.stepped hle
  have hread : (instr c.deIndex).memAccType = .read := by
    rw [hstepped.instr_carries.memAccType, ← hcarries.memAccType]
    simpa [HazardUnit.isLoad] using hload.isLoad
  have hwrites : (instr c.deIndex).writes num = true := by
    rw [hstepped.instr_carries.writes_eq, ← hcarries.writes_eq]
    exact hload.writes
  have hnone : c.target env = none := (hload.executing env hinv).target
  have hindex : c.fdIndex = c.deIndex + 1 := by simp [fdIndex, hload.de, live]
  have hlt : c.deIndex < n := by
    by_contra hge
    obtain rfl : c.deIndex = n := by omega
    have hname := hstepped.instr_carries.name
    rw [hexec.ends] at hname
    have htype := (Decoder.recognize_sound _).ecall hname.symm
    rw [hstepped.instr_carries.memAccType_system
      (hstepped.instr_carries.type.trans htype)] at hread
    cases hread
  have hreads := hpaced.loads _ hlt hread num hload.notZero hwrites
  have hfd := hload.fd
  have hlive := hload.live
  rcases fetched with ⟨pc, w, killed⟩
  dsimp only at hlive
  subst hlive
  cases h.front hnone (by omega) with
  | awaited hidle => exact hidle _ _ hfd
  | fetched hfd' =>
      rw [hfd, Option.some.injEq, Fetched.mk.injEq] at hfd'
      rw [← hindex, ← hfd'.2.1, hwants _ _ hload.wants] at hreads
      cases hreads

private theorem fresh_of_keeps (a : Instruction) (hde : c.de = some ⟨a, true⟩) (num : RegName)
    (hnum : num ≠ 0) (hwrites : a.writes num = true) : a.rd.value = c.due num := by
  obtain ⟨htype, hname⟩ := Bool.and_eq_true_iff.mp hwrites
  have hcopy : a.rd.value = (c.rf.regs num).value := by
    have hcaptured := hinv.captured _ hde htype
    rw [of_decide_eq_true hname] at hcaptured
    exact congrArg Register.value hcaptured
  rw [← regs_wbRf hnum, h.regs_wbRf hexec, hcopy, h.regs]
  obtain ⟨hle, hjump, hcarries, hindex | ⟨hindex, hnone⟩⟩ := hkeeps.stray a hde htype
  · rw [hindex]
  · have hlt : c.mwIndex < n := by omega
    rw [hcarries.writes_eq] at hwrites
    rw [← hindex] at hjump hwrites ⊢
    exact (hpaced.shadows _ hlt hnone hjump num hnum hwrites).symm

include hrun

private theorem fetch_of_keeps (hidle : c.stop + c.exitStop env = 0) :
    c.nextPc.toNat + 4 ≤ memory.size := by
  have heq := h.stop_eq hinv
  have hexits : c.exits env = false := by
    rw [← Bool.not_eq_true]
    intro hexits
    rw [exitStop_of_exits hexits] at hidle
    omega
  have hle := fdIndex_le hinv h hrun (by omega) hexits
  cases hde : live c.de with
  | some a =>
      have hslot := live_iff.mp hde
      obtain ⟨w, -, hpc, -⟩ := hkeeps.ahead a hslot
      have hindex : c.fdIndex = c.deIndex + 1 := by simp [fdIndex, hslot, live]
      rw [hpc]
      cases hjump : (instr c.deIndex).target with
      | some target => exact hpaced.beyond _ (h.de a hslot).1 (by rw [hjump]; rfl)
      | none =>
          have hstepped := hexec.stepped (h.de a hslot).1
          have hnext : (q (c.deIndex + 1)).pc = (q c.deIndex).pc + 4 := by
            rw [hstepped.pc, ← hstepped.target_eq, hjump]
            rfl
          rw [← hnext]
          exact hpaced.next _ (by omega)
  | none =>
      have hnone : c.target env = none := by simp [target, live_de env, hde]
      cases h.front hnone hle with
      | fetched hfd hpc =>
          rw [hpc]
          exact hpaced.next _ hle
      | awaited hfd hpc =>
          rw [hpc, ← hexec.size (k := c.fdIndex) (by omega)]
          exact Memory.inRange_of_read (hexec.stepped hle).fetch

theorem Keeps.smooth : c.Smooth env where
  loadUse := fun load fetched num =>
    not_loadAhead hexec hinv h hpaced hkeeps fun word num hneeds => by simp [Decoder.reads, hneeds]
  storeUse := fun load fetched num =>
    not_loadAhead hexec hinv h hpaced hkeeps fun word num hstores => by
      simp [Decoder.reads, hstores]
  fresh := fresh_of_keeps hexec hinv h hpaced hkeeps
  fetch := fun hidle => by
    have hbound := h.bound
    have hem : c.emIndex ≤ c.deIndex := Nat.le_add_right _ _
    have hde : c.deIndex ≤ c.fdIndex := Nat.le_add_right _ _
    rw [h.memory, hexec.size (by omega)]
    exact fetch_of_keeps hexec hinv h hrun hpaced hkeeps hidle

end Smooth

end Core

end RiscvPerfSim
