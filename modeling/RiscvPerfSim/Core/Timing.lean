import RiscvPerfSim.Core.Paced

/-!
# How long a run takes

The clock of a pipeline that follows a sequential run, in terms of that run: one
cycle for each instruction, two for each taken transfer and five for each SYSTEM
word in front of execute.
-/

namespace RiscvPerfSim

/-! ## Counts over the sequential run -/

section Counts

variable (instr : Nat → Instruction)

def taken (k : Nat) : Nat := (List.range k).countP fun j => (instr j).target.isSome

def systems (k : Nat) : Nat := (List.range k).countP fun j => (instr j).type = .system

/-- The cycle in which the instruction with the number `k` is fetched, counted from 0. -/
def fetchedAt (k : Nat) : Nat := k + 2 * taken instr k + 5 * systems instr k

variable {instr} {k : Nat}

theorem taken_succ :
    taken instr (k + 1) = taken instr k + if (instr k).target.isSome then 1 else 0 := by
  simp [taken, List.range_succ, List.countP_singleton]

theorem systems_succ :
    systems instr (k + 1) = systems instr k + if (instr k).type = .system then 1 else 0 := by
  simp [systems, List.range_succ, List.countP_singleton]

theorem fetchedAt_mono {j : Nat} (h : j ≤ k) : fetchedAt instr j ≤ fetchedAt instr k := by
  induction k, h using Nat.le_induction with
  | base => exact le_rfl
  | succ k _ ih =>
      have htaken : taken instr k ≤ taken instr (k + 1) := by
        rw [taken_succ]
        exact Nat.le_add_right _ _
      have hsystems : systems instr k ≤ systems instr (k + 1) := by
        rw [systems_succ]
        exact Nat.le_add_right _ _
      unfold fetchedAt at ih ⊢
      omega

end Counts

namespace Core

variable {env : Env} {memory memory' : Memory} {pc : BitVec 32} {values : RegName → BitVec 32}
  {q : Nat → Seq} {instr : Nat → Instruction} {n : Nat} {old : Instruction} {c : Core}
  {accessed : Accessed} {decoded : Decoded} {word : BitVec 32}

def fdLive (c : Core) : Bool := c.fd.any fun fetched => !fetched.killed

structure Timed (instr : Nat → Instruction) (c : Core) : Prop where
  live : ∀ a, c.de = some ⟨a, false⟩ →
    c.fdLive = true ∧ c.clocks = fetchedAt instr c.deIndex + 2
  idle : Core.live c.de = none →
    c.clocks + c.deStop = fetchedAt instr c.fdIndex + if c.fdLive then 1 else 0
  stopped : 0 < c.deStop → c.fdLive = true
  executed : ∀ a, c.em = some ⟨a, false⟩ → a.type = .system → c.deStop = 4
  accessed : ∀ a, c.mw = some a → a.type = .system → c.deStop = 3
  ended : c.isStop = true → c.deStop = 2
  branches : c.branches = BitVec.ofNat 32 (taken instr c.deIndex)
  stops : c.stops = 0

theorem Timed.boot : (PerfSim.boot memory pc values).core.Timed instr where
  live := fun a h => by cases h
  idle := fun _ => rfl
  stopped := fun h => by cases h
  executed := fun a h => by cases h
  accessed := fun a h => by cases h
  ended := fun h => by cases h
  branches := rfl
  stops := rfl

section Step

variable (hexec : Execution env memory pc values q instr n) (hinv : c.Inv)
  (h : c.Follows env q instr n) (hrun : c.isStop = false)
  (hcycle : Produces env q instr n old c accessed decoded word) (htimed : c.Timed instr)
include h

private theorem fetchedAt_of_live (hexec : Execution env memory pc values q instr n)
    {a : Instruction} (hde : c.de = some ⟨a, false⟩) : fetchedAt instr c.fdIndex =
      fetchedAt instr c.deIndex + 1 + (if (c.target env).isSome then 2 else 0) +
        if c.exits env then 5 else 0 := by
  obtain ⟨hle, hcarries, -⟩ := h.de a hde
  have hindex : c.fdIndex = c.deIndex + 1 := by simp [fdIndex, hde, live]
  have htype : (a.executed env).type = (instr c.deIndex).type := by
    rw [hcarries.executed.type, (hexec.stepped hle).instr_carries.type]
  have hexits : c.exits env = decide ((instr c.deIndex).type = .system) := by
    simp [exits, executing, hde, htype]
  rw [hindex, fetchedAt, fetchedAt, taken_succ, systems_succ, h.target_of_live hexec hde, hexits]
  simp only [decide_eq_true_eq]
  split_ifs <;> omega

include hcycle

private theorem fdLive_running (hidle : c.stop + c.exitStop env = 0) :
    (c.advance env accessed decoded word memory').fdLive = !(c.target env).isSome := by
  have hhits := hcycle.hits
  simp [fdLive, advance, hidle, hhits, h.flush]

omit h in
private theorem fdLive_stopped (hstop : c.stop + c.exitStop env ≠ 0) :
    (c.advance env accessed decoded word memory').fdLive = c.fdLive := by
  have hhits := hcycle.hits
  have hfd : (c.advance env accessed decoded word memory').fd = c.fd := by
    simp only [advance, hhits, Nat.add_zero, if_neg hstop]
  rw [fdLive, fdLive, hfd]

omit h in
private theorem fdLive_of_idle (hrunning : c.deStop = 0) (hexits : c.exits env = false)
    (htarget : c.target env = none)
    (hde : live (c.advance env accessed decoded word memory').de = none) : c.fdLive = false := by
  rw [← Bool.not_eq_true]
  intro hlive
  obtain ⟨⟨pc, w, killed⟩, hfd, hkilled⟩ := (Option.any_eq_true _ _).mp hlive
  obtain rfl : killed = false := by simpa using hkilled
  have hzero := exitStop_of_not_exits hexits
  have hissued := decodeStage_isSome hcycle.decode
  rw [show c.decoding env = some ⟨pc, w, false⟩ by simp [decoding, hfd, hrunning, hzero]]
    at hissued
  obtain ⟨b, hb⟩ := Option.isSome_iff_exists.mp hissued
  rw [advance_de_running hrunning hexits, hb, htarget] at hde
  cases hde

include hexec hinv htimed

private theorem live_advance {a : Instruction}
    (hde : (c.advance env accessed decoded word memory').de = some ⟨a, false⟩) :
    (c.advance env accessed decoded word memory').fdLive = true ∧
      c.clocks + 1 = fetchedAt instr c.fdIndex + 2 := by
  obtain ⟨hrunning, hstop, hexits, htarget⟩ := running_of_live hinv h hcycle hde
  have hzero := exitStop_of_not_exits hexits
  refine ⟨by rw [fdLive_running h hcycle (by omega), htarget]; rfl, ?_⟩
  cases hlive : live c.de with
  | some b =>
      have hslot := live_iff.mp hlive
      have hclocks := (htimed.live b hslot).2
      rw [fetchedAt_of_live h hexec hslot, hclocks, htarget, hexits]
      rfl
  | none =>
      have hclocks := htimed.idle hlive
      have hissued : (c.decoding env).isSome = true := by
        rw [← decodeStage_isSome hcycle.decode]
        rw [advance_de_running hrunning hexits] at hde
        obtain ⟨b, hinstr, -⟩ := Option.map_eq_some_iff.mp hde
        rw [hinstr]
        rfl
      obtain ⟨fetched, hdecoding⟩ := Option.isSome_iff_exists.mp hissued
      have hfd : c.fdLive = true := by simp [fdLive, (decoding_eq_some hdecoding).1]
      rw [hfd, if_pos rfl] at hclocks
      omega

private theorem idle_advance
    (hde : live (c.advance env accessed decoded word memory').de = none) :
    c.clocks + 1 + (c.deStop + c.exitStop env - 1) = fetchedAt instr c.fdIndex +
      if (c.advance env accessed decoded word memory').fdLive then 1 else 0 := by
  have heq := h.stop_eq hinv
  have hhits := hcycle.hits
  cases hinv.phase hcycle.decode with
  | hit _ _ _ _ hpos => omega
  | held hrunning hstop => omega
  | flow hrunning hstop hexits =>
      have hzero := exitStop_of_not_exits hexits
      have hfd' : (c.advance env accessed decoded word memory').fdLive = _ :=
        fdLive_running h hcycle (by omega)
      rw [hfd', hrunning, hzero]
      cases hlive : live c.de with
      | some b =>
          have hslot := live_iff.mp hlive
          obtain ⟨hfd, hclocks⟩ := htimed.live b hslot
          rw [fetchedAt_of_live h hexec hslot, hclocks, hexits]
          cases htarget : c.target env with
          | some target => rfl
          | none =>
              rw [fdLive_of_idle hcycle hrunning hexits htarget hde] at hfd
              cases hfd
      | none =>
          have htarget : c.target env = none := by simp [target, live_de env, hlive]
          have hclocks := htimed.idle hlive
          rw [fdLive_of_idle hcycle hrunning hexits htarget hde, hrunning] at hclocks
          rw [htarget]
          exact congrArg (· + 1) hclocks
  | exit hrunning hstop hexits htarget =>
      have hfive := exitStop_of_exits hexits
      obtain ⟨i, hslot, -⟩ := exits_spec hinv hexits
      obtain ⟨hfd, hclocks⟩ := htimed.live i hslot
      rw [fdLive_stopped hcycle (by omega), hfd, fetchedAt_of_live h hexec hslot, hclocks, htarget,
        hexits, hrunning, hfive]
      simp only [Option.isSome_none, if_true]
      simp
  | frozen hpos hstop hle hidle =>
      have hzero := (of_not_executing hinv hidle hcycle.decode).2.1
      have hlive : live c.de = none := by
        rw [live_de env, Option.map_eq_none_iff] at hidle
        exact hidle
      have hclocks := htimed.idle hlive
      rw [fdLive_stopped hcycle (by omega), hzero, ← hclocks]
      omega

omit hinv hcycle htimed in
private theorem branches_advance
    (hbranches : c.branches = BitVec.ofNat 32 (taken instr c.deIndex)) :
    (c.advance env accessed decoded word memory').branches =
      BitVec.ofNat 32 (taken instr c.fdIndex) := by
  change (if (c.target env).isSome then c.branches + 1 else c.branches) = _
  cases hlive : live c.de with
  | some a =>
      have hslot := live_iff.mp hlive
      have hindex : c.fdIndex = c.deIndex + 1 := by simp [fdIndex, hslot, live]
      rw [hindex, taken_succ, h.target_of_live hexec hslot, hbranches]
      split_ifs
      · exact BitVec.ofNat_add_ofNat ..
      · rfl
  | none =>
      have htarget : c.target env = none := by simp [target, live_de env, hlive]
      rw [htarget, hbranches, fdIndex, hlive]
      rfl

omit hexec hinv h in
/-- A SYSTEM word in memory access stops the front end for another three cycles. -/
private theorem system_accessed {a : Instruction} (hmw : accessed.mw = some a)
    (htype : a.type = .system) : c.deStop = 4 := by
  rcases live_accessed hcycle.access with ⟨-, hnone⟩ | ⟨i, i', hem, hsome, hfixed⟩
  · rw [hnone] at hmw
    cases hmw
  · rw [hsome] at hmw
    cases hmw
    exact htimed.executed i (live_iff.mp hem) ((Instruction.type_of_fixed hfixed).symm.trans htype)

theorem Timed.advance (hrun : c.isStop = false) :
    (c.advance env accessed decoded word memory').Timed instr where
  live := fun a hde => by
    rw [deIndex_advance hcycle.toAccesses hcycle.hits]
    exact live_advance hexec hinv h hcycle htimed hde
  idle := fun hde => by
    rw [fdIndex_advance hcycle.toAccesses hcycle.hits, hde]
    exact idle_advance hexec hinv h hcycle htimed hde
  stopped := fun hpos => by
    have heq := h.stop_eq hinv
    change 0 < c.deStop + c.exitStop env - 1 at hpos
    rw [fdLive_stopped hcycle (by omega)]
    cases hexits : c.exits env with
    | true =>
        obtain ⟨i, hslot, -⟩ := exits_spec hinv hexits
        exact (htimed.live i hslot).1
    | false =>
        rw [exitStop_of_not_exits hexits] at hpos
        exact htimed.stopped (by omega)
  executed := fun a hem htype => by
    obtain ⟨b, hexecuting, hslot⟩ := Option.map_eq_some_iff.mp
      (show ((c.executing env).map fun instr =>
        (⟨instr, decide (decoded.hits > 0)⟩ : Slot)) = some ⟨a, false⟩ from hem)
    obtain rfl : b = a := congrArg Slot.instr hslot
    obtain ⟨i, hde, -⟩ := executing_eq_some hexecuting
    have hexits : c.exits env = true := by simp [exits, hexecuting, htype]
    change c.deStop + c.exitStop env - 1 = 4
    rw [hinv.deStop_of_live hde, exitStop_of_exits hexits]
  accessed := fun a hmw htype => by
    have hfour := system_accessed hcycle htimed hmw htype
    have hidle := idle_of_deStop env hinv (by omega)
    change c.deStop + c.exitStop env - 1 = 3
    rw [(of_not_executing hinv hidle hcycle.decode).2.1, hfour]
  ended := fun hstop => by
    change (c.isStop || c.mw.any fun instr => instr.name = .ecall) = true at hstop
    rw [hrun, Bool.false_or, Option.any_eq_true] at hstop
    obtain ⟨a, hmw, hname⟩ := hstop
    obtain ⟨w, hcarries⟩ := hinv.accessed a hmw
    have htype : a.type = .system := hcarries.type.trans ((Decoder.recognize_sound w).ecall
      (hcarries.name.symm.trans (of_decide_eq_true hname)))
    have hthree := htimed.accessed a hmw htype
    have hidle := idle_of_deStop env hinv (by omega)
    change c.deStop + c.exitStop env - 1 = 2
    rw [(of_not_executing hinv hidle hcycle.decode).2.1, hthree]
  branches := by
    rw [deIndex_advance hcycle.toAccesses hcycle.hits]
    exact branches_advance hexec h htimed.branches
  stops := by
    change c.stops + BitVec.ofNat 32 decoded.hits = 0
    rw [hcycle.hits, htimed.stops]
    rfl

end Step

/-! ## Where the instructions are -/

/-- The cycles that the instructions behind execute have taken since they were fetched. -/
structure Scheduled (instr : Nat → Instruction) (c : Core) : Prop where
  timed : c.Timed instr
  em : ∀ slot, c.em = some slot → c.clocks = fetchedAt instr c.emIndex + 3
  mw : ∀ a, c.mw = some a → c.clocks = fetchedAt instr c.mwIndex + 4
  retired : ∀ k < c.mwIndex, fetchedAt instr k + 5 ≤ c.clocks

theorem Scheduled.boot : (PerfSim.boot memory pc values).core.Scheduled instr where
  timed := .boot
  em := fun _ h => by cases h
  mw := fun _ h => by cases h
  retired := fun _ h => by cases h

theorem Scheduled.advance (hexec : Execution env memory pc values q instr n) (hinv : c.Inv)
    (h : c.Follows env q instr n) (hrun : c.isStop = false)
    (hcycle : Produces env q instr n old c accessed decoded word) (hs : c.Scheduled instr) :
    (c.advance env accessed decoded word memory').Scheduled instr where
  timed := hs.timed.advance hexec hinv h hcycle hrun
  em := fun slot hslot => by
    rw [emIndex_advance hcycle.toAccesses]
    obtain ⟨a, hexecuting, -⟩ := Option.map_eq_some_iff.mp
      (show ((c.executing env).map fun instr =>
        (⟨instr, decide (decoded.hits > 0)⟩ : Slot)) = some slot from hslot)
    obtain ⟨i, hde, -⟩ := executing_eq_some hexecuting
    change c.clocks + 1 = _
    rw [(hs.timed.live i hde).2]
  mw := fun a hmw => by
    rw [mwIndex_advance]
    have haccessed : accessed.mw = some a := hmw
    rcases live_accessed hcycle.access with ⟨-, hnone⟩ | ⟨i, i', hem, -, -⟩
    · rw [hnone] at haccessed
      cases haccessed
    · change c.clocks + 1 = _
      rw [hs.em _ (live_iff.mp hem)]
  retired := fun k hk => by
    rw [mwIndex_advance, emIndex] at hk
    change fetchedAt instr k + 5 ≤ c.clocks + 1
    by_cases hlt : k < c.mwIndex
    · have hle := hs.retired k hlt
      omega
    · cases hmw : c.mw with
      | none =>
          rw [hmw] at hk
          exact absurd hk hlt
      | some a =>
          rw [hmw, Option.toList_some, List.length_singleton] at hk
          obtain rfl : k = c.mwIndex := by omega
          rw [hs.mw a hmw]

theorem Scheduled.lt (hs : c.Scheduled instr) {k : Nat} (hk : c.mwIndex ≤ k) :
    c.clocks < fetchedAt instr k + 5 := by
  have hmono : fetchedAt instr c.mwIndex ≤ fetchedAt instr k := fetchedAt_mono hk
  cases hmw : c.mw with
  | some a =>
      have hclocks := hs.mw a hmw
      omega
  | none =>
      have hem' : c.emIndex = c.mwIndex := by simp [emIndex, hmw]
      cases hem : c.em with
      | some slot =>
          have hclocks := hs.em slot hem
          rw [hem'] at hclocks
          omega
      | none =>
          have hde' : c.deIndex = c.mwIndex := by simp [deIndex, hem, live, hem']
          cases hde : live c.de with
          | some a =>
              have hclocks := (hs.timed.live a (live_iff.mp hde)).2
              rw [hde'] at hclocks
              omega
          | none =>
              have hclocks := hs.timed.idle hde
              have hfd : c.fdIndex = c.mwIndex := by simp [fdIndex, hde, hde']
              rw [hfd] at hclocks
              split_ifs at hclocks <;> omega

theorem Scheduled.retired_iff (hs : c.Scheduled instr) {k : Nat} :
    k < c.mwIndex ↔ fetchedAt instr k + 5 ≤ c.clocks := by
  refine ⟨fun hlt => hs.retired k hlt, fun hle => by_contra fun hnot => ?_⟩
  have hlt := hs.lt (Nat.le_of_not_lt hnot)
  omega

end Core

end RiscvPerfSim
