import RiscvPerfSim.Core.Counting
import RiscvPerfSim.Core.Timing
import RiscvPerfSim.Foundation.Timetable
import RiscvPerfSim.Source.Report
import Mathlib.Data.List.Perm.Basic

/-!
# The course of a program

What the time of a paced run depends on: the words that it executes, which of
them are taken transfers, and the words behind these, which are decoded and
dropped.  No operand of any of them is needed.
-/

namespace RiscvPerfSim

open Foundation

def Decoder.bypass (de em : Option (BitVec 32)) (num : RegName) : Bypass :=
  if num = 0 then .none
  else
    match de.filter fun word => writes word num with
    | some word => if (recognize word).memAccType = .read then .wbEx else .memEx
    | none => if (em.filter fun word => writes word num).isSome then .wbEx else .none

structure Course where
  word : Nat → BitVec 32
  taken : Nat → Bool
  behind : Nat → BitVec 32

namespace Course

variable (p : Course)

/-- The cycles that the front end loses behind a word. -/
def gap (k : Nat) : Nat :=
  (if p.taken k then 2 else 0) +
    if (Decoder.recognize (p.word k)).type = .system then 5 else 0

def starts (k : Nat) : Nat := Timetable.start p.gap k

def under (n time age : Nat) : Option (BitVec 32) :=
  (Timetable.under p.gap n time age).map p.word

def reads (n time : Nat) (word : BitVec 32) : List Bypass :=
  (Decoder.operands word).map (Decoder.bypass (p.under n time 1) (p.under n time 2))

def pathReads (k : Nat) : List Bypass := p.reads k (p.starts k) (p.word k)

/-- The reads of the word behind a taken transfer, for nothing. -/
def shadowReads (k : Nat) : List Bypass :=
  if p.taken k then p.reads (k + 1) (p.starts k + 1) (p.behind k) else []

def readsTo (i j : Nat) : List Bypass :=
  (List.range i).flatMap p.pathReads ++ (List.range j).flatMap p.shadowReads

def bypasses (n : Nat) : List Bypass := p.readsTo n n

/-- What `Log.txt` says of a run of `n + 1` words. -/
def report (n : Nat) (executionTime kips : String) : String :=
  let counter (count : Nat) : String := toString (count % 2 ^ 32)
  reportLine "ic : " (toString (n + 1)) ++
    reportLine "clocks : " (toString (p.starts n + 5)) ++
    reportLine "execution time :" (executionTime ++ "ns") ++
    reportLine "KIPS : " kips ++
    (reportLine "bypasses_wb_ex: " (counter ((p.bypasses (n + 1)).count .wbEx)) ++
      reportLine "bypasses_mem_ex: " (counter ((p.bypasses (n + 1)).count .memEx)) ++
      reportLine "pipeline stops: " (counter 0) ++
      reportLine "branches: " (counter ((List.range n).countP p.taken)))

theorem readsTo_succ_left (i j : Nat) :
    (p.readsTo (i + 1) j).Perm (p.readsTo i j ++ p.pathReads i) := by
  unfold readsTo
  rw [List.range_succ, List.flatMap_append, List.flatMap_singleton, List.append_assoc,
    List.append_assoc]
  exact List.perm_append_comm.append_left _

theorem readsTo_succ_right (i j : Nat) :
    p.readsTo i (j + 1) = p.readsTo i j ++ p.shadowReads j := by
  unfold readsTo
  rw [List.range_succ, List.flatMap_append, List.flatMap_singleton, List.append_assoc]

section Congr

variable {p} {p' : Course} {n : Nat} (hword : ∀ k ≤ n, p.word k = p'.word k)
  (htaken : ∀ k ≤ n, p.taken k = p'.taken k)
include hword htaken

private theorem gap_congr {k : Nat} (hk : k ≤ n) : p.gap k = p'.gap k := by
  rw [gap, gap, hword k hk, htaken k hk]

private theorem reads_congr {k time : Nat} (hk : k ≤ n + 1) (word : BitVec 32) :
    p.reads k time word = p'.reads k time word := by
  have hunder (age : Nat) : p.under k time age = p'.under k time age := by
    rw [under, under, Timetable.under_congr fun j hj =>
      gap_congr hword htaken (Nat.le_of_lt_succ (hj.trans_le hk))]
    refine Option.map_congr fun j hj => hword j (Nat.le_of_lt_succ (lt_of_lt_of_le ?_ hk))
    exact Timetable.lt_of_under hj
  rw [reads, reads, hunder, hunder]

theorem report_congr (hbehind : ∀ k ≤ n, p.taken k = true → p.behind k = p'.behind k)
    (executionTime kips : String) :
    p.report n executionTime kips = p'.report n executionTime kips := by
  have hstarts (k : Nat) (hk : k ≤ n + 1) : p.starts k = p'.starts k :=
    Timetable.start_congr fun j hj => gap_congr hword htaken (Nat.le_of_lt_succ (hj.trans_le hk))
  have hpath (k : Nat) (hk : k < n + 1) : p.pathReads k = p'.pathReads k := by
    rw [pathReads, pathReads, reads_congr hword htaken hk.le, hstarts k hk.le,
      hword k (Nat.le_of_lt_succ hk)]
  have hshadow (k : Nat) (hk : k < n + 1) : p.shadowReads k = p'.shadowReads k := by
    have hle : k ≤ n := Nat.le_of_lt_succ hk
    rw [shadowReads, shadowReads, ← htaken k hle]
    split_ifs with hjump
    · rw [reads_congr hword htaken hk, hstarts k hk.le, hbehind k hle hjump]
    · rfl
  have hbypasses : p.bypasses (n + 1) = p'.bypasses (n + 1) :=
    congrArg₂ (· ++ ·)
      (List.flatMap_congr fun k hk => hpath k (List.mem_range.mp hk))
      (List.flatMap_congr fun k hk => hshadow k (List.mem_range.mp hk))
  have hjumps : (List.range n).countP p.taken = (List.range n).countP p'.taken :=
    List.countP_congr fun k hk => by rw [htaken k (List.mem_range.mp hk).le]
  rw [report, report, hbypasses, hjumps, hstarts n (Nat.le_succ n)]

end Congr

end Course

/-! ## The course of a sequential run -/

def Course.ofRun (memory : Memory) (q : Nat → Seq) (instr : Nat → Instruction) : Course where
  word k := (q k).word
  taken k := (instr k).target.isSome
  behind k := memory.wordAt ((q k).pc + 4)

variable {env : Env} {memory memory' : Memory} {pc : BitVec 32} {values : RegName → BitVec 32}
  {q : Nat → Seq} {instr : Nat → Instruction} {n : Nat} {old : Instruction} {c : Core}
  {accessed : Core.Accessed} {decoded : Core.Decoded} {word : BitVec 32}

theorem Execution.starts_ofRun (hexec : Execution env memory pc values q instr n) {k : Nat}
    (hk : k ≤ n + 1) : (Course.ofRun memory q instr).starts k = fetchedAt instr k := by
  induction k with
  | zero => rfl
  | succ k ih =>
      have htype : (Decoder.recognize (q k).word).type = (instr k).type :=
        (hexec.stepped (by omega)).instr_carries.type.symm
      have hk := ih (by omega)
      unfold Course.starts at hk ⊢
      rw [Timetable.start, hk, fetchedAt, fetchedAt, taken_succ, systems_succ, Course.gap]
      change _ + ((if (instr k).target.isSome then 2 else 0) +
        if (Decoder.recognize (q k).word).type = .system then 5 else 0) = _
      rw [htype]
      split_ifs <;> omega

namespace Core

private theorem lt_add_length {α : Type} {o : Option α} {j base : Nat}
    (h : j < base + o.toList.length) : j < base ∨ o.isSome = true ∧ j = base := by
  cases o with
  | none => exact .inl h
  | some a =>
      rw [Option.toList_some, List.length_singleton] at h
      rcases Nat.lt_or_eq_of_le (Nat.le_of_lt_succ h) with hlt | heq
      · exact .inl hlt
      · exact .inr ⟨rfl, heq⟩

theorem Scheduled.age (hs : c.Scheduled instr) {j : Nat} (hj : j < c.fdIndex) :
    fetchedAt instr j + 4 ≤ c.clocks ∨
      ((live c.em).isSome = true ∧ j = c.emIndex ∧ fetchedAt instr j + 3 = c.clocks) ∨
      ((live c.de).isSome = true ∧ j = c.deIndex ∧ fetchedAt instr j + 2 = c.clocks) := by
  rcases lt_add_length hj with hj | ⟨hde, rfl⟩
  · rcases lt_add_length hj with hj | ⟨hem, rfl⟩
    · left
      rcases lt_add_length hj with hretired | ⟨hmw, rfl⟩
      · have hle := hs.retired j hretired
        omega
      · obtain ⟨a, ha⟩ := Option.isSome_iff_exists.mp hmw
        rw [hs.mw a ha]
    · obtain ⟨a, ha⟩ := Option.isSome_iff_exists.mp hem
      exact .inr (.inl ⟨hem, rfl, (hs.em _ (live_iff.mp ha)).symm⟩)
  · obtain ⟨a, ha⟩ := Option.isSome_iff_exists.mp hde
    exact .inr (.inr ⟨hde, rfl, (hs.timed.live a (live_iff.mp ha)).2.symm⟩)

theorem bypass_eq {de em : Option Instruction} {de' em' : Option (BitVec 32)}
    (hde : Option.Rel Instruction.Carries de de')
    (hem : Option.Rel (fun i w => ∀ num, i.writes num = Decoder.writes w num) em em') :
    bypass de em = Decoder.bypass de' em' := by
  funext num
  have hfeeds : (feeds em num).isSome = (em'.filter fun w => Decoder.writes w num).isSome := by
    cases hem with
    | none => rfl
    | some hwrites => simp only [feeds, Option.filter_some, hwrites num]; split_ifs <;> rfl
  unfold bypass Decoder.bypass
  rw [hfeeds]
  cases hde with
  | none => rfl
  | some hcarries =>
      simp only [feeds, Option.filter_some, hcarries.writes_eq num]
      cases hwrites : Decoder.writes _ num with
      | false => rfl
      | true => simp [HazardUnit.isLoad, hcarries.memAccType]

section Step

variable (hexec : Execution env memory pc values q instr n) (hinv : c.Inv)
  (h : c.Follows env q instr n) (hs : c.Scheduled instr) {time age : Nat}
include hexec h

omit hs in
private theorem under_some {j : Nat} (hj : j < c.fdIndex) (hage : fetchedAt instr j + age = time) :
    (Course.ofRun memory q instr).under c.fdIndex time age = some (q j).word := by
  have hbound := h.bound
  rw [← hexec.starts_ofRun (by omega)] at hage
  rw [Course.under, Timetable.under_eq_some hj hage]
  rfl

omit hs in
private theorem under_none (hage : ∀ j < c.fdIndex, fetchedAt instr j + age ≠ time) :
    (Course.ofRun memory q instr).under c.fdIndex time age = none := by
  have hbound := h.bound
  rw [Course.under, Timetable.under_eq_none fun j hj hstart => ?_]
  · rfl
  · refine hage j hj ?_
    rw [← hexec.starts_ofRun (by omega)]
    exact hstart

include hs

theorem Scheduled.under_de (htime : time + 1 = c.clocks) :
    Option.Rel Instruction.Carries (c.executing env)
      ((Course.ofRun memory q instr).under c.fdIndex time 1) := by
  cases hlive : live c.de with
  | some a =>
      have hslot := live_iff.mp hlive
      have hindex : c.fdIndex = c.deIndex + 1 := by simp [fdIndex, hslot, live]
      have hage := (hs.timed.live a hslot).2
      have hexecuting : c.executing env = some (a.executed env) := by simp [executing, hslot]
      rw [hexecuting, under_some hexec h (j := c.deIndex) (by omega) (by omega)]
      exact .some (h.de a hslot).2.1.executed
  | none =>
      have hidle : c.executing env = none := by simp [live_de env, hlive]
      rw [hidle, under_none hexec h fun j hj hage => ?_]
      · exact .none
      · rcases hs.age hj with hold | ⟨-, -, hem⟩ | ⟨hde, -⟩
        · omega
        · omega
        · rw [hlive] at hde
          cases hde

theorem Scheduled.under_em (haccess : Accesses env q instr c accessed)
    (htime : time + 1 = c.clocks) :
    Option.Rel (fun i w => ∀ num, i.writes num = Decoder.writes w num) accessed.mw
      ((Course.ofRun memory q instr).under c.fdIndex time 2) := by
  rcases live_accessed haccess.access with ⟨hem, hmw⟩ | ⟨i, i', hem, hmw, -⟩
  · rw [hmw, under_none hexec h fun j hj hage => ?_]
    · exact .none
    · rcases hs.age hj with hold | ⟨hlive, -⟩ | ⟨-, -, hde⟩
      · omega
      · rw [hem] at hlive
        cases hlive
      · omega
  · have hslot := live_iff.mp hem
    have hindex : c.emIndex < c.fdIndex := by
      have hde : c.deIndex = c.emIndex + 1 := by simp [deIndex, hem]
      have hfd : c.deIndex ≤ c.fdIndex := Nat.le_add_right _ _
      omega
    have hage := hs.em _ hslot
    rw [hmw, under_some hexec h hindex (by omega)]
    refine .some fun num => ?_
    rw [(haccess.mw i' hmw).writes,
      (hexec.stepped (h.em _ hslot).2.1).instr_carries.writes_eq]

private theorem bypasses_of_decoding (haccess : Accesses env q instr c accessed)
    {fetched : Fetched} (hdecoding : c.decoding env = some fetched)
    (htime : time + 1 = c.clocks) : c.bypasses env accessed.mw =
      (Course.ofRun memory q instr).reads c.fdIndex time fetched.word := by
  rw [bypasses, hdecoding]
  exact congrArg (fun f => (Decoder.operands fetched.word).map f)
    (bypass_eq (hs.under_de hexec h htime) (hs.under_em hexec h haccess htime))

variable (hcycle : Produces env q instr n old c accessed decoded word)
include hinv hcycle

private theorem bypasses_issued (hrun : c.isStop = false) {a : Instruction}
    (hde : (c.advance env accessed decoded word memory').de = some ⟨a, false⟩) :
    c.target env = none ∧ c.bypasses env accessed.mw =
      (Course.ofRun memory q instr).pathReads c.fdIndex := by
  have hnext : (c.advance env accessed decoded word memory').Scheduled instr :=
    hs.advance hexec hinv h hrun hcycle
  have hclocks := (hnext.timed.live a hde).2
  rw [deIndex_advance hcycle.toAccesses hcycle.hits] at hclocks
  obtain ⟨hdeStop, -, hexits, htarget⟩ := running_of_live hinv h hcycle hde
  refine ⟨htarget, ?_⟩
  have hle := fdIndex_le hinv h hrun hdeStop hexits
  rw [advance_de_running hdeStop hexits] at hde
  obtain ⟨b, hinstr, -⟩ := Option.map_eq_some_iff.mp hde
  have hissued := decodeStage_isSome hcycle.decode
  rw [hinstr] at hissued
  obtain ⟨fetched, hdecoding⟩ := Option.isSome_iff_exists.mp hissued.symm
  have hfd := (decoding_eq_some hdecoding).1
  have hword : fetched.word = (q c.fdIndex).word := by
    cases h.front htarget hle with
    | fetched hfd' =>
        rw [hfd, Option.some.injEq] at hfd'
        exact congrArg Fetched.word hfd'
    | awaited hidle => exact absurd hfd (hidle _ _)
  have htime : fetchedAt instr c.fdIndex + 1 = c.clocks := by
    change c.clocks + 1 = _ at hclocks
    omega
  rw [bypasses_of_decoding hexec h hs hcycle.toAccesses hdecoding htime, hword,
    Course.pathReads, hexec.starts_ofRun (by omega)]
  rfl

private theorem bypasses_taken (hkeeps : c.Keeps memory q instr n)
    (htarget : (c.target env).isSome = true) : c.bypasses env accessed.mw =
      (Course.ofRun memory q instr).shadowReads c.deIndex := by
  obtain ⟨x, hx⟩ := Option.isSome_iff_exists.mp htarget
  obtain ⟨y, hexecuting, -⟩ := Option.bind_eq_some_iff.mp hx
  obtain ⟨a, hde, -⟩ := executing_eq_some hexecuting
  have hjump : (instr c.deIndex).target.isSome = true := by
    rw [← h.target_of_live hexec hde]
    exact htarget
  obtain ⟨w, hfd, -, hw⟩ := hkeeps.ahead a hde
  have hexits : c.exits env = false := by
    rw [← Bool.not_eq_true]
    intro hexits
    obtain ⟨i, -, -, -, hnone⟩ := exits_spec hinv hexits
    rw [hnone] at htarget
    cases htarget
  have hdecoding : c.decoding env = some ⟨(q c.deIndex).pc + 4, w, false⟩ := by
    simp [decoding, hfd, hinv.deStop_of_live hde, exitStop_of_not_exits hexits]
  have hindex : c.fdIndex = c.deIndex + 1 := by simp [fdIndex, hde, live]
  have htime : fetchedAt instr c.deIndex + 1 + 1 = c.clocks := (hs.timed.live a hde).2.symm
  have hle := (h.de a hde).1
  rw [bypasses_of_decoding hexec h hs hcycle.toAccesses hdecoding htime, hindex,
    Course.shadowReads, hexec.starts_ofRun (by omega)]
  change _ = if (instr c.deIndex).target.isSome then _ else []
  rw [if_pos hjump, hw hjump]
  rfl

omit hexec h hs hinv in
private theorem bypasses_idle (htarget : c.target env = none)
    (hde : live (c.advance env accessed decoded word memory').de = none) :
    c.bypasses env accessed.mw = [] := by
  cases hdecoding : c.decoding env with
  | none => rw [bypasses, hdecoding]
  | some fetched =>
      have hstop := (decoding_eq_some hdecoding).2
      have hexits : c.exits env = false := by
        rw [← Bool.not_eq_true]
        intro hexits
        rw [exitStop_of_exits hexits] at hstop
        omega
      have hissued := decodeStage_isSome hcycle.decode
      rw [hdecoding] at hissued
      obtain ⟨b, hb⟩ := Option.isSome_iff_exists.mp hissued
      rw [advance_de_running (by omega) hexits, hb, htarget] at hde
      cases hde

/-- The reads of a cycle are those of the word of the path that it decodes, or of the word behind
the transfer that it executes. -/
theorem Scheduled.bypasses_advance (hrun : c.isStop = false)
    (hkeeps : c.Keeps memory q instr n) :
    ((Course.ofRun memory q instr).readsTo
        (c.advance env accessed decoded word memory').fdIndex
        (c.advance env accessed decoded word memory').deIndex).Perm
      ((Course.ofRun memory q instr).readsTo c.fdIndex c.deIndex ++
        c.bypasses env accessed.mw) := by
  rw [fdIndex_advance hcycle.toAccesses hcycle.hits, deIndex_advance hcycle.toAccesses hcycle.hits]
  have hshadows (i : Nat) : (Course.ofRun memory q instr).readsTo i c.fdIndex =
      (Course.ofRun memory q instr).readsTo i c.deIndex ++
        if (c.target env).isSome then (Course.ofRun memory q instr).shadowReads c.deIndex
        else [] := by
    cases hlive : live c.de with
    | none =>
        have htarget : c.target env = none := by simp [target, live_de env, hlive]
        rw [show c.fdIndex = c.deIndex by simp [fdIndex, hlive], htarget]
        exact (List.append_nil _).symm
    | some a =>
        have hjump := h.target_of_live hexec (live_iff.mp hlive)
        rw [show c.fdIndex = c.deIndex + 1 by simp [fdIndex, hlive], Course.readsTo_succ_right]
        cases htarget : c.target env with
        | some target => rfl
        | none =>
            rw [Course.shadowReads, if_neg]
            · rfl
            · simp [Course.ofRun, ← hjump, htarget]
  cases hde : live (c.advance env accessed decoded word memory').de with
  | some a =>
      obtain ⟨htarget, hreads⟩ := bypasses_issued hexec hinv h hs hcycle hrun (live_iff.mp hde)
      have hpath := Course.readsTo_succ_left (p := Course.ofRun memory q instr) c.fdIndex c.fdIndex
      rw [hreads]
      rw [hshadows c.fdIndex, htarget] at hpath
      simpa using hpath
  | none =>
      rw [Option.toList_none, List.length_nil, Nat.add_zero, hshadows c.fdIndex]
      cases htarget : c.target env with
      | none =>
          rw [bypasses_idle hcycle htarget hde]
          exact List.Perm.refl _
      | some target =>
          rw [bypasses_taken hexec hinv h hs hcycle hkeeps (by rw [htarget]; rfl)]
          exact List.Perm.refl _

end Step

end Core

end RiscvPerfSim
