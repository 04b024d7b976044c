import RiscvPerfSim.Core.LoadUse

/-!
# Cycle accounting

Every cycle retires an instruction or writes a bubble back, and every bubble
has a cause that the counters record.  The balance below weighs the bubbles in
the latches and the stops still to come against the counters.
-/

namespace RiscvPerfSim

open Foundation

namespace Core

variable {env : Env} {old : Instruction} {c c' : Core} {accessed : Accessed}
  {decoded : Decoded} {word : BitVec 32} {memory : Memory} {systems : Nat}

/-! ## Bubbles -/

def bubble {α : Type} (latch : Option α) : Nat := if latch.isSome then 0 else 1

def liveFd (c : Core) : Option Fetched := c.fd.filter fun fetched => !fetched.killed

def bubbles (c : Core) : Nat :=
  bubble c.liveFd + bubble (live c.de) + bubble (live c.em) + bubble c.mw

@[simp] theorem bubble_none {α : Type} : bubble (none : Option α) = 1 := rfl

@[simp] theorem bubble_some {α : Type} (a : α) : bubble (some a) = 0 := rfl

theorem bubble_of_isSome {α β : Type} {latch : Option α} {latch' : Option β}
    (h : latch.isSome = latch'.isSome) : bubble latch = bubble latch' := by
  unfold bubble
  rw [h]

theorem bubble_eq_zero {α : Type} {latch : Option α} (h : latch.isSome = true) :
    bubble latch = 0 := by
  unfold bubble
  rw [h]
  rfl

def ecall (instr : Option Instruction) : Nat :=
  if instr.any fun instr => instr.name = .ecall then 1 else 0

def system (env : Env) (c : Core) : Nat :=
  if (c.executing env).any fun instr => instr.type = .system && instr.name ≠ .ecall then 1
  else 0

/-! ## The balance -/

/--
The books between two cycles of a run that has charged every load-use once;
`systems` counts the SYSTEM words other than `ECALL` that have executed.
-/
structure Account (c : Core) (systems : Nat) : Prop where
  balance : c.clocks + c.bubbles + c.deStop =
    c.ic + 4 + 2 * c.branches.toNat + c.stops.toNat +
      5 * (systems + ecall (live c.em) + ecall c.mw + if c.isStop then 1 else 0)
  stops : c.stop = c.deStop
  unflushed : c.flush = false
  filled : (live c.de).isSome = true ∨ 0 < c.deStop → c.liveFd.isSome = true
  drained : 0 < c.deStop → c.deStop < 4 → c.em = none
  executed : ∀ instr, live c.em = some instr → instr.type = .system → c.deStop = 4
  accessed : ∀ instr, c.mw = some instr → instr.type = .system → c.deStop = 3
  ended : c.isStop = true → c.deStop = 2 ∧ c.bubbles = 3 ∧ ecall (live c.em) = 0 ∧
    ecall c.mw = 0

structure Charged (env : Env) (c : Core) (hits : Nat) : Prop where
  single : hits ≤ 1
  branches : (c.target env).isSome = true → c.branches.toNat + 1 < 2 ^ 32
  stops : 0 < hits → c.stops.toNat + 1 < 2 ^ 32

/-! ## What one cycle adds to the books -/

theorem bubble_accessed (haccess : c.memStage env = .ok accessed) :
    bubble accessed.mw = bubble (live c.em) ∧ ecall accessed.mw = ecall (live c.em) := by
  rcases live_accessed haccess with ⟨hem, hmw⟩ | ⟨i, i', hem, hmw, hfixed⟩
  · rw [hem, hmw]
    exact ⟨rfl, rfl⟩
  · rw [hem, hmw]
    simp [ecall, Instruction.name_of_fixed hfixed]

theorem bubble_executing (env : Env) : bubble (c.executing env) = bubble (live c.de) := by
  apply bubble_of_isSome
  rw [live_de env, Option.isSome_map]

theorem live_advance_em : live (c.advance env accessed decoded word memory).em =
    if decoded.hits = 0 then c.executing env else none := by
  change live ((c.executing env).map fun instr =>
    (⟨instr, decide (decoded.hits > 0)⟩ : Slot)) = _
  split_ifs with hhits
  · cases hexec : c.executing env with
    | none => rfl
    | some instr => simp [live, hhits]
  · have hpos : decoded.hits > 0 := Nat.pos_of_ne_zero hhits
    cases hexec : c.executing env with
    | none => rfl
    | some instr => simp [live, hpos]

section Step

variable (hinv : c.Inv) (hacc : c.Account systems) (hrun : c.isStop = false)
  (h : Stepped env old c accessed decoded word memory) (hcharged : Charged env c decoded.hits)
  (hnext : c' = c.advance env accessed decoded word memory)
include hinv h hnext

theorem system_add_ecall :
    c.system env + ecall (live c'.em) =
      if c.exits env then 1 else 0 := by
  rw [hnext, live_advance_em]
  cases hexec : c.executing env with
  | none => simp [system, ecall, exits, hexec]
  | some instr =>
      obtain ⟨i, w, -, -, -, hcarries, -⟩ := executing_spec hinv hexec
      by_cases htype : instr.type = .system
      · have hexits : c.exits env = true := by simp [exits, hexec, htype]
        have hhits : decoded.hits = 0 := by
          cases hinv.phase h.decode with
          | flow _ _ _ hhits => exact hhits
          | held _ _ _ hhits => exact hhits
          | hit _ _ hno => simp [hexits] at hno
          | exit _ _ _ _ hidle => rw [hidle]
          | frozen _ _ _ hno => simp [hexec] at hno
        by_cases hname : instr.name = .ecall
        · simp [system, ecall, hexits, hexec, hhits, htype, hname]
        · simp [system, ecall, hexits, hexec, hhits, htype, hname]
      · have hname : instr.name ≠ .ecall := by
          rw [hcarries.name]
          intro hname
          rw [hcarries.type] at htype
          exact htype ((Decoder.recognize_sound w).ecall hname)
        split_ifs <;> simp_all [system, ecall, exits]

omit hinv in
private theorem balance_of (hacc : c.Account systems) (hrun : c.isStop = false) (hsystem :
      c.system env + ecall (live c'.em) =
        if c.exits env then 1 else 0)
    (hdelta : c'.bubbles +
        c'.deStop + bubble c.mw +
        2 * c.branches.toNat + c.stops.toNat =
      c.bubbles + c.deStop + 2 * c'.branches.toNat +
        c'.stops.toNat +
        5 * if c.exits env then 1 else 0) :
    c'.clocks +
        c'.bubbles +
        c'.deStop =
      c'.ic + 4 +
        2 * c'.branches.toNat +
        c'.stops.toNat +
        5 * (systems + c.system env +
          ecall (live c'.em) +
          ecall c'.mw +
          if c'.isStop then 1 else 0) := by
  subst hnext
  have hold := hacc.balance
  have hecall : ecall (c.advance env accessed decoded word memory).mw = ecall (live c.em) :=
    (bubble_accessed h.access).2
  have hended : (if (c.advance env accessed decoded word memory).isStop then 1 else 0) =
      ecall c.mw := by
    simp [advance, hrun, ecall]
  have hic : (c.advance env accessed decoded word memory).ic + bubble c.mw = c.ic + 1 := by
    cases hmw : c.mw <;> simp [advance, hmw]
  have hclocks : (c.advance env accessed decoded word memory).clocks = c.clocks + 1 := rfl
  rw [hrun] at hold
  rw [hended, hecall, hclocks]
  simp only [Bool.false_eq_true, if_false] at hold
  omega

omit hinv in
private theorem bubbles_next : c'.bubbles = bubble c'.liveFd + bubble (live c'.de) +
    (if decoded.hits = 0 then bubble (live c.de) else 1) + bubble (live c.em) := by
  subst hnext
  unfold bubbles
  rw [live_advance_em, show (c.advance env accessed decoded word memory).mw = accessed.mw from rfl,
    (bubble_accessed h.access).1]
  split_ifs
  · rw [bubble_executing]
  · rfl

private theorem executed_next (instr : Instruction) (hem : live c'.em = some instr)
    (htype : instr.type = .system) : c'.deStop = 4 := by
  rw [hnext, live_advance_em] at hem
  split_ifs at hem
  have hexits : c.exits env = true := by simp [exits, hem, htype]
  subst hnext
  cases hinv.phase h.decode with
  | flow _ _ hno => simp [hexits] at hno
  | hit _ _ hno => simp [hexits] at hno
  | held _ _ hno => simp [hexits] at hno
  | exit hde => simp [advance, hde, exitStop, hexits]
  | frozen _ _ _ hexec => simp [hexec] at hem

include hacc in
private theorem accessed_next (instr : Instruction) (hmw : c'.mw = some instr)
    (htype : instr.type = .system) : c'.deStop = 3 := by
  subst hnext
  rcases live_accessed h.access with ⟨-, hnone⟩ | ⟨i, i', hem, hsome, hfixed⟩
  · change accessed.mw = some instr at hmw
    rw [hnone] at hmw
    cases hmw
  · change accessed.mw = some instr at hmw
    rw [hsome, Option.some.injEq] at hmw
    subst hmw
    have hfour := hacc.executed i hem (by rw [← Instruction.type_of_fixed hfixed, htype])
    cases hinv.phase h.decode with
    | flow hde => omega
    | hit hde => omega
    | held hde => omega
    | exit hde => omega
    | frozen _ _ _ hexec => simp [advance, exitStop, exits, hexec, hfour]

private theorem ended_next (hacc : c.Account systems) (hrun : c.isStop = false)
    (hended : c'.isStop = true) : c'.deStop = 2 ∧ c'.bubbles = 3 ∧
      ecall (live c'.em) = 0 ∧ ecall c'.mw = 0 := by
  have hecall : (c.mw.any fun instr => instr.name = .ecall) = true := by
    subst hnext
    simpa [advance, hrun] using hended
  simp only [Option.any_eq_true, decide_eq_true_eq] at hecall
  obtain ⟨instr, hmw, hname⟩ := hecall
  obtain ⟨w, hcarries⟩ := hinv.accessed instr hmw
  have htype : instr.type = .system := by
    rw [hcarries.type]
    refine (Decoder.recognize_sound w).ecall ?_
    rw [← hcarries.name]
    exact hname
  have hthree := hacc.accessed instr hmw htype
  have hem : c.em = none := hacc.drained (by omega) (by omega)
  have hbubbles := bubbles_next h hnext
  cases hinv.phase h.decode with
  | flow hde => omega
  | hit hde => omega
  | held hde => omega
  | exit hde => omega
  | frozen hpos hstop hle hexec hidle =>
      have hfd := hacc.filled (.inr hpos)
      have hne : c.stop ≠ 0 := by omega
      have hliveFd : c'.liveFd = c.liveFd := by
        subst hnext
        simp [liveFd, advance, hne]
      have hlive : live c.de = none := by
        rwa [live_de env, Option.map_eq_none_iff] at hexec
      have hde : live c'.de = none := by
        rw [hnext, advance_de_frozen hpos hexec, hlive]
      have hmw' : c'.mw = none := by
        rcases live_accessed h.access with ⟨-, hnone⟩ | ⟨i, i', hi, -⟩
        · subst hnext
          exact hnone
        · rw [hem] at hi
          cases hi
      refine ⟨?_, ?_, ?_, ?_⟩
      · subst hnext
        simp [advance, exitStop, exits, hexec, hthree]
      · rw [hbubbles, hliveFd, bubble_eq_zero hfd, hde, hlive, hem]
        simp [hidle]
        rfl
      · rw [hnext, live_advance_em, hexec]
        split_ifs <;> rfl
      · rw [hmw']
        rfl

omit hinv h in
private theorem liveFd_stopped (hstop : c.stop + c.exitStop env + decoded.hits ≠ 0) :
    c'.liveFd = c.liveFd := by
  subst hnext
  have hfd : (c.advance env accessed decoded word memory).fd = c.fd := if_neg hstop
  simp only [liveFd, hfd]

omit hinv h in
private theorem flush_next (hacc : c.Account systems) (htarget : (c.target env).isSome = true →
    c.stop + c.exitStop env + decoded.hits = 0) : c'.flush = false := by
  subst hnext
  change (if c.stop + c.exitStop env + decoded.hits = 0 then false
    else c.flush || (c.target env).isSome) = false
  split_ifs with hzero
  · rfl
  · rw [hacc.unflushed, Bool.false_or, ← Bool.not_eq_true]
    exact fun hsome => hzero (htarget hsome)

private theorem account_of (hacc : c.Account systems) (hrun : c.isStop = false)
    (hdelta : c'.bubbles + c'.deStop + bubble c.mw + 2 * c.branches.toNat + c.stops.toNat =
      c.bubbles + c.deStop + 2 * c'.branches.toNat + c'.stops.toNat +
        5 * if c.exits env then 1 else 0)
    (hstops : c'.stop = c'.deStop)
    (htaken : (c.target env).isSome = true → c.stop + c.exitStop env + decoded.hits = 0)
    (hfilled : (live c'.de).isSome = true ∨ 0 < c'.deStop → c'.liveFd.isSome = true)
    (hdrained : 0 < c'.deStop → c'.deStop < 4 → c'.em = none) :
    c'.Account (systems + c.system env) where
  balance := balance_of h hnext hacc hrun (system_add_ecall hinv h hnext) hdelta
  stops := hstops
  unflushed := flush_next hnext hacc htaken
  filled := hfilled
  drained := hdrained
  executed := executed_next hinv h hnext
  accessed := accessed_next hinv hacc h hnext
  ended := ended_next hinv h hnext hacc hrun

private theorem account_flow (hacc : c.Account systems) (hrun : c.isStop = false)
    (hde : c.deStop = 0) (hstop : c.stop = 0) (hexits : c.exits env = false)
    (hhits : decoded.hits = 0) (hcharged : Charged env c decoded.hits) :
    c'.Account (systems + c.system env) := by
  have hzero := exitStop_of_not_exits hexits
  have hfree : c.stop + c.exitStop env + decoded.hits = 0 := by omega
  have hdeStop : c'.deStop = 0 := by
    subst hnext
    simp [advance, hde, hzero]
  have hstop' : c'.stop = 0 := by
    subst hnext
    simp [advance, hstop, hzero, hhits]
  have hstops : c'.stops = c.stops := by
    subst hnext
    simp [advance, hhits]
  have hfd : c'.fd = some ⟨c.nextPc, word, (c.target env).isSome⟩ := by
    subst hnext
    simp [advance, hfree, hacc.unflushed]
  have hslot : c'.de = decoded.instr.map fun instr => ⟨instr, (c.target env).isSome⟩ := by
    rw [hnext]
    exact advance_de_running hde hexits
  have hissued : decoded.instr.isSome = c.liveFd.isSome := by
    rw [decodeStage_isSome h.decode]
    simp only [decoding, liveFd, hde, hzero]
    rcases c.fd with - | ⟨pc, w, - | -⟩ <;> rfl
  have hbubbles := bubbles_next h hnext
  rw [if_pos hhits] at hbubbles
  cases htarget : c.target env with
  | none =>
      have hlive : live c'.de = decoded.instr := by
        rw [hslot, htarget]
        cases decoded.instr <;> rfl
      have hliveFd : c'.liveFd.isSome = true := by
        simp [liveFd, hfd, htarget]
      have hbranches : c'.branches = c.branches := by
        subst hnext
        simp [advance, htarget]
      rw [bubble_eq_zero hliveFd, hlive, bubble_of_isSome hissued] at hbubbles
      refine account_of hinv h hnext hacc hrun ?_ (by omega) (fun _ => hfree)
        (fun _ => hliveFd) (by omega)
      rw [hbubbles, hdeStop, hbranches, hstops, hexits, hde, bubbles]
      simp only [Bool.false_eq_true, if_false]
      omega
  | some target =>
      -- the two words behind a taken branch: both latches held one
      have hexec : (live c.de).isSome = true := by
        cases hlive : live c.de with
        | some instr => rfl
        | none => simp [Core.target, live_de env, hlive] at htarget
      have hlive : live c'.de = none := by
        rw [hslot, htarget]
        cases decoded.instr <;> rfl
      have hliveFd : c'.liveFd = none := by
        simp [liveFd, hfd, htarget]
      have hfull := hacc.filled (.inl hexec)
      have hbranches : c'.branches.toNat = c.branches.toNat + 1 := by
        have hfits := hcharged.branches (by rw [htarget]; rfl)
        subst hnext
        simp only [advance, htarget, Option.isSome_some, if_true, BitVec.toNat_add]
        exact Nat.mod_eq_of_lt hfits
      rw [hliveFd, hlive, bubble_none, bubble_none] at hbubbles
      refine account_of hinv h hnext hacc hrun ?_ (by omega) (fun _ => hfree) ?_ (by omega)
      · rw [hbubbles, hdeStop, hbranches, hstops, hexits, hde, bubbles, bubble_eq_zero hfull,
          bubble_eq_zero hexec]
        simp only [Bool.false_eq_true, if_false]
        omega
      · intro hsome
        rw [hlive] at hsome
        simp only [Option.isSome_none, Bool.false_eq_true, false_or] at hsome
        omega

private theorem account_hit (hacc : c.Account systems) (hrun : c.isStop = false)
    (hde : c.deStop = 0) (hstop : c.stop = 0) (hexits : c.exits env = false)
    (htarget : c.target env = none) (hpos : 0 < decoded.hits)
    (hcharged : Charged env c decoded.hits) : c'.Account (systems + c.system env) := by
  have hzero := exitStop_of_not_exits hexits
  have hone : decoded.hits = 1 := by
    have hle := hcharged.single
    omega
  obtain ⟨-, -, -, -, ld, instr, fetched, num, hexec, -, hinstr, hfd, -⟩ :=
    hits_spec hinv h.decode hpos
  have hdeStop : c'.deStop = 0 := by
    subst hnext
    simp [advance, hde, hzero]
  have hstop' : c'.stop = 0 := by
    subst hnext
    simp [advance, hstop, hzero, hone]
  have hbranches : c'.branches = c.branches := by
    subst hnext
    simp [advance, htarget]
  have hstops : c'.stops.toNat = c.stops.toNat + 1 := by
    have hfits := hcharged.stops hpos
    subst hnext
    simp only [advance, hone, BitVec.toNat_add]
    exact Nat.mod_eq_of_lt hfits
  have hlive : live c'.de = some instr := by
    rw [hnext, advance_de_running hde hexits, hinstr, htarget]
    rfl
  have hlive' : (live c.de).isSome = true := by
    rw [live_de env] at hexec
    rw [← Option.isSome_map, hexec]
    rfl
  have hliveFd : c'.liveFd = c.liveFd := liveFd_stopped hnext (by omega)
  have hfull : c.liveFd.isSome = true := by
    simp [liveFd, hfd]
  have hbubbles := bubbles_next h hnext
  rw [if_neg (by omega), hliveFd, bubble_eq_zero hfull, hlive, bubble_some] at hbubbles
  refine account_of hinv h hnext hacc hrun ?_ (by omega) (by simp [htarget])
    (fun _ => by rw [hliveFd]; exact hfull) (by omega)
  rw [hbubbles, hdeStop, hbranches, hstops, hexits, hde, bubbles, bubble_eq_zero hfull,
    bubble_eq_zero hlive']
  simp only [Bool.false_eq_true, if_false]
  omega

private theorem account_exit (hacc : c.Account systems) (hrun : c.isStop = false)
    (hde : c.deStop = 0) (hstop : c.stop = 0) (hexits : c.exits env = true)
    (htarget : c.target env = none) (hidle : decoded = ⟨none, c.exRf, 0⟩) :
    c'.Account (systems + c.system env) := by
  have hfive := exitStop_of_exits hexits
  have hhits : decoded.hits = 0 := by rw [hidle]
  have hslots : (live c.de).isSome = true ∧ live c'.de = none := by
    subst hnext
    obtain ⟨i, -, hslot, -, hslot'⟩ := advance_de_exit hinv hexits
    rw [hslot, hslot']
    exact ⟨rfl, rfl⟩
  obtain ⟨hlive, hlive'⟩ := hslots
  have hdeStop : c'.deStop = 4 := by
    subst hnext
    simp [advance, hde, hfive]
  have hstop' : c'.stop = 4 := by
    subst hnext
    simp [advance, hstop, hfive, hhits]
  have hbranches : c'.branches = c.branches := by
    subst hnext
    simp [advance, htarget]
  have hstops : c'.stops = c.stops := by
    subst hnext
    simp [advance, hhits]
  have hliveFd : c'.liveFd = c.liveFd := liveFd_stopped hnext (by omega)
  have hfull := hacc.filled (.inl hlive)
  have hbubbles := bubbles_next h hnext
  rw [if_pos hhits, hliveFd, bubble_eq_zero hfull, hlive', bubble_none,
    bubble_eq_zero hlive] at hbubbles
  refine account_of hinv h hnext hacc hrun ?_ (by omega) (by simp [htarget])
    (fun _ => by rw [hliveFd]; exact hfull) (by omega)
  rw [hbubbles, hdeStop, hbranches, hstops, hexits, hde, bubbles, bubble_eq_zero hfull,
    bubble_eq_zero hlive]
  simp only [if_true]
  omega

private theorem account_frozen (hacc : c.Account systems) (hrun : c.isStop = false)
    (hpos : 0 < c.deStop) (hstop : c.stop = c.deStop)
    (hexec : c.executing env = none) (hidle : decoded = ⟨none, c.exRf, 0⟩) :
    c'.Account (systems + c.system env) := by
  have hexits : c.exits env = false := by simp [exits, hexec]
  have htarget : c.target env = none := by simp [target, hexec]
  have hzero := exitStop_of_not_exits hexits
  have hhits : decoded.hits = 0 := by rw [hidle]
  have hlive : live c.de = none := by
    rwa [live_de env, Option.map_eq_none_iff] at hexec
  have hlive' : live c'.de = none := by
    rw [hnext, advance_de_frozen hpos hexec, hlive]
  have hdeStop : c'.deStop = c.deStop - 1 := by
    subst hnext
    simp [advance, hzero]
  have hstop' : c'.stop = c.stop - 1 := by
    subst hnext
    simp [advance, hzero, hhits]
  have hbranches : c'.branches = c.branches := by
    subst hnext
    simp [advance, htarget]
  have hstops : c'.stops = c.stops := by
    subst hnext
    simp [advance, hhits]
  have hliveFd : c'.liveFd = c.liveFd := liveFd_stopped hnext (by omega)
  have hbubbles := bubbles_next h hnext
  rw [if_pos hhits, hliveFd, hlive', hlive, bubble_none] at hbubbles
  refine account_of hinv h hnext hacc hrun ?_ (by omega) (by simp [htarget])
    (fun _ => by rw [hliveFd]; exact hacc.filled (.inr hpos)) ?_
  · rw [hbubbles, hdeStop, hbranches, hstops, hexits, bubbles, hlive, bubble_none]
    simp only [Bool.false_eq_true, if_false]
    omega
  · intro _ _
    subst hnext
    simp [advance, hexec]

theorem Account.advance (hacc : c.Account systems) (hrun : c.isStop = false)
    (hcharged : Charged env c decoded.hits) : c'.Account (systems + c.system env) := by
  cases hinv.phase h.decode with
  | flow hde hstop hexits hhits =>
      exact account_flow hinv h hnext hacc hrun hde hstop hexits hhits hcharged
  | hit hde hstop hexits htarget hpos hle =>
      exact account_hit hinv h hnext hacc hrun hde hstop hexits htarget hpos hcharged
  | held hde hstop =>
      have hsame := hacc.stops
      omega
  | exit hde hstop hexits htarget hidle =>
      exact account_exit hinv h hnext hacc hrun hde hstop hexits htarget hidle
  | frozen hpos hstop hle hexec hidle =>
      exact account_frozen hinv h hnext hacc hrun hpos hstop hexec hidle

end Step

end Core

namespace PerfSim

variable {env : Env} {s t : PerfSim} {n : Nat}

def executesSystem (s : PerfSim) : Bool :=
  (s.deSt.load.instrOf s.decoder).any fun instr =>
    instr.type = .system && instr.name ≠ .ecall

/-- The SYSTEM words other than `ECALL` that at most `n` rounds execute. -/
def systemsIn (env : Env) : Nat → PerfSim → Nat
  | 0, _ => 0
  | n + 1, s =>
      if s.isStop then 0
      else
        match s.cycle env with
        | .ok s' => (if s.executesSystem then 1 else 0) + systemsIn env n s'
        | .error _ => 0

def takesBranch (env : Env) (s : PerfSim) : Bool :=
  (s.deSt.load.instrOf s.decoder).any fun instr => transfers (instr.executed env)

/--
What the next cycle charges to the counters of `HazardUnit` is one stop at most,
and does not wrap them.
-/
structure Charges (env : Env) (s : PerfSim) : Prop where
  single : ∀ load num, s.LoadUse load num → Decoder.needsTwice s.fdSt.load.instr = false
  branches : s.takesBranch env = true → s.hu.branches.toNat + 1 < 2 ^ 32
  stops : ∀ load num, s.LoadUse load num → s.hu.stops.toNat + 1 < 2 ^ 32

theorem Good.charged (hgood : s.Good) (hcharges : s.Charges env)
    {accessed : Core.Accessed} {decoded : Core.Decoded} {word : BitVec 32} {memory : Memory}
    (h : Core.Stepped env s.leftover s.core accessed decoded word memory) :
    s.core.Charged env decoded.hits := by
  have hpos : 0 < decoded.hits → ∃ load num, s.LoadUse load num := by
    intro hpos
    obtain ⟨load, fetched, num, huse⟩ :=
      (Core.hits_pos_iff hgood.pipeline h.access h.decode).mp hpos
    exact ⟨load, num, (hgood.loadAhead_iff.mp huse).1⟩
  constructor
  case single =>
    rcases Nat.eq_zero_or_pos decoded.hits with hzero | hhits
    · omega
    obtain ⟨load, num, huse⟩ := hpos hhits
    obtain ⟨hle, -, -, -, ld, instr, fetched, r, -, -, -, hfd, -, -, -, -, htwice⟩ :=
      Core.hits_spec hgood.pipeline h.decode hhits
    have hword : s.fdSt.load.instr = fetched := by
      have hsame := huse.core.fd
      rw [hfd, Option.some.injEq] at hsame
      exact congrArg Fetched.word hsame.symm
    have hsingle := hcharges.single load num huse
    have hne : decoded.hits ≠ 2 := by
      intro htwo
      rw [hword, htwice htwo] at hsingle
      cases hsingle
    omega
  case branches =>
    intro htarget
    refine hcharges.branches ?_
    rw [Core.target, executing_core] at htarget
    cases hde : s.deSt.load.instrOf s.decoder with
    | none => simp [hde] at htarget
    | some instr => simpa [hde, takesBranch, Instruction.target] using htarget
  case stops =>
    intro hhits
    obtain ⟨load, num, huse⟩ := hpos hhits
    exact hcharges.stops load num huse

theorem system_core (hgood : s.Good) :
    s.core.system env = if s.executesSystem then 1 else 0 := by
  unfold Core.system executesSystem
  rw [executing_core]
  cases hde : s.deSt.load.instrOf s.decoder with
  | none => rfl
  | some instr =>
      obtain ⟨word, hcarries⟩ :=
        hgood.pipeline.decoded _ (InstrLatch.slotOf_of_instrOf hde)
      have hfixed : (instr.executed env).fixed = instr.fixed := hcarries.executed_fixed
      simp [Instruction.type_of_fixed hfixed, Instruction.name_of_fixed hfixed]

theorem boot_account (memory : Memory) (pc : BitVec 32) (values : RegName → BitVec 32) :
    (boot memory pc values).core.Account 0 where
  balance := rfl
  stops := rfl
  unflushed := rfl
  filled := fun h => by rcases h with h | h <;> cases h
  drained := fun h => by cases h
  executed := fun instr h => by cases h
  accessed := fun instr h => by cases h
  ended := fun h => by cases h

theorem Good.account {systems : Nat} (hgood : s.Good) (hacc : s.core.Account systems)
    (hcharges : ∀ m t, m < n → runFor env m s = .ok t → t.isStop = false → t.Charges env)
    (hrun : runFor env n s = .ok t) : t.core.Account (systems + systemsIn env n s) := by
  induction n generalizing s systems with
  | zero =>
      cases hrun
      exact hacc
  | succ n ih =>
      rcases runFor_succ hrun with ⟨hstop, rfl⟩ | ⟨hstop, u, hcycle, hrest⟩
      · rw [systemsIn, if_pos hstop]
        exact hacc
      obtain ⟨-, accessed, decoded, word, memory, hstepped, hcore⟩ := hgood.stepped hcycle
      have hcharged := hgood.charged (hcharges 0 s (Nat.succ_pos n) rfl hstop) hstepped
      have hnext := Core.Account.advance hgood.pipeline hstepped hcore hacc hstop hcharged
      have hlater : ∀ m t, m < n → runFor env m u = .ok t → t.isStop = false →
          t.Charges env := by
        intro m t hm ht
        refine hcharges (m + 1) t (Nat.succ_lt_succ hm) ?_
        rw [runFor, hstop, hcycle]
        exact ht
      have hend := ih (hgood.cycle hcycle) hnext hlater hrest
      rw [system_core hgood, Nat.add_assoc] at hend
      rw [systemsIn, hstop, hcycle]
      exact hend

/-- `LW x1, 16(x0); ADD x2, x1, x1; ECALL`. -/
def loadTwice : PerfSim := bootWords 64 [0x01002083#32, 0x00108133#32, 0x00000073#32]

/-- `LW x1, 20(x0); ADDI x2, x1, 1; JAL x0, 8; ADDI x3, x0, 1; EBREAK; ECALL`. -/
def mixed : List (BitVec 32) :=
  [0x01402083#32, 0x00108113#32, 0x0080006f#32, 0x00100193#32, 0x00100073#32, 0x00000073#32]

end PerfSim

end RiscvPerfSim
