import RiscvPerfSim.Core.Frontend

/-!
# Redirects

Which words still reach execute behind a taken branch or a jump.  The words in
the fetch and the decode latch get tags, the number of the cycle that fetched
them, and the tags move with the latches.
-/

namespace RiscvPerfSim

open Foundation

namespace PerfSim

/--
The simulator some cycles after a state, with the tag of the word in the fetch
latch and that of the word behind the decode latch, if one was decoded since.
The word that was in the fetch latch then has tag 0.
-/
structure Tagged where
  sim : PerfSim
  round : Nat := 0
  fd : Nat := 0
  de : Option Nat := none

namespace Tagged

variable {env : Env} {x x' : Tagged} {n tag : Nat}

/-- A latch that is stopped keeps its tag, as it keeps its word. -/
def cycle (env : Env) (x : Tagged) : Except Error Tagged := do
  let t ← x.sim.untilDecode env
  let d ← t.decode env
  let s ← x.sim.cycle env
  return {
    sim := s
    round := x.round + 1
    fd := if d.fdSt.isStop then x.fd else x.round + 1
    de := if t.deSt.isStop then x.de else if t.decodes then some x.fd else none }

def cycles (env : Env) : Nat → Tagged → Except Error Tagged
  | 0, x => .ok x
  | n + 1, x => x.cycle env >>= cycles env n

def executes (x : Tagged) : Option Nat :=
  if (x.sim.deSt.load.instrOf x.sim.decoder).isSome then x.de else none

def issues (env : Env) (x : Tagged) : Option Nat :=
  match x.sim.untilDecode env, x.sim.cycle env with
  | .ok t, .ok s => if t.decodes && !s.deSt.load.hazardStall then some x.fd else none
  | _, _ => none

/-! ## What a cycle does with the tags -/

structure Cycled (env : Env) (x x' : Tagged) (accessed : Core.Accessed) (decoded : Core.Decoded)
    (word : BitVec 32) (memory : Memory) : Prop where
  stepped : Core.Stepped env x.sim.leftover x.sim.core accessed decoded word memory
  core : x'.sim.core = x.sim.core.advance env accessed decoded word memory
  good : x'.sim.Good
  round : x'.round = x.round + 1
  fd : x'.fd = if x.sim.core.stop + x.sim.core.exitStop env + decoded.hits = 0 then x.round + 1
    else x.fd
  de : x'.de = if x.sim.core.deStop + x.sim.core.exitStop env = 0 then
      (x.sim.core.decoding env).map fun _ => x.fd
    else x.de
  issues : x.issues env =
    if x'.sim.deSt.load.hazardStall then none
    else (x.sim.core.decoding env).map fun _ => x.fd

theorem cycle_of_sim {s' : PerfSim} (hgood : x.sim.Good) (h : x.sim.cycle env = .ok s') :
    ∃ x', x.cycle env = .ok x' ∧ x'.sim = s' ∧
      ∃ accessed decoded word memory, Cycled env x x' accessed decoded word memory := by
  obtain ⟨-, accessed, decoded, word, memory, hstepped, hcore⟩ := hgood.stepped h
  obtain ⟨pipeline, ht⟩ := untilDecode_eq hgood.latches hstepped.access
  obtain ⟨d, hd, hmatch⟩ :=
    (decodeStage_agree hgood.latches pipeline hstepped.access).of_ok_right hstepped.decode
  have hstop {α : Type} (n : Nat) (stopped running : α) :
      (if decide (n > 0) then stopped else running) = if n = 0 then running else stopped := by
    rcases Nat.eq_zero_or_pos n with rfl | hpos
    · rfl
    · rw [decide_eq_true hpos, if_pos rfl, if_neg (Nat.pos_iff_ne_zero.mp hpos)]
  have hfd : (if d.fdSt.isStop then x.fd else x.round + 1) =
      if x.sim.core.stop + x.sim.core.exitStop env + decoded.hits = 0 then x.round + 1
      else x.fd := by
    obtain ⟨hu, latch, decoder, -, -, rfl⟩ := hmatch
    exact hstop _ _ _
  have hissued : (if (x.sim.core.decoding env).isSome then some x.fd else none) =
      (x.sim.core.decoding env).map fun _ => x.fd := by
    cases x.sim.core.decoding env <;> rfl
  have hdecodes : (x.sim.beforeDecode env accessed pipeline).decodes =
      (x.sim.core.decoding env).isSome := decodes_eq_isSome
  refine ⟨⟨s', x.round + 1, _, _⟩, ?_, rfl, accessed, decoded, word, memory, hstepped, hcore,
    hgood.cycle h, rfl, rfl, rfl, ?_⟩
  · simp only [cycle, ht, hd, h, hfd, hdecodes, hissued, bind, Except.bind]
    exact congrArg (fun de => Except.ok (Tagged.mk s' (x.round + 1) _ de)) (hstop _ _ _)
  · simp only [issues, ht, h, hdecodes, ← hissued]
    cases s'.deSt.load.hazardStall <;> simp

theorem sim_of_cycle (h : x.cycle env = .ok x') : x.sim.cycle env = .ok x'.sim := by
  obtain ⟨t, -, h⟩ := ok_of_bind h
  obtain ⟨d, -, h⟩ := ok_of_bind h
  obtain ⟨s, hcycle, h⟩ := ok_of_bind h
  cases h
  exact hcycle

theorem cycled (hgood : x.sim.Good) (h : x.cycle env = .ok x') :
    ∃ accessed decoded word memory, Cycled env x x' accessed decoded word memory := by
  obtain ⟨x'', hcycle, -, hcycled⟩ := cycle_of_sim hgood (sim_of_cycle h)
  rw [h] at hcycle
  cases hcycle
  exact hcycled

theorem round_of_cycles (hgood : x.sim.Good) (h : cycles env n x = .ok x') :
    x'.round = x.round + n ∧ x'.sim.Good ∧ PerfSim.cycles env n x.sim = .ok x'.sim := by
  induction n generalizing x with
  | zero =>
      cases h
      exact ⟨rfl, hgood, rfl⟩
  | succ n ih =>
      obtain ⟨y, hy, hrest⟩ := ok_of_bind h
      obtain ⟨accessed, decoded, word, memory, hcycled⟩ := cycled hgood hy
      obtain ⟨hround, hgood', hsim⟩ := ih hcycled.good hrest
      refine ⟨?_, hgood', ?_⟩
      · rw [hround, hcycled.round]
        omega
      · rw [PerfSim.cycles, sim_of_cycle hy]
        exact hsim

/-! ## From the redirect on -/

inductive Redirecting (env : Env) (target : BitVec 32) (x : Tagged) : Prop
  | jumps (hround : x.round = 0) (hde : x.de = none) (hstop : x.sim.core.stop = 0)
      (htarget : x.sim.core.target env = some target)
  /-- What decode and fetch have made in that cycle is marked. -/
  | flushed (hround : x.round = 1) (hstop : x.sim.core.stop = 0) (hdeStop : x.sim.core.deStop = 0)
      (hexec : x.sim.core.executing env = none) (hdecoding : x.sim.core.decoding env = none)
      (hflush : x.sim.core.flush = false) (hnext : x.sim.core.nextPc = target)
  /-- The word at the target is in front of decode, behind a bubble. -/
  | arrived (hround : x.round = 2) (hfd : x.fd = 2) (hde : x.de = none)
      (hexec : x.sim.core.executing env = none) (hdeStop : x.sim.core.deStop = 0)
      (hstop : x.sim.core.stop = 0)
      (hword : ∃ word, x.sim.core.fd = some ⟨target, word, false⟩)
  | past (hround : 3 ≤ x.round) (hfd : 3 ≤ x.fd) (hde : ∀ tag, x.de = some tag → 2 ≤ tag)

section Redirecting

variable {accessed : Core.Accessed} {decoded : Core.Decoded} {word target : BitVec 32}
  {memory : Memory} (hgood : x.sim.Good) (hcycled : Cycled env x x' accessed decoded word memory)
include hgood hcycled

theorem flow_of_target (hstop : x.sim.core.stop = 0)
    (htarget : x.sim.core.target env = some target) :
    x.sim.core.deStop = 0 ∧ x.sim.core.exitStop env = 0 ∧ decoded.hits = 0 := by
  have hsome : x.sim.core.target env ≠ none := by
    rw [htarget]
    exact Option.some_ne_none _
  cases hgood.pipeline.phase hcycled.stepped.decode with
  | flow hde _ hexits hhits => exact ⟨hde, Core.exitStop_of_not_exits hexits, hhits⟩
  | hit _ _ _ hnone => exact absurd hnone hsome
  | held _ hone => omega
  | exit _ _ _ hnone => exact absurd hnone hsome
  | frozen hpos hstopped => omega

theorem Redirecting.next (h : Redirecting env target x) : Redirecting env target x' := by
  have hinv := hgood.pipeline
  have hround := hcycled.round
  have hcore := hcycled.core
  cases h with
  | jumps hzero hde hstop htarget =>
      obtain ⟨hdeStop, hexit, hhits⟩ := flow_of_target hgood hcycled hstop htarget
      have hexec : ∃ instr, x.sim.core.executing env = some instr := by
        cases hexec : x.sim.core.executing env with
        | none => simp [Core.target, hexec] at htarget
        | some instr => exact ⟨instr, rfl⟩
      obtain ⟨instr, hexec⟩ := hexec
      obtain ⟨hflush, hredirect⟩ := Core.redirect_of_executing hinv hexec
      have hslot : x'.sim.core.de = decoded.instr.map fun instr => ⟨instr, true⟩ := by
        simp [hcore, Core.advance, hdeStop, hexit, htarget]
      have hword : x'.sim.core.fd = some ⟨x.sim.core.nextPc, word, true⟩ := by
        simp [hcore, Core.advance, hstop, hexit, hhits, htarget]
      apply Redirecting.flushed
      case hround => omega
      case hexec =>
        rw [Core.executing, hslot]
        cases decoded.instr <;> rfl
      case hdecoding => simp only [Core.decoding, hword]
      all_goals simp [hcore, Core.advance, hstop, hdeStop, hexit, hhits, htarget]
  | flushed hone hstop hdeStop hexec hdecoding hflush hnext =>
      obtain ⟨htarget, hexit, hhits⟩ :=
        Core.of_not_executing hinv hexec hcycled.stepped.decode
      have hidle : decoded.instr = none := by
        have hsome := Core.decodeStage_isSome hcycled.stepped.decode
        rw [hdecoding] at hsome
        simpa using hsome
      have hslot : x'.sim.core.de = none := by
        simp [hcore, Core.advance, hdeStop, hexit, hidle]
      apply Redirecting.arrived
      case hround => omega
      case hfd => rw [hcycled.fd, hstop, hexit, hhits, if_pos rfl, hone]
      case hde => rw [hcycled.de, hdeStop, hexit, if_pos rfl, hdecoding]; rfl
      case hexec => simp only [Core.executing, hslot]
      case hword =>
        refine ⟨word, ?_⟩
        simp [hcore, Core.advance, hstop, hexit, hhits, htarget, hflush, hnext]
      all_goals simp [hcore, Core.advance, hstop, hdeStop, hexit, hhits]
  | arrived htwo hfd hde hexec hdeStop hstop hword =>
      obtain ⟨-, hexit, hhits⟩ := Core.of_not_executing hinv hexec hcycled.stepped.decode
      apply Redirecting.past
      case hround => omega
      case hfd =>
        rw [hcycled.fd, hstop, hexit, hhits, if_pos rfl]
        omega
      case hde =>
        intro tag htag
        rw [hcycled.de, hdeStop, hexit, if_pos rfl, Option.map_eq_some_iff] at htag
        obtain ⟨f, -, rfl⟩ := htag
        omega
  | past hle hfd hde =>
      apply Redirecting.past
      case hround => omega
      case hfd =>
        rw [hcycled.fd]
        split_ifs <;> omega
      case hde =>
        intro tag htag
        rw [hcycled.de] at htag
        split_ifs at htag
        · obtain ⟨f, -, rfl⟩ := Option.map_eq_some_iff.mp htag
          omega
        · exact hde tag htag

end Redirecting

theorem Redirecting.cycles {target : BitVec 32} (hgood : x.sim.Good)
    (h : Redirecting env target x) (hrun : Tagged.cycles env n x = .ok x') :
    Redirecting env target x' := by
  induction n generalizing x with
  | zero =>
      cases hrun
      exact h
  | succ n ih =>
      obtain ⟨y, hy, hrest⟩ := ok_of_bind hrun
      obtain ⟨accessed, decoded, word, memory, hcycled⟩ := cycled hgood hy
      exact ih hcycled.good (h.next hgood hcycled) hrest

/-! ## What executes and what is issued -/

theorem executes_of_idle (h : x.sim.core.executing env = none) : x.executes = none := by
  have hlive : x.sim.deSt.load.instrOf x.sim.decoder = none := by
    rw [executing_core, Option.map_eq_none_iff] at h
    exact h
  rw [executes, hlive]
  rfl

theorem executes_eq_some (h : x.executes = some tag) : x.de = some tag := by
  unfold executes at h
  split_ifs at h
  exact h

theorem hazardStall_of_slot {slot : Slot} (h : x.sim.core.de = some slot) :
    x.sim.deSt.load.hazardStall = slot.killed := by
  obtain ⟨-, hkill, -⟩ := InstrLatch.slotOf_eq_some h
  exact hkill

section Issues

variable {accessed : Core.Accessed} {decoded : Core.Decoded} {word target : BitVec 32}
  {memory : Memory} (hgood : x.sim.Good) (hcycled : Cycled env x x' accessed decoded word memory)
include hgood hcycled

theorem squashed_of_target (htarget : x.sim.core.target env = some target) :
    x.issues env = none ∧ x'.sim.core.executing env = none := by
  have hmarked : ∀ slot, x'.sim.core.de = some slot → slot.killed = true := by
    intro slot hslot
    rw [hcycled.core] at hslot
    rcases Core.advance_de hgood.pipeline hcycled.stepped.decode with hde | ⟨-, i, -, -, hde⟩
    · rw [hde, htarget, Option.map_eq_some_iff] at hslot
      obtain ⟨i, -, rfl⟩ := hslot
      rfl
    · rw [hde, Option.some.injEq] at hslot
      subst hslot
      rfl
  constructor
  · rw [hcycled.issues]
    cases hdecoding : x.sim.core.decoding env with
    | none => simp
    | some f =>
        obtain ⟨instr, -, -, hde⟩ :=
          Core.issued_of_decoding hgood.pipeline hcycled.stepped hdecoding
        rw [← hcycled.core] at hde
        rw [hazardStall_of_slot hde, htarget]
        rfl
  · unfold Core.executing
    split
    · rename_i hslot
      cases hmarked _ hslot
    · rfl

theorem issues_of_decoding {f : Fetched} (hdecoding : x.sim.core.decoding env = some f)
    (htarget : x.sim.core.target env = none) :
    x.issues env = some x.fd ∧ ∃ instr, x'.sim.core.de = some ⟨instr, false⟩ := by
  obtain ⟨instr, -, -, hde⟩ :=
    Core.issued_of_decoding hgood.pipeline hcycled.stepped hdecoding
  rw [← hcycled.core, htarget] at hde
  refine ⟨?_, instr, hde⟩
  rw [hcycled.issues, hazardStall_of_slot hde, hdecoding]
  rfl

end Issues

theorem issues_eq_some (hgood : x.sim.Good) (h : x.issues env = some tag) :
    tag = x.fd ∧ ∃ x', x.cycle env = .ok x' := by
  unfold issues at h
  split at h
  · rename_i t s' ht hs'
    split_ifs at h
    obtain ⟨x', hx', -⟩ := cycle_of_sim hgood hs'
    exact ⟨(Option.some.inj h).symm, x', hx'⟩
  · cases h

theorem Redirecting.executes {target : BitVec 32} (h : Redirecting env target x)
    (hexec : x.executes = some tag) : 2 ≤ tag := by
  cases h with
  | jumps _ hde =>
      rw [executes_eq_some hexec] at hde
      cases hde
  | flushed _ _ _ hidle =>
      rw [executes_of_idle hidle] at hexec
      cases hexec
  | arrived _ _ _ hidle =>
      rw [executes_of_idle hidle] at hexec
      cases hexec
  | past _ _ hde => exact hde tag (executes_eq_some hexec)

theorem Redirecting.issues {target : BitVec 32} (hgood : x.sim.Good)
    (h : Redirecting env target x) (hissues : x.issues env = some tag) :
    2 ≤ x.round ∧ (tag = 2 ↔ x.round = 2) := by
  obtain ⟨htag, x', hx'⟩ := issues_eq_some hgood hissues
  obtain ⟨accessed, decoded, word, memory, hcycled⟩ := cycled hgood hx'
  cases h with
  | jumps _ _ _ htarget =>
      rw [(squashed_of_target hgood hcycled htarget).1] at hissues
      cases hissues
  | flushed _ _ _ _ hdecoding =>
      rw [hcycled.issues, hdecoding] at hissues
      split_ifs at hissues
      cases hissues
  | arrived htwo hfd => omega
  | past hround hfd => omega

end Tagged

variable {env : Env} {s : PerfSim} {instr done : Instruction} {target : BitVec 32}

/--
What a transfer that executes in `s` is to do: neither the word then in front of
decode nor the one that fetch reads in that cycle ever executes, the first word to
be issued is the one that fetch reads two cycles on, at the target, and no other
issue is of that word.
-/
structure Redirects (env : Env) (s : PerfSim) (target : BitVec 32) : Prop where
  dead : ∀ n x tag, Tagged.cycles env n { sim := s } = .ok x → x.executes = some tag →
    tag ≠ 0 ∧ tag ≠ 1
  once : ∀ n x tag, Tagged.cycles env n { sim := s } = .ok x → x.issues env = some tag →
    2 ≤ n ∧ (tag = 2 ↔ n = 2)
  next : ∀ x, Tagged.cycles env 2 { sim := s } = .ok x → x.fd = 2 ∧
    (∃ word, fetched x.sim.fdSt.load = some ⟨target, word, false⟩) ∧
      ∀ x', x.cycle env = .ok x' → x.issues env = some 2

theorem Good.redirects (hgood : s.Good) (htarget : s.core.target env = some target)
    (hstop : s.fdSt.stopCount = 0) : Redirects env s target := by
  have hstart : Tagged.Redirecting env target { sim := s } := .jumps rfl rfl hstop htarget
  have hrun {n : Nat} {x : Tagged} (h : Tagged.cycles env n { sim := s } = .ok x) :
      x.round = n ∧ x.sim.Good ∧ Tagged.Redirecting env target x := by
    obtain ⟨hround, hgood', -⟩ := Tagged.round_of_cycles hgood h
    exact ⟨by simpa using hround, hgood', hstart.cycles hgood h⟩
  constructor
  case dead =>
    intro n x tag h hexec
    have htag := (hrun h).2.2.executes hexec
    omega
  case once =>
    intro n x tag h hissues
    obtain ⟨rfl, hgood', hphase⟩ := hrun h
    exact hphase.issues hgood' hissues
  case next =>
    intro x h
    obtain ⟨hround, hgood', hphase⟩ := hrun h
    cases hphase with
    | jumps hzero => omega
    | flushed hone => omega
    | past hle => omega
    | arrived _ hfd _ hexec hdeStop hstop' hword =>
        refine ⟨hfd, hword, fun x' hx' => ?_⟩
        obtain ⟨accessed, decoded, w, memory, hcycled⟩ := Tagged.cycled hgood' hx'
        obtain ⟨hnone, hexit, -⟩ :=
          Core.of_not_executing hgood'.pipeline hexec hcycled.stepped.decode
        obtain ⟨word, hword⟩ := hword
        have hdecoding : x.sim.core.decoding env = some ⟨target, word, false⟩ := by
          simp only [Core.decoding, hword, hdeStop, hexit, if_true]
        rw [(Tagged.issues_of_decoding hgood' hcycled hdecoding hnone).1, hfd]

theorem Good.redirects_of_short (hgood : s.Good) (htarget : s.core.target env = some target)
    (hshort : ∀ s2, PerfSim.cycles env 2 s ≠ .ok s2) : Redirects env s target := by
  have hlong {n : Nat} {x : Tagged} (h : Tagged.cycles env (n + 2) { sim := s } = .ok x) :
      False := by
    obtain ⟨y, hy, hrest⟩ := ok_of_bind h
    obtain ⟨z, hz, -⟩ := ok_of_bind hrest
    refine hshort z.sim ?_
    rw [PerfSim.cycles, Tagged.sim_of_cycle hy]
    exact cycles_snoc rfl (Tagged.sim_of_cycle hz)
  have hfirst {x : Tagged} (h : Tagged.cycles env 1 { sim := s } = .ok x) :
      (Tagged.issues env { sim := s } = none ∧ x.sim.core.executing env = none) ∧
        x.issues env = none := by
    obtain ⟨y, hy, hrest⟩ := ok_of_bind h
    cases hrest
    obtain ⟨accessed, decoded, word, memory, hcycled⟩ := Tagged.cycled hgood hy
    refine ⟨Tagged.squashed_of_target hgood hcycled htarget, ?_⟩
    cases hissues : x.issues env with
    | none => rfl
    | some tag =>
        obtain ⟨-, z, hz⟩ := Tagged.issues_eq_some hcycled.good hissues
        refine (hlong (n := 0) (x := z) ?_).elim
        rw [Tagged.cycles, hy]
        simp only [Tagged.cycles, hz, bind, Except.bind]
  constructor
  case dead =>
    intro n x tag h hexec
    rcases n with _ | _ | n
    · cases h
      cases Tagged.executes_eq_some hexec
    · rw [Tagged.executes_of_idle (hfirst h).1.2] at hexec
      cases hexec
    · exact (hlong h).elim
  case once =>
    intro n x tag h hissues
    rcases n with _ | _ | n
    · cases h
      obtain ⟨-, x', hx'⟩ := Tagged.issues_eq_some hgood hissues
      have hone : Tagged.cycles env 1 { sim := s } = .ok x' := by
        simp only [Tagged.cycles, hx', bind, Except.bind]
      rw [(hfirst hone).1.1] at hissues
      cases hissues
    · rw [(hfirst h).2] at hissues
      cases hissues
    · exact (hlong h).elim
  case next => exact fun x h => (hlong (n := 0) h).elim

/-- A branch that finds fetch stopped is in front of decode once more, and executes again. -/
theorem Good.executes_again {s2 : PerfSim} (hgood : s.Good)
    (htarget : s.core.target env = some target) (hstop : s.fdSt.stopCount ≠ 0)
    (hrun : PerfSim.cycles env 2 s = .ok s2) :
    ∃ x, Tagged.cycles env 2 { sim := s } = .ok x ∧ x.executes = some 0 := by
  have hinv := hgood.pipeline
  obtain ⟨s1, h1, hrest⟩ := ok_of_bind hrun
  obtain ⟨s2', h2, hrest⟩ := ok_of_bind hrest
  cases hrest
  obtain ⟨x, hx, rfl, accessed, decoded, word, memory, hcycled⟩ :=
    Tagged.cycle_of_sim (x := { sim := s }) hgood h1
  obtain ⟨-, hidle⟩ := Tagged.squashed_of_target hgood hcycled htarget
  have hcore : x.sim.core = s.core.advance env accessed decoded word memory := hcycled.core
  have hheld : s.core.deStop = 0 ∧ s.core.stop = 1 ∧ ∃ pc w, s.core.fd = some ⟨pc, w, false⟩ := by
    cases hinv.control with
    | running _ hrunning => exact absurd hrunning hstop
    | held hde hone instr ld _ _ hbubble =>
        obtain ⟨i, w, num, -, hfd, -⟩ := (hinv.bubble ld hbubble).held
        exact ⟨hde, hone, _, _, hfd⟩
    | frozen _ _ _ i hslot =>
        rw [Core.target, Core.executing, hslot] at htarget
        cases htarget
  obtain ⟨hdeStop, hone, pc, w, hfd⟩ := hheld
  have hexit : s.core.exitStop env = 0 ∧ decoded.hits = 0 := by
    cases hinv.phase hcycled.stepped.decode with
    | flow _ hzero => omega
    | hit _ hzero => omega
    | held _ _ hexits hhits => exact ⟨Core.exitStop_of_not_exits hexits, hhits⟩
    | exit _ hzero => omega
    | frozen hpos => omega
  have htag : x.fd = 0 := by
    rw [hcycled.fd]
    exact if_neg (by change s.core.stop + _ + _ ≠ 0; omega)
  have hkept : x.sim.core.fd = some ⟨pc, w, false⟩ := by
    simp [hcore, Core.advance, hone, hexit.1, hexit.2, hfd]
  have hrunning : x.sim.core.deStop = 0 := by
    simp [hcore, Core.advance, hdeStop, hexit.1]
  obtain ⟨y, hy, rfl, accessed', decoded', word', memory', hcycled'⟩ :=
    Tagged.cycle_of_sim hcycled.good h2
  obtain ⟨hnone, hexit', -⟩ :=
    Core.of_not_executing hcycled.good.pipeline hidle hcycled'.stepped.decode
  have hdecoding : x.sim.core.decoding env = some ⟨pc, w, false⟩ := by
    simp only [Core.decoding, hkept, hrunning, hexit', if_true]
  obtain ⟨-, again, hslot⟩ := Tagged.issues_of_decoding hcycled.good hcycled' hdecoding hnone
  refine ⟨y, ?_, ?_⟩
  · rw [Tagged.cycles, hx]
    simp only [Tagged.cycles, hy, bind, Except.bind]
  · have hlive : y.sim.deSt.load.instrOf y.sim.decoder = some again := by
      rw [instrOf_de]
      exact Core.live_iff.mpr hslot
    rw [Tagged.executes, hlive, hcycled'.de, hrunning, hexit', hdecoding, htag]
    rfl

/--
A taken branch, `JAL` or `JALR` redirects fetch exactly when it does not find it
stopped, unless an exception ends the run in its cycle or in the next one.
-/
theorem redirects_iff (h : Reachable env s)
    (hde : s.deSt.load.instrOf s.decoder = some instr) (hexec : instr.execute env = .ok done)
    (htaken : transfers done = true) :
    Redirects env s done.branchAddr ↔
      s.fdSt.stopCount = 0 ∨ ∀ s2, PerfSim.cycles env 2 s ≠ .ok s2 := by
  have htarget : s.core.target env = some done.branchAddr := by
    have hexecuted : instr.executed env = done := by
      rw [Instruction.executed, hexec]
    rw [Core.target, executing_core, hde, Option.map_some, hexecuted, Option.bind_some,
      Instruction.target, if_pos htaken]
  constructor
  · intro hredirects
    by_contra hheld
    rw [not_or, not_forall] at hheld
    obtain ⟨hstop, s2, hrun⟩ := hheld
    obtain ⟨x, hx, hagain⟩ :=
      h.good.executes_again htarget hstop (Classical.not_not.mp hrun)
    exact (hredirects.dead 2 x 0 hx hagain).1 rfl
  · rintro (hstop | hshort)
    · exact h.good.redirects htarget hstop
    · exact h.good.redirects_of_short htarget hshort

theorem redirects_iff_jal : ∃ s instr done,
    runFor .plain 2 (bootWords 64 [0x0080006f#32, 0x00700093#32, 0x00000073#32]) = .ok s ∧
      s.deSt.load.instrOf s.decoder = some instr ∧ instr.execute .plain = .ok done ∧
      Redirects .plain s done.branchAddr := by
  obtain ⟨s, hs, hreach, htest⟩ :=
    checkAfter_spec 2 (fun s => decide (s.fdSt.stopCount = 0) &&
      (s.deSt.load.instrOf s.decoder).any fun instr =>
        passes (instr.execute .plain) transfers) (.boot .plain _ _ _)
      (by decide +kernel : checkAfter .plain 2
        (bootWords 64 [0x0080006f#32, 0x00700093#32, 0x00000073#32]) _ = true)
  simp only [Bool.and_eq_true, decide_eq_true_eq, Option.any_eq_true, passes_iff] at htest
  obtain ⟨hstop, instr, hde, done, hexec, htaken⟩ := htest
  exact ⟨s, instr, done, hs, hde, hexec,
    (redirects_iff hreach hde hexec htaken).mpr (.inl hstop)⟩

/-- `LW x1, 0(x0); BEQ x1, x1, 8`: both operands of the branch hit the load. -/
def heldBranch : PerfSim :=
  bootWords 64 [0x00002083#32, 0x00108463#32, 0x00700093#32, 0x00000073#32]

theorem heldBranch_again : ∃ s instr done x, runFor .plain 3 heldBranch = .ok s ∧
    Reachable .plain s ∧ s.isStop = false ∧ s.deSt.load.instrOf s.decoder = some instr ∧
    instr.execute .plain = .ok done ∧ transfers done = true ∧
    Tagged.cycles .plain 2 { sim := s } = .ok x ∧ x.executes = some 0 ∧
    ¬ Redirects .plain s done.branchAddr := by
  obtain ⟨s, hs, hreach, htest⟩ :=
    checkAfter_spec 3 (fun s => (!s.isStop &&
      passes (Tagged.cycles .plain 2 { sim := s }) fun x => x.executes = some 0) &&
      (s.deSt.load.instrOf s.decoder).any fun instr =>
        passes (instr.execute .plain) transfers) (.boot .plain _ _ _)
      (by decide +kernel : checkAfter .plain 3 heldBranch _ = true)
  simp only [Bool.and_eq_true, Bool.not_eq_true', Option.any_eq_true, passes_iff,
    decide_eq_true_eq] at htest
  obtain ⟨⟨hrun, x, hx, hzero⟩, instr, hde, done, hexec, htaken⟩ := htest
  exact ⟨s, instr, done, x, hs, hreach, hrun, hde, hexec, htaken, hx, hzero,
    fun hredirects => (hredirects.dead 2 x 0 hx hzero).1 rfl⟩

end PerfSim

end RiscvPerfSim
