import RiscvPerfSim.Core.Safe
import RiscvPerfSim.Core.Shown
import RiscvPerfSim.Results.Execution
import RiscvPerfSim.Results.Unnamed

/-!
# A pipeline that makes new objects

The abstract pipeline again, with a decode that never recycles.  Two cores that
differ only in what their objects have kept of earlier words go through the same
cycles, as long as no branch word without a name is decoded.
-/

namespace RiscvPerfSim

open Foundation

/-- The word is not a branch without a name, whose flag nothing sets. -/
def Decoder.Settled (word : BitVec 32) : Prop :=
  (recognize word).name = .none → (recognize word).type ≠ .b

instance (word : BitVec 32) : Decidable (Decoder.Settled word) :=
  inferInstanceAs (Decidable (_ → _))

namespace Instruction

variable {env : Env} {a b a' b' : Instruction} {word pc : BitVec 32}

structure Released (a b : Instruction) : Prop where
  type : a.type = b.type
  rd : a.type.writesRd = true → a.rd = b.rd

structure Filled (a b : Instruction) : Prop extends Released a b where
  primed : a.Primed b
  fields : a.SameFields b
  word : ∃ word, Decoder.Settled word ∧ a.Carries word ∧ b.Carries word

structure Ran (a b : Instruction) : Prop extends Released a b where
  alike : a.Alike b
  fields : a.SameFields b
  carries : ∃ word, a.Carries word

structure Matching (a b : Instruction) : Prop where
  same : a.Same b
  fields : a.SameFields b

theorem Matching.released (h : a.Matching b) : a.Released b :=
  ⟨h.same.type, fun hwrites =>
    congrArg₂ Register.mk (h.same.rdValue hwrites) (h.same.rdName hwrites)⟩

theorem Released.writes (h : a.Released b) (num : RegName) : a.writes num = b.writes num := by
  unfold Instruction.writes
  rw [← h.type]
  cases hwrites : a.type.writesRd with
  | false => rfl
  | true => rw [h.rd hwrites]

theorem Released.release (h : a.Released b) (rf : RegFile) : rf.release a = rf.release b := by
  unfold RegFile.release
  rw [← h.type]
  split_ifs with hwrites
  · rw [h.rd hwrites]
  · rfl

theorem fill_filled (old old' : Instruction) (rs1 rs2 : Register) {rd : Register}
    (hrd : rd.name = Decoder.numRd word) (hsettled : Decoder.Settled word) :
    ({ Decoder.fill old word rs1 rs2 rd with pc := pc } : Instruction).Filled
      { Decoder.fill old' word rs1 rs2 rd with pc := pc } where
  type := (Decoder.fill_carries old word rs1 rs2 hrd).type.trans
    (Decoder.fill_carries old' word rs1 rs2 hrd).type.symm
  rd := by
    cases htype : (Decoder.recognize word).type <;>
      simp [Decoder.fill, Decoder.finish, calcImm, InstrType.writesRd, htype]
  primed := fill_primed old old' word pc (fun _ => rfl) (fun _ => rfl) rfl
  fields := by
    constructor <;> cases htype : (Decoder.recognize word).type <;>
      simp [Decoder.fill, Decoder.finish, calcImm, Decoder.readsRs1, Decoder.readsRs2, showsImm,
        htype]
  word := ⟨word, hsettled, (Decoder.fill_carries old word rs1 rs2 hrd).setPc pc,
    (Decoder.fill_carries old' word rs1 rs2 hrd).setPc pc⟩

/-- A word without a name keeps its destination, and nothing takes note of what it computes. -/
theorem Filled.executed_unnamed (h : a.Filled b) (ha : a.Carries word) (hb : b.Carries word)
    (hname : (Decoder.recognize word).name = .none) (htype : (Decoder.recognize word).type ≠ .b) :
    (a.executed env).Alike (b.executed env) := by
  have htarget (i : Instruction) (hi : i.Carries word) : (i.executed env).target = none := by
    rw [Instruction.target, if_neg]
    rw [hi.executed.transfers_unnamed hname]
    exact fun htransfers => htype htransfers.1
  have hnone : (a.executed env).memAccType = .none :=
    ha.executed.memAccType.trans ((Decoder.recognize_paired word).access hname)
  have hrds : a.type.writesRd = true → (a.executed env).rd = (b.executed env).rd := by
    rw [(ha.executed_unnamed hname).1, (hb.executed_unnamed hname).1]
    exact h.rd
  have hwrites : (a.executed env).type = a.type := type_of_fixed ha.executed_fixed
  constructor
  case type => rw [hwrites, type_of_fixed hb.executed_fixed, h.type]
  case name => exact ha.executed.name.trans hb.executed.name.symm
  case pc => rw [pc_of_fixed ha.executed_fixed, pc_of_fixed hb.executed_fixed, h.primed.pc]
  case memAccType => exact ha.executed.memAccType.trans hb.executed.memAccType.symm
  case target => rw [htarget a ha, htarget b hb]
  case rdName => exact fun hrd => congrArg Register.name (hrds (hwrites ▸ hrd))
  case rdValue => exact fun hrd _ => congrArg Register.value (hrds (hwrites ▸ hrd))
  case load => simp [hnone]
  case store => simp [hnone]

theorem Filled.executed (h : a.Filled b) (env : Env) : (a.executed env).Ran (b.executed env) := by
  obtain ⟨word, hsettled, ha, hb⟩ := h.word
  have halike : (a.executed env).Alike (b.executed env) := by
    by_cases hname : (Decoder.recognize word).name = .none
    · exact h.executed_unnamed ha hb hname (hsettled hname)
    · exact h.primed.executed (.inl hname) ha hb
  refine ⟨⟨halike.type, fun hwrites => ?_⟩, halike,
    h.fields.congr ha.executed_fixed hb.executed_fixed, word, ha.executed⟩
  by_cases hread : (a.executed env).memAccType = .read
  · have hload (i : Instruction) (hi : i.Carries word) : HazardUnit.isLoad i = true := by
      rw [HazardUnit.isLoad, decide_eq_true_eq, hi.memAccType, ← ha.executed.memAccType]
      exact hread
    rw [ha.executed_load (hload a ha), hb.executed_load (hload b hb)]
    exact h.rd (type_of_fixed ha.executed_fixed ▸ hwrites)
  · exact congrArg₂ Register.mk (halike.rdValue hwrites hread) (halike.rdName hwrites)

/-! ## Memory access -/

theorem Alike.storeEffect (h : a.Alike b) (memory : Memory) :
    Core.storeEffect env memory a = Core.storeEffect env memory b := by
  unfold Core.storeEffect
  rw [h.memAccType, h.type]
  by_cases hwrite : b.memAccType = .write ∧ b.type = .s
  · obtain ⟨haddr, hsize, hdata, -⟩ := Store.mk.inj (h.store (h.memAccType.trans hwrite.1))
    simp only [hwrite, and_self, if_true, haddr, hsize, hdata]
  · rw [if_neg hwrite, if_neg hwrite]

theorem Ran.loadEffect (h : a.Ran b) (clock : Nat) (memory : Memory) :
    Agree Matching (Core.loadEffect env clock memory a) (Core.loadEffect env clock memory b) := by
  by_cases hread : b.memAccType = .read ∧ b.type = .i
  · have hread' : a.memAccType = .read ∧ a.type = .i := by
      rw [h.alike.memAccType, h.alike.type]
      exact hread
    obtain ⟨haddr, hsize⟩ := h.alike.load hread'.1
    have hextend : PerfSim.extendLoaded a = PerfSim.extendLoaded b := by
      funext data
      rw [PerfSim.extendLoaded, PerfSim.extendLoaded, h.alike.name, hsize]
    rw [Core.loadEffect, Core.loadEffect, if_pos hread, if_pos hread', haddr, hsize, hextend]
    refine (Agree.refl _).bind ?_
    rintro data _ rfl
    refine (Agree.refl _).bind ?_
    rintro value _ rfl
    rw [setRdValue_eq value (by rw [hread'.2]; rfl), setRdValue_eq value (by rw [hread.2]; rfl)]
    exact Agree.ok ⟨⟨h.alike.type, h.alike.name, h.alike.pc, h.alike.rdName, fun _ => rfl⟩,
      h.fields.rs1, h.fields.rs2, h.fields.imm⟩
  · have hread' : ¬ (a.memAccType = .read ∧ a.type = .i) := by
      rw [h.alike.memAccType, h.alike.type]
      exact hread
    rw [Core.loadEffect, Core.loadEffect, if_neg hread, if_neg hread']
    exact Agree.ok ⟨⟨h.alike.type, h.alike.name, h.alike.pc, h.alike.rdName, fun hwrites =>
      congrArg Register.value (h.rd hwrites)⟩, h.fields⟩

end Instruction

/-! ## Two cores -/

private theorem rel_cases {α β : Type} {R : α → β → Prop} {x : Option α} {y : Option β}
    (h : Option.Rel R x y) :
    x = none ∧ y = none ∨ ∃ a b, x = some a ∧ y = some b ∧ R a b := by
  cases h with
  | none => exact .inl ⟨rfl, rfl⟩
  | some hab => exact .inr ⟨_, _, rfl, rfl, hab⟩

inductive Latched (R : Instruction → Instruction → Prop) : Option Slot → Option Slot → Prop
  | idle : Latched R none none
  | killed {a b : Instruction} (h : a.Released b) : Latched R (some ⟨a, true⟩) (some ⟨b, true⟩)
  | live {a b : Instruction} (h : R a b) : Latched R (some ⟨a, false⟩) (some ⟨b, false⟩)

theorem RegFile.squash_congr {R : Instruction → Instruction → Prop} {x y : Option Slot}
    (h : Latched R x y) (rf : RegFile) : rf.squash x = rf.squash y := by
  cases h with
  | idle => rfl
  | killed hreleased => exact hreleased.release rf
  | live => rfl

namespace Core

open Instruction (Filled Ran Matching)

/-- The same state, except for what the objects have kept. -/
structure Twin (c c' : Core) : Prop where
  rf : c.rf = c'.rf
  memory : c.memory = c'.memory
  nextPc : c.nextPc = c'.nextPc
  redirect : c.redirect = c'.redirect
  flush : c.flush = c'.flush
  fd : c.fd = c'.fd
  stop : c.stop = c'.stop
  deStop : c.deStop = c'.deStop
  de : Latched Filled c.de c'.de
  em : Latched Ran c.em c'.em
  mw : Option.Rel Matching c.mw c'.mw
  branches : c.branches = c'.branches
  stops : c.stops = c'.stops
  ic : c.ic = c'.ic
  clocks : c.clocks = c'.clocks
  isStop : c.isStop = c'.isStop
  trace : List.Forall₂ Matching c.trace c'.trace

namespace Twin

variable {env : Env} {c c' : Core} {accessed accessed' : Accessed} {decoded decoded' : Decoded}

section Stages

variable (h : c.Twin c')
include h

theorem wbRf_eq : c.wbRf = c'.wbRf := by
  rcases rel_cases h.mw with ⟨hmw, hmw'⟩ | ⟨a, b, hmw, hmw', hmatching⟩
  · rw [wbRf, wbRf, hmw, hmw', h.rf]
  · rw [wbRf, wbRf, hmw, hmw', h.rf]
    exact hmatching.released.release c'.rf

theorem exRf_eq : c.exRf = c'.exRf := by
  rw [exRf, exRf, memRf, memRf, h.wbRf_eq, RegFile.squash_congr h.em, RegFile.squash_congr h.de]

theorem executing (env : Env) : Option.Rel Ran (c.executing env) (c'.executing env) := by
  have hde := h.de
  unfold Core.executing
  generalize c.de = x at hde ⊢
  generalize c'.de = y at hde ⊢
  cases hde with
  | idle => exact .none
  | killed => exact .none
  | live hfilled => exact .some (hfilled.executed env)

theorem target_eq (env : Env) : c.target env = c'.target env := by
  unfold target
  rcases rel_cases (h.executing env) with ⟨hx, hy⟩ | ⟨a, b, hx, hy, hran⟩
  · rw [hx, hy]
  · rw [hx, hy]
    exact hran.alike.target

theorem exits_eq (env : Env) : c.exits env = c'.exits env := by
  unfold exits
  rcases rel_cases (h.executing env) with ⟨hx, hy⟩ | ⟨a, b, hx, hy, hran⟩
  · rw [hx, hy]
  · rw [hx, hy, Option.any_some, Option.any_some, hran.type]

theorem exitStop_eq (env : Env) : c.exitStop env = c'.exitStop env := by
  rw [exitStop, exitStop, h.exits_eq]

theorem decoding_eq (env : Env) : c.decoding env = c'.decoding env := by
  unfold decoding
  rw [h.fd, h.deStop, h.exitStop_eq]

theorem memStage (env : Env) :
    Agree (fun x y => Option.Rel Matching x.mw y.mw ∧ x.memory = y.memory ∧
      x.pending = y.pending) (c.memStage env) (c'.memStage env) := by
  have hem := h.em
  unfold Core.memStage
  rw [h.memory, h.clocks]
  generalize c.em = x at hem ⊢
  generalize c'.em = y at hem ⊢
  cases hem with
  | idle => exact Agree.ok ⟨.none, rfl, rfl⟩
  | killed => exact Agree.ok ⟨.none, rfl, rfl⟩
  | live hran =>
      dsimp only
      rw [hran.alike.storeEffect]
      refine (Agree.refl _).bind ?_
      rintro ⟨memory, pending⟩ _ rfl
      exact (hran.loadEffect c'.clocks memory).bind fun _ _ hmatching =>
        Agree.ok ⟨.some hmatching, rfl, rfl⟩

end Stages

/-! ## Decode -/

theorem feeds_rel {R : Instruction → Instruction → Prop} {x y : Option Instruction}
    (hreleased : ∀ a b, R a b → a.Released b) (h : Option.Rel R x y) (num : RegName) :
    Option.Rel (fun a b => R a b ∧ a.rd = b.rd) (feeds x num) (feeds y num) := by
  cases h with
  | none => exact .none
  | @some a b hab =>
      have hwrites := (hreleased a b hab).writes num
      rw [feeds, feeds, Option.filter_some, Option.filter_some, ← hwrites]
      split_ifs with hnum
      · exact .some ⟨hab, (hreleased a b hab).rd (Bool.and_eq_true_iff.mp hnum).1⟩
      · exact .none

theorem operand_eq {de de' em em' : Option Instruction} (hde : Option.Rel Ran de de')
    (hem : Option.Rel Matching em em') (rf : RegFile) (num : RegName) (stage : PipelineStage) :
    operand env rf de em num stage = operand env rf de' em' num stage := by
  have hfeeds := feeds_rel (fun _ _ hran => hran.toReleased) hde (rf.regs num).name
  have hfeeds' := feeds_rel (fun _ _ hmatching => hmatching.released) hem (rf.regs num).name
  unfold operand
  rcases rel_cases hfeeds with ⟨hx, hy⟩ | ⟨a, b, hx, hy, hran, hrd⟩
  · rw [hx, hy]
    rcases rel_cases hfeeds' with ⟨hx', hy'⟩ | ⟨a, b, hx', hy', -, hrd⟩
    · rw [hx', hy']
    · rw [hx', hy']
      simp only [hrd]
  · have hload : HazardUnit.isLoad a = HazardUnit.isLoad b := by
      rw [HazardUnit.isLoad, HazardUnit.isLoad, hran.alike.memAccType]
    rw [hx, hy]
    simp only [hload, hrd]

theorem decodeStage (h : c.Twin c') (hnamed : c.exRf.Named) (old old' : Instruction)
    (hmw : Option.Rel Matching accessed.mw accessed'.mw)
    (hsettled : ∀ fetched, c.decoding env = some fetched → Decoder.Settled fetched.word) :
    Agree (fun x y => Option.Rel Filled x.instr y.instr ∧ x.rf = y.rf ∧ x.hits = y.hits)
      (c.decodeStage env old accessed.mw) (c'.decodeStage env old' accessed'.mw) := by
  unfold Core.decodeStage
  rw [← h.decoding_eq, ← h.exRf_eq]
  cases hdecoding : c.decoding env with
  | none => exact Agree.ok ⟨.none, rfl, rfl⟩
  | some fetched =>
      dsimp only
      unfold decodeWord operand1 operand2
      simp only [operand_eq (h.executing env) hmw]
      refine (Agree.refl _).bind ?_
      rintro ⟨rs1, hits1⟩ _ rfl
      refine (Agree.refl _).bind ?_
      rintro ⟨rs2, hits2⟩ _ rfl
      exact Agree.ok ⟨.some (Instruction.fill_filled old old' rs1 rs2 (hnamed _)
        (hsettled fetched hdecoding)), rfl, rfl⟩

theorem boot (memory : Memory) (pc : BitVec 32) (values : RegName → BitVec 32) :
    (PerfSim.boot memory pc values).core.Twin (PerfSim.boot memory pc values).core := by
  constructor <;> first | rfl | exact .none | exact .idle | exact .nil

/-! ## The cycle -/

private theorem latched_map {R : Instruction → Instruction → Prop} {x y : Option Instruction}
    (hreleased : ∀ a b, R a b → a.Released b) (h : Option.Rel R x y) (mark : Bool) :
    Latched R (x.map fun instr => ⟨instr, mark⟩) (y.map fun instr => ⟨instr, mark⟩) := by
  cases h with
  | none => exact .idle
  | some hab =>
      cases mark with
      | true => exact .killed (hreleased _ _ hab)
      | false => exact .live hab

private theorem latched_kept (h : c.Twin c') (hinv : c.Inv)
    (hstop : c.deStop + c.exitStop env ≠ 0) :
    Latched Filled
      (c.de.map fun slot => ⟨(c.executing env).getD slot.instr, slot.killed || c.exits env⟩)
      (c'.de.map fun slot =>
        ⟨(c'.executing env).getD slot.instr, slot.killed || c'.exits env⟩) := by
  have hde := h.de
  have hexecuting := h.executing env
  rw [← h.exits_eq]
  generalize hx : c.de = x at hde ⊢
  generalize hy : c'.de = y at hde ⊢
  cases hde with
  | idle => exact .idle
  | killed hreleased =>
      rw [show c.executing env = none by simp [Core.executing, hx],
        show c'.executing env = none by simp [Core.executing, hy]]
      exact .killed hreleased
  | @live a b hfilled =>
      have hsome : c.executing env = some (a.executed env) := by simp [Core.executing, hx]
      have hsome' : c'.executing env = some (b.executed env) := by simp [Core.executing, hy]
      cases hexits : c.exits env with
      | true =>
          rw [hsome, hsome']
          exact .killed (hfilled.executed env).toReleased
      | false =>
          rw [exitStop_of_not_exits hexits] at hstop
          rw [idle_of_deStop env hinv (by omega)] at hsome
          cases hsome

private theorem advance (h : c.Twin c') (hinv : c.Inv) (word : BitVec 32) (memory : Memory)
    (hmw : Option.Rel Matching accessed.mw accessed'.mw)
    (hinstr : Option.Rel Filled decoded.instr decoded'.instr) (hrf : decoded.rf = decoded'.rf)
    (hhits : decoded.hits = decoded'.hits) :
    (c.advance env accessed decoded word memory).Twin
      (c'.advance env accessed' decoded' word memory) := by
  have hexit := h.exitStop_eq env
  have htarget := h.target_eq env
  constructor
  case rf => exact hrf
  case memory => rfl
  case de =>
    change Latched Filled (if _ then _ else _) (if _ then _ else _)
    rw [← h.deStop, ← hexit, ← htarget]
    split_ifs with hstop
    · exact latched_map (fun _ _ hfilled => hfilled.toReleased) hinstr _
    · exact latched_kept h hinv hstop
  case em =>
    change Latched Ran (Option.map _ _) (Option.map _ _)
    rw [← hhits]
    exact latched_map (fun _ _ hran => hran.toReleased) (h.executing env) _
  case mw => exact hmw
  case ic =>
    change (if _ then _ else _) = if _ then _ else _
    rcases rel_cases h.mw with ⟨hx, hy⟩ | ⟨a, b, hx, hy, -⟩
    · rw [hx, hy, h.ic]
    · rw [hx, hy, h.ic]
      rfl
  case isStop =>
    change (_ || Option.any _ _) = (_ || Option.any _ _)
    rcases rel_cases h.mw with ⟨hx, hy⟩ | ⟨a, b, hx, hy, hmatching⟩
    · rw [hx, hy, h.isStop]
    · rw [hx, hy, h.isStop, Option.any_some, Option.any_some, hmatching.same.name]
  case trace =>
    refine List.rel_append h.trace ?_
    rcases rel_cases h.mw with ⟨hx, hy⟩ | ⟨a, b, hx, hy, hmatching⟩
    · rw [hx, hy]
      exact .nil
    · rw [hx, hy]
      exact .cons hmatching .nil
  all_goals
    simp only [Core.advance, h.nextPc, h.redirect, h.flush, h.fd, h.stop, h.deStop, h.branches,
      h.stops, h.clocks, hexit, htarget, hhits]

theorem step (h : c.Twin c') (hinv : c.Inv) (old old' : Instruction)
    (hsettled : ∀ fetched, c.decoding env = some fetched → Decoder.Settled fetched.word) :
    Agree Twin (c.step env old) (c'.step env old') := by
  unfold Core.step
  refine (h.memStage env).bind ?_
  rintro accessed accessed' ⟨hmw, hmemory, hpending⟩
  refine (h.decodeStage (exRf_named hinv.named) old old' hmw hsettled).bind ?_
  rintro decoded decoded' ⟨hinstr, hrf, hhits⟩
  rw [hmemory, hpending, h.nextPc, h.stop, h.exitStop_eq, hhits]
  refine (Agree.refl _).bind ?_
  rintro word _ rfl
  refine (Agree.refl _).bind ?_
  rintro ⟨memory, pipeline⟩ _ rfl
  exact Agree.ok (h.advance hinv word memory hmw hinstr hrf hhits)

end Twin

end Core

/-! ## Runs -/

def Core.runFor (env : Env) : Nat → Core → Except Error Core
  | 0, c => .ok c
  | n + 1, c => if c.isStop then .ok c else c.step env {} >>= runFor env n

namespace PerfSim

variable {env : Env} {s : PerfSim} {c : Core} {memory : Memory} {pc : BitVec 32}
  {values : RegName → BitVec 32}

/-- What a run shows of a state: the registers, memory, the counters and the lines of the trace. -/
structure Mirrors (s : PerfSim) (c : Core) : Prop where
  rf : s.rf = c.rf
  memory : s.memory = c.memory
  isStop : s.isStop = c.isStop
  ic : s.ic = c.ic
  clocks : s.clocks = c.clocks
  branches : s.hu.branches = c.branches
  stops : s.hu.stops = c.stops
  trace : s.trace.map Instruction.line = c.trace.map Instruction.line

theorem mirrors_of_twin (h : s.core.Twin c) : s.Mirrors c where
  rf := h.rf
  memory := h.memory
  isStop := h.isStop
  ic := h.ic
  clocks := h.clocks
  branches := h.branches
  stops := h.stops
  trace := List.forall₂_eq_eq_eq ▸ (List.rel_map (fun _ _ hmatching =>
    hmatching.fields.line hmatching.same) h.trace)

/-- No word that the first `n` cycles decode is a branch without a name. -/
def Settles (env : Env) (n : Nat) (s : PerfSim) : Prop :=
  ∀ m < n, ∀ t, runFor env m s = .ok t → t.isStop = false →
    ∀ fetched, t.core.decoding env = some fetched → Decoder.Settled fetched.word

theorem runFor_twin (hgood : s.Good) (h : s.core.Twin c) {n : Nat} (hsettles : s.Settles env n) :
    Agree (fun s c => s.core.Twin c) (runFor env n s) (c.runFor env n) := by
  induction n generalizing s c with
  | zero => exact Agree.ok h
  | succ n ih =>
      unfold runFor Core.runFor
      rw [show c.isStop = s.isStop from h.isStop.symm]
      split_ifs with hstop
      · exact Agree.ok h
      · have hrun : s.isStop = false := by simpa using hstop
        have hcycle := (cycle_agree env hgood.latches).trans
          (h.step hgood.pipeline s.leftover {} (hsettles 0 n.succ_pos s rfl hrun))
        cases hs : s.cycle env with
        | error e =>
            rw [hcycle.of_error hs]
            exact rfl
        | ok t =>
            obtain ⟨c', hc, -, ⟨rfl, -⟩, htwin⟩ := hcycle.of_ok hs
            rw [hc]
            refine ih (hgood.cycle hs) htwin fun m hm u hu =>
              hsettles (m + 1) (Nat.succ_lt_succ hm) u ?_
            rw [runFor, if_neg hstop, hs]
            exact hu

/-- The recycled objects are invisible: as long as no branch word without a name has been decoded,
the state shows what the pipeline shows that fills a new object for every word. -/
theorem refines_fresh (n : Nat) (hsettles : (boot memory pc values).Settles env n) :
    Agree Mirrors (runFor env n (boot memory pc values))
      ((boot memory pc values).core.runFor env n) :=
  (runFor_twin (boot_good memory pc values) (.boot memory pc values) hsettles).mono
    fun _ _ => mirrors_of_twin

theorem refines_fresh_storeLoop : ∃ s c, runFor .plain 26 storeLoop = .ok s ∧
    storeLoop.core.runFor .plain 26 = .ok c ∧ s.Mirrors c := by
  have htests := forall_of_checks 26 (fun s => (s.core.decoding .plain).all fun fetched =>
      decide (Decoder.Settled fetched.word))
    (by decide +kernel : checkAfter .plain 26 storeLoop PerfSim.isStop = true)
    (by decide +kernel)
  have hsettles : storeLoop.Settles .plain 26 := by
    intro m _ t hrun _ fetched hdecoding
    have htest := htests m t hrun
    rw [hdecoding] at htest
    exact of_decide_eq_true htest
  obtain ⟨s, hrun, -⟩ := checkAfter_spec 26 (fun _ => true) (.boot .plain _ _ _)
    (by decide +kernel : checkAfter .plain 26 storeLoop _ = true)
  have hagree : Agree Mirrors (runFor .plain 26 storeLoop) (storeLoop.core.runFor .plain 26) := by
    apply refines_fresh
    exact hsettles
  obtain ⟨c, hc, hmirrors⟩ := hagree.of_ok hrun
  exact ⟨s, c, hrun, hc, hmirrors⟩

end PerfSim

end RiscvPerfSim
