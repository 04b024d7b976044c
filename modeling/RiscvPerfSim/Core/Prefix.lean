import RiscvPerfSim.Core.Follows
import RiscvPerfSim.Core.Onward

/-!
# A sequential machine beside the pipeline

A sequential machine that takes a step whenever an instruction accesses memory,
in a run of the pipeline that need not end.  Its state is the one in front of
memory access; what stands further in front goes along with what it will do.
-/

namespace RiscvPerfSim

open Foundation

def Seq.Retires (env : Env) (q : Seq) (instr : Instruction) (q' : Seq) : Prop :=
  ∃ retired, q.step env = .ok (retired, q') ∧ instr.Same retired

namespace Core

variable {env : Env} {old : Instruction} {c : Core} {accessed : Accessed} {decoded : Decoded}
  {word : BitVec 32} {memory : Memory} {q q' : Seq} {e : Instruction} {num : RegName}

/-- A cycle in which the pipeline does no more and no less than the program says. -/
structure Sound (env : Env) (c : Core) : Prop where
  loadUse : ∀ load fetched num, ¬ c.LoadUse load fetched num
  fresh : ∀ instr, c.de = some ⟨instr, true⟩ → ∀ num, num ≠ 0 →
    instr.writes num = true → instr.rd.value = c.due num
  recognised : ∀ fetched, c.decoding env = some fetched → c.target env = none →
    Decoder.Recognised fetched.word
  /-- No instruction stores into a word that has been fetched behind it. -/
  overtaken : ∀ instr fetched, c.executing env = some instr → c.fd = some fetched →
    fetched.killed = false → ¬ instr.Overwrites fetched.pc
  ahead : ∀ instr, c.executing env = some instr ∨ live c.em = some instr →
    c.stop + c.exitStop env = 0 → c.target env = none → ¬ instr.Overwrites c.nextPc

def apartTest (env : Env) (c : Core) : Bool :=
  (c.decoding env).all (fun fetched =>
    (c.target env).isSome || decide (Decoder.Recognised fetched.word)) &&
  (c.executing env).all (fun instr =>
    c.fd.all fun fetched => fetched.killed || !decide (instr.Overwrites fetched.pc)) &&
  (decide (c.stop + c.exitStop env ≠ 0) || (c.target env).isSome ||
    ((c.executing env).toList ++ (live c.em).toList).all fun instr =>
      !decide (instr.Overwrites c.nextPc))

theorem Sound.of_test (huse : ∀ load fetched num, ¬ c.LoadUse load fetched num)
    (hfresh : ∀ instr, c.de = some ⟨instr, true⟩ → ∀ num, num ≠ 0 →
      instr.writes num = true → instr.rd.value = c.due num)
    (h : c.apartTest env = true) : c.Sound env := by
  simp only [apartTest, Bool.and_eq_true, Option.all_eq_true, Bool.or_eq_true, decide_eq_true_eq,
    Bool.not_eq_true', decide_eq_false_iff_not, List.all_eq_true, List.mem_append,
    Option.mem_toList] at h
  obtain ⟨⟨hrecognised, hovertaken⟩, hahead⟩ := h
  constructor
  case loadUse => exact huse
  case fresh => exact hfresh
  case recognised =>
    intro fetched hdecoding htarget
    rcases hrecognised fetched hdecoding with hsome | hword
    · rw [htarget] at hsome
      cases hsome
    · exact hword
  case overtaken =>
    intro instr fetched hexec hfd hkilled
    rcases hovertaken instr hexec fetched hfd with hkilled' | hapart
    · rw [hkilled] at hkilled'
      cases hkilled'
    · exact hapart
  case ahead =>
    intro instr hinstr hstop htarget
    rcases hahead with (hstopped | hsome) | hapart
    · exact absurd hstop hstopped
    · rw [htarget] at hsome
      cases hsome
    · exact hapart instr hinstr

def ahead (c : Core) (num : RegName) : BitVec 32 :=
  settle (live c.em) num (c.wbRf.regs num).value

structure Ready (c : Core) (instr : Instruction) (word : BitVec 32) : Prop where
  recognised : Decoder.Recognised word
  read : c.memory.read 0 instr.pc.toNat 4 = .ok word
  apart : ∀ e, live c.em = some e → ¬ e.Overwrites instr.pc
  filled : ∃ old rs1 rs2 rd,
    instr = { Decoder.fill old word rs1 rs2 rd with pc := instr.pc } ∧
      rd.name = Decoder.numRd word ∧
      (Decoder.readsRs1 (Decoder.recognize word).type = true →
        rs1.value = c.ahead (Decoder.numRs1 word)) ∧
      (Decoder.readsRs2 (Decoder.recognize word).type = true →
        rs2.value = c.ahead (Decoder.numRs2 word))
  clear : ∀ e num, live c.em = some e → HazardUnit.isLoad e = true → e.writes num = true →
    Decoder.reads word num = true → num = 0

/-- The machine `q` stands in front of memory access. -/
structure Beside (env : Env) (c : Core) (q : Seq) : Prop where
  named : q.rf.Named
  onward : c.Onward q.pc
  regs : ∀ num, (c.wbRf.regs num).value = (q.rf.regs num).value
  memory : c.memory = q.memory
  em : ∀ e, live c.em = some e →
    q.memory.read 0 q.pc.toNat 4 = .ok q.word ∧ e.Alike (q.executing env)
  de : ∀ instr, c.de = some ⟨instr, false⟩ → ∃ word, c.Ready instr word
  fd : ∀ fetched, c.fd = some fetched → fetched.killed = false →
    c.memory.read 0 fetched.pc.toNat 4 = .ok fetched.word ∧
      ∀ e, live c.em = some e → ¬ e.Overwrites fetched.pc

theorem beside_boot (env : Env) (memory : Memory) (pc : BitVec 32)
    (values : RegName → BitVec 32) :
    (PerfSim.boot memory pc values).core.Beside env (Seq.boot memory pc values) where
  named := fun num => rfl
  onward := onward_boot memory pc values
  regs := fun num => rfl
  memory := rfl
  em := fun e h => by cases h
  de := fun instr h => by cases h
  fd := fun fetched h => by cases h

/-! ## Memory access -/

structure Accompanied (env : Env) (c : Core) (accessed : Accessed) (memory : Memory) (q q' : Seq) :
    Prop where
  idle : accessed.mw = none → q' = q
  step : ∀ a, accessed.mw = some a → ∃ b, q.step env = .ok (b, q') ∧ a.Same b
  named : q'.rf.Named
  memory : memory = q'.memory
  pc : q'.pc = behind q.pc (live c.em)
  written : accessed.memory = q.memory ∨ accessed.memory = q'.memory
  reads : ∀ pc : BitVec 32, (∀ e, live c.em = some e → ¬ e.Overwrites pc) →
    q'.memory.read 0 pc.toNat 4 = q.memory.read 0 pc.toNat 4
  regs : ∀ num, (q'.rf.regs num).value = settle accessed.mw num (q.rf.regs num).value
  /-- But for what it loads, the instruction has been settled before it accesses memory. -/
  ahead : ∀ num, (∀ e, live c.em = some e → HazardUnit.isLoad e = true →
    e.writes num = true → num = 0) →
      settle (live c.em) num (q.rf.regs num).value = (q'.rf.regs num).value

theorem settle_same {a b : Instruction} (h : a.Same b) (num : RegName) (value : BitVec 32) :
    settle (some a) num value = settle (some b) num value := by
  simp only [settle, h.writes]
  split_ifs with hwrites
  · refine h.rdValue ?_
    rw [h.type]
    exact (Bool.and_eq_true_iff.mp hwrites.1).1
  · rfl

theorem Alike.inRange {a b : Instruction} (h : a.Alike b) {memory : Memory}
    (hrange : a.InRange memory) : b.InRange memory where
  load := fun hread => by
    have hread' := h.memAccType.trans hread
    obtain ⟨haddr, hsize⟩ := h.load hread'
    rw [← haddr, ← hsize]
    exact hrange.load hread'
  store := fun hwrite => by
    have hwrite' := h.memAccType.trans hwrite
    have hstore := h.store hwrite'
    have haddr : toAddress a.storeAddres = toAddress b.storeAddres := congrArg Store.addr hstore
    have hsize : toAddress a.storeSize = toAddress b.storeSize := congrArg Store.size hstore
    rw [← haddr, ← hsize]
    exact hrange.store hwrite'

section Access

variable (hinv : c.Inv) (h : Stepped env old c accessed decoded word memory)
  (hbeside : c.Beside env q)
include hinv h hbeside

theorem accompanied_live (hem : live c.em = some e) :
    ∃ q', Accompanied env c accessed memory q q' := by
  have hslot := live_iff.mp hem
  obtain ⟨hread, halike⟩ := hbeside.em e hem
  obtain ⟨w, hcarries⟩ := hinv.executed _ hslot
  have hrange := h.inRange hinv hslot
  rw [hbeside.memory] at hrange
  obtain ⟨b, q', hstep⟩ := Seq.step_of_inRange hbeside.named (Memory.inRange_of_read hread)
    (Alike.inRange halike hrange)
  have hstepped := Seq.step_ok hbeside.named hstep
  rcases memStage_ok h.access with ⟨i, a, hslot', hmw, hstore, hload⟩ | ⟨hidle, -⟩
  swap
  · exact absurd hslot (hidle e)
  obtain rfl : i = e := by
    rw [hslot, Option.some.injEq, Slot.mk.injEq] at hslot'
    exact hslot'.1.symm
  have hserves := h.serves hinv hmw
  have hpending : a.pending = (q.executing env).pending :=
    (loadEffect_pending hload).trans halike.pending
  have hmemory : memory = q'.memory := by
    rw [hserves.stores, hpending, hbeside.memory, hstepped.memory]
  -- an instruction that loads does not store
  have haccessed : accessed.memory = q.memory ∨ accessed.memory = q'.memory := by
    obtain ⟨written, store, hstore', -, hwritten⟩ :=
      hcarries.storeEffect_fits env (hrange.fits hcarries)
    rw [← hbeside.memory, hstore, Except.ok.injEq, Prod.mk.injEq] at hstore'
    rw [hstepped.memory, ← halike.pending]
    rcases hwritten with hwritten | hwritten
    · exact .inl (hstore'.1.trans hwritten)
    · exact .inr (hstore'.1.trans hwritten)
  have hsame : a.Same b := by
    obtain ⟨a', hload', hsame⟩ := halike.loadEffect env c.clocks hcarries hstepped.load
    by_cases hacc : i.memAccType = .read
    · have hq : q'.memory = accessed.memory := by
        rw [storeEffect_of_ne (by simp [hacc]), Except.ok.injEq, Prod.mk.injEq] at hstore
        rw [← hstore.1, hbeside.memory, hstepped.memory, ← halike.pending, Instruction.pending,
          if_neg (by simp [hacc])]
        rfl
      rw [hq, hload, Except.ok.injEq] at hload'
      rw [hload']
      exact hsame
    · rw [loadEffect_of_ne hacc, Except.ok.injEq] at hload hload'
      rw [← hload, hload']
      exact hsame
  have hregs (num : RegName) :
      (q'.rf.regs num).value = settle (some a) num (q.rf.regs num).value := by
    rw [settle_same hsame]
    exact hstepped.regs num
  refine ⟨q', ?_, ?_, hstepped.named hbeside.named, hmemory, ?_, haccessed, ?_, ?_, ?_⟩
  · intro hnone
    rw [hmw] at hnone
    cases hnone
  · intro x hx
    rw [hmw, Option.some.injEq] at hx
    exact ⟨b, hstep, hx ▸ hsame⟩
  · rw [hem, behind, Instruction.goesOn, halike.target, hstepped.pc]
    congr 1
    rw [(hbeside.onward.em _ hslot).2]
  · intro pc hapart
    refine hstepped.read_eq fun hover => hapart i hem ?_
    unfold Instruction.Overwrites at hover ⊢
    rw [halike.pending, ← hstepped.pending_eq]
    exact hover
  · intro num
    rw [hmw]
    exact hregs num
  · intro num hclear
    rw [hem, hregs]
    by_cases hacc : i.memAccType = .read
    · have hwrites : i.writes num = true → num = 0 :=
        hclear i hem (by simp [HazardUnit.isLoad, hacc])
      simp only [settle, Instruction.writes_of_fixed (loadEffect_fixed hload)]
      rw [if_neg fun hboth => hboth.2 (hwrites hboth.1),
        if_neg fun hboth => hboth.2 (hwrites hboth.1)]
    · rw [loadEffect_of_ne hacc, Except.ok.injEq] at hload
      rw [hload]

omit hinv in
theorem accompanied_idle (hem : live c.em = none) : Accompanied env c accessed memory q q := by
  have hmw : accessed.mw = none := by
    rcases live_accessed h.access with ⟨-, hmw⟩ | ⟨i, i', hslot, -⟩
    · exact hmw
    · rw [hem] at hslot
      cases hslot
  have hmemory : memory = q.memory := (h.memory_of_idle hmw).trans hbeside.memory
  have haccessed : accessed.memory = q.memory := by
    rcases memStage_ok h.access with ⟨i, i', -, hmw', -⟩ | ⟨-, rfl⟩
    · rw [hmw] at hmw'
      cases hmw'
    · exact hbeside.memory
  constructor
  case idle => exact fun _ => rfl
  case step =>
    intro a ha
    rw [hmw] at ha
    cases ha
  case named => exact hbeside.named
  case memory => exact hmemory
  case pc => rw [hem, behind]
  case written => exact .inl haccessed
  case reads => exact fun _ _ => rfl
  case regs => rw [hmw]; exact fun _ => rfl
  case ahead => rw [hem]; exact fun _ _ => rfl

theorem accompanied : ∃ q', Accompanied env c accessed memory q q' := by
  cases hem : live c.em with
  | none => exact ⟨q, accompanied_idle h hbeside hem⟩
  | some e => exact accompanied_live hinv h hbeside hem

end Access

/-! ## The cycle -/

theorem bypassed_eq (hinv : c.Inv) (em : Option Instruction) (num : RegName) :
    c.bypassed env em num =
      settle (c.executing env) num (settle em num (c.exRf.regs num).value) := by
  unfold bypassed
  by_cases hnum : num = 0
  · rw [if_pos hnum, hnum, settle_zero, settle_zero, regs_exRf_zero hinv]
  · rw [if_neg hnum]
    cases c.executing env <;> cases em <;>
      simp only [feeds, settle, Option.filter_none, Option.filter_some, ne_eq, hnum,
        not_false_eq_true, and_true] <;>
      split_ifs <;> rfl

section Advance

variable (hinv : c.Inv) (hsound : c.Sound env)
  (h : Stepped env old c accessed decoded word memory) (hbeside : c.Beside env q)
  (hmachine : Accompanied env c accessed memory q q')
include hinv hsound h

omit hbeside hmachine in
theorem Sound.hits : decoded.hits = 0 := by
  by_contra hne
  obtain ⟨load, fetched, num, huse⟩ :=
    (hits_pos_iff hinv h.access h.decode).mp (Nat.pos_of_ne_zero hne)
  exact hsound.loadUse load fetched num huse

theorem live_em_advance :
    live (c.advance env accessed decoded word memory).em = c.executing env := by
  have hhits := hsound.hits hinv h
  simp only [advance, hhits]
  cases c.executing env <;> rfl

include hbeside

omit hinv h in
theorem regs_exRf_eq (num : RegName) :
    (c.exRf.regs num).value = (q.rf.regs num).value := by
  have hmem : c.memRf = c.wbRf := by
    rcases hem : c.em with - | ⟨a, - | -⟩
    · rw [memRf, hem, RegFile.squash_none]
    · rw [memRf, hem, RegFile.squash_live]
    · have hkilled := (hbeside.onward.em _ hem).1
      cases hkilled
  rw [← hbeside.regs, exRf, hmem]
  rcases hde : c.de with - | ⟨a, - | -⟩
  · rw [RegFile.squash_none]
  · rw [RegFile.squash_live]
  · rw [RegFile.squash_killed]
    exact regs_release_wbRf_iff.mpr (hsound.fresh a hde) num

include hmachine

omit hinv in
private theorem regs_wbRf_advance (num : RegName) :
    ((c.advance env accessed decoded word memory).wbRf.regs num).value =
      (q'.rf.regs num).value := by
  rw [value_wbRf, hmachine.regs, ← regs_exRf_eq hsound hbeside]
  change settle accessed.mw num (decoded.rf.regs num).value = _
  rw [decodeStage_regs h.decode]

private theorem ahead_advance_eq (num : RegName) :
    (c.advance env accessed decoded word memory).ahead num =
      c.bypassed env accessed.mw num := by
  rw [ahead, live_em_advance hinv hsound h,
    regs_wbRf_advance hsound h hbeside hmachine, bypassed_eq hinv, hmachine.regs,
    regs_exRf_eq hsound hbeside]

omit h hsound in
private theorem executing_alike (hexec : c.executing env = some e) :
    q'.memory.read 0 q'.pc.toNat 4 = .ok q'.word ∧ e.Alike (q'.executing env) := by
  obtain ⟨i, hde, rfl⟩ := executing_eq_some hexec
  obtain ⟨w, hready⟩ := hbeside.de i hde
  have hpc : i.pc = q'.pc := by
    obtain ⟨w', hcarries⟩ := hinv.decoded _ hde
    rw [hmachine.pc, ← hbeside.onward.executing_pc hinv hexec,
      Instruction.pc_of_fixed hcarries.executed_fixed]
  have hread : q'.memory.read 0 q'.pc.toNat 4 = .ok w := by
    rw [← hpc, hmachine.reads i.pc hready.apart, ← hbeside.memory]
    exact hready.read
  have hword : q'.word = w := by rw [Seq.word, hread]
  obtain ⟨old, rs1, rs2, rd, hfill, hrd, hrs1, hrs2⟩ := hready.filled
  have hvalue (num : RegName) (hreads : Decoder.reads w num = true) :
      c.ahead num = (q'.rf.regs num).value := by
    rw [ahead, hbeside.regs]
    exact hmachine.ahead num fun e hem hload hwrites => hready.clear e num hem hload hwrites hreads
  have hcarries : i.Carries w := by
    rw [hfill]
    exact (Decoder.fill_carries _ _ _ _ hrd).setPc _
  have hprimed : i.Primed (q'.decode q'.word) := by
    rw [hfill, hword, Seq.decode, ← hpc]
    apply Instruction.fill_primed
    case h1 =>
      intro hreads
      rw [hrs1 hreads]
      exact hvalue _ (Decoder.reads_rs1 hreads)
    case h2 =>
      intro hreads
      rw [hrs2 hreads]
      exact hvalue _ (Decoder.reads_rs2 hreads)
    case hrd => rw [hrd, hmachine.named]
  refine ⟨by rw [hword, hread], hprimed.executed hready.recognised hcarries ?_⟩
  rw [hword]
  exact Seq.decode_carries hmachine.named w

private theorem ready_advance (instr : Instruction)
    (hde : (c.advance env accessed decoded word memory).de = some ⟨instr, false⟩) :
    ∃ w, (c.advance env accessed decoded word memory).Ready instr w := by
  have hlive := live_em_advance hinv hsound h
  rcases advance_de hinv h.decode with hnew | ⟨-, i, -, -, hnew⟩
  swap
  · rw [hnew] at hde
    cases hde
  rw [hnew] at hde
  obtain ⟨i, hinstr, hslot⟩ := Option.map_eq_some_iff.mp hde
  obtain rfl : i = instr := congrArg Slot.instr hslot
  have htarget : c.target env = none := by
    have hflag : (c.target env).isSome = false := congrArg Slot.killed hslot
    rwa [Option.isSome_eq_false_iff, Option.isNone_iff_eq_none] at hflag
  have hstore (load : Instruction) (fetched : Fetched) (num : RegName) :
      ¬ c.StoreUse load fetched num :=
    not_storeUse_of_decodeStage hinv h.access h.decode
  obtain ⟨fetched, hdecoding, -⟩ := decodeStage_instr hinv.named h.decode hinstr
  obtain ⟨hfd, -⟩ := decoding_eq_some hdecoding
  obtain ⟨decoded', hdecode', -, hfills⟩ :=
    decodeStage_clear hinv hsound.loadUse hstore old h.access
  rw [h.decode, Except.ok.injEq] at hdecode'
  rw [← hdecode'] at hfills
  obtain ⟨rs1, rs2, hinstr', hrs1, hrs2⟩ := hfills fetched hdecoding
  rw [hinstr, Option.some.injEq] at hinstr'
  have hpc : i.pc = fetched.pc := by rw [hinstr']
  obtain ⟨hread, hapart⟩ := hbeside.fd _ hfd rfl
  refine ⟨fetched.word, hsound.recognised fetched hdecoding htarget, ?_, ?_, ?_, ?_⟩
  · change memory.read 0 i.pc.toNat 4 = _
    rw [hmachine.memory, hpc, hmachine.reads _ hapart, ← hbeside.memory]
    exact hread
  · intro e hem
    rw [hlive] at hem
    rw [hpc]
    exact hsound.overtaken e ⟨fetched.pc, fetched.word, false⟩ hem hfd rfl
  · refine ⟨old, rs1, rs2, _, ?_, exRf_named hinv.named _, fun hreads => ?_, fun hreads => ?_⟩
    · rw [hpc]
      exact hinstr'
    · rw [hrs1 hreads, ahead_advance_eq hinv hsound h hbeside hmachine]
    · rw [hrs2 hreads, ahead_advance_eq hinv hsound h hbeside hmachine]
  · intro e num hem hload hwrites hreads
    rw [hlive] at hem
    exact not_load_of_reads hinv hsound.loadUse hstore hdecoding hreads e hem hload hwrites

private theorem fetched_advance (fetched : Fetched)
    (hfd : (c.advance env accessed decoded word memory).fd = some fetched)
    (hkilled : fetched.killed = false) :
    memory.read 0 fetched.pc.toNat 4 = .ok fetched.word ∧
      ∀ e, live (c.advance env accessed decoded word memory).em = some e →
        ¬ e.Overwrites fetched.pc := by
  have hhits := hsound.hits hinv h
  rw [live_em_advance hinv hsound h, hmachine.memory]
  by_cases hstop : c.stop + c.exitStop env = 0
  · simp only [advance, hhits, Nat.add_zero, hstop, if_true, Option.some.injEq] at hfd
    subst hfd
    have htarget : c.target env = none := by
      rw [Bool.or_eq_false_iff, Option.isSome_eq_false_iff, Option.isNone_iff_eq_none] at hkilled
      exact hkilled.2
    have hread := h.fetch
    rw [fetchStage, if_pos (by omega)] at hread
    refine ⟨?_, fun e hem => hsound.ahead e (.inl hem) hstop htarget⟩
    rcases hmachine.written with hmemory | hmemory
    · rw [hmachine.reads _ fun e hem => hsound.ahead e (.inr hem) hstop htarget, ← hmemory]
      exact hread
    · rw [← hmemory]
      exact hread
  · simp only [advance, hhits, Nat.add_zero, hstop, if_false] at hfd
    obtain ⟨hread, hapart⟩ := hbeside.fd fetched hfd hkilled
    rw [hmachine.reads _ hapart, ← hbeside.memory]
    exact ⟨hread, fun e hem => hsound.overtaken e fetched hem hfd hkilled⟩

theorem Beside.advance (hstraight : c.Straight) :
    (c.advance env accessed decoded word memory).Beside env q' where
  named := hmachine.named
  onward := by
    rw [hmachine.pc]
    exact hbeside.onward.advance hinv hstraight h (hsound.hits hinv h)
  regs := regs_wbRf_advance hsound h hbeside hmachine
  memory := hmachine.memory
  em := fun e hem => by
    rw [live_em_advance hinv hsound h] at hem
    exact executing_alike hinv hbeside hmachine hem
  de := ready_advance hinv hsound h hbeside hmachine
  fd := fetched_advance hinv hsound h hbeside hmachine

end Advance

end Core

end RiscvPerfSim
