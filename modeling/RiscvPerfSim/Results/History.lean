import RiscvPerfSim.Core.Prefix
import RiscvPerfSim.Foundation.Steps
import RiscvPerfSim.Results.Execution

/-!
# The history of a run

What the retired instructions say about the memory, the registers and the
program counter, in any state that a run passes, whether it ever ends or not.
-/

namespace RiscvPerfSim

open Foundation

namespace PerfSim

variable {env : Env} {memory : Memory} {pc : BitVec 32} {values : RegName → BitVec 32}
  {s t : PerfSim} {m : Nat}

theorem reaches_of_runFor {G : PerfSim → Prop}
    (hguard : ∀ k < m, ∀ u, runFor env k s = .ok u → u.isStop = false → G u)
    (hrun : runFor env m s = .ok t) : (loop env).Reaches G s t := by
  induction m generalizing s with
  | zero =>
      cases hrun
      exact .refl _
  | succ m ih =>
      rcases runFor_succ hrun with ⟨-, rfl⟩ | ⟨hstop, u, hcycle, hrest⟩
      · exact .refl _
      · have hlater (k : Nat) (hk : k < m) (v : PerfSim) (hv : runFor env k u = .ok v)
            (hv' : v.isStop = false) : G v := by
          refine hguard (k + 1) (by omega) v ?_ hv'
          rw [PerfSim.runFor, if_neg (by simp [hstop]), hcycle]
          exact hv
        obtain ⟨n, rounds⟩ := ih hlater hrest
        exact ⟨n + 1, .next hstop (hguard 0 (Nat.succ_pos m) s rfl hstop) hcycle rounds⟩

theorem reaches_of_tests {G : PerfSim → Prop} (test : PerfSim → Bool)
    (hsound : ∀ u, u.Good → test u = true → G u) (hreach : Reachable env s)
    (hends : checkAfter env m s (fun _ => true) = true)
    (htests : ∀ k ∈ List.range m, checkAfter env k s test = true) :
    ∃ t, runFor env m s = .ok t ∧ (loop env).Reaches G s t := by
  obtain ⟨t, hrun, -, -⟩ := checkAfter_spec m _ hreach hends
  refine ⟨t, hrun, reaches_of_runFor (fun k hk u hu _ => ?_) hrun⟩
  obtain ⟨v, hv, hgood, htest⟩ := checkAfter_spec k _ hreach (htests k (List.mem_range.mpr hk))
  rw [hu, Except.ok.injEq] at hv
  rw [hv]
  exact hsound v hgood.good htest

theorem core_invariant {G : PerfSim → Prop} {P : Core → Prop}
    (hpres : ∀ {s : PerfSim} {accessed decoded word memory}, s.Good → s.core.Straight → G s →
      Core.Stepped env s.leftover s.core accessed decoded word memory → P s.core →
        P (s.core.advance env accessed decoded word memory))
    (hstart : P (boot memory pc values).core)
    (h : (loop env).Reaches G (boot memory pc values) s) : P s.core := by
  have hall := h.invariant (P := fun s => s.Good ∧ s.core.Straight ∧ P s.core) ?_
    ⟨boot_good memory pc values, Core.straight_boot memory pc values, hstart⟩
  · exact hall.2.2
  · rintro s t ⟨hgood, hstraight, hcore⟩ - hguard hcycle
    obtain ⟨-, accessed, decoded, word, memory', hstepped, heq⟩ := hgood.stepped hcycle
    refine ⟨hgood.cycle hcycle, hgood.straight_cycle hstraight hcycle, ?_⟩
    rw [heq]
    exact hpres hgood hstraight hguard hstepped hcore

/-! ## Memory -/

/-- The instructions that have accessed memory: the retired ones, and the one that retires
next. -/
def accesses (s : PerfSim) : List Instruction :=
  s.trace ++ (s.mwSt.load.instrOf s.decoder).toList

/-- In every state of every run memory is what the retired instructions and the next one to retire
have stored, each of them once and in that order, and each has loaded what those before it have
stored. -/
theorem memory_history (h : (loop env).Reaches (fun _ => True) (boot memory pc values) s) :
    Steps (fun memory instr memory' => instr.Serves env memory memory') memory s.accesses
      s.memory := by
  refine core_invariant (P := fun c =>
    Steps (fun memory instr memory' => instr.Serves env memory memory') memory
      (c.trace ++ c.mw.toList) c.memory) ?_ .nil h
  intro s accessed decoded word memory' hgood _ _ hstepped hsteps
  exact hsteps.optional (fun _ hmw => hstepped.serves hgood.pipeline hmw) hstepped.memory_of_idle

theorem memory_history_storeLoop : ∃ s, runFor .plain 12 storeLoop = .ok s ∧
    Steps (fun memory instr memory' => instr.Serves .plain memory memory') storeLoop.memory
      s.accesses s.memory := by
  obtain ⟨s, hrun, hreaches⟩ := reaches_of_tests (fun _ => true) (fun _ _ _ => trivial)
    (.boot .plain _ _ _) (by decide +kernel : checkAfter .plain 12 storeLoop _ = true)
    (by decide +kernel)
  exact ⟨s, hrun, memory_history hreaches⟩

/-! ## Registers -/

/-- Whatever is discarded in the next cycle leaves the registers alone. -/
def FreshDiscards (s : PerfSim) : Prop :=
  ∀ latch instr, latch = s.deSt.load ∨ latch = s.emSt.load →
    s.discarded latch = some instr → s.Fresh instr

private theorem discarded_of_slot {latch : InstrLatch} {instr : Instruction}
    (h : latch.slotOf s.decoder = some ⟨instr, true⟩) : s.discarded latch = some instr := by
  obtain ⟨hstall, hhazard, ptr, hptr, rfl⟩ := InstrLatch.slotOf_eq_some h
  simp [discarded, hstall, hhazard, hptr]

theorem Good.regs_exRf (hgood : s.Good) (hfresh : s.FreshDiscards) (num : RegName) :
    (s.core.exRf.regs num).value = (s.core.wbRf.regs num).value := by
  have hkilled (instr : Instruction)
      (hslot : s.core.de = some ⟨instr, true⟩ ∨ s.core.em = some ⟨instr, true⟩) :
      (s.core.exRf.regs num).value = (s.core.wbRf.regs num).value := by
    rw [(Core.exRf_of_killed hgood.pipeline hslot).1]
    refine Core.regs_release_wbRf_iff.mpr ?_ num
    rcases hslot with hde | hem
    · exact hfresh _ instr (.inl rfl) (discarded_of_slot hde)
    · exact hfresh _ instr (.inr rfl) (discarded_of_slot hem)
  rcases hde : s.core.de with - | ⟨a, - | -⟩
  case some.true => exact hkilled a (.inl hde)
  all_goals
    rcases hem : s.core.em with - | ⟨b, - | -⟩
    case some.true => exact hkilled b (.inr hem)
    all_goals rw [Core.value_exRf, Core.value_wbRf, hde, hem]; rfl

def freshDiscardsTest (s : PerfSim) : Bool :=
  [s.deSt.load, s.emSt.load].all fun latch => (s.discarded latch).all s.freshTest

theorem freshDiscards_of_test (h : s.freshDiscardsTest = true) : s.FreshDiscards := by
  intro latch instr hlatch hdiscard
  have hmem : latch ∈ [s.deSt.load, s.emSt.load] := by simpa using hlatch
  have htest := List.all_eq_true.mp h latch hmem
  rw [hdiscard] at htest
  exact fresh_iff_test.mpr htest

/-! ## The program counter -/

/-- As long as no load is hit, the retired instructions lie on a path of the program: the first one
at the entry, each of the others where the one before it goes on. -/
theorem path_history
    (h : (loop env).Reaches (fun s => ∀ load num, ¬ s.LoadUse load num) (boot memory pc values) s) :
    ∃ next, Steps (fun pc instr next => instr.pc = pc ∧ next = instr.goesOn) pc s.trace next := by
  suffices hcore : ∃ next, Steps (fun pc instr next => instr.pc = pc ∧ next = instr.goesOn) pc
      (s.core.trace ++ s.core.mw.toList) next ∧ s.core.Onward next by
    obtain ⟨next, hsteps, -⟩ := hcore
    exact hsteps.of_optional
  refine core_invariant (P := fun c =>
    ∃ next, Steps (fun pc instr next => instr.pc = pc ∧ next = instr.goesOn) pc
      (c.trace ++ c.mw.toList) next ∧ c.Onward next) ?_
    ⟨pc, .nil, Core.onward_boot memory pc values⟩ h
  rintro s accessed decoded word memory' hgood hstraight huse hstepped ⟨next, hsteps, hon⟩
  have hinv := hgood.pipeline
  have hhits : decoded.hits = 0 := by
    by_contra hne
    obtain ⟨load, fetched, num, hload⟩ :=
      (Core.hits_pos_iff hinv hstepped.access hstepped.decode).mp (Nat.pos_of_ne_zero hne)
    exact hgood.not_loadAhead_iff.mpr huse load fetched num hload
  refine ⟨_, ?_, hon.advance hinv hstraight hstepped hhits⟩
  exact hsteps.optional (fun _ hmw => hon.retires hinv hstepped hmw)
    (Core.behind_of_idle hstepped)

theorem path_history_storeLoop : ∃ s next, runFor .plain 15 storeLoop = .ok s ∧
    Steps (fun pc instr next => instr.pc = pc ∧ next = instr.goesOn) 0 s.trace next := by
  obtain ⟨s, hrun, hreaches⟩ := reaches_of_tests
    (G := fun s => ∀ load num, ¬ s.LoadUse load num) (fun s => s.freeTest Decoder.needs)
    (fun _ _ htest => not_loadAhead_iff_test.mpr htest) (.boot .plain _ _ _)
    (by decide +kernel : checkAfter .plain 15 storeLoop _ = true) (by decide +kernel)
  obtain ⟨next, hsteps⟩ := path_history hreaches
  exact ⟨s, next, hrun, hsteps⟩

/-! ## The machine -/

theorem beside_history
    (h : (loop env).Reaches (fun s => s.core.Sound env) (boot memory pc values) s) :
    ∃ q q', Steps (Seq.Retires env) (Seq.boot memory pc values) s.trace q ∧
      (∀ num, (s.rf.regs num).value = (q.rf.regs num).value) ∧
        Steps (Seq.Retires env) (Seq.boot memory pc values) s.accesses q' ∧
          s.memory = q'.memory := by
  suffices hcore : ∃ q q', Steps (Seq.Retires env) (Seq.boot memory pc values) s.core.trace q ∧
      (∀ num, (s.core.rf.regs num).value = (q.rf.regs num).value) ∧
        Steps (Seq.Retires env) (Seq.boot memory pc values) (s.core.trace ++ s.core.mw.toList) q' ∧
          s.core.Beside env q' by
    obtain ⟨q, q', hretired, hregs, haccessed, hbeside⟩ := hcore
    exact ⟨q, q', hretired, hregs, haccessed, hbeside.memory⟩
  refine core_invariant (P := fun c =>
    ∃ q q', Steps (Seq.Retires env) (Seq.boot memory pc values) c.trace q ∧
      (∀ num, (c.rf.regs num).value = (q.rf.regs num).value) ∧
        Steps (Seq.Retires env) (Seq.boot memory pc values) (c.trace ++ c.mw.toList) q' ∧
          c.Beside env q') ?_
    ⟨_, _, .nil, fun _ => rfl, .nil, Core.beside_boot env memory pc values⟩ h
  rintro s accessed decoded word memory' hgood hstraight hsound hstepped
    ⟨q, q', -, -, haccessed, hbeside⟩
  have hinv := hgood.pipeline
  obtain ⟨q'', hmachine⟩ := Core.accompanied hinv hstepped hbeside
  refine ⟨q', q'', haccessed, fun num => ?_, haccessed.optional hmachine.step hmachine.idle,
    hbeside.advance hinv hsound hstepped hmachine hstraight⟩
  change (decoded.rf.regs num).value = _
  rw [Core.decodeStage_regs hstepped.decode]
  exact Core.regs_exRf_eq hsound hbeside num

/-- In a sound run, whether it ends or not, what has been retired is a run of the sequential
machine, and the registers and the memory are the ones it leads to. -/
theorem machine_history
    (h : (loop env).Reaches (fun s => s.core.Sound env) (boot memory pc values) s) :
    ∃ q q', Steps (Seq.Retires env) (Seq.boot memory pc values) s.trace q ∧
      (∀ num, (s.rf.regs num).value = (q.rf.regs num).value) ∧
        Steps (Seq.Retires env) (Seq.boot memory pc values) s.accesses q' ∧
          s.memory = q'.memory :=
  beside_history h

def soundTest (env : Env) (s : PerfSim) : Bool :=
  s.freeTest Decoder.needs && (s.discarded s.deSt.load).all s.freshTest && s.core.apartTest env

theorem sound_of_test (hgood : s.Good) (h : s.soundTest env = true) : s.core.Sound env := by
  simp only [soundTest, Bool.and_eq_true, Option.all_eq_true] at h
  obtain ⟨⟨huse, hfresh⟩, hapart⟩ := h
  refine .of_test (hgood.not_loadAhead_iff.mpr (not_loadAhead_iff_test.mpr huse)) ?_ hapart
  exact fun instr hde => fresh_iff_test.mpr (hfresh instr (discarded_of_core hde))

/-- It counts in memory, and never ends. -/
def counter : PerfSim :=
  bootWords 128 [0x00108093#32, 0x04102023#32, 0x04002103#32, 0x00118193#32, 0xff1ff06f#32]

theorem machine_history_counter : ∃ s q q', runFor .plain 40 counter = .ok s ∧
    Steps (Seq.Retires .plain) (Seq.boot counter.memory 0 fun _ => 0) s.trace q ∧
      (∀ num, (s.rf.regs num).value = (q.rf.regs num).value) ∧
        Steps (Seq.Retires .plain) (Seq.boot counter.memory 0 fun _ => 0) s.accesses q' ∧
          s.memory = q'.memory := by
  obtain ⟨s, hrun, hreaches⟩ := reaches_of_tests (soundTest .plain)
    (fun _ hgood htest => sound_of_test hgood htest) (.boot .plain _ _ _)
    (by decide +kernel : checkAfter .plain 40 counter _ = true) (by decide +kernel)
  obtain ⟨q, q', hhistory⟩ := machine_history hreaches
  exact ⟨s, q, q', hrun, hhistory⟩

end PerfSim

end RiscvPerfSim
