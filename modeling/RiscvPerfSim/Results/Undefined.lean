import RiscvPerfSim.Core.Counting
import RiscvPerfSim.Core.Stores

/-!
# Values that a run is given

Four places of the source read a value that the language does not fix: a shift
by 32 or more, the buffer of a load, and the id behind an empty list twice.  The
model leaves the name of a default register open too.  Only the first of the
five ever shows in a run.  Signed overflow is not among them.
-/

namespace RiscvPerfSim

open Foundation

variable {env env' : Env}

/-! ## The store queue -/

theorem Pipeline.tryConcatenate_congr (env env' : Env) (pipeline : Pipeline) (st : Store) :
    pipeline.tryConcatenate env st = pipeline.tryConcatenate env' st := by
  unfold tryConcatenate
  cases hlast : pipeline.queue.getLast? with
  | some it => rfl
  | none =>
      rw [List.getLast?_eq_none_iff] at hlast
      simp only [hlast, List.reverse_nil, concatLoop]

theorem Pipeline.push_congr (env env' : Env) (pipeline : Pipeline) (instr : Instruction) :
    pipeline.push env instr = pipeline.push env' instr := by
  unfold push
  simp only [tryConcatenate_congr env env']

/-! ## Memory access -/

namespace PerfSim

variable {s : PerfSim}

theorem storeAccess_congr (hconfig : env'.config = env.config) (instr : Instruction) :
    storeAccess env s instr = storeAccess env' s instr := by
  unfold storeAccess
  rw [hconfig, Pipeline.push_congr env env']

theorem loadAccess_congr {instr : Instruction} {word : BitVec 32} (h : instr.Carries word)
    (hqueue : instr.memAccType = .read → s.pipeline.queue = []) :
    loadAccess env s instr = loadAccess env' s instr := by
  by_cases hread : instr.memAccType = .read
  · rw [loadAccess_eq instr (hqueue hread), loadAccess_eq instr (hqueue hread)]
    exact Core.loadEffect_congr _ _ _ _ h
  · simp only [loadAccess, hread, false_and, if_false]

theorem memoryAccess_congr (hconfig : env'.config = env.config)
    (hem : s.emSt.load.Holds s.decoder 2) (hqueue : s.pipeline.queue = []) :
    s.memoryAccess env = s.memoryAccess env' := by
  unfold memoryAccess
  dsimp only
  split_ifs with hstop hkill
  · rfl
  · rfl
  · have hstall : s.emSt.load.isStall = false := by
      simp only [Bool.or_eq_true, not_or, Bool.not_eq_true] at hstop
      exact hstop.1.1
    obtain ⟨ptr, word, hptr, -, hcarries, -⟩ := hem hstall
    rw [hptr]
    refine bind_eq_of_ok fun x hx => ?_
    cases hx
    simp only [storeAccess_congr hconfig]
    refine bind_eq_of_ok fun t ht => ?_
    have hload : loadAccess env t (s.decoder.get ptr) = loadAccess env' t (s.decoder.get ptr) := by
      refine loadAccess_congr hcarries fun hread => ?_
      simp only [storeAccess, hread, reduceCtorEq, false_and, if_false, Except.ok.injEq] at ht
      rw [← ht]
      exact hqueue
    simp only [hload]

/-! ## Execute -/

end PerfSim

def Executor.shifts : Executor → Bool
  | .sll | .srl | .sra => true
  | _ => false

def Instruction.Overshifts (instr : Instruction) : Prop :=
  ∃ e, instr.mainExecutor = some e ∧ e.shifts = true ∧ 32 ≤ instr.rs2.value.toNat

theorem Executors.aluReg_congr {f g : BitVec 32 → BitVec 32 → BitVec 32} {instr : Instruction}
    (h : f instr.rs1.value instr.rs2.value = g instr.rs1.value instr.rs2.value) :
    aluReg f instr = aluReg g instr := by
  unfold aluReg Instruction.getRs1 Instruction.getRs2
  cases htype : instr.type <;> simp [Instruction.dynamicCast, htype, h, bind, Except.bind]

theorem Instruction.execute_congr {instr : Instruction} (h : ¬ instr.Overshifts) :
    instr.execute env = instr.execute env' := by
  unfold execute
  cases he : instr.mainExecutor with
  | none => rfl
  | some e =>
      have hcount (hshifts : e.shifts = true) : instr.rs2.value.toNat < 32 :=
        Nat.not_le.mp fun hle => h ⟨e, he, hshifts, hle⟩
      cases e
      case sll | srl | sra =>
        exact Executors.aluReg_congr (by simp only [Executors.shiftBy, hcount rfl, if_true])
      all_goals rfl

namespace PerfSim

variable {s : PerfSim}

/-- The instruction that executes next does not shift by a value that is no count. -/
def Narrow (s : PerfSim) : Prop :=
  ∀ instr, s.core.de = some ⟨instr, false⟩ → ¬ instr.Overshifts

theorem execute_congr (hnarrow : s.Narrow) : s.execute env = s.execute env' := by
  unfold execute
  dsimp only
  split_ifs with hstop hkill
  · rfl
  · rfl
  · refine bind_eq_of_ok fun x hx => ?_
    obtain ⟨ptr, hptr, rfl⟩ :
        ∃ ptr, s.deSt.load.instr = some ptr ∧ (ptr, s.decoder.get ptr) = x := by
      cases hinstr : s.deSt.load.instr with
      | none =>
          rw [hinstr] at hx
          cases hx
      | some ptr =>
          rw [hinstr] at hx
          cases hx
          exact ⟨ptr, rfl, rfl⟩
    have hlive : s.core.de = some ⟨s.decoder.get ptr, false⟩ := by
      simp only [Bool.or_eq_true, not_or, Bool.not_eq_true] at hstop
      rw [core_de, InstrLatch.slotOf_of_ptr _ hstop.1.1 hptr, hstop.1.2]
    have hexec : (s.decoder.get ptr).execute env = (s.decoder.get ptr).execute env' :=
      Instruction.execute_congr (hnarrow _ hlive)
    simp only [hexec]

end PerfSim

/-! ## Decode -/

namespace Decoder

variable {dp dp' : Datapath}

theorem readOperand_congr (h : dp.Fed) (num : RegName) (needValueOn : PipelineStage) :
    readOperand env dp num needValueOn = readOperand env' dp num needValueOn := by
  unfold readOperand RegFile.isLock
  by_cases hlock : dp.rf.regLocker num = 0
  · rw [if_neg (not_not.mpr hlock), if_neg (not_not.mpr hlock)]
  · rw [if_pos hlock, if_pos hlock, RegFile.getReg_snd]
    unfold HazardUnit.decode
    rw [HazardUnit.producer_eq _ h.wired.de, HazardUnit.producer_eq _ h.wired.em, h.named num]
    rcases hde : Core.feeds (dp.deSt.load.instrOf dp.decoder) num with - | instr
    · rcases hem : Core.feeds (dp.emSt.load.instrOf dp.decoder) num with - | instr
      · have hnum : num ≠ 0 := by
          rintro rfl
          exact hlock h.zero
        exact absurd ((h.locks num hnum).mpr ⟨hde, hem⟩) hlock
      · rfl
    · rfl

theorem readFields_congr (h : dp.Fed) (found : Recognized) (word : BitVec 32)
    (old : Instruction) :
    readFields env dp found word old = readFields env' dp found word old := by
  have hone (num : RegName) (stage : PipelineStage)
      {f g : Datapath × Register → Except Error (Datapath × Instruction)}
      (hrest : ∀ x, x.1.Fed → f x = g x) :
      readOperand env dp num stage >>= f = readOperand env' dp num stage >>= g := by
    have hread : readOperand env dp num stage = readOperand env' dp num stage :=
      readOperand_congr h num stage
    rw [hread]
    exact bind_eq_of_ok fun x hx => hrest x (readOperand_fed h hx).1
  unfold readFields
  cases found.type
  case r | s | b =>
    refine hone _ _ fun x hfed => ?_
    have hsecond (num : RegName) (stage : PipelineStage) :
        readOperand env x.1 num stage = readOperand env' x.1 num stage :=
      readOperand_congr hfed num stage
    simp only [hsecond]
  case i => exact hone _ _ fun x _ => rfl
  all_goals rfl

theorem decode_congr (h : dp.Fed) (word : BitVec 32) :
    decode env dp word = decode env' dp word := by
  rw [decode_eq, decode_eq, readFields_congr (taken_fed h word).1]

end Decoder

namespace PerfSim

variable {s : PerfSim} {accessed : Core.Accessed}

theorem decode_congr (hfed : s.deSt.stopCount = 0 → s.decoding.Fed) :
    s.decode env = s.decode env' := by
  by_cases hrun : (s.fdSt.load.isStall || s.fdSt.load.hazardStall) = false ∧ s.deSt.stopCount = 0
  · rw [decode_eq env hrun.1 hrun.2, decode_eq env' hrun.1 hrun.2,
      Decoder.decode_congr (hfed hrun.2)]
  · unfold decode
    dsimp only
    split_ifs with hidle
    · rfl
    · exact absurd (by simpa [Stage.isStop, Stage.modifyStore] using hidle) hrun

theorem untilDecode_congr (hgood : s.Good) (hconfig : env'.config = env.config)
    (hnarrow : s.Narrow) : s.untilDecode env = s.untilDecode env' := by
  unfold untilDecode
  rw [writeBack_eq hgood.latches.mw hgood.latches.mwHazard]
  refine bind_eq_of_ok fun t ht => ?_
  cases ht
  rw [memoryAccess_congr (s := s.afterWriteBack) hconfig hgood.latches.em hgood.latches.queue]
  refine bind_eq_of_ok fun t ht => ?_
  obtain ⟨accessed, haccess, pipeline, -, rfl⟩ := (memoryAccess_agree (s := s.afterWriteBack)
    hgood.latches.mwStop hgood.latches.mwStore hgood.latches.queue hgood.latches.pending
    hgood.latches.em).of_ok ht
  refine execute_congr fun instr hde => hnarrow instr ?_
  exact (core_afterAccess_de hgood.latches haccess).symm.trans hde

theorem Good.cycle_congr (hgood : s.Good) (hconfig : env'.config = env.config)
    (hnarrow : s.Narrow) : s.cycle env = s.cycle env' := by
  rw [cycle_stages, cycle_stages, ← untilDecode_congr hgood hconfig hnarrow]
  refine bind_eq_of_ok fun t ht => ?_
  obtain ⟨accessed, pipeline, haccess, rfl⟩ := untilDecode_ok hgood.latches ht
  have hdecode : (s.beforeDecode env accessed pipeline).decode env =
      (s.beforeDecode env accessed pipeline).decode env' :=
    decode_congr fun hstop => (hgood.fed haccess (exits_of_stopCount hstop) pipeline).1
  rw [hdecode]

/-! ## Runs -/

/-- A run in which each cycle finds other values where the language leaves them open. -/
def runEach (envs : Nat → Env) : Nat → PerfSim → Except Error PerfSim
  | 0, s => .ok s
  | n + 1, s => if s.isStop then .ok s else s.cycle (envs 0) >>= runEach (fun k => envs (k + 1)) n

theorem runEach_const (env : Env) (n : Nat) (s : PerfSim) :
    runEach (fun _ => env) n s = runFor env n s := by
  induction n generalizing s with
  | zero => rfl
  | succ n ih =>
      unfold runEach runFor
      rw [show runEach (fun _ => env) n = runFor env n from funext ih]

theorem runEach_eq {envs : Nat → Env} {n : Nat} (hreach : Reachable env s)
    (hconfig : ∀ k, (envs k).config = env.config)
    (hnarrow : ∀ k < n, ∀ t, runFor env k s = .ok t → t.isStop = false → t.Narrow) :
    runEach envs n s = runFor env n s := by
  induction n generalizing s envs with
  | zero => rfl
  | succ n ih =>
      unfold runEach runFor
      cases hstop : s.isStop with
      | true => rfl
      | false =>
          simp only [Bool.false_eq_true, if_false]
          rw [← hreach.good.cycle_congr (hconfig 0) (hnarrow 0 (Nat.succ_pos n) s rfl hstop)]
          refine bind_eq_of_ok fun t ht =>
            ih (hreach.cycle hstop ht) (fun k => hconfig (k + 1)) fun k hk r hr => ?_
          refine hnarrow (k + 1) (Nat.succ_lt_succ hk) r ?_
          simp only [runFor, hstop, Bool.false_eq_true, if_false, ht]
          exact hr

end PerfSim

theorem Instruction.Carries.executed_shift {instr : Instruction} {word : BitVec 32}
    (hcarries : instr.Carries word) {e : Executor} (he : instr.mainExecutor = some e)
    (hshifts : e.shifts = true) (hwide : 32 ≤ instr.rs2.value.toNat) (env : Env) :
    (instr.executed env).rd.value = env.undef.shift e instr.rs1.value instr.rs2.value := by
  have htype : instr.type = .r := by
    rw [hcarries.type, ← ((Decoder.recognize_sound word).executor e (hcarries.executor ▸ he)).1]
    cases e <;> first | rfl | cases hshifts
  have hdone : instr.execute env = .ok (instr.executed env) := hcarries.execute_eq
  cases e <;> try cases hshifts
  all_goals
    simp only [execute, he, Executor.call, Executors.SLL, Executors.SRL, Executors.SRA,
      Executors.aluReg, Executors.shiftBy, dynamicCast, getRs1, getRs2, setRdValue, htype,
      InstrType.writesRd, if_true, if_neg (Nat.not_lt.mpr hwide), bind, Except.bind,
      Except.ok.injEq] at hdone
    rw [← hdone]

/-- The same machine with every shift that is open one larger. -/
def Env.other (env : Env) : Env :=
  { env with undef := { env.undef with shift := fun e a b => env.undef.shift e a b + 1 } }

namespace PerfSim

variable {s s' t : PerfSim}

theorem Good.cycle_other (hgood : s.Good) (hwide : ¬ s.Narrow)
    (hcycle : s.cycle env = .ok s') : s.cycle env.other ≠ .ok s' := by
  intro hother
  obtain ⟨instr, hde, e, he, hshifts, hcount⟩ :
      ∃ instr, s.core.de = some ⟨instr, false⟩ ∧ instr.Overshifts := by
    simpa [Narrow] using hwide
  obtain ⟨word, hcarries⟩ := hgood.pipeline.decoded _ hde
  have hem (env : Env) (hcycle : s.cycle env = .ok s') :
      s'.core.em.map Slot.instr = some (instr.executed env) := by
    obtain ⟨-, accessed, decoded, word, memory, -, hcore⟩ := hgood.stepped hcycle
    rw [hcore]
    change ((s.core.executing env).map fun instr =>
      (⟨instr, decide (decoded.hits > 0)⟩ : Slot)).map Slot.instr = _
    rw [Core.executing, hde]
    rfl
  have hsame : instr.executed env = instr.executed env.other :=
    Option.some.inj ((hem env hcycle).symm.trans (hem env.other hother))
  have hvalue : (instr.executed env).rd.value = (instr.executed env.other).rd.value := by
    rw [hsame]
  rw [hcarries.executed_shift he hshifts hcount env,
    hcarries.executed_shift he hshifts hcount env.other] at hvalue
  exact absurd hvalue (by simp [Env.other])

/-- A run that raises nothing is the same whatever the values in `Undef` are in each cycle if and
only if it never shifts by the value of a register that is 32 or more. -/
theorem run_determined_iff {m : Nat} (hreach : Reachable env s) (hrun : runFor env m s = .ok t) :
    (∀ envs, (∀ k, (envs k).config = env.config) → ∀ k ≤ m, runEach envs k s = runFor env k s) ↔
      ∀ k < m, ∀ r, runFor env k s = .ok r → r.isStop = false → r.Narrow := by
  constructor
  · intro hsame k hk r hr hstop
    by_contra hwide
    have hnext (env : Env) (hr : runFor env k s = .ok r) :
        runFor env (k + 1) s = r.cycle env := by
      rw [runFor_add, hr]
      change runFor env 1 r = r.cycle env
      simp only [runFor, hstop, Bool.false_eq_true, if_false]
      exact bind_pure _
    have hsplit : runFor env (k + 1) s >>= runFor env (m - (k + 1)) = .ok t := by
      rw [← runFor_add, Nat.add_sub_of_le hk, hrun]
    obtain ⟨u, hu, -⟩ := ok_of_bind hsplit
    have hconst (j : Nat) (hj : j ≤ m) : runFor env.other j s = runFor env j s :=
      (runEach_const ..).symm.trans (hsame (fun _ => env.other) (fun _ => rfl) j hj)
    have hother := hconst (k + 1) hk
    rw [hu, hnext env.other ((hconst k hk.le).trans hr)] at hother
    exact (hreach.runFor hr).good.cycle_other hwide ((hnext env hr).symm.trans hu) hother
  · intro hnarrow envs hconfig k hk
    exact runEach_eq hreach hconfig fun j hj => hnarrow j (hj.trans_le hk)

/-- `ADDI x1, x0, 5; ADDI x2, x0, 3; SLL x3, x1, x2; SRA x4, x3, x2; ECALL`. -/
def shiftTwice : PerfSim :=
  bootWords 64 [0x00500093#32, 0x00300113#32, 0x002091b3#32, 0x4021d233#32, 0x00000073#32]

def narrowTest (s : PerfSim) : Bool :=
  match s.core.de with
  | some ⟨instr, false⟩ =>
      instr.mainExecutor.all fun e => !e.shifts || decide (instr.rs2.value.toNat < 32)
  | _ => true

theorem narrow_of_test (h : s.narrowTest = true) : s.Narrow := by
  rintro instr hde ⟨e, he, hshifts, hwide⟩
  rw [narrowTest, hde] at h
  simp only [he, hshifts, Option.all_some, Bool.not_true, Bool.false_or, decide_eq_true_eq] at h
  omega

theorem run_determined_iff_shiftTwice : ∃ s, runFor .plain 9 shiftTwice = .ok s ∧
    ∀ envs, (∀ k, (envs k).config = Env.plain.config) → ∀ k ≤ 9,
      runEach envs k shiftTwice = runFor .plain k shiftTwice := by
  have hends : checkAfter .plain 9 shiftTwice PerfSim.isStop = true := by decide +kernel
  obtain ⟨s, hrun, -⟩ := checkAfter_spec 9 _ (.boot .plain _ _ _) hends
  have htests : ∀ m ∈ List.range 10, checkAfter .plain m shiftTwice narrowTest = true := by
    decide +kernel
  refine ⟨s, hrun, (run_determined_iff (.boot .plain _ _ _) hrun).mpr fun k _ r hr _ => ?_⟩
  exact narrow_of_test (forall_of_checks 9 narrowTest hends htests k r hr)

end PerfSim

end RiscvPerfSim
