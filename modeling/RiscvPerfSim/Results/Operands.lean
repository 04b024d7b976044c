import RiscvPerfSim.Core.Bypass
import RiscvPerfSim.Core.Reachable

/-!
# Operands

What each read of a source operand in `Decoder::decode` delivers: the value
that the youngest producer in flight will write back, or the register itself.
-/

namespace RiscvPerfSim

namespace PerfSim

variable {env : Env} {s s' t : PerfSim}

/-! ## The reads of a decode -/

structure Read where
  dp : Datapath
  num : RegName
  needValueOn : PipelineStage

def Read.result (env : Env) (read : Read) : Except Error (Datapath × Register) :=
  Decoder.readOperand env read.dp read.num read.needValueOn

def read1 (t : PerfSim) : Read :=
  ⟨Decoder.taken t.decoding t.fdSt.load.instr, Decoder.numRs1 t.fdSt.load.instr, .execute⟩

def read2 (t : PerfSim) (dp : Datapath) : Read :=
  ⟨dp, Decoder.numRs2 t.fdSt.load.instr,
    Decoder.rs2Stage (Decoder.recognize t.fdSt.load.instr)⟩

def reads (env : Env) (t : PerfSim) : List Read :=
  match (Decoder.recognize t.fdSt.load.instr).type with
  | .r | .s | .b =>
      match t.read1.result env with
      | .ok (dp, _) => [t.read1, t.read2 dp]
      | .error _ => [t.read1]
  | .i => [t.read1]
  | .u | .j | .system | .none => []

private theorem readFields_reads {dp dp' : Datapath} {word : BitVec 32}
    {old object : Instruction}
    (h : Decoder.readFields env dp (Decoder.recognize word) word old = .ok (dp', object))
    (hreads : Decoder.readsRs1 (Decoder.recognize word).type = true) :
    ∃ dp1, Decoder.readOperand env dp (Decoder.numRs1 word) .execute = .ok (dp1, object.rs1) ∧
      (Decoder.readsRs2 (Decoder.recognize word).type = true →
        ∃ dp2, Decoder.readOperand env dp1 (Decoder.numRs2 word)
          (Decoder.rs2Stage (Decoder.recognize word)) = .ok (dp2, object.rs2)) := by
  unfold Decoder.readFields at h
  cases htype : (Decoder.recognize word).type with
  | r | s | b =>
      simp only [htype] at h
      obtain ⟨⟨dp1, rs1⟩, h1, h⟩ := Foundation.ok_of_bind h
      obtain ⟨⟨dp2, rs2⟩, h2, h⟩ := Foundation.ok_of_bind h
      cases h
      refine ⟨dp1, h1, fun _ => ⟨dp2, ?_⟩⟩
      simpa [Decoder.rs2Stage, htype] using h2
  | i =>
      simp only [htype] at h
      obtain ⟨⟨dp1, rs1⟩, h1, h⟩ := Foundation.ok_of_bind h
      cases h
      exact ⟨dp1, h1, fun hrs2 => by cases hrs2⟩
  | u | j | system | none => simp [htype, Decoder.readsRs1] at hreads

private theorem write_decoder {dp dp' : Datapath} {instr : Instruction}
    (h : HazardUnit.write dp instr = .ok dp') : dp'.decoder = dp.decoder := by
  unfold HazardUnit.write at h
  split at h
  · obtain ⟨rd, -, h⟩ := Foundation.ok_of_bind h
    obtain ⟨rf, -, h⟩ := Foundation.ok_of_bind h
    cases h
    rfl
  · cases h
    rfl

theorem decode_reads (hdecodes : t.decodes = true) {t' : PerfSim}
    (h : t.decode env = .ok t')
    (hreads : Decoder.readsRs1 (Decoder.recognize t.fdSt.load.instr).type = true) :
    ∃ ptr dp1, t'.deSt.store.instr = some ptr ∧
      t.read1.result env = .ok (dp1, (t'.decoder.get ptr).rs1) ∧
      (Decoder.readsRs2 (Decoder.recognize t.fdSt.load.instr).type = true →
        ∃ dp2, (t.read2 dp1).result env = .ok (dp2, (t'.decoder.get ptr).rs2)) := by
  have hfd : (t.fdSt.load.isStall || t.fdSt.load.hazardStall) = false := by
    simp only [decodes, Bool.and_eq_true, Bool.not_eq_true'] at hdecodes
    exact hdecodes.1
  have hstop : t.deSt.stopCount = 0 := by
    simp only [decodes, Stage.isStop, Bool.and_eq_true, Bool.not_eq_true',
      decide_eq_false_iff_not] at hdecodes
    omega
  rw [decode_eq env hfd hstop] at h
  obtain ⟨⟨dp, ptr⟩, hdecode, h⟩ := Foundation.ok_of_bind h
  have hissued : t'.deSt.store.instr = some ptr ∧
      (t'.decoder.get ptr).rs1 = (dp.decoder.get ptr).rs1 ∧
      (t'.decoder.get ptr).rs2 = (dp.decoder.get ptr).rs2 := by
    dsimp only at h
    split at h
    · obtain ⟨dp', hwrite, h⟩ := Foundation.ok_of_bind h
      cases h
      rw [write_decoder hwrite]
      exact ⟨rfl, by rw [Decoder.get_set_self], by rw [Decoder.get_set_self]⟩
    · obtain ⟨dp', hwrite, h⟩ := Foundation.ok_of_bind h
      cases hwrite
      cases h
      exact ⟨rfl, by rw [Decoder.get_set_self], by rw [Decoder.get_set_self]⟩
  obtain ⟨hptr, hrs1, hrs2⟩ := hissued
  rw [Decoder.decode_eq] at hdecode
  obtain ⟨⟨dp0, object⟩, hfields, hdecode⟩ := Foundation.ok_of_bind hdecode
  obtain ⟨dp1, hread1, hread2⟩ := readFields_reads hfields hreads
  cases hdecode
  rw [Decoder.get_set_self, Decoder.finish_rs1] at hrs1
  rw [Decoder.get_set_self, Decoder.finish_rs2] at hrs2
  refine ⟨_, dp1, hptr, ?_, fun h2 => ?_⟩
  · rw [hrs1]
    exact hread1
  · rw [hrs2]
    exact hread2 h2

/-! ## What a read has to deliver -/

/-- The write-back stage, `n` cycles on, retires an instruction that gives `num` this value. -/
def WritesBack (env : Env) (n : Nat) (s : PerfSim) (num : RegName)
    (value : BitVec 32) : Prop :=
  ∀ s', cycles env n s = .ok s' →
    ∃ instr u, s'.mwSt.load.instrOf s'.decoder = some instr ∧ instr.writes num = true ∧
      instr.rd.value = value ∧ s'.writeBack = .ok u ∧ (u.rf.regs num).value = value

def producer (t : PerfSim) (latch : InstrLatch) (num : RegName) : Option Instruction :=
  (latch.instrOf t.decoder).filter fun instr => instr.writes num

/-- The read delivers the operand of sequential execution, a load in execute aside. -/
structure Read.Correct (env : Env) (s t : PerfSim) (read : Read) : Prop where
  zero : read.num = REGISTER_NAME_ZERO →
    ∃ dp reg, read.result env = .ok (dp, reg) ∧ reg.value = 0
  de : ∀ instr, read.num ≠ REGISTER_NAME_ZERO →
    t.producer t.deSt.load read.num = some instr → HazardUnit.isLoad instr = false →
    ∃ dp reg, read.result env = .ok (dp, reg) ∧ reg.value = instr.rd.value ∧
      WritesBack env 2 s read.num reg.value
  em : ∀ instr, read.num ≠ REGISTER_NAME_ZERO →
    t.producer t.deSt.load read.num = none →
    t.producer t.emSt.load read.num = some instr →
    ∃ dp reg, read.result env = .ok (dp, reg) ∧ reg.value = instr.rd.value ∧
      WritesBack env 1 s read.num reg.value
  free : read.num ≠ REGISTER_NAME_ZERO → t.producer t.deSt.load read.num = none →
    t.producer t.emSt.load read.num = none →
    ∃ dp reg, read.result env = .ok (dp, reg) ∧ reg.value = (t.rf.regs read.num).value
  /-- `HazardUnit::decode` never reaches its last line. -/
  found : read.dp.rf.isLock read.num ≠ 0 →
    ¬ (HazardUnit.producer read.dp read.dp.deSt.load (read.dp.rf.getReg read.num).2.name =
          .ok none ∧
        HazardUnit.producer read.dp read.dp.emSt.load (read.dp.rf.getReg read.num).2.name =
          .ok none)

/-! ## Write-back of the producers -/

theorem Good.writeBack_mw (hgood : s.Good) {instr : Instruction} {num : RegName}
    (hmw : s.core.mw = some instr) (hwrites : instr.writes num = true) (hnum : num ≠ 0) :
    ∃ instr' u, s.mwSt.load.instrOf s.decoder = some instr' ∧ instr'.writes num = true ∧
      instr'.rd.value = instr.rd.value ∧ s.writeBack = .ok u ∧
      (u.rf.regs num).value = instr.rd.value := by
  refine ⟨instr, s.afterWriteBack, hmw, hwrites, rfl,
    writeBack_eq hgood.latches.mw hgood.latches.mwHazard, ?_⟩
  change (s.core.wbRf.regs num).value = _
  rw [Core.wbRf, hmw]
  simp only [RegFile.regs_release, hwrites, hnum, ne_eq, not_false_eq_true, and_self, if_true]

theorem writesBack_em (hgood : s.Good) {accessed : Core.Accessed}
    (haccess : s.core.memStage env = .ok accessed) {instr : Instruction} {num : RegName}
    (hmw : accessed.mw = some instr) (hwrites : instr.writes num = true) (hnum : num ≠ 0) :
    WritesBack env 1 s num instr.rd.value := by
  intro s' hrun
  obtain ⟨s1, hcycle, hrun⟩ := Foundation.ok_of_bind hrun
  cases hrun
  obtain ⟨-, accessed', decoded, word, memory, hstepped, hcore⟩ := hgood.stepped hcycle
  obtain rfl : accessed' = accessed := by
    have heq := hstepped.access
    rw [haccess] at heq
    cases heq
    rfl
  exact (hgood.cycle hcycle).writeBack_mw (by rw [hcore]; exact hmw) hwrites hnum

theorem writesBack_de (hgood : s.Good) {instr : Instruction} {num : RegName}
    (hexec : s.core.executing env = some instr) (hload : HazardUnit.isLoad instr = false)
    (hwrites : instr.writes num = true) (hnum : num ≠ 0) :
    WritesBack env 2 s num instr.rd.value := by
  intro s' hrun
  obtain ⟨s1, hcycle, hrun⟩ := Foundation.ok_of_bind hrun
  have hgood1 := hgood.cycle hcycle
  obtain ⟨-, accessed, decoded, word, memory, hstepped, hcore⟩ := hgood.stepped hcycle
  have hhits : decoded.hits = 0 :=
    Core.hits_of_not_load hgood.pipeline hstepped.decode fun ld hld => by
      rw [hexec, Option.some.injEq] at hld
      rw [← hld]
      exact hload
  have hem : s1.core.em = some ⟨instr, false⟩ := by
    rw [hcore]
    simp [Core.advance, hexec, hhits]
  obtain ⟨s2, hcycle1, hrun⟩ := Foundation.ok_of_bind hrun
  cases hrun
  obtain ⟨-, accessed1, decoded1, word1, memory1, hstepped1, hcore1⟩ := hgood1.stepped hcycle1
  rcases Core.memStage_ok hstepped1.access with ⟨i, i', hi, hmw, -, hloaded⟩ | ⟨hnone, -⟩
  · rw [hem, Option.some.injEq, Slot.mk.injEq] at hi
    obtain ⟨rfl, -⟩ := hi
    rw [Core.loadEffect_of_ne (by simpa [HazardUnit.isLoad] using hload)] at hloaded
    cases hloaded
    exact (hgood1.cycle hcycle1).writeBack_mw (by rw [hcore1]; exact hmw) hwrites hnum
  · exact absurd hem (hnone instr)

/-! ## The theorem -/

structure Shows (t : PerfSim) (dp : Datapath) : Prop where
  rf : dp.rf = t.rf
  de : dp.deSt.load = t.deSt.load
  em : dp.emSt.load = t.emSt.load
  get : dp.decoder.get = t.decoder.get

private theorem Shows.taken (t : PerfSim) :
    t.Shows (Decoder.taken t.decoding t.fdSt.load.instr) :=
  ⟨rfl, rfl, rfl, funext fun _ => Decoder.get_getNext ..⟩

private theorem Shows.instrOf {dp : Datapath} (h : t.Shows dp) (latch : InstrLatch) :
    latch.instrOf dp.decoder = latch.instrOf t.decoder := by
  simp only [InstrLatch.instrOf, h.get]

private theorem Shows.wired {dp : Datapath} (h : t.Shows dp) (hwired : t.toDatapath.Wired) :
    dp.Wired where
  de := by
    rw [h.de]
    exact hwired.de
  em := by
    rw [h.em]
    exact hwired.em

private theorem shows_of_mem_reads (hwired : t.toDatapath.Wired) {read : Read}
    (h : read ∈ t.reads env) : t.Shows read.dp := by
  have hfirst := Shows.taken t
  have hsecond : ∀ dp reg, t.read1.result env = .ok (dp, reg) → t.Shows dp := by
    intro dp reg hread
    obtain ⟨expected, -, -, hu, -, hdp⟩ :=
      (Decoder.readOperand_agree env (hfirst.wired hwired) _ _).of_ok hread
    dsimp only at hdp
    subst hdp
    exact ⟨hfirst.rf, hfirst.de, hfirst.em, hfirst.get⟩
  unfold reads at h
  split at h
  case h_1 | h_2 | h_3 =>
    split at h
    · rename_i dp reg hread
      simp only [List.mem_cons, List.not_mem_nil, or_false] at h
      rcases h with rfl | rfl
      · exact hfirst
      · exact hsecond dp reg hread
    · simp only [List.mem_singleton] at h
      subst h
      exact hfirst
  case h_4 =>
    simp only [List.mem_singleton] at h
    subst h
    exact hfirst
  all_goals cases h

section Correct

variable {accessed : Core.Accessed} {pipeline : Pipeline} {read : Read}

private theorem result_eq (reg : Register)
    (hwired : (s.beforeDecode env accessed pipeline).toDatapath.Wired)
    (hshows : (s.beforeDecode env accessed pipeline).Shows read.dp)
    (hde : (s.beforeDecode env accessed pipeline).deSt.load.instrOf
      (s.midway env accessed) = s.core.executing env)
    (hem : s.emSt.load.instrOf (s.midway env accessed) = accessed.mw)
    (hoperand : Core.operand env s.core.exRf (s.core.executing env) accessed.mw read.num
      read.needValueOn = .ok (reg, 0)) :
    ∃ dp, read.result env = .ok (dp, reg) := by
  have hagree := Decoder.readOperand_agree env (hshows.wired hwired) read.num
    read.needValueOn
  rw [hshows.instrOf, hshows.instrOf, hshows.rf, hshows.de, hshows.em] at hagree
  obtain ⟨⟨dp, reg'⟩, hresult, hreg, -⟩ := hagree.of_ok_right
    (show Core.operand _ _ ((s.beforeDecode env accessed pipeline).deSt.load.instrOf
      (s.midway env accessed)) (s.emSt.load.instrOf (s.midway env accessed)) _ _ = _ by
        rw [hde, hem]
        exact hoperand)
  dsimp only at hreg
  subst hreg
  exact ⟨dp, hresult⟩

private theorem exits_of_decodes
    (hdecodes : (s.beforeDecode env accessed pipeline).decodes = true) :
    s.core.exits env = false := by
  cases hexits : s.core.exits env with
  | false => rfl
  | true =>
      have hstop : (s.beforeDecode env accessed pipeline).deSt.stopCount =
          s.deSt.stopCount + 5 := by
        rw [← Core.exitStop_of_exits hexits]
        rfl
      simp [decodes, Stage.isStop, hstop] at hdecodes

private theorem found_of_locked (hinv : s.core.Inv)
    (haccess : s.core.memStage env = .ok accessed)
    (hwired : (s.beforeDecode env accessed pipeline).toDatapath.Wired)
    (hshows : (s.beforeDecode env accessed pipeline).Shows read.dp)
    (hde : (s.beforeDecode env accessed pipeline).deSt.load.instrOf
      (s.midway env accessed) = s.core.executing env)
    (hem : s.emSt.load.instrOf (s.midway env accessed) = accessed.mw)
    (hlock : read.dp.rf.isLock read.num ≠ 0)
    (hnone : HazardUnit.producer read.dp read.dp.deSt.load
      (read.dp.rf.getReg read.num).2.name = .ok none) :
    HazardUnit.producer read.dp read.dp.emSt.load
      (read.dp.rf.getReg read.num).2.name ≠ .ok none := by
  intro hnone'
  have hrf : read.dp.rf = s.core.exRf := hshows.rf
  have hname : (read.dp.rf.getReg read.num).2.name = read.num := by
    rw [RegFile.getReg_snd, hrf]
    exact Core.exRf_named hinv.named read.num
  have hlive := hshows.wired hwired
  rw [HazardUnit.producer_eq _ hlive.de, hshows.instrOf, hshows.de, Except.ok.injEq,
    hname] at hnone
  rw [HazardUnit.producer_eq _ hlive.em, hshows.instrOf, hshows.em, Except.ok.injEq,
    hname] at hnone'
  have hnum : read.num ≠ 0 := fun hzero => by
    rw [hrf, hzero] at hlock
    exact hlock (Core.regLocker_exRf hinv haccess 0)
  refine hlock ?_
  rw [hrf]
  refine (Core.regLocker_eq_zero_iff hinv haccess hnum).mpr ⟨?_, ?_⟩
  · rw [← hde]
    exact hnone
  · rw [← hem]
    exact hnone'

/-- Every operand that a decode of a reachable state reads is the right one. -/
theorem operands_correct (h : Reachable env s) (ht : s.untilDecode env = .ok t)
    (hdecodes : t.decodes = true) : ∀ read ∈ t.reads env, read.Correct env s t := by
  intro read hread
  have hgood := h.good
  have hinv := hgood.pipeline
  obtain ⟨accessed, pipeline, haccess, rfl⟩ := untilDecode_ok hgood.latches ht
  have hwired : (s.beforeDecode env accessed pipeline).toDatapath.Wired :=
    beforeDecode_wired hgood.latches pipeline
  have hshows := shows_of_mem_reads hwired hread
  have hexits := exits_of_decodes hdecodes
  have hde := beforeDecode_de hgood.latches pipeline haccess hexits
  have hem := instrOf_midway_em hgood.latches haccess
  have hproducerDe : ∀ num, (s.beforeDecode env accessed pipeline).producer
      (s.beforeDecode env accessed pipeline).deSt.load num =
        Core.feeds (s.core.executing env) num := fun num => by
    rw [← hde]
    rfl
  have hproducerEm : ∀ num, (s.beforeDecode env accessed pipeline).producer
      (s.beforeDecode env accessed pipeline).emSt.load num =
        Core.feeds accessed.mw num := fun num => by
    rw [← hem]
    rfl
  have hresult := fun reg => result_eq reg hwired hshows hde hem
  constructor
  case zero =>
    intro hzero
    obtain ⟨dp, hdp⟩ := hresult (s.core.exRf.regs 0) (by
      rw [hzero]
      exact Core.operand_zero hinv haccess _)
    exact ⟨dp, _, hdp, Core.regs_exRf_zero hinv⟩
  case de =>
    intro instr hnum hproducer hload
    rw [hproducerDe] at hproducer
    obtain ⟨dp, hdp⟩ := hresult instr.rd (Core.operand_de hinv haccess _ hnum hproducer hload)
    obtain ⟨hexec, hwrites⟩ := Option.filter_eq_some_iff.mp hproducer
    exact ⟨dp, _, hdp, rfl, writesBack_de hgood hexec hload hwrites hnum⟩
  case em =>
    intro instr hnum hnone hproducer
    rw [hproducerDe] at hnone
    rw [hproducerEm] at hproducer
    obtain ⟨dp, hdp⟩ := hresult instr.rd (Core.operand_em hinv haccess _ hnum hnone hproducer)
    obtain ⟨hmw, hwrites⟩ := Option.filter_eq_some_iff.mp hproducer
    exact ⟨dp, _, hdp, rfl, writesBack_em hgood haccess hmw hwrites hnum⟩
  case free =>
    intro hnum hnone hnone'
    rw [hproducerDe] at hnone
    rw [hproducerEm] at hnone'
    obtain ⟨dp, hdp⟩ := hresult (s.core.exRf.regs read.num)
      (Core.operand_none hinv haccess _ hnum hnone hnone')
    exact ⟨dp, _, hdp, rfl⟩
  case found =>
    exact fun hlock hfree =>
      found_of_locked hinv haccess hwired hshows hde hem hlock hfree.1 hfree.2

end Correct

theorem operands_correct_addi : ∃ s t read,
    runFor .plain 2 (bootWords 64 [0x00700093#32, 0x00108113#32]) = .ok s ∧
      s.untilDecode .plain = .ok t ∧ read ∈ t.reads .plain ∧ read.num = 1 ∧
      read.Correct .plain s t := by
  obtain ⟨s, hrun, hreach, htest⟩ :=
    checkAfter_spec 2 (fun s => passes (s.untilDecode .plain) fun t =>
      t.decodes && (t.reads .plain).any fun read => read.num = 1) (.boot .plain _ _ _)
      (by decide +kernel : checkAfter .plain 2
        (bootWords 64 [0x00700093#32, 0x00108113#32]) _ = true)
  obtain ⟨t, ht, hreads⟩ := passes_iff.mp htest
  obtain ⟨hdecodes, hany⟩ := Bool.and_eq_true_iff.mp hreads
  obtain ⟨read, hread, hnum⟩ := List.any_eq_true.mp hany
  exact ⟨s, t, read, hrun, ht, hread, of_decide_eq_true hnum,
    operands_correct hreach ht hdecodes read hread⟩

end PerfSim

end RiscvPerfSim
