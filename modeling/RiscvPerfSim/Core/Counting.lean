import RiscvPerfSim.Core.Bypass
import RiscvPerfSim.Core.Frontend
import RiscvPerfSim.Core.Reachable

/-!
# What the hazard unit counts

Every read of a source operand moves at most one of the two bypass counters,
and the instructions behind decode say which.
-/

namespace RiscvPerfSim

open Foundation

inductive Bypass where
  | none
  | memEx
  | wbEx
  deriving DecidableEq

namespace Core

/-- A value that a load in front of execute is to bring counts as one from write-back. -/
def bypass (de em : Option Instruction) (num : RegName) : Bypass :=
  if num = 0 then .none
  else
    match feeds de num with
    | some instr => if HazardUnit.isLoad instr then .wbEx else .memEx
    | none => if (feeds em num).isSome then .wbEx else .none

end Core

def Decoder.operands (word : BitVec 32) : List RegName :=
  match (recognize word).type with
  | .r | .s | .b => [numRs1 word, numRs2 word]
  | .i => [numRs1 word]
  | .u | .j | .system | .none => []

/-! ## The latches behind decode -/

structure Datapath.Fed (dp : Datapath) : Prop where
  wired : dp.Wired
  named : dp.rf.Named
  zero : dp.rf.regLocker 0 = 0
  locks : ∀ num, num ≠ 0 → (dp.rf.regLocker num = 0 ↔
    Core.feeds (dp.deSt.load.instrOf dp.decoder) num = none ∧
      Core.feeds (dp.emSt.load.instrOf dp.decoder) num = none)

def Datapath.bypass (dp : Datapath) : RegName → Bypass :=
  Core.bypass (dp.deSt.load.instrOf dp.decoder) (dp.emSt.load.instrOf dp.decoder)

structure HazardUnit.Counted (hu hu' : HazardUnit) (reads : List Bypass) : Prop where
  memEx : hu'.bypassesMemEx = hu.bypassesMemEx + BitVec.ofNat 32 (reads.count .memEx)
  wbEx : hu'.bypassesWbEx = hu.bypassesWbEx + BitVec.ofNat 32 (reads.count .wbEx)

theorem HazardUnit.Counted.nil {hu hu' : HazardUnit} (hmem : hu'.bypassesMemEx = hu.bypassesMemEx)
    (hwb : hu'.bypassesWbEx = hu.bypassesWbEx) : Counted hu hu' [] :=
  ⟨by simp [hmem], by simp [hwb]⟩

theorem HazardUnit.Counted.append {hu hu' hu'' : HazardUnit} {reads reads' : List Bypass}
    (first : Counted hu hu' reads) (second : Counted hu' hu'' reads') :
    Counted hu hu'' (reads ++ reads') where
  memEx := by
    rw [second.memEx, first.memEx, List.count_append, BitVec.ofNat_add, BitVec.add_assoc]
  wbEx := by
    rw [second.wbEx, first.wbEx, List.count_append, BitVec.ofNat_add, BitVec.add_assoc]

theorem HazardUnit.Counted.perm {hu hu' : HazardUnit} {reads reads' : List Bypass}
    (h : Counted hu hu' reads) (hperm : reads'.Perm reads) : Counted hu hu' reads' :=
  ⟨by rw [hperm.count_eq]; exact h.memEx, by rw [hperm.count_eq]; exact h.wbEx⟩

namespace Decoder

variable {env : Env} {dp dp' : Datapath} {num : RegName} {needValueOn : PipelineStage}
  {reg : Register}

theorem readOperand_fed (h : dp.Fed)
    (hread : readOperand env dp num needValueOn = .ok (dp', reg)) :
    dp'.Fed ∧ dp'.bypass = dp.bypass := by
  obtain ⟨expected, -, -, hu, -, rfl⟩ := (readOperand_agree env h.wired num needValueOn).of_ok hread
  exact ⟨⟨⟨h.wired.de, h.wired.em⟩, h.named, h.zero, h.locks⟩, rfl⟩

theorem taken_fed (h : dp.Fed) (word : BitVec 32) :
    (taken dp word).Fed ∧ (taken dp word).bypass = dp.bypass := by
  have hinstr (latch : InstrLatch) :
      latch.instrOf (taken dp word).decoder = latch.instrOf dp.decoder := by
    simp [taken, InstrLatch.instrOf, Option.map_congr]
  refine ⟨⟨⟨h.wired.de, h.wired.em⟩, h.named, h.zero, ?_⟩, ?_⟩
  · rw [hinstr, hinstr]
    exact h.locks
  · rw [Datapath.bypass, hinstr, hinstr]
    rfl

theorem readOperand_counted (h : dp.Fed)
    (hread : readOperand env dp num needValueOn = .ok (dp', reg)) :
    HazardUnit.Counted dp.hu dp'.hu [dp.bypass num] := by
  unfold readOperand RegFile.isLock at hread
  unfold Datapath.bypass Core.bypass
  by_cases hnum : num = 0
  · subst hnum
    rw [if_neg (not_not.mpr h.zero), Except.ok.injEq, Prod.mk.injEq] at hread
    rw [if_pos rfl, ← hread.1]
    exact ⟨by simp, by simp⟩
  rw [if_neg hnum]
  by_cases hlock : dp.rf.regLocker num = 0
  · obtain ⟨hde, hem⟩ := (h.locks num hnum).mp hlock
    rw [if_neg (not_not.mpr hlock), Except.ok.injEq, Prod.mk.injEq] at hread
    rw [hde, hem, ← hread.1]
    exact ⟨by simp, by simp⟩
  · rw [if_pos hlock, RegFile.getReg_snd] at hread
    unfold HazardUnit.decode at hread
    rw [HazardUnit.producer_eq _ h.wired.de, HazardUnit.producer_eq _ h.wired.em, h.named num]
      at hread
    simp only [bind, Except.bind] at hread
    rcases hde : Core.feeds (dp.deSt.load.instrOf dp.decoder) num with - | instr
    · rcases hem : Core.feeds (dp.emSt.load.instrOf dp.decoder) num with - | instr
      · exact absurd ((h.locks num hnum).mpr ⟨hde, hem⟩) hlock
      · rw [hde, hem] at hread
        cases hread
        exact ⟨by simp, by simp⟩
    · rw [hde] at hread
      cases hload : HazardUnit.isLoad instr with
      | false =>
          simp only [hload, Bool.false_eq_true, if_false] at hread
          cases hread
          exact ⟨by simp [hload], by simp [hload]⟩
      | true =>
          simp only [hload, if_true] at hread
          split_ifs at hread
          cases hread
          exact ⟨by simp [hload], by simp [hload]⟩

theorem readFields_counted (h : dp.Fed) {word : BitVec 32} {old object : Instruction}
    (hfields : readFields env dp (recognize word) word old = .ok (dp', object)) :
    HazardUnit.Counted dp.hu dp'.hu ((operands word).map dp.bypass) := by
  unfold readFields at hfields
  unfold operands
  cases htype : (recognize word).type with
  | r | s | b =>
      simp only [htype] at hfields
      obtain ⟨⟨dp1, rs1⟩, h1, hfields⟩ := ok_of_bind hfields
      obtain ⟨⟨dp2, rs2⟩, h2, hfields⟩ := ok_of_bind hfields
      cases hfields
      obtain ⟨hfed, hsame⟩ := readOperand_fed h h1
      have hsecond := readOperand_counted hfed h2
      rw [hsame] at hsecond
      exact (readOperand_counted h h1).append hsecond
  | i =>
      simp only [htype] at hfields
      obtain ⟨⟨dp1, rs1⟩, h1, hfields⟩ := ok_of_bind hfields
      have hfirst := readOperand_counted h h1
      cases hfields
      exact hfirst
  | u | j | system | none =>
      simp only [htype] at hfields
      cases hfields
      exact .nil rfl rfl

theorem decode_counted (h : dp.Fed) {word : BitVec 32} {ptr : InstrPtr}
    (hdecode : decode env dp word = .ok (dp', ptr)) :
    HazardUnit.Counted dp.hu dp'.hu ((operands word).map dp.bypass) := by
  rw [decode_eq] at hdecode
  obtain ⟨⟨dp1, object⟩, hfields, hdecode⟩ := ok_of_bind hdecode
  obtain ⟨htaken, hbypass⟩ := taken_fed h word
  have hcounted := readFields_counted htaken hfields
  rw [hbypass] at hcounted
  cases hdecode
  exact hcounted

end Decoder

/-! ## The cycle -/

theorem HazardUnit.write_hu {dp dp' : Datapath} {instr : Instruction}
    (h : HazardUnit.write dp instr = .ok dp') : dp'.hu = dp.hu := by
  unfold HazardUnit.write at h
  split at h
  · obtain ⟨rd, -, h⟩ := ok_of_bind h
    obtain ⟨rf, -, h⟩ := ok_of_bind h
    cases h
    rfl
  · cases h
    rfl

def Core.bypasses (env : Env) (c : Core) (em : Option Instruction) : List Bypass :=
  match c.decoding env with
  | some fetched => (Decoder.operands fetched.word).map (Core.bypass (c.executing env) em)
  | none => []

namespace PerfSim

variable {env : Env} {s s' : PerfSim} {accessed : Core.Accessed}

theorem decode_counted (hfed : s.deSt.stopCount = 0 → s.decoding.Fed)
    (h : s.decode env = .ok s') :
    HazardUnit.Counted s.hu s'.hu (if s.decodes then
      (Decoder.operands s.fdSt.load.instr).map s.decoding.bypass else []) := by
  cases hdecodes : s.decodes with
  | false =>
      have hidle : (s.fdSt.load.isStall || s.fdSt.load.hazardStall) || s.deSt.isStop := by
        rw [decodes, Bool.and_eq_false_iff, Bool.not_eq_false', Bool.not_eq_false'] at hdecodes
        rw [Bool.or_eq_true]
        exact hdecodes
      unfold decode at h
      rw [if_pos (by simpa [Stage.isStop, Stage.modifyStore] using hidle)] at h
      cases h
      exact .nil rfl rfl
  | true =>
      rw [decodes, Bool.and_eq_true, Bool.not_eq_true', Bool.not_eq_true', Stage.isStop,
        decide_eq_false_iff_not, Nat.not_lt, Nat.le_zero] at hdecodes
      rw [decode_eq env hdecodes.1 hdecodes.2] at h
      obtain ⟨⟨dp, ptr⟩, hdecode, h⟩ := ok_of_bind h
      have hcounted := Decoder.decode_counted (hfed hdecodes.2) hdecode
      rw [if_pos rfl]
      dsimp only at h
      split at h
      · obtain ⟨dp', hwrite, h⟩ := ok_of_bind h
        cases h
        change HazardUnit.Counted s.hu dp'.hu _
        rw [HazardUnit.write_hu hwrite]
        exact hcounted
      · obtain ⟨dp', hwrite, h⟩ := ok_of_bind h
        cases hwrite
        cases h
        exact hcounted

theorem fetch_frame (h : s.fetch = .ok s') : s'.hu = s.hu ∧ s'.decoder = s.decoder := by
  unfold fetch at h
  dsimp only at h
  split at h
  · cases h
    exact ⟨rfl, rfl⟩
  · obtain ⟨word, -, h⟩ := ok_of_bind h
    cases h
    exact ⟨rfl, rfl⟩

theorem updates_frame (h : s.updates = .ok s') : s'.hu = s.hu ∧ s'.decoder = s.decoder := by
  obtain ⟨⟨memory, pipeline⟩, -, h⟩ := ok_of_bind h
  cases h
  exact ⟨rfl, rfl⟩

theorem Good.fed (hgood : s.Good) (haccess : s.core.memStage env = .ok accessed)
    (hexits : s.core.exits env = false) (pipeline : Pipeline) :
    (s.beforeDecode env accessed pipeline).decoding.Fed ∧
      (s.beforeDecode env accessed pipeline).decoding.bypass =
        Core.bypass (s.core.executing env) accessed.mw := by
  have hwired : (s.beforeDecode env accessed pipeline).toDatapath.Wired :=
    beforeDecode_wired hgood.latches pipeline
  have hde : (s.beforeDecode env accessed pipeline).decoding.deSt.load.instrOf
      (s.midway env accessed) = s.core.executing env :=
    beforeDecode_de hgood.latches pipeline haccess hexits
  have hem : (s.beforeDecode env accessed pipeline).decoding.emSt.load.instrOf
      (s.midway env accessed) = accessed.mw := instrOf_midway_em hgood.latches haccess
  refine ⟨⟨⟨hwired.de, hwired.em⟩, Core.exRf_named hgood.pipeline.named,
    Core.regLocker_exRf hgood.pipeline haccess 0, fun num hnum => ?_⟩, ?_⟩
  · change s.core.exRf.regLocker num = 0 ↔
      Core.feeds (InstrLatch.instrOf _ (s.midway env accessed)) num = none ∧
        Core.feeds (InstrLatch.instrOf _ (s.midway env accessed)) num = none
    rw [hde, hem]
    exact Core.regLocker_eq_zero_iff hgood.pipeline haccess hnum
  · change Core.bypass (InstrLatch.instrOf _ (s.midway env accessed))
      (InstrLatch.instrOf _ (s.midway env accessed)) = _
    rw [hde, hem]

theorem cycle_stages (env : Env) (s : PerfSim) : s.cycle env =
    s.untilDecode env >>= fun t => t.decode env >>= fun d => d.fetch >>= updates := by
  simp only [PerfSim.cycle, untilDecode, bind_assoc]

theorem exits_of_stopCount (hstop : s.deSt.stopCount + s.core.exitStop env = 0) :
    s.core.exits env = false := by
  cases hexits : s.core.exits env with
  | false => rfl
  | true => simp [Core.exitStop, hexits] at hstop

theorem Good.cycle_counted (hgood : s.Good) (h : s.cycle env = .ok s') :
    ∃ accessed, s.core.memStage env = .ok accessed ∧
      HazardUnit.Counted s.hu s'.hu (s.core.bypasses env accessed.mw) := by
  rw [cycle_stages] at h
  obtain ⟨t, ht, hrest⟩ := ok_of_bind h
  obtain ⟨d, hd, hlast⟩ := ok_of_bind hrest
  obtain ⟨f, hf, hupdates⟩ := ok_of_bind hlast
  obtain ⟨accessed, pipeline, haccess, rfl⟩ := untilDecode_ok hgood.latches ht
  refine ⟨accessed, haccess, ?_⟩
  have hcounted := decode_counted
    (fun hstop => (hgood.fed haccess (exits_of_stopCount hstop) pipeline).1) hd
  rw [(updates_frame hupdates).1, (fetch_frame hf).1]
  have hstart : HazardUnit.Counted s.hu (s.beforeDecode env accessed pipeline).hu [] :=
    .nil rfl rfl
  have hreads : (if (s.beforeDecode env accessed pipeline).decodes then
      (Decoder.operands s.fdSt.load.instr).map
        (s.beforeDecode env accessed pipeline).decoding.bypass else []) =
        s.core.bypasses env accessed.mw := by
    rw [decodes_eq_isSome, Core.bypasses]
    cases hdecoding : s.core.decoding env with
    | none => rfl
    | some fetched =>
        have hstop := (Core.decoding_eq_some hdecoding).2
        rw [decoding_eq_fdLoad hdecoding, Option.isSome_some, if_pos rfl,
          (hgood.fed haccess (exits_of_stopCount hstop) pipeline).2]
        rfl
  rw [← hreads]
  exact hstart.append hcounted

end PerfSim

end RiscvPerfSim
