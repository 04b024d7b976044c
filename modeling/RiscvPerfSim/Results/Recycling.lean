import RiscvPerfSim.Core.Alike
import RiscvPerfSim.Core.Safe
import RiscvPerfSim.Results.Unnamed

/-!
# Recycled objects

Two machines that have used their instruction objects for different words
before, and what a word does in each of them from decode to write-back.
-/

namespace RiscvPerfSim

open Foundation

namespace Instruction

variable {env : Env} {a b : Instruction} {word pc : BitVec 32}

def nextPc (instr : Instruction) : BitVec 32 := instr.target.getD (instr.pc + 4)

/--
Executed objects that go the same way in every later state: the same address is
fetched next, the same store reaches the queue or memory, and write-back puts the
same value into the same register.
-/
structure SameCourse (env : Env) (a b : Instruction) : Prop where
  next : a.nextPc = b.nextPc
  store : ∀ s, PerfSim.storeAccess env s a = PerfSim.storeAccess env s b
  write : ∀ s dp, (PerfSim.loadAccess env s a >>= HazardUnit.write dp) =
    (PerfSim.loadAccess env s b >>= HazardUnit.write dp)

/-! ## Memory access and write-back -/

theorem write_congr (htype : a.type = b.type) (hrd : a.type.writesRd = true → a.rd = b.rd)
    (dp : Datapath) : HazardUnit.write dp a = HazardUnit.write dp b := by
  unfold HazardUnit.write getRd
  rw [← htype]
  by_cases hwrites : a.type.writesRd = true
  · rw [hrd hwrites]
  · rw [if_neg hwrites, if_neg hwrites]

theorem storeAccess_congr (htype : a.type = b.type) (hacc : a.memAccType = b.memAccType)
    (hstore : a.memAccType = .write → a.asStore = b.asStore) (s : PerfSim) :
    PerfSim.storeAccess env s a = PerfSim.storeAccess env s b := by
  unfold PerfSim.storeAccess Pipeline.push dynamicCast
  rw [← htype, ← hacc]
  by_cases hwrite : a.memAccType = .write ∧ a.type = .s
  · obtain ⟨haddr, hsize, hdata, -⟩ := Store.mk.inj (hstore hwrite.1)
    simp only [hwrite, ne_eq, not_true_eq_false, if_false, if_true, and_self, haddr, hsize, hdata]
  · rw [if_neg hwrite, if_neg hwrite]

theorem searchData_congr (htype : a.type = b.type) (hacc : a.memAccType = b.memAccType)
    (hload : a.loadAddres = b.loadAddres ∧ a.loadSize = b.loadSize) (clock : Nat)
    (memory : Memory) (pipeline : Pipeline) :
    Pipeline.searchData env clock memory pipeline a =
      Pipeline.searchData env clock memory pipeline b := by
  unfold Pipeline.searchData dynamicCast
  rw [htype, hacc, hload.1, hload.2]

structure Retires (a b : Instruction) : Prop where
  type : a.type = b.type
  name : a.name = b.name
  memAccType : a.memAccType = b.memAccType
  reads : a.memAccType = .read → a.type = .i
  rdName : a.type.writesRd = true → a.rd.name = b.rd.name
  rdValue : a.type.writesRd = true → a.memAccType ≠ .read → a.rd.value = b.rd.value
  load : a.memAccType = .read → a.loadAddres = b.loadAddres ∧ a.loadSize = b.loadSize

theorem Retires.write_eq (h : a.Retires b) (s : PerfSim) (dp : Datapath) :
    (PerfSim.loadAccess env s a >>= HazardUnit.write dp) =
      (PerfSim.loadAccess env s b >>= HazardUnit.write dp) := by
  unfold PerfSim.loadAccess
  rw [← h.type, ← h.memAccType]
  by_cases hread : a.memAccType = .read
  · have htype := h.reads hread
    obtain ⟨haddr, hsize⟩ := h.load hread
    have hcast : dynamicCast .i a = .ok () := if_pos htype
    have hcast' : dynamicCast .i b = .ok () := if_pos (h.type.symm.trans htype)
    have hsearch : Pipeline.searchData env s.clocks s.memory s.pipeline a =
        Pipeline.searchData env s.clocks s.memory s.pipeline b :=
      searchData_congr h.type h.memAccType (h.load hread) s.clocks s.memory s.pipeline
    have hextend (data : BitVec 32) :
        PerfSim.extendLoaded a data = PerfSim.extendLoaded b data := by
      rw [PerfSim.extendLoaded, PerfSim.extendLoaded, h.name, hsize]
    have hwrites : a.type.writesRd = true := by
      rw [htype]
      rfl
    have hset (value : BitVec 32) : (a.setRdValue value >>= HazardUnit.write dp) =
        (b.setRdValue value >>= HazardUnit.write dp) := by
      rw [setRdValue, setRdValue, if_pos hwrites, if_pos (h.type ▸ hwrites)]
      exact write_congr (a := { a with rd := { a.rd with value := value } })
        (b := { b with rd := { b.rd with value := value } }) h.type
        (fun _ => congrArg (fun name => (⟨value, name⟩ : Register)) (h.rdName hwrites)) dp
    have hload : a.memAccType = .read ∧ a.type = .i := ⟨hread, htype⟩
    rw [if_pos hload, if_pos hload, hcast, hcast', hsearch, haddr, hsize]
    cases env.config.isSq <;>
      simp only [if_true, Bool.false_eq_true, if_false, bind_assoc, hextend, hset]
  · rw [if_neg fun hload => hread hload.1, if_neg fun hload => hread hload.1]
    refine write_congr h.type (fun hwrites => ?_) dp
    have hname := h.rdName hwrites
    have hvalue := h.rdValue hwrites hread
    cases hrd : a.rd
    cases hrd' : b.rd
    simp_all

theorem Alike.sameCourse (h : a.Alike b) (hreads : a.memAccType = .read → a.type = .i) :
    SameCourse env a b where
  next := by rw [nextPc, nextPc, h.target, h.pc]
  store := storeAccess_congr h.type h.memAccType h.store
  write := Retires.write_eq
    ⟨h.type, h.name, h.memAccType, hreads, h.rdName, h.rdValue, h.load⟩

/-! ## Decoded objects -/

theorem executed_of_none (h : a.mainExecutor = none) : a.executed env = a := by
  simp [executed, execute, h]

def course (env : Env) (old : Instruction) (word pc : BitVec 32) (rs1 rs2 rd : Register) :
    Instruction :=
  ({ Decoder.fill old word rs1 rs2 rd with pc := pc } : Instruction).executed env

section Course

variable (env) (old old' : Instruction) (pc : BitVec 32) (rs1 rs2 : Register) {rd : Register}
  (hrd : rd.name = Decoder.numRd word)
include hrd

private theorem course_carries : (course env old word pc rs1 rs2 rd).Carries word :=
  ((Decoder.fill_carries old word rs1 rs2 hrd).setPc pc).executed

private theorem course_named (hname : (Decoder.recognize word).name ≠ .none) :
    SameCourse env (course env old word pc rs1 rs2 rd) (course env old' word pc rs1 rs2 rd) := by
  have hcarries := fun old : Instruction => (Decoder.fill_carries old word rs1 rs2 hrd).setPc pc
  have hprimed : ({ Decoder.fill old word rs1 rs2 rd with pc := pc } : Instruction).Primed
      { Decoder.fill old' word rs1 rs2 rd with pc := pc } :=
    fill_primed old old' word pc (fun _ => rfl) (fun _ => rfl) rfl
  refine (hprimed.executed (.inl hname) (hcarries old) (hcarries old')).sameCourse fun hread => ?_
  have hexecuted := course_carries env old pc rs1 rs2 hrd
  exact hexecuted.type.trans
    ((Decoder.recognize_sound word).read (hexecuted.memAccType ▸ hread)).1

section Unnamed

variable (hname : (Decoder.recognize word).name = .none)
include hname

/-- A word without a name goes on behind itself, unless an old flag sends it to address 0. -/
private theorem course_next : (course env old word pc rs1 rs2 rd).nextPc =
    if (Decoder.recognize word).type = .b ∧ old.brIsTaken = true then 0 else pc + 4 := by
  have hcarries := (Decoder.fill_carries old word rs1 rs2 hrd).setPc pc
  have hpc : (course env old word pc rs1 rs2 rd).pc = pc := pc_of_fixed hcarries.executed_fixed
  have htransfers := (course_carries env old pc rs1 rs2 hrd).transfers_unnamed hname
  have hflag : (course env old word pc rs1 rs2 rd).brIsTaken =
      (Decoder.fill old word rs1 rs2 rd).brIsTaken :=
    (hcarries.executed_unnamed hname).2
  rw [nextPc, hpc, target]
  by_cases htype : (Decoder.recognize word).type = .b
  · have hkept : (Decoder.fill old word rs1 rs2 rd).brIsTaken = old.brIsTaken ∧
        (Decoder.fill old word rs1 rs2 rd).branchAddr = 0 := by
      simp [Decoder.fill, Decoder.finish, calcImm, htype]
    have hexecutor : (Decoder.recognize word).executor = none := by
      rcases (Decoder.recognize_paired word).kept hname with h | ⟨-, hi⟩
      · exact h
      · rw [htype] at hi
        cases hi
    have haddr : (course env old word pc rs1 rs2 rd).branchAddr = 0 := by
      rw [course, executed_of_none (hcarries.executor.trans hexecutor)]
      exact hkept.2
    rw [hflag, hkept.1] at htransfers
    rw [haddr, if_congr htransfers rfl rfl]
    split_ifs <;> rfl
  · rw [if_neg fun h => htype (htransfers.mp h).1, if_neg fun h => htype h.1]
    rfl

private theorem course_rd (hwrites : (Decoder.recognize word).type.writesRd = true) :
    (course env old word pc rs1 rs2 rd).rd = rd := by
  have hcarries := (Decoder.fill_carries old word rs1 rs2 hrd).setPc pc
  exact (hcarries.executed_unnamed hname).1.trans (Decoder.fill_rd old rs1 rs2 rd hwrites)

private theorem course_unnamed_iff :
    SameCourse env (course env old word pc rs1 rs2 rd) (course env old' word pc rs1 rs2 rd) ↔
      (course env old word pc rs1 rs2 rd).nextPc = (course env old' word pc rs1 rs2 rd).nextPc := by
  have hcarries := course_carries env old pc rs1 rs2 hrd
  have hcarries' := course_carries env old' pc rs1 rs2 hrd
  have htype := hcarries.type.trans hcarries'.type.symm
  have hacc := hcarries.memAccType.trans hcarries'.memAccType.symm
  have hnone : (course env old word pc rs1 rs2 rd).memAccType = .none :=
    hcarries.memAccType.trans ((Decoder.recognize_paired word).access hname)
  have hrds (hwrites : (course env old word pc rs1 rs2 rd).type.writesRd = true) :
      (course env old word pc rs1 rs2 rd).rd = (course env old' word pc rs1 rs2 rd).rd := by
    rw [hcarries.type] at hwrites
    rw [course_rd env old pc rs1 rs2 hrd hname hwrites,
      course_rd env old' pc rs1 rs2 hrd hname hwrites]
  refine ⟨fun h => h.next, fun hnext => ⟨hnext, storeAccess_congr htype hacc fun hwrite => ?_,
    Retires.write_eq ⟨htype, hcarries.name.trans hcarries'.name.symm, hacc, fun hread => ?_,
      fun h => congrArg Register.name (hrds h), fun h _ => congrArg Register.value (hrds h),
      fun hread => ?_⟩⟩⟩
  all_goals
    first
    | rw [hnone] at hwrite
      cases hwrite
    | rw [hnone] at hread
      cases hread

end Unnamed

theorem course_iff :
    SameCourse env (course env old word pc rs1 rs2 rd) (course env old' word pc rs1 rs2 rd) ↔
      ((Decoder.recognize word).name = .none → (Decoder.recognize word).type = .b →
        old.brIsTaken = old'.brIsTaken ∨ pc + 4 = 0) := by
  by_cases hname : (Decoder.recognize word).name = .none
  · rw [course_unnamed_iff env old old' pc rs1 rs2 hrd hname,
      course_next env old pc rs1 rs2 hrd hname, course_next env old' pc rs1 rs2 hrd hname]
    by_cases htype : (Decoder.recognize word).type = .b
    · cases old.brIsTaken <;> cases old'.brIsTaken <;> simp [hname, htype, eq_comm]
    · simp [htype]
  · exact iff_of_true (course_named env old old' pc rs1 rs2 hrd hname)
      fun hnone => absurd hnone hname

end Course

end Instruction

/-! ## Two machines -/

namespace Core

theorem decodeWord_cases (env : Env) (rf : RegFile) (de em : Option Instruction)
    (pc word : BitVec 32) :
    (∃ e, (Decoder.recognize word).type ≠ .b ∧
      ∀ old, decodeWord env old rf de em pc word = .error e) ∨
    ∃ rs1 rs2 hits, ∀ old, decodeWord env old rf de em pc word =
      .ok ⟨some { Decoder.fill old word rs1 rs2 (rf.regs (Decoder.numRd word)) with pc := pc },
        lockedRf rf word, hits⟩ := by
  unfold decodeWord
  cases h1 : operand1 env rf de em word with
  | error e =>
      unfold operand1 at h1
      split_ifs at h1
      exact absurd rfl (operand_error h1).1
  | ok read1 =>
      cases h2 : operand2 env rf de em word with
      | error e =>
          refine .inl ⟨e, fun htype => ?_, fun old => rfl⟩
          unfold operand2 at h2
          split_ifs at h2
          exact (operand_error h2).1 (if_neg fun hstore => by simp [htype] at hstore)
      | ok read2 => exact .inr ⟨read1.1, read2.1, read1.2 + read2.2, fun old => rfl⟩

end Core

namespace PerfSim

variable {env : Env} {s t t' : PerfSim} {word pc : BitVec 32}

/-- What every state satisfies in which decode is called. -/
structure DecodeReady (t : PerfSim) : Prop where
  wired : t.toDatapath.Wired
  named : t.rf.Named

theorem Reachable.decodeReady (h : Reachable env s) (ht : s.untilDecode env = .ok t) :
    t.DecodeReady := by
  obtain ⟨accessed, pipeline, -, rfl⟩ := untilDecode_ok h.good.latches ht
  exact ⟨beforeDecode_wired h.good.latches pipeline, Core.exRf_named h.good.pipeline.named⟩

structure Visible where
  rf : RegFile
  memory : Memory
  fetch : WF
  fd : Option Fetched
  de : Option Instruction
  em : Option Instruction
  mw : Option Instruction

/-- The state without the objects that no live latch points to. -/
def visible (t : PerfSim) : Visible where
  rf := t.rf
  memory := t.memory
  fetch := t.fetchSt.load
  fd := fetched t.fdSt.load
  de := t.deSt.load.instrOf t.decoder
  em := t.emSt.load.instrOf t.decoder
  mw := t.mwSt.load.instrOf t.decoder

def recycled (t : PerfSim) (word : BitVec 32) : Instruction :=
  t.decoder.get (t.decoder.nextPtr (Decoder.recognize word).type)

structure SameOutcome (env : Env) (pc : BitVec 32) (r r' : Datapath × InstrPtr) : Prop where
  rf : r.1.rf = r'.1.rf
  course : ∃ e e', ({ r.1.decoder.get r.2 with pc := pc } : Instruction).execute env = .ok e ∧
    ({ r'.1.decoder.get r'.2 with pc := pc } : Instruction).execute env = .ok e' ∧
    e.SameCourse env e'

private theorem decode_course (ht : t.DecodeReady) {rs1 rs2 : Register} {hits : Nat}
    (hok : Core.decodeWord env (t.recycled word) t.rf (t.deSt.load.instrOf t.decoder)
      (t.emSt.load.instrOf t.decoder) pc word =
        .ok ⟨some { Decoder.fill (t.recycled word) word rs1 rs2
          (t.rf.regs (Decoder.numRd word)) with pc := pc }, Core.lockedRf t.rf word, hits⟩) :
    ∃ r, Decoder.decode env t.toDatapath word = .ok r ∧
      r.1.rf = Core.lockedRf t.rf word ∧
      ({ r.1.decoder.get r.2 with pc := pc } : Instruction).execute env =
        .ok (Instruction.course env (t.recycled word) word pc rs1 rs2
          (t.rf.regs (Decoder.numRd word))) := by
  have hagree := Decoder.decode_agree env ht.wired pc word
  obtain ⟨⟨dp, ptr⟩, hr, hu, instr, -, hinstr, hptr, hdp⟩ := hagree.of_ok_right hok
  dsimp only at hptr hdp
  subst hptr hdp
  refine ⟨_, hr, rfl, ?_⟩
  dsimp only
  rw [Decoder.get_allocated, ← Option.some.inj hinstr]
  exact ((Decoder.fill_carries (t.recycled word) word rs1 rs2
    (ht.named (Decoder.numRd word))).setPc pc).execute_eq

/--
In two states that look the same, a word that is decoded, executed and retired
does the same, unless it is a branch word without a name and the two objects
differ in the flag that their last branch has left.
-/
theorem recycled_iff (ht : t.DecodeReady) (ht' : t'.DecodeReady)
    (h : t.visible = t'.visible) (word pc : BitVec 32) :
    Agree (SameOutcome env pc) (Decoder.decode env t.toDatapath word)
        (Decoder.decode env t'.toDatapath word) ↔
      ((Decoder.recognize word).name = .none → (Decoder.recognize word).type = .b →
        (t.recycled word).brIsTaken = (t'.recycled word).brIsTaken ∨ pc + 4 = 0) := by
  have hrf : t.rf = t'.rf := congrArg Visible.rf h
  have hde : t.deSt.load.instrOf t.decoder = t'.deSt.load.instrOf t'.decoder :=
    congrArg Visible.de h
  have hem : t.emSt.load.instrOf t.decoder = t'.emSt.load.instrOf t'.decoder :=
    congrArg Visible.em h
  rcases Core.decodeWord_cases env t.rf (t.deSt.load.instrOf t.decoder)
    (t.emSt.load.instrOf t.decoder) pc word with ⟨e, htype, hraise⟩ | ⟨rs1, rs2, hits, hok⟩
  · have hagree := Decoder.decode_agree env ht.wired pc word
    have hagree' := Decoder.decode_agree env ht'.wired pc word
    rw [← hrf, ← hde, ← hem, hraise] at hagree'
    rw [hraise] at hagree
    rw [hagree.symm.of_error rfl, hagree'.symm.of_error rfl]
    exact iff_of_true rfl fun _ hb => absurd hb htype
  · obtain ⟨r, hr, hlocked, hexec⟩ := decode_course ht (hok _)
    have hok' := hok (t'.recycled word)
    rw [hde, hem, hrf] at hok'
    obtain ⟨r', hr', hlocked', hexec'⟩ := decode_course ht' hok'
    rw [← hrf] at hlocked' hexec'
    rw [hr, hr', ← Instruction.course_iff env (t.recycled word) (t'.recycled word) pc rs1 rs2
      (ht.named (Decoder.numRd word))]
    constructor
    case mp =>
      rintro ⟨-, e, e', he, he', hsame⟩
      rw [hexec, Except.ok.injEq] at he
      rw [hexec', Except.ok.injEq] at he'
      rw [he, he']
      exact hsame
    case mpr =>
      exact fun hsame => ⟨hlocked.trans hlocked'.symm, _, _, hexec, hexec', hsame⟩

/-! ## A branch word without a name after taken branches -/

def atDecode (env : Env) (n : Nat) (s : PerfSim) : Except Error PerfSim :=
  runFor env n s >>= untilDecode env

theorem Reachable.atDecode {n : Nat} (h : Reachable env s) (ht : s.atDecode env n = .ok t) :
    ∃ r, Reachable env r ∧ r.untilDecode env = .ok t := by
  obtain ⟨r, hr, ht⟩ := ok_of_bind ht
  exact ⟨r, h.runFor hr, ht⟩

def goesOn (env : Env) (t : PerfSim) (word pc : BitVec 32) : Except Error (BitVec 32) := do
  let r ← Decoder.decode env t.toDatapath word
  let e ← ({ r.1.decoder.get r.2 with pc := pc } : Instruction).execute env
  return e.nextPc

theorem goesOn_eq (h : Agree (SameOutcome env pc) (Decoder.decode env t.toDatapath word)
    (Decoder.decode env t'.toDatapath word)) : t.goesOn env word pc = t'.goesOn env word pc := by
  unfold goesOn
  cases hr : Decoder.decode env t.toDatapath word with
  | error e => rw [h.of_error hr]
  | ok r =>
      obtain ⟨r', hr', -, e, e', he, he', hsame⟩ := h.of_ok hr
      rw [hr']
      simp only [bind, Except.bind, he, he', pure, Except.pure, hsame.next]

/-- Three taken branches, the last one over a word, and a branch word without a name. -/
def branches : PerfSim :=
  bootWords 64 [0x00000263#32, 0x00000263#32, 0x00000463#32, 0x00000000#32, 0x00002063#32]

def lastBranch : PerfSim := boot branches.memory 8 fun _ => 0

def branchRetires : Visible where
  rf := bootRegs fun _ => 0
  memory := branches.memory
  fetch := { pc := 20 }
  fd := some ⟨16, 0x00002063#32, false⟩
  de := none
  em := none
  mw := some {
    type := .b
    name := .beq
    opcode := 0x63
    pc := 8
    isBranch := true
    branchAddr := 16
    mainExecutor := some .beq
    imm := 8
    brIsTaken := true }

private theorem branches_visible : ∃ s s' t t', Reachable .plain s ∧ Reachable .plain s' ∧
    s.untilDecode .plain = .ok t ∧ s'.untilDecode .plain = .ok t' ∧
    branches.atDecode .plain 10 = .ok t ∧ lastBranch.atDecode .plain 4 = .ok t' ∧
    t.visible = branchRetires ∧ t'.visible = branchRetires := by
  obtain ⟨t, ht, hvisible⟩ := ok_of_map
    (rfl : (branches.atDecode .plain 10).map visible = .ok branchRetires)
  obtain ⟨t', ht', hvisible'⟩ := ok_of_map
    (rfl : (lastBranch.atDecode .plain 4).map visible = .ok branchRetires)
  obtain ⟨s, hs, hst⟩ := (Reachable.boot .plain _ _ _).atDecode ht
  obtain ⟨s', hs', hst'⟩ := (Reachable.boot .plain _ _ _).atDecode ht'
  exact ⟨s, s', t, t', hs, hs', hst, hst', ht, ht', hvisible, hvisible'⟩

/--
`0x00002063` at address 16 goes on at 0 in the machine that has decoded it into
the object of a taken branch, and at 20 in the machine that has not.
-/
theorem recycled_leak : ∃ s s' t t', Reachable .plain s ∧ Reachable .plain s' ∧
    s.untilDecode .plain = .ok t ∧ s'.untilDecode .plain = .ok t' ∧
    t.visible = branchRetires ∧ t'.visible = branchRetires ∧
    ¬ Agree (SameOutcome .plain 16) (Decoder.decode .plain t.toDatapath 0x00002063#32)
      (Decoder.decode .plain t'.toDatapath 0x00002063#32) := by
  obtain ⟨s, s', t, t', hs, hs', hst, hst', ht, ht', hvisible, hvisible'⟩ := branches_visible
  refine ⟨s, s', t, t', hs, hs', hst, hst', hvisible, hvisible', fun hagree => ?_⟩
  have hnext : (branches.atDecode .plain 10 >>= fun t => t.goesOn .plain 0x00002063#32 16) =
      .ok 0 := rfl
  have hnext' : (lastBranch.atDecode .plain 4 >>= fun t => t.goesOn .plain 0x00002063#32 16) =
      .ok 20 := rfl
  rw [ht] at hnext
  rw [ht'] at hnext'
  have heq : (.ok 0 : Except Error (BitVec 32)) = .ok 20 :=
    hnext.symm.trans ((goesOn_eq hagree).trans hnext')
  cases heq

theorem recycled_bne : ∃ t t' : PerfSim, t.visible = t'.visible ∧
    (t.recycled 0x00001063#32).brIsTaken ≠ (t'.recycled 0x00001063#32).brIsTaken ∧
    Agree (SameOutcome .plain 16) (Decoder.decode .plain t.toDatapath 0x00001063#32)
      (Decoder.decode .plain t'.toDatapath 0x00001063#32) := by
  obtain ⟨s, s', t, t', hs, hs', hst, hst', ht, ht', hvisible, hvisible'⟩ := branches_visible
  have hsame := hvisible.trans hvisible'.symm
  have hflag : (branches.atDecode .plain 10).map
      (fun t => (t.recycled 0x00001063#32).brIsTaken) = .ok true := rfl
  have hflag' : (lastBranch.atDecode .plain 4).map
      (fun t => (t.recycled 0x00001063#32).brIsTaken) = .ok false := rfl
  rw [ht] at hflag
  rw [ht'] at hflag'
  refine ⟨t, t', hsame, ?_, ?_⟩
  · have htaken : (t.recycled 0x00001063#32).brIsTaken = true := Except.ok.inj hflag
    have hfresh : (t'.recycled 0x00001063#32).brIsTaken = false := Except.ok.inj hflag'
    simp [htaken, hfresh]
  · exact (recycled_iff (hs.decodeReady hst) (hs'.decodeReady hst') hsame 0x00001063#32 16).mpr
      fun hnone => absurd hnone (by decide)

end PerfSim

end RiscvPerfSim
