import RiscvPerfSim.Results.Conformance
import RiscvPerfSim.Results.History
import RiscvPerfSim.Results.Pacing

/-!
# RV32I programs on the simulator

A program that is understood on the hart, and keeps to the discipline of the
pipeline there, ends on the simulator with the registers and the memory of the
hart, and after a number of cycles that the hart knows.
-/

namespace RiscvPerfSim

open Foundation

namespace Foundation.Rv32i

variable {i : Instr} {r : Reg}

def Instr.taken (i : Instr) (h : Hart) : Bool :=
  match i with
  | .jal .. | .jalr .. => true
  | .branch op rs1 rs2 _ => op.taken (h.get rs1) (h.get rs2)
  | _ => false

def Instr.Reads (i : Instr) (r : Reg) : Prop := i.rs1 = some r ∨ i.rs2 = some r

instance (i : Instr) (r : Reg) : Decidable (i.Reads r) :=
  inferInstanceAs (Decidable (_ ∨ _))

structure Hart.Paced (size : Nat) (h : Nat → Hart) (i : Nat → Instr) (n : Nat) : Prop where
  loads : ∀ k < n, (i k).access = .read → ∀ r, r ≠ 0 → (i k).rd = some r →
    ¬ (i (k + 1)).Reads r
  shadows : ∀ k < n, (i k).taken (h k) = false → (i (k + 1)).taken (h (k + 1)) = true → ∀ r,
    r ≠ 0 → Decoder.writes ((h 0).word ((h (k + 1)).pc + 4)) r.toNat = true →
      (h (k + 1)).get r = (h k).get r
  spares : ∀ k ≤ n, (i k).taken (h k) = true → ∀ j ≤ n, (i j).Spares (h j) ((h k).pc + 4)
  next : ∀ k ≤ n, ((h k).pc + 4).toNat + 4 ≤ size
  beyond : ∀ k ≤ n, (i k).taken (h k) = true → ((h k).pc + 4 + 4).toNat + 4 ≤ size

theorem reads_encode (h : Decoder.reads i.encode r.toNat = true) : i.Reads r := by
  have htype : (Decoder.recognize i.encode).type = i.type :=
    congrArg Recognized.type (Decoder.recognize_encode i)
  have hoperand : Decoder.readsRs1 i.type = true ∧ Decoder.numRs1 i.encode = r.toNat ∨
      Decoder.readsRs2 i.type = true ∧ Decoder.numRs2 i.encode = r.toNat := by
    simp only [Decoder.reads, Decoder.needs, Decoder.stores, htype, Bool.or_eq_true,
      Bool.and_eq_true, decide_eq_true_eq] at h
    rcases h with (hrs1 | ⟨⟨hrs2, -⟩, hnum⟩) | ⟨⟨hrs2, -⟩, hnum⟩
    · exact .inl hrs1
    · exact .inr ⟨hrs2, hnum⟩
    · exact .inr ⟨hrs2, hnum⟩
  rcases hoperand with ⟨hreads, hnum⟩ | ⟨hreads, hnum⟩
  · have hrs1 : ∃ x, i.rs1 = some x := by
      cases i <;> first | exact ⟨_, rfl⟩ | cases hreads
    obtain ⟨x, hx⟩ := hrs1
    refine .inl (hx.trans (congrArg some (BitVec.eq_of_toNat_eq ?_)))
    rw [← Instr.rs1Of_encode hx]
    exact hnum
  · have hrs2 : ∃ x, i.rs2 = some x := by
      cases i <;> first | exact ⟨_, rfl⟩ | cases hreads
    obtain ⟨x, hx⟩ := hrs2
    refine .inr (hx.trans (congrArg some (BitVec.eq_of_toNat_eq ?_)))
    rw [← Instr.rs2Of_encode hx]
    exact hnum

theorem writes_encode {num : RegName} (h : Decoder.writes i.encode num = true) :
    ∃ r, i.rd = some r ∧ r.toNat = num := by
  obtain ⟨htype, hnum⟩ := Bool.and_eq_true_iff.mp h
  rw [Decoder.recognize_encode] at htype
  have hrd : ∃ r, i.rd = some r := by
    cases i <;> first | exact ⟨_, rfl⟩ | cases htype
  obtain ⟨r, hr⟩ := hrd
  refine ⟨r, hr, ?_⟩
  rw [← Instr.rdOf_encode hr]
  exact of_decide_eq_true hnum

end Foundation.Rv32i

namespace Seq

theorem Stepped.instr_pc {env : Env} {q q' : Seq} {instr : Instruction}
    (h : Stepped env q instr q') (hnamed : q.rf.Named) : instr.pc = q.pc := by
  rw [Instruction.pc_of_fixed h.fixed]
  exact Instruction.pc_of_fixed (decode_carries hnamed q.word).executed_fixed

theorem after_of_steps {env : Env} {start q : Seq} {instrs : List Instruction}
    (hnamed : start.rf.Named) (h : Steps (Retires env) start instrs q) :
    q = start.after env instrs.length ∧ q.rf.Named ∧
      instrs.map Instruction.pc =
        (List.range instrs.length).map fun k => (start.after env k).pc := by
  induction h with
  | nil => exact ⟨rfl, hnamed, rfl⟩
  | snoc before last ih =>
      obtain ⟨rfl, hnamed', hpcs⟩ := ih
      obtain ⟨retired, hstep, hsame⟩ := last
      have hstepped := step_ok hnamed' hstep
      refine ⟨?_, hstepped.named hnamed', ?_⟩
      · rw [List.length_append, List.length_singleton, after, hstep]
      · rw [List.map_append, hpcs, List.length_append, List.length_singleton, List.range_succ,
          List.map_append, List.map_singleton, List.map_singleton, hsame.pc,
          hstepped.instr_pc hnamed']

/-! ## One instruction -/

section Step

variable {env : Env} {q q' : Seq} {instr : Instruction} {i : Rv32i.Instr}
  (hnamed : q.rf.Named) (hzero : (q.rf.regs 0).value = 0) (h : Stepped env q instr q')
  (hword : q.word = i.encode)
include hnamed hzero h hword

theorem Stepped.taken_hart : instr.target.isSome = i.taken q.hart := by
  rw [h.target_eq]
  have hcontrol (op : Rv32i.ControlOp) (hname : i.name = op.name) :
      (q.executing env).target.isSome =
        op.taken (q.decode i.encode).rs1.value (q.decode i.encode).rs2.value := by
    rw [Instruction.target, (Stepped.resolved env hnamed hword op hname).transfers]
    split_ifs with htaken
    · exact htaken.symm
    · exact (Bool.not_eq_true _ ▸ htaken).symm
  have hother (hjumps : i.jumps = false) : (q.executing env).target.isSome = false := by
    have hcarries : (q.executing env).Carries i.encode := hword ▸ h.carries
    have hbranch : (q.executing env).isBranch = false := by
      rw [hcarries.isBranch, Decoder.recognize_encode]
      exact hjumps
    simp [Instruction.target, PerfSim.transfers, hbranch]
  cases i with
  | jal => exact hcontrol .jal rfl
  | jalr => exact hcontrol .jalr rfl
  | branch op rs1 rs2 offset =>
      rw [hcontrol (.branch op) rfl, decode_rs1 hzero (i := .branch op rs1 rs2 offset) rfl,
        decode_rs2 hzero (i := .branch op rs1 rs2 offset) rfl]
      rfl
  | upper | load | store | opImm | shift | reg | ecall => exact hother rfl

end Step

theorem wordAt_hart {q : Seq} (hsize : q.memory.size ≤ 2 ^ 31) {pc : BitVec 32}
    (hpc : pc.toNat + 4 ≤ q.memory.size) : q.hart.word pc = q.memory.wordAt pc :=
  (Rv32i.LoadOp.congr .lw fun _ hk => load_hart hsize hpc hk).1

/-! ## A run -/

section Run

variable {env : Env} {memory : Memory} {pc : BitVec 32} {values : RegName → BitVec 32}
  {h : Nat → Rv32i.Hart} {i : Nat → Rv32i.Instr} {n k : Nat}
  (hsize : memory.size ≤ 2 ^ 31) (hrun : Rv32i.Hart.Runs memory.size h i n)
  (hfaithful : ∀ k ≤ n, (i k).Faithful (h k)) (hstart : (boot memory pc values).hart = h 0)
include hsize hrun hfaithful hstart

omit hrun hfaithful in
theorem wordAt_behind (hpaced : Rv32i.Hart.Paced memory.size h i n) (hk : k ≤ n) :
    (h 0).word ((h k).pc + 4) = memory.wordAt ((h k).pc + 4) := by
  rw [← hstart]
  exact wordAt_hart hsize (hpaced.next k hk)

structure Matches (q : Seq) (instr : Instruction) (i : Rv32i.Instr) (h : Rv32i.Hart) :
    Prop where
  pc : q.pc = h.pc
  carries : instr.Carries i.encode
  target : instr.target.isSome = i.taken h
  overwrites : ∀ pc, i.Spares h pc → ¬ instr.Overwrites pc

theorem matches_after (env : Env) (hk : k ≤ n) :
    Matches ((boot memory pc values).after env k) ((boot memory pc values).retired env k) (i k)
      (h k) := by
  have ht := tracks_after hsize hrun hfaithful hstart env (Nat.le_succ_of_le hk)
  have hword := ht.word hsize hrun hk
  have hstepped := step_ok ht.named (step_after hsize hrun hfaithful hstart env hk)
  refine ⟨congrArg (fun h => h.pc) ht.hart, hword ▸ hstepped.instr_carries, ?_, ?_⟩
  · rw [hstepped.taken_hart ht.named ht.zero hword, ht.hart]
  · intro pc hspares
    refine hstepped.not_overwrites ht.named ht.zero (ht.size ▸ hsize) hword ?_
    rw [ht.hart]
    exact hspares

theorem paced_of_hart (hpaced : Rv32i.Hart.Paced memory.size h i n) (env : Env) :
    Paced memory ((boot memory pc values).after env) ((boot memory pc values).retired env) n := by
  have hat (k : Nat) (hk : k ≤ n) := matches_after hsize hrun hfaithful hstart env hk
  have ht (k : Nat) (hk : k ≤ n + 1) := tracks_after hsize hrun hfaithful hstart env hk
  constructor
  case loads =>
    intro k hk hread num hnum hwrites
    have hcarries := (hat k hk.le).carries
    rw [hcarries.writes_eq] at hwrites
    obtain ⟨r, hrd, rfl⟩ := Rv32i.writes_encode hwrites
    rw [hcarries.memAccType, Decoder.recognize_encode] at hread
    rw [(ht (k + 1) (by omega)).word hsize hrun hk, ← Bool.not_eq_true]
    intro hreads
    exact hpaced.loads k hk hread r (fun hr => hnum (hr ▸ rfl)) hrd (Rv32i.reads_encode hreads)
  case shadows =>
    intro k hk hnone hjump num hnum hwrites
    have hnext := ht (k + 1) (by omega)
    have hprev := ht k (by omega)
    rw [(hat (k + 1) hk).target] at hjump
    rw [(hat (k + 1) hk).pc, ← wordAt_behind hsize hstart hpaced hk] at hwrites
    obtain ⟨r, rfl⟩ : ∃ r : Rv32i.Reg, r.toNat = num :=
      ⟨_, of_decide_eq_true (Bool.and_eq_true_iff.mp hwrites).2⟩
    have htaken : (i k).taken (h k) = false := by
      rw [← (hat k hk.le).target, hnone]
      rfl
    have hvalue := hpaced.shadows k hk htaken hjump r (fun hr => hnum (hr ▸ rfl)) hwrites
    rw [← hnext.hart, ← hprev.hart, get_hart hnext.zero, get_hart hprev.zero] at hvalue
    exact hvalue
  case spares =>
    intro k hk hjump j hj
    rw [(hat k hk).target] at hjump
    rw [(hat k hk).pc]
    exact (hat j hj).overwrites _ (hpaced.spares k hk hjump j hj)
  case next =>
    intro k hk
    rw [(hat k hk).pc]
    exact hpaced.next k hk
  case beyond =>
    intro k hk hjump
    rw [(hat k hk).target] at hjump
    rw [(hat k hk).pc]
    exact hpaced.beyond k hk hjump

theorem systems_of_hart (hends : ∀ k ≤ n, (i k = .ecall ↔ k = n)) (env : Env) :
    systems ((boot memory pc values).retired env) n = 0 := by
  rw [systems, List.countP_eq_zero]
  intro k hk
  have hlt : k < n := List.mem_range.mp hk
  have htype := (matches_after hsize hrun hfaithful hstart env hlt.le).carries.type_encode
  have hother : i k ≠ .ecall := fun hecall => by
    have hend := (hends k hlt.le).mp hecall
    omega
  rw [htype, decide_eq_true_eq]
  cases hi : i k <;> simp [Rv32i.Instr.type]
  exact hother hi

theorem taken_of_hart (env : Env) (hk : k ≤ n) : taken ((boot memory pc values).retired env) k =
    (List.range k).countP fun j => (i j).taken (h j) := by
  refine List.countP_congr fun j hj => ?_
  have hlt : j < k := List.mem_range.mp hj
  rw [(matches_after hsize hrun hfaithful hstart env (k := j) (by omega)).target]

end Run

end Seq

namespace PerfSim

variable {env : Env} {memory : Memory} {pc : BitVec 32} {values : RegName → BitVec 32}
  {h : Nat → Rv32i.Hart} {i : Nat → Rv32i.Instr} {n : Nat}

structure Finishes (s : PerfSim) (h : Nat → Rv32i.Hart) (i : Nat → Rv32i.Instr) (n : Nat) :
    Prop where
  regs : ∀ r : Rv32i.Reg, (s.rf.regs r.toNat).value = (h (n + 1)).get r
  memory : ∀ addr : BitVec 32, s.memory.bytes addr.toNat = (h (n + 1)).bytes addr
  trace : s.trace.map Instruction.pc = (List.range (n + 1)).map fun k => (h k).pc
  ic : s.ic = n + 1
  clocks : s.clocks = n + 5 + 2 * (List.range n).countP fun k => (i k).taken (h k)

theorem ends_as_hart (hsize : memory.size ≤ 2 ^ 31)
    (hrun : Rv32i.Hart.Runs memory.size h i n) (hfaithful : ∀ k ≤ n, (i k).Faithful (h k))
    (hends : ∀ k ≤ n, (i k = .ecall ↔ k = n)) (hpaced : Rv32i.Hart.Paced memory.size h i n)
    (hstart : (Seq.boot memory pc values).hart = h 0) (env : Env) :
    ∃ m s, (loop env).run m (boot memory pc values) = some (.ok s) ∧ s.Finishes h i n := by
  have hexec := Seq.execution_after hsize hrun hfaithful hends hstart env
  have hwell := Seq.paced_of_hart hsize hrun hfaithful hstart hpaced env
  have ht (k : Nat) (hk : k ≤ n + 1) := Seq.tracks_after hsize hrun hfaithful hstart env hk
  obtain ⟨m, s, hloop, hreplays, hmeasures⟩ :=
    ends_measured hexec fun _ _ hrun hstop => smooth_of_paced hexec hwell hrun hstop
  refine ⟨m, s, hloop, ?_, ?_, ?_, hmeasures.ic, ?_⟩
  · intro r
    rw [hreplays.regs, ← (ht (n + 1) le_rfl).hart, Seq.get_hart (ht (n + 1) le_rfl).zero]
  · intro addr
    rw [hreplays.memory, ← (ht (n + 1) le_rfl).hart]
    rfl
  · have hpcs := congrArg (List.map Prod.fst) hreplays.trace
    simp only [List.map_map] at hpcs
    refine hpcs.trans (List.map_congr_left fun k hk => ?_)
    have hle : k ≤ n := Nat.le_of_lt_succ (List.mem_range.mp hk)
    exact ((hexec.stepped hle).instr_pc (hexec.named (by omega))).trans
      (congrArg (fun h => h.pc) (ht k (by omega)).hart)
  · rw [hmeasures.clocks, Seq.taken_of_hart hsize hrun hfaithful hstart env le_rfl,
      Seq.systems_of_hart hsize hrun hfaithful hstart hends env]
    rfl

/-- As far as a program is understood on the hart, a sound run of the simulator is at every moment
where the hart has been: the registers behind what has been retired, memory behind what has
accessed it. -/
theorem hart_history (hsize : memory.size ≤ 2 ^ 31) (hrun : Rv32i.Hart.Runs memory.size h i n)
    (hfaithful : ∀ k ≤ n, (i k).Faithful (h k)) (hstart : (Seq.boot memory pc values).hart = h 0)
    {s : PerfSim}
    (hreaches : (loop env).Reaches (fun s => s.core.Sound env) (boot memory pc values) s)
    (hlength : s.accesses.length ≤ n + 1) :
    (∀ r : Rv32i.Reg, (s.rf.regs r.toNat).value = (h s.trace.length).get r) ∧
      (∀ addr : BitVec 32, s.memory.bytes addr.toNat = (h s.accesses.length).bytes addr) ∧
        s.trace.map Instruction.pc = (List.range s.trace.length).map fun k => (h k).pc := by
  have ht (k : Nat) (hk : k ≤ n + 1) := Seq.tracks_after hsize hrun hfaithful hstart env hk
  have hle : s.trace.length ≤ s.accesses.length := by
    rw [accesses, List.length_append]
    omega
  obtain ⟨q, q', hretired, hregs, haccessed, hmemory⟩ := beside_history hreaches
  obtain ⟨rfl, -, hpcs⟩ := Seq.after_of_steps (fun _ => rfl) hretired
  obtain ⟨rfl, -, -⟩ := Seq.after_of_steps (fun _ => rfl) haccessed
  have hpast := ht s.trace.length (by omega)
  refine ⟨fun r => ?_, fun addr => ?_, hpcs.trans (List.map_congr_left fun k hk => ?_)⟩
  · rw [hregs, ← hpast.hart, Seq.get_hart hpast.zero]
  · rw [hmemory, ← (ht _ hlength).hart]
    rfl
  · have hlt : k < s.trace.length := List.mem_range.mp hk
    exact congrArg (fun h => h.pc) (ht k (by omega)).hart

def countdown : List Rv32i.Instr :=
  [.opImm .addi 1 0 2, .store .sw 0 1 40, .load .lw 2 0 40, .opImm .addi 1 1 0xfff,
    .branch .bne 1 0 0xffa, .store .sw 0 1 40, .load .lw 2 0 40, .opImm .addi 1 1 0xfff,
    .branch .bne 1 0 0xffa, .ecall]

def countdownMemory : Memory :=
  (bootWords 64 [0x00200093#32, 0x02102423#32, 0x02802103#32, 0xfff08093#32, 0xfe009ae3#32,
    0x00000073#32]).memory

theorem runs_countdown : Rv32i.Hart.Runs countdownMemory.size
    ((Seq.boot countdownMemory 0 fun _ => 0).hart.after fun k => countdown.getD k .ecall)
    (fun k => countdown.getD k .ecall) 9 :=
  ⟨by decide +kernel, by decide +kernel, by decide +kernel, fun _ _ => rfl, by decide +kernel⟩

theorem faithful_countdown : ∀ k ≤ 9, (countdown.getD k .ecall).Faithful
    ((Seq.boot countdownMemory 0 fun _ => 0).hart.after (fun k => countdown.getD k .ecall) k) := by
  intro k hk
  interval_cases k <;> first | trivial | exact .inr trivial

theorem paced_countdown : Rv32i.Hart.Paced countdownMemory.size
    ((Seq.boot countdownMemory 0 fun _ => 0).hart.after fun k => countdown.getD k .ecall)
    (fun k => countdown.getD k .ecall) 9 :=
  ⟨by decide +kernel, by decide +kernel, by decide +kernel, by decide +kernel, by decide +kernel⟩

theorem hart_history_countdown : ∃ s, runFor .plain 8 (boot countdownMemory 0 fun _ => 0) = .ok s ∧
    ∀ r : Rv32i.Reg, (s.rf.regs r.toNat).value =
      (((Seq.boot countdownMemory 0 fun _ => 0).hart.after fun k => countdown.getD k .ecall)
        s.trace.length).get r := by
  obtain ⟨s, hrun', hreaches⟩ := reaches_of_tests (soundTest .plain)
    (fun _ hgood htest => sound_of_test hgood htest) (.boot .plain _ _ _)
    (by decide +kernel : checkAfter .plain 8 (boot countdownMemory 0 fun _ => 0) _ = true)
    (by decide +kernel)
  obtain ⟨t, ht, -, hlength⟩ := checkAfter_spec 8 (fun s => decide (s.accesses.length ≤ 10))
    (.boot .plain _ _ _)
    (by decide +kernel : checkAfter .plain 8 (boot countdownMemory 0 fun _ => 0) _ = true)
  rw [hrun', Except.ok.injEq] at ht
  refine ⟨s, hrun', (hart_history (by decide) runs_countdown faithful_countdown rfl
    hreaches ?_).1⟩
  rw [ht]
  exact of_decide_eq_true hlength

end PerfSim

end RiscvPerfSim
