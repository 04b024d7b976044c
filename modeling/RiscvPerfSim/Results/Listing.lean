import RiscvPerfSim.Core.Shown
import RiscvPerfSim.Results.Startup
import RiscvPerfSim.Results.Trace

/-!
# The trace file of a program

What the pipeline writes is what a machine would write that executes one
instruction at a time, and for a paced RV32I program it can be told from the
hart, character by character.
-/

namespace RiscvPerfSim

open Foundation

/-! ## The pipeline and the sequential machine -/

theorem Seq.Stepped.labelled {env : Env} {q q' : Seq} {instr : Instruction}
    (h : Seq.Stepped env q instr q') (hnamed : q.rf.Named) : instr.Labelled q.word :=
  .of_fixed (h.fixed.trans (Seq.decode_carries hnamed _).executed_fixed)
    (Seq.decode_labelled hnamed _)

namespace PerfSim

variable {env : Env} {memory : Memory} {pc : BitVec 32} {values : RegName → BitVec 32}
  {q : Nat → Seq} {instr : Nat → Instruction} {n m : Nat} {s : PerfSim}

theorem traceFile_congr {instrs instrs' : List Instruction} (h : ∀ instr ∈ instrs, instr.Decoded)
    (h' : ∀ instr ∈ instrs', instr.Decoded)
    (hlines : instrs.map Instruction.line = instrs'.map Instruction.line) :
    traceFile instrs = traceFile instrs' := by
  have hentries (instrs : List Instruction) : instrs.filterMap Instruction.entry =
      (instrs.map Instruction.line).filterMap fun line =>
        if line.name = .none then none else some line := by
    rw [List.filterMap_map]
    rfl
  rw [traceFile_eq h, traceFile_eq h', hentries, hentries, hlines]

theorem length_trace_le (h : s.core.Follows env q instr n) : s.trace.length ≤ n + 1 := by
  have hbound := h.bound
  change (s.trace.length + _) + _ + _ ≤ n + 1 at hbound
  omega

section Smooth

variable (hexec : Execution env memory pc values q instr n)
  (hsmooth : ∀ m s, runFor env m (boot memory pc values) = .ok s → s.isStop = false → s.Smooth)
include hexec hsmooth

theorem shows_runFor (m : Nat) : ∃ s, runFor env m (boot memory pc values) = .ok s ∧
    s.core.Follows env q instr n ∧ s.core.Shows q instr :=
  follows_with (P := fun s => s.core.Shows q instr) hexec (.boot ..)
    (fun m s hrun hstop _ _ =>
      ((Reachable.boot env memory pc values).runFor hrun).good.smooth (hsmooth m s hrun hstop))
    (fun hgood hfollows hstop hproduces _ _ hcore hshows =>
      hcore ▸ hshows.advance hexec hgood.pipeline hfollows hstop hproduces) m

theorem traceFile_runFor (hrun : runFor env m (boot memory pc values) = .ok s) :
    s.trace.length ≤ n + 1 ∧
      traceFile s.trace = traceFile ((List.range s.trace.length).map instr) := by
  obtain ⟨t, ht, hfollows, hshows⟩ := shows_runFor hexec hsmooth m
  rw [hrun, Except.ok.injEq] at ht
  subst ht
  have hreaches := reaches_of_runFor (fun _ _ _ _ _ => trivial) (G := fun _ => True) hrun
  have hle := length_trace_le hfollows
  refine ⟨hle, traceFile_congr (fun i hi => ((addressed_history hreaches).retired i hi).decoded)
    (fun i hi => ?_) ?_⟩
  · obtain ⟨k, hk, rfl⟩ := List.mem_map.mp hi
    have hlt : k < s.trace.length := List.mem_range.mp hk
    exact ⟨_, (hexec.stepped (by omega)).labelled (hexec.named (by omega))⟩
  · rw [List.map_map]
    exact hshows.trace

theorem ends_listed : ∃ m s, (loop env).run m (boot memory pc values) = some (.ok s) ∧
    s.trace.length = n + 1 := by
  obtain ⟨s, hrun, hstop, hfollows⟩ := stops_in_rounds hexec hsmooth
  exact ⟨_, s, by rw [run_eq, hrun]; exact if_pos hstop, (indices_of_isStop hfollows hstop).1⟩

end Smooth

end PerfSim

/-! ## The file of a program -/

namespace Foundation.Rv32i.Instr

def result (i : Instr) (h : Hart) : BitVec 32 :=
  match i with
  | .upper op _ imm => op.value h.pc (imm ++ 0#12)
  | .jal .. | .jalr .. => h.pc + 4
  | .load op _ rs1 imm => op.value (h.load (address h rs1 imm))
  | .opImm op _ rs1 imm => op.value (h.get rs1) (imm.signExtend 32)
  | .shift op _ rs1 shamt => op.value (h.get rs1) shamt
  | .reg op _ rs1 rs2 => op.value (h.get rs1) (h.get rs2)
  | .branch .. | .store .. | .ecall => 0

/-- The immediate that the trace shows; for a shift it is the whole field. -/
def field (i : Instr) : Option (BitVec 32) :=
  match i with
  | .shift op _ _ shamt => some ((op.funct7 ++ shamt).signExtend 32)
  | i => i.imm

def line (i : Instr) (h : Hart) : TraceLine where
  pc := h.pc
  name := i.name
  rs1 := i.rs1.map fun r => (r, h.get r)
  rs2 := i.rs2.map fun r => (r, h.get r)
  rd := i.rd.map fun r => (r, i.result h)
  imm := i.field

/-- The executor gets right what goes to the destination, also where that is `x0`, for the trace
shows it. -/
def Exact (i : Instr) (h : Hart) : Prop :=
  match i with
  | .jalr _ rs1 imm => (h.get rs1 + imm.signExtend 32).getLsbD 0 = false
  | .load op _ rs1 imm => op.Survives (h.load (address h rs1 imm))
  | .opImm .xori _ rs1 imm | .opImm .andi _ rs1 imm => h.get rs1 = 0 ∧ imm.signExtend 32 = 0
  | .reg .sll _ _ rs2 | .reg .srl _ _ rs2 | .reg .sra _ _ rs2 => (h.get rs2).toNat < 32
  | _ => True

variable {i : Instr} {h : Hart} {r : Reg}

theorem Exact.faithful (hexact : i.Exact h) : i.Faithful h := by
  cases i with
  | upper | jal | branch | store | shift | ecall => trivial
  | jalr => exact hexact
  | load => exact .inr hexact
  | opImm op => cases op <;> first | trivial | exact .inr hexact
  | reg op => cases op <;> first | trivial | exact .inr hexact

theorem readsRs1_type (i : Instr) : Decoder.readsRs1 i.type = i.rs1.isSome := by
  cases i <;> rfl

theorem readsRs2_type (i : Instr) : Decoder.readsRs2 i.type = i.rs2.isSome := by
  cases i <;> rfl

theorem writesRd_type (i : Instr) : i.type.writesRd = i.rd.isSome := by
  cases i <;> rfl

theorem showsImm_type (i : Instr) : Instruction.showsImm i.type = i.field.isSome := by
  cases i <;> rfl

theorem name_ne_none (i : Instr) : i.name ≠ .none := by
  cases i with
  | ecall | jal | jalr => exact InstrName.noConfusion
  | upper op | branch op | load op | store op | opImm op | shift op | reg op =>
      cases op <;> exact InstrName.noConfusion

theorem immI_shift (op : ShiftOp) (rd rs1 : Reg) (shamt : BitVec 5) :
    immI (Instr.shift op rd rs1 shamt).encode = (op.funct7 ++ shamt).signExtend 32 := by
  have hfields : immI (encI (op.funct7 ++ shamt) rs1 op.funct3 rd 0b0010011) = _ := immI_encI ..
  rw [encI_eq, BitVec.extractLsb'_append_eq_left, BitVec.extractLsb'_append_eq_right] at hfields
  exact hfields

end Foundation.Rv32i.Instr

namespace Instruction

variable {instr : Instruction} {i : Rv32i.Instr}

theorem Carries.imm_field (h : instr.Carries i.encode) {value : BitVec 32}
    (hfield : i.field = some value) : instr.imm = value := by
  have hget : instr.getImm = .ok value := by
    cases i with
    | shift op rd rs1 shamt =>
        cases hfield
        rw [h.shaped.getImm, h.type_encode]
        exact congrArg Except.ok (Rv32i.Instr.immI_shift ..)
    | upper | jal | jalr | branch | load | store | opImm | reg | ecall =>
        exact h.getImm_encode hfield
  unfold Instruction.getImm at hget
  split at hget <;> cases hget <;> rfl

private theorem column_eq {α β : Type} {o : Option α} {x : β} {f : α → β}
    (h : ∀ a, o = some a → x = f a) : (if o.isSome then some x else none) = o.map f := by
  cases o with
  | none => rfl
  | some a => exact congrArg some (h a rfl)

theorem Labelled.line_eq (h : instr.Labelled i.encode) : instr.line =
    { pc := instr.pc
      name := i.name
      rs1 := i.rs1.map fun r => (r, instr.rs1.value)
      rs2 := i.rs2.map fun r => (r, instr.rs2.value)
      rd := i.rd.map fun r => (r, instr.rd.value)
      imm := i.field } := by
  have hshown {reg : Register} {r : Rv32i.Reg} (hname : reg.name = r.toNat) :
      shown reg = (r, reg.value) := by
    rw [shown, hname, BitVec.ofNat_toNat, BitVec.setWidth_eq]
  have hrs1 (r : Rv32i.Reg) (hr : i.rs1 = some r) : shown instr.rs1 = (r, instr.rs1.value) := by
    have hreads : Decoder.readsRs1 instr.type = true := by
      rw [h.carries.type_encode, i.readsRs1_type, hr, Option.isSome_some]
    rw [hshown ((h.rs1 hreads).trans _), ← Rv32i.Instr.rs1Of_encode hr]
    rfl
  have hrs2 (r : Rv32i.Reg) (hr : i.rs2 = some r) : shown instr.rs2 = (r, instr.rs2.value) := by
    have hreads : Decoder.readsRs2 instr.type = true := by
      rw [h.carries.type_encode, i.readsRs2_type, hr, Option.isSome_some]
    rw [hshown ((h.rs2 hreads).trans _), ← Rv32i.Instr.rs2Of_encode hr]
    rfl
  have hrd (r : Rv32i.Reg) (hr : i.rd = some r) : shown instr.rd = (r, instr.rd.value) := by
    have hwrites : instr.type.writesRd = true := by
      rw [h.carries.type_encode, i.writesRd_type, hr, Option.isSome_some]
    rw [hshown ((h.carries.rdName hwrites).trans _), ← Rv32i.Instr.rdOf_encode hr]
    rfl
  have himm (value : BitVec 32) (hvalue : i.field = some value) : instr.imm = id value :=
    h.carries.imm_field hvalue
  have hname : instr.name = i.name :=
    h.carries.name.trans (congrArg Recognized.name (Decoder.recognize_encode i))
  unfold line
  rw [h.carries.type_encode, i.readsRs1_type, i.readsRs2_type, i.writesRd_type, i.showsImm_type,
    column_eq hrs1, column_eq hrs2, column_eq hrd, column_eq himm, Option.map_id, hname]
  rfl

end Instruction

namespace Seq

variable {env : Env} {q q' : Seq} {instr : Instruction} {i : Rv32i.Instr} {r : Rv32i.Reg}

section Step

variable (hnamed : q.rf.Named) (hzero : (q.rf.regs 0).value = 0) (h : Stepped env q instr q')
  (hsize : q.memory.size ≤ 2 ^ 31) (hword : q.word = i.encode) (hexact : i.Exact q.hart)
include hnamed hzero h hsize hword hexact

theorem Stepped.rd_result (hrd : i.rd = some r) : instr.rd.value = i.result q.hart := by
  cases i with
  | branch | store | ecall => cases hrd
  | upper op rd imm =>
      rw [h.rd_alu hnamed hword (.upper op) rfl rfl]
      exact congrArg (op.value q.pc) (Rv32i.immU_encU ..)
  | jal rd offset =>
      rw [h.instr_of_access hword (by simp [Rv32i.Instr.access])]
      exact (Stepped.resolved env hnamed hword .jal rfl).link rfl
  | jalr rd rs1 imm =>
      rw [h.instr_of_access hword (by simp [Rv32i.Instr.access])]
      exact (Stepped.resolved env hnamed hword .jalr rfl).link rfl
  | load op rd rs1 imm =>
      rw [h.rd_load hnamed hzero hsize hword]
      exact (Rv32i.LoadOp.computed_eq_iff _ op).mpr hexact
  | opImm op rd rs1 imm =>
      have himm : Rv32i.immI (Rv32i.Instr.opImm op rd rs1 imm).encode = imm.signExtend 32 :=
        Rv32i.immI_encI ..
      have hagrees : (Rv32i.AluOp.imm op).Agrees (Rv32i.Instr.opImm op rd rs1 imm).encode
          (q.hart.get rs1) (q.decode (Rv32i.Instr.opImm op rd rs1 imm).encode).rs2.value := by
        cases op <;> simp only [Rv32i.AluOp.Agrees, himm] <;> exact hexact
      rw [h.rd_alu hnamed hword (.imm op) rfl rfl,
        decode_rs1 hzero (i := .opImm op rd rs1 imm) rfl,
        (Rv32i.AluOp.computed_eq_iff (.imm op) _ _ _ _).mpr hagrees env]
      exact congrArg (op.value (q.hart.get rs1)) himm
  | shift op rd rs1 shamt =>
      rw [h.rd_alu hnamed hword (.shift op) rfl rfl,
        decode_rs1 hzero (i := .shift op rd rs1 shamt) rfl]
      exact congrArg (op.value (q.hart.get rs1)) (Rv32i.rs2Of_encR ..)
  | reg op rd rs1 rs2 =>
      have hagrees : (Rv32i.AluOp.reg op).Agrees (Rv32i.Instr.reg op rd rs1 rs2).encode
          (q.hart.get rs1) (q.hart.get rs2) := by
        cases op <;> exact hexact
      rw [h.rd_alu hnamed hword (.reg op) rfl rfl, decode_rs1 hzero (i := .reg op rd rs1 rs2) rfl,
        decode_rs2 hzero (i := .reg op rd rs1 rs2) rfl,
        (Rv32i.AluOp.computed_eq_iff (.reg op) _ _ _ _).mpr hagrees env]
      rfl

theorem Stepped.line_eq : instr.line = i.line q.hart := by
  have hlabelled : instr.Labelled i.encode := hword ▸ h.labelled hnamed
  have hfixed : instr.fixed = (q.decode i.encode).fixed := by
    rw [← hword]
    exact h.fixed.trans (decode_carries hnamed _).executed_fixed
  have hrs1 (r : Rv32i.Reg) (hr : i.rs1 = some r) : instr.rs1.value = q.hart.get r := by
    rw [Instruction.rs1_of_fixed hfixed, decode_rs1 hzero hr]
  have hrs2 (r : Rv32i.Reg) (hr : i.rs2 = some r) : instr.rs2.value = q.hart.get r := by
    rw [Instruction.rs2_of_fixed hfixed, decode_rs2 hzero hr]
  have hrd (r : Rv32i.Reg) (hr : i.rd = some r) : instr.rd.value = i.result q.hart :=
    h.rd_result hnamed hzero hsize hword hexact hr
  rw [hlabelled.line_eq, Rv32i.Instr.line, h.instr_pc hnamed]
  congr 1
  · exact Option.map_congr fun r hr => by rw [hrs1 r hr]
  · exact Option.map_congr fun r hr => by rw [hrs2 r hr]
  · exact Option.map_congr fun r hr => by rw [hrd r hr]

end Step

section Run

variable {memory : Memory} {pc : BitVec 32} {values : RegName → BitVec 32}
  {h : Nat → Rv32i.Hart} {i : Nat → Rv32i.Instr} {n k : Nat}
  (hsize : memory.size ≤ 2 ^ 31) (hrun : Rv32i.Hart.Runs memory.size h i n)
  (hexact : ∀ k ≤ n, (i k).Exact (h k)) (hstart : (boot memory pc values).hart = h 0)
include hsize hrun hexact hstart

theorem line_after (env : Env) (hk : k ≤ n) :
    ((boot memory pc values).retired env k).line = (i k).line (h k) := by
  have hfaithful (k : Nat) (hk : k ≤ n) : (i k).Faithful (h k) := (hexact k hk).faithful
  have ht := tracks_after hsize hrun hfaithful hstart env (Nat.le_succ_of_le hk)
  have hstepped := step_ok ht.named (step_after hsize hrun hfaithful hstart env hk)
  rw [hstepped.line_eq ht.named ht.zero (ht.size ▸ hsize) (ht.word hsize hrun hk)
    (ht.hart ▸ hexact k hk), ht.hart]

theorem file_after (env : Env) (hk : k ≤ n + 1) :
    PerfSim.traceFile ((List.range k).map ((boot memory pc values).retired env)) =
      .ok (TraceLine.file ((List.range k).map fun j => (i j).line (h j))) := by
  have hfaithful (k : Nat) (hk : k ≤ n) : (i k).Faithful (h k) := (hexact k hk).faithful
  have hlabelled (j : Nat) (hj : j ∈ List.range k) :
      ((boot memory pc values).retired env j).Labelled (i j).encode := by
    have hlt : j < k := List.mem_range.mp hj
    have ht := tracks_after hsize hrun hfaithful hstart env (k := j) (by omega)
    rw [← ht.word hsize hrun (by omega)]
    exact (step_ok ht.named (step_after hsize hrun hfaithful hstart env (by omega))).labelled
      ht.named
  rw [PerfSim.traceFile_eq]
  · rw [List.filterMap_map, ← List.filterMap_eq_map]
    refine congrArg _ (congrArg _ (List.filterMap_congr fun j hj => ?_))
    have hlt : j < k := List.mem_range.mp hj
    have hname : ((boot memory pc values).retired env j).name ≠ .none := by
      rw [(hlabelled j hj).carries.name, Decoder.recognize_encode]
      exact (i j).name_ne_none
    change Instruction.entry _ = some _
    rw [Instruction.entry, if_neg hname, line_after hsize hrun hexact hstart env (by omega)]
  · intro instr hinstr
    obtain ⟨j, hj, rfl⟩ := List.mem_map.mp hinstr
    exact ⟨_, hlabelled j hj⟩

end Run

end Seq

namespace PerfSim

variable {memory : Memory} {pc : BitVec 32} {values : RegName → BitVec 32}
  {h : Nat → Rv32i.Hart} {i : Nat → Rv32i.Instr} {n : Nat}

end PerfSim

end RiscvPerfSim
