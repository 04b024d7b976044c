import RiscvPerfSim.Results.Listing

/-!
# From the trace back to the program

A line of the trace determines the instruction, and its encoding is the word
that the program has at the address of the line.
-/

namespace RiscvPerfSim

open Foundation

/-! ## The instruction of a line -/

namespace TraceLine

/-! One function for the columns of each format. -/

section Formats

variable (line : TraceLine)

def upper (op : Rv32i.UpperOp) : Option Rv32i.Instr :=
  match line.rd.map Prod.fst, line.imm with
  | some rd, some imm => some (.upper op rd (imm.extractLsb' 12 20))
  | _, _ => none

def jal : Option Rv32i.Instr :=
  match line.rd.map Prod.fst, line.imm with
  | some rd, some imm => some (.jal rd (imm.extractLsb' 1 20))
  | _, _ => none

def jalr : Option Rv32i.Instr :=
  match line.rd.map Prod.fst, line.rs1.map Prod.fst, line.imm with
  | some rd, some rs1, some imm => some (.jalr rd rs1 (imm.extractLsb' 0 12))
  | _, _, _ => none

def branch (op : Rv32i.BranchOp) : Option Rv32i.Instr :=
  match line.rs1.map Prod.fst, line.rs2.map Prod.fst, line.imm with
  | some rs1, some rs2, some imm => some (.branch op rs1 rs2 (imm.extractLsb' 1 12))
  | _, _, _ => none

def load (op : Rv32i.LoadOp) : Option Rv32i.Instr :=
  match line.rd.map Prod.fst, line.rs1.map Prod.fst, line.imm with
  | some rd, some rs1, some imm => some (.load op rd rs1 (imm.extractLsb' 0 12))
  | _, _, _ => none

def storing (op : Rv32i.StoreOp) : Option Rv32i.Instr :=
  match line.rs1.map Prod.fst, line.rs2.map Prod.fst, line.imm with
  | some rs1, some rs2, some imm => some (.store op rs1 rs2 (imm.extractLsb' 0 12))
  | _, _, _ => none

def opImm (op : Rv32i.ImmOp) : Option Rv32i.Instr :=
  match line.rd.map Prod.fst, line.rs1.map Prod.fst, line.imm with
  | some rd, some rs1, some imm => some (.opImm op rd rs1 (imm.extractLsb' 0 12))
  | _, _, _ => none

def shift (op : Rv32i.ShiftOp) : Option Rv32i.Instr :=
  match line.rd.map Prod.fst, line.rs1.map Prod.fst, line.imm with
  | some rd, some rs1, some imm => some (.shift op rd rs1 (imm.extractLsb' 0 5))
  | _, _, _ => none

def reg (op : Rv32i.RegOp) : Option Rv32i.Instr :=
  match line.rd.map Prod.fst, line.rs1.map Prod.fst, line.rs2.map Prod.fst with
  | some rd, some rs1, some rs2 => some (.reg op rd rs1 rs2)
  | _, _, _ => none

end Formats

def instr (line : TraceLine) : Option Rv32i.Instr :=
  match line.name with
  | .lui => line.upper .lui
  | .auipc => line.upper .auipc
  | .jal => line.jal
  | .jalr => line.jalr
  | .beq => line.branch .beq
  | .bne => line.branch .bne
  | .blt => line.branch .blt
  | .bge => line.branch .bge
  | .bltu => line.branch .bltu
  | .bgeu => line.branch .bgeu
  | .lb => line.load .lb
  | .lh => line.load .lh
  | .lw => line.load .lw
  | .lbu => line.load .lbu
  | .lhu => line.load .lhu
  | .sb => line.storing .sb
  | .sh => line.storing .sh
  | .sw => line.storing .sw
  | .addi => line.opImm .addi
  | .slti => line.opImm .slti
  | .sltiu => line.opImm .sltiu
  | .xori => line.opImm .xori
  | .ori => line.opImm .ori
  | .andi => line.opImm .andi
  | .slli => line.shift .slli
  | .srli => line.shift .srli
  | .srai => line.shift .srai
  | .add => line.reg .add
  | .sub => line.reg .sub
  | .sll => line.reg .sll
  | .slt => line.reg .slt
  | .sltu => line.reg .sltu
  | .xor => line.reg .xor
  | .srl => line.reg .srl
  | .sra => line.reg .sra
  | .or => line.reg .or
  | .and => line.reg .and
  | .ecall => some .ecall
  | .none => none

theorem extract_imm {w : Nat} (imm : BitVec w) (hw : w ≤ 32) :
    (imm.signExtend 32).extractLsb' 0 w = imm :=
  (Rv32i.extract_signExtend (by omega) hw).trans BitVec.extractLsb'_eq_self

theorem extract_offset {w : Nat} (offset : BitVec w) (hw : w + 1 ≤ 32) :
    ((offset ++ 0#1).signExtend 32).extractLsb' 1 w = offset :=
  (Rv32i.extract_signExtend (by omega) hw).trans BitVec.extractLsb'_append_eq_left

theorem extract_shamt (funct7 : BitVec 7) (shamt : BitVec 5) :
    ((funct7 ++ shamt).signExtend 32).extractLsb' 0 5 = shamt :=
  (Rv32i.extract_signExtend (by decide) (by decide)).trans BitVec.extractLsb'_append_eq_right

theorem instr_of_columns {line : TraceLine} {i : Rv32i.Instr} (hname : line.name = i.name)
    (hrs1 : line.rs1.map Prod.fst = i.rs1) (hrs2 : line.rs2.map Prod.fst = i.rs2)
    (hrd : line.rd.map Prod.fst = i.rd) (himm : line.imm = i.field) : line.instr = some i := by
  cases i with
  | ecall =>
      unfold instr
      rw [hname]
      rfl
  | jal rd offset =>
      have hop : line.instr = line.jal := by
        unfold instr
        rw [hname]
        rfl
      rw [hop, jal, hrd, himm]
      exact congrArg (fun imm => some (Rv32i.Instr.jal rd imm)) (extract_offset offset (by decide))
  | jalr rd rs1 imm =>
      have hop : line.instr = line.jalr := by
        unfold instr
        rw [hname]
        rfl
      rw [hop, jalr, hrd, hrs1, himm]
      exact congrArg (fun imm => some (Rv32i.Instr.jalr rd rs1 imm)) (extract_imm imm (by decide))
  | upper op rd imm =>
      have hop : line.instr = line.upper op := by
        unfold instr
        rw [hname]
        cases op <;> rfl
      rw [hop, upper, hrd, himm]
      exact congrArg (fun imm => some (Rv32i.Instr.upper op rd imm))
        (BitVec.extractLsb'_append_eq_left)
  | branch op rs1 rs2 offset =>
      have hop : line.instr = line.branch op := by
        unfold instr
        rw [hname]
        cases op <;> rfl
      rw [hop, branch, hrs1, hrs2, himm]
      exact congrArg (fun imm => some (Rv32i.Instr.branch op rs1 rs2 imm))
        (extract_offset offset (by decide))
  | load op rd rs1 imm =>
      have hop : line.instr = line.load op := by
        unfold instr
        rw [hname]
        cases op <;> rfl
      rw [hop, load, hrd, hrs1, himm]
      exact congrArg (fun imm => some (Rv32i.Instr.load op rd rs1 imm))
        (extract_imm imm (by decide))
  | store op rs1 rs2 imm =>
      have hop : line.instr = line.storing op := by
        unfold instr
        rw [hname]
        cases op <;> rfl
      rw [hop, storing, hrs1, hrs2, himm]
      exact congrArg (fun imm => some (Rv32i.Instr.store op rs1 rs2 imm))
        (extract_imm imm (by decide))
  | opImm op rd rs1 imm =>
      have hop : line.instr = line.opImm op := by
        unfold instr
        rw [hname]
        cases op <;> rfl
      rw [hop, opImm, hrd, hrs1, himm]
      exact congrArg (fun imm => some (Rv32i.Instr.opImm op rd rs1 imm))
        (extract_imm imm (by decide))
  | shift op rd rs1 shamt =>
      have hop : line.instr = line.shift op := by
        unfold instr
        rw [hname]
        cases op <;> rfl
      rw [hop, shift, hrd, hrs1, himm]
      exact congrArg (fun imm => some (Rv32i.Instr.shift op rd rs1 imm))
        (extract_shamt op.funct7 shamt)
  | reg op rd rs1 rs2 =>
      have hop : line.instr = line.reg op := by
        unfold instr
        rw [hname]
        cases op <;> rfl
      rw [hop, reg, hrd, hrs1, hrs2]
      rfl

end TraceLine

theorem Instruction.Labelled.instr_line {instr : Instruction} {i : Rv32i.Instr}
    (h : instr.Labelled i.encode) : instr.line.instr = some i := by
  rw [h.line_eq]
  apply TraceLine.instr_of_columns rfl <;> simp [Option.map_map, Function.comp_def]

theorem Instruction.Labelled.word_line {instr : Instruction} {word : BitVec 32}
    (h : instr.Labelled word) (hname : instr.name ≠ .none) :
    instr.line.instr.map Rv32i.Instr.encode = some word ↔ Decoder.FieldsSet word := by
  rw [h.carries.name] at hname
  constructor
  · intro hword
    obtain ⟨i, -, rfl⟩ := Option.map_eq_some_iff.mp hword
    refine Decoder.fieldsSet_of_legal fun _ => ⟨i, rfl, ?_⟩
    exact (congrArg Recognized.name (Decoder.recognize_encode i)).symm
  · intro hfields
    obtain ⟨i, rfl, -⟩ := Decoder.legal_of_fieldsSet hfields hname
    rw [h.instr_line, Option.map_some]

/-! ## The words of a run -/

namespace Core

variable {env : Env} {old : Instruction} {c : Core} {accessed : Accessed} {decoded : Decoded}
  {word : BitVec 32} {start memory : Memory} {pc : BitVec 32}

/-- The word at `pc` is the one from the start, also in the instructions that come from there. -/
structure Unwritten (start : Memory) (pc : BitVec 32) (c : Core) : Prop where
  memory : c.memory.read 0 pc.toNat 4 = start.read 0 pc.toNat 4
  fd : ∀ fetched, c.fd = some fetched → fetched.pc = pc → fetched.word = start.wordAt pc
  objects : c.Throughout (fun i => i.pc = pc → i.Labelled (start.wordAt pc))
    (fun i => i.pc = pc → i.Labelled (start.wordAt pc))

theorem Unwritten.advance (hinv : c.Inv) (h : Stepped env old c accessed decoded word memory)
    (hapart : ∀ instr, accessed.mw = some instr → ¬ instr.Overwrites pc)
    (hstart : c.Unwritten start pc) :
    (c.advance env accessed decoded word memory).Unwritten start pc := by
  have hmemory : memory.read 0 pc.toNat 4 = start.read 0 pc.toNat 4 := by
    rw [← hstart.memory]
    cases hmw : accessed.mw with
    | none => rw [h.memory_of_idle hmw]
    | some instr =>
        rw [(h.serves hinv hmw).stores]
        exact Instruction.read_drained c.memory (hapart instr hmw)
  constructor
  case memory => exact hmemory
  case fd =>
    intro fetched hfd hpc
    by_cases hstop : c.stop + c.exitStop env + decoded.hits = 0
    · simp only [Core.advance, hstop, if_true, Option.some.injEq] at hfd
      rw [← hfd] at hpc ⊢
      have hfetch := h.fetch
      rw [fetchStage, if_pos hstop, show c.nextPc = pc from hpc] at hfetch
      have hread : start.read 0 pc.toNat 4 = .ok word := by
        rcases h.written hinv with hwritten | hwritten <;> rw [hwritten] at hfetch
        · rw [← hstart.memory, hfetch]
        · rw [← hmemory, hfetch]
      rw [Memory.read_wordAt (Memory.inRange_of_read hread), Except.ok.injEq] at hread
      exact hread.symm
    · simp only [Core.advance, hstop, if_false] at hfd
      exact hstart.fd fetched hfd hpc
  case objects =>
    refine .advance hinv h (fun instr hinstr hpc => ?_) (fun i hde hi hpc => ?_)
      (fun i i' _ _ hi hload hpc => ?_) hstart.objects
    · obtain ⟨fetched, hdecoding, hlabelled, hpc'⟩ :=
        decodeStage_labelled hinv h.access h.decode hinstr
      have hword := hstart.fd _ (decoding_eq_some hdecoding).1 (hpc'.symm.trans hpc)
      exact hword ▸ hlabelled
    · obtain ⟨w, hcarries⟩ := hinv.decoded _ hde
      have hfixed : (i.executed env).fixed = i.fixed := hcarries.executed_fixed
      exact .of_fixed hfixed (hi ((Instruction.pc_of_fixed hfixed).symm.trans hpc))
    · have hfixed := loadEffect_fixed hload
      exact .of_fixed hfixed (hi ((Instruction.pc_of_fixed hfixed).symm.trans hpc))

end Core

namespace PerfSim

variable {env : Env} {memory : Memory} {pc : BitVec 32} {values : RegName → BitVec 32}
  {s : PerfSim} {G : PerfSim → Prop}

theorem unwritten_history (h : (loop env).Reaches G (boot memory pc values) s) {addr : BitVec 32}
    (hapart : ∀ instr ∈ s.accesses, ¬ instr.Overwrites addr) : s.core.Unwritten memory addr := by
  refine core_invariant (P := fun c =>
    (∀ instr ∈ c.trace ++ c.mw.toList, ¬ instr.Overwrites addr) → c.Unwritten memory addr) ?_ ?_ h
      hapart
  · intro s accessed decoded word memory' hgood _ _ hstepped hstart hlater
    change ∀ instr ∈ (s.core.trace ++ s.core.mw.toList) ++ accessed.mw.toList, _ at hlater
    refine (hstart fun instr hinstr => hlater instr (List.mem_append_left _ hinstr)).advance
      hgood.pipeline hstepped fun instr hmw => hlater instr (List.mem_append_right _ ?_)
    exact Option.mem_toList.mpr hmw
  · exact fun _ => ⟨rfl, (fun _ hfd => by cases hfd), .boot ..⟩

/-- The program can be told from the trace file: for a line whose word no store has reached, the
encoding of the instruction that it shows is the word in the initial memory, just where that word
is legal. -/
theorem trace_disassembles (h : (loop env).Reaches (fun _ => True) (boot memory pc values) s) :
    ∃ text lines, traceFile s.trace = .ok text ∧ TraceLine.parse text = some lines ∧
      ∀ line ∈ lines, (∀ instr ∈ s.accesses, ¬ instr.Overwrites line.pc) →
        (line.instr.map Rv32i.Instr.encode = some (memory.wordAt line.pc) ↔
          Decoder.FieldsSet (memory.wordAt line.pc)) := by
  have hdecoded : ∀ instr ∈ s.trace, instr.Decoded := fun instr hinstr =>
    ((addressed_history h).retired instr hinstr).decoded
  refine ⟨_, _, traceFile_eq hdecoded, parse_file _, fun line hline hapart => ?_⟩
  obtain ⟨instr, hinstr, hentry⟩ := List.mem_filterMap.mp hline
  have hname : instr.name ≠ .none := fun hname => by
    rw [Instruction.entry, if_pos hname] at hentry
    cases hentry
  rw [Instruction.entry, if_neg hname, Option.some.injEq] at hentry
  rw [← hentry] at hapart ⊢
  exact ((unwritten_history h hapart).objects.retired instr hinstr rfl).word_line hname

theorem trace_disassembles_storeLoop : ∃ s text lines, runFor .plain 20 storeLoop = .ok s ∧
    traceFile s.trace = .ok text ∧ TraceLine.parse text = some lines ∧
      ∀ line ∈ lines, (∀ instr ∈ s.accesses, ¬ instr.Overwrites line.pc) →
        (line.instr.map Rv32i.Instr.encode = some (storeLoop.memory.wordAt line.pc) ↔
          Decoder.FieldsSet (storeLoop.memory.wordAt line.pc)) := by
  obtain ⟨s, hrun, hreaches⟩ := reaches_of_tests (fun _ => true) (fun _ _ _ => trivial)
    (.boot .plain _ _ _) (by decide +kernel : checkAfter .plain 20 storeLoop _ = true)
    (by decide +kernel)
  obtain ⟨text, lines, hlines⟩ := trace_disassembles hreaches
  exact ⟨s, text, lines, hrun, hlines⟩

end PerfSim

end RiscvPerfSim
