import RiscvPerfSim.Core.Labels
import RiscvPerfSim.Foundation.Codec
import RiscvPerfSim.Foundation.Rv32i
import RiscvPerfSim.Source.Trace

/-!
# Lines of the trace

What `dumpInstruction` shows of an instruction, as a record, and the codec that
reads the record back from the text.
-/

namespace RiscvPerfSim

open Foundation

structure TraceLine where
  pc : BitVec 32
  name : InstrName
  rs1 : Option (Rv32i.Reg × BitVec 32)
  rs2 : Option (Rv32i.Reg × BitVec 32)
  rd : Option (Rv32i.Reg × BitVec 32)
  imm : Option (BitVec 32)
  deriving DecidableEq

def InstrName.all : List InstrName :=
  [.lui, .auipc, .jal, .jalr, .beq, .bne, .blt, .bge, .bltu, .bgeu, .lb, .lh, .lw, .lbu, .lhu,
    .sb, .sh, .sw, .addi, .slti, .sltiu, .xori, .ori, .andi, .slli, .srli, .srai, .add, .sub, .sll,
    .slt, .sltu, .xor, .srl, .sra, .or, .and, .ecall, .none]

theorem InstrName.mem_all (name : InstrName) : name ∈ all := by
  cases name <;> decide

namespace TraceLine

/-! ## The columns -/

def pcCodec : Codec (BitVec 32) :=
  (Codec.natural.map BitVec.toNat (BitVec.ofNat 32) fun _ => BitVec.ofNat_toNat _ _).upTo ['\n']
    fun _ c hc => by
      cases hc
      decide

def hexCodec : Codec (BitVec 32) :=
  (Codec.fixed 8 (fun i => Codec.hexDigits 8 i.toNat)
    (fun digits => some (BitVec.ofNat 32 (Codec.hexValue digits)))
    (fun i => Codec.length_hexDigits (by decide) i.isLt)
    (fun i => by rw [Codec.hexValue_hexDigits, BitVec.ofNat_toNat, BitVec.setWidth_eq])).after
      ['0', 'x'] |>.upTo [' ', ' '] fun _ => trivial

def nameCodec : Codec InstrName :=
  Codec.table 12 InstrName.all (fun name => (PerfSim.getInstrName name).toList) InstrName.mem_all
    (fun name => by cases name <;> decide) (by decide +kernel)

def regs : List Rv32i.Reg := (List.range 32).map (BitVec.ofNat 5)

theorem mem_regs (r : Rv32i.Reg) : r ∈ regs :=
  List.mem_map.mpr ⟨r.toNat, List.mem_range.mpr r.isLt, by simp⟩

def regCodec : Codec Rv32i.Reg :=
  Codec.table 12 regs (fun r => (PerfSim.getRegName r.toNat).toList) mem_regs
    (by decide +kernel) (by decide +kernel)

def valueCodec : Codec (Rv32i.Reg × BitVec 32) :=
  regCodec.both ((((Codec.integer.map BitVec.toInt (BitVec.ofInt 32) fun _ =>
    BitVec.ofInt_toInt).upTo [')'] fun _ c hc => by
      cases hc
      decide).after [' ', '('])) fun _ _ _ => trivial

def rs1Codec : Codec (Option (Rv32i.Reg × BitVec 32)) :=
  (valueCodec.after ['r', 's', '1', ' ']).column 16 (by decide) fun _ => ⟨'r', _, rfl, by decide⟩

def rs2Codec : Codec (Option (Rv32i.Reg × BitVec 32)) :=
  (valueCodec.after ['r', 's', '2', ' ']).column 16 (by decide) fun _ => ⟨'r', _, rfl, by decide⟩

def rdCodec : Codec (Option (Rv32i.Reg × BitVec 32)) :=
  (valueCodec.after ['r', 'd', ' ']).column 15 (by decide) fun _ => ⟨'r', _, rfl, by decide⟩

def immCodec : Codec (Option (BitVec 32)) :=
  (hexCodec.after ['i', 'm', 'm', ' ']).column 16 (by decide) fun _ => ⟨'i', _, rfl, by decide⟩

/-- An entry of the trace: the pc in decimal, and a line with the columns. -/
def codec : Codec TraceLine :=
  ((pcCodec.both (hexCodec.both (nameCodec.both (rs1Codec.both (rs2Codec.both (rdCodec.both
    immCodec fun _ _ _ => trivial) fun _ _ _ => trivial) fun _ _ _ => trivial) fun _ _ _ => trivial)
      fun _ _ _ => trivial) fun _ _ _ => trivial).map
    (fun line => (line.pc, line.pc, line.name, line.rs1, line.rs2, line.rd, line.imm))
    (fun columns => {
      pc := columns.2.1
      name := columns.2.2.1
      rs1 := columns.2.2.2.1
      rs2 := columns.2.2.2.2.1
      rd := columns.2.2.2.2.2.1
      imm := columns.2.2.2.2.2.2 }) fun _ => rfl).upTo ['\n'] fun _ => trivial

def file (lines : List TraceLine) : String := String.ofList (lines.flatMap codec.write)

def parse (text : String) : Option (List TraceLine) :=
  codec.readAll text.toList.length text.toList

end TraceLine

/-! ## The text of an instruction -/

theorem toList_toString_int (i : Int) : (toString i).toList = Codec.writeInt i := by
  cases i with
  | ofNat n => exact Nat.toList_repr
  | negSucc n =>
      refine String.toList_append.trans ?_
      rw [Nat.toList_repr]
      rfl

namespace PerfSim

theorem toList_intToHex (i : BitVec 32) :
    (intToHex i).toList = ['0', 'x'] ++ Codec.hexDigits 8 i.toNat := by
  refine String.toList_append.trans ?_
  exact congrArg (['0', 'x'] ++ ·) String.toList_ofList

theorem length_intToHex (i : BitVec 32) : (intToHex i).length = 10 := by
  rw [← String.length_toList, toList_intToHex, List.length_append,
    Codec.length_hexDigits (by decide) i.isLt]
  rfl

theorem toList_spaces (count : Nat) : (spaces count).toList = List.replicate count ' ' :=
  String.toList_ofList

theorem toList_hex_padded (i : BitVec 32) :
    (intToHex i ++ spaces (12 - (intToHex i).length)).toList = TraceLine.hexCodec.write i := by
  rw [String.toList_append, toList_intToHex, length_intToHex, toList_spaces]
  rfl

theorem toList_padded (name : String) :
    (name ++ spaces (12 - name.length)).toList = Codec.pad 12 name.toList := by
  rw [String.toList_append, toList_spaces, Codec.pad, String.length_toList]

/-! `12 - length` is unsigned in the source, where a longer text would make `std::string` throw. -/

theorem length_getInstrName_le (name : InstrName) : (getInstrName name).length ≤ 12 := by
  cases name <;> decide

theorem length_getRegName_le (num : RegName) : (getRegName num).length ≤ 12 := by
  rcases lt_or_ge num 33 with hnum | hnum
  · have hall : ∀ n < 33, (getRegName n).length ≤ 12 := by decide +kernel
    exact hall num hnum
  · rw [getRegName, List.getD_eq_getElem?_getD, List.getElem?_eq_none hnum]
    exact Nat.zero_le _

theorem length_padded {text : String} (h : text.length ≤ 12) :
    (text ++ spaces (12 - text.length)).length = 12 := by
  rw [String.length_append, ← String.length_toList (s := spaces _), toList_spaces,
    List.length_replicate]
  omega

/-- The columns of names, registers and hexadecimal numbers have their 12 characters each. -/
theorem columns_fit (instr : Instruction) :
    ∀ text ∈ [intToHex instr.pc, getInstrName instr.name, getRegName instr.rs1.name,
      getRegName instr.rs2.name, getRegName instr.rd.name, intToHex instr.imm],
      text.length ≤ 12 ∧ (text ++ spaces (12 - text.length)).length = 12 := by
  intro text htext
  have hhex (i : BitVec 32) : (intToHex i).length ≤ 12 := by
    rw [length_intToHex]
    decide
  have hfits : text.length ≤ 12 := by
    simp only [List.mem_cons, List.not_mem_nil, or_false] at htext
    rcases htext with rfl | rfl | rfl | rfl | rfl | rfl
    · exact hhex _
    · exact length_getInstrName_le _
    · exact length_getRegName_le _
    · exact length_getRegName_le _
    · exact length_getRegName_le _
    · exact hhex _
  exact ⟨hfits, length_padded hfits⟩

end PerfSim

namespace Instruction

def shown (reg : Register) : Rv32i.Reg × BitVec 32 := (BitVec.ofNat 5 reg.name, reg.value)

def showsImm : InstrType → Bool
  | .i | .s | .b | .u | .j => true
  | .r | .system | .none => false

def line (instr : Instruction) : TraceLine where
  pc := instr.pc
  name := instr.name
  rs1 := if Decoder.readsRs1 instr.type then some (shown instr.rs1) else none
  rs2 := if Decoder.readsRs2 instr.type then some (shown instr.rs2) else none
  rd := if instr.type.writesRd then some (shown instr.rd) else none
  imm := if showsImm instr.type then some instr.imm else none

/-- The entry of an instruction; one without a name has none. -/
def entry (instr : Instruction) : Option TraceLine :=
  if instr.name = .none then none else some instr.line

end Instruction

namespace PerfSim

variable {instr : Instruction} {word : BitVec 32}

theorem toList_dumpRegister (label : String) {reg : Register} (h : reg.name < 32) :
    (dumpRegister label reg).toList =
      label.toList ++ TraceLine.valueCodec.write (Instruction.shown reg) := by
  have hname : (BitVec.ofNat 5 reg.name).toNat = reg.name :=
    (BitVec.toNat_ofNat ..).trans (Nat.mod_eq_of_lt h)
  have hvalue : TraceLine.valueCodec.write (Instruction.shown reg) =
      Codec.pad 12 (getRegName (BitVec.ofNat 5 reg.name).toNat).toList ++
        ([' ', '('] ++ (Codec.writeInt reg.value.toInt ++ [')'])) := rfl
  rw [hvalue, hname, ← toList_padded, dumpRegister]
  simp only [String.toList_append, toList_toString_int, List.append_assoc]
  rfl

theorem getInstrName_eq_iff (name : InstrName) : getInstrName name = "NONE" ↔ name = .none := by
  cases name <;> decide

theorem dump_column {p : Prop} [Decidable p] {shows : Bool} {get : Except Error Register}
    {reg : Register} {label : String} {width : Nat}
    {codec : Codec (Option (Rv32i.Reg × BitVec 32))} (hshows : p ↔ shows = true)
    (hget : shows = true → get = .ok reg) (hname : shows = true → reg.name < 32)
    (hsome : codec.write (some (Instruction.shown reg)) =
      label.toList ++ TraceLine.valueCodec.write (Instruction.shown reg))
    (hnone : codec.write none = List.replicate width ' ') :
    (if p then dumpRegister label <$> get else .ok (spaces width)) =
      .ok (String.ofList (codec.write (if shows then some (Instruction.shown reg) else none))) := by
  cases shows with
  | true =>
      rw [if_pos (hshows.mpr rfl), if_pos rfl, hget rfl, hsome, ← toList_dumpRegister _ (hname rfl),
        String.ofList_toList]
      rfl
  | false =>
      rw [if_neg (by simp [hshows]), if_neg Bool.false_ne_true, hnone]
      rfl

theorem numRs1_lt (word : BitVec 32) : Decoder.numRs1 word < 32 := (word.extractLsb' 15 5).isLt

theorem numRs2_lt (word : BitVec 32) : Decoder.numRs2 word < 32 := (word.extractLsb' 20 5).isLt

section Columns

variable (h : instr.Labelled word)
include h

theorem dumpRs1_eq :
    dumpRs1 instr = .ok (String.ofList (TraceLine.rs1Codec.write instr.line.rs1)) := by
  refine dump_column ?_ (fun hreads => ?_) (fun hreads => h.rs1 hreads ▸ numRs1_lt word) rfl rfl
  · cases instr.type <;> simp [Decoder.readsRs1]
  · unfold Instruction.getRs1
    cases htype : instr.type <;> simp_all [Decoder.readsRs1]

theorem dumpRs2_eq :
    dumpRs2 instr = .ok (String.ofList (TraceLine.rs2Codec.write instr.line.rs2)) := by
  refine dump_column ?_ (fun hreads => ?_) (fun hreads => h.rs2 hreads ▸ numRs2_lt word) rfl rfl
  · cases instr.type <;> simp [Decoder.readsRs2]
  · unfold Instruction.getRs2
    cases htype : instr.type <;> simp_all [Decoder.readsRs2]

theorem dumpRd_eq :
    dumpRd instr = .ok (String.ofList (TraceLine.rdCodec.write instr.line.rd)) := by
  refine dump_column ?_ (fun hwrites => if_pos hwrites)
    (fun hwrites => h.carries.rdName hwrites ▸ Decoder.numRd_lt word) rfl rfl
  cases instr.type <;> simp [InstrType.writesRd]

omit h in
theorem dumpImm_eq :
    dumpImm instr = .ok (String.ofList (TraceLine.immCodec.write instr.line.imm)) := by
  have hblank : TraceLine.immCodec.write none = List.replicate 16 ' ' := rfl
  have himm : TraceLine.immCodec.write (some instr.imm) =
      ("imm " ++ intToHex instr.imm ++ spaces (12 - (intToHex instr.imm).length)).toList := by
    rw [String.append_assoc, String.toList_append, toList_hex_padded]
    rfl
  cases htype : instr.type <;>
    simp [dumpImm, Instruction.line, Instruction.showsImm, Instruction.getImm, htype, himm, hblank,
      spaces] <;> rfl

theorem dumpText_eq (hname : instr.name ≠ .none) :
    dumpText instr = .ok (String.ofList (TraceLine.codec.write instr.line)) := by
  unfold dumpText
  rw [if_pos fun hnone => hname ((getInstrName_eq_iff _).mp hnone)]
  rw [dumpRs1_eq h, dumpRs2_eq h, dumpRd_eq h, dumpImm_eq]
  have hcodec : TraceLine.codec.write instr.line =
      ((toString instr.pc.toNat).toList ++ ['\n'] ++
        ((intToHex instr.pc ++ spaces (12 - (intToHex instr.pc).length)).toList ++
          ((getInstrName instr.name ++ spaces (12 - (getInstrName instr.name).length)).toList ++
            (TraceLine.rs1Codec.write instr.line.rs1 ++ (TraceLine.rs2Codec.write instr.line.rs2 ++
              (TraceLine.rdCodec.write instr.line.rd ++
                TraceLine.immCodec.write instr.line.imm)))))) ++ ['\n'] := by
    rw [toList_hex_padded, toList_padded, show (toString instr.pc.toNat).toList = _ from
      Nat.toList_repr]
    rfl
  refine congrArg Except.ok (String.toList_inj.mp ?_)
  rw [hcodec]
  simp only [String.toList_append, String.toList_ofList, List.append_assoc]
  rfl

end Columns

/-! ## The file -/

theorem dumpText_entry (h : instr.Labelled word) :
    dumpText instr = .ok (TraceLine.file instr.entry.toList) := by
  unfold Instruction.entry TraceLine.file
  split_ifs with hname
  · rw [dumpText, if_neg (not_not_intro ((getInstrName_eq_iff _).mpr hname))]
    rfl
  · rw [dumpText_eq h hname, Option.toList_some, List.flatMap_singleton]

theorem traceFile_eq {instrs : List Instruction} (h : ∀ instr ∈ instrs, instr.Decoded) :
    traceFile instrs = .ok (TraceLine.file (instrs.filterMap Instruction.entry)) := by
  have hfold (text : String) : instrs.foldlM (fun text instr => (text ++ ·) <$> dumpText instr)
      text = Except.ok (text ++ TraceLine.file (instrs.filterMap Instruction.entry)) := by
    induction instrs generalizing text with
    | nil => simp [TraceLine.file, pure, Except.pure]
    | cons instr instrs ih =>
        obtain ⟨word, hlabelled⟩ := h instr List.mem_cons_self
        have hlater := ih (fun i hi => h i (List.mem_cons_of_mem _ hi))
        rw [List.foldlM_cons, dumpText_entry hlabelled]
        refine (hlater _).trans ?_
        rw [String.append_assoc, TraceLine.file, TraceLine.file, ← String.ofList_append,
          ← List.flatMap_append]
        cases hentry : instr.entry <;> simp [TraceLine.file, hentry]
  rw [traceFile, hfold, String.empty_append]

theorem codec_write_ne_nil (line : TraceLine) : TraceLine.codec.write line ≠ [] :=
  List.append_ne_nil_of_right_ne_nil _ (List.cons_ne_nil _ _)

theorem parse_file (lines : List TraceLine) :
    TraceLine.parse (TraceLine.file lines) = some lines := by
  rw [TraceLine.parse, TraceLine.file, String.toList_ofList]
  exact TraceLine.codec.readAll_write (fun _ => trivial) codec_write_ne_nil _ _ le_rfl

theorem parse_of_traceFile {instrs : List Instruction} {text : String}
    (h : ∀ instr ∈ instrs, instr.Decoded) (htext : traceFile instrs = .ok text) :
    TraceLine.parse text = some (instrs.filterMap Instruction.entry) := by
  rw [traceFile_eq h, Except.ok.injEq] at htext
  rw [← htext, parse_file]

end PerfSim

end RiscvPerfSim
