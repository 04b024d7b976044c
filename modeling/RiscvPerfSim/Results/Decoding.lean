import RiscvPerfSim.Core.Encoding
import RiscvPerfSim.Core.Reachable

/-!
# Decoding

`Decoder::decode` undoes the encoding of every instruction of RV32I, and the
words that `recognize` names are legal encodings but for two unchecked fields.
-/

namespace RiscvPerfSim

open Foundation

/-! ## Decoding undoes encoding -/

namespace Foundation.Rv32i.Instr

variable {i : Instr} {r : Reg} {value : BitVec 32}

theorem rdOf_encode (h : i.rd = some r) : rdOf i.encode = r := by
  cases i <;> cases h
  case upper => exact rdOf_encU ..
  case jal => exact rdOf_encJ ..
  case jalr => exact rdOf_encI ..
  case load => exact rdOf_encI ..
  case opImm => exact rdOf_encI ..
  case shift => exact rdOf_encR ..
  case reg => exact rdOf_encR ..

theorem rs1Of_encode (h : i.rs1 = some r) : rs1Of i.encode = r := by
  cases i <;> cases h
  case jalr => exact rs1Of_encI ..
  case branch => exact rs1Of_encB ..
  case load => exact rs1Of_encI ..
  case store => exact rs1Of_encS ..
  case opImm => exact rs1Of_encI ..
  case shift => exact rs1Of_encR ..
  case reg => exact rs1Of_encR ..

theorem rs2Of_encode (h : i.rs2 = some r) : rs2Of i.encode = r := by
  cases i <;> cases h
  case branch => exact rs2Of_encB ..
  case store => exact rs2Of_encS ..
  case reg => exact rs2Of_encR ..

end Foundation.Rv32i.Instr

namespace Instruction

variable {instr : Instruction} {word : BitVec 32} {i : Rv32i.Instr}

theorem Carries.type_encode (h : instr.Carries i.encode) : instr.type = i.type := by
  rw [h.type, Decoder.recognize_encode]
  rfl

theorem Carries.getImm_encode (h : instr.Carries i.encode) {value : BitVec 32}
    (himm : i.imm = some value) : instr.getImm = .ok value := by
  rw [h.shaped.getImm, h.type_encode]
  cases i <;> cases himm
  case upper => exact congrArg Except.ok (Rv32i.immU_encU ..)
  case jal => exact congrArg Except.ok (Rv32i.immJ_encJ ..)
  case jalr => exact congrArg Except.ok (Rv32i.immI_encI ..)
  case branch => exact congrArg Except.ok (Rv32i.immB_encB ..)
  case load => exact congrArg Except.ok (Rv32i.immI_encI ..)
  case store => exact congrArg Except.ok (Rv32i.immS_encS ..)
  case opImm => exact congrArg Except.ok (Rv32i.immI_encI ..)

theorem Carries.getImm_shift (h : instr.Carries i.encode) {shamt : BitVec 5}
    (hshamt : i.shamt = some shamt) :
    ∃ value, instr.getImm = .ok value ∧ value.extractLsb' 0 5 = shamt := by
  rw [h.shaped.getImm, h.type_encode]
  cases i <;> cases hshamt
  case shift op rd rs1 =>
    exact ⟨_, rfl, (Rv32i.shamt_immI _).trans (Rv32i.rs2Of_encR ..)⟩

end Instruction

namespace Decoder

variable {env : Env} {dp : Datapath} {word : BitVec 32} {i : Rv32i.Instr}

/-! An operand whose register nobody has locked comes from the register file. -/

theorem readOperand_free (num : RegName) (needValueOn : PipelineStage)
    (hfree : dp.rf.isLock num = 0) :
    readOperand env dp num needValueOn = .ok (dp, dp.rf.regs num) := by
  rw [readOperand, if_neg (not_not_intro hfree), RegFile.getReg_snd]

theorem fill_rs1 (old : Instruction) (rs1 rs2 rd : Register)
    (h : readsRs1 (recognize word).type = true) : (fill old word rs1 rs2 rd).rs1 = rs1 := by
  rw [fill, finish_rs1]
  cases htype : (recognize word).type <;> simp [htype, readsRs1] at h ⊢

theorem fill_rs2 (old : Instruction) (rs1 rs2 rd : Register)
    (h : readsRs2 (recognize word).type = true) : (fill old word rs1 rs2 rd).rs2 = rs2 := by
  rw [fill, finish_rs2]
  cases htype : (recognize word).type <;> simp [htype, readsRs2] at h ⊢

private theorem readFields_free (env : Env) (word : BitVec 32) (old : Instruction)
    (hfree : ∀ num, dp.rf.isLock num = 0) :
    ∃ dp' object, readFields env dp (recognize word) word old = .ok (dp', object) ∧
      finish (recognize word) word object = fill old word (dp.rf.regs (numRs1 word))
        (dp.rf.regs (numRs2 word)) (dp.rf.regs (numRd word)) := by
  have hoperand (num : RegName) (stage : PipelineStage) :
      readOperand env dp num stage = .ok (dp, dp.rf.regs num) :=
    readOperand_free num stage (hfree num)
  unfold readFields fill
  cases htype : (recognize word).type <;>
    simp only [hoperand, lockRd_snd, bind, Except.bind, pure, Except.pure] <;>
    exact ⟨_, _, rfl, by rw [htype]⟩

theorem decode_free (env : Env) (word : BitVec 32) (hfree : ∀ num, dp.rf.isLock num = 0) :
    ∃ dp' ptr old, decode env dp word = .ok (dp', ptr) ∧ dp'.decoder.get ptr =
      fill old word (dp.rf.regs (numRs1 word)) (dp.rf.regs (numRs2 word))
        (dp.rf.regs (numRd word)) := by
  have htaken : ∀ num, (taken dp word).rf.isLock num = 0 := hfree
  obtain ⟨dp', object, hfields, hobject⟩ :=
    readFields_free env word (dp.decoder.get (dp.decoder.nextPtr (recognize word).type)) htaken
  rw [decode_eq, hfields]
  refine ⟨_, _, dp.decoder.get (dp.decoder.nextPtr (recognize word).type), rfl, ?_⟩
  rw [get_set_self, hobject]
  rfl

end Decoder

structure Instruction.Is (instr : Instruction) (i : Rv32i.Instr) : Prop where
  name : instr.name = i.name
  type : instr.type = i.type
  rd : ∀ r, i.rd = some r → instr.rd.name = r.toNat
  rs1 : ∀ r, i.rs1 = some r → instr.rs1.name = r.toNat
  rs2 : ∀ r, i.rs2 = some r → instr.rs2.name = r.toNat
  imm : ∀ value, i.imm = some value → instr.getImm = .ok value
  shamt : ∀ shamt, i.shamt = some shamt →
    ∃ value, instr.getImm = .ok value ∧ value.extractLsb' 0 5 = shamt
  access : instr.memAccType = i.access
  loadSize : i.access = .read → instr.loadSize = i.accessSize
  storeSize : i.access = .write → instr.storeSize = i.accessSize
  isBranch : instr.isBranch = i.jumps
  executor : instr.mainExecutor = i.name.executor

namespace Decoder

variable {env : Env} {dp : Datapath}

private theorem reads_of_fields {i : Rv32i.Instr} {r : Rv32i.Reg} :
    (i.rd = some r → i.type.writesRd = true) ∧ (i.rs1 = some r → readsRs1 i.type = true) ∧
      (i.rs2 = some r → readsRs2 i.type = true) := by
  refine ⟨?_, ?_, ?_⟩ <;> intro h <;> cases i <;> first | rfl | cases h

/-- In a register file without a lock, `decode` finds the instruction behind every encoding. -/
theorem decode_encode (env : Env) (hnamed : dp.rf.Named) (hfree : ∀ num, dp.rf.isLock num = 0)
    (i : Rv32i.Instr) :
    ∃ dp' ptr, decode env dp i.encode = .ok (dp', ptr) ∧ (dp'.decoder.get ptr).Is i := by
  obtain ⟨dp', ptr, old, hdecode, hobject⟩ := decode_free env i.encode hfree
  have hfound := recognize_encode i
  have htype : (recognize i.encode).type = i.type := congrArg Recognized.type hfound
  have hcarries : (dp'.decoder.get ptr).Carries i.encode := by
    rw [hobject]
    exact fill_carries _ _ _ _ (hnamed _)
  refine ⟨dp', ptr, hdecode, ?_⟩
  constructor
  case name => exact hcarries.name.trans (congrArg Recognized.name hfound)
  case type => exact hcarries.type_encode
  case rd =>
    intro r hr
    rw [hcarries.rdName (by rw [hcarries.type_encode]; exact reads_of_fields.1 hr)]
    exact congrArg BitVec.toNat (Rv32i.Instr.rdOf_encode hr)
  case rs1 =>
    intro r hr
    rw [hobject, fill_rs1 _ _ _ _ (by rw [htype]; exact reads_of_fields.2.1 hr), hnamed]
    exact congrArg BitVec.toNat (Rv32i.Instr.rs1Of_encode hr)
  case rs2 =>
    intro r hr
    rw [hobject, fill_rs2 _ _ _ _ (by rw [htype]; exact reads_of_fields.2.2 hr), hnamed]
    exact congrArg BitVec.toNat (Rv32i.Instr.rs2Of_encode hr)
  case imm => exact fun value himm => hcarries.getImm_encode himm
  case shamt => exact fun shamt hshamt => hcarries.getImm_shift hshamt
  case access => exact hcarries.memAccType.trans (congrArg Recognized.memAccType hfound)
  case loadSize =>
    intro hread
    have hi : (dp'.decoder.get ptr).type = .i := by
      rw [hcarries.type_encode]
      cases i <;> first | rfl | cases hread
    exact (hcarries.loadSize hi).trans (congrArg Recognized.accSize hfound)
  case storeSize =>
    intro hwrite
    have hs : (dp'.decoder.get ptr).type = .s := by
      rw [hcarries.type_encode]
      cases i <;> first | rfl | cases hwrite
    exact (hcarries.storeSize hs).trans (congrArg Recognized.accSize hfound)
  case isBranch => exact hcarries.isBranch.trans (congrArg Recognized.isBranch hfound)
  case executor => exact hcarries.executor.trans (congrArg Recognized.executor hfound)

/-- `BGE x3, x4, -2046` before the first instruction of a run. -/
theorem decode_encode_bge :
    let dp := (PerfSim.bootWords 8 []).toDatapath
    ∃ dp' ptr, decode .plain dp (Rv32i.Instr.branch .bge 3 4 0xc01).encode = .ok (dp', ptr) ∧
      (dp'.decoder.get ptr).Is (.branch .bge 3 4 0xc01) :=
  decode_encode .plain (fun _ => rfl) (fun _ => rfl) _

/-! ## Only legal encodings -/

/-- The word encodes the instruction that `recognize` names. -/
def Legal (word : BitVec 32) : Prop :=
  ∃ i : Rv32i.Instr, i.encode = word ∧ i.name = (recognize word).name

section Names

variable {funct3 : BitVec 3} {funct7 : BitVec 7}

private theorem recognizeBranch_name (h : (recognizeBranch funct3).name ≠ .none) :
    ∃ op : Rv32i.BranchOp, funct3 = op.funct3 ∧ op.name = (recognizeBranch funct3).name := by
  unfold recognizeBranch at h ⊢
  split_ifs at h ⊢ with h0 h1 h4 h5 h6 h7
  · exact ⟨.beq, h0, rfl⟩
  · exact ⟨.bne, h1, rfl⟩
  · exact ⟨.blt, h4, rfl⟩
  · exact ⟨.bge, h5, rfl⟩
  · exact ⟨.bltu, h6, rfl⟩
  · exact ⟨.bgeu, h7, rfl⟩
  · exact absurd rfl h

private theorem recognizeLoad_name (h : (recognizeLoad funct3).name ≠ .none) :
    ∃ op : Rv32i.LoadOp, funct3 = op.funct3 ∧ op.name = (recognizeLoad funct3).name := by
  unfold recognizeLoad at h ⊢
  split_ifs at h ⊢ with h0 h1 h2 h4 h5
  · exact ⟨.lb, h0, rfl⟩
  · exact ⟨.lh, h1, rfl⟩
  · exact ⟨.lw, h2, rfl⟩
  · exact ⟨.lbu, h4, rfl⟩
  · exact ⟨.lhu, h5, rfl⟩
  · exact absurd rfl h

private theorem recognizeStore_name (h : (recognizeStore funct3).name ≠ .none) :
    ∃ op : Rv32i.StoreOp, funct3 = op.funct3 ∧ op.name = (recognizeStore funct3).name := by
  unfold recognizeStore at h ⊢
  split_ifs at h ⊢ with h0 h1 h2
  · exact ⟨.sb, h0, rfl⟩
  · exact ⟨.sh, h1, rfl⟩
  · exact ⟨.sw, h2, rfl⟩
  · exact absurd rfl h

private theorem recognizeOpImm_name (h : (recognizeOpImm funct3 funct7).name ≠ .none) :
    (∃ op : Rv32i.ImmOp, funct3 = op.funct3 ∧
        op.name = (recognizeOpImm funct3 funct7).name) ∨
      ∃ op : Rv32i.ShiftOp, funct3 = op.funct3 ∧ (funct3 ≠ 0b001 → funct7 = op.funct7) ∧
        (funct3 = 0b001 → op = .slli) ∧ op.name = (recognizeOpImm funct3 funct7).name := by
  unfold recognizeOpImm at h ⊢
  split_ifs at h ⊢ with h1 h5 hsrli hsrai h0 h2 h3 h4 h6 h7
  · exact .inr ⟨.slli, h1, fun hne => absurd h1 hne, fun _ => rfl, rfl⟩
  · exact .inr ⟨.srli, h5, fun _ => hsrli, fun h => absurd h h1, rfl⟩
  · exact .inr ⟨.srai, h5, fun _ => hsrai, fun h => absurd h h1, rfl⟩
  · exact absurd rfl h
  · exact .inl ⟨.addi, h0, rfl⟩
  · exact .inl ⟨.slti, h2, rfl⟩
  · exact .inl ⟨.sltiu, h3, rfl⟩
  · exact .inl ⟨.xori, h4, rfl⟩
  · exact .inl ⟨.ori, h6, rfl⟩
  · exact .inl ⟨.andi, h7, rfl⟩
  · exact absurd rfl h

private theorem recognizeOpPlain_name {name : InstrName} {executor : Executor}
    (h : (recognizeOpPlain funct7 name executor).name ≠ .none) :
    funct7 = 0b0000000 ∧ (recognizeOpPlain funct7 name executor).name = name := by
  unfold recognizeOpPlain at h ⊢
  split_ifs at h ⊢ with h0
  · exact ⟨h0, rfl⟩
  · exact absurd rfl h

private theorem recognizeOpPair_name {name altName : InstrName}
    {executor altExecutor : Executor}
    (h : (recognizeOpPair funct7 name executor altName altExecutor).name ≠ .none) :
    funct7 = 0b0000000 ∧
        (recognizeOpPair funct7 name executor altName altExecutor).name = name ∨
      funct7 = 0b0100000 ∧
        (recognizeOpPair funct7 name executor altName altExecutor).name = altName := by
  unfold recognizeOpPair at h ⊢
  split_ifs at h ⊢ with h0 h1
  · exact .inl ⟨h0, rfl⟩
  · exact .inr ⟨h1, rfl⟩
  · exact absurd rfl h

private theorem recognizeOp_name (h : (recognizeOp funct3 funct7).name ≠ .none) :
    ∃ op : Rv32i.RegOp, funct3 = op.funct3 ∧ funct7 = op.funct7 ∧
      op.name = (recognizeOp funct3 funct7).name := by
  unfold recognizeOp at h ⊢
  split_ifs at h ⊢ with h0 h1 h2 h3 h4 h5 h6 h7
  · rcases recognizeOpPair_name h with ⟨h7, hname⟩ | ⟨h7, hname⟩
    · exact ⟨.add, h0, h7, hname.symm⟩
    · exact ⟨.sub, h0, h7, hname.symm⟩
  · exact ⟨.sll, h1, (recognizeOpPlain_name h).1, (recognizeOpPlain_name h).2.symm⟩
  · exact ⟨.slt, h2, (recognizeOpPlain_name h).1, (recognizeOpPlain_name h).2.symm⟩
  · exact ⟨.sltu, h3, (recognizeOpPlain_name h).1, (recognizeOpPlain_name h).2.symm⟩
  · exact ⟨.xor, h4, (recognizeOpPlain_name h).1, (recognizeOpPlain_name h).2.symm⟩
  · rcases recognizeOpPair_name h with ⟨h7, hname⟩ | ⟨h7, hname⟩
    · exact ⟨.srl, h5, h7, hname.symm⟩
    · exact ⟨.sra, h5, h7, hname.symm⟩
  · exact ⟨.or, h6, (recognizeOpPlain_name h).1, (recognizeOpPlain_name h).2.symm⟩
  · exact ⟨.and, h7, (recognizeOpPlain_name h).1, (recognizeOpPlain_name h).2.symm⟩
  · exact absurd rfl h

end Names

variable {word : BitVec 32}

/-- The two fields that `recognize` does not look at. -/
structure FieldsSet (word : BitVec 32) : Prop where
  jalr : opcodeOf word = 0b1100111 → funct3Of word = 0b000
  slli : opcodeOf word = 0b0010011 → funct3Of word = 0b001 → funct7Of word = 0b0000000

private theorem legal_opImm (hopcode : opcodeOf word = 0b0010011)
    (hslli : funct3Of word = 0b001 → funct7Of word = 0b0000000)
    (hname : (recognize word).name ≠ .none) : Legal word := by
  rw [recognize_opImm hopcode] at hname
  rw [Legal, recognize_opImm hopcode]
  rcases recognizeOpImm_name hname with ⟨op, hfunct3, hop⟩ | ⟨op, hfunct3, hother, hone, hop⟩
  · have hword := Rv32i.encI_fields word
    rw [show Rv32i.opcodeOf word = _ from hopcode, show Rv32i.funct3Of word = _ from hfunct3]
      at hword
    exact ⟨.opImm op _ _ _, hword, hop⟩
  · have hword := Rv32i.encR_fields word
    have hfunct7 : funct7Of word = op.funct7 := by
      by_cases h : funct3Of word = 0b001
      · rw [hone h, hslli h]
        rfl
      · exact hother h
    rw [show Rv32i.opcodeOf word = _ from hopcode, show Rv32i.funct3Of word = _ from hfunct3,
      show Rv32i.funct7Of word = _ from hfunct7] at hword
    exact ⟨.shift op _ _ _, hword, hop⟩

private theorem legal_op (hopcode : opcodeOf word = 0b0110011)
    (hname : (recognize word).name ≠ .none) : Legal word := by
  rw [recognize_op hopcode] at hname
  obtain ⟨op, hfunct3, hfunct7, hop⟩ := recognizeOp_name hname
  have hword := Rv32i.encR_fields word
  rw [show Rv32i.opcodeOf word = _ from hopcode, show Rv32i.funct3Of word = _ from hfunct3,
    show Rv32i.funct7Of word = _ from hfunct7] at hword
  exact ⟨.reg op _ _ _, hword, by rw [recognize_op hopcode]; exact hop⟩

private theorem legal_branch (hopcode : opcodeOf word = 0b1100011)
    (hname : (recognize word).name ≠ .none) : Legal word := by
  rw [recognize_branch hopcode] at hname
  obtain ⟨op, hfunct3, hop⟩ := recognizeBranch_name hname
  have hword := Rv32i.encB_fields word
  rw [show Rv32i.opcodeOf word = _ from hopcode, show Rv32i.funct3Of word = _ from hfunct3]
    at hword
  exact ⟨.branch op _ _ _, hword, by rw [recognize_branch hopcode]; exact hop⟩

private theorem legal_load (hopcode : opcodeOf word = 0b0000011)
    (hname : (recognize word).name ≠ .none) : Legal word := by
  rw [recognize_load hopcode] at hname
  obtain ⟨op, hfunct3, hop⟩ := recognizeLoad_name hname
  have hword := Rv32i.encI_fields word
  rw [show Rv32i.opcodeOf word = _ from hopcode, show Rv32i.funct3Of word = _ from hfunct3]
    at hword
  exact ⟨.load op _ _ _, hword, by rw [recognize_load hopcode]; exact hop⟩

private theorem legal_store (hopcode : opcodeOf word = 0b0100011)
    (hname : (recognize word).name ≠ .none) : Legal word := by
  rw [recognize_store hopcode] at hname
  obtain ⟨op, hfunct3, hop⟩ := recognizeStore_name hname
  have hword := Rv32i.encS_fields word
  rw [show Rv32i.opcodeOf word = _ from hopcode, show Rv32i.funct3Of word = _ from hfunct3]
    at hword
  exact ⟨.store op _ _ _, hword, by rw [recognize_store hopcode]; exact hop⟩

private theorem legal_upper (op : Rv32i.UpperOp) (hopcode : opcodeOf word = op.opcode) :
    Legal word := by
  have hword := Rv32i.encU_fields word
  rw [show Rv32i.opcodeOf word = _ from hopcode] at hword
  exact ⟨.upper op _ _, hword, by rw [recognize_upper op hopcode]; rfl⟩

private theorem legal_jal (hopcode : opcodeOf word = 0b1101111) : Legal word := by
  have hword := Rv32i.encJ_fields word
  rw [show Rv32i.opcodeOf word = _ from hopcode] at hword
  exact ⟨.jal _ _, hword, by rw [recognize_jal hopcode]; rfl⟩

private theorem legal_jalr (hopcode : opcodeOf word = 0b1100111)
    (hfunct3 : funct3Of word = 0b000) : Legal word := by
  have hword := Rv32i.encI_fields word
  rw [show Rv32i.opcodeOf word = _ from hopcode, show Rv32i.funct3Of word = _ from hfunct3]
    at hword
  exact ⟨.jalr _ _ _, hword, by rw [recognize_jalr hopcode]; rfl⟩

theorem legal_of_fieldsSet (h : FieldsSet word) (hname : (recognize word).name ≠ .none) :
    Legal word := by
  by_cases hlui : opcodeOf word = 0b0110111
  · exact legal_upper .lui hlui
  by_cases hauipc : opcodeOf word = 0b0010111
  · exact legal_upper .auipc hauipc
  by_cases hjal : opcodeOf word = 0b1101111
  · exact legal_jal hjal
  by_cases hjalr : opcodeOf word = 0b1100111
  · exact legal_jalr hjalr (h.jalr hjalr)
  by_cases hbranch : opcodeOf word = 0b1100011
  · exact legal_branch hbranch hname
  by_cases hload : opcodeOf word = 0b0000011
  · exact legal_load hload hname
  by_cases hstore : opcodeOf word = 0b0100011
  · exact legal_store hstore hname
  by_cases himm : opcodeOf word = 0b0010011
  · exact legal_opImm himm (h.slli himm) hname
  by_cases hop : opcodeOf word = 0b0110011
  · exact legal_op hop hname
  simp only [recognize, hlui, hauipc, hjal, hjalr, hbranch, hload, hstore, himm, hop,
    if_false] at hname
  split_ifs at hname with hsystem hecall
  · refine ⟨.ecall, hecall.symm, ?_⟩
    rw [hecall]
    rfl
  · exact absurd rfl hname
  · exact absurd rfl hname

theorem fieldsSet_of_legal (h : (recognize word).name ≠ .none → Legal word) :
    FieldsSet word := by
  constructor
  case jalr =>
    intro hopcode
    rw [recognize_jalr hopcode] at h
    obtain ⟨i, rfl, hname⟩ := h (by decide)
    rw [recognize_jalr hopcode] at hname
    cases i with
    | jalr rd rs1 imm => exact Rv32i.funct3Of_encI ..
    | jal => cases hname
    | ecall => cases hname
    | upper op | branch op | load op | store op | opImm op | shift op | reg op =>
        cases op <;> cases hname
  case slli =>
    intro hopcode hfunct3
    have hslli : (recognize word).name = .slli := by
      rw [recognize_opImm hopcode, recognizeOpImm, if_pos hfunct3]
    obtain ⟨i, rfl, hname⟩ := h (by rw [hslli]; decide)
    rw [hslli] at hname
    cases i with
    | shift op rd rs1 shamt =>
        refine (Rv32i.funct7Of_encR ..).trans ?_
        cases op with
        | slli => rfl
        | srli => cases hname
        | srai => cases hname
    | jal => cases hname
    | jalr => cases hname
    | ecall => cases hname
    | upper op | branch op | load op | store op | opImm op | reg op =>
        cases op <;> cases hname

/-- A named word is legal, except where a field is wrong that `recognize` does not test. -/
theorem recognize_legal_iff (word : BitVec 32) :
    ((recognize word).name ≠ .none → Legal word) ↔ FieldsSet word :=
  ⟨fieldsSet_of_legal, fun h hname => legal_of_fieldsSet h hname⟩

/-- `SLLI x1, x2, 3` with `funct7 = 1`, and `JALR x1, 0(x2)` with `funct3 = 2`. -/
theorem recognize_illegal :
    (recognize 0x02311093#32).name = .slli ∧ ¬ Legal 0x02311093#32 ∧
      (recognize 0x000120e7#32).name = .jalr ∧ ¬ Legal 0x000120e7#32 := by
  refine ⟨rfl, fun h => ?_, rfl, fun h => ?_⟩
  · exact absurd ((fieldsSet_of_legal fun _ => h).slli rfl rfl) (by decide)
  · exact absurd ((fieldsSet_of_legal fun _ => h).jalr rfl) (by decide)

end Decoder

end RiscvPerfSim
