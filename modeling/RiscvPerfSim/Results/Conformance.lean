import Mathlib.Tactic.IntervalCases
import RiscvPerfSim.Core.Effects
import RiscvPerfSim.Foundation.Hart
import RiscvPerfSim.Results.Access
import RiscvPerfSim.Results.Arithmetic
import RiscvPerfSim.Results.Control
import RiscvPerfSim.Results.Decoding

/-!
# Conformance

One instruction of the sequential machine is one instruction of an RV32I hart,
but for the executors that compute something else.
-/

namespace RiscvPerfSim

open Foundation

/-! ## What the code makes of an instruction -/

namespace Foundation.Rv32i.Instr

def computed (env : Env) (i : Instr) (h : Hart) : Hart :=
  match i with
  | .jalr rd rs1 imm => (h.put rd (h.pc + 4)).goto (h.get rs1 + imm.signExtend 32)
  | .load op rd rs1 imm => (h.put rd (op.computed (h.load (address h rs1 imm)))).next
  | .opImm op rd rs1 imm => (h.put rd (op.computed (h.get rs1) (imm.signExtend 32))).next
  | .reg op rd rs1 rs2 => (h.put rd (op.computed env (h.get rs1) (h.get rs2))).next
  | i => i.exec h

/-- What the instruction meets on the hart is something that its executor gets right. -/
def Faithful (i : Instr) (h : Hart) : Prop :=
  match i with
  | .jalr _ rs1 imm => (h.get rs1 + imm.signExtend 32).getLsbD 0 = false
  | .load op rd rs1 imm => rd = 0 ∨ op.Survives (h.load (address h rs1 imm))
  | .opImm .xori rd rs1 imm | .opImm .andi rd rs1 imm =>
      rd = 0 ∨ h.get rs1 = 0 ∧ imm.signExtend 32 = 0
  | .reg .sll rd _ rs2 | .reg .srl rd _ rs2 | .reg .sra rd _ rs2 =>
      rd = 0 ∨ (h.get rs2).toNat < 32
  | _ => True

private theorem put_next_iff (h : Hart) (rd : Reg) (values : Env → BitVec 32)
    (value : BitVec 32) :
    (∀ env, (h.put rd (values env)).next = (h.put rd value).next) ↔
      rd = 0 ∨ ∀ env, values env = value := by
  constructor
  · intro heq
    by_cases hzero : rd = 0
    · exact .inl hzero
    · refine .inr fun env => ?_
      have hput : h.put rd (values env) = h.put rd value :=
        Hart.ext (congrArg (fun h => h.regs) (heq env)) rfl rfl
      exact ((h.put_eq_iff _ _).mp hput).resolve_left hzero
  · intro hvalues env
    rw [(h.put_eq_iff (values env) value).mpr (hvalues.imp_right fun hall => hall env)]

/-- The executors compute what the instruction is to do, whatever C++ leaves open. -/
theorem computed_eq_exec_iff (i : Instr) (h : Hart) :
    (∀ env, i.computed env h = i.exec h) ↔ i.Faithful h := by
  cases i with
  | upper | jal | branch | store | shift | ecall => exact iff_of_true (fun _ => rfl) trivial
  | jalr rd rs1 imm =>
      have himm : immI (jalr rd rs1 imm).encode = imm.signExtend 32 := immI_encI ..
      have htarget : ControlOp.jalr.target (jalr rd rs1 imm).encode h.pc (h.get rs1) =
          ControlOp.jalr.next (jalr rd rs1 imm).encode h.pc (h.get rs1) 0 ↔ _ :=
        ControlOp.target_eq_next_iff rfl
      rw [ControlOp.target, ControlOp.next, himm, BitVec.add_comm] at htarget
      constructor
      · intro heq
        exact htarget.mp (congrArg (fun h => h.pc) (heq .plain)) rfl
      · intro heven env
        exact congrArg _ (htarget.mpr fun _ => heven)
  | load op rd rs1 imm =>
      refine (put_next_iff h rd (fun _ => _) _).trans (or_congr Iff.rfl ?_)
      rw [← op.computed_eq_iff]
      exact ⟨fun heq => heq .plain, fun heq _ => heq⟩
  | opImm op rd rs1 imm =>
      refine (put_next_iff h rd (fun _ => _) _).trans ?_
      have himm : immI (opImm op rd rs1 imm).encode = imm.signExtend 32 := immI_encI ..
      have halu : (∀ _ : Env, op.computed (h.get rs1) (imm.signExtend 32) =
          op.value (h.get rs1) (imm.signExtend 32)) ↔
            (AluOp.imm op).Agrees (opImm op rd rs1 imm).encode (h.get rs1) 0 := by
        rw [← himm]
        exact AluOp.computed_eq_iff (.imm op) _ 0 _ 0
      rw [halu]
      cases op <;> simp [Faithful, AluOp.Agrees, himm]
  | reg op rd rs1 rs2 =>
      refine (put_next_iff h rd (fun env => op.computed env _ _) _).trans ?_
      have halu : (∀ env, op.computed env (h.get rs1) (h.get rs2) =
          op.value (h.get rs1) (h.get rs2)) ↔
            (AluOp.reg op).Agrees 0 (h.get rs1) (h.get rs2) :=
        AluOp.computed_eq_iff (.reg op) 0 0 _ _
      rw [halu]
      cases op <;> simp [Faithful, AluOp.Agrees]

end Foundation.Rv32i.Instr

/-! ## One instruction -/

namespace Seq

def hart (q : Seq) : Rv32i.Hart where
  regs := fun r => (q.rf.regs r.toNat).value
  bytes := fun a => q.memory.bytes a.toNat
  pc := q.pc

variable {env : Env} {q q' : Seq} {instr : Instruction} {i : Rv32i.Instr} {r : Rv32i.Reg}

theorem get_hart (hzero : (q.rf.regs 0).value = 0) (r : Rv32i.Reg) :
    q.hart.get r = (q.rf.regs r.toNat).value := by
  unfold Rv32i.Hart.get
  split_ifs with hr
  · rw [hr]
    exact hzero.symm
  · rfl

theorem decode_rs1 (hzero : (q.rf.regs 0).value = 0) (hrs1 : i.rs1 = some r) :
    (q.decode i.encode).rs1.value = q.hart.get r := by
  have hreads : Decoder.readsRs1 (Decoder.recognize i.encode).type = true := by
    rw [Decoder.recognize_encode]
    cases i <;> first | rfl | cases hrs1
  have hfill := Decoder.fill_rs1 {} (q.rf.regs (Decoder.numRs1 i.encode))
    (q.rf.regs (Decoder.numRs2 i.encode)) (q.rf.regs (Decoder.numRd i.encode)) hreads
  rw [get_hart hzero, ← Rv32i.Instr.rs1Of_encode hrs1]
  exact congrArg Register.value hfill

theorem decode_rs2 (hzero : (q.rf.regs 0).value = 0) (hrs2 : i.rs2 = some r) :
    (q.decode i.encode).rs2.value = q.hart.get r := by
  have hreads : Decoder.readsRs2 (Decoder.recognize i.encode).type = true := by
    rw [Decoder.recognize_encode]
    cases i <;> first | rfl | cases hrs2
  have hfill := Decoder.fill_rs2 {} (q.rf.regs (Decoder.numRs1 i.encode))
    (q.rf.regs (Decoder.numRs2 i.encode)) (q.rf.regs (Decoder.numRd i.encode)) hreads
  rw [get_hart hzero, ← Rv32i.Instr.rs2Of_encode hrs2]
  exact congrArg Register.value hfill

theorem load_hart (hsize : q.memory.size ≤ 2 ^ 31) {addr : BitVec 32} {count k : Nat}
    (hrange : addr.toNat + count ≤ q.memory.size) (hk : k < count) :
    q.hart.load addr k = q.memory.bytes (addr.toNat + k) := by
  have hsum : (addr + BitVec.ofNat 32 k).toNat = addr.toNat + k := by
    rw [BitVec.toNat_add, BitVec.toNat_ofNat]
    omega
  exact congrArg q.memory.bytes hsum

theorem word_hart (hsize : q.memory.size ≤ 2 ^ 31) (hpc : q.pc.toNat + 4 ≤ q.memory.size) :
    q.hart.word q.hart.pc = q.word := by
  have hload (k : Nat) (hk : k < 4) : q.hart.load q.pc k = q.memory.bytes (q.pc.toNat + k) :=
    load_hart hsize hpc hk
  rw [word, Memory.read_of_inRange 0 hpc, Word.overlay_full]
  exact (Rv32i.LoadOp.congr .lw hload).1

theorem executing_load (env : Env) (hnamed : q.rf.Named) (hword : q.word = i.encode)
    (op : Rv32i.LoadOp) (hname : i.name = op.name) :
    q.executing env = { q.decode i.encode with
      loadAddres := Rv32i.immI i.encode + (q.decode i.encode).rs1.value } := by
  have hshaped : (q.decode i.encode).Shaped i.encode := (decode_carries hnamed i.encode).shaped
  have hexec := (hshaped.execute_load env op
    ((congrArg Recognized.name (Decoder.recognize_encode i)).trans hname)).2
  rw [executing, hword, Instruction.executed, hexec]

theorem executing_store (env : Env) (hnamed : q.rf.Named) (hword : q.word = i.encode)
    (op : Rv32i.StoreOp) (hname : i.name = op.name) :
    q.executing env = { q.decode i.encode with
      storeAddres := Rv32i.immS i.encode + (q.decode i.encode).rs1.value } := by
  have hshaped : (q.decode i.encode).Shaped i.encode := (decode_carries hnamed i.encode).shaped
  have hexec := (hshaped.execute_store env op
    ((congrArg Recognized.name (Decoder.recognize_encode i)).trans hname)).2
  rw [executing, hword, Instruction.executed, hexec]

namespace Stepped

section Effects

variable (h : Stepped env q instr q') (hword : q.word = i.encode)
include h hword

theorem regs_of_rd (hrd : i.rd = some r) : q'.hart.regs = (q.hart.put r instr.rd.value).regs := by
  have hcarries : instr.Carries i.encode := hword ▸ h.instr_carries
  have hwrites : instr.type.writesRd = true := by
    rw [hcarries.type_encode]
    cases i <;> first | rfl | cases hrd
  have hname : instr.rd.name = r.toNat := by
    rw [hcarries.rdName hwrites, ← Rv32i.Instr.rdOf_encode hrd]
    rfl
  funext r'
  refine (h.regs r'.toNat).trans ?_
  have hiff : (instr.writes r'.toNat ∧ r'.toNat ≠ 0) ↔ (r' = r ∧ r' ≠ 0) := by
    rw [Instruction.writes, hwrites, hname, Bool.true_and, decide_eq_true_eq, BitVec.toNat_inj,
      eq_comm, ← BitVec.toNat_ne_iff_ne]
    rfl
  rw [if_congr hiff rfl rfl]
  rfl

theorem regs_of_none (hrd : i.rd = none) : q'.hart.regs = q.hart.regs := by
  have hcarries : instr.Carries i.encode := hword ▸ h.instr_carries
  have hwrites : instr.type.writesRd = false := by
    rw [hcarries.type_encode]
    cases i <;> first | rfl | cases hrd
  funext r'
  refine (h.regs r'.toNat).trans (if_neg ?_)
  simp [Instruction.writes, hwrites]

theorem memory_of_access (haccess : i.access ≠ .write) : q'.memory = q.memory := by
  have hcarries : (q.executing env).Carries i.encode := hword ▸ h.carries
  have hnot : ¬ ((q.executing env).memAccType = .write ∧ (q.executing env).type = .s) := by
    rw [hcarries.memAccType, Decoder.recognize_encode]
    exact fun hwrite => haccess hwrite.1
  rw [h.memory, Instruction.pending, if_neg hnot]
  rfl

theorem instr_of_access (haccess : i.access ≠ .read) : instr = q.executing env := by
  have hcarries : (q.executing env).Carries i.encode := hword ▸ h.carries
  have hload := h.load
  rw [Core.loadEffect_of_ne] at hload
  · exact (Except.ok.inj hload).symm
  · rw [hcarries.memAccType, Decoder.recognize_encode]
    exact haccess

theorem pc_of_jumps (hjumps : i.jumps = false) : q'.pc = q.pc + 4 := by
  have hcarries : (q.executing env).Carries i.encode := hword ▸ h.carries
  have hbranch : (q.executing env).isBranch = false := by
    rw [hcarries.isBranch, Decoder.recognize_encode]
    exact hjumps
  have htarget : (q.executing env).target = none := by
    simp [Instruction.target, PerfSim.transfers, hbranch]
  rw [h.pc, htarget]
  rfl

end Effects

theorem inRange (h : Stepped env q instr q') (hword : q.word = i.encode) :
    (q.executing env).InRange q.memory := by
  have hcarries : (q.executing env).Carries i.encode := hword ▸ h.carries
  have hsound := Decoder.recognize_sound i.encode
  constructor
  case load =>
    intro hread
    have htype := hcarries.type.trans (hsound.read (hcarries.memAccType ▸ hread)).1
    have hmemory : q'.memory = q.memory := h.memory_of_access hword fun hwrite => by
      rw [hcarries.memAccType, Decoder.recognize_encode] at hread
      exact absurd (hread.symm.trans hwrite) (by decide)
    have hload := h.load
    rw [hmemory, Core.loadEffect, if_pos ⟨hread, htype⟩] at hload
    obtain ⟨data, hdata, -⟩ := ok_of_bind hload
    exact Memory.inRange_of_read hdata
  case store =>
    intro hwrite
    have htype := hcarries.type.trans (hsound.write (hcarries.memAccType ▸ hwrite)).1
    have hfits := h.fits
    rw [Instruction.pending, if_pos ⟨hwrite, htype⟩] at hfits
    exact hfits.inRange (hcarries.asStore_size hwrite htype).1

theorem hart_of_rd (h : Stepped env q instr q') (hword : q.word = i.encode) (hrd : i.rd = some r)
    (haccess : i.access ≠ .write) (hjumps : i.jumps = false) :
    q'.hart = (q.hart.put r instr.rd.value).next := by
  apply Rv32i.Hart.ext
  · exact h.regs_of_rd hword hrd
  · exact congrArg (fun (memory : Memory) (a : BitVec 32) => memory.bytes a.toNat)
      (h.memory_of_access hword haccess)
  · exact h.pc_of_jumps hword hjumps

section Classes

variable (hnamed : q.rf.Named) (hzero : (q.rf.regs 0).value = 0) (h : Stepped env q instr q')
  (hword : q.word = i.encode)
include hnamed hword

include h in
theorem rd_alu (alu : Rv32i.AluOp) (hname : i.name = alu.name) (haccess : i.access = .none) :
    instr.rd.value = alu.computed env i.encode q.pc (q.decode i.encode).rs1.value
      (q.decode i.encode).rs2.value := by
  have hshaped : (q.decode i.encode).Shaped i.encode := (decode_carries hnamed i.encode).shaped
  have hexec : (q.decode i.encode).execute env = _ := hshaped.execute_alu alu
    ((congrArg Recognized.name (Decoder.recognize_encode i)).trans hname)
  rw [h.instr_of_access hword (by simp [haccess]), executing, hword, Instruction.executed, hexec]
  rfl

variable (env) in
theorem resolved (op : Rv32i.ControlOp) (hname : i.name = op.name) :
    (q.decode i.encode).Resolved i.encode op (q.executing env) := by
  have hshaped : (q.decode i.encode).Shaped i.encode := (decode_carries hnamed i.encode).shaped
  obtain ⟨done, hexec, hresolved⟩ := hshaped.execute_control env op
    ((congrArg Recognized.name (Decoder.recognize_encode i)).trans hname)
  rw [executing, hword, Instruction.executed, hexec]
  exact hresolved

include h in
theorem pc_control (op : Rv32i.ControlOp) (hname : i.name = op.name) :
    q'.pc = if op.taken (q.decode i.encode).rs1.value (q.decode i.encode).rs2.value then
      op.target i.encode q.pc (q.decode i.encode).rs1.value else q.pc + 4 := by
  have hresolved := resolved env hnamed hword op hname
  rw [h.pc, Instruction.target, hresolved.transfers, hresolved.target]
  split_ifs <;> rfl

include h in
theorem hart_link (op : Rv32i.ControlOp) (hname : i.name = op.name) (hlinks : op.links = true)
    (hrd : i.rd = some r) (haccess : i.access = .none) :
    q'.hart = (q.hart.put r (q.pc + 4)).goto q'.pc := by
  have hinstr := h.instr_of_access hword (by simp [haccess])
  have hvalue : instr.rd.value = q.pc + 4 := by
    rw [hinstr]
    exact (resolved env hnamed hword op hname).link hlinks
  apply Rv32i.Hart.ext
  · rw [h.regs_of_rd hword hrd, hvalue]
    rfl
  · exact congrArg (fun (memory : Memory) (a : BitVec 32) => memory.bytes a.toNat)
      (h.memory_of_access hword (by simp [haccess]))
  · rfl

end Classes

end Stepped

/-! ## Loads and stores -/

theorem effective_le_iff {size count : Nat} (hsize : size ≤ 2 ^ 31) (hcount : 0 < count)
    (a imm : BitVec 32) :
    PerfSim.effective a imm + count ≤ size ↔ (a + imm).toNat + count ≤ size := by
  rw [PerfSim.effective_inRange_iff hsize hcount]
  constructor
  · exact fun h => h.2
  · intro hrange
    refine ⟨?_, hrange⟩
    have haddr := toAddress_toNat (a + imm)
    have hsigned := BitVec.toInt_eq_toNat_cond (a + imm)
    rw [PerfSim.effective]
    split_ifs at haddr hsigned <;> omega

section Accesses

variable (env) {rd rs1 rs2 : Rv32i.Reg} {imm : BitVec 12} (hnamed : q.rf.Named)
  (hzero : (q.rf.regs 0).value = 0)
include hnamed

theorem executing_carries (hword : q.word = i.encode) : (q.executing env).Carries i.encode :=
  hword ▸ (decode_carries hnamed q.word).executed

theorem executing_access (hword : q.word = i.encode) :
    (q.executing env).memAccType = i.access := by
  rw [(executing_carries env hnamed hword).memAccType, Decoder.recognize_encode]
  rfl

include hzero

theorem address_load {op : Rv32i.LoadOp}
    (hword : q.word = (Rv32i.Instr.load op rd rs1 imm).encode) :
    (toAddress (q.executing env).loadAddres).toNat =
        PerfSim.effective (q.hart.get rs1) (imm.signExtend 32) ∧
      (toAddress (q.executing env).loadSize).toNat = op.width := by
  have hcarries := executing_carries env hnamed hword
  constructor
  · rw [executing_load env hnamed hword op rfl]
    simp only [decode_rs1 hzero (i := .load op rd rs1 imm) rfl]
    rw [PerfSim.effective, BitVec.add_comm]
    congr 3
    exact Rv32i.immI_encI ..
  · rw [hcarries.loadSize hcarries.type_encode, Decoder.recognize_encode]
    cases op <;> rfl

theorem address_store {op : Rv32i.StoreOp}
    (hword : q.word = (Rv32i.Instr.store op rs1 rs2 imm).encode) :
    (toAddress (q.executing env).storeAddres).toNat =
        PerfSim.effective (q.hart.get rs1) (imm.signExtend 32) ∧
      (toAddress (q.executing env).storeSize).toNat = op.width := by
  have hcarries := executing_carries env hnamed hword
  constructor
  · rw [executing_store env hnamed hword op rfl]
    simp only [decode_rs1 hzero (i := .store op rs1 rs2 imm) rfl]
    rw [PerfSim.effective, BitVec.add_comm]
    congr 3
    exact Rv32i.immS_encS ..
  · rw [hcarries.storeSize hcarries.type_encode, Decoder.recognize_encode]
    cases op <;> rfl

theorem inRange_iff (hsize : q.memory.size ≤ 2 ^ 31) (hword : q.word = i.encode) :
    (q.executing env).InRange q.memory ↔ i.Within q.hart q.memory.size := by
  have haccess := executing_access env hnamed hword
  have hother (hread : i.access ≠ .read) (hwrite : i.access ≠ .write) :
      (q.executing env).InRange q.memory :=
    ⟨fun h => absurd (haccess.symm.trans h) hread, fun h => absurd (haccess.symm.trans h) hwrite⟩
  cases i with
  | load op rd rs1 imm =>
      obtain ⟨haddr, hcount⟩ := address_load env hnamed hzero hword
      have hpos : 0 < op.width := by cases op <;> decide
      rw [Rv32i.Instr.Within, Rv32i.Instr.address, ← effective_le_iff hsize hpos, ← haddr,
        ← hcount]
      refine ⟨fun h => h.load haccess, fun h => ⟨fun _ => h, fun hwrite => ?_⟩⟩
      exact absurd (haccess.symm.trans hwrite) (by simp [Rv32i.Instr.access])
  | store op rs1 rs2 imm =>
      obtain ⟨haddr, hcount⟩ := address_store env hnamed hzero hword
      have hpos : 0 < op.width := by cases op <;> decide
      rw [Rv32i.Instr.Within, Rv32i.Instr.address, ← effective_le_iff hsize hpos, ← haddr,
        ← hcount]
      refine ⟨fun h => h.store haccess, fun h => ⟨fun hread => ?_, fun _ => h⟩⟩
      exact absurd (haccess.symm.trans hread) (by simp [Rv32i.Instr.access])
  | upper | jal | jalr | branch | opImm | shift | reg | ecall =>
      refine iff_of_true (hother ?_ ?_) trivial <;> simp [Rv32i.Instr.access]

end Accesses

namespace Stepped

section Accesses

variable {rd rs1 rs2 : Rv32i.Reg} {imm : BitVec 12} (hnamed : q.rf.Named)
  (hzero : (q.rf.regs 0).value = 0) (h : Stepped env q instr q') (hsize : q.memory.size ≤ 2 ^ 31)
include hnamed hzero h hsize

theorem rd_load {op : Rv32i.LoadOp} (hword : q.word = (Rv32i.Instr.load op rd rs1 imm).encode) :
    instr.rd.value = op.computed (q.hart.load (Rv32i.Instr.address q.hart rs1 imm)) := by
  obtain ⟨haddr, hcount⟩ := address_load env hnamed hzero hword
  have hcarries : (q.executing env).Carries (Rv32i.Instr.load op rd rs1 imm).encode :=
    hword ▸ h.carries
  have hread : (q.executing env).memAccType = .read ∧ (q.executing env).type = .i :=
    ⟨executing_access env hnamed hword, hcarries.type_encode⟩
  have hname : (q.executing env).name = op.name :=
    hcarries.name.trans (congrArg Recognized.name (Decoder.recognize_encode _))
  have hwidth : (q.executing env).loadSize = BitVec.ofNat 32 op.width :=
    (hcarries.loadSize hread.2).trans (congrArg Recognized.accSize (Decoder.recognize_encode _))
  have hmemory := h.memory_of_access hword (by simp [Rv32i.Instr.access])
  have hload := h.load
  rw [hmemory] at hload
  have hrange := (h.inRange hword).load hread.1
  rw [hcount] at hrange
  rw [Core.loadEffect_eq env.direct 0 op hread hname hwidth hrange, Except.ok.injEq] at hload
  have hvalue : instr.rd.value = op.computed fun k =>
      q.memory.bytes ((toAddress (q.executing env).loadAddres).toNat + k) := by
    rw [← hload]
    rfl
  have hpos : 0 < op.width := by cases op <;> decide
  rw [haddr] at hrange hvalue
  have heffective := (PerfSim.effective_inRange_iff hsize hpos _ _).mp hrange
  rw [heffective.1] at hvalue
  exact hvalue.trans (op.congr fun k hk => (load_hart hsize heffective.2 hk).symm).2

theorem bytes_store {op : Rv32i.StoreOp}
    (hword : q.word = (Rv32i.Instr.store op rs1 rs2 imm).encode) :
    q'.hart.bytes =
      (q.hart.store (Rv32i.Instr.address q.hart rs1 imm) op.width (q.hart.get rs2)).bytes := by
  obtain ⟨haddr, hcount⟩ := address_store env hnamed hzero hword
  have hcarries : (q.executing env).Carries (Rv32i.Instr.store op rs1 rs2 imm).encode :=
    hword ▸ h.carries
  have hwrite : (q.executing env).memAccType = .write ∧ (q.executing env).type = .s :=
    ⟨executing_access env hnamed hword, hcarries.type_encode⟩
  have hsizes := hcarries.asStore_size hwrite.1 hwrite.2
  have hpending : (q.executing env).pending = (q.executing env).asStore := if_pos hwrite
  have hrange := (h.inRange hword).store hwrite.1
  have hrs2 : (q.executing env).asStore.data = q.hart.get rs2 := by
    rw [Instruction.asStore, executing_store env hnamed hword op rfl]
    exact decode_rs2 hzero (i := .store op rs1 rs2 imm) rfl
  have hmemory : q'.memory = q.memory.blit (Word.byte (q.hart.get rs2))
      (PerfSim.effective (q.hart.get rs1) (imm.signExtend 32)) op.width := by
    rw [h.memory, hpending, Store.drained, if_pos hsizes.1, hrs2, ← haddr, ← hcount]
    rfl
  have hpos : 0 < op.width := by cases op <;> decide
  rw [haddr, hcount] at hrange
  have heffective := (PerfSim.effective_inRange_iff hsize hpos _ _).mp hrange
  rw [heffective.1] at hmemory
  generalize hea : Rv32i.Instr.address q.hart rs1 imm = ea
  rw [show q.hart.get rs1 + imm.signExtend 32 = ea from hea] at hmemory heffective
  funext a
  have hlt := a.isLt
  have hcond : (a - ea).toNat < op.width ↔ ea.toNat ≤ a.toNat ∧ a.toNat < ea.toNat + op.width := by
    rw [BitVec.toNat_sub]
    omega
  refine (congrArg (fun memory : Memory => memory.bytes a.toNat) hmemory).trans ?_
  refine (if_congr hcond.symm rfl rfl).trans ?_
  refine ite_congr rfl (fun hin => ?_) fun _ => rfl
  have hoffset : (a - ea).toNat = a.toNat - ea.toNat := by
    rw [BitVec.toNat_sub]
    have := hcond.mp hin
    omega
  rw [hoffset]
  rfl

theorem hart (hword : q.word = i.encode) : q'.hart = i.computed env q.hart := by
  cases i with
  | upper op rd imm =>
      have hvalue := h.rd_alu hnamed hword (.upper op) rfl rfl
      rw [h.hart_of_rd hword rfl (by simp [Rv32i.Instr.access]) rfl, hvalue]
      exact congrArg (fun imm => (q.hart.put rd (op.value q.pc imm)).next) (Rv32i.immU_encU ..)
  | jal rd offset =>
      have hpc := h.pc_control hnamed hword .jal rfl
      have himm : Rv32i.immJ (Rv32i.Instr.jal rd offset).encode = (offset ++ 0#1).signExtend 32 :=
        Rv32i.immJ_encJ ..
      rw [h.hart_link hnamed hword .jal rfl rfl rfl rfl, hpc, Rv32i.ControlOp.target, himm,
        BitVec.add_comm ((offset ++ 0#1).signExtend 32)]
      rfl
  | jalr rd rs1 imm =>
      have hpc := h.pc_control hnamed hword .jalr rfl
      have himm : Rv32i.immI (Rv32i.Instr.jalr rd rs1 imm).encode = imm.signExtend 32 :=
        Rv32i.immI_encI ..
      rw [h.hart_link hnamed hword .jalr rfl rfl rfl rfl, hpc, Rv32i.ControlOp.target, himm,
        decode_rs1 hzero (i := .jalr rd rs1 imm) rfl, BitVec.add_comm (imm.signExtend 32)]
      rfl
  | branch op rs1 rs2 offset =>
      have hpc := h.pc_control hnamed hword (.branch op) rfl
      have himm : Rv32i.immB (Rv32i.Instr.branch op rs1 rs2 offset).encode =
          (offset ++ 0#1).signExtend 32 := Rv32i.immB_encB ..
      rw [decode_rs1 hzero (i := .branch op rs1 rs2 offset) rfl,
        decode_rs2 hzero (i := .branch op rs1 rs2 offset) rfl, Rv32i.ControlOp.target, himm,
        BitVec.add_comm ((offset ++ 0#1).signExtend 32)] at hpc
      apply Rv32i.Hart.ext
      · exact h.regs_of_none hword rfl
      · exact congrArg (fun (memory : Memory) (a : BitVec 32) => memory.bytes a.toNat)
          (h.memory_of_access hword (by simp [Rv32i.Instr.access]))
      · exact hpc
  | load op rd rs1 imm =>
      rw [h.hart_of_rd hword rfl (by simp [Rv32i.Instr.access]) rfl,
        h.rd_load hnamed hzero hsize hword]
      rfl
  | store op rs1 rs2 imm =>
      apply Rv32i.Hart.ext
      · exact h.regs_of_none hword rfl
      · exact h.bytes_store hnamed hzero hsize hword
      · exact h.pc_of_jumps hword rfl
  | opImm op rd rs1 imm =>
      have hvalue := h.rd_alu hnamed hword (.imm op) rfl rfl
      rw [h.hart_of_rd hword rfl (by simp [Rv32i.Instr.access]) rfl, hvalue,
        decode_rs1 hzero (i := .opImm op rd rs1 imm) rfl]
      exact congrArg (fun imm => (q.hart.put rd (op.computed (q.hart.get rs1) imm)).next)
        (Rv32i.immI_encI ..)
  | shift op rd rs1 shamt =>
      have hvalue := h.rd_alu hnamed hword (.shift op) rfl rfl
      rw [h.hart_of_rd hword rfl (by simp [Rv32i.Instr.access]) rfl, hvalue,
        decode_rs1 hzero (i := .shift op rd rs1 shamt) rfl]
      exact congrArg (fun shamt => (q.hart.put rd (op.value (q.hart.get rs1) shamt)).next)
        (Rv32i.rs2Of_encR ..)
  | reg op rd rs1 rs2 =>
      have hvalue := h.rd_alu hnamed hword (.reg op) rfl rfl
      rw [h.hart_of_rd hword rfl (by simp [Rv32i.Instr.access]) rfl, hvalue,
        decode_rs1 hzero (i := .reg op rd rs1 rs2) rfl,
        decode_rs2 hzero (i := .reg op rd rs1 rs2) rfl]
      rfl
  | ecall =>
      apply Rv32i.Hart.ext
      · exact h.regs_of_none hword rfl
      · exact congrArg (fun (memory : Memory) (a : BitVec 32) => memory.bytes a.toNat)
          (h.memory_of_access hword (by simp [Rv32i.Instr.access]))
      · exact h.pc_of_jumps hword rfl

theorem not_overwrites (hword : q.word = i.encode) {pc : BitVec 32} (hspares : i.Spares q.hart pc) :
    ¬ instr.Overwrites pc := by
  rintro ⟨a, hlow, hhigh, hfrom, hto⟩
  rw [h.pending_eq] at hfrom hto
  have hcarries : (q.executing env).Carries i.encode := hword ▸ h.carries
  have haccess := executing_access env hnamed hword
  by_cases hwrite : (q.executing env).memAccType = .write ∧ (q.executing env).type = .s
  · cases i with
    | store op rs1 rs2 imm =>
        obtain ⟨haddr, hcount⟩ := address_store env hnamed hzero hword
        have hrange := (h.inRange hword).store hwrite.1
        have hpos : 0 < op.width := by cases op <;> decide
        rw [haddr, hcount] at hrange
        have heffective := (PerfSim.effective_inRange_iff hsize hpos _ _).mp hrange
        rw [Instruction.pending, if_pos hwrite] at hfrom hto
        change (toAddress _).toNat ≤ a at hfrom
        change a < (toAddress _).toNat + (toAddress _).toNat at hto
        rw [haddr, heffective.1] at hfrom hto
        rw [hcount] at hto
        change (q.hart.get rs1 + imm.signExtend 32).toNat + op.width ≤ pc.toNat ∨
          pc.toNat + 4 ≤ (q.hart.get rs1 + imm.signExtend 32).toNat at hspares
        omega
    | upper | jal | jalr | branch | load | opImm | shift | reg | ecall =>
        rw [haccess] at hwrite
        exact absurd hwrite.1 (by simp [Rv32i.Instr.access])
  · rw [Instruction.pending, if_neg hwrite] at hto hfrom
    change a < 0 at hto
    omega

end Accesses

end Stepped

end Seq

/-! ## Runs -/

namespace Foundation.Rv32i.Instr

theorem name_eq_ecall_iff (i : Instr) : i.name = .ecall ↔ i = .ecall := by
  cases i with
  | ecall => exact iff_of_true rfl rfl
  | jal | jalr => exact iff_of_false (by simp [name]) (by simp)
  | upper op | branch op | load op | store op | opImm op | shift op | reg op =>
      refine iff_of_false ?_ (by simp)
      cases op <;> simp [name, UpperOp.name, BranchOp.name, LoadOp.name, StoreOp.name,
        ImmOp.name, ShiftOp.name, RegOp.name]

theorem recognised_encode (i : Instr) : Decoder.Recognised i.encode := by
  refine .inl ?_
  rw [Decoder.recognize_encode]
  cases i with
  | ecall | jal | jalr => simp [recognized, name]
  | upper op | branch op | load op | store op | opImm op | shift op | reg op =>
      cases op <;> simp [recognized, name, UpperOp.name, BranchOp.name, LoadOp.name,
        StoreOp.name, ImmOp.name, ShiftOp.name, RegOp.name]

end Foundation.Rv32i.Instr

namespace Seq

variable {env : Env} {memory : Memory} {pc : BitVec 32} {values : RegName → BitVec 32}
  {h : Nat → Rv32i.Hart} {i : Nat → Rv32i.Instr} {n k : Nat}

structure Tracks (memory : Memory) (q : Seq) (h : Rv32i.Hart) : Prop where
  named : q.rf.Named
  zero : (q.rf.regs 0).value = 0
  size : q.memory.size = memory.size
  hart : q.hart = h

theorem tracks_boot (memory : Memory) (pc : BitVec 32) (values : RegName → BitVec 32) :
    (boot memory pc values).Tracks memory (boot memory pc values).hart :=
  ⟨fun _ => rfl, rfl, rfl, rfl⟩

section Runs

variable (hsize : memory.size ≤ 2 ^ 31) (hrun : Rv32i.Hart.Runs memory.size h i n)
  (hfaithful : ∀ k ≤ n, (i k).Faithful (h k))
include hsize hrun

theorem Tracks.word {q : Seq} (ht : q.Tracks memory (h k)) (hk : k ≤ n) :
    q.word = (i k).encode := by
  have hpc : q.pc.toNat + 4 ≤ q.memory.size := by
    rw [ht.size, show q.pc = (h k).pc from congrArg (fun h => h.pc) ht.hart]
    exact hrun.inside k hk
  rw [← word_hart (ht.size ▸ hsize) hpc, ht.hart]
  exact hrun.fetch k hk

include hfaithful

theorem Tracks.step {q : Seq} (ht : q.Tracks memory (h k)) (hk : k ≤ n) (env : Env) :
    ∃ instr q', q.step env = .ok (instr, q') ∧ q'.Tracks memory (h (k + 1)) := by
  have hpc : q.pc.toNat + 4 ≤ q.memory.size := by
    rw [ht.size, show q.pc = (h k).pc from congrArg (fun h => h.pc) ht.hart]
    exact hrun.inside k hk
  have hwithin : (i k).Within q.hart q.memory.size := by
    rw [ht.hart, ht.size]
    exact hrun.within k hk
  have hword := ht.word hsize hrun hk
  have hsize' : q.memory.size ≤ 2 ^ 31 := ht.size ▸ hsize
  obtain ⟨instr, q', hstep⟩ := step_of_inRange ht.named hpc
    ((inRange_iff env ht.named ht.zero hsize' hword).mpr hwithin)
  have hstepped := step_ok ht.named hstep
  refine ⟨instr, q', hstep, hstepped.named ht.named, ?_, ?_, ?_⟩
  · rw [hstepped.regs, if_neg fun h => h.2 rfl]
    exact ht.zero
  · rw [hstepped.memory, Store.size_drained]
    exact ht.size
  · rw [hstepped.hart ht.named ht.zero hsize' hword, ht.hart, hrun.step k hk]
    exact ((i k).computed_eq_exec_iff (h k)).mpr (hfaithful k hk) env

theorem tracks_after (hstart : (boot memory pc values).hart = h 0) (env : Env) (hk : k ≤ n + 1) :
    ((boot memory pc values).after env k).Tracks memory (h k) := by
  induction k with
  | zero => exact hstart ▸ tracks_boot memory pc values
  | succ k ih =>
      obtain ⟨instr, q', hstep, ht⟩ :=
        (ih (by omega)).step hsize hrun hfaithful (Nat.le_of_lt_succ hk) env
      rw [after, hstep]
      exact ht

theorem step_after (hstart : (boot memory pc values).hart = h 0) (env : Env) (hk : k ≤ n) :
    ((boot memory pc values).after env k).step env =
      .ok ((boot memory pc values).retired env k, (boot memory pc values).after env (k + 1)) := by
  obtain ⟨instr, q', hstep, -⟩ := (tracks_after hsize hrun hfaithful hstart env
    (Nat.le_succ_of_le hk)).step hsize hrun hfaithful hk env
  rw [after, retired, hstep]

theorem execution_after (hends : ∀ k ≤ n, (i k = .ecall ↔ k = n))
    (hstart : (boot memory pc values).hart = h 0) (env : Env) :
    Execution env memory pc values ((boot memory pc values).after env)
      ((boot memory pc values).retired env) n := by
  have htracks (k : Nat) (hk : k ≤ n + 1) := tracks_after hsize hrun hfaithful hstart env hk
  have hstep (k : Nat) (hk : k ≤ n) := step_after hsize hrun hfaithful hstart env hk
  have hword (k : Nat) (hk : k ≤ n) := (htracks k (by omega)).word hsize hrun hk
  have hname (k : Nat) (hk : k ≤ n) :
      ((boot memory pc values).retired env k).name = .ecall ↔ k = n := by
    have hcarries := (step_ok (htracks k (by omega)).named (hstep k hk)).instr_carries
    rw [hcarries.name, hword k hk, Decoder.recognize_encode]
    exact (i k).name_eq_ecall_iff.trans (hends k hk)
  refine ⟨rfl, hstep, ?_, ?_, ?_, ?_⟩
  · intro k hk
    rw [hword k hk]
    exact (i k).recognised_encode
  · intro k hk hecall
    have hend := (hname k hk.le).mp hecall
    omega
  · exact (hname n le_rfl).mpr rfl
  · intro j k hjk hk
    have ht := htracks j (by omega)
    have hpc : ((boot memory pc values).after env k).pc = (h k).pc :=
      congrArg (fun h => h.pc) (htracks k (by omega)).hart
    rw [hpc]
    refine (step_ok ht.named (hstep j (by omega))).not_overwrites ht.named ht.zero
      (ht.size ▸ hsize) (hword j (by omega)) ?_
    rw [ht.hart]
    exact hrun.spares k hk j hjk

/-- A program that runs into an `ECALL` on the hart, and meets nothing that an executor gets
wrong, does so on the sequential machine: the two agree before and behind every instruction. -/
theorem execution_of_runs (hends : ∀ k ≤ n, (i k = .ecall ↔ k = n))
    (hstart : (boot memory pc values).hart = h 0) (env : Env) :
    Execution env memory pc values ((boot memory pc values).after env)
        ((boot memory pc values).retired env) n ∧
      ∀ k ≤ n + 1, ((boot memory pc values).after env k).hart = h k :=
  ⟨execution_after hsize hrun hfaithful hends hstart env,
    fun _ hk => (tracks_after hsize hrun hfaithful hstart env hk).hart⟩

end Runs

def storeThenBranch : List Rv32i.Instr :=
  [.opImm .addi 1 0 24, .store .sw 0 1 40, .load .lw 2 0 40, .branch .beq 1 2 4, .ecall]

def storeThenBranchMemory : Memory :=
  (PerfSim.bootWords 64
    [0x01800093#32, 0x02102423#32, 0x02802103#32, 0x00208463#32, 0#32, 0x00000073#32]).memory

theorem execution_of_runs_storeThenBranch :
    let q := boot storeThenBranchMemory 0 fun _ => 0
    let i := fun k => storeThenBranch.getD k .ecall
    Execution .plain storeThenBranchMemory 0 (fun _ => 0) (q.after .plain) (q.retired .plain) 4 ∧
      ∀ k ≤ 5, (q.after .plain k).hart = q.hart.after i k := by
  let q := boot storeThenBranchMemory 0 fun _ => 0
  let i := fun k => storeThenBranch.getD k .ecall
  have hrun : Rv32i.Hart.Runs storeThenBranchMemory.size (q.hart.after i) i 4 :=
    ⟨by decide +kernel, by decide +kernel, by decide +kernel, fun _ _ => rfl, by decide +kernel⟩
  have hfaithful : ∀ k ≤ 4, (i k).Faithful (q.hart.after i k) := by
    intro k hk
    interval_cases k
    · trivial
    · trivial
    · exact .inr trivial
    · trivial
    · trivial
  exact execution_of_runs (by decide) hrun hfaithful (by decide +kernel) rfl .plain

end Seq

end RiscvPerfSim
