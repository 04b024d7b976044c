import RiscvPerfSim.Core.Encoding
import RiscvPerfSim.Core.Safe

/-!
# Loads and stores

What a live load or store does to its register and to guest memory in one
cycle, with the store queue and without it, against the instruction set.
-/

namespace RiscvPerfSim

open Foundation

/-! ## Extensions -/

namespace PerfSim

private theorem signBit_iff (num : BitVec 32) {k : Nat} (hk : k < 2) :
    num.sshiftRight k &&& 1#32 ≠ 0 ↔ num.getLsbD k = true := by
  have hbit : num.sshiftRight k &&& 1#32 = if num.getLsbD k then 1#32 else 0#32 := by
    apply BitVec.eq_of_getLsbD_eq
    intro i hi
    rw [BitVec.getLsbD_and, BitVec.getLsbD_one, BitVec.getLsbD_sshiftRight]
    by_cases hzero : i = 0
    · subst hzero
      cases num.getLsbD k <;> simp [show k < 32 by omega]
    · cases num.getLsbD k <;> simp [hzero]
  rw [hbit]
  cases num.getLsbD k <;> simp

section Masks

variable {mask : BitVec 32} {k : Nat} (hmask : ∀ i, mask.getLsbD i = decide (i < k))
  (num : BitVec 32)
include hmask

private theorem mask_and : mask &&& num = (num.extractLsb' 0 k).setWidth 32 := by
  apply BitVec.eq_of_getLsbD_eq
  intro i hi
  rw [BitVec.getLsbD_and, hmask, BitVec.getLsbD_setWidth, BitVec.getLsbD_extractLsb',
    Nat.zero_add, decide_eq_true hi, Bool.true_and]

private theorem mask_or (hk : 0 < k) :
    (if num.getLsbD (k - 1) then ~~~mask ||| num else mask &&& num) =
      (num.extractLsb' 0 k).signExtend 32 := by
  have hmsb : (num.extractLsb' 0 k).msb = num.getLsbD (k - 1) := by
    rw [BitVec.msb_eq_getLsbD_last]
    simp [hk]
  apply BitVec.eq_of_getLsbD_eq
  intro i hi
  rw [BitVec.getLsbD_signExtend, hmsb, BitVec.getLsbD_extractLsb', Nat.zero_add,
    decide_eq_true hi, Bool.true_and]
  cases hbit : num.getLsbD (k - 1) with
  | true =>
      rw [if_pos rfl, BitVec.getLsbD_or, BitVec.getLsbD_not, hmask, decide_eq_true hi]
      by_cases hlow : i < k <;> simp only [hlow, if_true, if_false, decide_true, decide_false,
        Bool.not_true, Bool.not_false, Bool.true_and, Bool.false_or, Bool.true_or]
  | false =>
      rw [if_neg (by decide), BitVec.getLsbD_and, hmask]
      by_cases hlow : i < k <;> simp only [hlow, if_true, if_false, decide_true, decide_false,
        Bool.true_and, Bool.false_and]

end Masks

/-- `size` is used as a number of bits: that many of the lowest ones survive. -/
theorem signExtend_bits (num : BitVec 32) {size : BitVec 32} (hsize : size = 1 ∨ size = 2) :
    signExtend num size .zero = .ok ((num.extractLsb' 0 size.toNat).setWidth 32) ∧
      signExtend num size .sign = .ok ((num.extractLsb' 0 size.toNat).signExtend 32) := by
  have hbody {mask : BitVec 32} {k : Nat} (hk : k < 2)
      (hmask : ∀ i, mask.getLsbD i = decide (i < k + 1))
      (hsign : signExtend num size .sign = if num.sshiftRight k &&& 1#32 ≠ 0 then
        .ok (~~~mask ||| num) else .ok (mask &&& num)) :
      signExtend num size .sign = .ok ((num.extractLsb' 0 (k + 1)).signExtend 32) := by
    rw [hsign, ← mask_or hmask num (Nat.succ_pos k), Nat.add_sub_cancel]
    simp only [signBit_iff num hk]
    split_ifs <;> rfl
  have hone (i : Nat) : (1#32).getLsbD i = decide (i < 0 + 1) := by
    rw [BitVec.getLsbD_one]
    simp
  rcases hsize with rfl | rfl
  · exact ⟨congrArg Except.ok (mask_and hone num), hbody (by decide) hone rfl⟩
  · exact ⟨congrArg Except.ok (mask_and getLsbD_three num), hbody (by decide) getLsbD_three rfl⟩

end PerfSim

namespace Foundation.Rv32i.LoadOp

variable (bytes : Nat → BitVec 8)

/-- What the code leaves in `rd`: as many bits as the access has bytes, extended. -/
def computed : LoadOp → BitVec 32
  | .lb => ((bytes 0).extractLsb' 0 1).signExtend 32
  | .lh => ((bytes 1 ++ bytes 0).extractLsb' 0 2).signExtend 32
  | .lw => bytes 3 ++ bytes 2 ++ bytes 1 ++ bytes 0
  | .lbu => ((bytes 0).extractLsb' 0 1).setWidth 32
  | .lhu => ((bytes 1 ++ bytes 0).extractLsb' 0 2).setWidth 32

/-- The value at the address fits into as many bits as it has bytes. -/
def Survives : LoadOp → Prop
  | .lb => -1 ≤ (bytes 0).toInt ∧ (bytes 0).toInt < 1
  | .lh => -2 ≤ (bytes 1 ++ bytes 0).toInt ∧ (bytes 1 ++ bytes 0).toInt < 2
  | .lw => True
  | .lbu => (bytes 0).toNat < 2
  | .lhu => (bytes 1 ++ bytes 0).toNat < 4

theorem computed_eq_iff (op : LoadOp) : op.computed bytes = op.value bytes ↔ op.Survives bytes := by
  cases op with
  | lb => exact signExtend_extract_iff (k := 0) (bytes 0) (by decide) (by decide)
  | lh => exact signExtend_extract_iff (k := 1) (bytes 1 ++ bytes 0) (by decide) (by decide)
  | lw => exact ⟨fun _ => trivial, fun _ => rfl⟩
  | lbu => exact setWidth_extract_iff (bytes 0) (by decide) (by decide)
  | lhu => exact setWidth_extract_iff (bytes 1 ++ bytes 0) (by decide) (by decide)

end Foundation.Rv32i.LoadOp

theorem Word.extract_overlay (buffer : BitVec 32) (bytes : Nat → BitVec 8) {count k : Nat}
    (hcount : 0 < count) (hk : k ≤ 8) :
    (overlay buffer bytes count).extractLsb' 0 k = (bytes 0).extractLsb' 0 k := by
  rw [overlay, ofBytes, BitVec.extractLsb'_append_eq_of_add_le (by omega), if_pos hcount]

theorem PerfSim.extendLoaded_eq (op : Rv32i.LoadOp) {instr : Instruction}
    (hname : instr.name = op.name) (hsize : instr.loadSize = BitVec.ofNat 32 op.width)
    (buffer : BitVec 32) (bytes : Nat → BitVec 8) :
    extendLoaded instr (Word.overlay buffer bytes op.width) = .ok (op.computed bytes) := by
  have hbyte (num : BitVec 32) := signExtend_bits num (.inl (rfl : (1 : BitVec 32) = 1))
  have hhalf (num : BitVec 32) := signExtend_bits num (.inr (rfl : (2 : BitVec 32) = 2))
  have hlow (count k : Nat) (hcount : 0 < count) (hk : k ≤ 8) :=
    Word.extract_overlay buffer bytes hcount hk
  have hhigh : (bytes 1 ++ bytes 0).extractLsb' 0 2 = (bytes 0).extractLsb' 0 2 :=
    BitVec.extractLsb'_append_eq_of_add_le (by decide)
  unfold extendLoaded
  rw [hname, hsize]
  cases op with
  | lb =>
      rw [if_neg (by decide), if_pos (by decide)]
      refine (hbyte _).2.trans ?_
      rw [Rv32i.LoadOp.computed, ← hlow 1 1 (by decide) (by decide)]
      rfl
  | lh =>
      rw [if_neg (by decide), if_pos (by decide)]
      refine (hhalf _).2.trans ?_
      rw [Rv32i.LoadOp.computed, hhigh, ← hlow 2 2 (by decide) (by decide)]
      rfl
  | lw =>
      rw [if_neg (by decide), if_pos (by decide)]
      exact congrArg Except.ok (Word.overlay_full buffer bytes)
  | lbu =>
      rw [if_pos (by decide)]
      refine (hbyte _).1.trans ?_
      rw [Rv32i.LoadOp.computed, ← hlow 1 1 (by decide) (by decide)]
      rfl
  | lhu =>
      rw [if_pos (by decide)]
      refine (hhalf _).1.trans ?_
      rw [Rv32i.LoadOp.computed, hhigh, ← hlow 2 2 (by decide) (by decide)]
      rfl

theorem Core.loadEffect_eq (env : Env) (clock : Nat) (op : Rv32i.LoadOp) {memory : Memory}
    {instr : Instruction} (hload : instr.memAccType = .read ∧ instr.type = .i)
    (hname : instr.name = op.name) (hsize : instr.loadSize = BitVec.ofNat 32 op.width)
    (hrange : (toAddress instr.loadAddres).toNat + op.width ≤ memory.size) :
    loadEffect env clock memory instr = .ok (instr.withRd
      (op.computed fun i => memory.bytes ((toAddress instr.loadAddres).toNat + i))) := by
  have hcount : (toAddress (BitVec.ofNat 32 op.width)).toNat = op.width := by
    cases op <;> rfl
  rw [loadEffect, if_pos hload, hsize, hcount, Memory.read_of_inRange _ hrange]
  simp only [bind, Except.bind, PerfSim.extendLoaded_eq op hname hsize]
  exact instr.setRdValue_eq _ (by simp [hload.2, InstrType.writesRd])

/-! ## Effective addresses -/

theorem toAddress_toNat (ea : BitVec 32) :
    ((toAddress ea).toNat : Int) = if ea.toInt < 0 then ea.toInt + 2 ^ 64 else ea.toInt := by
  have hsigned : (toAddress ea).toInt = ea.toInt := BitVec.toInt_signExtend_of_le (by decide)
  have hlt := (toAddress ea).isLt
  rw [BitVec.toInt_eq_toNat_cond] at hsigned
  split_ifs at hsigned ⊢ <;> omega

namespace Instruction

variable {env : Env} {instr : Instruction} {word : BitVec 32}

theorem Shaped.execute_load (env : Env) (h : instr.Shaped word) (op : Rv32i.LoadOp)
    (hname : (Decoder.recognize word).name = op.name) :
    instr.type = .i ∧ instr.execute env =
      .ok { instr with loadAddres := Rv32i.immI word + instr.rs1.value } := by
  have hload : op.name.executor = some .load := by
    cases op <;> rfl
  obtain ⟨hexecutor, htype, -⟩ := h.executor_of_name hname hload
  have himm := h.getImm
  rw [htype] at himm
  refine ⟨htype, ?_⟩
  simp [execute, hexecutor, Executor.call, Executors.Load, dynamicCast, htype, Executor.type, himm,
    getRs1, bind, Except.bind, pure, Except.pure]

theorem Shaped.execute_store (env : Env) (h : instr.Shaped word) (op : Rv32i.StoreOp)
    (hname : (Decoder.recognize word).name = op.name) :
    instr.type = .s ∧ instr.execute env =
      .ok { instr with storeAddres := Rv32i.immS word + instr.rs1.value } := by
  have hstore : op.name.executor = some .store := by
    cases op <;> rfl
  obtain ⟨hexecutor, htype, -⟩ := h.executor_of_name hname hstore
  have himm := h.getImm
  rw [htype] at himm
  refine ⟨htype, ?_⟩
  simp [execute, hexecutor, Executor.call, Executors.Store, dynamicCast, htype, Executor.type, himm,
    getRs1, bind, Except.bind, pure, Except.pure]

end Instruction

/-! ## Memory access -/

namespace PerfSim

variable {env : Env} {s s' : PerfSim} {ptr : InstrPtr} {instr : Instruction}

/-- An object where `memoryAccess` finds it: live in its latch, and no store in the queue. -/
structure Accessing (s : PerfSim) (ptr : InstrPtr) (instr : Instruction) : Prop where
  stall : s.emSt.load.isStall = false
  hazard : s.emSt.load.hazardStall = false
  latch : s.emSt.load.instr = some ptr
  object : s.decoder.get ptr = instr
  running : s.mwSt.stopCount = 0
  store : s.mwSt.store = InstrLatch.clear
  queue : s.pipeline.queue = []
  pending : s.pipeline.store = Store.clear

theorem Good.accessing (hgood : s.Good) (h : s.emSt.load.instrOf s.decoder = some instr) :
    ∃ ptr, s.Accessing ptr instr := by
  obtain ⟨hstall, hhazard, ptr, hptr, hget⟩ :=
    InstrLatch.slotOf_eq_some (InstrLatch.slotOf_of_instrOf h)
  have hinv := hgood.latches
  exact ⟨ptr, hstall, hhazard, hptr, hget, hinv.mwStop, hinv.mwStore, hinv.queue, hinv.pending⟩

/-- `memoryAccess`, and what the store queue writes at the end of the cycle. -/
def accessed (env : Env) (s : PerfSim) : Except Error PerfSim := do
  let s ← s.memoryAccess env
  let (memory, pipeline) ← s.pipeline.update s.memory
  return { s with memory := memory, pipeline := pipeline }

def effects (env : Env) (clock : Nat) (memory : Memory) (instr : Instruction) :
    Except Error (Memory × Instruction) := do
  let (memory, store) ← Core.storeEffect env memory instr
  let loaded ← Core.loadEffect env clock memory instr
  let (memory, _) ← Pipeline.update memory { store := store }
  return (memory, loaded)

theorem Accessing.accessed_agree (h : s.Accessing ptr instr) :
    Agree (fun u result => u.memory = result.1 ∧ u.decoder.get ptr = result.2)
      (s.accessed env) (effects env s.clocks s.memory instr) := by
  obtain ⟨hstall, hhazard, hlatch, rfl, hrunning, hclear, hqueue, hpending⟩ := h
  have hslot := InstrLatch.slotOf_of_ptr s.decoder hstall hlatch
  have hstage : s.core.memStage env = (do
      let (memory, pending) ← Core.storeEffect env s.memory (s.decoder.get ptr)
      let loaded ← Core.loadEffect env s.clocks memory (s.decoder.get ptr)
      return ⟨some loaded, memory, pending⟩) := by
    rw [Core.memStage, core_em, hslot, hhazard]
    rfl
  have heffects : effects env s.clocks s.memory (s.decoder.get ptr) = (do
      let accessed ← s.core.memStage env
      let (memory, _) ← Pipeline.update accessed.memory { store := accessed.pending }
      return (memory, accessed.mw.getD (s.decoder.get ptr))) := by
    rw [hstage, effects, bind_assoc]
    refine bind_congr fun x => ?_
    rw [bind_assoc]
    rfl
  rw [accessed, heffects]
  refine (memoryAccess_live hrunning hclear hstall hhazard hlatch hqueue hpending).bind_of_eq ?_
  rintro _ accessed haccess ⟨pipeline, hp, rfl⟩
  refine (drain_agree accessed.memory hp).bind ?_
  rintro ⟨memory, pipeline'⟩ ⟨memory', _⟩ ⟨hmemory, -, -⟩
  refine Agree.ok ⟨hmemory, ?_⟩
  rw [hstage] at haccess
  obtain ⟨⟨written, store⟩, -, haccess⟩ := ok_of_bind haccess
  obtain ⟨loaded, -, haccess⟩ := ok_of_bind haccess
  cases haccess
  change (s.decoder.assign s.emSt.load.instr (some loaded)).get ptr = loaded
  rw [hlatch]
  exact Decoder.get_set_self ..

theorem Accessing.accessed_ok (h : s.Accessing ptr instr) {memory memory' : Memory} {store : Store}
    {drained : Pipeline} {loaded : Instruction}
    (hstore : Core.storeEffect env s.memory instr = .ok (memory, store))
    (hload : Core.loadEffect env s.clocks memory instr = .ok loaded)
    (hupdate : Pipeline.update memory { store := store } = .ok (memory', drained)) :
    ∃ u, s.accessed env = .ok u ∧ u.memory = memory' ∧ u.decoder.get ptr = loaded := by
  have heffects : effects env s.clocks s.memory instr = .ok (memory', loaded) := by
    simp only [effects, hstore, hload, hupdate, bind, Except.bind, pure, Except.pure]
  obtain ⟨u, hu, hmemory, hobject⟩ := h.accessed_agree.of_ok_right heffects
  exact ⟨u, hu, hmemory, hobject⟩

theorem Accessing.cycle (hgood : s.Good) (h : s.Accessing ptr instr)
    (hcycle : s.cycle env = .ok s') :
    ∃ u, s.accessed env = .ok u ∧ s'.memory = u.memory ∧
      s'.mwSt.load.instrOf s'.decoder = some (u.decoder.get ptr) := by
  obtain ⟨-, accessed, decoded, word, memory, hstepped, hcore⟩ := hgood.stepped hcycle
  have hslot := InstrLatch.slotOf_of_ptr s.decoder h.stall h.latch
  rw [h.hazard, h.object] at hslot
  rcases Core.memStage_ok hstepped.access with
    ⟨instr', loaded, hem, hmw, hstore, hload⟩ | ⟨hem, -⟩
  · rw [core_em, hslot] at hem
    cases hem
    obtain ⟨drained, hdrain⟩ := hstepped.drain
    obtain ⟨u, hu, hmemory, hobject⟩ := h.accessed_ok hstore hload hdrain
    refine ⟨u, hu, ?_, ?_⟩
    · rw [hmemory]
      exact congrArg Core.memory hcore
    · rw [hobject, ← hmw]
      exact congrArg Core.mw hcore
  · exact absurd hslot (hem instr)

/-! ## Loads and stores -/

def effective (a imm : BitVec 32) : Nat := (toAddress (a + imm)).toNat

theorem effective_inRange_iff {size count : Nat} (hsize : size ≤ 2 ^ 31) (hcount : 0 < count)
    (a imm : BitVec 32) :
    effective a imm + count ≤ size ↔
      effective a imm = (a + imm).toNat ∧ (a + imm).toNat + count ≤ size := by
  have haddr := toAddress_toNat (a + imm)
  have hsigned := BitVec.toInt_eq_toNat_cond (a + imm)
  have hlt := (a + imm).isLt
  rw [effective]
  split_ifs at haddr hsigned <;> omega

/-- Memory access leaves `value` in `rd`, and memory alone. -/
def Loads (env : Env) (s : PerfSim) (ptr : InstrPtr) (value : BitVec 32) : Prop :=
  ∃ u, s.accessed env = .ok u ∧ u.memory = s.memory ∧ (u.decoder.get ptr).rd.value = value

/-- Memory access leaves the lowest bytes of `data` at the address, and all else alone. -/
def Stores (env : Env) (s : PerfSim) (ptr : InstrPtr) (addr count : Nat) (data : BitVec 32) :
    Prop :=
  ∃ u, s.accessed env = .ok u ∧ u.memory = s.memory.blit (Word.byte data) addr count ∧
    u.decoder.get ptr = s.decoder.get ptr

theorem Accessing.stores_of (h : s.Accessing ptr instr) (op : Rv32i.StoreOp)
    (hstore : instr.memAccType = .write ∧ instr.type = .s)
    (hsize : instr.storeSize = BitVec.ofNat 32 op.width)
    (hrange : (toAddress instr.storeAddres).toNat + op.width ≤ s.memory.size) :
    s.Stores env ptr (toAddress instr.storeAddres).toNat op.width instr.rs2.value := by
  have hcount : instr.asStore.size.toNat = op.width := by
    rw [Instruction.asStore, hsize]
    cases op <;> rfl
  have hbytes : instr.asStore.size > 0 ∧ instr.asStore.size ≤ 4 := by
    simp only [Instruction.asStore, hsize]
    cases op <;> decide
  have hfits : instr.asStore.Fits s.memory := by
    refine ⟨hbytes.2, fun _ => ?_⟩
    rw [hcount]
    exact hrange
  obtain ⟨memory, store, heffect, hupdate, -⟩ :=
    Instruction.storeEffect_asStore env hstore hbytes.1 hfits
  have hload : instr.memAccType ≠ .read := by
    simp [hstore.1]
  obtain ⟨u, hu, hmemory, hobject⟩ := h.accessed_ok heffect (Core.loadEffect_of_ne hload) hupdate
  refine ⟨u, hu, ?_, hobject.trans h.object.symm⟩
  rw [hmemory, Store.drained, if_pos hbytes.1, hcount]
  rfl

section Objects

variable {word : BitVec 32} (hshaped : instr.Shaped word) {done : Instruction}
  (hexec : instr.execute env = .ok done) (h : s.Accessing ptr done)
include hshaped hexec h

theorem Accessing.loads_iff (op : Rv32i.LoadOp) (hname : (Decoder.recognize word).name = op.name)
    (hsize : instr.loadSize = (Decoder.recognize word).accSize)
    (hrange : effective instr.rs1.value (Rv32i.immI word) + op.width ≤ s.memory.size)
    (value : BitVec 32) :
    s.Loads env ptr value ↔
      op.computed (fun i =>
        s.memory.bytes (effective instr.rs1.value (Rv32i.immI word) + i)) = value := by
  obtain ⟨htype, heq⟩ := hshaped.execute_load env op hname
  rw [heq] at hexec
  cases hexec
  have hread : instr.memAccType = .read := by
    rw [hshaped.memAccType]
    apply (Decoder.recognize_sound word).load
    cases op <;> simp [hname, Rv32i.LoadOp.name]
  have hwidth : instr.loadSize = BitVec.ofNat 32 op.width := by
    rw [hsize, (Decoder.recognize_paired word).accSize, hname]
    cases op <;> rfl
  rw [effective, BitVec.add_comm] at hrange ⊢
  have hload : Core.loadEffect env s.clocks s.memory
      { instr with loadAddres := Rv32i.immI word + instr.rs1.value } = _ :=
    Core.loadEffect_eq env s.clocks op ⟨hread, htype⟩ (hshaped.name.trans hname) hwidth hrange
  have hstore : instr.memAccType ≠ .write := by
    simp [hread]
  obtain ⟨u, hu, hmemory, hobject⟩ := h.accessed_ok (Core.storeEffect_of_ne hstore) hload
    (Store.update_eq (Store.fits_clear s.memory))
  rw [Loads, hu]
  constructor
  · rintro ⟨u', hu', -, hvalue⟩
    cases hu'
    rw [← hvalue, hobject]
    rfl
  · intro hvalue
    refine ⟨u, rfl, hmemory, ?_⟩
    rw [hobject, ← hvalue]
    rfl

theorem Accessing.stores (op : Rv32i.StoreOp) (hname : (Decoder.recognize word).name = op.name)
    (hsize : instr.storeSize = (Decoder.recognize word).accSize)
    (hrange : effective instr.rs1.value (Rv32i.immS word) + op.width ≤ s.memory.size) :
    s.Stores env ptr (effective instr.rs1.value (Rv32i.immS word)) op.width instr.rs2.value := by
  obtain ⟨htype, heq⟩ := hshaped.execute_store env op hname
  rw [heq] at hexec
  cases hexec
  have hwrite : instr.memAccType = .write := by
    obtain ⟨e, he, -, hwrite⟩ := (Decoder.recognize_sound word).named (by
      rw [hname]
      cases op <;> nofun)
    rw [hshaped.memAccType]
    apply hwrite
    rcases (Decoder.recognize_paired word).executor with hnone | hpaired
    · rw [hname] at hnone
      cases op <;> cases hnone
    · rw [he, hname] at hpaired
      cases op <;> exact Option.some.inj hpaired
  have hwidth : instr.storeSize = BitVec.ofNat 32 op.width := by
    rw [hsize, (Decoder.recognize_paired word).accSize, hname]
    cases op <;> rfl
  rw [effective, BitVec.add_comm] at hrange ⊢
  exact h.stores_of op ⟨hwrite, htype⟩ hwidth hrange

end Objects

end PerfSim

theorem Foundation.Rv32i.LoadOp.congr (op : Rv32i.LoadOp) {bytes bytes' : Nat → BitVec 8}
    (h : ∀ i, i < op.width → bytes i = bytes' i) :
    op.value bytes = op.value bytes' ∧ op.computed bytes = op.computed bytes' := by
  cases op with
  | lb | lbu =>
      have h0 : bytes 0 = bytes' 0 := h 0 (by decide)
      simp only [value, computed, h0, and_self]
  | lh | lhu =>
      have h0 : bytes 0 = bytes' 0 := h 0 (by decide)
      have h1 : bytes 1 = bytes' 1 := h 1 (by decide)
      simp only [value, computed, h0, h1, and_self]
  | lw =>
      have h0 : bytes 0 = bytes' 0 := h 0 (by decide)
      have h1 : bytes 1 = bytes' 1 := h 1 (by decide)
      have h2 : bytes 2 = bytes' 2 := h 2 (by decide)
      have h3 : bytes 3 = bytes' 3 := h 3 (by decide)
      simp only [value, computed, h0, h1, h2, h3, and_self]

namespace PerfSim

variable {env : Env} {s : PerfSim} {ptr : InstrPtr}

/-- Stores are right; a load is right when the value fits into as many bits as it has bytes, and
so is a load of what a store has left at the same address and of the same width. -/
theorem access_iff {dp dp' : Datapath} {word pc a b : BitVec 32} {p : InstrPtr} {done : Instruction}
    (hdecode : Decoder.decode env dp word = .ok (dp', p))
    (hrs1 : (dp'.decoder.get p).rs1.value = a) (hrs2 : (dp'.decoder.get p).rs2.value = b)
    (hexec : ((dp'.decoder.get p).setPc pc).execute env = .ok done) (h : s.Accessing ptr done) :
    (∀ op : Rv32i.StoreOp, (Decoder.recognize word).name = op.name →
      effective a (Rv32i.immS word) + op.width ≤ s.memory.size →
      s.Stores env ptr (effective a (Rv32i.immS word)) op.width b) ∧
    (∀ op : Rv32i.LoadOp, (Decoder.recognize word).name = op.name →
      effective a (Rv32i.immI word) + op.width ≤ s.memory.size →
      (s.Loads env ptr
          (op.value fun i => s.memory.bytes (effective a (Rv32i.immI word) + i)) ↔
        op.Survives fun i => s.memory.bytes (effective a (Rv32i.immI word) + i))) ∧
    (∀ op : Rv32i.LoadOp, (Decoder.recognize word).name = op.name →
      effective a (Rv32i.immI word) + op.width ≤ s.memory.size →
      ∀ (memory : Memory) (data : BitVec 32),
        s.memory = memory.blit (Word.byte data) (effective a (Rv32i.immI word)) op.width →
        (s.Loads env ptr (op.value (Word.byte data)) ↔ op.Survives (Word.byte data))) := by
  subst hrs1 hrs2
  have hshaped := Decoder.decode_shaped hdecode pc
  obtain ⟨hload, hstore⟩ := Decoder.decode_sizes hdecode
  refine ⟨fun op hname hrange => ?_, fun op hname hrange => ?_,
    fun op hname hrange memory data hmemory => ?_⟩
  · have htype := (hshaped.execute_store env op hname).1
    exact h.stores hshaped hexec op hname (hstore (hshaped.type.symm.trans htype)) hrange
  · have htype := (hshaped.execute_load env op hname).1
    rw [← op.computed_eq_iff]
    exact h.loads_iff hshaped hexec op hname (hload (hshaped.type.symm.trans htype)) hrange _
  · have htype := (hshaped.execute_load env op hname).1
    have hsize := hload (hshaped.type.symm.trans htype)
    refine (h.loads_iff hshaped hexec op hname hsize hrange _).trans ?_
    have hbytes : ∀ i, i < op.width →
        s.memory.bytes (effective (dp'.decoder.get p).rs1.value (Rv32i.immI word) + i) =
          Word.byte data i := by
      intro i hi
      rw [hmemory]
      refine (if_pos ⟨Nat.le_add_right .., by omega⟩).trans ?_
      rw [Nat.add_sub_cancel_left]
    rw [← op.computed_eq_iff, ← (op.congr hbytes).2]
    exact Iff.rfl

def inAccess (memory : Memory) (p : InstrPtr) (done : Instruction) : PerfSim :=
  let s := boot memory 0 fun _ => 0
  { s with
    toDatapath := { s.toDatapath with
      decoder := s.decoder.set p done
      emSt := { store := InstrLatch.clear, load := { isStall := false, instr := some p } } } }

theorem inAccess_accessing (memory : Memory) (p : InstrPtr) (done : Instruction) :
    (inAccess memory p done).Accessing p done :=
  ⟨rfl, rfl, rfl, Decoder.get_set_self .., rfl, rfl, rfl, rfl⟩

def fives : Memory := { size := 64, bytes := fun _ => 5 }

/-- `LB x3, 0(x0)` and `LHU x3, 0(x0)` on that memory. -/
theorem fives_lost :
    (∃ dp' p done, Decoder.decode .plain (boot fives 0 fun _ => 0).toDatapath 0x00000183 =
        .ok (dp', p) ∧ ((dp'.decoder.get p).setPc 0).execute .plain = .ok done ∧
      ¬ (inAccess fives p done).Loads .plain p (Rv32i.LoadOp.lb.value fun _ => 5)) ∧
    (∃ dp' p done, Decoder.decode .plain (boot fives 0 fun _ => 0).toDatapath 0x00005183 =
        .ok (dp', p) ∧ ((dp'.decoder.get p).setPc 0).execute .plain = .ok done ∧
      ¬ (inAccess fives p done).Loads .plain p (Rv32i.LoadOp.lhu.value fun _ => 5)) := by
  refine ⟨⟨_, _, _, rfl, rfl, fun h => ?_⟩, ⟨_, _, _, rfl, rfl, fun h => ?_⟩⟩
  · obtain ⟨u, hu, -, hvalue⟩ := h
    cases hu
    exact absurd hvalue (by decide)
  · obtain ⟨u, hu, -, hvalue⟩ := h
    cases hu
    exact absurd hvalue (by decide)

/-- `SB x2, 8(x1)` on that memory, with `x1 = 4` and `x2 = 0x1234`. -/
theorem access_iff_sb : ∃ dp' p done,
    Decoder.decode .plain (boot fives 0 fun num => if num = 1 then 4 else 0x1234).toDatapath
      0x00208423 = .ok (dp', p) ∧
    ((dp'.decoder.get p).setPc 0).execute .plain = .ok done ∧
    (inAccess fives p done).Stores .plain p 12 1 0x1234 := by
  have hdecode : ∃ dp' p done, Decoder.decode .plain
      (boot fives 0 fun num => if num = 1 then 4 else 0x1234).toDatapath 0x00208423 =
        .ok (dp', p) ∧ ((dp'.decoder.get p).setPc 0).execute .plain = .ok done ∧
      (dp'.decoder.get p).rs1.value = 4 ∧ (dp'.decoder.get p).rs2.value = 0x1234 :=
    ⟨_, _, _, rfl, rfl, rfl, rfl⟩
  obtain ⟨dp', p, done, hdecode, hexec, hrs1, hrs2⟩ := hdecode
  have hrange : effective 4 (Rv32i.immS 0x00208423) + 1 ≤ 64 := by decide
  exact ⟨dp', p, done, hdecode, hexec,
    (access_iff hdecode hrs1 hrs2 hexec (inAccess_accessing fives p done)).1 .sb rfl hrange⟩

end PerfSim

end RiscvPerfSim
