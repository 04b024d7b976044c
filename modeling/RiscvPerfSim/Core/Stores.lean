import Mathlib.Tactic.IntervalCases
import RiscvPerfSim.Core.Invariant
import RiscvPerfSim.Foundation.Patch

/-!
# Loads and stores

What an extension keeps of a loaded word, what a store does to guest memory and
to later reads, and the store that a cycle of the abstract pipeline drains.
-/

namespace RiscvPerfSim

open Foundation

/-! ## Loaded values -/

theorem getLsbD_three (i : Nat) : (3#32).getLsbD i = decide (i < 2) := by
  rcases Nat.lt_or_ge i 32 with hlt | hge
  · interval_cases i <;> rfl
  · rw [BitVec.getLsbD_of_ge _ _ hge]
    simp
    omega

private theorem and_three_append (high high' : BitVec 24) (low : BitVec 8) :
    (high ++ low) &&& 3#32 = (high' ++ low) &&& 3#32 := by
  apply BitVec.eq_of_getLsbD_eq
  intro i hi
  rw [BitVec.getLsbD_and, BitVec.getLsbD_and, getLsbD_three, BitVec.getLsbD_append,
    BitVec.getLsbD_append]
  by_cases hlow : i < 8
  · simp [hlow]
  · have hhigh : ¬ i < 2 := by omega
    simp [hhigh]

private theorem and_three_sshiftRight (num : BitVec 32) {k : Nat} (hk : k < 2) :
    (num &&& 3#32).sshiftRight k &&& 1#32 = num.sshiftRight k &&& 1#32 := by
  have hmask : (3#32).sshiftRight k &&& 1#32 = 1#32 := by
    interval_cases k <;> rfl
  rw [BitVec.sshiftRight_and_distrib, BitVec.and_assoc, hmask]

private theorem or_and_three (mask num : BitVec 32) (hmask : mask ||| 3#32 = BitVec.allOnes 32) :
    mask ||| (num &&& 3#32) = mask ||| num := by
  apply BitVec.eq_of_getLsbD_eq
  intro i hi
  have hbit := congrArg (fun x : BitVec 32 => x.getLsbD i) hmask
  simp only [BitVec.getLsbD_or, getLsbD_three, BitVec.getLsbD_allOnes] at hbit
  simp only [BitVec.getLsbD_or, BitVec.getLsbD_and, getLsbD_three]
  cases hm : mask.getLsbD i <;> simp_all

namespace Word

theorem overlay_full (buffer : BitVec 32) (bytes : Nat → BitVec 8) :
    overlay buffer bytes 4 = ofBytes bytes := by
  simp [overlay, ofBytes]

/-- Any byte that is read decides the lowest two bits. -/
theorem overlay_and_three (buffer buffer' : BitVec 32) (bytes : Nat → BitVec 8) {count : Nat}
    (hcount : 0 < count) :
    overlay buffer bytes count &&& 3#32 = overlay buffer' bytes count &&& 3#32 := by
  simp only [overlay, ofBytes, hcount, if_true]
  exact and_three_append _ _ _

end Word

namespace PerfSim

private theorem signExtend_small {size : BitVec 32} (hsize : size = 1 ∨ size = 2) :
    ∃ (mask : BitVec 32) (k : Nat), k < 2 ∧ mask &&& 3#32 = mask ∧
      ~~~mask ||| 3#32 = BitVec.allOnes 32 ∧
      ∀ num, signExtend num size .zero = .ok (mask &&& num) ∧
        signExtend num size .sign =
          if num.sshiftRight k &&& 1#32 ≠ 0 then .ok (~~~mask ||| num)
          else .ok (mask &&& num) := by
  rcases hsize with rfl | rfl
  · exact ⟨1#32, 0, by decide, by decide, by decide, fun num => ⟨rfl, rfl⟩⟩
  · exact ⟨3#32, 1, by decide, by decide, by decide, fun num => ⟨rfl, rfl⟩⟩

/-- The extension of a byte or a halfword keeps at most the lowest two bits. -/
theorem signExtend_and_three (num : BitVec 32) {size : BitVec 32} (type : ExtendType)
    (hsize : size = 1 ∨ size = 2) :
    signExtend (num &&& 3#32) size type = signExtend num size type := by
  obtain ⟨mask, k, hk, hmask, hor, hextend⟩ := signExtend_small hsize
  have hand : mask &&& (num &&& 3#32) = mask &&& num := by
    rw [BitVec.and_comm num, ← BitVec.and_assoc, hmask]
  cases type with
  | zero => rw [(hextend _).1, (hextend _).1, hand]
  | sign =>
      rw [(hextend _).2, (hextend _).2, hand, or_and_three _ num hor,
        and_three_sshiftRight num hk]

theorem extendLoaded_overlay (instr : Instruction) {word : BitVec 32}
    (hcarries : instr.Carries word) (hload : instr.memAccType = .read)
    (buffer buffer' : BitVec 32) (bytes : Nat → BitVec 8) :
    extendLoaded instr (Word.overlay buffer bytes (toAddress instr.loadSize).toNat) =
      extendLoaded instr (Word.overlay buffer' bytes (toAddress instr.loadSize).toNat) := by
  have hread : (Decoder.recognize word).memAccType = .read := hcarries.memAccType ▸ hload
  obtain ⟨htype, -, -, hname⟩ := (Decoder.recognize_sound word).read hread
  have hsize := hcarries.loadSize (hcarries.type.trans htype)
  have hsizes := (Decoder.recognize_sound word).size (by rw [hread]; simp)
  rw [← hcarries.name] at hname
  rw [← hsize] at hsizes
  have hcount : 0 < (toAddress instr.loadSize).toNat := by
    rcases hsizes with h | h | h <;> rw [h] <;> decide
  by_cases hfour : instr.loadSize = 4
  · rw [hfour, show (toAddress 4).toNat = 4 by decide, Word.overlay_full, Word.overlay_full]
  · have hsmall : instr.loadSize = 1 ∨ instr.loadSize = 2 := by
      rcases hsizes with h | h | h
      · exact .inl h
      · exact .inr h
      · exact absurd h hfour
    have hlow := Word.overlay_and_three buffer buffer' bytes hcount
    unfold extendLoaded
    split_ifs with hzero hsign
    · rw [← signExtend_and_three _ _ hsmall, hlow, signExtend_and_three _ _ hsmall]
    · rw [← signExtend_and_three _ _ hsmall, hlow, signExtend_and_three _ _ hsmall]
    · tauto

end PerfSim

/-- The same run without the store queue. -/
def Env.direct (env : Env) : Env := { env with config := { env.config with isSq := false } }

namespace Core

variable {env : Env} {c : Core}

theorem loadEffect_congr (env env' : Env) (clock : Nat) (memory : Memory) {instr : Instruction}
    {word : BitVec 32} (hcarries : instr.Carries word) :
    loadEffect env clock memory instr = loadEffect env' clock memory instr := by
  unfold loadEffect
  split_ifs with hload
  · unfold Memory.read
    split_ifs
    · rfl
    · rfl
    · simp only [bind, Except.bind,
        PerfSim.extendLoaded_overlay instr hcarries hload.1 (loadBuffer env clock)
          (loadBuffer env' clock)]
  · rfl

end Core

/-! ## Stores -/

namespace Instruction

def asStore (instr : Instruction) : Store :=
  { addr := toAddress instr.storeAddres
    size := toAddress instr.storeSize
    data := instr.rs2.value }

theorem Carries.asStore_size {instr : Instruction} {word : BitVec 32} (h : instr.Carries word)
    (hacc : instr.memAccType = .write) (htype : instr.type = .s) :
    instr.asStore.size > 0 ∧ instr.asStore.size ≤ 4 := by
  have hsizes := (Decoder.recognize_sound word).size (by
    rw [← h.memAccType, hacc]
    simp)
  rw [← h.storeSize htype] at hsizes
  change toAddress instr.storeSize > 0 ∧ toAddress instr.storeSize ≤ 4
  rcases hsizes with hsize | hsize | hsize <;> rw [hsize] <;> decide

end Instruction

namespace Memory

theorem write_of_inRange {memory : Memory} (data : Nat → BitVec 8) {addr count : Nat}
    (h : addr + count ≤ memory.size) :
    memory.write data addr count = .ok (memory.blit data addr count) := by
  have hwrapped : wrappedEnd addr count ≤ addr + count := Nat.mod_le _ _
  unfold write
  rw [if_neg (by omega), if_neg (by omega)]

theorem eq_blit_of_write {memory memory' : Memory} {data : Nat → BitVec 8} {addr count : Nat}
    (h : memory.write data addr count = .ok memory') : memory' = memory.blit data addr count := by
  unfold write at h
  split_ifs at h
  cases h
  rfl

theorem inRange_of_write {memory memory' : Memory} {data : Nat → BitVec 8} {addr count : Nat}
    (h : memory.write data addr count = .ok memory') : addr + count ≤ memory.size := by
  unfold write at h
  split_ifs at h
  omega

theorem read_of_inRange {memory : Memory} (buffer : BitVec 32) {addr count : Nat}
    (h : addr + count ≤ memory.size) : memory.read buffer addr count =
      .ok (Word.overlay buffer (fun i => memory.bytes (addr + i)) count) := by
  have hwrapped : wrappedEnd addr count ≤ addr + count := Nat.mod_le _ _
  unfold read
  rw [if_neg (by omega), if_neg (by omega)]

theorem bytes_blit (memory : Memory) (data : Nat → BitVec 8) (addr count : Nat) :
    (memory.blit data addr count).bytes = (Patch.range addr count data).apply memory.bytes := by
  funext a
  by_cases hmem : addr ≤ a ∧ a < addr + count
  · simp [blit, Patch.apply, Patch.range, hmem]
  · simp [blit, Patch.apply, Patch.range, hmem]

theorem read_blit {memory : Memory} (data : Nat → BitVec 8) (buffer : BitVec 32)
    {addr count addr' count' : Nat} (h : addr' + count' ≤ addr ∨ addr + count ≤ addr') :
    (memory.blit data addr count).read buffer addr' count' = memory.read buffer addr' count' := by
  have hbyte : ∀ i, i < count' →
      (memory.blit data addr count).bytes (addr' + i) = memory.bytes (addr' + i) := by
    intro i hi
    refine if_neg ?_
    omega
  unfold read
  simp only [show (memory.blit data addr count).size = memory.size from rfl]
  split_ifs
  · rfl
  · rfl
  · unfold Word.overlay
    congr 2
    funext i
    split_ifs with hi
    · exact hbyte i hi
    · rfl

end Memory

namespace Store

def drained (store : Store) (memory : Memory) : Memory :=
  if store.size > 0 then
    memory.blit (Word.byte store.data) store.addr.toNat store.size.toNat
  else memory

@[simp] theorem size_drained (store : Store) (memory : Memory) :
    (store.drained memory).size = memory.size := by
  unfold drained
  split_ifs <;> rfl

structure Fits (store : Store) (memory : Memory) : Prop where
  small : store.size ≤ 4
  inRange : store.size > 0 → store.addr.toNat + store.size.toNat ≤ memory.size

theorem update_store (store : Store) (memory : Memory) :
    Pipeline.update memory { store := store } =
      if store.size > 0 then do
        let memory ← memory.write (Word.byte store.data) store.addr.toNat store.size.toNat
        if store.size > 4 then .error (.undefined "memcpy outside a field")
        else return (memory, {})
      else .ok (memory, {}) := rfl

theorem update_eq {store : Store} {memory : Memory} (h : store.Fits memory) :
    Pipeline.update memory { store := store } = .ok (store.drained memory, {}) := by
  rw [update_store, drained]
  by_cases hsize : store.size > 0
  · have hsmall : ¬ store.size > 4 := by
      have hle := h.small
      bv_omega
    rw [if_pos hsize, if_pos hsize, Memory.write_of_inRange _ (h.inRange hsize)]
    exact if_neg hsmall
  · rw [if_neg hsize, if_neg hsize]

theorem eq_drained_of_update {store : Store} {memory memory' : Memory} {pipeline : Pipeline}
    (h : Pipeline.update memory { store := store } = .ok (memory', pipeline)) :
    memory' = store.drained memory := by
  rw [update_store] at h
  unfold drained
  by_cases hsize : store.size > 0
  · rw [if_pos hsize] at h ⊢
    obtain ⟨written, hwrite, h⟩ := ok_of_bind h
    split_ifs at h
    cases h
    exact Memory.eq_blit_of_write hwrite
  · rw [if_neg hsize] at h ⊢
    cases h
    rfl

theorem fits_clear (memory : Memory) : Store.clear.Fits memory :=
  ⟨by decide, fun h => absurd h (by decide)⟩

theorem inRange_of_update {store : Store} {memory memory' : Memory} {pipeline : Pipeline}
    (h : Pipeline.update memory { store := store } = .ok (memory', pipeline))
    (hsize : store.size > 0) : store.addr.toNat + store.size.toNat ≤ memory.size := by
  rw [update_store, if_pos hsize] at h
  obtain ⟨written, hwrite, -⟩ := ok_of_bind h
  exact Memory.inRange_of_write hwrite

end Store

namespace Instruction

def pending (instr : Instruction) : Store :=
  if instr.memAccType = .write ∧ instr.type = .s then instr.asStore else Store.clear

variable {env : Env} {instr : Instruction} {word : BitVec 32} {memory memory' : Memory}
  {store : Store}

theorem Carries.storeEffect_direct (hcarries : instr.Carries word)
    (h : Core.storeEffect env.direct memory instr = .ok (memory', store)) :
    instr.pending.Fits memory ∧ memory' = instr.pending.drained memory := by
  unfold Core.storeEffect at h
  unfold pending
  by_cases hstore : instr.memAccType = .write ∧ instr.type = .s
  · rw [if_pos hstore, Env.direct, if_neg (by simp)] at h
    rw [if_pos hstore]
    obtain ⟨written, hwrite, h⟩ := ok_of_bind h
    cases h
    obtain ⟨hpos, hle⟩ := hcarries.asStore_size hstore.1 hstore.2
    refine ⟨⟨hle, fun _ => Memory.inRange_of_write hwrite⟩, ?_⟩
    rw [Store.drained, if_pos hpos]
    exact Memory.eq_blit_of_write hwrite
  · rw [if_neg hstore] at h ⊢
    cases h
    exact ⟨Store.fits_clear memory, rfl⟩

/-- Whether it waits for the end of the cycle or not, a store that fits reaches memory. -/
theorem storeEffect_asStore (env : Env) (hstore : instr.memAccType = .write ∧ instr.type = .s)
    (hpos : instr.asStore.size > 0) (hfits : instr.asStore.Fits memory) :
    ∃ accessed store, Core.storeEffect env memory instr = .ok (accessed, store) ∧
      Pipeline.update accessed { store := store } = .ok (instr.asStore.drained memory, {}) ∧
      (accessed = memory ∨ accessed = instr.asStore.drained memory) := by
  unfold Core.storeEffect
  rw [if_pos hstore]
  cases hsq : env.config.isSq with
  | true => exact ⟨memory, instr.asStore, rfl, Store.update_eq hfits, .inl rfl⟩
  | false =>
      have hwrite := Memory.write_of_inRange (Word.byte instr.rs2.value) (hfits.inRange hpos)
      have hdrained : instr.asStore.drained memory = memory.blit (Word.byte instr.rs2.value)
          instr.asStore.addr.toNat instr.asStore.size.toNat := if_pos hpos
      rw [← hdrained] at hwrite
      refine ⟨instr.asStore.drained memory, Store.clear, ?_, Store.update_eq (Store.fits_clear _),
        .inr rfl⟩
      rw [if_neg (by simp)]
      change (memory.write _ instr.asStore.addr.toNat instr.asStore.size.toNat >>= _) = _
      rw [hwrite]
      rfl

theorem Carries.storeEffect_fits (env : Env) (hcarries : instr.Carries word)
    (hfits : instr.pending.Fits memory) :
    ∃ accessed store, Core.storeEffect env memory instr = .ok (accessed, store) ∧
      Pipeline.update accessed { store := store } = .ok (instr.pending.drained memory, {}) ∧
      (accessed = memory ∨ accessed = instr.pending.drained memory) := by
  unfold pending at hfits ⊢
  by_cases hstore : instr.memAccType = .write ∧ instr.type = .s
  · rw [if_pos hstore] at hfits ⊢
    exact storeEffect_asStore env hstore (hcarries.asStore_size hstore.1 hstore.2).1 hfits
  · rw [if_neg hstore, Core.storeEffect, if_neg hstore]
    exact ⟨memory, Store.clear, rfl, Store.update_eq (Store.fits_clear _), .inl rfl⟩

end Instruction

namespace Core

variable {env : Env} {c : Core} {instr : Instruction} {word : BitVec 32}

def stored (c : Core) : Store :=
  match live c.em with
  | some instr =>
      if instr.memAccType = .write ∧ instr.type = .s then instr.asStore else Store.clear
  | none => Store.clear

theorem stored_size_le (hinv : c.Inv) : c.stored.size ≤ 4 := by
  unfold stored
  split
  · rename_i instr hem
    split_ifs with hstore
    · obtain ⟨word, hword⟩ := hinv.executed _ (live_iff.mp hem)
      exact (hword.asStore_size hstore.1 hstore.2).2
    · decide
  · decide

theorem memStage_queued (hsq : env.config.isSq = true) {accessed : Accessed}
    (h : c.memStage env = .ok accessed) :
    accessed.memory = c.memory ∧ accessed.pending = c.stored := by
  rcases memStage_ok h with ⟨instr, instr', hem, -, hstore, -⟩ | ⟨hem, rfl⟩
  · have hlive : live c.em = some instr := live_iff.mpr hem
    unfold storeEffect at hstore
    simp only [stored, hlive]
    split_ifs at hstore ⊢ with haccess
    · rw [Except.ok.injEq, Prod.mk.injEq] at hstore
      exact ⟨hstore.1.symm, hstore.2.symm⟩
    · rw [Except.ok.injEq, Prod.mk.injEq] at hstore
      exact ⟨hstore.1.symm, hstore.2.symm⟩
  · have hnone : live c.em = none := by
      rw [Option.eq_none_iff_forall_ne_some]
      exact fun i hi => hem i (live_iff.mp hi)
    simp only [stored, hnone, and_self]

end Core

end RiscvPerfSim
