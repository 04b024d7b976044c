import RiscvPerfSim.Core.Stores

/-!
# Queued stores

The bytes of a word, the part of memory that a queued store changes, and the
memory that is left when a queue has been written in order.
-/

namespace RiscvPerfSim

open Foundation

/-! ## Bytes and words -/

namespace Word

variable {word word' : BitVec 32} {bytes : Nat → BitVec 8} {i j : Nat}

theorem getLsbD_byte : (byte word i).getLsbD j = (decide (j < 8) && word.getLsbD (8 * i + j)) := by
  rw [byte, BitVec.getLsbD_extractLsb']

theorem getLsbD_ofBytes (hj : j < 32) :
    (ofBytes bytes).getLsbD j = (bytes (j / 8)).getLsbD (j % 8) := by
  unfold ofBytes
  simp only [BitVec.getLsbD_append]
  split_ifs with h0 h1 h2
  · rw [Nat.div_eq_of_lt h0, Nat.mod_eq_of_lt h0]
  · rw [show j / 8 = 1 by omega, show j % 8 = j - 8 by omega]
  · rw [show j / 8 = 2 by omega, show j % 8 = j - 8 - 8 by omega]
  · rw [show j / 8 = 3 by omega, show j % 8 = j - 8 - 8 - 8 by omega]

theorem byte_ofBytes (hi : i < 4) : byte (ofBytes bytes) i = bytes i := by
  apply BitVec.eq_of_getLsbD_eq
  intro j hj
  rw [getLsbD_byte, getLsbD_ofBytes (by omega), decide_eq_true hj, Bool.true_and,
    show (8 * i + j) / 8 = i by omega, show (8 * i + j) % 8 = j by omega]

theorem getLsbD_eq_byte (word : BitVec 32) (j : Nat) :
    word.getLsbD j = (byte word (j / 8)).getLsbD (j % 8) := by
  rw [getLsbD_byte, decide_eq_true (Nat.mod_lt j (by decide)), Bool.true_and, Nat.div_add_mod]

theorem byte_overlay {buffer : BitVec 32} {count : Nat} (hcount : count ≤ 4) (hi : i < count) :
    byte (overlay buffer bytes count) i = bytes i := by
  rw [overlay, byte_ofBytes (by omega), if_pos hi]

theorem byte_or : byte (word ||| word') i = byte word i ||| byte word' i :=
  BitVec.extractLsb'_or

theorem setWidth_eq_iff {count : Nat} :
    word.setWidth (8 * count) = word'.setWidth (8 * count) ↔
      ∀ i < count, byte word i = byte word' i := by
  constructor
  · intro h i hi
    apply BitVec.eq_of_getLsbD_eq
    intro j hj
    have hbit := congrArg (fun w => w.getLsbD (8 * i + j)) h
    simp only [BitVec.getLsbD_setWidth, show 8 * i + j < 8 * count by omega, decide_true,
      Bool.true_and] at hbit
    rw [getLsbD_byte, getLsbD_byte, hbit]
  · intro h
    apply BitVec.eq_of_getLsbD_eq
    intro j hj
    have hbit := congrArg (fun w => w.getLsbD (j % 8)) (h (j / 8) (by omega))
    simp only [getLsbD_byte, show j % 8 < 8 by omega, show 8 * (j / 8) + j % 8 = j by omega,
      decide_true, Bool.true_and] at hbit
    rw [BitVec.getLsbD_setWidth, BitVec.getLsbD_setWidth, hbit]

end Word

theorem memcpy_ok (dst src : BitVec 32) {dstOff srcOff count : BitVec 64}
    (hdst : dstOff.toNat + count.toNat ≤ 4) (hsrc : srcOff.toNat + count.toNat ≤ 4) :
    ∃ word, memcpy dst dstOff src srcOff count = .ok word ∧ ∀ i < 4, Word.byte word i =
      if dstOff.toNat ≤ i ∧ i < dstOff.toNat + count.toNat then
        Word.byte src (srcOff.toNat + (i - dstOff.toNat))
      else Word.byte dst i := by
  unfold memcpy
  by_cases hcount : count = 0
  · refine ⟨dst, if_pos hcount, fun i _ => ?_⟩
    subst hcount
    rw [if_neg]
    simp
  · refine ⟨_, (if_neg hcount).trans (if_neg (by omega)), fun i hi => ?_⟩
    rw [Word.byte_ofBytes hi]

theorem memcpy_error (dst src : BitVec 32) {dstOff srcOff count : BitVec 64} (hcount : count ≠ 0)
    (h : dstOff.toNat + count.toNat > 4 ∨ srcOff.toNat + count.toNat > 4) :
    memcpy dst dstOff src srcOff count = .error (.undefined "memcpy outside a field") :=
  (if_neg hcount).trans (if_pos h)

/-! ## The bytes of a store -/

namespace Store

variable {st it : Store} {x : Nat}

def Covers (st : Store) (x : Nat) : Prop :=
  st.addr.toNat ≤ x ∧ x < st.addr.toNat + st.size.toNat

instance : Decidable (st.Covers x) := inferInstanceAs (Decidable (_ ∧ _))

def byteAt (st : Store) (x : Nat) : BitVec 8 := Word.byte st.data (x - st.addr.toNat)

def patch (st : Store) : Patch Nat (BitVec 8) :=
  Patch.range st.addr.toNat st.size.toNat (Word.byte st.data)

theorem patch_of_covers (h : st.Covers x) : st.patch x = some (st.byteAt x) :=
  Patch.range_of_mem h

theorem patch_eq_none_iff : st.patch x = none ↔ ¬ st.Covers x := Patch.range_eq_none_iff

theorem patch_isSome_iff : (st.patch x).isSome = true ↔ st.Covers x := Patch.range_isSome_iff

def Straight (st : Store) : Prop := st.addr.toNat + st.size.toNat < 2 ^ 64

instance : Decidable st.Straight := inferInstanceAs (Decidable (_ < _))

theorem stop_toNat (h : st.Straight) : st.stop.toNat = st.addr.toNat + st.size.toNat := by
  rw [stop, BitVec.toNat_add, Nat.mod_eq_of_lt h]

theorem bytes_drained (memory : Memory) :
    (st.drained memory).bytes = st.patch.apply memory.bytes := by
  unfold drained
  split_ifs with hsize
  · exact Memory.bytes_blit ..
  · have hzero : st.size.toNat = 0 := by
      have hle := BitVec.lt_def.not.mp hsize
      simpa using hle
    funext x
    have hnone : st.patch x = none := by
      rw [patch_eq_none_iff, Covers, hzero]
      omega
    rw [Patch.apply, hnone]
    rfl

def write (st : Store) (memory : Memory) : Except Error Memory :=
  if st.size > 0 then do
    let memory ← memory.write (Word.byte st.data) st.addr.toNat st.size.toNat
    if st.size > 4 then .error (.undefined "memcpy outside a field")
    else return memory
  else .ok memory

theorem write_ok_iff {memory memory' : Memory} :
    st.write memory = .ok memory' ↔ st.Fits memory ∧ memory' = st.drained memory := by
  unfold write drained
  by_cases hsize : st.size > 0
  · rw [if_pos hsize, if_pos hsize]
    constructor
    · intro h
      obtain ⟨written, hwrite, h⟩ := ok_of_bind h
      split_ifs at h with hlarge
      cases h
      exact ⟨⟨by bv_omega, fun _ => Memory.inRange_of_write hwrite⟩,
        Memory.eq_blit_of_write hwrite⟩
    · rintro ⟨hfits, rfl⟩
      have hsmall : ¬ st.size > 4 := by
        have hle := hfits.small
        bv_omega
      rw [Memory.write_of_inRange _ (hfits.inRange hsize)]
      exact if_neg hsmall
  · rw [if_neg hsize, if_neg hsize]
    constructor
    · intro h
      cases h
      exact ⟨⟨by bv_omega, fun hpos => absurd hpos hsize⟩, rfl⟩
    · rintro ⟨-, rfl⟩
      rfl

end Store

/-! ## Draining a queue -/

def drain : List Store → Memory → Except Error Memory
  | [], memory => .ok memory
  | st :: rest, memory => st.write memory >>= drain rest

def queuePatch (queue : List Store) : Patch Nat (BitVec 8) := Patch.newest (queue.map Store.patch)

theorem queuePatch_cons {st : Store} {queue : List Store} {x : Nat} :
    queuePatch (st :: queue) x = (queuePatch queue x).or (st.patch x) := rfl

theorem queuePatch_eq_none_iff {queue : List Store} {x : Nat} :
    queuePatch queue x = none ↔ ∀ st ∈ queue, ¬ st.Covers x := by
  rw [queuePatch, Patch.newest_eq_none_iff, List.forall_mem_map]
  exact forall_congr' fun st => imp_congr_right fun _ => Store.patch_eq_none_iff

theorem queuePatch_isSome_iff {queue : List Store} {x : Nat} :
    (queuePatch queue x).isSome = true ↔ ∃ st ∈ queue, st.Covers x := by
  rw [queuePatch, Patch.newest_isSome_iff]
  simp only [List.mem_map, exists_exists_and_eq_and, Store.patch_isSome_iff]

theorem drain_ok_iff {queue : List Store} {memory memory' : Memory} :
    drain queue memory = .ok memory' ↔ (∀ st ∈ queue, st.Fits memory) ∧
      memory'.size = memory.size ∧ memory'.bytes = (queuePatch queue).apply memory.bytes := by
  induction queue generalizing memory with
  | nil =>
      constructor
      · intro h
        cases h
        exact ⟨fun st hst => absurd hst (List.not_mem_nil), rfl, rfl⟩
      · rintro ⟨-, hsize, hbytes⟩
        obtain ⟨size, bytes⟩ := memory
        obtain ⟨size', bytes'⟩ := memory'
        cases hsize
        cases hbytes
        rfl
  | cons st rest ih =>
      have hfits (other : Store) : other.Fits (st.drained memory) ↔ other.Fits memory := by
        refine ⟨fun h => ⟨h.small, fun hpos => ?_⟩, fun h => ⟨h.small, fun hpos => ?_⟩⟩
        · simpa using h.inRange hpos
        · simpa using h.inRange hpos
      have hbytes : (queuePatch rest).apply (st.drained memory).bytes =
          (queuePatch (st :: rest)).apply memory.bytes := by
        rw [Store.bytes_drained, queuePatch, queuePatch, ← Patch.foldl_apply,
          ← Patch.foldl_apply, List.map_cons, List.foldl_cons]
      rw [List.forall_mem_cons, and_assoc]
      constructor
      · intro h
        obtain ⟨written, hwrite, h⟩ := ok_of_bind h
        obtain ⟨hst, rfl⟩ := Store.write_ok_iff.mp hwrite
        obtain ⟨hrest, hsize, hmemory⟩ := ih.mp h
        refine ⟨hst, fun other hother => (hfits other).mp (hrest other hother), ?_, ?_⟩
        · rw [hsize, Store.size_drained]
        · rw [hmemory, hbytes]
      · rintro ⟨hst, hrest, hsize, hmemory⟩
        rw [drain, Store.write_ok_iff.mpr ⟨hst, rfl⟩]
        refine ih.mpr ⟨fun other hother => (hfits other).mpr (hrest other hother), ?_, ?_⟩
        · rw [hsize, Store.size_drained]
        · rw [hmemory, hbytes]

namespace Pipeline

theorem update_eq_write (memory : Memory) (pipeline : Pipeline) :
    pipeline.update memory =
      (((pipeline.queue ++ [pipeline.store]).headD Store.clear).write memory).map fun memory =>
        (memory, { pipeline with
          queue := (pipeline.queue ++ [pipeline.store]).tail, store := Store.clear }) := by
  unfold update Store.write
  dsimp only
  split_ifs with hsize hlarge
  · cases memory.write _ _ _ <;> rfl
  · cases memory.write _ _ _ <;> rfl
  · rfl

theorem rel_head_id {r : BitVec 32 → BitVec 32 → Prop} (hrefl : ∀ id, r id id) (endId : BitVec 32)
    {queue : List Store} (hsorted : queue.Pairwise fun it other => r it.id other.id) :
    ∀ it ∈ queue, r ((queue.head?.map Store.id).getD endId) it.id := by
  intro it hit
  cases hsorted with
  | nil => cases hit
  | cons hhead _ =>
      rcases List.mem_cons.mp hit with rfl | hrest
      · exact hrefl _
      · exact hhead it hrest

def updates : Nat → Memory → Pipeline → Except Error (Memory × Pipeline)
  | 0, memory, pipeline => .ok (memory, pipeline)
  | n + 1, memory, pipeline => do
      let (memory, pipeline) ← pipeline.update memory
      updates n memory pipeline

/-- The stores leave the queue one by one, from its front. -/
theorem updates_eq_drain {n : Nat} {memory : Memory} {pipeline : Pipeline}
    (hn : n ≤ pipeline.queue.length + 1) : (updates n memory pipeline).map Prod.fst =
      drain ((pipeline.queue ++ [pipeline.store]).take n) memory := by
  induction n generalizing memory pipeline with
  | zero => rfl
  | succ n ih =>
      obtain ⟨front, rest, hqueue⟩ : ∃ front rest,
          pipeline.queue ++ [pipeline.store] = front :: rest :=
        List.exists_cons_of_ne_nil (by simp)
      have hlength := congrArg List.length hqueue
      rw [List.length_append, List.length_singleton, List.length_cons] at hlength
      rw [updates, update_eq_write, hqueue, List.take_succ_cons, drain]
      change ((front.write memory).map _ >>= _).map Prod.fst = _
      cases hwrite : front.write memory with
      | error e => rfl
      | ok written =>
          have hrest := @ih written { pipeline with queue := rest, store := Store.clear } (by
            change n ≤ rest.length + 1
            omega)
          rw [List.take_append_of_le_length (by
            change n ≤ rest.length
            omega)] at hrest
          exact hrest

end Pipeline

end RiscvPerfSim
