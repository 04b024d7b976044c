import RiscvPerfSim.Core.Queue
import RiscvPerfSim.Core.Reachable

/-!
# Loads over queued stores

What `searchData` returns for a load that finds stores in the queue, against
the bytes of the youngest store at each address.
-/

namespace RiscvPerfSim

open Foundation

namespace Store

variable {ld it st : Store} {queue : List Store}

def Surrounds (it ld : Store) : Prop :=
  it.addr.toNat < ld.addr.toNat ∧
    ld.addr.toNat + ld.size.toNat < it.addr.toNat + it.size.toNat

instance : Decidable (it.Surrounds ld) := inferInstanceAs (Decidable (_ ∧ _))

/-- The store runs past the last address, and comes back into the load or next to it. -/
def WrapsInto (it ld : Store) : Prop :=
  ¬ it.Straight ∧ ld.addr ≤ it.stop ∧ it.stop ≤ ld.stop

instance : Decidable (it.WrapsInto ld) := inferInstanceAs (Decidable (_ ∧ _))

/-- Some store at the index of a bit, taken for the index of a byte. -/
def Marked (queue : List Store) (ld : Store) (j : Nat) : Prop :=
  (∃ it ∈ queue, it.Surrounds ld) ∨
    j < ld.size.toNat ∧ ∃ it ∈ queue, it.Covers (ld.addr.toNat + j)

instance {j : Nat} : Decidable (Marked queue ld j) := inferInstanceAs (Decidable (_ ∨ _))

theorem marked_cons {j : Nat} : Marked (it :: queue) ld j ↔
    (it.Surrounds ld ∨ j < ld.size.toNat ∧ it.Covers (ld.addr.toNat + j)) ∨
      Marked queue ld j := by
  simp only [Marked, List.exists_mem_cons_iff]
  rw [and_or_left, or_or_or_comm]

end Store

namespace Pipeline

variable {ld it : Store} {fullness : Fullness} {queue : List Store}

/-! ## One queued store -/

theorem mark_ok (fullness : Fullness) (lo : BitVec 64) {hi : BitVec 64} (hhi : hi.toNat ≤ 32) :
    mark fullness lo hi = .ok fun i =>
      fullness i || (decide (lo.toNat ≤ i) && decide (i < hi.toNat)) :=
  if_neg (by omega)

structure Low (ld : Store) : Prop where
  size : ld.size.toNat ≤ 4
  range : ld.addr.toNat + ld.size.toNat < 2 ^ 63

theorem Low.stop_toNat (h : Low ld) : ld.stop.toNat = ld.addr.toNat + ld.size.toNat :=
  Store.stop_toNat (Nat.lt_trans h.range (by decide))

structure Forwards (ld it : Store) (fullness : Fullness) (data : BitVec 32)
    (fullness' : Fullness) : Prop where
  byte : ∀ i < 4, Word.byte data i =
    if i < ld.size.toNat ∧ it.Covers (ld.addr.toNat + i) then it.byteAt (ld.addr.toNat + i)
    else Word.byte ld.data i
  full : ∀ j, fullness' j = true ↔ fullness j = true ∨ it.Surrounds ld ∨
    j < ld.size.toNat ∧ it.Covers (ld.addr.toNat + j)

private theorem forwards_copy (fullness : Fullness) {dst src count lo hi : BitVec 64}
    (hdst : dst.toNat + count.toNat ≤ 4) (hsrc : src.toNat + count.toNat ≤ 4)
    (hlo : lo.toNat = dst.toNat) (hhi : hi.toNat = dst.toNat + count.toNat)
    (hcovers : ∀ j, dst.toNat ≤ j ∧ j < dst.toNat + count.toNat ↔
      j < ld.size.toNat ∧ it.Covers (ld.addr.toNat + j))
    (hbyte : ∀ j, dst.toNat ≤ j → src.toNat + (j - dst.toNat) = ld.addr.toNat + j - it.addr.toNat)
    (hinside : ¬ it.Surrounds ld) :
    ∃ data fullness', (do
        let data ← memcpy ld.data dst it.data src count
        let fullness ← mark fullness lo hi
        return ({ ld with data := data }, fullness) : Except Error (Store × Fullness)) =
          .ok ({ ld with data := data }, fullness') ∧
      Forwards ld it fullness data fullness' := by
  obtain ⟨data, hdata, hbytes⟩ := memcpy_ok ld.data it.data hdst hsrc
  refine ⟨data, fun j => fullness j || (decide (lo.toNat ≤ j) && decide (j < hi.toNat)), ?_,
    fun i hi => ?_, fun j => ?_⟩
  · rw [hdata, mark_ok fullness lo (by omega)]
    rfl
  · rw [hbytes i hi]
    by_cases hmem : dst.toNat ≤ i ∧ i < dst.toNat + count.toNat
    · rw [if_pos hmem, if_pos ((hcovers i).mp hmem), hbyte i hmem.1]
      rfl
    · rw [if_neg hmem, if_neg fun h => hmem ((hcovers i).mpr h)]
  · rw [Bool.or_eq_true, Bool.and_eq_true, decide_eq_true_iff, decide_eq_true_iff, hlo, hhi,
      hcovers, or_iff_right hinside]

section Step

variable (hlow : Low ld) (hsmall : it.size.toNat ≤ 4)
include hlow hsmall

section Straight

variable (fullness : Fullness) (hstraight : it.Straight)
include hstraight

private theorem searchStep_front (hends : it.stop ≥ ld.addr ∧ it.stop ≤ ld.stop)
    (hbelow : ld.addr ≥ it.addr) :
    ∃ data fullness', searchStep ld it fullness = .ok ({ ld with data := data }, fullness') ∧
      Forwards ld it fullness data fullness' := by
  have hzero : (0 : BitVec 64).toNat = 0 := rfl
  have hsize := hlow.size
  have hld := hlow.stop_toNat
  have hit := Store.stop_toNat hstraight
  have hoff : (ld.addr - it.addr).toNat = ld.addr.toNat - it.addr.toNat :=
    BitVec.toNat_sub_of_le hbelow
  have hcount : (it.stop - ld.addr).toNat = it.addr.toNat + it.size.toNat - ld.addr.toNat := by
    rw [BitVec.toNat_sub_of_le hends.1, hit]
  rw [searchStep, if_pos hends, if_pos hbelow]
  simp only [ge_iff_le, BitVec.le_def, hld, hit] at hends hbelow
  refine forwards_copy fullness ?_ ?_ rfl ?_ (fun j => ?_) (fun j hj => ?_) ?_
  · rw [hcount, hzero]
    omega
  · rw [hcount, hoff]
    omega
  · rw [hzero, Nat.zero_add]
  · rw [hcount, hzero, Store.Covers]
    omega
  · rw [hoff, hzero]
    omega
  · rw [Store.Surrounds]
    omega

private theorem searchStep_inside (hends : it.stop ≥ ld.addr ∧ it.stop ≤ ld.stop)
    (hbelow : ¬ ld.addr ≥ it.addr) :
    ∃ data fullness', searchStep ld it fullness = .ok ({ ld with data := data }, fullness') ∧
      Forwards ld it fullness data fullness' := by
  have hzero : (0 : BitVec 64).toNat = 0 := rfl
  have hld := hlow.stop_toNat
  have hit := Store.stop_toNat hstraight
  have hsize := hlow.size
  have hoff : (it.addr - ld.addr).toNat = it.addr.toNat - ld.addr.toNat :=
    BitVec.toNat_sub_of_le (BitVec.le_of_lt (BitVec.not_le.mp hbelow))
  have hlast : (it.addr - ld.addr + it.size).toNat =
      it.addr.toNat - ld.addr.toNat + it.size.toNat := by
    rw [BitVec.toNat_add, hoff, Nat.mod_eq_of_lt (by omega)]
  rw [searchStep, if_pos hends, if_neg hbelow]
  simp only [ge_iff_le, BitVec.le_def, hld, hit] at hends hbelow
  refine forwards_copy fullness ?_ ?_ rfl ?_ (fun j => ?_) (fun j hj => ?_) ?_
  · rw [hoff]
    omega
  · rw [hzero]
    omega
  · rw [hlast, hoff]
  · rw [hoff, Store.Covers]
    omega
  · rw [hoff] at hj ⊢
    rw [hzero]
    omega
  · rw [Store.Surrounds]
    omega

private theorem searchStep_back (hends : ¬ (it.stop ≥ ld.addr ∧ it.stop ≤ ld.stop))
    (hstarts : it.addr ≥ ld.addr ∧ it.addr ≤ ld.stop) :
    ∃ data fullness', searchStep ld it fullness = .ok ({ ld with data := data }, fullness') ∧
      Forwards ld it fullness data fullness' := by
  have hzero : (0 : BitVec 64).toNat = 0 := rfl
  have hsize := hlow.size
  have hld := hlow.stop_toNat
  have hit := Store.stop_toNat hstraight
  have hoff : (it.addr - ld.addr).toNat = it.addr.toNat - ld.addr.toNat :=
    BitVec.toNat_sub_of_le hstarts.1
  have hcount : (ld.stop - it.addr).toNat =
      ld.addr.toNat + ld.size.toNat - it.addr.toNat := by
    rw [BitVec.toNat_sub_of_le hstarts.2, hld]
  have hlast : it.addr - ld.addr + ld.addr + ld.size - it.addr = ld.size := by
    bv_omega
  rw [searchStep, if_neg hends, if_pos hstarts]
  simp only [ge_iff_le, BitVec.le_def, hld, hit] at hends hstarts
  have hpast : ld.stop ≤ it.stop := by
    rw [BitVec.le_def, hld, hit]
    omega
  rw [if_pos hpast]
  refine forwards_copy fullness ?_ ?_ rfl ?_ (fun j => ?_) (fun j hj => ?_) ?_
  · rw [hcount, hoff]
    omega
  · rw [hcount, hzero]
    omega
  · rw [hlast, hcount, hoff]
    omega
  · rw [hcount, hoff, Store.Covers]
    omega
  · rw [hoff] at hj ⊢
    rw [hzero]
    omega
  · rw [Store.Surrounds]
    omega

private theorem searchStep_around (hends : ¬ (it.stop ≥ ld.addr ∧ it.stop ≤ ld.stop))
    (hstarts : ¬ (it.addr ≥ ld.addr ∧ it.addr ≤ ld.stop))
    (hsurrounds : ld.addr ≥ it.addr ∧ ld.stop ≤ it.stop) :
    ∃ data fullness', searchStep ld it fullness = .ok ({ ld with data := data }, fullness') ∧
      Forwards ld it fullness data fullness' := by
  have hzero : (0 : BitVec 64).toNat = 0 := rfl
  have hsize := hlow.size
  have hld := hlow.stop_toNat
  have hit := Store.stop_toNat hstraight
  have hoff : (ld.addr - it.addr).toNat = ld.addr.toNat - it.addr.toNat :=
    BitVec.toNat_sub_of_le hsurrounds.1
  rw [searchStep, if_neg hends, if_neg hstarts, if_pos hsurrounds]
  simp only [ge_iff_le, BitVec.le_def, hld, hit] at hends hstarts hsurrounds
  have hdst : (0 : BitVec 64).toNat + ld.size.toNat ≤ 4 := by
    rw [hzero]
    omega
  have hsrc : (ld.addr - it.addr).toNat + ld.size.toNat ≤ 4 := by
    rw [hoff]
    omega
  obtain ⟨data, hdata, hbytes⟩ := memcpy_ok ld.data it.data hdst hsrc
  refine ⟨data, fun _ => true, by rw [hdata]; rfl, fun i hi => ?_, fun j => ?_⟩
  · rw [hbytes i hi, hzero, hoff]
    by_cases hmem : i < ld.size.toNat
    · rw [if_pos (by omega), if_pos ⟨hmem, by rw [Store.Covers]; omega⟩, Store.byteAt]
      congr 1
      omega
    · rw [if_neg (by omega), if_neg (by omega)]
  · have hstrict : it.Surrounds ld := by
      rw [Store.Surrounds]
      omega
    exact iff_of_true rfl (.inr (.inl hstrict))

private theorem searchStep_apart (hends : ¬ (it.stop ≥ ld.addr ∧ it.stop ≤ ld.stop))
    (hstarts : ¬ (it.addr ≥ ld.addr ∧ it.addr ≤ ld.stop))
    (hsurrounds : ¬ (ld.addr ≥ it.addr ∧ ld.stop ≤ it.stop)) :
    ∃ data fullness', searchStep ld it fullness = .ok ({ ld with data := data }, fullness') ∧
      Forwards ld it fullness data fullness' := by
  have hld := hlow.stop_toNat
  have hit := Store.stop_toNat hstraight
  refine ⟨ld.data, fullness, ?_, fun i hi => ?_, fun j => ?_⟩
  · rw [searchStep, if_neg hends, if_neg hstarts, if_neg hsurrounds]
  all_goals
    simp only [ge_iff_le, BitVec.le_def, hld, hit] at hends hstarts hsurrounds
  · rw [if_neg]
    rw [Store.Covers]
    omega
  · rw [Store.Surrounds, Store.Covers]
    refine (or_iff_left ?_).symm
    omega

/-- The ways in which the ranges can meet, in the order in which the source tests them. -/
private theorem searchStep_straight :
    ∃ data fullness', searchStep ld it fullness = .ok ({ ld with data := data }, fullness') ∧
      Forwards ld it fullness data fullness' := by
  by_cases hends : it.stop ≥ ld.addr ∧ it.stop ≤ ld.stop
  · by_cases hbelow : ld.addr ≥ it.addr
    · exact searchStep_front hlow hsmall fullness hstraight hends hbelow
    · exact searchStep_inside hlow hsmall fullness hstraight hends hbelow
  · by_cases hstarts : it.addr ≥ ld.addr ∧ it.addr ≤ ld.stop
    · exact searchStep_back hlow hsmall fullness hstraight hends hstarts
    · by_cases hsurrounds : ld.addr ≥ it.addr ∧ ld.stop ≤ it.stop
      · exact searchStep_around hlow hsmall fullness hstraight hends hstarts hsurrounds
      · exact searchStep_apart hlow hsmall fullness hstraight hends hstarts hsurrounds

end Straight

omit hlow in
private theorem wrapped_bounds (hwrapped : ¬ it.Straight) :
    2 ^ 64 ≤ it.addr.toNat + 4 ∧ 0 < it.size.toNat ∧
      it.stop.toNat = it.addr.toNat + it.size.toNat - 2 ^ 64 := by
  have haddr := it.addr.isLt
  rw [Store.Straight] at hwrapped
  refine ⟨by omega, by omega, ?_⟩
  rw [Store.stop, BitVec.toNat_add, Nat.mod_eq_sub_mod (by omega), Nat.mod_eq_of_lt (by omega)]

theorem searchStep_error (fullness : Fullness) (hwraps : it.WrapsInto ld) :
    searchStep ld it fullness = .error (.undefined "memcpy outside a field") := by
  obtain ⟨hwrapped, hends⟩ := hwraps
  obtain ⟨haddr, hsize, -⟩ := wrapped_bounds hsmall hwrapped
  have hrange := hlow.range
  have hbelow : ¬ ld.addr ≥ it.addr := by
    rw [ge_iff_le, BitVec.le_def]
    omega
  have hoff : (it.addr - ld.addr).toNat = it.addr.toNat - ld.addr.toNat :=
    BitVec.toNat_sub_of_le (BitVec.le_def.mpr (by omega))
  have hcount : it.size ≠ 0 := by
    rintro hzero
    rw [hzero] at hsize
    exact absurd hsize (by decide)
  unfold searchStep
  rw [if_pos hends, if_neg hbelow, memcpy_error ld.data it.data hcount (.inl (by omega))]
  rfl

theorem searchStep_ok (fullness : Fullness) (hwraps : ¬ it.WrapsInto ld) :
    ∃ data fullness', searchStep ld it fullness = .ok ({ ld with data := data }, fullness') ∧
      Forwards ld it fullness data fullness' := by
  by_cases hstraight : it.Straight
  · exact searchStep_straight hlow hsmall fullness hstraight
  · obtain ⟨haddr, hsize, hit⟩ := wrapped_bounds hsmall hstraight
    have hld := hlow.stop_toNat
    have hrange := hlow.range
    have hends : ¬ (it.stop ≥ ld.addr ∧ it.stop ≤ ld.stop) := fun h => hwraps ⟨hstraight, h⟩
    have hstarts : ¬ (it.addr ≥ ld.addr ∧ it.addr ≤ ld.stop) := by
      rw [BitVec.le_def (y := ld.stop), hld]
      omega
    have hsurrounds : ¬ (ld.addr ≥ it.addr ∧ ld.stop ≤ it.stop) := by
      rw [ge_iff_le, BitVec.le_def]
      omega
    refine ⟨ld.data, fullness, ?_, fun i hi => ?_, fun j => ?_⟩
    · rw [searchStep, if_neg hends, if_neg hstarts, if_neg hsurrounds]
    · rw [if_neg]
      rw [Store.Covers]
      omega
    · rw [Store.Surrounds, Store.Covers]
      refine (or_iff_left ?_).symm
      omega

end Step

/-! ## The whole queue -/

structure Searched (ld : Store) (queue : List Store) (fullness : Fullness) (data : BitVec 32)
    (fullness' : Fullness) : Prop where
  byte : ∀ i < 4, Word.byte data i =
    if i < ld.size.toNat then
      (queuePatch queue (ld.addr.toNat + i)).getD (Word.byte ld.data i)
    else Word.byte ld.data i
  full : ∀ j, fullness' j = true ↔ fullness j = true ∨ Store.Marked queue ld j

section Loop

variable {id : BitVec 32} (hlow : Low ld) (hid : ∀ it ∈ queue, id ≤ it.id)
  (hsorted : queue.Pairwise fun it other => it.id ≤ other.id)
  (hsmall : ∀ it ∈ queue, it.size.toNat ≤ 4)
include hlow hid hsorted hsmall

theorem searchLoop_ok (fullness : Fullness) (hwraps : ∀ it ∈ queue, ¬ it.WrapsInto ld) :
    ∃ data fullness', searchLoop queue id ld fullness = .ok ({ ld with data := data }, fullness') ∧
      Searched ld queue fullness data fullness' := by
  induction queue generalizing id ld fullness with
  | nil =>
      refine ⟨ld.data, fullness, rfl, fun i hi => ?_, fun j => ?_⟩
      · exact (ite_self _).symm
      · simp [Store.Marked]
  | cons it queue ih =>
      rw [List.forall_mem_cons] at hid hsmall hwraps
      rw [List.pairwise_cons] at hsorted
      obtain ⟨data, full, hstep, hforwards⟩ := searchStep_ok hlow hsmall.1 fullness hwraps.1
      obtain ⟨data', full', hloop, hsearched⟩ := @ih { ld with data := data } it.id
        ⟨hlow.size, hlow.range⟩ hsorted.1 hsorted.2 hsmall.2 full hwraps.2
      refine ⟨data', full', ?_, fun i hi => ?_, fun j => ?_⟩
      · rw [searchLoop, if_neg (BitVec.not_lt.mpr hid.1), hstep]
        exact hloop
      · rw [hsearched.byte i hi, hforwards.byte i hi]
        dsimp only
        by_cases hlt : i < ld.size.toNat
        · rw [if_pos hlt, if_pos hlt, queuePatch_cons]
          by_cases hcovers : it.Covers (ld.addr.toNat + i)
          · rw [if_pos ⟨hlt, hcovers⟩, Store.patch_of_covers hcovers]
            cases queuePatch queue (ld.addr.toNat + i) <;> rfl
          · rw [if_neg fun h => hcovers h.2, Store.patch_eq_none_iff.mpr hcovers, Option.or_none]
        · rw [if_neg hlt, if_neg hlt, if_neg fun h => hlt h.1]
      · have hmarked : Store.Marked queue { ld with data := data } j ↔ Store.Marked queue ld j :=
          Iff.rfl
        rw [hsearched.full j, hforwards.full j, hmarked, Store.marked_cons, or_assoc]

theorem searchLoop_error (fullness : Fullness) (hwraps : ∃ it ∈ queue, it.WrapsInto ld) :
    ∃ e, searchLoop queue id ld fullness = .error e := by
  induction queue generalizing id ld fullness with
  | nil =>
      obtain ⟨it, hit, -⟩ := hwraps
      cases hit
  | cons it queue ih =>
      rw [List.forall_mem_cons] at hid hsmall
      rw [List.pairwise_cons] at hsorted
      rw [List.exists_mem_cons_iff] at hwraps
      rw [searchLoop, if_neg (BitVec.not_lt.mpr hid.1)]
      by_cases hit : it.WrapsInto ld
      · rw [searchStep_error hlow hsmall.1 fullness hit]
        exact ⟨_, rfl⟩
      · obtain ⟨data, full, hstep, -⟩ := searchStep_ok hlow hsmall.1 fullness hit
        rw [hstep]
        exact @ih { ld with data := data } it.id ⟨hlow.size, hlow.range⟩ hsorted.1 hsorted.2
          hsmall.2 full (hwraps.resolve_left hit)

end Loop

/-! ## The mask -/

private theorem getLsbD_maskUpTo (fullness : Fullness) {n : Nat} (hn : n ≤ 32) (j : Nat) :
    ((List.range n).foldl (fun (acc : BitVec 32) i =>
      if fullness i then acc else acc + ((1 <<< i : Nat) : BitVec 32)) 0).getLsbD j =
      (decide (j < n) && !fullness j) := by
  induction n generalizing j with
  | zero => simp
  | succ n ih =>
      rw [List.range_succ, List.foldl_append, List.foldl_cons, List.foldl_nil]
      have hbits := ih (by omega)
      generalize (List.range n).foldl _ (0 : BitVec 32) = acc at hbits ⊢
      have hbit (k : Nat) : ((1 <<< n : Nat) : BitVec 32).getLsbD k = decide (n = k) := by
        change (BitVec.ofNat 32 (1 <<< n)).getLsbD k = _
        rw [BitVec.getLsbD_ofNat, Nat.one_shiftLeft, Nat.testBit_two_pow]
        by_cases hnk : n = k
        · rw [decide_eq_true hnk, decide_eq_true (by omega : k < 32), Bool.true_and]
        · rw [decide_eq_false hnk, Bool.and_false]
      cases hfull : fullness n with
      | true =>
          rw [if_pos rfl, hbits]
          rcases Nat.lt_trichotomy j n with hlt | rfl | hgt
          · simp [hlt, Nat.lt_succ_of_lt hlt]
          · simp [hfull]
          · simp [Nat.not_lt_of_gt hgt, show ¬ j < n + 1 by omega]
      | false =>
          have hdisjoint : acc &&& ((1 <<< n : Nat) : BitVec 32) = 0#32 := by
            apply BitVec.eq_of_getLsbD_eq
            intro k hk
            rw [BitVec.getLsbD_and, hbits, hbit, BitVec.getLsbD_zero]
            by_cases hnk : n = k
            · simp [hnk]
            · simp [hnk]
          rw [if_neg Bool.false_ne_true, BitVec.add_eq_or_of_and_eq_zero _ _ hdisjoint,
            BitVec.getLsbD_or, hbits, hbit]
          rcases Nat.lt_trichotomy j n with hlt | rfl | hgt
          · simp [hlt, Nat.lt_succ_of_lt hlt, show n ≠ j by omega]
          · simp [hfull]
          · simp [Nat.not_lt_of_gt hgt, show ¬ j < n + 1 by omega, show n ≠ j by omega]

theorem getLsbD_mask (fullness : Fullness) (j : Nat) :
    (mask fullness).getLsbD j = (decide (j < 32) && !fullness j) :=
  getLsbD_maskUpTo fullness (Nat.le_refl 32) j

/--
The sum of the forwarded bytes and of what the mask leaves of memory: each byte
is the right one exactly when the marks agree with the covered bytes wherever
memory has a bit.
-/
private theorem byte_add_mask_iff {size : Nat} (hsize : size ≤ 4) {data : BitVec 32}
    (dData : BitVec 32) (fullness : Fullness) {p : Nat → Option (BitVec 8)}
    (hdata : ∀ i < 4, Word.byte data i = if i < size then (p i).getD 0 else 0) :
    (∀ i < size, Word.byte (data + (mask fullness &&& dData)) i =
      (p i).getD (Word.byte dData i)) ↔
    ∀ j < 8 * size, dData.getLsbD j = true →
      ((p (j / 8)).isSome = true ↔ fullness j = true) := by
  let kept : BitVec 32 :=
    Word.ofBytes fun i => if (p i).isSome then 0 else Word.byte dData i
  have hkept {i : Nat} (hi : i < 4) :
      Word.byte kept i = if (p i).isSome then 0 else Word.byte dData i :=
    Word.byte_ofBytes hi
  have hdisjoint : data &&& kept = 0#32 := by
    apply BitVec.eq_of_getLsbD_eq
    intro j hj
    rw [BitVec.getLsbD_and, Word.getLsbD_eq_byte data _,
      Word.getLsbD_eq_byte kept _, hdata _ (by omega), hkept (by omega)]
    cases p (j / 8) <;> simp
  have htarget : ∀ i < size, Word.byte (data + kept) i = (p i).getD (Word.byte dData i) := by
    intro i hi
    rw [BitVec.add_eq_or_of_and_eq_zero _ _ hdisjoint, Word.byte_or, hdata i (by omega),
      hkept (by omega), if_pos hi]
    cases p i <;> simp
  have hbits : (∀ i < size, Word.byte (data + (mask fullness &&& dData)) i =
      (p i).getD (Word.byte dData i)) ↔
      (mask fullness &&& dData).setWidth (8 * size) = kept.setWidth (8 * size) := by
    rw [← BitVec.add_right_inj (data.setWidth (8 * size)), ← BitVec.setWidth_add _ _ (by omega),
      ← BitVec.setWidth_add _ _ (by omega), Word.setWidth_eq_iff]
    exact forall_congr' fun i => forall_congr' fun hi => by rw [htarget i hi]
  have hbit {j : Nat} (hj : j < 8 * size) : ((mask fullness &&& dData).getLsbD j =
      kept.getLsbD j) ↔ (dData.getLsbD j = true →
        ((p (j / 8)).isSome = true ↔ fullness j = true)) := by
    rw [BitVec.getLsbD_and, getLsbD_mask, decide_eq_true (by omega : j < 32), Bool.true_and,
      Word.getLsbD_eq_byte kept _, hkept (by omega), Word.getLsbD_eq_byte dData _]
    cases (p (j / 8)).isSome <;> cases fullness j <;> simp
  rw [hbits]
  constructor
  · intro h j hj
    have heq := congrArg (fun w => w.getLsbD j) h
    simp only [BitVec.getLsbD_setWidth, decide_eq_true hj, Bool.true_and] at heq
    exact (hbit hj).mp heq
  · intro h
    apply BitVec.eq_of_getLsbD_eq
    intro j hj
    rw [BitVec.getLsbD_setWidth, BitVec.getLsbD_setWidth, (hbit hj).mpr (h j hj)]

/-! ## Loads -/

end Pipeline

/-- The length that a `std::vector<char>` can have. -/
def Memory.maxSize : Nat := 2 ^ 63 - 1

def Instruction.loadRange (instr : Instruction) : Store :=
  { addr := toAddress instr.loadAddres, size := toAddress instr.loadSize }

namespace Pipeline

variable {env : Env} {clock : Nat} {memory : Memory} {pipeline : Pipeline} {instr : Instruction}

/--
The load gets the bytes of the youngest queued stores and, where there is none,
those of memory, as it would from memory once the queue has been drained.
-/
def Exact (env : Env) (clock : Nat) (memory : Memory) (pipeline : Pipeline)
    (instr : Instruction) : Prop :=
  ∃ value, searchData env clock memory pipeline instr = .ok value ∧
    ∀ i < instr.loadRange.size.toNat,
      Word.byte value i = (queuePatch pipeline.queue (instr.loadRange.addr.toNat + i)).getD
        (memory.bytes (instr.loadRange.addr.toNat + i)) ∧
      ∀ drained, drain pipeline.queue memory = .ok drained →
        Word.byte value i = drained.bytes (instr.loadRange.addr.toNat + i)

private theorem searchData_eq (env : Env) (clock : Nat) (memory : Memory) (pipeline : Pipeline)
    (hacc : instr.memAccType = .read) (htype : instr.type = .i) :
    searchData env clock memory pipeline instr = do
      let (ld, fullness) ← searchLoop pipeline.queue
        ((pipeline.queue.head?.map Store.id).getD env.undef.endId) instr.loadRange fun _ => false
      let dData ← memory.read (env.undef.dData clock) ld.addr.toNat ld.size.toNat
      return ld.data + (mask fullness &&& dData) := by
  rw [searchData, if_neg (not_not_intro hacc), Instruction.dynamicCast, if_pos htype]
  rfl

private theorem exact_iff_bytes {value : BitVec 32}
    (hvalue : searchData env clock memory pipeline instr = .ok value) :
    Exact env clock memory pipeline instr ↔ ∀ i < instr.loadRange.size.toNat,
      Word.byte value i = (queuePatch pipeline.queue (instr.loadRange.addr.toNat + i)).getD
        (memory.bytes (instr.loadRange.addr.toNat + i)) := by
  constructor
  · rintro ⟨value', hvalue', hbytes⟩ i hi
    cases hvalue.symm.trans hvalue'
    exact (hbytes i hi).1
  · intro h
    refine ⟨value, hvalue, fun i hi => ⟨h i hi, fun drained hdrained => ?_⟩⟩
    rw [h i hi, (drain_ok_iff.mp hdrained).2.2]
    rfl

section Search

variable (hacc : instr.memAccType = .read) (htype : instr.type = .i)
  (hlow : Low instr.loadRange)
  (hsorted : pipeline.queue.Pairwise fun it other => it.id ≤ other.id)
  (hsmall : ∀ it ∈ pipeline.queue, it.size.toNat ≤ 4)
include hacc htype hlow hsorted hsmall

private theorem searchData_error (hwraps : ∃ it ∈ pipeline.queue, it.WrapsInto instr.loadRange) :
    ∃ e, searchData env clock memory pipeline instr = .error e := by
  have hid := rel_head_id (fun _ => BitVec.le_refl _) env.undef.endId hsorted
  obtain ⟨e, herror⟩ := searchLoop_error hlow hid hsorted hsmall (fun _ => false) hwraps
  rw [searchData_eq env clock memory pipeline hacc htype, herror]
  exact ⟨e, rfl⟩

private theorem searchData_ok (hwraps : ∀ it ∈ pipeline.queue, ¬ it.WrapsInto instr.loadRange)
    (hrange : instr.loadRange.addr.toNat + instr.loadRange.size.toNat ≤ memory.size) :
    ∃ data fullness dData,
      searchData env clock memory pipeline instr = .ok (data + (mask fullness &&& dData)) ∧
      (∀ i < 4, Word.byte data i = if i < instr.loadRange.size.toNat then
        (queuePatch pipeline.queue (instr.loadRange.addr.toNat + i)).getD 0 else 0) ∧
      (∀ j, fullness j = true ↔ Store.Marked pipeline.queue instr.loadRange j) ∧
      ∀ i < instr.loadRange.size.toNat,
        Word.byte dData i = memory.bytes (instr.loadRange.addr.toNat + i) := by
  have hid := rel_head_id (fun _ => BitVec.le_refl _) env.undef.endId hsorted
  obtain ⟨data, fullness, hloop, hsearched⟩ :=
    searchLoop_ok hlow hid hsorted hsmall (fun _ => false) hwraps
  have hread := Memory.read_of_inRange (env.undef.dData clock) hrange
  refine ⟨data, fullness, Word.overlay (env.undef.dData clock)
      (fun i => memory.bytes (instr.loadRange.addr.toNat + i)) instr.loadRange.size.toNat,
    ?_, fun i hi => ?_, fun j => ?_, fun i hi => Word.byte_overlay hlow.size hi⟩
  · rw [searchData_eq env clock memory pipeline hacc htype, hloop]
    change (memory.read (env.undef.dData clock) instr.loadRange.addr.toNat
      instr.loadRange.size.toNat >>= _) = _
    rw [hread]
    rfl
  · have hzero : Word.byte instr.loadRange.data i = 0 := BitVec.extractLsb'_zero
    rw [hsearched.byte i hi, hzero]
  · rw [hsearched.full j, or_iff_right Bool.false_ne_true]

end Search

/--
Where no queued store wraps around into the load, `searchData` is exact when for
each bit that memory has at the address the mark at the index of the bit says
whether the byte of the bit is covered.
-/
theorem searchData_exact_iff (hacc : instr.memAccType = .read) (htype : instr.type = .i)
    (hload : instr.loadSize = 1 ∨ instr.loadSize = 2 ∨ instr.loadSize = 4)
    (hmemory : memory.size ≤ Memory.maxSize)
    (hrange : instr.loadRange.addr.toNat + instr.loadRange.size.toNat ≤ memory.size)
    (hsorted : pipeline.queue.Pairwise fun it other => it.id ≤ other.id)
    (hsizes : ∀ it ∈ pipeline.queue, it.size = 0 ∨ it.size = 1 ∨ it.size = 2 ∨ it.size = 4) :
    Exact env clock memory pipeline instr ↔
      (∀ it ∈ pipeline.queue, ¬ it.WrapsInto instr.loadRange) ∧
      ∀ j < 8 * instr.loadRange.size.toNat,
        (memory.bytes (instr.loadRange.addr.toNat + j / 8)).getLsbD (j % 8) = true →
        ((∃ it ∈ pipeline.queue, it.Covers (instr.loadRange.addr.toNat + j / 8)) ↔
          Store.Marked pipeline.queue instr.loadRange j) := by
  have hsize : instr.loadRange.size.toNat ≤ 4 := by
    change (toAddress instr.loadSize).toNat ≤ 4
    rcases hload with h | h | h <;> rw [h] <;> decide
  have hlow : Low instr.loadRange := ⟨hsize, by
    rw [Memory.maxSize] at hmemory
    omega⟩
  have hsmall : ∀ it ∈ pipeline.queue, it.size.toNat ≤ 4 := by
    intro it hit
    rcases hsizes it hit with h | h | h | h <;> rw [h] <;> decide
  by_cases hwraps : ∃ it ∈ pipeline.queue, it.WrapsInto instr.loadRange
  · refine iff_of_false ?_ fun h => ?_
    · rintro ⟨value, hvalue, -⟩
      obtain ⟨e, herror⟩ := searchData_error hacc htype hlow hsorted hsmall hwraps
      rw [herror] at hvalue
      cases hvalue
    · obtain ⟨it, hit, hinto⟩ := hwraps
      exact h.1 it hit hinto
  · simp only [not_exists, not_and] at hwraps
    obtain ⟨data, fullness, dData, hvalue, hdata, hfull, hbyte⟩ :=
      searchData_ok hacc htype hlow hsorted hsmall hwraps hrange
    have hbit {j : Nat} (hj : j < 8 * instr.loadRange.size.toNat) : dData.getLsbD j =
        (memory.bytes (instr.loadRange.addr.toNat + j / 8)).getLsbD (j % 8) := by
      rw [Word.getLsbD_eq_byte, hbyte _ (by omega)]
    have hmasked := byte_add_mask_iff hsize dData fullness hdata
    rw [exact_iff_bytes hvalue, and_iff_right hwraps]
    constructor
    · intro h j hj hset
      rw [← hbit hj] at hset
      rw [← hfull, ← queuePatch_isSome_iff]
      refine hmasked.mp (fun i hi => ?_) j hj hset
      rw [h i hi, hbyte i hi]
    · intro h i hi
      rw [← hbyte i hi]
      refine hmasked.mpr (fun j hj hset => ?_) i hi
      rw [hbit hj] at hset
      rw [hfull, queuePatch_isSome_iff]
      exact h j hj hset

/-! ## Two queues -/

def loadOf (size : BitVec 32) : Instruction :=
  { type := .i, memAccType := .read, loadAddres := 16, loadSize := size }

/-- A byte store into the middle of a word whose bits are all set: bit 1 of memory is lost. -/
theorem searchData_mixes :
    let memory : Memory := { size := 64, bytes := fun _ => 0xff }
    let pipeline : Pipeline := { id := 1, queue := [⟨17, 1, 0xaa, 1⟩] }
    (∀ it ∈ pipeline.queue, it.size = 0 ∨ it.size = 1 ∨ it.size = 2 ∨ it.size = 4) ∧
      pipeline.queue.Pairwise (fun it other => it.id ≤ other.id) ∧
      (loadOf 4).loadRange.addr.toNat + (loadOf 4).loadRange.size.toNat ≤ memory.size ∧
      ¬ Exact .plain 0 memory pipeline (loadOf 4) := by
  refine ⟨by decide, by decide, by decide, ?_⟩
  rintro ⟨value, hvalue, hbytes⟩
  have hfound : searchData .plain 0 { size := 64, bytes := fun _ => 0xff }
      { id := 1, queue := [⟨17, 1, 0xaa, 1⟩] } (loadOf 4) = .ok 0xa9fd := by
    decide +kernel
  cases hvalue.symm.trans hfound
  exact absurd (hbytes 0 (by decide)).1 (by decide +kernel)

theorem searchData_byte : Exact .plain 0 { size := 64, bytes := fun _ => 1 }
    { id := 2, queue := [⟨16, 1, 0x7f, 1⟩, ⟨16, 1, 0x35, 2⟩] } (loadOf 1) := by
  refine (searchData_exact_iff rfl rfl (.inl rfl) (by decide) (by decide) (by decide)
    (by decide)).mpr ⟨by decide +kernel, by decide +kernel⟩

end Pipeline

end RiscvPerfSim
