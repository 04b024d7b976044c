import RiscvPerfSim.Core.Queue
import RiscvPerfSim.Core.Reachable

/-!
# Stores merged into the queue

What `tryConcatenate` makes of the queue, and when the merged queue leaves the
same memory as the old one followed by the new store.
-/

namespace RiscvPerfSim

open Foundation

/-! ## One merge -/

namespace Store

variable {st it : Store} {x : Nat}

/-- The two ranges meet, in one of the three ways the loop asks for. -/
def Meets (st it : Store) : Prop :=
  (st.addr ≤ it.stop ∧ it.stop ≤ st.stop) ∨ (st.addr ≤ it.addr ∧ it.addr ≤ st.stop) ∨
    (it.addr ≤ st.addr ∧ st.stop ≤ it.stop)

instance : Decidable (st.Meets it) := inferInstanceAs (Decidable (_ ∨ _))

def lowest (st it : Store) : BitVec 64 := if it.addr < st.addr then it.addr else st.addr

def highest (st it : Store) : BitVec 64 := if it.stop < st.stop then st.stop else it.stop

def span (st it : Store) : BitVec 64 := st.highest it - st.lowest it

/-- The data of `st` for the whole range, and what is left in the bytes beyond it. -/
def joinedData (st it : Store) : BitVec 32 :=
  if st.addr ≤ it.stop ∧ it.stop ≤ st.stop then st.data
  else if st.addr ≤ it.addr ∧ it.addr ≤ st.stop then
    if st.stop ≤ it.stop then
      Word.overlay (it.data >>> (it.addr - st.addr).toNat) (Word.byte st.data)
        (st.span it).toNat
    else st.data
  else Word.overlay it.data (Word.byte st.data) it.size.toNat

def joined (st it : Store) : Store :=
  { addr := st.lowest it, size := st.span it, data := st.joinedData it, id := it.id }

theorem straight_of_le (h : st.addr ≤ st.stop) : st.Straight := by
  rw [BitVec.le_def, stop, BitVec.toNat_add] at h
  have haddr := st.addr.isLt
  have hsize := st.size.isLt
  rw [Straight]
  omega

section Ends

variable (hends : st.addr ≤ it.stop ∧ it.stop ≤ st.stop)
include hends

theorem highest_of_ends : st.highest it = st.stop := by
  unfold highest
  split_ifs with h
  · rfl
  · exact BitVec.le_antisymm hends.2 (BitVec.not_lt.mp h)

end Ends

theorem lowest_of_le (h : st.addr ≤ it.addr) : st.lowest it = st.addr :=
  if_neg (BitVec.not_lt.mpr h)

theorem lowest_of_ge (h : it.addr ≤ st.addr) : st.lowest it = it.addr := by
  unfold lowest
  split_ifs with hlt
  · rfl
  · exact BitVec.le_antisymm (BitVec.not_lt.mp hlt) h

theorem highest_of_le (h : st.stop ≤ it.stop) : st.highest it = it.stop :=
  if_neg (BitVec.not_lt.mpr h)

theorem highest_le_iff : st.highest it ≤ it.stop ↔ st.stop ≤ it.stop := by
  unfold highest
  split_ifs with h
  · rfl
  · exact iff_of_true (BitVec.le_refl _) (BitVec.not_lt.mp h)

theorem span_of_inside (h : it.addr ≤ st.addr ∧ st.stop ≤ it.stop) : st.span it = it.size := by
  rw [span, highest_of_le h.2, lowest_of_ge h.1, stop]
  bv_omega

end Store

theorem Word.ofBytes_byte (word : BitVec 32) : ofBytes (byte word) = word := by
  apply BitVec.eq_of_getLsbD_eq
  intro j hj
  rw [getLsbD_ofBytes hj, ← getLsbD_eq_byte]

theorem memcpy_overlay (dst src : BitVec 32) {count : BitVec 64} (hcount : count.toNat ≤ 4) :
    memcpy dst 0 src 0 count = .ok (Word.overlay dst (Word.byte src) count.toNat) := by
  have hzero : (0 : BitVec 64).toNat = 0 := rfl
  unfold memcpy
  by_cases hnone : count = 0
  · subst hnone
    rw [if_pos rfl, Word.overlay, hzero]
    simp only [Nat.not_lt_zero, if_false, Word.ofBytes_byte]
  · rw [if_neg hnone, if_neg (by rw [hzero]; omega), Word.overlay]
    simp only [hzero, Nat.zero_le, true_and, Nat.zero_add, Nat.sub_zero]

namespace Pipeline

variable {st it : Store}

theorem mergeStep_apart (h : ¬ st.Meets it) : mergeStep st it = .ok .apart := by
  simp only [Store.Meets, not_or] at h
  obtain ⟨hends, hstarts, hinside⟩ := h
  rw [mergeStep, if_neg hends, if_neg hstarts, if_neg hinside]

section Step

variable (hst : st.size.toNat ≤ 4) (hit : it.size.toNat ≤ 4)
include hst hit

private theorem span_le_of_ends (hends : st.addr ≤ it.stop ∧ it.stop ≤ st.stop) :
    (st.span it).toNat ≤ 8 := by
  have hstop := Store.stop_toNat (Store.straight_of_le (BitVec.le_trans hends.1 hends.2))
  rw [Store.span, Store.highest_of_ends hends]
  by_cases hbelow : it.addr ≤ st.addr
  · have hend := Store.stop_toNat (Store.straight_of_le (BitVec.le_trans hbelow hends.1))
    rw [Store.lowest_of_ge hbelow]
    simp only [BitVec.le_def] at hends hbelow
    rw [BitVec.toNat_sub_of_le (BitVec.le_def.mpr (by omega))]
    omega
  · rw [Store.lowest_of_le (by bv_omega), BitVec.toNat_sub_of_le (by bv_omega)]
    omega

private theorem span_le_of_starts (hstarts : st.addr ≤ it.addr ∧ it.addr ≤ st.stop) :
    (st.span it).toNat ≤ 8 := by
  have hstop := Store.stop_toNat (Store.straight_of_le (BitVec.le_trans hstarts.1 hstarts.2))
  rw [Store.span, Store.lowest_of_le hstarts.1]
  by_cases hpast : st.stop ≤ it.stop
  · have hend := Store.stop_toNat (Store.straight_of_le (BitVec.le_trans hstarts.2 hpast))
    rw [Store.highest_of_le hpast]
    simp only [BitVec.le_def] at hstarts hpast
    rw [BitVec.toNat_sub_of_le (BitVec.le_def.mpr (by omega))]
    omega
  · have hhigh : st.highest it = st.stop := if_pos (BitVec.not_le.mp hpast)
    rw [hhigh, BitVec.toNat_sub_of_le (BitVec.le_trans hstarts.1 hstarts.2)]
    omega

omit hst hit in
private theorem not_tooLarge {count : BitVec 64} (h : count.toNat ≤ 8) : ¬ count > 32 := by
  have hlimit : (32 : BitVec 64).toNat = 32 := rfl
  rw [gt_iff_lt, BitVec.lt_def, hlimit]
  omega

private theorem mergeStep_ends (hends : st.addr ≤ it.stop ∧ it.stop ≤ st.stop) :
    mergeStep st it = .ok (.replace (st.joined it)) := by
  have hspan := span_le_of_ends hst hit hends
  have hsize : st.stop - st.lowest it = st.span it := by
    rw [Store.span, Store.highest_of_ends hends]
  have hjoined : st.joined it = ⟨st.lowest it, st.span it, st.data, it.id⟩ := by
    rw [Store.joined, Store.joinedData, if_pos hends]
  have hstep : mergeStep st it =
      if st.stop - st.lowest it > 32 then .ok .tooLarge
      else if st.lowest it ≥ it.addr then do
        let shifted ← shiftRight st.data (st.lowest it - it.addr)
        let data ← memcpy shifted 0 it.data 0 (st.lowest it - it.addr)
        return .replace ⟨st.lowest it, st.stop - st.lowest it, data, it.id⟩
      else .ok (.replace ⟨st.lowest it, st.stop - st.lowest it, st.data, it.id⟩) :=
    if_pos hends
  rw [hstep, hsize, if_neg (not_tooLarge hspan), hjoined]
  by_cases hbelow : st.lowest it ≥ it.addr
  · have hzero : st.lowest it - it.addr = 0 := by
      have hlowest : st.lowest it = it.addr := by
        unfold Store.lowest at hbelow ⊢
        split_ifs at hbelow ⊢ with hlt
        · rfl
        · exact BitVec.le_antisymm (BitVec.not_lt.mp hlt) hbelow
      rw [hlowest]
      exact BitVec.sub_self _
    have hshift : shiftRight st.data 0 = .ok st.data := by
      simp [shiftRight]
    rw [if_pos hbelow, hzero, hshift]
    rfl
  · exact if_neg hbelow

private theorem mergeStep_starts (hends : ¬ (st.addr ≤ it.stop ∧ it.stop ≤ st.stop))
    (hstarts : st.addr ≤ it.addr ∧ it.addr ≤ st.stop) :
    mergeStep st it = .ok (.replace (st.joined it)) ∨
      4 < (st.span it).toNat ∧ ∃ e, mergeStep st it = .error e := by
  have hspan := span_le_of_starts hst hit hstarts
  have hlowest := Store.lowest_of_le hstarts.1
  have hsize : st.highest it - st.addr = st.span it := by
    rw [Store.span, hlowest]
  have hend : st.addr + st.span it = st.highest it := by
    rw [← hsize]
    bv_omega
  have hstop := Store.stop_toNat (Store.straight_of_le (BitVec.le_trans hstarts.1 hstarts.2))
  have hstep : mergeStep st it =
      if st.highest it - st.addr > 32 then .ok .tooLarge
      else if st.addr + (st.highest it - st.addr) ≤ it.stop then do
        let shifted ← shiftRight it.data (it.addr - st.addr)
        let data ← memcpy shifted 0 st.data 0 (st.highest it - st.addr)
        return .replace ⟨st.addr, st.highest it - st.addr, data, it.id⟩
      else .ok (.replace ⟨st.addr, st.highest it - st.addr, st.data, it.id⟩) :=
    (if_neg hends).trans (if_pos hstarts)
  rw [hstep, hsize, if_neg (not_tooLarge hspan), hend]
  by_cases hpast : st.stop ≤ it.stop
  · have hshift : shiftRight it.data (it.addr - st.addr) =
        .ok (it.data >>> (it.addr - st.addr).toNat) := by
      refine if_pos ?_
      simp only [BitVec.le_def] at hstarts
      rw [BitVec.toNat_sub_of_le (BitVec.le_def.mpr hstarts.1)]
      omega
    rw [if_pos (Store.highest_le_iff.mpr hpast), hshift]
    by_cases hsmall : (st.span it).toNat ≤ 4
    · refine .inl ?_
      rw [Store.joined, Store.joinedData, if_neg hends, if_pos hstarts, if_pos hpast, hlowest]
      change (memcpy _ 0 st.data 0 (st.span it) >>= _) = _
      rw [memcpy_overlay _ _ hsmall]
      rfl
    · refine .inr ⟨by omega, .undefined "memcpy outside a field", ?_⟩
      change (memcpy _ 0 st.data 0 (st.span it) >>= _) = _
      rw [memcpy_error _ _ _ (.inl (by omega))]
      · rfl
      · rintro hzero
        rw [hzero] at hsmall
        exact hsmall (by decide)
  · refine .inl ?_
    rw [if_neg (Store.highest_le_iff.not.mpr hpast), Store.joined, Store.joinedData,
      if_neg hends, if_pos hstarts, if_neg hpast, hlowest]

omit hst in
private theorem mergeStep_inside (hends : ¬ (st.addr ≤ it.stop ∧ it.stop ≤ st.stop))
    (hstarts : ¬ (st.addr ≤ it.addr ∧ it.addr ≤ st.stop))
    (hinside : it.addr ≤ st.addr ∧ st.stop ≤ it.stop) :
    mergeStep st it = .ok (.replace (st.joined it)) := by
  have hself : it.addr - it.addr = 0 := BitVec.sub_self _
  rw [mergeStep, if_neg hends, if_neg hstarts, if_pos hinside, hself,
    memcpy_overlay _ _ hit, Store.joined, Store.joinedData, if_neg hends, if_neg hstarts,
    Store.lowest_of_ge hinside.1, Store.span_of_inside hinside]
  rfl

theorem mergeStep_meets (hmeets : st.Meets it) :
    mergeStep st it = .ok (.replace (st.joined it)) ∨
      4 < (st.span it).toNat ∧ ∃ e, mergeStep st it = .error e := by
  by_cases hends : st.addr ≤ it.stop ∧ it.stop ≤ st.stop
  · exact .inl (mergeStep_ends hst hit hends)
  by_cases hstarts : st.addr ≤ it.addr ∧ it.addr ≤ st.stop
  · exact mergeStep_starts hst hit hends hstarts
  · have hinside := (hmeets.resolve_left hends).resolve_left hstarts
    exact .inl (mergeStep_inside hit hends hstarts hinside)

end Step

end Pipeline

/-! ## The whole queue -/

theorem forall_split_cons {α : Type} {P : α → List α → Prop} {a : α} {l : List α} :
    (∀ older b younger, a :: l = older ++ b :: younger → P b younger) ↔
      P a l ∧ ∀ older b younger, l = older ++ b :: younger → P b younger := by
  constructor
  · intro h
    exact ⟨h [] a l rfl, fun older b younger hl => h (a :: older) b younger (by rw [hl]; rfl)⟩
  · rintro ⟨ha, hl⟩ older b younger heq
    cases older with
    | nil =>
        cases heq
        exact ha
    | cons a' older =>
        cases heq
        exact hl older b younger rfl

theorem forall_split_concat {α : Type} {P : α → List α → Prop} {a : α} {l : List α} :
    (∀ older b younger, l ++ [a] = older ++ b :: younger → P b younger) ↔
      P a [] ∧ ∀ older b younger, l = older ++ b :: younger → P b (younger ++ [a]) := by
  induction l with
  | nil =>
      rw [List.nil_append, forall_split_cons]
      simp
  | cons b l ih => rw [List.cons_append, forall_split_cons, ih, forall_split_cons, and_left_comm]

namespace Store

variable {st it : Store} {queue older younger : List Store} {x : Nat}

def carried : List Store → Store → Store
  | [], st => st
  | it :: younger, st =>
      if (carried younger st).Meets it then (carried younger st).joined it
      else carried younger st

def mergedQueue : List Store → Store → List Store
  | [], _ => []
  | it :: younger, st =>
      (if (carried younger st).Meets it then (carried younger st).joined it else it) ::
        mergedQueue younger st

/-- Every merged range fits into four bytes. -/
def Backed (queue : List Store) (st : Store) : Prop :=
  ∀ older it younger, queue = older ++ it :: younger →
    (carried younger st).Meets it → ((carried younger st).span it).toNat ≤ 4

theorem carried_append : carried (older ++ younger) st = carried older (carried younger st) := by
  induction older with
  | nil => rfl
  | cons it older ih => simp only [List.cons_append, carried, ih]

theorem mergedQueue_append : mergedQueue (older ++ younger) st =
    mergedQueue older (carried younger st) ++ mergedQueue younger st := by
  induction older with
  | nil => rfl
  | cons it older ih => simp only [List.cons_append, mergedQueue, carried_append, ih]

theorem backed_concat : Backed (queue ++ [it]) st ↔
    (st.Meets it → (st.span it).toNat ≤ 4) ∧ Backed queue (carried [it] st) := by
  unfold Backed
  rw [forall_split_concat]
  simp only [carried_append, carried]

end Store

namespace Pipeline

variable {st it : Store} {queue : List Store}

theorem concatLoop_of_replace {id : BitVec 32} (res : Bool) {merged : Store} (hid : it.id ≤ id)
    (hstep : mergeStep st it = .ok (.replace merged)) : concatLoop (it :: queue) id st res =
      (concatLoop queue it.id merged true).map fun rest => (rest.1, merged :: rest.2) := by
  rw [concatLoop, if_neg (BitVec.not_lt.mpr hid), hstep]
  change (concatLoop queue it.id merged true >>= _) = _
  cases concatLoop queue it.id merged true <;> rfl

theorem concatLoop_of_apart {id : BitVec 32} (res : Bool) (hid : it.id ≤ id)
    (hmeets : ¬ st.Meets it) : concatLoop (it :: queue) id st res =
      (concatLoop queue it.id st res).map fun rest => (rest.1, it :: rest.2) := by
  rw [concatLoop, if_neg (BitVec.not_lt.mpr hid), mergeStep_apart hmeets]
  change (concatLoop queue it.id st res >>= _) = _
  cases concatLoop queue it.id st res <;> rfl

section Loop

variable {id : BitVec 32} (res : Bool) (hid : ∀ it ∈ queue, it.id ≤ id)
  (hsorted : queue.Pairwise fun it other => other.id ≤ it.id)
  (hsmall : ∀ it ∈ queue, it.size.toNat ≤ 4) (hst : st.size.toNat ≤ 4)
include hid hsorted hsmall hst

theorem concatLoop_ok (hbacked : Store.Backed queue.reverse st) :
    concatLoop queue id st res = .ok (res || decide (∃ it ∈ queue, st.Meets it),
      (Store.mergedQueue queue.reverse st).reverse) := by
  induction queue generalizing id st res with
  | nil => simp [concatLoop, Store.mergedQueue]
  | cons it queue ih =>
      rw [List.forall_mem_cons] at hid hsmall
      rw [List.pairwise_cons] at hsorted
      rw [List.reverse_cons, Store.backed_concat] at hbacked
      rw [List.reverse_cons, Store.mergedQueue_append, List.reverse_append]
      by_cases hmeets : st.Meets it
      · have hspan := hbacked.1 hmeets
        have hcarried : Store.carried [it] st = st.joined it := if_pos hmeets
        have hmerged : Store.mergedQueue [it] st = [st.joined it] := by
          simp [Store.mergedQueue, Store.carried, hmeets]
        have hstep := (mergeStep_meets hst hsmall.1 hmeets).resolve_right (by omega)
        have hany : ∃ other ∈ it :: queue, st.Meets other := ⟨it, List.mem_cons_self, hmeets⟩
        rw [hcarried] at hbacked ⊢
        rw [concatLoop_of_replace res hid.1 hstep, hmerged,
          ih true hsorted.1 hsorted.2 hsmall.2 hspan hbacked.2, decide_eq_true hany, Bool.or_true]
        rfl
      · have hcarried : Store.carried [it] st = st := if_neg hmeets
        have hmerged : Store.mergedQueue [it] st = [it] := by
          simp [Store.mergedQueue, Store.carried, hmeets]
        have hany : (∃ other ∈ it :: queue, st.Meets other) ↔ ∃ other ∈ queue, st.Meets other := by
          rw [List.exists_mem_cons_iff, or_iff_right hmeets]
        rw [hcarried] at hbacked ⊢
        rw [concatLoop_of_apart res hid.1 hmeets, hmerged,
          ih res hsorted.1 hsorted.2 hsmall.2 hst hbacked.2, decide_eq_decide.mpr hany]
        rfl

theorem exists_large_of_not_backed (hbacked : ¬ Store.Backed queue.reverse st)
    {merged : Bool × List Store} (h : concatLoop queue id st res = .ok merged) :
    ∃ it ∈ merged.2, 4 < it.size.toNat := by
  induction queue generalizing id st res merged with
  | nil => exact absurd (fun older it younger heq => by simp at heq) hbacked
  | cons it queue ih =>
      rw [List.forall_mem_cons] at hid hsmall
      rw [List.pairwise_cons] at hsorted
      rw [List.reverse_cons, Store.backed_concat] at hbacked
      by_cases hmeets : st.Meets it
      · have hcarried : Store.carried [it] st = st.joined it := if_pos hmeets
        rcases mergeStep_meets hst hsmall.1 hmeets with hstep | ⟨-, e, hstep⟩
        · rw [concatLoop_of_replace res hid.1 hstep] at h
          obtain ⟨rest, hloop, rfl⟩ := ok_of_map h
          by_cases hspan : (st.span it).toNat ≤ 4
          · have hrest : ¬ Store.Backed queue.reverse (st.joined it) := by
              rw [← hcarried]
              exact fun hrest => hbacked ⟨fun _ => hspan, hrest⟩
            obtain ⟨large, hmem, hlarge⟩ :=
              ih true hsorted.1 hsorted.2 hsmall.2 hspan hrest hloop
            exact ⟨large, List.mem_cons_of_mem _ hmem, hlarge⟩
          · exact ⟨st.joined it, List.mem_cons_self, Nat.lt_of_not_le hspan⟩
        · rw [concatLoop, if_neg (BitVec.not_lt.mpr hid.1), hstep] at h
          cases h
      · have hcarried : Store.carried [it] st = st := if_neg hmeets
        rw [concatLoop_of_apart res hid.1 hmeets] at h
        obtain ⟨rest, hloop, rfl⟩ := ok_of_map h
        have hrest : ¬ Store.Backed queue.reverse st := by
          intro hrest
          rw [hcarried] at hbacked
          exact hbacked ⟨fun h => absurd h hmeets, hrest⟩
        obtain ⟨large, hmem, hlarge⟩ := ih res hsorted.1 hsorted.2 hsmall.2 hst hrest hloop
        exact ⟨large, List.mem_cons_of_mem _ hmem, hlarge⟩

end Loop

end Pipeline

/-! ## The bytes of the merged queue -/

namespace Store

variable {st it c : Store} {queue younger : List Store} {x : Nat}

section Joined

variable (hst : st.Straight) (hit : it.Straight)
include hst hit

theorem Straight.meets_iff : st.Meets it ↔
    (st.addr.toNat ≤ it.addr.toNat + it.size.toNat ∧
        it.addr.toNat + it.size.toNat ≤ st.addr.toNat + st.size.toNat) ∨
      (st.addr.toNat ≤ it.addr.toNat ∧ it.addr.toNat ≤ st.addr.toNat + st.size.toNat) ∨
      it.addr.toNat ≤ st.addr.toNat ∧
        st.addr.toNat + st.size.toNat ≤ it.addr.toNat + it.size.toNat := by
  simp only [Meets, BitVec.le_def, stop_toNat hst, stop_toNat hit]

theorem Straight.meets_of_covers (hx : st.Covers x) (hx' : it.Covers x) : st.Meets it := by
  rw [Straight.meets_iff hst hit]
  unfold Covers at hx hx'
  omega

theorem Straight.joined_range (hmeets : st.Meets it) :
    (st.joined it).addr.toNat + (st.joined it).size.toNat < 2 ^ 64 ∧
      ∀ x, (st.joined it).Covers x ↔ st.Covers x ∨ it.Covers x := by
  rw [Straight.meets_iff hst hit] at hmeets
  have hlowest : (st.lowest it).toNat = min it.addr.toNat st.addr.toNat := by
    unfold lowest
    split_ifs with h
    · rw [Nat.min_eq_left (Nat.le_of_lt (BitVec.lt_def.mp h))]
    · rw [Nat.min_eq_right (BitVec.le_def.mp (BitVec.not_lt.mp h))]
  have hhighest : (st.highest it).toNat =
      max (it.addr.toNat + it.size.toNat) (st.addr.toNat + st.size.toNat) := by
    unfold highest
    rw [← stop_toNat hst, ← stop_toNat hit]
    split_ifs with h
    · rw [Nat.max_eq_right (Nat.le_of_lt (BitVec.lt_def.mp h))]
    · rw [Nat.max_eq_left (BitVec.le_def.mp (BitVec.not_lt.mp h))]
  have hspan : (st.span it).toNat = (st.highest it).toNat - (st.lowest it).toNat := by
    refine BitVec.toNat_sub_of_le (BitVec.le_def.mpr ?_)
    omega
  simp only [joined, Covers, hspan, hlowest, hhighest]
  unfold Straight at hst hit
  refine ⟨by omega, fun x => ?_⟩
  omega

end Joined

theorem byte_joinedData (hmeets : st.Meets it) (hspan : (st.span it).toNat ≤ 4) {i : Nat}
    (hi : i < (st.span it).toNat) : Word.byte (st.joinedData it) i = Word.byte st.data i := by
  unfold joinedData
  split_ifs with hends hstarts hpast
  · rfl
  · exact Word.byte_overlay hspan hi
  · rfl
  · have hinside := (hmeets.resolve_left hends).resolve_left hstarts
    rw [span_of_inside hinside] at hspan hi
    exact Word.byte_overlay hspan hi

theorem byteAt_joined (hmeets : st.Meets it) (hspan : (st.span it).toNat ≤ 4)
    (hx : (st.joined it).Covers x) :
    (st.joined it).byteAt x = Word.byte st.data (x - (st.lowest it).toNat) := by
  refine byte_joinedData hmeets hspan ?_
  obtain ⟨hlow, hhigh⟩ := hx
  change (st.lowest it).toNat ≤ x at hlow
  change x < (st.lowest it).toNat + (st.span it).toNat at hhigh
  change x - (st.lowest it).toNat < (st.span it).toNat
  omega

/-! ### What is carried -/

theorem carried_of_apart (h : ¬ ∃ y ∈ younger, st.Meets y) : carried younger st = st := by
  induction younger with
  | nil => rfl
  | cons it younger ih =>
      rw [List.exists_mem_cons_iff, not_or] at h
      rw [carried, ih h.2, if_neg h.1]

theorem mergedQueue_of_apart (h : ¬ ∃ y ∈ younger, st.Meets y) :
    mergedQueue younger st = younger := by
  induction younger with
  | nil => rfl
  | cons it younger ih =>
      rw [List.exists_mem_cons_iff, not_or] at h
      rw [mergedQueue, ih h.2, carried_of_apart h.2, if_neg h.1]

theorem exists_meets_cons : (∃ y ∈ it :: younger, st.Meets y) ↔
    (carried younger st).Meets it ∨ ∃ y ∈ younger, st.Meets y := by
  rw [List.exists_mem_cons_iff]
  by_cases h : ∃ y ∈ younger, st.Meets y
  · exact iff_of_true (.inr h) (.inr h)
  · rw [carried_of_apart h]

theorem backed_cons : Backed (it :: queue) st ↔
    ((carried queue st).Meets it → ((carried queue st).span it).toNat ≤ 4) ∧ Backed queue st :=
  forall_split_cons

structure Carries (queue : List Store) (st c : Store) : Prop where
  straight : c.Straight
  covers : ∀ x, st.Covers x → c.Covers x
  covered : ∀ x, c.Covers x → st.Covers x ∨ ∃ y ∈ queue, y.Covers x

theorem carries (hst : st.Straight) (hqueue : ∀ it ∈ queue, it.Straight) :
    Carries queue st (carried queue st) := by
  induction queue with
  | nil => exact ⟨hst, fun x hx => hx, fun x hx => .inl hx⟩
  | cons it queue ih =>
      rw [List.forall_mem_cons] at hqueue
      have hc := ih hqueue.2
      have hbehind (x : Nat) (hx : (carried queue st).Covers x) :
          st.Covers x ∨ ∃ y ∈ it :: queue, y.Covers x :=
        (hc.covered x hx).imp_right fun ⟨y, hy, hyx⟩ => ⟨y, List.mem_cons_of_mem _ hy, hyx⟩
      rw [carried]
      split_ifs with hmeets
      · obtain ⟨hstraight, hcovers⟩ := Straight.joined_range hc.straight hqueue.1 hmeets
        refine ⟨hstraight, fun x hx => (hcovers x).mpr (.inl (hc.covers x hx)), fun x hx => ?_⟩
        rcases (hcovers x).mp hx with hx | hx
        · exact hbehind x hx
        · exact .inr ⟨it, List.mem_cons_self, hx⟩
      · exact ⟨hc.straight, hc.covers, hbehind⟩

theorem mergedQueue_covers (hst : st.Straight) (hqueue : ∀ it ∈ queue, it.Straight) :
    (∃ m ∈ mergedQueue queue st, m.Covers x) ↔
      (∃ y ∈ queue, y.Covers x) ∨ (∃ y ∈ queue, st.Meets y) ∧ st.Covers x := by
  induction queue with
  | nil => simp [mergedQueue]
  | cons it queue ih =>
      rw [List.forall_mem_cons] at hqueue
      have hc := carries hst hqueue.2
      rw [mergedQueue, List.exists_mem_cons_iff, ih hqueue.2, exists_meets_cons,
        List.exists_mem_cons_iff]
      have hcovers := hc.covers x
      have hcovered := hc.covered x
      generalize (∃ y ∈ queue, y.Covers x) = behind at hcovered ⊢
      generalize (∃ y ∈ queue, st.Meets y) = met
      split_ifs with hmeets
      · rw [(Straight.joined_range hc.straight hqueue.1 hmeets).2 x]
        grind
      · grind

/-! ### Bytes that survive -/

def target (queue : List Store) (st : Store) : Patch Nat (BitVec 8) := fun x =>
  if ∃ y ∈ queue, st.Meets y then (st.patch x).or (queuePatch queue x) else queuePatch queue x

/--
The data that is carried to an entry has the right byte wherever the merged
entry will decide: where only `it` has one, and, at the first merge, where the
new store has one.
-/
structure Keeps (younger : List Store) (st it : Store) : Prop where
  old : ∀ x, it.Covers x → ¬ st.Covers x → (∀ y ∈ younger, ¬ y.Covers x) →
    Word.byte (carried younger st).data (x - ((carried younger st).lowest it).toNat) = it.byteAt x
  new : (¬ ∃ y ∈ younger, st.Meets y) → ∀ x, st.Covers x →
    Word.byte st.data (x - (st.lowest it).toNat) = st.byteAt x

theorem target_isSome_iff : (target queue st x).isSome = true ↔
    (∃ y ∈ queue, y.Covers x) ∨ (∃ y ∈ queue, st.Meets y) ∧ st.Covers x := by
  unfold target
  split_ifs with h
  · rw [Option.isSome_or, Bool.or_eq_true, patch_isSome_iff, queuePatch_isSome_iff, or_comm,
      and_iff_right h]
  · rw [queuePatch_isSome_iff, or_iff_left fun hmet => h hmet.1]

private theorem or_right_cancel {a b c : Option (BitVec 8)}
    (h : a.isSome = true ↔ b.isSome = true) :
    a.or c = b.or c ↔ a = b := by
  cases a <;> cases b <;> simp_all

section Bytes

variable (hst : st.Straight) (hqueue : ∀ y ∈ queue, y.Straight)
include hst hqueue

private theorem patch_cons_of_apart (happart : ¬ (carried queue st).Meets it) :
    queuePatch (mergedQueue (it :: queue) st) x = target (it :: queue) st x ↔
      queuePatch (mergedQueue queue st) x = target queue st x := by
  have htarget : target (it :: queue) st x = (target queue st x).or (it.patch x) := by
    unfold target
    rw [if_congr (exists_meets_cons.trans (or_iff_right happart)) rfl rfl, queuePatch_cons]
    split_ifs
    · rw [Option.or_assoc]
    · rfl
  rw [mergedQueue, if_neg happart, queuePatch_cons, htarget]
  refine or_right_cancel ?_
  rw [queuePatch_isSome_iff, target_isSome_iff, mergedQueue_covers hst hqueue]

variable (hit : it.Straight) (hmeets : (carried queue st).Meets it)
  (hspan : ((carried queue st).span it).toNat ≤ 4)
include hit hmeets hspan

private theorem joined_patch_iff (hnew : ¬ st.Covers x) (hyounger : ¬ ∃ y ∈ queue, y.Covers x) :
    ((carried queue st).joined it).patch x = it.patch x ↔
      (it.Covers x → Word.byte (carried queue st).data
        (x - ((carried queue st).lowest it).toNat) = it.byteAt x) := by
  have hc := carries hst hqueue
  have hcarried : ¬ (carried queue st).Covers x := fun hx =>
    (hc.covered x hx).elim hnew hyounger
  have hcovers := (Straight.joined_range hc.straight hit hmeets).2 x
  rw [or_iff_right hcarried] at hcovers
  by_cases hx : it.Covers x
  · have hjoined := hcovers.mpr hx
    rw [patch_of_covers hjoined, patch_of_covers hx, byteAt_joined hmeets hspan hjoined,
      Option.some.injEq]
    exact (imp_iff_right hx).symm
  · rw [patch_eq_none_iff.mpr (hcovers.not.mpr hx), patch_eq_none_iff.mpr hx]
    exact iff_of_true rfl fun h => absurd h hx

private theorem patch_cons_of_met (hmet : ∃ y ∈ queue, st.Meets y) :
    queuePatch (mergedQueue (it :: queue) st) x = target (it :: queue) st x ↔
      (it.Covers x → ¬ st.Covers x → (∀ y ∈ queue, ¬ y.Covers x) →
        Word.byte (carried queue st).data (x - ((carried queue st).lowest it).toNat) =
          it.byteAt x) ∧
      queuePatch (mergedQueue queue st) x = target queue st x := by
  have hsome : (queuePatch (mergedQueue queue st) x).isSome = true ↔
      (target queue st x).isSome = true := by
    rw [queuePatch_isSome_iff, target_isSome_iff, mergedQueue_covers hst hqueue]
  have htarget : target (it :: queue) st x = (target queue st x).or (it.patch x) := by
    unfold target
    rw [if_pos (exists_meets_cons.mpr (.inl hmeets)), if_pos hmet, queuePatch_cons,
      Option.or_assoc]
  rw [mergedQueue, if_pos hmeets, queuePatch_cons, htarget]
  cases hbehind : target queue st x with
  | none =>
      have hnone : ¬ (target queue st x).isSome = true := by
        rw [hbehind]
        exact Bool.false_ne_true
      have hmerged : queuePatch (mergedQueue queue st) x = none := by
        simpa using hsome.not.mpr hnone
      rw [target_isSome_iff, not_or, not_and] at hnone
      obtain ⟨hyounger, hnew⟩ := hnone
      rw [hmerged, Option.none_or, Option.none_or,
        joined_patch_iff hst hqueue hit hmeets hspan (hnew hmet) hyounger, and_iff_left rfl]
      exact ⟨fun h hx _ _ => h hx, fun h hx => h hx (hnew hmet)
        fun y hy hyx => hyounger ⟨y, hy, hyx⟩⟩
  | some v =>
      have hcovered : (target queue st x).isSome = true := by
        rw [hbehind]
        rfl
      obtain ⟨w, hw⟩ := Option.isSome_iff_exists.mp (hsome.mpr hcovered)
      rw [target_isSome_iff] at hcovered
      rw [hw, Option.some_or, Option.some_or, and_iff_right]
      intro hx hnew hyounger
      rcases hcovered with ⟨y, hy, hyx⟩ | ⟨-, hcovered⟩
      · exact absurd hyx (hyounger y hy)
      · exact absurd hcovered hnew

private theorem patch_cons_of_first (hfirst : ¬ ∃ y ∈ queue, st.Meets y) :
    queuePatch (mergedQueue (it :: queue) st) x = target (it :: queue) st x ↔
      (it.Covers x → ¬ st.Covers x → (∀ y ∈ queue, ¬ y.Covers x) →
        Word.byte (carried queue st).data (x - ((carried queue st).lowest it).toNat) =
          it.byteAt x) ∧
      (st.Covers x → Word.byte st.data (x - (st.lowest it).toNat) = st.byteAt x) := by
  have hcarried := carried_of_apart hfirst
  have htarget : target (it :: queue) st x =
      (st.patch x).or ((queuePatch queue x).or (it.patch x)) :=
    if_pos (exists_meets_cons.mpr (.inl hmeets))
  have hpatch := joined_patch_iff hst hqueue hit hmeets hspan (x := x)
  rw [mergedQueue, if_pos hmeets, mergedQueue_of_apart hfirst, queuePatch_cons, htarget]
  by_cases hnew : st.Covers x
  · have hyounger : ∀ y ∈ queue, ¬ y.Covers x := fun y hy hyx =>
      hfirst ⟨y, hy, Straight.meets_of_covers hst (hqueue y hy) hnew hyx⟩
    have hjoined : ((carried queue st).joined it).Covers x :=
      ((Straight.joined_range (carries hst hqueue).straight hit hmeets).2 x).mpr
        (.inl ((carries hst hqueue).covers x hnew))
    rw [queuePatch_eq_none_iff.mpr hyounger, Option.none_or, patch_of_covers hjoined,
      byteAt_joined hmeets hspan hjoined, patch_of_covers hnew, Option.some_or, hcarried,
      Option.some.injEq]
    exact ⟨fun h => ⟨fun _ h' => absurd hnew h', fun _ => h⟩, fun h => h.2 hnew⟩
  · rw [patch_eq_none_iff.mpr hnew, Option.none_or, and_iff_left fun h => absurd h hnew]
    cases hbehind : queuePatch queue x with
    | none =>
        have hyounger := queuePatch_eq_none_iff.mp hbehind
        rw [Option.none_or, Option.none_or,
          hpatch hnew fun ⟨y, hy, hyx⟩ => hyounger y hy hyx]
        exact ⟨fun h hx _ _ => h hx, fun h hx => h hx hnew hyounger⟩
    | some v =>
        refine iff_of_true rfl fun hx _ hyounger => ?_
        rw [queuePatch_eq_none_iff.mpr hyounger] at hbehind
        cases hbehind

end Bytes

theorem mergedQueue_patch_iff (hst : st.Straight) (hqueue : ∀ y ∈ queue, y.Straight)
    (hbacked : Backed queue st) :
    (∀ x, queuePatch (mergedQueue queue st) x = target queue st x) ↔
      ∀ older it younger, queue = older ++ it :: younger →
        (carried younger st).Meets it → Keeps younger st it := by
  induction queue with
  | nil =>
      refine iff_of_true (fun x => ?_) fun older it younger heq => ?_
      · exact (if_neg fun ⟨y, hy, _⟩ => List.not_mem_nil hy).symm
      · exact absurd heq (by simp)
  | cons it queue ih =>
      rw [List.forall_mem_cons] at hqueue
      rw [backed_cons] at hbacked
      rw [forall_split_cons, ← ih hqueue.2 hbacked.2]
      by_cases hmeets : (carried queue st).Meets it
      · have hspan := hbacked.1 hmeets
        rw [imp_iff_right hmeets]
        by_cases hmet : ∃ y ∈ queue, st.Meets y
        · have hcons := fun x =>
            patch_cons_of_met hst hqueue.2 hqueue.1 hmeets hspan (x := x) hmet
          refine ⟨fun h => ⟨⟨fun x => ((hcons x).mp (h x)).1, fun hnone => absurd hmet hnone⟩,
            fun x => ((hcons x).mp (h x)).2⟩, fun h x => (hcons x).mpr ⟨h.1.old x, h.2 x⟩⟩
        · have hcons := fun x =>
            patch_cons_of_first hst hqueue.2 hqueue.1 hmeets hspan (x := x) hmet
          have hbehind : ∀ x, queuePatch (mergedQueue queue st) x = target queue st x := by
            intro x
            rw [mergedQueue_of_apart hmet]
            exact (if_neg hmet).symm
          refine ⟨fun h => ⟨⟨fun x => ((hcons x).mp (h x)).1, fun _ x => ((hcons x).mp (h x)).2⟩,
            hbehind⟩, fun h x => (hcons x).mpr ⟨h.1.old x, h.1.new hmet x⟩⟩
      · rw [and_iff_right fun h => absurd h hmeets]
        exact forall_congr' fun x => patch_cons_of_apart hst hqueue.2 hmeets

/-! ### The drained memory -/

theorem mergedQueue_size_le (hqueue : ∀ y ∈ queue, y.size.toNat ≤ 4) (hbacked : Backed queue st) :
    ∀ m ∈ mergedQueue queue st, m.size.toNat ≤ 4 := by
  induction queue with
  | nil => exact fun m hm => absurd hm List.not_mem_nil
  | cons it queue ih =>
      rw [List.forall_mem_cons] at hqueue
      rw [backed_cons] at hbacked
      rw [mergedQueue, List.forall_mem_cons]
      refine ⟨?_, ih hqueue.2 hbacked.2⟩
      split_ifs with hmeets
      · exact hbacked.1 hmeets
      · exact hqueue.1

theorem fits_iff {memory : Memory} : st.Fits memory ↔
    st.size.toNat ≤ 4 ∧ (0 < st.size.toNat → st.addr.toNat + st.size.toNat ≤ memory.size) := by
  have hpos : st.size > 0 ↔ 0 < st.size.toNat := BitVec.lt_def
  constructor
  · rintro ⟨hsmall, hrange⟩
    exact ⟨BitVec.le_def.mp hsmall, fun h => hrange (hpos.mpr h)⟩
  · rintro ⟨hsmall, hrange⟩
    exact ⟨BitVec.le_def.mpr hsmall, fun h => hrange (hpos.mp h)⟩

theorem Fits.straight {memory : Memory} (h : st.Fits memory) (hmemory : memory.size < 2 ^ 64) :
    st.Straight := by
  have haddr := st.addr.isLt
  have hrange := (fits_iff.mp h).2
  rw [Straight]
  omega

theorem mergedQueue_fits {memory : Memory} (hmemory : memory.size < 2 ^ 64)
    (hqueue : ∀ y ∈ queue, y.Fits memory) (hst : st.Fits memory) (hbacked : Backed queue st) :
    ∀ m ∈ mergedQueue queue st, m.Fits memory := by
  intro m hm
  have hsizes := mergedQueue_size_le (fun y hy => (fits_iff.mp (hqueue y hy)).1) hbacked
  refine fits_iff.mpr ⟨hsizes m hm, fun hpos => ?_⟩
  have hlast : m.Covers (m.addr.toNat + m.size.toNat - 1) := by
    rw [Covers]
    omega
  have hcovered : ∃ y : Store, y.Fits memory ∧ y.Covers (m.addr.toNat + m.size.toNat - 1) := by
    rcases (mergedQueue_covers (hst.straight hmemory)
      fun y hy => (hqueue y hy).straight hmemory).mp ⟨m, hm, hlast⟩ with ⟨y, hy, hcovers⟩ | hcovers
    · exact ⟨y, hqueue y hy, hcovers⟩
    · exact ⟨st, hst, hcovers.2⟩
  obtain ⟨y, hfits, hcovers⟩ := hcovered
  have hrange := (fits_iff.mp hfits).2
  rw [Covers] at hcovers
  omega

theorem queuePatch_concat :
    queuePatch (queue ++ [st]) x = (st.patch x).or (queuePatch queue x) := by
  rw [queuePatch, List.map_append, Patch.newest_append]
  rfl

theorem drain_mergedQueue_iff (hqueue : ∀ y ∈ queue, y.size.toNat ≤ 4) (hst : st.size.toNat ≤ 4)
    (hbacked : Backed queue st) :
    (∀ memory memory', memory.size < 2 ^ 64 → drain (queue ++ [st]) memory = .ok memory' →
      drain (mergedQueue queue st) memory = .ok memory') ↔
    ((∀ y ∈ queue, y.Straight) → st.Straight →
      ∀ x, queuePatch (mergedQueue queue st) x = queuePatch (queue ++ [st]) x) := by
  constructor
  · intro h hstraight hst'
    have hbytes : Nontrivial (BitVec 8) := ⟨0, 1, by decide⟩
    refine congrFun (Patch.apply_right_inj.mp fun f => ?_)
    let memory : Memory := { size := 2 ^ 64 - 1, bytes := f }
    have hfits : ∀ y ∈ queue ++ [st], y.Fits memory := by
      intro y hy
      have hy' : y.size.toNat ≤ 4 ∧ y.Straight := by
        rcases List.mem_append.mp hy with hmem | hmem
        · exact ⟨hqueue y hmem, hstraight y hmem⟩
        · rw [List.mem_singleton.mp hmem]
          exact ⟨hst, hst'⟩
      exact fits_iff.mpr ⟨hy'.1, fun _ => Nat.le_sub_one_of_lt hy'.2⟩
    have hdrain := h memory { size := 2 ^ 64 - 1, bytes := (queuePatch (queue ++ [st])).apply f }
      (Nat.sub_one_lt (by decide)) (drain_ok_iff.mpr ⟨hfits, rfl, rfl⟩)
    exact (drain_ok_iff.mp hdrain).2.2.symm
  · intro h memory memory' hmemory hdrain
    obtain ⟨hfits, hsize, hbytes⟩ := drain_ok_iff.mp hdrain
    have hqueue' : ∀ y ∈ queue, y.Fits memory := fun y hy => hfits y (List.mem_append_left _ hy)
    have hst' : st.Fits memory := hfits st (List.mem_append_right _ (List.mem_singleton_self st))
    have hpatch := funext (h (fun y hy => (hqueue' y hy).straight hmemory)
      (hst'.straight hmemory))
    refine drain_ok_iff.mpr ⟨mergedQueue_fits hmemory hqueue' hst' hbacked, hsize, ?_⟩
    rw [hpatch, hbytes]

end Store

/-! ## Stores -/

namespace Pipeline

variable {env : Env} {pipeline : Pipeline} {st : Store}

/--
`tryConcatenate` returns.  If it has merged the store, the queue leaves the
memory that the old queue and then the store would have left; if it has not,
the queue is the old one; and no entry is larger than its data.
-/
def Merges (env : Env) (pipeline : Pipeline) (st : Store) : Prop :=
  ∃ res merged, tryConcatenate env pipeline st = .ok (res, merged) ∧
    (∀ it ∈ merged.queue, it.size.toNat ≤ 4) ∧
    (res = false → merged.queue = pipeline.queue) ∧
    (res = true → ∀ memory memory', memory.size < 2 ^ 64 →
      drain (pipeline.queue ++ [st]) memory = .ok memory' →
      drain merged.queue memory = .ok memory')

section Concatenate

variable (hsorted : pipeline.queue.Pairwise fun it other => it.id ≤ other.id)
  (hsizes : ∀ it ∈ pipeline.queue, it.size.toNat ≤ 4) (hsmall : st.size.toNat ≤ 4)
include hsorted hsizes hsmall

omit hsmall in
private theorem reversed_queue (endId : BitVec 32) :
    (∀ it ∈ pipeline.queue.reverse, it.id ≤ (pipeline.queue.getLast?.map Store.id).getD endId) ∧
      pipeline.queue.reverse.Pairwise (fun it other => other.id ≤ it.id) ∧
      ∀ it ∈ pipeline.queue.reverse, it.size.toNat ≤ 4 := by
  have hreversed := List.pairwise_reverse.mpr hsorted
  have hid := rel_head_id (r := fun id id' => id' ≤ id) (fun _ => BitVec.le_refl _) endId hreversed
  rw [List.head?_reverse] at hid
  exact ⟨hid, hreversed, fun it hit => hsizes it (List.mem_reverse.mp hit)⟩

private theorem tryConcatenate_ok (hbacked : Store.Backed pipeline.queue st) :
    tryConcatenate env pipeline st = .ok (decide (∃ it ∈ pipeline.queue, st.Meets it),
      { pipeline with queue := Store.mergedQueue pipeline.queue st }) := by
  obtain ⟨hid, hreversed, hsizes'⟩ := reversed_queue hsorted hsizes env.undef.endId
  have hmet : (∃ it ∈ pipeline.queue.reverse, st.Meets it) ↔
      ∃ it ∈ pipeline.queue, st.Meets it := by
    simp only [List.mem_reverse]
  have hloop := concatLoop_ok false hid hreversed hsizes' hsmall
    (by rwa [List.reverse_reverse])
  rw [List.reverse_reverse, Bool.false_or, decide_eq_decide.mpr hmet] at hloop
  rw [tryConcatenate, hloop]
  change Except.ok (_, { pipeline with
    queue := (Store.mergedQueue pipeline.queue st).reverse.reverse }) = _
  rw [List.reverse_reverse]

private theorem backed_of_merges (h : Merges env pipeline st) :
    Store.Backed pipeline.queue st := by
  obtain ⟨hid, hreversed, hsizes'⟩ := reversed_queue hsorted hsizes env.undef.endId
  by_contra hbacked
  obtain ⟨res, merged, htry, hsizes'', -⟩ := h
  obtain ⟨⟨res', reversed⟩, hloop, hmerged⟩ := ok_of_bind htry
  cases hmerged
  obtain ⟨large, hmem, hlarge⟩ := exists_large_of_not_backed false hid hreversed hsizes' hsmall
    (by rwa [List.reverse_reverse]) hloop
  exact absurd (hsizes'' large (List.mem_reverse.mpr hmem)) (Nat.not_le_of_lt hlarge)

private theorem merges_iff_of_backed (hbacked : Store.Backed pipeline.queue st) :
    Merges env pipeline st ↔ ((∃ it ∈ pipeline.queue, st.Meets it) →
      ∀ memory memory', memory.size < 2 ^ 64 →
        drain (pipeline.queue ++ [st]) memory = .ok memory' →
        drain (Store.mergedQueue pipeline.queue st) memory = .ok memory') := by
  have htry : tryConcatenate env pipeline st = _ := tryConcatenate_ok hsorted hsizes hsmall hbacked
  constructor
  · rintro ⟨res, merged, h, -, -, hdrain⟩ hany
    cases htry.symm.trans h
    exact hdrain (decide_eq_true hany)
  · intro h
    refine ⟨_, _, htry, Store.mergedQueue_size_le hsizes hbacked, fun hres => ?_,
      fun hres => h (of_decide_eq_true hres)⟩
    exact Store.mergedQueue_of_apart (of_decide_eq_false hres)

end Concatenate

/--
Merging is sound exactly when no merged range is larger than four bytes and, in
a queue that memory can hold, every merge keeps the bytes that its result will
decide.
-/
theorem tryConcatenate_iff (hsorted : pipeline.queue.Pairwise fun it other => it.id ≤ other.id)
    (hsizes : ∀ it ∈ pipeline.queue, it.size.toNat ≤ 4)
    (hst : st.size = 1 ∨ st.size = 2 ∨ st.size = 4) :
    Merges env pipeline st ↔ Store.Backed pipeline.queue st ∧
      ((∀ it ∈ pipeline.queue, it.Straight) → st.Straight →
        ∀ older it younger, pipeline.queue = older ++ it :: younger →
          (Store.carried younger st).Meets it → Store.Keeps younger st it) := by
  have hsmall : st.size.toNat ≤ 4 := by
    rcases hst with h | h | h <;> rw [h] <;> decide
  by_cases hbacked : Store.Backed pipeline.queue st
  · rw [merges_iff_of_backed hsorted hsizes hsmall hbacked,
      Store.drain_mergedQueue_iff hsizes hsmall hbacked, and_iff_right hbacked]
    constructor
    · intro h hqueue hst'
      refine (Store.mergedQueue_patch_iff hst' hqueue hbacked).mp fun x => ?_
      unfold Store.target
      split_ifs with hany
      · rw [h hany hqueue hst' x, Store.queuePatch_concat]
      · rw [Store.mergedQueue_of_apart hany]
    · intro h hany hqueue hst' x
      rw [(Store.mergedQueue_patch_iff hst' hqueue hbacked).mpr (h hqueue hst') x,
        Store.queuePatch_concat]
      exact if_pos hany
  · exact iff_of_false (fun h => hbacked (backed_of_merges hsorted hsizes hsmall h))
      fun h => hbacked h.1

/-- Two byte stores side by side: the second one overwrites the first. -/
theorem tryConcatenate_shifts :
    let pipeline : Pipeline := { id := 1, queue := [⟨16, 1, 0xaa, 1⟩] }
    (∀ it ∈ pipeline.queue, it.size.toNat ≤ 4) ∧
      pipeline.queue.Pairwise (fun it other => it.id ≤ other.id) ∧
      ¬ Merges .plain pipeline ⟨17, 1, 0xbb, 2⟩ := by
  refine ⟨by decide, by decide, ?_⟩
  rintro ⟨res, merged, htry, -, -, hdrain⟩
  have hmerged : tryConcatenate .plain { id := 1, queue := [⟨16, 1, 0xaa, 1⟩] }
      ⟨17, 1, 0xbb, 2⟩ = .ok (true, { id := 1, queue := [⟨16, 2, 0xbb, 1⟩] }) := by
    rfl
  cases htry.symm.trans hmerged
  let memory : Memory := { size := 64, bytes := fun _ => 0 }
  let queue : List Store := [⟨16, 1, 0xaa, 1⟩, ⟨17, 1, 0xbb, 2⟩]
  have hfits : ∀ it ∈ queue, it.Fits memory := by
    simp only [queue, memory, List.forall_mem_cons, Store.fits_iff]
    decide
  have hbytes := (drain_ok_iff.mp (hdrain rfl memory
    { size := 64, bytes := (queuePatch queue).apply memory.bytes } (by decide)
    (drain_ok_iff.mpr ⟨hfits, rfl, rfl⟩))).2.2
  exact absurd (congrFun hbytes 16) (by decide)

theorem tryConcatenate_covers :
    Merges .plain { id := 1, queue := [⟨16, 1, 0xaa, 1⟩] } ⟨16, 4, 0x44332211, 2⟩ := by
  have hnil {P : Store → List Store → Prop} :
      ∀ older it younger, [] = older ++ it :: younger → P it younger := by
    intro older it younger h
    simp at h
  refine (tryConcatenate_iff (by decide) (by decide) (by decide)).mpr ⟨?_, fun _ _ => ?_⟩
  · exact Store.backed_cons.mpr ⟨fun _ => by decide, hnil⟩
  · refine forall_split_cons.mpr ⟨fun _ => ⟨fun x hold hnew => ?_, fun _ x hnew => ?_⟩, hnil⟩
    · simp only [Store.Covers, BitVec.reduceToNat] at hold hnew
      omega
    · rfl

end Pipeline

end RiscvPerfSim
