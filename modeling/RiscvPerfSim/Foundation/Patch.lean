import Mathlib.Data.List.Basic
import Mathlib.Logic.Nontrivial.Basic

/-!
# Updates of a part of a function

A patch has new values for some indices of a function and leaves the others
alone.  Of a list of patches that are applied in order, the newest one with a
value at an index decides what the function has there.
-/

namespace RiscvPerfSim.Foundation

abbrev Patch (ι α : Type) := ι → Option α

namespace Patch

variable {ι α β : Type} {x : ι} {v : α} {p q : Patch ι α} {ps qs : List (Patch ι α)}

def apply (p : Patch ι α) (f : ι → α) : ι → α := fun x => (p x).getD (f x)

/-- A list of patches, the oldest one first, as one patch. -/
def newest : List (Patch ι α) → Patch ι α
  | [] => fun _ => none
  | p :: ps => fun x => (newest ps x).or (p x)

theorem newest_cons : newest (p :: ps) x = (newest ps x).or (p x) := rfl

theorem newest_append : newest (ps ++ qs) x = (newest qs x).or (newest ps x) := by
  induction ps with
  | nil => simp [newest]
  | cons p ps ih =>
      change (newest (ps ++ qs) x).or (p x) = (newest qs x).or ((newest ps x).or (p x))
      rw [ih, Option.or_assoc]

theorem newest_eq_none_iff : newest ps x = none ↔ ∀ p ∈ ps, p x = none := by
  induction ps with
  | nil => simp [newest]
  | cons p ps ih =>
      rw [newest_cons, Option.or_eq_none_iff, ih, List.forall_mem_cons, and_comm]

theorem newest_isSome_iff : (newest ps x).isSome = true ↔ ∃ p ∈ ps, (p x).isSome = true := by
  rw [Option.isSome_iff_ne_none, ne_eq, newest_eq_none_iff]
  simp [Option.isSome_iff_ne_none]

theorem newest_split (before : List (Patch ι α)) {after : List (Patch ι α)}
    (hp : p x = some v) (hafter : ∀ q ∈ after, q x = none) :
    newest (before ++ p :: after) x = some v := by
  rw [newest_append, newest_cons, newest_eq_none_iff.mpr hafter, hp]
  rfl

theorem exists_split_of_newest (h : newest ps x = some v) : ∃ before p after,
    ps = before ++ p :: after ∧ p x = some v ∧ ∀ q ∈ after, q x = none := by
  induction ps with
  | nil => cases h
  | cons p ps ih =>
      rw [newest_cons] at h
      cases hrest : newest ps x with
      | none =>
          rw [hrest, Option.none_or] at h
          exact ⟨[], p, ps, List.nil_append _ ▸ rfl, h, newest_eq_none_iff.mp hrest⟩
      | some w =>
          rw [hrest, Option.some_or] at h
          obtain ⟨before, q, after, hps, hq, hafter⟩ := ih (hrest.trans h)
          exact ⟨p :: before, q, after, congrArg (p :: ·) hps, hq, hafter⟩

theorem foldl_apply (f : ι → α) : ps.foldl (fun f p => p.apply f) f = (newest ps).apply f := by
  induction ps generalizing f with
  | nil => rfl
  | cons p ps ih =>
      rw [List.foldl_cons, ih]
      funext x
      simp only [apply, newest_cons]
      cases newest ps x <;> rfl

theorem apply_right_inj [Nontrivial α] : (∀ f, p.apply f = q.apply f) ↔ p = q := by
  refine ⟨fun h => ?_, fun h f => by rw [h]⟩
  funext x
  obtain ⟨a, b, hne⟩ := exists_pair_ne α
  have ha : (p x).getD a = (q x).getD a := congrFun (h fun _ => a) x
  have hb : (p x).getD b = (q x).getD b := congrFun (h fun _ => b) x
  cases hp : p x <;> cases hq : q x <;> simp_all

/-! ## Leaving patches out -/

section Kept

variable (patch : β → Patch ι α) (keep : β → Bool) (a : α)

def kept (bs : List β) : Patch ι α := newest ((bs.filter keep).map patch)

variable {patch keep a} {bs : List β}

theorem kept_split {before after : List β} {b : β} (hkeep : keep b = false)
    (hafter : ∀ c ∈ after, patch c x = none) :
    kept patch keep (before ++ b :: after) x = kept patch keep before x := by
  have hnone : newest ((after.filter keep).map patch) x = none := by
    rw [newest_eq_none_iff, List.forall_mem_map]
    exact fun c hc => hafter c (List.mem_of_mem_filter hc)
  rw [kept, List.filter_append, List.filter_cons, hkeep, List.map_append, newest_append]
  simp [hnone, kept]

/--
The patches that are not kept do not show at `x` exactly when each of them that
decides there has the value the older ones have left.
-/
theorem newest_eq_kept_iff :
    (newest (bs.map patch) x).getD a = (kept patch keep bs x).getD a ↔
      ∀ before b after v, bs = before ++ b :: after → keep b = false → patch b x = some v →
        (∀ c ∈ after, patch c x = none) → v = (kept patch keep before x).getD a := by
  constructor
  · rintro h before b after v rfl hkeep hv hafter
    rw [List.map_append, List.map_cons,
      newest_split _ hv (List.forall_mem_map.mpr hafter), kept_split hkeep hafter] at h
    exact h
  · intro h
    cases hnew : newest (bs.map patch) x with
    | none =>
        have hnone : kept patch keep bs x = none := by
          rw [newest_eq_none_iff, List.forall_mem_map] at hnew
          rw [kept, newest_eq_none_iff, List.forall_mem_map]
          exact fun b hb => hnew b (List.mem_of_mem_filter hb)
        rw [hnone]
    | some v =>
        obtain ⟨before', p, after', hbs, hp, hafter'⟩ := exists_split_of_newest hnew
        obtain ⟨before, rest, rfl, rfl, hrest⟩ := List.map_eq_append_iff.mp hbs
        obtain ⟨b, after, rfl, rfl, rfl⟩ := List.map_eq_cons_iff.mp hrest
        have hafter := List.forall_mem_map.mp hafter'
        cases hkeep : keep b with
        | false =>
            rw [kept_split hkeep hafter]
            exact h before b after v rfl hkeep hp hafter
        | true =>
            have hsplit : kept patch keep (before ++ b :: after) x = some v := by
              rw [kept, List.filter_append, List.filter_cons, hkeep, List.map_append]
              refine newest_split _ hp (List.forall_mem_map.mpr fun c hc => ?_)
              exact hafter c (List.mem_of_mem_filter hc)
            rw [hsplit]

end Kept

/-! ## Ranges -/

def range (start count : Nat) (data : Nat → α) : Patch Nat α := fun x =>
  if start ≤ x ∧ x < start + count then some (data (x - start)) else none

variable {start count y : Nat} {data data' : Nat → α}

theorem range_of_mem (h : start ≤ y ∧ y < start + count) :
    range start count data y = some (data (y - start)) := if_pos h

theorem range_eq_none_iff :
    range start count data y = none ↔ ¬ (start ≤ y ∧ y < start + count) := by
  simp only [range, ite_eq_right_iff, reduceCtorEq, imp_false]

theorem range_eq_some_iff : range start count data y = some v ↔
    (start ≤ y ∧ y < start + count) ∧ data (y - start) = v := by
  simp only [range, Option.ite_none_right_eq_some, Option.some.injEq]

theorem range_isSome_iff :
    (range start count data y).isSome = true ↔ start ≤ y ∧ y < start + count := by
  rw [Option.isSome_iff_ne_none, ne_eq, range_eq_none_iff, not_not]

theorem range_congr (h : ∀ i < count, data i = data' i) :
    range start count data = range start count data' := by
  funext y
  unfold range
  split_ifs with hmem
  · rw [h (y - start) (by omega)]
  · rfl

end Patch

end RiscvPerfSim.Foundation
