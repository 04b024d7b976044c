import Mathlib.Algebra.Order.Group.Nat
import Mathlib.Data.List.Find
import Mathlib.Order.Monotone.Basic

/-!
# Timetables

Items start one after another, each at least one unit of time behind the one in
front of it: when each of them starts, and which one has been under way for a
given time.
-/

namespace RiscvPerfSim.Foundation.Timetable

/-- The start of the item with the number `k`; behind item `j` nothing starts for `gap j`. -/
def start (gap : Nat → Nat) : Nat → Nat
  | 0 => 0
  | k + 1 => start gap k + 1 + gap k

/-- Which of the first `n` items has been under way for `age` at `time`. -/
def under (gap : Nat → Nat) (n time age : Nat) : Option Nat :=
  (List.range n).find? fun j => start gap j + age = time

variable {gap gap' : Nat → Nat} {n time age j k : Nat}

theorem start_strictMono : StrictMono (start gap) :=
  strictMono_nat_of_lt_succ fun k => by
    rw [start]
    omega

theorem start_congr (h : ∀ j < k, gap j = gap' j) : start gap k = start gap' k := by
  induction k with
  | zero => rfl
  | succ k ih =>
      rw [start, start, ih fun j hj => h j (Nat.lt_succ_of_lt hj), h k (Nat.lt_succ_self k)]

theorem under_eq_some (hj : j < n) (htime : start gap j + age = time) :
    under gap n time age = some j := by
  cases hfound : under gap n time age with
  | none =>
      have hall := List.find?_eq_none.mp hfound j (List.mem_range.mpr hj)
      exact absurd (decide_eq_true htime) hall
  | some i =>
      have htime' : start gap i + age = time := by simpa using List.find?_some hfound
      have hsame : start gap i = start gap j := by omega
      rw [start_strictMono.injective hsame]

theorem under_eq_none (h : ∀ j < n, start gap j + age ≠ time) :
    under gap n time age = none := by
  refine List.find?_eq_none.mpr fun j hj => ?_
  simpa using h j (List.mem_range.mp hj)

theorem lt_of_under (h : under gap n time age = some j) : j < n :=
  List.mem_range.mp (List.mem_of_find?_eq_some h)

theorem under_congr (h : ∀ j < n, gap j = gap' j) :
    under gap n time age = under gap' n time age := by
  refine List.find?_congr fun j hj => ?_
  have hstart : start gap j = start gap' j :=
    start_congr fun i hi => h i (hi.trans (List.mem_range.mp hj))
  rw [hstart]

end RiscvPerfSim.Foundation.Timetable
