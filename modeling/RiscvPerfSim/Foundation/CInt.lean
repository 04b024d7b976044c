import Mathlib.Algebra.Group.Int.Defs
import Mathlib.Algebra.Group.Nat.Defs
import Mathlib.Logic.Function.Basic
import Mathlib.Tactic.SplitIfs

/-!
# Integer expressions of C++14

The types `int32_t`, `uint32_t` and `int64_t` where `int` has 32 bits, the usual
arithmetic conversions, and the operators with the cases that the language
leaves undefined: a signed result out of range, a shift count that is negative
or not below the width, and a left shift that leaves the signed type's range.
-/

namespace RiscvPerfSim.Foundation.CInt

/-! ## Types and values -/

inductive Ty where
  | int32
  | uint32
  | int64
  deriving DecidableEq

namespace Ty

def width : Ty → Nat
  | .int32 | .uint32 => 32
  | .int64 => 64

def signed : Ty → Bool
  | .int32 | .int64 => true
  | .uint32 => false

def common : Ty → Ty → Ty
  | .int64, _ | _, .int64 => .int64
  | .uint32, _ | _, .uint32 => .uint32
  | .int32, .int32 => .int32

def Holds : Ty → Int → Prop
  | .int32, x => -2 ^ 31 ≤ x ∧ x < 2 ^ 31
  | .uint32, x => 0 ≤ x ∧ x < 2 ^ 32
  | .int64, x => -2 ^ 63 ≤ x ∧ x < 2 ^ 63

instance (ty : Ty) (x : Int) : Decidable (ty.Holds x) :=
  match ty with
  | .int32 => inferInstanceAs (Decidable (-2 ^ 31 ≤ x ∧ x < 2 ^ 31))
  | .uint32 => inferInstanceAs (Decidable (0 ≤ x ∧ x < 2 ^ 32))
  | .int64 => inferInstanceAs (Decidable (-2 ^ 63 ≤ x ∧ x < 2 ^ 63))

end Ty

/-- A value has the bits of its type, and so lies in its range. -/
structure Val where
  ty : Ty
  bits : BitVec ty.width

namespace Val

def toInt : Val → Int
  | ⟨.int32, bits⟩ => BitVec.toInt bits
  | ⟨.uint32, bits⟩ => BitVec.toNat bits
  | ⟨.int64, bits⟩ => BitVec.toInt bits

def ofInt (ty : Ty) (x : Int) : Val := ⟨ty, BitVec.ofInt ty.width x⟩

/-- A conversion keeps the value modulo the width of the new type. -/
def as (v : Val) (ty : Ty) : BitVec ty.width := BitVec.ofInt ty.width v.toInt

def convert (v : Val) (ty : Ty) : Val := ⟨ty, v.as ty⟩

end Val

/-! ## Operators -/

/-- A sum or difference in a type: unsigned ones wrap, signed ones have to fit. -/
def Ty.result (ty : Ty) (x : Int) : Option Val :=
  if ty.signed = true ∧ ¬ ty.Holds x then none else some (Val.ofInt ty x)

inductive BinOp where
  | add | sub
  | and | or | xor
  | shl | shr
  | lt | ge | eq | ne
  deriving DecidableEq

namespace BinOp

def meet (a b : Val) : Ty × Int × Int :=
  let ty := a.ty.common b.ty
  (ty, (a.convert ty).toInt, (b.convert ty).toInt)

def bitwise (f : ∀ {w : Nat}, BitVec w → BitVec w → BitVec w) (a b : Val) : Val :=
  let ty := a.ty.common b.ty
  ⟨ty, f (a.as ty) (b.as ty)⟩

def compare (rel : Int → Int → Bool) (a b : Val) : Val :=
  let (_, x, y) := meet a b
  Val.ofInt .int32 (if rel x y then 1 else 0)

def shift (f : Int → Nat → Option Int) (a b : Val) : Option Val :=
  if 0 ≤ b.toInt ∧ b.toInt < a.ty.width then
    (f a.toInt b.toInt.toNat).map (Val.ofInt a.ty)
  else none

/-- A signed value that is shifted left has to stay in the unsigned type of its width. -/
def shlInt (ty : Ty) (x : Int) (count : Nat) : Option Int :=
  if ty.signed = true ∧ ¬ (0 ≤ x ∧ x * 2 ^ count < 2 ^ ty.width) then none
  else some (x * 2 ^ count)

def eval : BinOp → Val → Val → Option Val
  | .add, a, b =>
      let (ty, x, y) := meet a b
      ty.result (x + y)
  | .sub, a, b =>
      let (ty, x, y) := meet a b
      ty.result (x - y)
  | .and, a, b => some (bitwise (· &&& ·) a b)
  | .or, a, b => some (bitwise (· ||| ·) a b)
  | .xor, a, b => some (bitwise (· ^^^ ·) a b)
  | .shl, a, b => shift (shlInt a.ty) a b
  | .shr, a, b => shift (fun x count => some (x / 2 ^ count)) a b
  | .lt, a, b => some (compare (fun x y => x < y) a b)
  | .ge, a, b => some (compare (fun x y => y ≤ x) a b)
  | .eq, a, b => some (compare (fun x y => x = y) a b)
  | .ne, a, b => some (compare (fun x y => x ≠ y) a b)

end BinOp

/-! ## Expressions -/

/-- Expressions over the variables `V`; a literal is an `int`. -/
inductive Expr (V : Type) where
  | var (x : V)
  | lit (value : BitVec 32)
  | cast (ty : Ty) (e : Expr V)
  | bin (op : BinOp) (a b : Expr V)

namespace Expr

variable {V : Type}

/-- The value of an expression, if no operation in it is undefined. -/
def eval (σ : V → Val) : Expr V → Option Val
  | .var x => some (σ x)
  | .lit value => some ⟨.int32, value⟩
  | .cast ty e => (e.eval σ).map fun v => v.convert ty
  | .bin op a b => do
      let x ← a.eval σ
      let y ← b.eval σ
      op.eval x y

theorem eval_cast (σ : V → Val) (ty : Ty) (e : Expr V) :
    (e.cast ty).eval σ = (e.eval σ).map fun v => v.convert ty := rfl

def Defined (σ : V → Val) (e : Expr V) : Prop := (e.eval σ).isSome = true

end Expr

/-! ## Words of 32 bits -/

abbrev int32 (bits : BitVec 32) : Val := ⟨.int32, bits⟩

abbrev uint32 (bits : BitVec 32) : Val := ⟨.uint32, bits⟩

section Words

variable (a b : BitVec 32)

@[simp] theorem toInt_int32 : (int32 a).toInt = a.toInt := rfl

@[simp] theorem toInt_uint32 : (uint32 a).toInt = a.toNat := rfl

theorem ofInt_int32 (x : Int) : Val.ofInt .int32 x = int32 (BitVec.ofInt 32 x) := rfl

theorem ofInt_uint32 (x : Int) : Val.ofInt .uint32 x = uint32 (BitVec.ofInt 32 x) := rfl

theorem ofInt_toNat : BitVec.ofInt 32 a.toNat = a := by
  rw [BitVec.ofInt_natCast, BitVec.ofNat_toNat, BitVec.setWidth_eq]

/-! Conversions between the types of 32 bits keep the bits. -/

theorem as_int32_int32 : (int32 a).as .int32 = a := BitVec.ofInt_toInt

theorem as_int32_uint32 : (int32 a).as .uint32 = a := BitVec.ofInt_toInt

theorem as_uint32_int32 : (uint32 a).as .int32 = a := ofInt_toNat a

theorem as_uint32_uint32 : (uint32 a).as .uint32 = a := ofInt_toNat a

@[simp] theorem convert_int32_int32 : (int32 a).convert .int32 = int32 a :=
  congrArg int32 (as_int32_int32 a)

@[simp] theorem convert_int32_uint32 : (int32 a).convert .uint32 = uint32 a :=
  congrArg uint32 (as_int32_uint32 a)

@[simp] theorem convert_uint32_int32 : (uint32 a).convert .int32 = int32 a :=
  congrArg int32 (as_uint32_int32 a)

@[simp] theorem convert_uint32_uint32 : (uint32 a).convert .uint32 = uint32 a :=
  congrArg uint32 (as_uint32_uint32 a)

/-! Sums and differences. -/

theorem add_int32 : BinOp.add.eval (int32 a) (int32 b) =
    if Ty.int32.Holds (a.toInt + b.toInt) then some (int32 (a + b)) else none := by
  have hbits : BitVec.ofInt 32 (a.toInt + b.toInt) = a + b := by
    rw [BitVec.ofInt_add, BitVec.ofInt_toInt, BitVec.ofInt_toInt]
  have hmeet : BinOp.meet (int32 a) (int32 b) = (Ty.int32, a.toInt, b.toInt) := by
    simp [BinOp.meet, Ty.common]
  simp only [BinOp.eval, hmeet, Ty.result, Ty.signed, ofInt_int32, hbits, true_and]
  split_ifs <;> rfl

theorem sub_int32 : BinOp.sub.eval (int32 a) (int32 b) =
    if Ty.int32.Holds (a.toInt - b.toInt) then some (int32 (a - b)) else none := by
  have hbits : BitVec.ofInt 32 (a.toInt - b.toInt) = a - b := by
    rw [← BitVec.toInt_inj, BitVec.toInt_ofInt, BitVec.toInt_sub]
  have hmeet : BinOp.meet (int32 a) (int32 b) = (Ty.int32, a.toInt, b.toInt) := by
    simp [BinOp.meet, Ty.common]
  simp only [BinOp.eval, hmeet, Ty.result, Ty.signed, ofInt_int32, hbits, true_and]
  split_ifs <;> rfl

private theorem ofInt_add_toNat : BitVec.ofInt 32 ((a.toNat : Int) + b.toNat) = a + b := by
  rw [BitVec.ofInt_add, ofInt_toNat, ofInt_toNat]

theorem add_int32_uint32 : BinOp.add.eval (int32 a) (uint32 b) = some (uint32 (a + b)) := by
  have hmeet : BinOp.meet (int32 a) (uint32 b) = (Ty.uint32, (a.toNat : Int), (b.toNat : Int)) := by
    simp [BinOp.meet, Ty.common]
  simp only [BinOp.eval, hmeet, Ty.result, Ty.signed, ofInt_uint32, ofInt_add_toNat]
  rfl

theorem add_uint32_int32 : BinOp.add.eval (uint32 a) (int32 b) = some (uint32 (a + b)) := by
  have hmeet : BinOp.meet (uint32 a) (int32 b) = (Ty.uint32, (a.toNat : Int), (b.toNat : Int)) := by
    simp [BinOp.meet, Ty.common]
  simp only [BinOp.eval, hmeet, Ty.result, Ty.signed, ofInt_uint32, ofInt_add_toNat]
  rfl

/-- A sum that is widened first never overflows, and narrows to the wrapped one. -/
theorem add_widened : ∃ v, BinOp.add.eval ((int32 a).convert .int64) (int32 b) = some v ∧
    v.convert .int32 = int32 (a + b) := by
  have ha := a.toInt_lt
  have ha' := a.le_toInt
  have hb := b.toInt_lt
  have hb' := b.le_toInt
  have hself (x : Int) (hlow : -2 ^ 63 ≤ x) (hhigh : x < 2 ^ 63) :
      (Val.ofInt .int64 x).toInt = x := BitVec.toInt_ofInt_eq_self (by decide) hlow hhigh
  have hwide : ((int32 a).convert .int64).toInt = a.toInt :=
    hself a.toInt (by omega) (by omega)
  have hwider : (((int32 a).convert .int64).convert .int64).toInt = a.toInt := by
    refine (hself ((int32 a).convert .int64).toInt ?_ ?_).trans hwide
    · rw [hwide]
      omega
    · rw [hwide]
      omega
  have hother : ((int32 b).convert .int64).toInt = b.toInt :=
    hself b.toInt (by omega) (by omega)
  have hmeet : BinOp.meet ((int32 a).convert .int64) (int32 b) = (Ty.int64, a.toInt, b.toInt) := by
    rw [← hwider, ← hother]
    rfl
  have hholds : Ty.int64.Holds (a.toInt + b.toInt) := ⟨by omega, by omega⟩
  refine ⟨Val.ofInt .int64 (a.toInt + b.toInt), ?_, ?_⟩
  · simp only [BinOp.eval, hmeet, Ty.result, hholds, not_true_eq_false, and_false, if_false]
  · have hsum : (Val.ofInt .int64 (a.toInt + b.toInt)).toInt = a.toInt + b.toInt :=
      hself _ (by omega) (by omega)
    have hbits : BitVec.ofInt 32 (a.toInt + b.toInt) = a + b := by
      rw [BitVec.ofInt_add, BitVec.ofInt_toInt, BitVec.ofInt_toInt]
    rw [Val.convert, Val.as, hsum]
    exact congrArg int32 hbits

/-! Bitwise operators and comparisons are always defined. -/

theorem bitwise_int32 (f : ∀ {w : Nat}, BitVec w → BitVec w → BitVec w) :
    BinOp.bitwise f (int32 a) (int32 b) = int32 (f a b) :=
  congrArg₂ (fun x y => int32 (f x y)) (as_int32_int32 a) (as_int32_int32 b)

theorem bitwise_uint32_int32 (f : ∀ {w : Nat}, BitVec w → BitVec w → BitVec w) :
    BinOp.bitwise f (uint32 a) (int32 b) = uint32 (f a b) :=
  congrArg₂ (fun x y => uint32 (f x y)) (as_uint32_uint32 a) (as_int32_uint32 b)

theorem eval_total (v w : Val) :
    BinOp.and.eval v w = some (BinOp.bitwise (· &&& ·) v w) ∧
      BinOp.or.eval v w = some (BinOp.bitwise (· ||| ·) v w) ∧
      BinOp.xor.eval v w = some (BinOp.bitwise (· ^^^ ·) v w) ∧
      BinOp.lt.eval v w = some (BinOp.compare (fun x y => x < y) v w) ∧
      BinOp.ge.eval v w = some (BinOp.compare (fun x y => y ≤ x) v w) ∧
      BinOp.eq.eval v w = some (BinOp.compare (fun x y => x = y) v w) ∧
      BinOp.ne.eval v w = some (BinOp.compare (fun x y => x ≠ y) v w) :=
  ⟨rfl, rfl, rfl, rfl, rfl, rfl, rfl⟩

theorem compare_int32 (rel : Int → Int → Bool) : BinOp.compare rel (int32 a) (int32 b) =
    int32 (if rel a.toInt b.toInt then 1 else 0) := by
  have hmeet : BinOp.meet (int32 a) (int32 b) = (Ty.int32, a.toInt, b.toInt) := by
    simp [BinOp.meet, Ty.common]
  simp only [BinOp.compare, hmeet]
  split_ifs <;> rfl

theorem compare_uint32 (rel : Int → Int → Bool) : BinOp.compare rel (uint32 a) (uint32 b) =
    int32 (if rel a.toNat b.toNat then 1 else 0) := by
  have hmeet : BinOp.meet (uint32 a) (uint32 b) =
      (Ty.uint32, (a.toNat : Int), (b.toNat : Int)) := by
    simp [BinOp.meet, Ty.common]
  simp only [BinOp.compare, hmeet]
  split_ifs <;> rfl

theorem toNat_eq_iff : (a.toNat : Int) = b.toNat ↔ a = b :=
  Int.ofNat_inj.trans BitVec.toNat_inj

theorem compare_eq_uint32 : BinOp.compare (fun x y => decide (x = y)) (uint32 a) (uint32 b) =
    int32 (if a = b then 1 else 0) := by
  simp only [compare_uint32, decide_eq_true_eq, toNat_eq_iff]

theorem compare_ne_uint32 : BinOp.compare (fun x y => !decide (x = y)) (uint32 a) (uint32 b) =
    int32 (if a = b then 0 else 1) := by
  simp only [compare_uint32, Bool.not_eq_true', decide_eq_false_iff_not, toNat_eq_iff, ite_not]

/-! Shifts, by a count of any type. -/

theorem shl_int32 (count : Val) : BinOp.shl.eval (int32 a) count =
    if (0 ≤ count.toInt ∧ count.toInt < 32) ∧
        0 ≤ a.toInt ∧ a.toInt * 2 ^ count.toInt.toNat < 2 ^ 32 then
      some (int32 (a <<< count.toInt.toNat))
    else none := by
  have hbits (n : Nat) : BitVec.ofInt 32 (a.toInt * 2 ^ n) = a <<< n := by
    have htwo : BitVec.ofInt 32 (2 ^ n) = BitVec.twoPow 32 n := by
      have hcast : ((2 ^ n : Nat) : Int) = 2 ^ n := Int.natCast_pow 2 n
      rw [← hcast, BitVec.ofInt_natCast, ← BitVec.toNat_inj, BitVec.toNat_twoPow,
        BitVec.toNat_ofNat]
    rw [BitVec.shiftLeft_eq_mul_twoPow, BitVec.ofInt_mul, BitVec.ofInt_toInt, htwo]
  change (if 0 ≤ count.toInt ∧ count.toInt < 32 then
    (BinOp.shlInt .int32 a.toInt count.toInt.toNat).map (Val.ofInt .int32) else none) = _
  by_cases hcount : 0 ≤ count.toInt ∧ count.toInt < 32
  · rw [if_pos hcount, BinOp.shlInt]
    by_cases hfits : 0 ≤ a.toInt ∧ a.toInt * 2 ^ count.toInt.toNat < 2 ^ 32
    · rw [if_neg fun h => h.2 hfits, if_pos ⟨hcount, hfits⟩, Option.map_some, ofInt_int32, hbits]
    · rw [if_pos ⟨rfl, hfits⟩, if_neg fun h => hfits h.2, Option.map_none]
  · rw [if_neg hcount, if_neg fun h => hcount h.1]

theorem shr_int32 (count : Val) : BinOp.shr.eval (int32 a) count =
    if 0 ≤ count.toInt ∧ count.toInt < 32 then
      some (int32 (a.sshiftRight count.toInt.toNat))
    else none := by
  have hbits (n : Nat) : BitVec.ofInt 32 (a.toInt / 2 ^ n) = a.sshiftRight n := by
    rw [← BitVec.ofInt_toInt (x := a.sshiftRight n), BitVec.toInt_sshiftRight,
      Int.shiftRight_eq_div_pow]
    rfl
  change (if 0 ≤ count.toInt ∧ count.toInt < 32 then
    some (int32 (BitVec.ofInt 32 (a.toInt / 2 ^ count.toInt.toNat))) else none) = _
  rw [hbits]

theorem shr_uint32 (count : Val) : BinOp.shr.eval (uint32 a) count =
    if 0 ≤ count.toInt ∧ count.toInt < 32 then some (uint32 (a >>> count.toInt.toNat))
    else none := by
  have hbits (n : Nat) : BitVec.ofInt 32 ((a.toNat : Int) / 2 ^ n) = a >>> n := by
    rw [← ofInt_toNat (a >>> n), BitVec.toNat_ushiftRight, Nat.shiftRight_eq_div_pow]
    rfl
  change (if 0 ≤ count.toInt ∧ count.toInt < 32 then
    some (uint32 (BitVec.ofInt 32 ((a.toNat : Int) / 2 ^ count.toInt.toNat))) else none) = _
  rw [hbits]

end Words

end RiscvPerfSim.Foundation.CInt
