import Mathlib.Algebra.Group.Nat.Defs
import Mathlib.Data.List.Nodup

/-!
# Texts that can be read back

A codec writes values down such that each is read back from the front of a
longer text, and the codecs of the parts of a record make one for the record.
-/

namespace RiscvPerfSim.Foundation

structure Codec (α : Type) where
  write : α → List Char
  read : List Char → Option (α × List Char)
  /-- What may stand behind a written value. -/
  Ends : List Char → Prop
  read_write : ∀ a rest, Ends rest → read (write a ++ rest) = some (a, rest)

namespace Codec

variable {α β : Type}

/-! ## Records -/

def skip (text : List Char) (input : List Char) : Option (List Char) :=
  if text.isPrefixOf input then some (input.drop text.length) else none

@[simp] theorem skip_append (text rest : List Char) : skip text (text ++ rest) = some rest := by
  have hprefix : text.isPrefixOf (text ++ rest) = true :=
    List.isPrefixOf_iff_prefix.mpr (List.prefix_append text rest)
  rw [skip, if_pos hprefix, List.drop_left]

def map (codec : Codec α) (there : β → α) (back : α → β) (hback : ∀ b, back (there b) = b) :
    Codec β where
  write := fun b => codec.write (there b)
  read := fun input => (codec.read input).map fun result => (back result.1, result.2)
  Ends := codec.Ends
  read_write := by
    intro b rest hends
    rw [codec.read_write _ _ hends, Option.map_some, hback]

def after (text : List Char) (codec : Codec α) : Codec α where
  write := fun a => text ++ codec.write a
  read := fun input => (skip text input).bind codec.read
  Ends := codec.Ends
  read_write := by
    intro a rest hends
    rw [List.append_assoc, skip_append, Option.bind_some, codec.read_write _ _ hends]

def upTo (codec : Codec α) (text : List Char) (hends : ∀ rest, codec.Ends (text ++ rest)) :
    Codec α where
  write := fun a => codec.write a ++ text
  read := fun input =>
    (codec.read input).bind fun result => (skip text result.2).map (result.1, ·)
  Ends := fun _ => True
  read_write := by
    intro a rest _
    rw [List.append_assoc, codec.read_write _ _ (hends rest), Option.bind_some, skip_append,
      Option.map_some]

def both (codec : Codec α) (next : Codec β)
    (hends : ∀ b rest, next.Ends rest → codec.Ends (next.write b ++ rest)) : Codec (α × β) where
  write := fun pair => codec.write pair.1 ++ next.write pair.2
  read := fun input => (codec.read input).bind fun result =>
    (next.read result.2).map fun result' => ((result.1, result'.1), result'.2)
  Ends := next.Ends
  read_write := by
    rintro ⟨a, b⟩ rest hrest
    rw [List.append_assoc, codec.read_write _ _ (hends b rest hrest), Option.bind_some,
      next.read_write b rest hrest, Option.map_some]

/-- A column that is left blank when there is no value. -/
def column (codec : Codec α) (width : Nat) (hpos : 0 < width)
    (hhead : ∀ a, ∃ c rest, codec.write a = c :: rest ∧ c ≠ ' ') : Codec (Option α) where
  write := fun a => a.elim (List.replicate width ' ') codec.write
  read := fun input =>
    if input.head? = some ' ' then (skip (List.replicate width ' ') input).map (none, ·)
    else (codec.read input).map fun result => (some result.1, result.2)
  Ends := codec.Ends
  read_write := by
    rintro (- | a) rest hends
    · have hblank : (List.replicate width ' ' ++ rest).head? = some ' ' := by
        obtain ⟨n, rfl⟩ := Nat.exists_eq_succ_of_ne_zero (Nat.ne_of_gt hpos)
        rfl
      refine (if_pos hblank).trans ?_
      change (skip (List.replicate width ' ') (List.replicate width ' ' ++ rest)).map _ = _
      rw [skip_append, Option.map_some]
    · have hfull : (codec.write a ++ rest).head? ≠ some ' ' := by
        obtain ⟨c, cs, hwrite, hne⟩ := hhead a
        rw [hwrite]
        exact fun heq => hne (Option.some.inj heq)
      refine (if_neg hfull).trans ?_
      change (codec.read (codec.write a ++ rest)).map _ = _
      rw [codec.read_write a rest hends, Option.map_some]

/-! ## Tables -/

def fixed (width : Nat) (write : α → List Char) (read : List Char → Option α)
    (hwidth : ∀ a, (write a).length = width) (hread : ∀ a, read (write a) = some a) :
    Codec α where
  write := write
  read := fun input => (read (input.take width)).map fun a => (a, input.drop width)
  Ends := fun _ => True
  read_write := by
    intro a rest _
    rw [List.take_left' (hwidth a), List.drop_left' (hwidth a), hread, Option.map_some]

def pad (width : Nat) (text : List Char) : List Char :=
  text ++ List.replicate (width - text.length) ' '

def table (width : Nat) (all : List α) (name : α → List Char) (hall : ∀ a, a ∈ all)
    (hwidth : ∀ a, (name a).length ≤ width)
    (hnodup : (all.map fun a => pad width (name a)).Nodup) : Codec α :=
  fixed width (fun a => pad width (name a))
    (fun input => all.find? fun a => decide (pad width (name a) = input))
    (fun a => by
      have h := hwidth a
      simp only [pad, List.length_append, List.length_replicate]
      omega)
    (fun a => by
      cases hfind : all.find? fun b => decide (pad width (name b) = pad width (name a)) with
      | none => simpa using List.find?_eq_none.mp hfind a (hall a)
      | some b =>
          have hb := List.find?_some hfind
          rw [List.inj_on_of_nodup_map hnodup (hall b) (hall a) (of_decide_eq_true hb)])

/-! ## Numbers -/

def NoDigit (rest : List Char) : Prop := ∀ c ∈ rest.head?, c.isDigit = false

theorem takeWhile_digits {digits rest : List Char} (h : ∀ c ∈ digits, c.isDigit = true)
    (hrest : NoDigit rest) :
    (digits ++ rest).takeWhile Char.isDigit = digits ∧
      (digits ++ rest).dropWhile Char.isDigit = rest := by
  induction digits with
  | nil =>
      cases rest with
      | nil => exact ⟨rfl, rfl⟩
      | cons c cs =>
          have hc := hrest c rfl
          simp [hc]
  | cons d ds ih =>
      obtain ⟨htake, hdrop⟩ := ih fun c hc => h c (List.mem_cons_of_mem d hc)
      have hd := h d List.mem_cons_self
      simp [hd, htake, hdrop]

def natural : Codec Nat where
  write := Nat.toDigits 10
  read := fun input =>
    some (Nat.ofDigitChars 10 (input.takeWhile Char.isDigit) 0, input.dropWhile Char.isDigit)
  Ends := NoDigit
  read_write := by
    intro n rest hrest
    have hdigits (c : Char) (hc : c ∈ Nat.toDigits 10 n) : c.isDigit = true :=
      Nat.isDigit_of_mem_toDigits (by decide) (by decide) hc
    obtain ⟨htake, hdrop⟩ := takeWhile_digits hdigits hrest
    rw [htake, hdrop, Nat.ofDigitChars_ten_toDigits]

def writeInt : Int → List Char
  | .ofNat n => Nat.toDigits 10 n
  | .negSucc n => '-' :: Nat.toDigits 10 (n + 1)

def integer : Codec Int where
  write := writeInt
  read := fun input =>
    if input.head? = some '-' then
      (natural.read input.tail).map fun result => (-(result.1 : Int), result.2)
    else (natural.read input).map fun result => ((result.1 : Int), result.2)
  Ends := NoDigit
  read_write := by
    rintro (n | n) rest hrest
    · have hread := natural.read_write n rest hrest
      have hhead : (Nat.toDigits 10 n ++ rest).head? ≠ some '-' := by
        rw [List.head?_append_of_ne_nil _ Nat.toDigits_ne_nil]
        intro hminus
        have hdigit := Nat.isDigit_of_mem_toDigits (by decide) (by decide)
          (List.mem_of_mem_head? hminus)
        exact absurd hdigit (by decide)
      refine (if_neg hhead).trans ?_
      change (natural.read (natural.write n ++ rest)).map _ = _
      rw [hread, Option.map_some]
      rfl
    · have hread := natural.read_write (n + 1) rest hrest
      refine (if_pos rfl).trans ?_
      change (natural.read (natural.write (n + 1) ++ rest)).map _ = _
      rw [hread, Option.map_some]
      rfl

/-! ## Hexadecimal -/

def digitValue (c : Char) : Nat :=
  if c.isDigit then c.toNat - '0'.toNat else c.toNat - 'a'.toNat + 10

theorem digitValue_digitChar {d : Nat} (h : d < 16) : digitValue d.digitChar = d := by
  revert d
  decide

def hexValue (digits : List Char) : Nat := digits.foldl (fun n c => 16 * n + digitValue c) 0

theorem hexValue_concat (digits : List Char) (c : Char) :
    hexValue (digits ++ [c]) = 16 * hexValue digits + digitValue c := by
  rw [hexValue, List.foldl_append]
  rfl

theorem hexValue_toDigits (n : Nat) : hexValue (Nat.toDigits 16 n) = n := by
  induction n using Nat.strongRecOn with
  | ind n ih =>
      rw [Nat.toDigits_eq_if (by decide)]
      split_ifs with hsmall
      · exact (Nat.zero_add _).trans (digitValue_digitChar hsmall)
      · rw [hexValue_concat, ih _ (by omega), digitValue_digitChar (by omega)]
        omega

def hexDigits (width n : Nat) : List Char :=
  List.replicate (width - (Nat.toDigits 16 n).length) '0' ++ Nat.toDigits 16 n

theorem hexValue_hexDigits (width n : Nat) : hexValue (hexDigits width n) = n := by
  have hzeros (k : Nat) :
      (List.replicate k '0').foldl (fun n c => 16 * n + digitValue c) 0 = 0 := by
    induction k with
    | zero => rfl
    | succ k ih => exact ih
  rw [hexDigits, hexValue, List.foldl_append, hzeros]
  exact hexValue_toDigits n

theorem length_hexDigits {width n : Nat} (hpos : 0 < width) (h : n < 16 ^ width) :
    (hexDigits width n).length = width := by
  have hle := (Nat.length_toDigits_le_iff (by decide) hpos).mpr h
  rw [hexDigits, List.length_append, List.length_replicate]
  omega

/-! ## A text of many values -/

/-- Read values until the text ends, at most `fuel` of them. -/
def readAll (codec : Codec α) : Nat → List Char → Option (List α)
  | _, [] => some []
  | 0, _ :: _ => none
  | fuel + 1, c :: cs =>
      (codec.read (c :: cs)).bind fun result =>
        (readAll codec fuel result.2).map (result.1 :: ·)

theorem readAll_write (codec : Codec α) (hends : ∀ rest, codec.Ends rest)
    (hne : ∀ a, codec.write a ≠ []) (as : List α) (fuel : Nat)
    (hfuel : (as.flatMap codec.write).length ≤ fuel) :
    codec.readAll fuel (as.flatMap codec.write) = some as := by
  induction as generalizing fuel with
  | nil => cases fuel <;> rfl
  | cons a as ih =>
      have hread := codec.read_write a (as.flatMap codec.write) (hends _)
      obtain ⟨c, cs, hwrite⟩ := List.exists_cons_of_ne_nil (hne a)
      rw [List.flatMap_cons, hwrite, List.cons_append] at hfuel ⊢
      rw [hwrite, List.cons_append] at hread
      rw [List.length_cons, List.length_append] at hfuel
      obtain ⟨fuel, rfl⟩ : ∃ k, fuel = k + 1 := ⟨fuel - 1, by omega⟩
      rw [readAll, hread, Option.bind_some, ih fuel (by omega), Option.map_some]

end Codec

end RiscvPerfSim.Foundation
