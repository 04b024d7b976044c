import RiscvPerfSim.Results.Access

/-!
# Memory bounds

The test in front of every `memcpy` into or out of guest memory, on the
addresses that loads and stores hand to it.
-/

namespace RiscvPerfSim

open Foundation

/-! ## The test -/

namespace Memory

variable {memory : Memory} {addr count : Nat} {α β : Type}

def Guarded (memory : Memory) (addr count : Nat) (result : Except Error α) : Prop :=
  result = .error (.runtime "addr is out of memory") ∨
    (∃ x, result = .ok x) ∧ addr + count ≤ memory.size

/-- The address, as a signed number, lies so little below zero that the end of the access comes
to lie in memory again. -/
def Wraps (memory : Memory) (ea : BitVec 32) (count : Nat) : Prop :=
  -(count : Int) ≤ ea.toInt ∧ ea.toInt < 0 ∧ ea.toInt + count ≤ memory.size

/-- The test is passed, and the access leaves memory all the same. -/
theorem wraps_iff (hsize : memory.size < 2 ^ 64) (ea : BitVec 32) (hcount : count ≤ 4) :
    memory.Wraps ea count ↔ wrappedEnd (toAddress ea).toNat count ≤ memory.size ∧
      memory.size < (toAddress ea).toNat + count := by
  have haddr := toAddress_toNat ea
  have hlow := BitVec.le_toInt ea
  have hhigh := BitVec.toInt_lt (x := ea)
  unfold Wraps wrappedEnd
  split_ifs at haddr with hneg
  · rcases Nat.lt_or_ge ((toAddress ea).toNat + count) (2 ^ 64) with hlt | hge
    · rw [Nat.mod_eq_of_lt hlt]
      omega
    · rw [Nat.mod_eq_sub_mod hge, Nat.mod_eq_of_lt (by omega)]
      omega
  · rw [Nat.mod_eq_of_lt (by omega)]
    omega

theorem guarded_read_iff (memory : Memory) (buffer : BitVec 32) (addr count : Nat) :
    memory.Guarded addr count (memory.read buffer addr count) ↔
      ¬ (wrappedEnd addr count ≤ memory.size ∧ memory.size < addr + count) := by
  unfold Guarded read
  split_ifs with hend haccess
  · simp only [true_or, true_iff]
    omega
  · simp [haccess, Nat.le_of_not_lt hend]
  · simp [Nat.le_of_not_lt haccess, Nat.not_lt.mpr (Nat.le_of_not_lt haccess)]

theorem guarded_write_iff (memory : Memory) (data : Nat → BitVec 8) (addr count : Nat) :
    memory.Guarded addr count (memory.write data addr count) ↔
      ¬ (wrappedEnd addr count ≤ memory.size ∧ memory.size < addr + count) := by
  unfold Guarded write
  split_ifs with hend haccess
  · simp only [true_or, true_iff]
    omega
  · simp [haccess, Nat.le_of_not_lt hend]
  · simp [Nat.le_of_not_lt haccess, Nat.not_lt.mpr (Nat.le_of_not_lt haccess)]

theorem guarded_bind_iff {x : Except Error α} {f : α → Except Error β}
    (hf : ∀ a, ∃ b, f a = .ok b) :
    memory.Guarded addr count (x >>= f) ↔ memory.Guarded addr count x := by
  cases x with
  | error e => simp [Guarded, bind, Except.bind]
  | ok a =>
      obtain ⟨b, hb⟩ := hf a
      simp [Guarded, bind, Except.bind, hb]

theorem guarded_iff_of_agree {R : α → β → Prop} {x : Except Error α} {y : Except Error β}
    (h : Agree R x y) : memory.Guarded addr count x ↔ memory.Guarded addr count y := by
  cases x with
  | error e =>
      cases y with
      | error e' =>
          rw [show e = e' from h]
          simp [Guarded]
      | ok b => exact h.elim
  | ok a =>
      cases y with
      | error e' => exact h.elim
      | ok b => simp [Guarded]

end Memory

/-! ## Loads and stores -/

namespace PerfSim

variable {env : Env} {memory : Memory} {instr : Instruction} {count : Nat}

private theorem toAddress_count (hcount : count = 1 ∨ count = 2 ∨ count = 4) :
    (toAddress (BitVec.ofNat 32 count)).toNat = count := by
  rcases hcount with rfl | rfl | rfl <;> rfl

private theorem update_clear {β : Type} (memory : Memory) (f : Memory → β) :
    ∃ b, (do
      let (memory, _) ← Pipeline.update memory { store := Store.clear }
      return f memory : Except Error β) = .ok b := by
  rw [Store.update_eq (Store.fits_clear memory)]
  exact ⟨_, rfl⟩

theorem guarded_load_iff (clock : Nat) (hcount : count = 1 ∨ count = 2 ∨ count = 4)
    (hload : instr.memAccType = .read ∧ instr.type = .i)
    (hsize : instr.loadSize = BitVec.ofNat 32 count) :
    memory.Guarded (toAddress instr.loadAddres).toNat count (effects env clock memory instr) ↔
      memory.Guarded (toAddress instr.loadAddres).toNat count
        (memory.read (Core.loadBuffer env clock) (toAddress instr.loadAddres).toNat count) := by
  have hstore : instr.memAccType ≠ .write := by
    simp [hload.1]
  have hloaded (data : BitVec 32) :
      ∃ loaded, (extendLoaded instr data >>= instr.setRdValue) = .ok loaded := by
    obtain ⟨value, hvalue⟩ := extendLoaded_ok instr data
    rw [hvalue]
    exact ⟨_, instr.setRdValue_eq value (by simp [hload.2, InstrType.writesRd])⟩
  rw [effects, Core.storeEffect_of_ne hstore]
  refine (Memory.guarded_bind_iff fun loaded => update_clear memory fun m => (m, loaded)).trans ?_
  rw [Core.loadEffect, if_pos hload, hsize, toAddress_count hcount]
  exact Memory.guarded_bind_iff hloaded

theorem guarded_store_iff (clock : Nat) (hcount : count = 1 ∨ count = 2 ∨ count = 4)
    (hstore : instr.memAccType = .write ∧ instr.type = .s)
    (hsize : instr.storeSize = BitVec.ofNat 32 count) :
    memory.Guarded (toAddress instr.storeAddres).toNat count (effects env clock memory instr) ↔
      memory.Guarded (toAddress instr.storeAddres).toNat count
        (memory.write (Word.byte instr.rs2.value) (toAddress instr.storeAddres).toNat count) := by
  have hload (memory : Memory) : Core.loadEffect env clock memory instr = .ok instr :=
    Core.loadEffect_of_ne (by simp [hstore.1])
  rw [effects, Core.storeEffect, if_pos hstore, hsize]
  cases hsq : env.config.isSq with
  | true =>
      have hpos : toAddress (BitVec.ofNat 32 count) > 0 := by
        rcases hcount with rfl | rfl | rfl <;> decide
      have hsmall : ¬ toAddress (BitVec.ofNat 32 count) > 4 := by
        rcases hcount with rfl | rfl | rfl <;> decide
      rw [if_pos rfl]
      change memory.Guarded _ _ (Core.loadEffect env clock memory instr >>= _) ↔ _
      rw [hload]
      change memory.Guarded _ _ (Pipeline.update memory _ >>= _) ↔ _
      rw [Store.update_store, if_pos hpos, toAddress_count hcount, bind_assoc]
      refine Memory.guarded_bind_iff fun written => ?_
      rw [if_neg hsmall]
      exact ⟨_, rfl⟩
  | false =>
      rw [if_neg (by decide), toAddress_count hcount, bind_assoc]
      refine Memory.guarded_bind_iff fun written => ?_
      change ∃ b, (Core.loadEffect env clock written instr >>= _) = _
      rw [hload]
      exact update_clear written fun m => (m, instr)

structure LoadsAt (instr : Instruction) (ea : BitVec 32) (count : Nat) : Prop where
  access : instr.memAccType = .read ∧ instr.type = .i
  address : instr.loadAddres = ea
  size : instr.loadSize = BitVec.ofNat 32 count

structure StoresAt (instr : Instruction) (ea : BitVec 32) (count : Nat) : Prop where
  access : instr.memAccType = .write ∧ instr.type = .s
  address : instr.storeAddres = ea
  size : instr.storeSize = BitVec.ofNat 32 count

/-- The test fails to guard memory exactly where the end of the access wraps around: by itself,
and on the way of a load or a store through memory access and the store queue. -/
theorem bounds_iff {s : PerfSim} (hsize : s.memory.size < 2 ^ 64) (ea : BitVec 32)
    (hcount : count = 1 ∨ count = 2 ∨ count = 4) :
    (∀ buffer, s.memory.Guarded (toAddress ea).toNat count
        (s.memory.read buffer (toAddress ea).toNat count) ↔ ¬ s.memory.Wraps ea count) ∧
    (∀ data, s.memory.Guarded (toAddress ea).toNat count
        (s.memory.write data (toAddress ea).toNat count) ↔ ¬ s.memory.Wraps ea count) ∧
    (∀ env ptr instr, s.Accessing ptr instr → LoadsAt instr ea count ∨ StoresAt instr ea count →
      (s.memory.Guarded (toAddress ea).toNat count (s.accessed env) ↔
        ¬ s.memory.Wraps ea count)) := by
  have hle : count ≤ 4 := by omega
  rw [Memory.wraps_iff hsize ea hle]
  have hread (buffer : BitVec 32) := s.memory.guarded_read_iff buffer (toAddress ea).toNat count
  have hwrite (data : Nat → BitVec 8) := s.memory.guarded_write_iff data (toAddress ea).toNat count
  refine ⟨hread, hwrite, ?_⟩
  rintro env ptr instr h (⟨haccess, rfl, hwidth⟩ | ⟨haccess, rfl, hwidth⟩)
  · rw [Memory.guarded_iff_of_agree h.accessed_agree,
      guarded_load_iff s.clocks hcount haccess hwidth]
    exact hread _
  · rw [Memory.guarded_iff_of_agree h.accessed_agree,
      guarded_store_iff s.clocks hcount haccess hwidth]
    exact hwrite _

/-- `LB x3, -1(x0)` passes the test of a memory of 64 bytes. -/
theorem wrapped_load : ∃ dp' p done,
    Decoder.decode .plain (boot fives 0 fun _ => 0).toDatapath 0xfff00183 = .ok (dp', p) ∧
    ((dp'.decoder.get p).setPc 0).execute .plain = .ok done ∧ LoadsAt done 0xffffffff 1 ∧
    (inAccess fives p done).accessed .plain = .error (.undefined "memcpy outside memory") ∧
    ¬ fives.Guarded (toAddress 0xffffffff).toNat 1 ((inAccess fives p done).accessed .plain) := by
  refine ⟨_, _, _, rfl, rfl, ⟨⟨rfl, rfl⟩, rfl, rfl⟩, rfl, ?_⟩
  rintro (herror | ⟨⟨u, hu⟩, -⟩)
  · cases herror
  · cases hu

theorem bounds_iff_last :
    (fives.Guarded (toAddress 63).toNat 1 (fives.read 0 (toAddress 63).toNat 1) ↔
      ¬ fives.Wraps 63 1) ∧
    (fives.Guarded (toAddress 0xfffffffe).toNat 2
        (fives.write (Word.byte 0) (toAddress 0xfffffffe).toNat 2) ↔
      ¬ fives.Wraps 0xfffffffe 2) :=
  ⟨(bounds_iff (s := boot fives 0 fun _ => 0) (by decide) 63 (.inl rfl)).1 0,
    (bounds_iff (s := boot fives 0 fun _ => 0) (by decide) 0xfffffffe (.inr (.inl rfl))).2.1 _⟩

end PerfSim

end RiscvPerfSim
