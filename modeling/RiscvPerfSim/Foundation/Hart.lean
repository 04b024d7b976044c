import RiscvPerfSim.Foundation.Rv32i

/-!
# A hart

The state that a program of RV32I sees, and what each instruction does to it:
thirty-two registers, a byte for every 32-bit address and the program counter.
-/

namespace RiscvPerfSim.Foundation.Rv32i

@[ext] structure Hart where
  regs : Reg → BitVec 32
  bytes : BitVec 32 → BitVec 8
  pc : BitVec 32

namespace Hart

def get (h : Hart) (r : Reg) : BitVec 32 := if r = 0 then 0 else h.regs r

def put (h : Hart) (r : Reg) (value : BitVec 32) : Hart :=
  { h with regs := fun r' => if r' = r ∧ r' ≠ 0 then value else h.regs r' }

def goto (h : Hart) (pc : BitVec 32) : Hart := { h with pc := pc }

def next (h : Hart) : Hart := h.goto (h.pc + 4)

/-- The bytes from an address on; addresses wrap around. -/
def load (h : Hart) (addr : BitVec 32) (i : Nat) : BitVec 8 := h.bytes (addr + BitVec.ofNat 32 i)

def store (h : Hart) (addr : BitVec 32) (count : Nat) (value : BitVec 32) : Hart :=
  { h with
    bytes := fun a =>
      if (a - addr).toNat < count then value.extractLsb' (8 * (a - addr).toNat) 8
      else h.bytes a }

def word (h : Hart) (addr : BitVec 32) : BitVec 32 := LoadOp.lw.value (h.load addr)

section Frames

variable (h : Hart) (r r' : Reg) (value pc addr : BitVec 32) (count : Nat)

@[simp] theorem bytes_put : (h.put r value).bytes = h.bytes := rfl

@[simp] theorem pc_put : (h.put r value).pc = h.pc := rfl

@[simp] theorem regs_goto : (h.goto pc).regs = h.regs := rfl

@[simp] theorem bytes_goto : (h.goto pc).bytes = h.bytes := rfl

@[simp] theorem pc_goto : (h.goto pc).pc = pc := rfl

@[simp] theorem regs_next : h.next.regs = h.regs := rfl

@[simp] theorem bytes_next : h.next.bytes = h.bytes := rfl

@[simp] theorem pc_next : h.next.pc = h.pc + 4 := rfl

@[simp] theorem regs_store : (h.store addr count value).regs = h.regs := rfl

@[simp] theorem pc_store : (h.store addr count value).pc = h.pc := rfl

theorem put_eq_iff {r : Reg} (value value' : BitVec 32) :
    h.put r value = h.put r value' ↔ r = 0 ∨ value = value' := by
  constructor
  · intro heq
    by_cases hzero : r = 0
    · exact .inl hzero
    · have hat := congrArg (fun h => h.regs r) heq
      simp only [put, true_and, ne_eq, hzero, not_false_eq_true, if_true] at hat
      exact .inr hat
  · rintro (rfl | rfl)
    · simp [put]
    · rfl

end Frames

end Hart

namespace Instr

def address (h : Hart) (rs1 : Reg) (imm : BitVec 12) : BitVec 32 := h.get rs1 + imm.signExtend 32

/-- What the instruction does; an `ECALL` is left to the environment behind it. -/
def exec (i : Instr) (h : Hart) : Hart :=
  match i with
  | .upper op rd imm => (h.put rd (op.value h.pc (imm ++ 0#12))).next
  | .jal rd offset => (h.put rd (h.pc + 4)).goto (h.pc + (offset ++ 0#1).signExtend 32)
  | .jalr rd rs1 imm => (h.put rd (h.pc + 4)).goto (jalrNext (h.get rs1) (imm.signExtend 32))
  | .branch op rs1 rs2 offset =>
      h.goto (op.next h.pc (h.get rs1) (h.get rs2) ((offset ++ 0#1).signExtend 32))
  | .load op rd rs1 imm => (h.put rd (op.value (h.load (address h rs1 imm)))).next
  | .store op rs1 rs2 imm => (h.store (address h rs1 imm) op.width (h.get rs2)).next
  | .opImm op rd rs1 imm => (h.put rd (op.value (h.get rs1) (imm.signExtend 32))).next
  | .shift op rd rs1 shamt => (h.put rd (op.value (h.get rs1) shamt)).next
  | .reg op rd rs1 rs2 => (h.put rd (op.value (h.get rs1) (h.get rs2))).next
  | .ecall => h.next

def Within (i : Instr) (h : Hart) (size : Nat) : Prop :=
  match i with
  | .load op _ rs1 imm => (address h rs1 imm).toNat + op.width ≤ size
  | .store op rs1 _ imm => (address h rs1 imm).toNat + op.width ≤ size
  | _ => True

def Spares (i : Instr) (h : Hart) (pc : BitVec 32) : Prop :=
  match i with
  | .store op rs1 _ imm =>
      (address h rs1 imm).toNat + op.width ≤ pc.toNat ∨ pc.toNat + 4 ≤ (address h rs1 imm).toNat
  | _ => True

end Instr

instance (i : Instr) (h : Hart) (size : Nat) : Decidable (i.Within h size) :=
  match i with
  | .load .. | .store .. => inferInstanceAs (Decidable (_ ≤ _))
  | .upper .. | .jal .. | .jalr .. | .branch .. | .opImm .. | .shift .. | .reg .. | .ecall =>
      inferInstanceAs (Decidable True)

instance (i : Instr) (h : Hart) (pc : BitVec 32) : Decidable (i.Spares h pc) :=
  match i with
  | .store .. => inferInstanceAs (Decidable (_ ∨ _))
  | .upper .. | .jal .. | .jalr .. | .branch .. | .load .. | .opImm .. | .shift .. | .reg ..
  | .ecall => inferInstanceAs (Decidable True)

def Hart.after (i : Nat → Instr) (h : Hart) : Nat → Hart
  | 0 => h
  | k + 1 => (i k).exec (after i h k)

/-- A program that runs through `n + 1` instructions with `size` bytes of memory: the harts are one
instruction apart, and no instruction is stored to before it is fetched. -/
structure Hart.Runs (size : Nat) (h : Nat → Hart) (i : Nat → Instr) (n : Nat) : Prop where
  inside : ∀ k ≤ n, (h k).pc.toNat + 4 ≤ size
  fetch : ∀ k ≤ n, (h k).word (h k).pc = (i k).encode
  within : ∀ k ≤ n, (i k).Within (h k) size
  step : ∀ k ≤ n, h (k + 1) = (i k).exec (h k)
  spares : ∀ k ≤ n, ∀ j < k, (i j).Spares (h j) (h k).pc

end RiscvPerfSim.Foundation.Rv32i
