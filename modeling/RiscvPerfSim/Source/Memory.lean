import RiscvPerfSim.Source.Types

/-!
# Memory and register file

Guest memory is a byte for every index below `size`; the bounds test is the
one of the code, in wrapping 64-bit arithmetic.  A `memcpy` that passes the
test although the true end of the access lies outside the vector is undefined.
-/

namespace RiscvPerfSim

/-! ## Little-endian words -/

namespace Word

def byte (word : BitVec 32) (i : Nat) : BitVec 8 := word.extractLsb' (8 * i) 8

def ofBytes (bytes : Nat → BitVec 8) : BitVec 32 :=
  bytes 3 ++ bytes 2 ++ bytes 1 ++ bytes 0

def overlay (buffer : BitVec 32) (bytes : Nat → BitVec 8) (count : Nat) : BitVec 32 :=
  ofBytes fun i => if i < count then bytes i else byte buffer i

end Word

/-- `static_cast<uint64_t>` of an `int32_t`. -/
def toAddress (value : BitVec 32) : BitVec 64 := value.signExtend 64

structure Memory where
  size : Nat
  bytes : Nat → BitVec 8

namespace Memory

/-- The end of an access, as the bounds test computes it. -/
def wrappedEnd (addr count : Nat) : Nat := (addr + count) % 2 ^ 64

def read (memory : Memory) (buffer : BitVec 32) (addr count : Nat) :
    Except Error (BitVec 32) :=
  if wrappedEnd addr count > memory.size then
    .error (.runtime "addr is out of memory")
  else if addr + count > memory.size then
    .error (.undefined "memcpy outside memory")
  else
    .ok (Word.overlay buffer (fun i => memory.bytes (addr + i)) count)

def blit (memory : Memory) (data : Nat → BitVec 8) (addr count : Nat) : Memory :=
  { memory with
    bytes := fun a =>
      if addr ≤ a ∧ a < addr + count then data (a - addr) else memory.bytes a }

def write (memory : Memory) (data : Nat → BitVec 8) (addr count : Nat) :
    Except Error Memory :=
  if wrappedEnd addr count > memory.size then
    .error (.runtime "addr is out of memory")
  else if addr + count > memory.size then
    .error (.undefined "memcpy outside memory")
  else
    .ok (memory.blit data addr count)

end Memory

/-! ## Register file -/

structure RegFile where
  regs : RegName → Register
  regLocker : RegName → Int

namespace RegFile

/-- `getReg`: asking for write access locks the register, unless it is `x0`. -/
def getReg (rf : RegFile) (num : RegName) (acc : AccessType := .read) :
    RegFile × Register :=
  if acc = .write ∧ num ≠ REGISTER_NAME_ZERO then
    ({ rf with
       regLocker := Function.update rf.regLocker num (rf.regLocker num - 1) },
     rf.regs num)
  else (rf, rf.regs num)

def isLock (rf : RegFile) (num : RegName) : Int := rf.regLocker num

/-- Store the copy and release its lock; `num_regs` itself slips through the test. -/
def write (rf : RegFile) (reg : Register) : Except Error RegFile :=
  if reg.name > Config.numRegs then .error (.runtime "num_regs error")
  else if reg.name = REGISTER_NAME_ZERO then .ok rf
  else if reg.name = Config.numRegs then .error (.undefined "regs[num_regs]")
  else
    .ok { regs := Function.update rf.regs reg.name reg
          regLocker := Function.update rf.regLocker reg.name
            (rf.regLocker reg.name + 1) }

end RegFile

end RiscvPerfSim
