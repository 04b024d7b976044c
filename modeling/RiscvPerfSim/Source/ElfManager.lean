import RiscvPerfSim.Source.Memory

/-!
# Loading an image

`ElfManager::load` and the fresh memory of `Memory::Memory`.  What libelf and
the file descriptor answer is a parameter.
-/

namespace RiscvPerfSim

/-- `GElf_Phdr`, as far as an image depends on it. -/
structure Phdr where
  pType : BitVec 32
  pOffset : BitVec 64
  pVaddr : BitVec 64
  pFilesz : BitVec 64
  deriving DecidableEq

def PT_LOAD : BitVec 32 := 1

/-- The calls that `load` makes; `φ` is what the file descriptor remembers between them. -/
structure ElfFile (φ : Type) where
  getphdrnum : BitVec 64
  getphdr : Nat → Option Phdr
  lseek : φ → BitVec 64 → BitVec 64 × φ
  /-- The returned count, the bytes in the buffer, and the descriptor afterwards. -/
  read : φ → BitVec 64 → Int × (Nat → BitVec 8) × φ

/-- The vector that the constructor resizes; its new elements are zero. -/
def Memory.ofConfig (config : Config) : Memory :=
  { size := config.memorySize, bytes := fun _ => 0 }

namespace ElfManager

structure Buffer where
  size : Nat
  bytes : Nat → BitVec 8

namespace Buffer

def ofSize (size : Nat) : Buffer := { size := size, bytes := fun _ => 0 }

def resize (buf : Buffer) (size : Nat) : Buffer :=
  { size := size, bytes := fun i => if i < buf.size then buf.bytes i else 0 }

def fill (buf : Buffer) (bytes : Nat → BitVec 8) (count : Nat) : Buffer :=
  { buf with bytes := fun i => if i < count then bytes i else buf.bytes i }

end Buffer

structure State (φ : Type) where
  fd : φ
  buf : Buffer
  memory : Memory

variable {φ : Type}

/-- One round of the loop; the type of the header is never looked at. -/
def loadSegment (file : ElfFile φ) (i : Nat) (s : State φ) : Except Error (State φ) :=
  match file.getphdr i with
  | none => .error (.runtime "error: can't get phdr")
  | some phdr =>
      let buf :=
        if s.buf.size < phdr.pFilesz.toNat then s.buf.resize phdr.pFilesz.toNat else s.buf
      let (offset, fd) := file.lseek s.fd phdr.pOffset
      if phdr.pOffset ≠ offset then .error (.runtime "error: lseek failed")
      else
        let (readBytes, bytes, fd) := file.read fd phdr.pFilesz
        -- the count is compared as a `uint32_t`
        if readBytes < 0 ∨ phdr.pFilesz ≠ (BitVec.ofInt 32 readBytes).zeroExtend 64 then
          .error (.runtime "error: read instr fail")
        else do
          let buf := buf.fill bytes readBytes.toNat
          let memory ← s.memory.write buf.bytes phdr.pVaddr.toNat phdr.pFilesz.toNat
          return { fd := fd, buf := buf, memory := memory }

/-- The rounds that are left, from `i` on; `i` is an `int`. -/
def loadLoop (file : ElfFile φ) : Nat → Nat → State φ → Except Error (State φ)
  | 0, _, s => .ok s
  | left + 1, i, s => do
      let s ← loadSegment file i s
      if i + 1 < 2 ^ 31 then loadLoop file left (i + 1) s
      else .error (.undefined "i++")

def load (file : ElfFile φ) (fd : φ) (memory : Memory) : Except Error Memory := do
  let s ← loadLoop file file.getphdrnum.toNat 0
    { fd := fd, buf := Buffer.ofSize 1024, memory := memory }
  return s.memory

end ElfManager

end RiscvPerfSim
