import RiscvPerfSim.Results.Loading
import RiscvPerfSim.Results.Programs
import RiscvPerfSim.Source.Startup

/-!
# From a file to its last instruction

What the simulator does with a file that holds a program: the constructors load
it, set up the stack pointer and the entry, and `run` takes it to its `ECALL`.
-/

namespace RiscvPerfSim

open Foundation

variable {φ : Type}

/-- The hart that a program starts on: the stack pointer five bytes below the end of memory, and a
zero word there. -/
def Foundation.Rv32i.Hart.start (size : Nat) (image : Nat → BitVec 8) (entry : BitVec 32) :
    Rv32i.Hart where
  regs := fun r => if r = 2 then BitVec.ofNat 32 (size - 5) else 0
  bytes := fun a => if size - 5 ≤ a.toNat ∧ a.toNat < size - 1 then 0 else image a.toNat
  pc := entry

/-! ## The file -/

structure LibElf.Opens (lib : LibElf φ) (path : String) (fd : φ) (elf : Elf φ) (ehdr : Ehdr) :
    Prop where
  version : lib.version ≠ EV_NONE
  opened : lib.openPath path = some fd
  begun : lib.elfBegin fd = some elf
  kind : elf.kind = ELF_K_ELF
  header : elf.getehdr = some ehdr
  class32 : elf.getclass = ELFCLASS32

/-- The headers fit the file and the memory, and what is no loadable segment does not show. -/
structure Loadable (headers : List Phdr) (length : Nat) (bytes : Nat → BitVec 8) (size : Nat) :
    Prop where
  inRange : ∀ phdr ∈ headers, phdr.InRange length size
  count : headers.length < 2 ^ 31
  small : ∀ phdr ∈ headers, phdr.pFilesz.toNat < 2 ^ 32
  shown : ∀ before phdr after, headers = before ++ phdr :: after → phdr.isLoad = false →
    ∀ addr, phdr.Covers addr → (∀ next ∈ after, ¬ next.Covers addr) →
      phdr.fileByte bytes addr = image before bytes addr

namespace ElfManager

variable {lib : LibElf φ} {path : String} {fd : φ} {elf : Elf φ} {ehdr : Ehdr}
  {file : ElfFile φ} {headers : List Phdr} {length : Nat} {bytes : Nat → BitVec 8}
  {config : Config}

theorem construct_of_opens (h : lib.Opens path fd elf ehdr) :
    construct lib path = .ok ⟨ehdr.eEntry.setWidth 32, elf, fd⟩ := by
  have hclass : ELFCLASS32 ≠ ELFCLASSNONE := by decide
  simp [construct, h.version, h.opened, h.begun, h.kind, h.header, h.class32, hclass]

theorem load_of_loadable (hserves : file.Serves headers length bytes)
    (h : Loadable headers length bytes config.memorySize) (fd : φ) :
    ∃ memory, load file fd (.ofConfig config) = .ok memory ∧
      memory.bytes = image headers bytes := by
  let start : State φ := { fd := fd, buf := .ofSize 1024, memory := .ofConfig config }
  obtain ⟨s, hs, hnewest⟩ :=
    loadLoop_ok hserves (List.nil_append headers).symm (s := start) h.inRange h.count h.small
  refine ⟨s.memory, ?_, funext fun addr => ?_⟩
  · rw [load, hserves.getphdrnum]
    change (loadLoop file headers.length 0 start >>= _) = _
    rw [show loadLoop file headers.length 0 start = .ok s from hs]
    rfl
  · rw [hnewest]
    exact image_eq_iff.mpr fun before phdr after hheaders htype hcovers hafter =>
      h.shown before phdr after hheaders htype addr hcovers hafter

end ElfManager

/-! ## The constructor -/

namespace PerfSim

variable {lib : LibElf φ} {path : String} {fd : φ} {elf : Elf φ} {ehdr : Ehdr}
  {headers : List Phdr} {length : Nat} {bytes : Nat → BitVec 8} {config : Config}

def spValues (size : Nat) (num : RegName) : BitVec 32 :=
  if num = REGISTER_NAME_SP then BitVec.ofNat 32 (size - 5) else 0

theorem write_sp (size : Nat) :
    let (rf, sp) := (bootRegs fun _ => 0).getReg REGISTER_NAME_SP .write
    rf.write { sp with value := BitVec.ofNat 32 (size - 5) } = .ok (bootRegs (spValues size)) := by
  refine congrArg Except.ok (congrArg₂ RegFile.mk (funext fun num => ?_) (funext fun num => ?_))
  · by_cases hsp : num = REGISTER_NAME_SP
    · subst hsp
      rfl
    · refine (Function.update_of_ne hsp _ _).trans ?_
      simp only [bootRegs, spValues, hsp, if_false]
  · by_cases hsp : num = REGISTER_NAME_SP
    · subst hsp
      rfl
    · exact (Function.update_of_ne hsp _ _).trans (Function.update_of_ne hsp _ _)

theorem construct_eq (image : Nat → BitVec 8) (entry : BitVec 32) (hlow : 5 ≤ config.memorySize)
    (hhigh : config.memorySize ≤ 2 ^ 31) : construct config image entry =
      .ok (boot (({ size := config.memorySize, bytes := image } : Memory).blit (Word.byte 0)
        (config.memorySize - 5) 4) entry (spValues config.memorySize)) := by
  have hsp : (toAddress (BitVec.ofNat 32 (config.memorySize - 5))).toNat =
      config.memorySize - 5 := by
    have hlt : (BitVec.ofNat 32 (config.memorySize - 5)).toNat = config.memorySize - 5 := by
      rw [BitVec.toNat_ofNat]
      omega
    have haddr := toAddress_toNat (BitVec.ofNat 32 (config.memorySize - 5))
    rw [BitVec.toInt_eq_toNat_cond, hlt] at haddr
    split_ifs at haddr <;> omega
  let memory : Memory := ({ size := config.memorySize, bytes := image } : Memory).blit
    (Word.byte 0) (config.memorySize - 5) 4
  have hwrite : ({ size := config.memorySize, bytes := image } : Memory).write (Word.byte 0)
      (config.memorySize - 5) 4 = .ok memory :=
    Memory.write_of_inRange (Word.byte 0)
      (by show config.memorySize - 5 + 4 ≤ config.memorySize; omega)
  unfold construct
  dsimp only
  rw [hsp, hwrite]
  exact congrArg (· >>= fun rf => .ok { boot memory entry (fun _ => 0) with rf := rf })
    (write_sp config.memorySize)

theorem hart_construct (image : Nat → BitVec 8) (entry : BitVec 32) {size : Nat} (hlow : 5 ≤ size) :
    (Seq.boot (({ size := size, bytes := image } : Memory).blit (Word.byte 0) (size - 5) 4) entry
      (spValues size)).hart = .start size image entry := by
  apply Rv32i.Hart.ext
  · funext r
    change (if r.toNat = 0 then 0 else spValues size r.toNat) = if r = 2 then _ else 0
    have hiff : r.toNat = REGISTER_NAME_SP ↔ r = 2 := by
      rw [← BitVec.toNat_inj]
      rfl
    by_cases hzero : r.toNat = 0
    · rw [if_pos hzero, if_neg (by rw [← hiff, hzero]; decide)]
    · rw [if_neg hzero, spValues, if_congr hiff rfl rfl]
  · funext a
    change (if size - 5 ≤ a.toNat ∧ a.toNat < size - 5 + 4 then Word.byte 0 (a.toNat - (size - 5))
      else image a.toNat) = _
    have hbyte (i : Nat) : Word.byte 0 i = 0 := by simp [Word.byte]
    rw [hbyte, show size - 5 + 4 = size - 1 by omega]
    rfl
  · rfl

variable (hopens : lib.Opens path fd elf ehdr) (hserves : elf.file.Serves headers length bytes)
  (hloadable : Loadable headers length bytes config.memorySize) (hlow : 5 ≤ config.memorySize)
  (hhigh : config.memorySize ≤ 2 ^ 31)
include hopens hserves hloadable hlow hhigh

theorem ofPath_eq : ∃ memory values,
    ofPath config lib path = .ok (boot memory (ehdr.eEntry.setWidth 32) values) ∧
      memory.size = config.memorySize ∧
        (Seq.boot memory (ehdr.eEntry.setWidth 32) values).hart =
          .start config.memorySize (image headers bytes) (ehdr.eEntry.setWidth 32) := by
  obtain ⟨memory, hload, hbytes⟩ := ElfManager.load_of_loadable hserves hloadable fd
  refine ⟨_, _, ?_, rfl, hart_construct (image headers bytes) _ hlow⟩
  rw [ofPath, ElfManager.construct_of_opens hopens]
  change (Failure.ofError (ElfManager.load elf.file fd (.ofConfig config)) >>= _) = _
  rw [hload]
  change Failure.ofError (construct config memory.bytes (ehdr.eEntry.setWidth 32)) = _
  rw [hbytes, construct_eq _ _ hlow hhigh]
  rfl

omit hopens hserves hloadable hlow hhigh

def countdownFile : ElfFile Nat :=
  ElfManager.ofFile [⟨PT_LOAD, 0, 0, 24⟩] 24 countdownMemory.bytes

def countdownLib : LibElf Nat where
  version := 1
  openPath := fun _ => some 0
  elfBegin := fun _ => some ⟨ELF_K_ELF, some ⟨0⟩, ELFCLASS32, countdownFile⟩

end PerfSim

end RiscvPerfSim
