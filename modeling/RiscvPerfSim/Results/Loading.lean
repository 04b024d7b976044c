import RiscvPerfSim.Core.Stores
import RiscvPerfSim.Source.ElfManager

/-!
# The loaded image

What `ElfManager::load` leaves in memory, for any list of program headers,
against the image that the loadable segments of the file describe.
-/

namespace RiscvPerfSim

open Foundation

variable {φ : Type} {file : ElfFile φ} {headers : List Phdr} {length : Nat}
  {bytes : Nat → BitVec 8} {config : Config}

/-! ## The image of a file -/

namespace Phdr

def isLoad (phdr : Phdr) : Bool := phdr.pType = PT_LOAD

def Covers (phdr : Phdr) (addr : Nat) : Prop :=
  phdr.pVaddr.toNat ≤ addr ∧ addr < phdr.pVaddr.toNat + phdr.pFilesz.toNat

def fileByte (bytes : Nat → BitVec 8) (phdr : Phdr) (addr : Nat) : BitVec 8 :=
  bytes (phdr.pOffset.toNat + (addr - phdr.pVaddr.toNat))

def segment (bytes : Nat → BitVec 8) (phdr : Phdr) : Patch Nat (BitVec 8) :=
  Patch.range phdr.pVaddr.toNat phdr.pFilesz.toNat fun i => bytes (phdr.pOffset.toNat + i)

structure InRange (phdr : Phdr) (length size : Nat) : Prop where
  file : phdr.pOffset.toNat + phdr.pFilesz.toNat ≤ length
  memory : phdr.pVaddr.toNat + phdr.pFilesz.toNat ≤ size

end Phdr

/-- The byte of the last loadable segment that covers the address, and zero outside them all. -/
def image (headers : List Phdr) (bytes : Nat → BitVec 8) (addr : Nat) : BitVec 8 :=
  (Patch.kept (Phdr.segment bytes) Phdr.isLoad headers addr).getD 0

/--
The answers of libelf and of the file descriptor for a file of the given length:
its headers as they stand, and the bytes that are asked for.
-/
structure ElfFile.Serves (file : ElfFile φ) (headers : List Phdr) (length : Nat)
    (bytes : Nat → BitVec 8) : Prop where
  getphdrnum : file.getphdrnum.toNat = headers.length
  getphdr : ∀ i, file.getphdr i = headers[i]?
  lseek : ∀ fd offset, offset.toNat ≤ length → (file.lseek fd offset).1 = offset
  readBytes : ∀ fd offset count, offset.toNat + count.toNat ≤ length →
    (file.read (file.lseek fd offset).2 count).1 = count.toNat
  read : ∀ fd offset count, offset.toNat + count.toNat ≤ length → ∀ i < count.toNat,
    (file.read (file.lseek fd offset).2 count).2.1 i = bytes (offset.toNat + i)

namespace ElfManager

def LoadsImage (file : ElfFile φ) (fd : φ) (config : Config) (headers : List Phdr)
    (bytes : Nat → BitVec 8) : Prop :=
  ∃ memory, load file fd (.ofConfig config) = .ok memory ∧
    ∀ addr < config.memorySize, memory.bytes addr = image headers bytes addr

/-! ## Segment by segment -/

section Segments

variable {i : Nat} {phdr : Phdr} {s s' : State φ}
  (hserves : file.Serves headers length bytes) (hrange : phdr.InRange length s.memory.size)
include hserves hrange

/-- The count that has been read is compared after a cast, and cannot be negative. -/
private theorem readBytes_iff (fd : φ) :
    ((file.read (file.lseek fd phdr.pOffset).2 phdr.pFilesz).1 < 0 ∨
      phdr.pFilesz ≠ (BitVec.ofInt 32
        (file.read (file.lseek fd phdr.pOffset).2 phdr.pFilesz).1).zeroExtend 64) ↔
      2 ^ 32 ≤ phdr.pFilesz.toNat := by
  rw [hserves.readBytes fd _ _ hrange.file, BitVec.ofInt_natCast]
  have hneg : ¬ ((phdr.pFilesz.toNat : Nat) : Int) < 0 := by omega
  rw [or_iff_right hneg, ne_eq, ← BitVec.toNat_inj]
  simp
  omega

variable (hphdr : headers[i]? = some phdr)
include hphdr

theorem loadSegment_ok (hsmall : phdr.pFilesz.toNat < 2 ^ 32) :
    ∃ s', loadSegment file i s = .ok s' ∧ s'.memory.size = s.memory.size ∧
      s'.memory.bytes = (phdr.segment bytes).apply s.memory.bytes := by
  have hread := (readBytes_iff hserves hrange s.fd).not.mpr (Nat.not_le_of_lt hsmall)
  have hseek := hserves.lseek s.fd phdr.pOffset
    (Nat.le_trans (Nat.le_add_right _ _) hrange.file)
  have hcount := hserves.readBytes s.fd _ _ hrange.file
  simp only [loadSegment, hserves.getphdr, hphdr, hseek, ne_eq, not_true_eq_false, if_false,
    if_neg hread]
  rw [Memory.write_of_inRange _ hrange.memory]
  refine ⟨_, rfl, rfl, ?_⟩
  change (s.memory.blit _ _ _).bytes = _
  rw [Memory.bytes_blit, Phdr.segment]
  refine congrArg (Patch.apply · _) (Patch.range_congr fun j hj => ?_)
  rw [Buffer.fill, hcount]
  exact (if_pos (by simpa using hj)).trans (hserves.read s.fd _ _ hrange.file j hj)

theorem filesz_lt_of_loadSegment (h : loadSegment file i s = .ok s') :
    phdr.pFilesz.toNat < 2 ^ 32 := by
  by_contra hlarge
  have hread := (readBytes_iff hserves hrange s.fd).mpr (Nat.le_of_not_lt hlarge)
  have hseek := hserves.lseek s.fd phdr.pOffset
    (Nat.le_trans (Nat.le_add_right _ _) hrange.file)
  simp only [loadSegment, hserves.getphdr, hphdr, hseek, ne_eq, not_true_eq_false, if_false,
    if_pos hread] at h
  cases h

end Segments

section Loop

variable (hserves : file.Serves headers length bytes)
include hserves

theorem loadLoop_ok {before rest : List Phdr} {s : State φ} (hheaders : headers = before ++ rest)
    (hrange : ∀ phdr ∈ rest, phdr.InRange length s.memory.size)
    (hlength : headers.length < 2 ^ 31) (hsmall : ∀ phdr ∈ rest, phdr.pFilesz.toNat < 2 ^ 32) :
    ∃ s', loadLoop file rest.length before.length s = .ok s' ∧
      s'.memory.bytes = (Patch.newest (rest.map (Phdr.segment bytes))).apply s.memory.bytes := by
  induction rest generalizing before s with
  | nil => exact ⟨s, rfl, rfl⟩
  | cons phdr rest ih =>
      rw [List.forall_mem_cons] at hrange hsmall
      have hphdr : headers[before.length]? = some phdr := by
        rw [hheaders, List.getElem?_append_right (Nat.le_refl _), Nat.sub_self]
        rfl
      have hnext : before.length + 1 < 2 ^ 31 := by
        rw [hheaders, List.length_append, List.length_cons] at hlength
        omega
      obtain ⟨t, ht, hsize, hbytes⟩ :=
        loadSegment_ok hserves hrange.1 hphdr hsmall.1
      obtain ⟨s', hs', hbytes'⟩ := @ih (before ++ [phdr]) t
        (by rw [hheaders, List.append_assoc]; rfl) (hsize ▸ hrange.2) hsmall.2
      refine ⟨s', ?_, ?_⟩
      · rw [List.length_cons, loadLoop, ht]
        change (if before.length + 1 < 2 ^ 31 then _ else _) = _
        rw [if_pos hnext]
        rw [List.length_append] at hs'
        exact hs'
      · rw [hbytes', hbytes, List.map_cons, ← Patch.foldl_apply, ← Patch.foldl_apply]
        rfl

theorem bounds_of_loadLoop {before rest : List Phdr} {s s' : State φ}
    (hheaders : headers = before ++ rest)
    (hrange : ∀ phdr ∈ rest, phdr.InRange length s.memory.size)
    (h : loadLoop file rest.length before.length s = .ok s') :
    (rest ≠ [] → headers.length < 2 ^ 31) ∧ ∀ phdr ∈ rest, phdr.pFilesz.toNat < 2 ^ 32 := by
  induction rest generalizing before s with
  | nil => exact ⟨fun hne => absurd rfl hne, fun phdr hmem => nomatch hmem⟩
  | cons phdr rest ih =>
      rw [List.forall_mem_cons] at hrange ⊢
      have hphdr : headers[before.length]? = some phdr := by
        rw [hheaders, List.getElem?_append_right (Nat.le_refl _), Nat.sub_self]
        rfl
      rw [List.length_cons, loadLoop] at h
      obtain ⟨t, ht, h⟩ := ok_of_bind h
      have hsmall := filesz_lt_of_loadSegment hserves hrange.1 hphdr ht
      obtain ⟨u, hu, hsize, -⟩ := loadSegment_ok hserves hrange.1 hphdr hsmall
      cases hu.symm.trans ht
      split_ifs at h with hnext
      obtain ⟨hlength, hrest⟩ := @ih (before ++ [phdr]) t
        (by rw [hheaders, List.append_assoc]; rfl) (hsize ▸ hrange.2)
        (by rw [List.length_append]; exact h)
      refine ⟨fun _ => ?_, hsmall, hrest⟩
      cases rest with
      | nil =>
          rw [hheaders, List.length_append]
          exact hnext
      | cons next rest => exact hlength (List.cons_ne_nil _ _)

end Loop

/-! ## The whole image -/

theorem image_eq_iff {addr : Nat} :
    (Patch.newest (headers.map (Phdr.segment bytes)) addr).getD 0 = image headers bytes addr ↔
      ∀ before phdr after, headers = before ++ phdr :: after → phdr.isLoad = false →
        phdr.Covers addr → (∀ next ∈ after, ¬ next.Covers addr) →
        phdr.fileByte bytes addr = image before bytes addr := by
  rw [image, Patch.newest_eq_kept_iff]
  constructor
  · intro h before phdr after hheaders htype hcovers hafter
    exact h before phdr after _ hheaders htype (Patch.range_of_mem hcovers)
      fun next hnext => Patch.range_eq_none_iff.mpr (hafter next hnext)
  · intro h before phdr after v hheaders htype hv hafter
    obtain ⟨hcovers, rfl⟩ := Patch.range_eq_some_iff.mp hv
    exact h before phdr after hheaders htype hcovers
      fun next hnext => Patch.range_eq_none_iff.mp (hafter next hnext)

/--
`load` leaves the image of the loadable segments exactly when the header counter
and the compared count do not overflow, and no other header shows: where one
covers a byte that no later header covers, the file has the byte there that the
loadable segments before it have left.
-/
theorem load_image_iff (hserves : file.Serves headers length bytes)
    (hrange : ∀ phdr ∈ headers, phdr.InRange length config.memorySize) (fd : φ) :
    LoadsImage file fd config headers bytes ↔
      headers.length < 2 ^ 31 ∧ (∀ phdr ∈ headers, phdr.pFilesz.toNat < 2 ^ 32) ∧
      ∀ before phdr after, headers = before ++ phdr :: after → phdr.isLoad = false →
        ∀ addr, phdr.Covers addr → (∀ next ∈ after, ¬ next.Covers addr) →
        phdr.fileByte bytes addr = image before bytes addr := by
  let start : State φ := { fd := fd, buf := .ofSize 1024, memory := .ofConfig config }
  constructor
  · rintro ⟨memory, hload, hbytes⟩
    rw [load, hserves.getphdrnum] at hload
    obtain ⟨s, hs, hload⟩ := ok_of_bind hload
    cases hload
    obtain ⟨hlength, hsmall⟩ :=
      bounds_of_loadLoop hserves (List.nil_append headers).symm (s := start) hrange hs
    have hlength' : headers.length < 2 ^ 31 := by
      rcases eq_or_ne headers [] with hnil | hne
      · rw [hnil]
        decide
      · exact hlength hne
    refine ⟨hlength', hsmall, fun before phdr after hheaders htype addr hcovers hafter => ?_⟩
    obtain ⟨t, ht, hnewest⟩ :=
      loadLoop_ok hserves (List.nil_append headers).symm (s := start) hrange hlength' hsmall
    cases ht.symm.trans hs
    have hmem : phdr ∈ headers := by
      rw [hheaders]
      simp
    have hsize := (hrange phdr hmem).memory
    have haddr := hbytes addr (Nat.lt_of_lt_of_le hcovers.2 hsize)
    rw [hnewest] at haddr
    exact image_eq_iff.mp haddr before phdr after hheaders htype hcovers hafter
  · rintro ⟨hlength, hsmall, hshown⟩
    obtain ⟨s, hs, hnewest⟩ :=
      loadLoop_ok hserves (List.nil_append headers).symm (s := start) hrange hlength hsmall
    refine ⟨s.memory, ?_, fun addr _ => ?_⟩
    · rw [load, hserves.getphdrnum]
      change (loadLoop file headers.length 0 start >>= _) = _
      rw [show loadLoop file headers.length 0 start = .ok s from hs]
      rfl
    · rw [hnewest]
      exact image_eq_iff.mpr fun before phdr after hheaders htype hcovers hafter =>
        hshown before phdr after hheaders htype addr hcovers hafter


/-! ## Two files -/

def ofFile (headers : List Phdr) (length : Nat) (bytes : Nat → BitVec 8) : ElfFile Nat where
  getphdrnum := headers.length
  getphdr i := headers[i]?
  lseek _ offset := (offset, offset.toNat)
  read position count :=
    let readBytes := min count.toNat (length - position)
    (readBytes, fun i => bytes (position + i), position + readBytes)

theorem serves_ofFile (hlength : headers.length < 2 ^ 64) :
    (ofFile headers length bytes).Serves headers length bytes where
  getphdrnum := by
    change (BitVec.ofNat 64 headers.length).toNat = headers.length
    rw [BitVec.toNat_ofNat, Nat.mod_eq_of_lt hlength]
  getphdr i := rfl
  lseek fd offset hle := rfl
  readBytes fd offset count hle := by
    change ((min count.toNat (length - offset.toNat) : Nat) : Int) = count.toNat
    rw [Nat.min_eq_left (by omega)]
  read fd offset count hle i hi := rfl

/-- A segment of attributes, whose address is 0, in front of the code. -/
def attributes : List Phdr := [⟨0x70000003, 4, 0, 2⟩, ⟨PT_LOAD, 0, 0x1000, 4⟩]

def stack : List Phdr := [⟨PT_LOAD, 0, 0x1000, 4⟩, ⟨0x6474e551, 0, 0, 0⟩]

def contents (i : Nat) : BitVec 8 := [0x73, 0, 0, 0, 0x41, 0x1a].getD i 0

theorem load_attributes :
    (ofFile attributes 6 contents).Serves attributes 6 contents ∧
      (∀ phdr ∈ attributes, phdr.InRange 6 (4096 * 1024)) ∧
      ¬ LoadsImage (ofFile attributes 6 contents) 0 {} attributes contents := by
  refine ⟨serves_ofFile (by decide), ?_, ?_⟩
  · simp only [attributes, List.forall_mem_cons]
    exact ⟨⟨by decide, by decide⟩, ⟨by decide, by decide⟩, fun phdr hmem => nomatch hmem⟩
  · rintro ⟨memory, hload, hbytes⟩
    have hfirst : (load (ofFile attributes 6 contents) 0 (.ofConfig {})).map
        (fun memory => memory.bytes 0) = .ok 0x41 := by
      decide +kernel
    rw [hload] at hfirst
    have hzero := hbytes 0 (by decide)
    rw [show image attributes contents 0 = 0 by decide +kernel] at hzero
    simp [Except.map, hzero] at hfirst

theorem load_stack : LoadsImage (ofFile stack 6 contents) 0 {} stack contents := by
  have hrange : ∀ phdr ∈ stack, phdr.InRange 6 (4096 * 1024) := by
    simp only [stack, List.forall_mem_cons]
    exact ⟨⟨by decide, by decide⟩, ⟨by decide, by decide⟩, fun phdr hmem => nomatch hmem⟩
  refine (load_image_iff (serves_ofFile (by decide)) hrange 0).mpr
    ⟨by decide, by decide, fun before phdr after hheaders htype addr hcovers => ?_⟩
  have hempty : ∀ phdr ∈ stack, phdr.isLoad = false → phdr.pFilesz = 0 := by
    decide
  have hmem : phdr ∈ stack := by
    rw [hheaders]
    simp
  have hfilesz := hempty phdr hmem htype
  rw [Phdr.Covers, hfilesz] at hcovers
  exact absurd hcovers (by simp)

end ElfManager

end RiscvPerfSim
