import RiscvPerfSim.Core.Cycle

/-!
# Recycled objects and the view of a simulator state

Reading and writing the recycled objects, how long an element of a cyclic
array stays untouched, and `PerfSim.core`, which reads the instructions out of
the objects that the latches point to.
-/

namespace RiscvPerfSim

namespace Decoder

/-! ## Reading and writing -/

def index (decoder : Decoder) (type : InstrType) : Nat := (decoder.arrays type).index

def nextPtr (decoder : Decoder) (type : InstrType) : InstrPtr :=
  ⟨type, slotOf type (decoder.index type)⟩

variable (decoder : Decoder) (ptr ptr' : InstrPtr) (type type' : InstrType)
  (instr : Instruction)

theorem get_set : (decoder.set ptr instr).get ptr' =
    if ptr' = ptr then instr else decoder.get ptr' := by
  obtain ⟨t, n⟩ := ptr
  obtain ⟨t', n'⟩ := ptr'
  by_cases ht : t' = t
  · subst ht
    by_cases hn : n' = n <;> simp [get, set, hn]
  · simp [get, set, ht]

@[simp] theorem get_set_self : (decoder.set ptr instr).get ptr = instr := by
  simp [get_set]

theorem get_set_ne {ptr ptr' : InstrPtr} (h : ptr' ≠ ptr) :
    (decoder.set ptr instr).get ptr' = decoder.get ptr' := by
  simp [get_set, h]

@[simp] theorem index_set : (decoder.set ptr instr).index type = decoder.index type := by
  by_cases h : type = ptr.type
  · subst h
    simp [index, set]
  · simp [index, set, h]

@[simp] theorem getNext_snd : (decoder.getNext type).2 = decoder.nextPtr type := rfl

@[simp] theorem get_getNext : (decoder.getNext type).1.get ptr = decoder.get ptr := by
  by_cases h : ptr.type = type
  · simp [get, getNext, h]
  · simp [get, getNext, h]

theorem index_getNext : (decoder.getNext type).1.index type' =
    if type' = type then decoder.index type' + 1 else decoder.index type' := by
  by_cases h : type' = type
  · subst h
    simp [index, getNext]
  · simp [index, getNext, h]

/-! ## The age of an element -/

/-- `ptr` was handed out, and at most `age` elements of its array since then, itself included. -/
def Live (age : Nat) : Prop :=
  ∃ born, ptr.slot = slotOf ptr.type born ∧ born < decoder.index ptr.type ∧
    decoder.index ptr.type ≤ born + age

variable {decoder ptr ptr' type} {decoder' : Decoder} {age : Nat}

theorem Live.ne_nextPtr (h : decoder.Live ptr age) (hage : age < Config.stages) :
    ptr ≠ decoder.nextPtr type := by
  obtain ⟨born, hslot, hlt, hle⟩ := h
  rintro rfl
  simp only [nextPtr, slotOf, Config.stages] at hslot hlt hle hage
  by_cases htype : type = .none
  · subst htype
    simp only [if_true] at hslot
    omega
  · simp only [htype, if_false] at hslot
    omega

theorem Live.older (h : decoder.Live ptr age)
    (hlow : decoder.index ptr.type ≤ decoder'.index ptr.type)
    (hhigh : decoder'.index ptr.type ≤ decoder.index ptr.type + 1) :
    decoder'.Live ptr (age + 1) := by
  obtain ⟨born, hslot, hlt, hle⟩ := h
  exact ⟨born, hslot, by omega, by omega⟩

theorem Live.of_index_eq (h : decoder.Live ptr age)
    (hindex : decoder'.index ptr.type = decoder.index ptr.type) :
    decoder'.Live ptr age := by
  obtain ⟨born, hslot, hlt, hle⟩ := h
  exact ⟨born, hslot, by omega, by omega⟩

theorem live_nextPtr (hindex : decoder'.index type = decoder.index type + 1) :
    decoder'.Live (decoder.nextPtr type) 1 :=
  ⟨decoder.index type, rfl, by simp [nextPtr, hindex], by simp [nextPtr, hindex]⟩

end Decoder

namespace InstrLatch

/-! ## Latches -/

def isLive (latch : InstrLatch) : Bool := !(latch.isStall || latch.hazardStall)

def instrOf (latch : InstrLatch) (decoder : Decoder) : Option Instruction :=
  if latch.isLive then latch.instr.map decoder.get else none

def slotOf (latch : InstrLatch) (decoder : Decoder) : Option Slot :=
  if latch.isStall then none
  else latch.instr.map fun ptr => ⟨decoder.get ptr, latch.hazardStall⟩

/-- A latch that is not a bubble points to a decoded object that is still young enough. -/
def Holds (latch : InstrLatch) (decoder : Decoder) (age : Nat) : Prop :=
  latch.isStall = false → ∃ ptr word, latch.instr = some ptr ∧
    decoder.Live ptr age ∧ (decoder.get ptr).Carries word ∧
    (decoder.get ptr).type = ptr.type

end InstrLatch

namespace PerfSim

/-! ## The view -/

def fetched (fd : FD) : Option Fetched :=
  if fd.isStall then none else some ⟨fd.pc, fd.instr, fd.hazardStall⟩

def core (s : PerfSim) : Core :=
  { rf := s.rf
    memory := s.memory
    nextPc := if s.fetchSt.load.isJump then s.fetchSt.load.pcJump else s.fetchSt.load.pc
    redirect := if s.fetchSt.store.isJump then some s.fetchSt.store.pcJump else none
    flush := s.fdSt.store.hazardStall
    fd := fetched s.fdSt.load
    stop := s.fdSt.stopCount
    deStop := s.deSt.stopCount
    de := s.deSt.load.slotOf s.decoder
    em := s.emSt.load.slotOf s.decoder
    mw := s.mwSt.load.instrOf s.decoder
    branches := s.hu.branches
    stops := s.hu.stops
    ic := s.ic
    clocks := s.clocks
    isStop := s.isStop
    trace := s.trace }

def leftover (s : PerfSim) : Instruction :=
  s.decoder.get (s.decoder.nextPtr (Decoder.recognize s.fdSt.load.instr).type)

/--
What holds between two cycles whatever the program: which store latches are
clear, that fetch and its latch stop together, and that the objects in flight
are decoded, young and, where one of them is about to change, distinct.
-/
structure Inv (s : PerfSim) : Prop where
  named : s.rf.Named
  fetchStop : s.fetchSt.stopCount = s.fdSt.stopCount
  emStop : s.emSt.stopCount = 0
  mwStop : s.mwSt.stopCount = 0
  emStore : s.emSt.store = InstrLatch.clear
  mwStore : s.mwSt.store = InstrLatch.clear
  deStore : s.deSt.store.hazardStall = false
  fetchLoad : (s.fetchSt.load.isStall || s.fetchSt.load.hazardStall) = false
  fetchStore : (s.fetchSt.store.isStall || s.fetchSt.store.hazardStall) = false
  queue : s.pipeline.queue = []
  pending : s.pipeline.store = Store.clear
  de : s.deSt.load.Holds s.decoder 1
  em : s.emSt.load.Holds s.decoder 2
  mw : s.mwSt.load.Holds s.decoder 3
  mwHazard : s.mwSt.load.hazardStall = false
  frozen : 0 < s.deSt.stopCount → s.deSt.load.isStall = false ∧
    s.deSt.load.hazardStall = true ∧
    ∀ ptr, s.deSt.load.instr = some ptr → ptr.type = .system
  apart : ∀ ptr ptr', s.deSt.load.isStall = false → s.emSt.load.isStall = false →
    s.deSt.load.instr = some ptr → s.emSt.load.instr = some ptr' →
    ptr' ≠ ptr ∨ ptr.type = .system

end PerfSim

end RiscvPerfSim
