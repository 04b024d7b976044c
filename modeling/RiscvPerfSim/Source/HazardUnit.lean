import RiscvPerfSim.Source.Executors
import RiscvPerfSim.Source.Memory

/-!
# Stages, instruction objects in their arrays, and the hazard unit

`Datapath` gathers what `HazardUnit` and `Decoder` hold references to: the
register file, the five stages, the counters and the recycled objects.
-/

namespace RiscvPerfSim

/-! ## Stages -/

inductive PipelineStage where
  | execute
  | memory
  deriving DecidableEq

structure WF where
  isStall : Bool := false
  hazardStall : Bool := false
  isJump : Bool := false
  pc : BitVec 32 := 0
  pcJump : BitVec 32 := 0

def WF.clear : WF := {}

structure FD where
  isStall : Bool := true
  pc : BitVec 32 := 0
  instr : BitVec 32 := 0
  hazardStall : Bool := false

def FD.clear : FD := {}

/-- `Instruction*`: an element of the array of its class. -/
structure InstrPtr where
  type : InstrType
  slot : Nat
  deriving DecidableEq

/-- The common layout of `DE`, `EM` and `MW`. -/
structure InstrLatch where
  isStall : Bool := true
  hazardStall : Bool := false
  pc : BitVec 32 := 0
  instr : Option InstrPtr := none

def InstrLatch.clear : InstrLatch := {}

abbrev DE := InstrLatch

abbrev EM := InstrLatch

abbrev MW := InstrLatch

structure Stage (α : Type) where
  store : α
  load : α
  stopCount : Nat := 0

namespace Stage

variable {α : Type}

def isStop (stage : Stage α) : Bool := decide (stage.stopCount > 0)

def extend (stage : Stage α) (count : Nat) : Stage α :=
  { stage with stopCount := stage.stopCount + count }

/-- A stopped stage counts down; a running one swaps and clears its store latch. -/
def update (stage : Stage α) (clear : α) : Stage α :=
  if stage.stopCount > 0 then { stage with stopCount := stage.stopCount - 1 }
  else { stage with store := clear, load := stage.store }

def modifyStore (stage : Stage α) (f : α → α) : Stage α :=
  { stage with store := f stage.store }

def modifyLoad (stage : Stage α) (f : α → α) : Stage α :=
  { stage with load := f stage.load }

end Stage

/-! ## Recycled objects -/

structure CyclicArray where
  index : Nat := 0
  cont : Nat → Instruction := fun _ => {}

/-- The `uint64_t` behind the index.  It wraps at 2^64, which is no multiple of the size. -/
def CyclicArray.counter (array : CyclicArray) : BitVec 64 := BitVec.ofNat 64 array.index

/--
The seven arrays of `Decoder`, by the class of their elements.  The class
`none` is the heap behind `new Instruction`, whose cells are never reused.
-/
structure Decoder where
  arrays : InstrType → CyclicArray := fun _ => {}

namespace Decoder

def slotOf (type : InstrType) (index : Nat) : Nat :=
  if type = .none then index else index % Config.stages

/-- `get_next`: the element under the index, which then moves on. -/
def getNext (decoder : Decoder) (type : InstrType) : Decoder × InstrPtr :=
  let array := decoder.arrays type
  ({ arrays := Function.update decoder.arrays type
       { array with index := array.index + 1 } },
   ⟨type, slotOf type array.index⟩)

def get (decoder : Decoder) (ptr : InstrPtr) : Instruction :=
  (decoder.arrays ptr.type).cont ptr.slot

def set (decoder : Decoder) (ptr : InstrPtr) (instr : Instruction) : Decoder :=
  let array := decoder.arrays ptr.type
  { arrays := Function.update decoder.arrays ptr.type
      { array with cont := Function.update array.cont ptr.slot instr } }

def deref (decoder : Decoder) : Option InstrPtr → Except Error (InstrPtr × Instruction)
  | some ptr => .ok (ptr, decoder.get ptr)
  | none => .error (.undefined "null pointer")

end Decoder

/-! ## Hazard unit -/

structure HazardUnit where
  bypassesMemEx : BitVec 32 := 0
  bypassesWbEx : BitVec 32 := 0
  branches : BitVec 32 := 0
  stops : BitVec 32 := 0

structure Datapath where
  rf : RegFile
  fetchSt : Stage WF
  fdSt : Stage FD
  deSt : Stage DE
  emSt : Stage EM
  mwSt : Stage MW
  hu : HazardUnit
  decoder : Decoder

namespace HazardUnit

def isLoad (instruction : Instruction) : Bool := instruction.memAccType = .read

def producer (dp : Datapath) (latch : InstrLatch) (name : RegName) :
    Except Error (Option Instruction) :=
  if latch.isStall || latch.hazardStall then .ok none
  else do
    let (_, instr) ← dp.decoder.deref latch.instr
    if instr.type.writesRd && instr.rd.name = name then return some instr
    else return none

def decode (env : Env) (dp : Datapath) (rs : Register)
    (needValueOn : PipelineStage) : Except Error (Datapath × Register) := do
  match ← producer dp dp.deSt.load rs.name with
  | some instr =>
      if isLoad instr then
        if needValueOn = .execute then
          return ({ dp with
            hu := { dp.hu with
              stops := dp.hu.stops + 1
              bypassesWbEx := dp.hu.bypassesWbEx + 1 }
            fdSt := dp.fdSt.extend 1
            fetchSt := dp.fetchSt.extend 1
            emSt := dp.emSt.modifyStore fun em => { em with hazardStall := true } },
            rs)
        else .error (.runtime "load hazart")
      else
        return ({ dp with
          hu := { dp.hu with bypassesMemEx := dp.hu.bypassesMemEx + 1 } }, instr.rd)
  | none =>
      match ← producer dp dp.emSt.load rs.name with
      | some instr =>
          return ({ dp with
            hu := { dp.hu with bypassesWbEx := dp.hu.bypassesWbEx + 1 } }, instr.rd)
      | none => return (dp, { name := env.undef.regName })

def branch (dp : Datapath) (instruction : Instruction) : Except Error Datapath := do
  let pcJump ← instruction.getBrTargetAddr
  return { dp with
    fetchSt := dp.fetchSt.modifyStore fun wf =>
      { wf with isJump := true, pcJump := pcJump }
    fdSt := dp.fdSt.modifyStore fun fd => { fd with hazardStall := true }
    deSt := dp.deSt.modifyStore fun de => { de with hazardStall := true }
    hu := { dp.hu with branches := dp.hu.branches + 1 } }

/-- Release the lock of a discarded instruction by writing its copy of `rd` back. -/
def write (dp : Datapath) (instruction : Instruction) : Except Error Datapath :=
  if instruction.type.writesRd then do
    let rd ← instruction.getRd
    let rf ← dp.rf.write rd
    return { dp with rf := rf }
  else .ok dp

def exit (dp : Datapath) : Datapath :=
  { dp with
    fetchSt := dp.fetchSt.extend 5
    fdSt := dp.fdSt.extend 5
    deSt := (dp.deSt.extend 5).modifyLoad fun de => { de with hazardStall := true } }

end HazardUnit

end RiscvPerfSim
