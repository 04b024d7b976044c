import RiscvPerfSim.Foundation.Loop
import RiscvPerfSim.Source.Decoder
import RiscvPerfSim.Source.StoreQueue

/-!
# The cycle loop

The five stages of `PerfSim` in the order in which a cycle runs them, the
updates that end the cycle, and the loop of `PerfSim::run`.
-/

namespace RiscvPerfSim

/-- `trace` holds the instructions handed to `dumpInstruction`, oldest first. -/
structure PerfSim extends Datapath where
  memory : Memory
  pipeline : Pipeline := {}
  ic : Nat := 0
  clocks : Nat := 0
  isStop : Bool := false
  trace : List Instruction := []

namespace PerfSim

/-! ## Stages -/

def fetch (s : PerfSim) : Except Error PerfSim :=
  let wf := s.fetchSt.load
  let isStall := wf.isStall || wf.hazardStall
  let s := { s with fdSt := s.fdSt.modifyStore fun fd => { fd with isStall := isStall } }
  if isStall || s.fdSt.isStop then .ok s
  else do
    let pc := if wf.isJump then wf.pcJump else wf.pc
    let instr ← s.memory.read 0 pc.toNat 4
    return { s with
      fdSt := s.fdSt.modifyStore fun fd =>
        { fd with pc := pc, instr := instr, isStall := false }
      fetchSt := s.fetchSt.modifyStore fun wf => { wf with pc := pc + 4 } }

def decode (env : Env) (s : PerfSim) : Except Error PerfSim :=
  let fd := s.fdSt.load
  let isStall := fd.isStall || fd.hazardStall
  let s := { s with deSt := s.deSt.modifyStore fun de => { de with isStall := isStall } }
  if isStall || s.deSt.isStop then .ok s
  else do
    let (dp, ptr) ← Decoder.decode env s.toDatapath fd.instr
    let dp := { dp with
      decoder := dp.decoder.set ptr { dp.decoder.get ptr with pc := fd.pc } }
    let dp ← if dp.deSt.isStop then HazardUnit.write dp (dp.decoder.get ptr) else .ok dp
    return { s with
      toDatapath := { dp with
        deSt := dp.deSt.modifyStore fun de => { de with instr := some ptr, pc := fd.pc } } }

/-- The condition under which `execute` calls `HazardUnit::branch`. -/
def transfers (instr : Instruction) : Bool :=
  instr.isBranch &&
    (instr.type = .j || instr.type = .i || (instr.type = .b && instr.brIsTaken))

def execute (env : Env) (s : PerfSim) : Except Error PerfSim :=
  let de := s.deSt.load
  let isStall := de.isStall || de.hazardStall
  let s := { s with emSt := s.emSt.modifyStore fun em => { em with isStall := isStall } }
  if isStall || s.emSt.isStop then
    if !de.isStall && de.hazardStall then do
      let (_, instr) ← s.decoder.deref de.instr
      let dp ← HazardUnit.write s.toDatapath instr
      return { s with toDatapath := dp }
    else .ok s
  else do
    let (ptr, instr) ← s.decoder.deref de.instr
    let instr ← instr.execute env
    let dp := { s.toDatapath with decoder := s.decoder.set ptr instr }
    let dp ← if transfers instr then HazardUnit.branch dp instr else .ok dp
    let dp := if instr.type = .system then HazardUnit.exit dp else dp
    return { s with
      toDatapath := { dp with
        emSt := dp.emSt.modifyStore fun em =>
          { em with pc := de.pc, instr := de.instr, isStall := de.isStall } } }

inductive ExtendType where
  | sign
  | zero
  deriving DecidableEq

/-- `size` is compared as a number of bytes and used as a number of bits. -/
def signExtend (num size : BitVec 32) (extendType : ExtendType) :
    Except Error (BitVec 32) :=
  let mask : BitVec 32 := (1 <<< size.toNat) - 1
  if size = 4 then .ok num
  else if extendType = .zero then .ok (mask &&& num)
  else if extendType = .sign then
    let signBit : BitVec 32 := num.sshiftRight (size - 1).toNat &&& 0b1
    if signBit ≠ 0 then .ok (~~~mask ||| num) else .ok (mask &&& num)
  else .error (.runtime "sign extend error")

/-- The two tests on the name that pick the extension of a loaded value. -/
def extendLoaded (instr : Instruction) (data : BitVec 32) : Except Error (BitVec 32) :=
  if instr.name = .lhu ∨ instr.name = .lbu then signExtend data instr.loadSize .zero
  else if instr.name = .lh ∨ instr.name = .lb ∨ instr.name = .lw then
    signExtend data instr.loadSize .sign
  else .ok data

def storeAccess (env : Env) (s : PerfSim) (instr : Instruction) : Except Error PerfSim :=
  if instr.memAccType = .write ∧ instr.type = .s then
    if env.config.isSq then do
      let pipeline ← s.pipeline.push env instr
      return { s with pipeline := pipeline }
    else do
      instr.dynamicCast .s
      let memory ← s.memory.write (Word.byte instr.rs2.value)
        (toAddress instr.storeAddres).toNat (toAddress instr.storeSize).toNat
      return { s with memory := memory }
  else .ok s

def loadAccess (env : Env) (s : PerfSim) (instr : Instruction) :
    Except Error Instruction :=
  if instr.memAccType = .read ∧ instr.type = .i then do
    instr.dynamicCast .i
    let data ←
      if env.config.isSq then
        s.pipeline.searchData env s.clocks s.memory instr
      else
        s.memory.read 0 (toAddress instr.loadAddres).toNat
          (toAddress instr.loadSize).toNat
    let data ← extendLoaded instr data
    instr.setRdValue data
  else .ok instr

def memoryAccess (env : Env) (s : PerfSim) : Except Error PerfSim :=
  let em := s.emSt.load
  let isStall := em.isStall || em.hazardStall
  let s := { s with mwSt := s.mwSt.modifyStore fun mw => { mw with isStall := isStall } }
  if isStall || s.mwSt.isStop then
    if !em.isStall && em.hazardStall then do
      let (_, instr) ← s.decoder.deref em.instr
      let dp ← HazardUnit.write s.toDatapath instr
      return { s with toDatapath := dp }
    else .ok s
  else do
    let (ptr, instr) ← s.decoder.deref em.instr
    let s ← storeAccess env s instr
    let instr ← loadAccess env s instr
    return { s with
      decoder := s.decoder.set ptr instr
      mwSt := s.mwSt.modifyStore fun mw => { mw with instr := em.instr, pc := em.pc } }

def dumpInstruction (s : PerfSim) (instr : Instruction) : PerfSim :=
  { s with trace := s.trace ++ [instr] }

def writeBack (s : PerfSim) : Except Error PerfSim :=
  let mw := s.mwSt.load
  if mw.isStall || mw.hazardStall then
    if !mw.isStall && mw.hazardStall then do
      let (_, instr) ← s.decoder.deref mw.instr
      let dp ← HazardUnit.write s.toDatapath instr
      return { s with toDatapath := dp }
    else .ok s
  else do
    let (_, instr) ← s.decoder.deref mw.instr
    -- the same test on the type and the same `rf.write` as in `HazardUnit::write`
    let dp ← HazardUnit.write s.toDatapath instr
    let s := { s with toDatapath := dp, ic := s.ic + 1 }
    let s := s.dumpInstruction instr
    return { s with isStop := s.isStop || decide (instr.name = .ecall) }

/-! ## The loop -/

def updates (s : PerfSim) : Except Error PerfSim := do
  let (memory, pipeline) ← s.pipeline.update s.memory
  return { s with
    fetchSt := s.fetchSt.update WF.clear
    fdSt := s.fdSt.update FD.clear
    deSt := s.deSt.update InstrLatch.clear
    emSt := s.emSt.update InstrLatch.clear
    mwSt := s.mwSt.update InstrLatch.clear
    memory := memory
    pipeline := pipeline
    clocks := s.clocks + 1 }

def cycle (env : Env) (s : PerfSim) : Except Error PerfSim := do
  let s ← s.writeBack
  let s ← s.memoryAccess env
  let s ← s.execute env
  let s ← s.decode env
  let s ← s.fetch
  s.updates

/-- `PerfSim::run`. -/
def loop (env : Env) : Foundation.Loop PerfSim Error where
  halted := PerfSim.isStop
  step := cycle env

/-! ## Construction -/

def bootRegs (values : RegName → BitVec 32) : RegFile :=
  { regs := fun num => ⟨if num = REGISTER_NAME_ZERO then 0 else values num, num⟩
    regLocker := fun _ => 0 }

/-- The simulator before its first cycle: `pc` in the fetch latch, all others empty. -/
def boot (memory : Memory) (pc : BitVec 32) (values : RegName → BitVec 32) : PerfSim :=
  { rf := bootRegs values
    fetchSt := { store := WF.clear, load := { pc := pc } }
    fdSt := { store := FD.clear, load := FD.clear }
    deSt := { store := InstrLatch.clear, load := InstrLatch.clear }
    emSt := { store := InstrLatch.clear, load := InstrLatch.clear }
    mwSt := { store := InstrLatch.clear, load := InstrLatch.clear }
    hu := {}
    decoder := {}
    memory := memory }

def construct (config : Config) (image : Nat → BitVec 8) (entry : BitVec 32) :
    Except Error PerfSim := do
  let memory : Memory := { size := config.memorySize, bytes := image }
  let (rf, sp) := (bootRegs fun _ => 0).getReg REGISTER_NAME_SP .write
  let sp := { sp with value := BitVec.ofNat 32 (config.memorySize - 5) }
  let memory ← memory.write (Word.byte 0) (toAddress sp.value).toNat 4
  let rf ← rf.write sp
  return { boot memory entry (fun _ => 0) with rf := rf }

end PerfSim

end RiscvPerfSim
