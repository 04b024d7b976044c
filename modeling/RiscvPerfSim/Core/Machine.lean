import RiscvPerfSim.Source.PerfSim

/-!
# The pipeline with its instructions in the latches

`Core` says what the simulator is for: a five-stage pipeline whose latches own
the instructions in them.  Pointers, recycled objects, store latches that are
cleared at every swap and the store queue are gone; what a stopped front end
remembers between cycles (`redirect`, `flush`) is kept.
-/

namespace RiscvPerfSim

namespace RegFile

def put (rf : RegFile) (reg : Register) : RegFile :=
  if reg.name = REGISTER_NAME_ZERO then rf
  else
    { regs := Function.update rf.regs reg.name reg
      regLocker := Function.update rf.regLocker reg.name
        (rf.regLocker reg.name + 1) }

def lock (rf : RegFile) (num : RegName) : RegFile := (rf.getReg num .write).1

def release (rf : RegFile) (instr : Instruction) : RegFile :=
  if instr.type.writesRd then rf.put instr.rd else rf

end RegFile

namespace Instruction

/-- The object after `execute`, which succeeds on every decoded instruction. -/
def executed (env : Env) (instr : Instruction) : Instruction :=
  match instr.execute env with
  | .ok instr => instr
  | .error _ => instr

def writes (instr : Instruction) (num : RegName) : Bool :=
  instr.type.writesRd && instr.rd.name = num

def target (instr : Instruction) : Option (BitVec 32) :=
  if PerfSim.transfers instr then some instr.branchAddr else none

end Instruction

namespace Decoder

def readsRs1 : InstrType → Bool
  | .r | .i | .s | .b => true
  | .u | .j | .system | .none => false

def readsRs2 : InstrType → Bool
  | .r | .s | .b => true
  | .i | .u | .j | .system | .none => false

def rs2Stage (found : Recognized) : PipelineStage :=
  if found.type = .s ∧ found.memAccType = .write then .memory else .execute

/-- The word needs the value of `num` for its execute stage, not only as the data of a store. -/
def needs (word : BitVec 32) (num : RegName) : Bool :=
  (readsRs1 (recognize word).type && numRs1 word = num) ||
    (readsRs2 (recognize word).type && rs2Stage (recognize word) = .execute &&
      numRs2 word = num)

def stores (word : BitVec 32) (num : RegName) : Bool :=
  readsRs2 (recognize word).type && rs2Stage (recognize word) = .memory && numRs2 word = num

def reads (word : BitVec 32) (num : RegName) : Bool := needs word num || stores word num

def writes (word : BitVec 32) (num : RegName) : Bool :=
  (recognize word).type.writesRd && numRd word = num

def needsTwice (word : BitVec 32) : Bool :=
  readsRs1 (recognize word).type && readsRs2 (recognize word).type &&
    rs2Stage (recognize word) = .execute && numRs1 word = numRs2 word

/-- The decoded object, from the object it recycles and the registers it reads. -/
def fill (old : Instruction) (word : BitVec 32) (rs1 rs2 rd : Register) : Instruction :=
  let found := recognize word
  finish found word
    (match found.type with
      | .r => { old with rs1 := rs1, rs2 := rs2, rd := rd }
      | .i => { old with loadSize := found.accSize, rs1 := rs1, rd := rd }
      | .s => { old with storeSize := found.accSize, rs1 := rs1, rs2 := rs2 }
      | .b => { old with rs1 := rs1, rs2 := rs2 }
      | .u | .j => { old with rd := rd }
      | .system => old
      | .none => {})

end Decoder

/-- An instruction in a latch, and whether the latch is marked `hazard_stall`. -/
structure Slot where
  instr : Instruction
  killed : Bool

/-- A stage that finds a marked instruction in its latch only releases it. -/
def RegFile.squash (rf : RegFile) : Option Slot → RegFile
  | some ⟨instr, true⟩ => rf.release instr
  | _ => rf

structure Fetched where
  pc : BitVec 32
  word : BitVec 32
  killed : Bool

@[ext] structure Core where
  rf : RegFile
  memory : Memory
  nextPc : BitVec 32
  /-- A jump recorded while the fetch stage is stopped. -/
  redirect : Option (BitVec 32)
  /-- A flush recorded while the fetch stage is stopped. -/
  flush : Bool
  fd : Option Fetched
  stop : Nat
  deStop : Nat
  de : Option Slot
  em : Option Slot
  mw : Option Instruction
  branches : BitVec 32
  stops : BitVec 32
  ic : Nat
  clocks : Nat
  isStop : Bool
  trace : List Instruction

namespace Core

/-! ## Write-back -/

def wbRf (c : Core) : RegFile :=
  match c.mw with
  | some instr => c.rf.release instr
  | none => c.rf

/-! ## Memory access -/

/-- The memory a store leaves at once, and what it leaves for the end of the cycle. -/
def storeEffect (env : Env) (memory : Memory) (instr : Instruction) :
    Except Error (Memory × Store) :=
  if instr.memAccType = .write ∧ instr.type = .s then
    if env.config.isSq then
      .ok (memory,
        { addr := toAddress instr.storeAddres
          size := toAddress instr.storeSize
          data := instr.rs2.value })
    else do
      let memory ← memory.write (Word.byte instr.rs2.value)
        (toAddress instr.storeAddres).toNat (toAddress instr.storeSize).toNat
      return (memory, Store.clear)
  else .ok (memory, Store.clear)

/-- The bytes a load does not fill: left over with the queue, zero without it. -/
def loadBuffer (env : Env) (clock : Nat) : BitVec 32 :=
  if env.config.isSq then env.undef.dData clock else 0

def loadEffect (env : Env) (clock : Nat) (memory : Memory) (instr : Instruction) :
    Except Error Instruction :=
  if instr.memAccType = .read ∧ instr.type = .i then do
    let data ← memory.read (loadBuffer env clock) (toAddress instr.loadAddres).toNat
      (toAddress instr.loadSize).toNat
    let data ← PerfSim.extendLoaded instr data
    instr.setRdValue data
  else .ok instr

structure Accessed where
  mw : Option Instruction
  memory : Memory
  pending : Store

def memStage (env : Env) (c : Core) : Except Error Accessed :=
  match c.em with
  | some ⟨instr, false⟩ => do
      let (memory, pending) ← storeEffect env c.memory instr
      let instr ← loadEffect env c.clocks memory instr
      return ⟨some instr, memory, pending⟩
  | _ => .ok ⟨none, c.memory, Store.clear⟩

def memRf (c : Core) : RegFile := c.wbRf.squash c.em

/-! ## Execute -/

def executing (env : Env) (c : Core) : Option Instruction :=
  match c.de with
  | some ⟨instr, false⟩ => some (instr.executed env)
  | _ => none

def exRf (c : Core) : RegFile := c.memRf.squash c.de

def target (env : Env) (c : Core) : Option (BitVec 32) :=
  (c.executing env).bind Instruction.target

def exits (env : Env) (c : Core) : Bool :=
  (c.executing env).any fun instr => instr.type = .system

def exitStop (env : Env) (c : Core) : Nat := if c.exits env then 5 else 0

/-! ## Decode -/

def feeds (instr : Option Instruction) (num : RegName) : Option Instruction :=
  instr.filter fun instr => instr.writes num

def operand (env : Env) (rf : RegFile) (de em : Option Instruction) (num : RegName)
    (needValueOn : PipelineStage) : Except Error (Register × Nat) :=
  if rf.regLocker num = 0 then .ok (rf.regs num, 0)
  else
    match feeds de (rf.regs num).name with
    | some instr =>
        if HazardUnit.isLoad instr then
          if needValueOn = .execute then .ok (rf.regs num, 1)
          else .error (.runtime "load hazart")
        else .ok (instr.rd, 0)
    | none =>
        match feeds em (rf.regs num).name with
        | some instr => .ok (instr.rd, 0)
        | none => .ok ({ name := env.undef.regName }, 0)

structure Decoded where
  instr : Option Instruction
  rf : RegFile
  hits : Nat

def operand1 (env : Env) (rf : RegFile) (de em : Option Instruction)
    (word : BitVec 32) : Except Error (Register × Nat) :=
  if Decoder.readsRs1 (Decoder.recognize word).type then
    operand env rf de em (Decoder.numRs1 word) .execute
  else .ok ({}, 0)

def operand2 (env : Env) (rf : RegFile) (de em : Option Instruction)
    (word : BitVec 32) : Except Error (Register × Nat) :=
  if Decoder.readsRs2 (Decoder.recognize word).type then
    operand env rf de em (Decoder.numRs2 word)
      (Decoder.rs2Stage (Decoder.recognize word))
  else .ok ({}, 0)

def lockedRf (rf : RegFile) (word : BitVec 32) : RegFile :=
  if (Decoder.recognize word).type.writesRd then rf.lock (Decoder.numRd word) else rf

def decodeWord (env : Env) (old : Instruction) (rf : RegFile)
    (de em : Option Instruction) (pc word : BitVec 32) : Except Error Decoded := do
  let (rs1, hits1) ← operand1 env rf de em word
  let (rs2, hits2) ← operand2 env rf de em word
  let instr := Decoder.fill old word rs1 rs2 (rf.regs (Decoder.numRd word))
  return ⟨some { instr with pc := pc }, lockedRf rf word, hits1 + hits2⟩

/-- The word that decode reads in this cycle, unless it is a bubble or held back. -/
def decoding (env : Env) (c : Core) : Option Fetched :=
  match c.fd with
  | some ⟨pc, word, false⟩ =>
      if c.deStop + c.exitStop env = 0 then some ⟨pc, word, false⟩ else none
  | _ => none

def decodeStage (env : Env) (old : Instruction) (c : Core) (em : Option Instruction) :
    Except Error Decoded :=
  match c.decoding env with
  | some fetched =>
      decodeWord env old c.exRf (c.executing env) em fetched.pc fetched.word
  | none => .ok ⟨none, c.exRf, 0⟩

/-! ## Fetch and the end of the cycle -/

def fetchStage (memory : Memory) (pc : BitVec 32) (stop : Nat) :
    Except Error (BitVec 32) :=
  if stop = 0 then memory.read 0 pc.toNat 4 else .ok 0

def advance (env : Env) (c : Core) (accessed : Accessed) (decoded : Decoded)
    (word : BitVec 32) (memory : Memory) : Core :=
  let stop := c.stop + c.exitStop env + decoded.hits
  let deStop := c.deStop + c.exitStop env
  let redirect := (c.target env).or c.redirect
  let flush := c.flush || (c.target env).isSome
  { rf := decoded.rf
    memory := memory
    nextPc := if stop = 0 then redirect.getD (c.nextPc + 4) else c.nextPc
    redirect := if stop = 0 then none else redirect
    flush := if stop = 0 then false else flush
    fd := if stop = 0 then some ⟨c.nextPc, word, flush⟩ else c.fd
    stop := stop - 1
    deStop := deStop - 1
    de :=
      if deStop = 0 then decoded.instr.map fun instr => ⟨instr, (c.target env).isSome⟩
      else c.de.map fun slot =>
        ⟨(c.executing env).getD slot.instr, slot.killed || c.exits env⟩
    em := (c.executing env).map fun instr => ⟨instr, decide (decoded.hits > 0)⟩
    mw := accessed.mw
    branches := if (c.target env).isSome then c.branches + 1 else c.branches
    stops := c.stops + BitVec.ofNat 32 decoded.hits
    ic := if c.mw.isSome then c.ic + 1 else c.ic
    clocks := c.clocks + 1
    isStop := c.isStop || c.mw.any fun instr => instr.name = .ecall
    trace := c.trace ++ c.mw.toList }

/-- One cycle; `old` is the object that decode recycles. -/
def step (env : Env) (old : Instruction) (c : Core) : Except Error Core := do
  let accessed ← c.memStage env
  let decoded ← c.decodeStage env old accessed.mw
  let word ← fetchStage accessed.memory c.nextPc
    (c.stop + c.exitStop env + decoded.hits)
  let (memory, _) ← Pipeline.update accessed.memory { store := accessed.pending }
  return c.advance env accessed decoded word memory

end Core

end RiscvPerfSim
