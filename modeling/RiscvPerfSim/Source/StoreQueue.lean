import RiscvPerfSim.Source.Instruction
import RiscvPerfSim.Source.Memory

/-!
# The store queue

`Pipeline` of the source: a pending store slot and a list of older stores.
Addresses and sizes are `uint64_t` and all their arithmetic wraps.
-/

namespace RiscvPerfSim

structure Store where
  addr : BitVec 64 := 0
  size : BitVec 64 := 0
  data : BitVec 32 := 0
  id : BitVec 32 := 0
  deriving DecidableEq

namespace Store

def clear : Store := {}

/-- `addr + size`, the wrapping end of the stored range. -/
def stop (store : Store) : BitVec 64 := store.addr + store.size

end Store

/-- Copy `count` bytes between two `uint32_t` fields, each at its own offset. -/
def memcpy (dst : BitVec 32) (dstOff : BitVec 64) (src : BitVec 32)
    (srcOff count : BitVec 64) : Except Error (BitVec 32) :=
  if count = 0 then .ok dst
  else if dstOff.toNat + count.toNat > 4 ∨ srcOff.toNat + count.toNat > 4 then
    .error (.undefined "memcpy outside a field")
  else
    .ok (Word.ofBytes fun i =>
      if dstOff.toNat ≤ i ∧ i < dstOff.toNat + count.toNat then
        Word.byte src (srcOff.toNat + (i - dstOff.toNat))
      else Word.byte dst i)

def shiftRight (data : BitVec 32) (count : BitVec 64) : Except Error (BitVec 32) :=
  if count.toNat < 32 then .ok (data >>> count.toNat)
  else .error (.undefined "shift count")

structure Pipeline where
  id : BitVec 32 := 0
  store : Store := {}
  queue : List Store := []

namespace Pipeline

/-! ## Loads -/

/-- `std::vector<bool> fullness(32)`. -/
abbrev Fullness := Nat → Bool

def mark (fullness : Fullness) (lo hi : BitVec 64) : Except Error Fullness :=
  if lo < hi ∧ hi.toNat > 32 then .error (.undefined "fullness[index]")
  else .ok fun i => fullness i || (decide (lo.toNat ≤ i) && decide (i < hi.toNat))

/-- One round of the loop of `searchData`: the three ways `it` can meet the load. -/
def searchStep (ld it : Store) (fullness : Fullness) :
    Except Error (Store × Fullness) :=
  if it.stop ≥ ld.addr ∧ it.stop ≤ ld.stop then
    if ld.addr ≥ it.addr then do
      let data ← memcpy ld.data 0 it.data (ld.addr - it.addr) (it.stop - ld.addr)
      let fullness ← mark fullness 0 (it.stop - ld.addr)
      return ({ ld with data := data }, fullness)
    else do
      let data ← memcpy ld.data (it.addr - ld.addr) it.data 0 it.size
      let fullness ← mark fullness (it.addr - ld.addr) (it.addr - ld.addr + it.size)
      return ({ ld with data := data }, fullness)
  else if it.addr ≥ ld.addr ∧ it.addr ≤ ld.stop then
    if ld.stop ≤ it.stop then do
      let data ← memcpy ld.data (it.addr - ld.addr) it.data 0 (ld.stop - it.addr)
      let fullness ← mark fullness (it.addr - ld.addr)
        (it.addr - ld.addr + ld.addr + ld.size - it.addr)
      return ({ ld with data := data }, fullness)
    else do
      let data ← memcpy ld.data (it.addr - ld.addr) it.data 0 it.size
      let fullness ← mark fullness (it.addr - ld.addr) (it.addr - ld.addr + it.size)
      return ({ ld with data := data }, fullness)
  else if ld.addr ≥ it.addr ∧ ld.stop ≤ it.stop then do
    let data ← memcpy ld.data 0 it.data (ld.addr - it.addr) ld.size
    return ({ ld with data := data }, fun _ => true)
  else .ok (ld, fullness)

def searchLoop : List Store → BitVec 32 → Store → Fullness →
    Except Error (Store × Fullness)
  | [], _, ld, fullness => .ok (ld, fullness)
  | it :: rest, id, ld, fullness =>
      if it.id < id then .error (.code 1)
      else do
        let (ld, fullness) ← searchStep ld it fullness
        searchLoop rest it.id ld fullness

/-- One bit, not one byte, for each index that no store has covered. -/
def mask (fullness : Fullness) : BitVec 32 :=
  (List.range 32).foldl
    (fun acc i => if fullness i then acc else acc + (1 <<< i)) 0

def searchData (env : Env) (clock : Nat) (memory : Memory) (pipeline : Pipeline)
    (instruction : Instruction) : Except Error (BitVec 32) :=
  if instruction.memAccType ≠ .read then .error (.runtime "Wrong access type")
  else do
    instruction.dynamicCast .i
    -- `queue.begin()->id`, also when there is no element to ask
    let id := (pipeline.queue.head?.map Store.id).getD env.undef.endId
    let ld : Store :=
      { addr := toAddress instruction.loadAddres
        size := toAddress instruction.loadSize }
    let (ld, fullness) ← searchLoop pipeline.queue id ld fun _ => false
    let dData ← memory.read (env.undef.dData clock) ld.addr.toNat ld.size.toNat
    return ld.data + (mask fullness &&& dData)

/-! ## Stores -/

inductive Merge where
  | replace (store : Store)
  | tooLarge
  | apart

def mergeStep (st it : Store) : Except Error Merge :=
  if it.stop ≥ st.addr ∧ it.stop ≤ st.stop then
    let addr := if it.addr < st.addr then it.addr else st.addr
    let size := st.stop - addr
    if size > 32 then .ok .tooLarge
    else if addr ≥ it.addr then do
      let shifted ← shiftRight st.data (addr - it.addr)
      let data ← memcpy shifted 0 it.data 0 (addr - it.addr)
      return .replace ⟨addr, size, data, it.id⟩
    else .ok (.replace ⟨addr, size, st.data, it.id⟩)
  else if it.addr ≥ st.addr ∧ it.addr ≤ st.stop then
    let addr := st.addr
    let size := (if it.stop < st.stop then st.stop else it.stop) - addr
    if size > 32 then .ok .tooLarge
    else if addr + size ≤ it.stop then do
      let shifted ← shiftRight it.data (it.addr - addr)
      let data ← memcpy shifted 0 st.data 0 size
      return .replace ⟨addr, size, data, it.id⟩
    else .ok (.replace ⟨addr, size, st.data, it.id⟩)
  else if st.addr ≥ it.addr ∧ st.stop ≤ it.stop then do
    -- `st` already has the range of `it` when its bytes are copied
    let data ← memcpy it.data (it.addr - it.addr) st.data 0 it.size
    return .replace ⟨it.addr, it.size, data, it.id⟩
  else .ok .apart

/-- The loop of `tryConcatenate`, over the queue from its back. -/
def concatLoop : List Store → BitVec 32 → Store → Bool →
    Except Error (Bool × List Store)
  | [], _, _, res => .ok (res, [])
  | it :: rest, id, st, res =>
      if it.id > id then .error (.runtime "Pipeline wrong id")
      else do
        match ← mergeStep st it with
        | .tooLarge => return (res, it :: rest)
        | .replace st => do
            let (res, rest) ← concatLoop rest it.id st true
            return (res, st :: rest)
        | .apart => do
            let (res, rest) ← concatLoop rest it.id st res
            return (res, it :: rest)

def tryConcatenate (env : Env) (pipeline : Pipeline) (st : Store) :
    Except Error (Bool × Pipeline) := do
  -- `queue.rbegin()->id`, also when there is no element to ask
  let id := (pipeline.queue.getLast?.map Store.id).getD env.undef.endId
  let (res, reversed) ← concatLoop pipeline.queue.reverse id st false
  return (res, { pipeline with queue := reversed.reverse })

def push (env : Env) (pipeline : Pipeline) (instruction : Instruction) :
    Except Error Pipeline :=
  if instruction.memAccType ≠ .write then .error (.runtime "Wrong access type")
  else do
    instruction.dynamicCast .s
    let id := pipeline.id + 1
    let store : Store :=
      { addr := toAddress instruction.storeAddres
        size := toAddress instruction.storeSize
        data := instruction.rs2.value
        id := id }
    let (merged, pipeline) ←
      tryConcatenate env { pipeline with id := id, store := store } store
    return if merged then { pipeline with store := Store.clear } else pipeline

/-- `push_back` the pending slot, write the front entry and drop it. -/
def update (memory : Memory) (pipeline : Pipeline) : Except Error (Memory × Pipeline) :=
  let queue := pipeline.queue ++ [pipeline.store]
  let front := queue.headD Store.clear
  let drained := { pipeline with queue := queue.tail, store := Store.clear }
  if front.size > 0 then do
    let memory ← memory.write (Word.byte front.data) front.addr.toNat front.size.toNat
    if front.size > 4 then .error (.undefined "memcpy outside a field")
    else return (memory, drained)
  else .ok (memory, drained)

end Pipeline

end RiscvPerfSim
