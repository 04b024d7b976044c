import RiscvPerfSim.Core.Alike

/-!
# Sequential execution

One instruction at a time, each of them retired before the next one is fetched.
The machine is put together from the same pieces as the pipeline: the fields of
a word, the executors, the load and store rule without a queue and the write to
the register file.
-/

namespace RiscvPerfSim

open Foundation

/-! ## The machine -/

structure Seq where
  rf : RegFile
  memory : Memory
  pc : BitVec 32

namespace Seq

def boot (memory : Memory) (pc : BitVec 32) (values : RegName → BitVec 32) : Seq :=
  { rf := PerfSim.bootRegs values, memory := memory, pc := pc }

def decode (q : Seq) (word : BitVec 32) : Instruction :=
  { Decoder.fill {} word (q.rf.regs (Decoder.numRs1 word)) (q.rf.regs (Decoder.numRs2 word))
      (q.rf.regs (Decoder.numRd word)) with pc := q.pc }

def retire (rf : RegFile) (instr : Instruction) : Except Error RegFile :=
  if instr.type.writesRd then rf.write instr.rd else .ok rf

def step (env : Env) (q : Seq) : Except Error (Instruction × Seq) := do
  let word ← q.memory.read 0 q.pc.toNat 4
  let executed ← (q.decode word).execute env
  let (memory, _) ← Core.storeEffect env.direct q.memory executed
  let instr ← Core.loadEffect env.direct 0 memory executed
  let rf ← retire q.rf instr
  return (instr, { rf := rf, memory := memory, pc := executed.target.getD (q.pc + 4) })

def word (q : Seq) : BitVec 32 :=
  match q.memory.read 0 q.pc.toNat 4 with
  | .ok word => word
  | .error _ => 0

def executing (env : Env) (q : Seq) : Instruction := (q.decode q.word).executed env

end Seq

namespace Instruction

def Overwrites (instr : Instruction) (pc : BitVec 32) : Prop :=
  ∃ addr, pc.toNat ≤ addr ∧ addr < pc.toNat + 4 ∧ instr.pending.addr.toNat ≤ addr ∧
    addr < instr.pending.addr.toNat + instr.pending.size.toNat

theorem read_drained {instr : Instruction} (memory : Memory) {pc : BitVec 32}
    (h : ¬ instr.Overwrites pc) :
    (instr.pending.drained memory).read 0 pc.toNat 4 = memory.read 0 pc.toNat 4 := by
  unfold Store.drained
  split_ifs with hsize
  · have hpos : 0 < instr.pending.size.toNat := by bv_omega
    refine Memory.read_blit _ _ (by_contra fun hmeet => h ?_)
    -- the first byte that both have
    refine ⟨max pc.toNat instr.pending.addr.toNat, ?_, ?_, ?_, ?_⟩ <;> omega
  · rfl

/-- What `dumpInstruction` shows of a retired instruction: `pc`, and `rd` if there is one. -/
def outcome (instr : Instruction) : BitVec 32 × Option (BitVec 32) :=
  (instr.pc, if instr.type.writesRd then some instr.rd.value else none)

end Instruction

/--
A sequential run that retires `instr 0, …, instr n`, the last of them an `ECALL`
and the only one.  All its words are recognised, no access leaves memory, since
each step succeeds, and no store reaches a word that is fetched later.
-/
structure Execution (env : Env) (memory : Memory) (pc : BitVec 32) (values : RegName → BitVec 32)
    (q : Nat → Seq) (instr : Nat → Instruction) (n : Nat) : Prop where
  start : q 0 = Seq.boot memory pc values
  step : ∀ k ≤ n, (q k).step env = .ok (instr k, q (k + 1))
  recognised : ∀ k ≤ n, Decoder.Recognised (q k).word
  running : ∀ k < n, (instr k).name ≠ .ecall
  ends : (instr n).name = .ecall
  apart : ∀ i j, i < j → j ≤ n → ¬ (instr i).Overwrites (q j).pc

/-! ## One step -/

namespace Seq

variable {env : Env} {q q' : Seq} {instr : Instruction}

theorem decode_carries (h : q.rf.Named) (word : BitVec 32) : (q.decode word).Carries word :=
  (Decoder.fill_carries _ _ _ _ (h _)).setPc _

structure Stepped (env : Env) (q : Seq) (instr : Instruction) (q' : Seq) : Prop where
  fetch : q.memory.read 0 q.pc.toNat 4 = .ok q.word
  carries : (q.executing env).Carries q.word
  fits : (q.executing env).pending.Fits q.memory
  memory : q'.memory = (q.executing env).pending.drained q.memory
  load : Core.loadEffect env.direct 0 q'.memory (q.executing env) = .ok instr
  rf : q'.rf = q.rf.release instr
  pc : q'.pc = (q.executing env).target.getD (q.pc + 4)

theorem retire_eq (rf : RegFile) {word : BitVec 32} (h : instr.Carries word) :
    retire rf instr = .ok (rf.release instr) := by
  unfold retire RegFile.release
  split_ifs with hrd
  · apply RegFile.write_eq_put
    rw [h.rdName hrd]
    exact Decoder.numRd_lt word
  · rfl

theorem step_ok (hnamed : q.rf.Named) (h : q.step env = .ok (instr, q')) :
    Stepped env q instr q' := by
  unfold step at h
  obtain ⟨word, hfetch, h⟩ := ok_of_bind h
  obtain ⟨executed, hexecute, h⟩ := ok_of_bind h
  obtain ⟨⟨memory, store⟩, hstore, h⟩ := ok_of_bind h
  obtain ⟨loaded, hload, h⟩ := ok_of_bind h
  obtain ⟨rf, hrf, h⟩ := ok_of_bind h
  have hword : q.word = word := by rw [Seq.word, hfetch]
  have hcarries : (q.decode word).Carries word := decode_carries hnamed word
  rw [hcarries.execute_eq, Except.ok.injEq] at hexecute
  have hexecuting : q.executing env = executed := by rw [executing, hword, hexecute]
  have hcarries' : executed.Carries word := hexecute ▸ hcarries.executed
  obtain ⟨hfits, hmemory⟩ := hcarries'.storeEffect_direct hstore
  cases h
  constructor
  case fetch => rw [hword, hfetch]
  case carries => rw [hexecuting, hword]; exact hcarries'
  case fits => rw [hexecuting]; exact hfits
  case memory => rw [hexecuting]; exact hmemory
  case load => rw [hexecuting]; exact hload
  case rf =>
    rw [retire_eq q.rf (.of_fixed (Core.loadEffect_fixed hload) hcarries')] at hrf
    exact (Except.ok.inj hrf).symm
  case pc => rw [hexecuting]

namespace Stepped

variable (h : Stepped env q instr q')
include h

theorem fixed : instr.fixed = (q.executing env).fixed := Core.loadEffect_fixed h.load

theorem instr_carries : instr.Carries q.word := .of_fixed h.fixed h.carries

theorem named (hnamed : q.rf.Named) : q'.rf.Named := by
  rw [h.rf]
  exact hnamed.release instr

theorem regs (num : RegName) : (q'.rf.regs num).value =
    if instr.writes num ∧ num ≠ 0 then instr.rd.value else (q.rf.regs num).value := by
  rw [h.rf, RegFile.regs_release]
  split_ifs <;> rfl

theorem pending_eq : instr.pending = (q.executing env).pending := by
  have hacc := Instruction.memAccType_of_fixed h.fixed
  by_cases hstore : (q.executing env).memAccType = .write
  · have hload := h.load
    rw [Core.loadEffect_of_ne (by simp [hstore])] at hload
    cases hload
    rfl
  · unfold Instruction.pending
    rw [if_neg fun hwrite => hstore (hacc ▸ hwrite.1), if_neg fun hwrite => hstore hwrite.1]

theorem read_eq {pc : BitVec 32} (hapart : ¬ instr.Overwrites pc) :
    q'.memory.read 0 pc.toNat 4 = q.memory.read 0 pc.toNat 4 := by
  rw [h.memory, ← h.pending_eq]
  exact Instruction.read_drained q.memory hapart

end Stepped

end Seq

/-! ## Runs -/

namespace Execution

variable {env : Env} {memory : Memory} {pc : BitVec 32} {values : RegName → BitVec 32}
  {q : Nat → Seq} {instr : Nat → Instruction} {n j k : Nat} {num : RegName}
variable (h : Execution env memory pc values q instr n)
include h

theorem named (hk : k ≤ n + 1) : (q k).rf.Named := by
  induction k with
  | zero =>
      rw [h.start]
      exact fun num => rfl
  | succ k ih => exact (Seq.step_ok (ih (by omega)) (h.step k (by omega))).named (ih (by omega))

theorem stepped (hk : k ≤ n) : Seq.Stepped env (q k) (instr k) (q (k + 1)) :=
  Seq.step_ok (h.named (by omega)) (h.step k hk)

theorem zero (hk : k ≤ n + 1) : ((q k).rf.regs 0).value = 0 := by
  induction k with
  | zero =>
      rw [h.start]
      rfl
  | succ k ih =>
      have hle : k ≤ n := by omega
      simpa [(h.stepped hle).regs] using ih (by omega)

theorem size (hk : k ≤ n + 1) : (q k).memory.size = memory.size := by
  induction k with
  | zero =>
      rw [h.start]
      rfl
  | succ k ih =>
      have hle : k ≤ n := by omega
      rw [(h.stepped hle).memory, Store.size_drained]
      exact ih (by omega)

theorem regs_of_writes (hk : k ≤ n) (hwrites : (instr k).writes num = true) (hnum : num ≠ 0) :
    ((q (k + 1)).rf.regs num).value = (instr k).rd.value := by
  rw [(h.stepped hk).regs, if_pos ⟨hwrites, hnum⟩]

theorem regs_of_not_writes (hk : k ≤ n) (hwrites : (instr k).writes num = false) :
    ((q (k + 1)).rf.regs num).value = ((q k).rf.regs num).value := by
  rw [(h.stepped hk).regs, if_neg (by simp [hwrites])]

theorem read_later (hkj : k ≤ j) (hj : j ≤ n) :
    (q k).memory.read 0 (q j).pc.toNat 4 = .ok (q j).word := by
  induction hgap : j - k generalizing k with
  | zero =>
      obtain rfl : k = j := by omega
      exact (h.stepped hj).fetch
  | succ gap ih =>
      rw [← (h.stepped (by omega)).read_eq (h.apart k j (by omega) hj)]
      exact ih (by omega) (by omega)

theorem name_iff (hk : k ≤ n) : (instr k).name = .ecall ↔ k = n := by
  constructor
  · intro hname
    by_contra hne
    exact h.running k (by omega) hname
  · rintro rfl
    exact h.ends

end Execution

/-! ## Runs that are evaluated -/

instance (instr : Instruction) (pc : BitVec 32) : Decidable (instr.Overwrites pc) :=
  decidable_of_iff
    (max pc.toNat instr.pending.addr.toNat <
      min (pc.toNat + 4) (instr.pending.addr.toNat + instr.pending.size.toNat)) <| by
    constructor
    · intro h
      exact ⟨max pc.toNat instr.pending.addr.toNat, by omega, by omega, by omega, by omega⟩
    · rintro ⟨addr, h1, h2, h3, h4⟩
      omega

instance (word : BitVec 32) : Decidable (Decoder.Recognised word) :=
  inferInstanceAs (Decidable (_ ∨ _))

namespace Seq

variable {env : Env} {memory : Memory} {pc : BitVec 32} {values : RegName → BitVec 32} {n : Nat}

/-- The state after `k` instructions; where one raises the run stays. -/
def after (env : Env) (q : Seq) : Nat → Seq
  | 0 => q
  | k + 1 =>
      match (after env q k).step env with
      | .ok (_, q') => q'
      | .error _ => after env q k

def retired (env : Env) (q : Seq) (k : Nat) : Instruction :=
  match (q.after env k).step env with
  | .ok (instr, _) => instr
  | .error _ => {}

def runsAt (env : Env) (q : Seq) (n k : Nat) : Bool :=
  match (q.after env k).step env with
  | .ok (instr, _) =>
      decide (Decoder.Recognised (q.after env k).word) &&
        decide (instr.name = .ecall) == decide (k = n) &&
        (List.range k).all fun i => !decide ((q.retired env i).Overwrites (q.after env k).pc)
  | .error _ => false

theorem runsAt_spec {q : Seq} {k : Nat} (h : q.runsAt env n k = true) :
    (q.after env k).step env = .ok (q.retired env k, q.after env (k + 1)) ∧
      Decoder.Recognised (q.after env k).word ∧ ((q.retired env k).name = .ecall ↔ k = n) ∧
      ∀ i < k, ¬ (q.retired env i).Overwrites (q.after env k).pc := by
  unfold runsAt at h
  split at h
  · rename_i instr q' hstep
    have hretired : q.retired env k = instr := by rw [retired, hstep]
    have hafter : q.after env (k + 1) = q' := by rw [after, hstep]
    simp only [Bool.and_eq_true, decide_eq_true_eq, beq_iff_eq, decide_eq_decide,
      List.all_eq_true, List.mem_range, Bool.not_eq_true', decide_eq_false_iff_not] at h
    rw [hretired, hafter]
    exact ⟨hstep, h.1.1, h.1.2, h.2⟩
  · cases h

theorem execution (h : ∀ k ≤ n, (boot memory pc values).runsAt env n k = true) :
    Execution env memory pc values ((boot memory pc values).after env)
      ((boot memory pc values).retired env) n where
  start := rfl
  step := fun k hk => (runsAt_spec (h k hk)).1
  recognised := fun k hk => (runsAt_spec (h k hk)).2.1
  running := fun k hk hname => by
    have hn := (runsAt_spec (h k hk.le)).2.2.1.mp hname
    omega
  ends := (runsAt_spec (h n le_rfl)).2.2.1.mpr rfl
  apart := fun i j hij hj => (runsAt_spec (h j hj)).2.2.2 i hij

end Seq

end RiscvPerfSim
