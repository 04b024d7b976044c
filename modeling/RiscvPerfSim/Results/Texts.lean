import RiscvPerfSim.Results.Programs

/-!
# Texts that the pipeline runs as they stand

The discipline of a paced program, read off the text: a check of each
instruction and its two neighbours, which no value and no path enters into.
-/

namespace RiscvPerfSim

open Foundation

namespace Foundation.Rv32i

namespace Instr

def feeds (i next : Instr) : Bool := i.rd.any fun r => decide (r ≠ 0 ∧ next.Reads r)

def clobbers (i other : Instr) : Bool := i.rd.any fun r => decide (r ≠ 0 ∧ other.rd = some r)

variable {i : Instr} {h : Hart} {r : Reg} {size : Nat}

theorem jumps_of_taken (htaken : i.taken h = true) : i.jumps = true := by
  cases i <;> first | rfl | cases htaken

theorem pc_exec (htaken : i.taken h = false) : (i.exec h).pc = h.pc + 4 := by
  cases i with
  | jal | jalr => cases htaken
  | branch op rs1 rs2 offset =>
      have hnot : op.taken (h.get rs1) (h.get rs2) = false := htaken
      simp [exec, BranchOp.next, hnot]
  | upper | load | store | opImm | shift | reg | ecall => rfl

theorem get_exec (hrd : i.rd ≠ some r) : (i.exec h).get r = h.get r := by
  have hput (rd : Reg) (value : BitVec 32) (hne : some rd ≠ some r) :
      (h.put rd value).get r = h.get r := by
    have hne' : r ≠ rd := fun heq => hne (heq ▸ rfl)
    simp [Hart.get, Hart.put, hne']
  cases i with
  | branch | store | ecall => rfl
  | upper | jal | jalr | load | opImm | shift | reg => exact hput _ _ hrd

theorem word_exec (hsize : size ≤ 2 ^ 31) {pc : BitVec 32} (hpc : pc.toNat + 4 ≤ size)
    (hwithin : i.Within h size) (hspares : i.Spares h pc) : (i.exec h).word pc = h.word pc := by
  cases i with
  | store op rs1 rs2 imm =>
      refine (LoadOp.congr .lw fun k hk => if_neg ?_).1
      have hk : k < 4 := hk
      simp only [Within] at hwithin
      simp only [Spares] at hspares
      rw [BitVec.toNat_sub, BitVec.toNat_add, BitVec.toNat_ofNat]
      omega
  | upper | jal | jalr | branch | load | opImm | shift | reg | ecall => rfl

end Instr

/-- A list of instructions and its address.  What a load brings is not read by the instruction
behind it, the instruction behind a jump or a branch does not write what the one in front of the
jump does, and the last instruction is neither a jump nor a branch. -/
structure Text where
  base : BitVec 32
  instrs : List Instr
  loads : instrs.IsChain fun i next => i.access = .read → i.feeds next = false
  shadows : (instrs.zip instrs.tail).IsChain fun p p' =>
    p'.1.jumps = true → p.1.clobbers p'.2 = false
  closed : ∀ i ∈ instrs.getLast?, i.jumps = false

namespace Text

variable (text : Text)

def addr (j : Nat) : BitVec 32 := text.base + BitVec.ofNat 32 (4 * j)

/-- A program that stays in the text, and does not store to it; behind the text there is room for
the word that is fetched ahead. -/
structure Runs (size : Nat) (h : Nat → Hart) (i : Nat → Instr) (n : Nat) : Prop where
  loaded : ∀ j x, text.instrs[j]? = some x → (h 0).word (text.addr j) = x.encode
  room : text.base.toNat + 4 * text.instrs.length + 4 ≤ size
  inside : ∀ k ≤ n, ∃ j, text.instrs[j]? = some (i k) ∧ (h k).pc = text.addr j
  within : ∀ k ≤ n, (i k).Within (h k) size
  spares : ∀ k ≤ n, ∀ j < text.instrs.length, (i k).Spares (h k) (text.addr j)
  step : ∀ k ≤ n, h (k + 1) = (i k).exec (h k)

variable {text} {size n j k : Nat} {h : Nat → Hart} {i : Nat → Instr} {x y z : Instr}

theorem addr_succ : text.addr (j + 1) = text.addr j + 4 := by
  rw [addr, addr, Nat.mul_succ, BitVec.ofNat_add, ← BitVec.add_assoc]
  rfl

theorem not_feeds (hx : text.instrs[j]? = some x) (hy : text.instrs[j + 1]? = some y)
    (hread : x.access = .read) : x.feeds y = false := by
  obtain ⟨hj, rfl⟩ := List.getElem?_eq_some_iff.mp hx
  obtain ⟨hj', rfl⟩ := List.getElem?_eq_some_iff.mp hy
  exact List.isChain_iff_getElem.mp text.loads j hj' hread

theorem not_clobbers (hx : text.instrs[j]? = some x) (hy : text.instrs[j + 1]? = some y)
    (hz : text.instrs[j + 2]? = some z) (hjumps : y.jumps = true) : x.clobbers z = false := by
  obtain ⟨hj, rfl⟩ := List.getElem?_eq_some_iff.mp hx
  obtain ⟨hj', rfl⟩ := List.getElem?_eq_some_iff.mp hy
  obtain ⟨hj'', rfl⟩ := List.getElem?_eq_some_iff.mp hz
  have hlength : j + 1 < (text.instrs.zip text.instrs.tail).length := by
    rw [List.length_zip, List.length_tail]
    omega
  have hshadow := List.isChain_iff_getElem.mp text.shadows j hlength
  simp only [List.getElem_zip, List.getElem_tail] at hshadow
  exact hshadow hjumps

theorem lt_of_jumps (hx : text.instrs[j]? = some x) (hjumps : x.jumps = true) :
    j + 1 < text.instrs.length := by
  obtain ⟨hj, rfl⟩ := List.getElem?_eq_some_iff.mp hx
  refine lt_of_le_of_ne hj fun hlast => ?_
  have hclosed := text.closed text.instrs[j] (by
    rw [List.getLast?_eq_getElem?, ← hlast]
    exact List.getElem?_eq_getElem hj)
  rw [hjumps] at hclosed
  cases hclosed

namespace Runs

variable (hsize : size ≤ 2 ^ 31) (hrun : text.Runs size h i n)
include hsize hrun

theorem toNat_addr (hj : j ≤ text.instrs.length) :
    (text.addr j).toNat = text.base.toNat + 4 * j := by
  have hroom := hrun.room
  rw [addr, BitVec.toNat_add, BitVec.toNat_ofNat]
  omega

theorem word_addr (hk : k ≤ n + 1) (hx : text.instrs[j]? = some x) :
    (h k).word (text.addr j) = x.encode := by
  obtain ⟨hj, -⟩ := List.getElem?_eq_some_iff.mp hx
  induction k with
  | zero => exact hrun.loaded j x hx
  | succ k ih =>
      have hle : k ≤ n := Nat.le_of_succ_le_succ hk
      have haddr := hrun.toNat_addr hsize hj.le
      have hroom := hrun.room
      rw [hrun.step k hle, Instr.word_exec hsize (by omega) (hrun.within k hle)
        (hrun.spares k hle j hj)]
      exact ih (by omega)

theorem next (hk : k < n) (htaken : (i k).taken (h k) = false) : ∃ j,
    text.instrs[j]? = some (i k) ∧ text.instrs[j + 1]? = some (i (k + 1)) ∧
      (h (k + 1)).pc = text.addr (j + 1) := by
  obtain ⟨j, hx, hpc⟩ := hrun.inside k hk.le
  obtain ⟨j', hy, hpc'⟩ := hrun.inside (k + 1) hk
  have hnext : (h (k + 1)).pc = text.addr (j + 1) := by
    rw [hrun.step k hk.le, Instr.pc_exec htaken, hpc, addr_succ]
  obtain ⟨hj, -⟩ := List.getElem?_eq_some_iff.mp hx
  obtain ⟨hj', -⟩ := List.getElem?_eq_some_iff.mp hy
  have hsame : j' = j + 1 := by
    have haddr := congrArg BitVec.toNat (hpc'.symm.trans hnext)
    rw [hrun.toNat_addr hsize hj'.le, hrun.toNat_addr hsize hj] at haddr
    omega
  exact ⟨j, hx, hsame ▸ hy, hnext⟩

theorem runs : Hart.Runs size h i n := by
  have hroom := hrun.room
  refine ⟨fun k hk => ?_, fun k hk => ?_, hrun.within, hrun.step, fun k hk j hj => ?_⟩
  all_goals obtain ⟨j', hx, hpc⟩ := hrun.inside k hk
  all_goals obtain ⟨hj', -⟩ := List.getElem?_eq_some_iff.mp hx
  · rw [hpc, hrun.toNat_addr hsize hj'.le]
    omega
  · rw [hpc]
    exact hrun.word_addr hsize (Nat.le_succ_of_le hk) hx
  · rw [hpc]
    exact hrun.spares j (by omega) j' hj'

theorem paced : Hart.Paced size h i n := by
  have hroom := hrun.room
  constructor
  case loads =>
    intro k hk hread r hr hrd hreads
    have htaken : (i k).taken (h k) = false := by
      cases hi : i k <;> rw [hi] at hread <;> first | rfl | cases hread
    obtain ⟨j, hx, hy, -⟩ := hrun.next hsize hk htaken
    have hfeeds := not_feeds hx hy hread
    rw [Instr.feeds, hrd, Option.any_some, decide_eq_false_iff_not] at hfeeds
    exact hfeeds ⟨hr, hreads⟩
  case shadows =>
    intro k hk htaken hjump r hr hwrites
    obtain ⟨j, hx, hy, hpc⟩ := hrun.next hsize hk htaken
    have hjumps := Instr.jumps_of_taken hjump
    have hz := List.getElem?_eq_getElem (lt_of_jumps hy hjumps)
    rw [hpc, ← addr_succ, hrun.loaded _ _ hz] at hwrites
    obtain ⟨r', hrd, hsame⟩ := writes_encode hwrites
    obtain rfl : r' = r := BitVec.eq_of_toNat_eq hsame
    have hclobbers := not_clobbers hx hy hz hjumps
    rw [hrun.step k hk.le]
    refine Instr.get_exec fun hrd' => ?_
    rw [Instr.clobbers, hrd', Option.any_some, decide_eq_false_iff_not] at hclobbers
    exact hclobbers ⟨hr, hrd⟩
  case spares =>
    intro k hk hjump j hj
    obtain ⟨j', hx, hpc⟩ := hrun.inside k hk
    rw [hpc, ← addr_succ]
    exact hrun.spares j hj (j' + 1) (lt_of_jumps hx (Instr.jumps_of_taken hjump))
  case next =>
    intro k hk
    obtain ⟨j, hx, hpc⟩ := hrun.inside k hk
    obtain ⟨hj, -⟩ := List.getElem?_eq_some_iff.mp hx
    rw [hpc, ← addr_succ, hrun.toNat_addr hsize hj]
    omega
  case beyond =>
    intro k hk hjump
    obtain ⟨j, hx, hpc⟩ := hrun.inside k hk
    have hj := lt_of_jumps hx (Instr.jumps_of_taken hjump)
    rw [hpc, ← addr_succ, ← addr_succ, hrun.toNat_addr hsize hj]
    omega

end Runs

end Text

end Foundation.Rv32i

namespace PerfSim

variable {memory : Memory} {pc : BitVec 32} {values : RegName → BitVec 32}
  {h : Nat → Rv32i.Hart} {i : Nat → Rv32i.Instr} {n : Nat}

/-- A text that passes the check is run as the hart runs it, on whatever data, where the executors
are right. -/
theorem finishes_of_text (text : Rv32i.Text) (hsize : memory.size ≤ 2 ^ 31)
    (hrun : text.Runs memory.size h i n) (hfaithful : ∀ k ≤ n, (i k).Faithful (h k))
    (hends : ∀ k ≤ n, (i k = .ecall ↔ k = n)) (hstart : (Seq.boot memory pc values).hart = h 0)
    (env : Env) :
    ∃ m s, (loop env).run m (boot memory pc values) = some (.ok s) ∧ s.Finishes h i n :=
  ends_as_hart hsize (hrun.runs hsize) hfaithful hends (hrun.paced hsize) hstart env

def countdownText : Rv32i.Text where
  base := 0
  instrs := [.opImm .addi 1 0 2, .store .sw 0 1 40, .load .lw 2 0 40, .opImm .addi 1 1 0xfff,
    .branch .bne 1 0 0xffa, .ecall]
  loads := by decide
  shadows := by decide
  closed := by decide

theorem finishes_of_text_countdown : ∃ m s,
    (loop .plain).run m (boot countdownMemory 0 fun _ => 0) = some (.ok s) ∧
      s.Finishes
        ((Seq.boot countdownMemory 0 fun _ => 0).hart.after fun k => countdown.getD k .ecall)
        (fun k => countdown.getD k .ecall) 9 := by
  let h := (Seq.boot countdownMemory 0 fun _ => 0).hart
  let i := fun k => countdown.getD k .ecall
  have hloaded : ∀ j < 6, (h.after i 0).word (countdownText.addr j) =
      (countdownText.instrs.getD j .ecall).encode := by decide +kernel
  have hinside : ∀ k ≤ 9, ∃ j < 6, countdownText.instrs[j]? = some (i k) ∧
      (h.after i k).pc = countdownText.addr j := by decide +kernel
  have hrun : countdownText.Runs countdownMemory.size (h.after i) i 9 := by
    refine ⟨fun j x hx => ?_, by decide, fun k hk => ?_, by decide +kernel, by decide +kernel,
      fun _ _ => rfl⟩
    · obtain ⟨hj, rfl⟩ := List.getElem?_eq_some_iff.mp hx
      rw [hloaded j hj, List.getD_eq_getElem?_getD, List.getElem?_eq_getElem hj, Option.getD_some]
    · obtain ⟨j, -, hj⟩ := hinside k hk
      exact ⟨j, hj⟩
  exact finishes_of_text countdownText (by decide) hrun faithful_countdown (by decide +kernel) rfl
    .plain

end PerfSim

end RiscvPerfSim
