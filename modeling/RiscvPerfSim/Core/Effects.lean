import RiscvPerfSim.Core.Drain
import RiscvPerfSim.Core.Safe
import RiscvPerfSim.Core.Sequential

/-!
# What memory access does

An instruction that lies in memory is served: memory takes what it stores, and
it takes what it loads, in the pipeline as in the sequential machine.
-/

namespace RiscvPerfSim

open Foundation

namespace Core

variable {env : Env} {memory : Memory} {clock : Nat} {instr loaded : Instruction}
  {word : BitVec 32}

theorem loadEffect_again (h : loadEffect env clock memory instr = .ok loaded) :
    loadEffect env clock memory loaded = .ok loaded := by
  unfold loadEffect at h
  split_ifs at h with hread
  · obtain ⟨data, hdata, h⟩ := ok_of_bind h
    obtain ⟨value, hvalue, h⟩ := ok_of_bind h
    have hwrites : instr.type.writesRd = true := by
      rw [hread.2]
      rfl
    rw [Instruction.setRdValue_eq value hwrites, Except.ok.injEq] at h
    have hagain : loadEffect env clock memory (instr.withRd value) =
        (memory.read (loadBuffer env clock) (toAddress instr.loadAddres).toNat
          (toAddress instr.loadSize).toNat >>= fun data =>
            PerfSim.extendLoaded instr data >>= (instr.withRd value).setRdValue) := if_pos hread
    rw [← h, hagain, hdata]
    change (PerfSim.extendLoaded instr data >>= _) = _
    rw [hvalue]
    exact Instruction.setRdValue_eq value hwrites
  · rw [← Except.ok.inj h, loadEffect, if_neg hread]

theorem loadEffect_pending (h : loadEffect env clock memory instr = .ok loaded) :
    loaded.pending = instr.pending := by
  have hacc := Instruction.memAccType_of_fixed (loadEffect_fixed h)
  by_cases hread : instr.memAccType = .read
  · have hnot : ¬ instr.memAccType = .write := by simp [hread]
    rw [Instruction.pending, Instruction.pending, if_neg fun hstore => hnot (hacc ▸ hstore.1),
      if_neg fun hstore => hnot hstore.1]
  · rw [loadEffect_of_ne hread, Except.ok.injEq] at h
    rw [h]

theorem loadEffect_target (hcarries : instr.Carries word)
    (h : loadEffect env clock memory instr = .ok loaded) : loaded.target = instr.target := by
  have hfixed := loadEffect_fixed h
  by_cases hread : instr.memAccType = .read
  · have hload : HazardUnit.isLoad instr = true := by
      simp [HazardUnit.isLoad, hread]
    rw [(hcarries.of_isLoad hload).2]
    refine (Instruction.Carries.of_isLoad (.of_fixed hfixed hcarries) ?_).2
    rw [Instruction.isLoad_of_fixed hfixed, hload]
  · rw [loadEffect_of_ne hread, Except.ok.injEq] at h
    rw [h]

end Core

theorem Instruction.InRange.fits {instr : Instruction} {word : BitVec 32} {memory : Memory}
    (h : instr.InRange memory) (hcarries : instr.Carries word) : instr.pending.Fits memory := by
  unfold Instruction.pending
  split_ifs with hstore
  · obtain ⟨-, hle⟩ := hcarries.asStore_size hstore.1 hstore.2
    exact ⟨hle, fun _ => h.store hstore.1⟩
  · exact Store.fits_clear memory

/-- The instruction takes one memory to another, and holds what it loads from the first. -/
structure Instruction.Serves (env : Env) (memory : Memory) (instr : Instruction)
    (memory' : Memory) : Prop where
  fits : instr.pending.Fits memory
  stores : memory' = instr.pending.drained memory
  loads : ∃ clock, Core.loadEffect env clock memory instr = .ok instr

namespace Core

variable {env : Env} {old : Instruction} {c : Core} {accessed : Accessed} {decoded : Decoded}
  {word : BitVec 32} {memory memory' : Memory}

theorem Stepped.inRange (hinv : c.Inv) (h : Stepped env old c accessed decoded word memory)
    {instr : Instruction} (hem : c.em = some ⟨instr, false⟩) : instr.InRange c.memory := by
  obtain ⟨w, hcarries⟩ := hinv.executed _ hem
  obtain ⟨pipeline, hdrain⟩ := h.drain
  rcases memStage_ok h.access with ⟨i, i', hem', -, hstore, hload⟩ | ⟨hidle, -⟩
  · rw [hem, Option.some.injEq, Slot.mk.injEq] at hem'
    rw [hem'.1] at hcarries ⊢
    exact inRange_of_effects hcarries hstore ⟨_, hload⟩ ⟨_, hdrain⟩
  · exact absurd hem (hidle instr)

theorem Stepped.serves (hinv : c.Inv) (h : Stepped env old c accessed decoded word memory)
    {instr : Instruction} (hmw : accessed.mw = some instr) :
    instr.Serves env c.memory memory := by
  rcases memStage_ok h.access with ⟨i, i', hem, hmw', hstore, hload⟩ | ⟨-, rfl⟩
  · obtain rfl : i' = instr := by
      rw [hmw'] at hmw
      exact Option.some.inj hmw
    obtain ⟨w, hcarries⟩ := hinv.executed _ hem
    obtain ⟨pipeline, hdrained⟩ := h.drain
    have hfits := (h.inRange hinv hem).fits hcarries
    obtain ⟨written, store, hstore', hdrain, hwritten⟩ := hcarries.storeEffect_fits env hfits
    rw [hstore, Except.ok.injEq, Prod.mk.injEq] at hstore'
    rw [← hstore'.1, ← hstore'.2, hdrained, Except.ok.injEq, Prod.mk.injEq] at hdrain
    have hpending := loadEffect_pending hload
    refine ⟨hpending ▸ hfits, hpending ▸ hdrain.1, c.clocks, ?_⟩
    by_cases hread : i.memAccType = .read
    · rw [storeEffect_of_ne (by simp [hread]), Except.ok.injEq, Prod.mk.injEq] at hstore
      rw [hstore.1]
      exact loadEffect_again hload
    · rw [loadEffect_of_ne hread, Except.ok.injEq] at hload
      rw [← hload]
      exact loadEffect_of_ne hread
  · cases hmw

theorem Stepped.memory_of_idle (h : Stepped env old c accessed decoded word memory)
    (hmw : accessed.mw = none) : memory = c.memory := by
  refine (h.moved.of_idle fun instr hem => ?_).1
  rcases memStage_ok h.access with ⟨i, i', -, hmw', -, -⟩ | ⟨hnone, -⟩
  · rw [hmw'] at hmw
    cases hmw
  · exact hnone instr hem

/-- Fetch finds the memory from before the store of its cycle or the one from behind it. -/
theorem Stepped.written (hinv : c.Inv) (h : Stepped env old c accessed decoded word memory) :
    accessed.memory = c.memory ∨ accessed.memory = memory := by
  rcases memStage_ok h.access with ⟨i, i', hem, hmw, hstore, hload⟩ | ⟨-, rfl⟩
  · obtain ⟨w, hcarries⟩ := hinv.executed _ hem
    obtain ⟨written, store, hstore', -, hwritten⟩ :=
      hcarries.storeEffect_fits env ((h.inRange hinv hem).fits hcarries)
    rw [hstore, Except.ok.injEq, Prod.mk.injEq] at hstore'
    have hserved := (h.serves hinv hmw).stores
    rw [loadEffect_pending hload] at hserved
    rw [hstore'.1, hserved]
    exact hwritten
  · exact .inl rfl

end Core

namespace Seq

variable {env : Env} {q : Seq}

theorem step_of_inRange (hnamed : q.rf.Named) (hpc : q.pc.toNat + 4 ≤ q.memory.size)
    (hrange : (q.executing env).InRange q.memory) : ∃ instr q', q.step env = .ok (instr, q') := by
  have hfetch := Memory.read_of_inRange 0 hpc
  have hread : q.memory.read 0 q.pc.toNat 4 = .ok q.word := by rw [word, hfetch]
  have hcarries : (q.executing env).Carries q.word := (decode_carries hnamed q.word).executed
  obtain ⟨accessed, store, hstore, -, haccessed⟩ :=
    hcarries.storeEffect_fits env.direct (hrange.fits hcarries)
  have hsize : q.memory.size = accessed.size := by
    rcases haccessed with rfl | rfl
    · rfl
    · rw [Store.size_drained]
  have hloads : ∃ instr, Core.loadEffect env.direct 0 accessed (q.executing env) = .ok instr := by
    cases hload : Core.loadEffect env.direct 0 accessed (q.executing env) with
    | ok instr => exact ⟨instr, rfl⟩
    | error e => exact absurd (hrange.of_size hsize) (Core.loadEffect_error hload).1
  obtain ⟨instr, hload⟩ := hloads
  have hretire := retire_eq q.rf (.of_fixed (Core.loadEffect_fixed hload) hcarries)
  have hexec : (q.decode q.word).execute env = .ok (q.executing env) :=
    (decode_carries hnamed q.word).execute_eq
  unfold step
  simp only [hread, hexec, hstore, hload, hretire, bind, Except.bind, pure, Except.pure]
  exact ⟨_, _, rfl⟩

end Seq

end RiscvPerfSim
