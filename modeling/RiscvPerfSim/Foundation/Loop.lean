import Mathlib.Logic.Basic

/-!
# Guarded loops whose body may raise

A program of the shape `while (!halted) step` over an arbitrary state, whose
body either yields the next state or raises.  The file has the completed
rounds of such a loop, the rules that carry an invariant along them, and the
comparison of two computations that may both raise.
-/

namespace RiscvPerfSim.Foundation

structure Loop (σ ε : Type) where
  halted : σ → Bool
  step : σ → Except ε σ

namespace Loop

variable {σ ε : Type} {L : Loop σ ε} {G P Q : σ → Prop} {s s' s'' : σ} {m n : Nat}

/-- `n` completed rounds, each left from a state that meets the guard `G`. -/
inductive Rounds (L : Loop σ ε) (G : σ → Prop) : Nat → σ → σ → Prop
  | refl (s : σ) : Rounds L G 0 s s
  | next {n : Nat} {s s' s'' : σ} (hrun : L.halted s = false) (hguard : G s)
      (hstep : L.step s = .ok s') (rest : Rounds L G n s' s'') :
      Rounds L G (n + 1) s s''

def Reaches (L : Loop σ ε) (G : σ → Prop) (s s' : σ) : Prop :=
  ∃ n, L.Rounds G n s s'

/-- The loop with a bound on its rounds; `none` means that the bound was reached. -/
def run (L : Loop σ ε) : Nat → σ → Option (Except ε σ)
  | 0, s => if L.halted s then some (.ok s) else none
  | fuel + 1, s =>
      if L.halted s then some (.ok s)
      else match L.step s with
        | .error e => some (.error e)
        | .ok s' => L.run fuel s'

namespace Rounds

theorem trans (first : L.Rounds G m s s') (second : L.Rounds G n s' s'') :
    L.Rounds G (m + n) s s'' := by
  induction first with
  | refl s => simpa using second
  | next hrun hguard hstep rest ih =>
      rw [Nat.add_right_comm]
      exact .next hrun hguard hstep (ih second)

theorem single (hrun : L.halted s = false) (hguard : G s) (hstep : L.step s = .ok s') :
    L.Rounds G 1 s s' :=
  .next hrun hguard hstep (.refl s')

theorem snoc (rounds : L.Rounds G n s s') (hrun : L.halted s' = false)
    (hguard : G s') (hstep : L.step s' = .ok s'') : L.Rounds G (n + 1) s s'' :=
  rounds.trans (single hrun hguard hstep)

theorem invariant
    (hpres : ∀ s s', P s → L.halted s = false → G s → L.step s = .ok s' → P s')
    (hstart : P s) (rounds : L.Rounds G n s s') : P s' := by
  induction rounds with
  | refl s => exact hstart
  | next hrun hguard hstep rest ih => exact ih (hpres _ _ hstart hrun hguard hstep)

theorem last (rounds : L.Rounds G n s s') : s' = s ∨
    ∃ m t, L.Rounds G m s t ∧ L.halted t = false ∧ G t ∧ L.step t = .ok s' := by
  induction rounds with
  | refl s => exact .inl rfl
  | next hrun hguard hstep rest ih =>
      right
      rcases ih with rfl | ⟨m, t, before, hhalt, ht, hlast⟩
      · exact ⟨0, _, .refl _, hrun, hguard, hstep⟩
      · exact ⟨m + 1, t, .next hrun hguard hstep before, hhalt, ht, hlast⟩

end Rounds

namespace Reaches

theorem refl (s : σ) : L.Reaches G s s := ⟨0, .refl s⟩

theorem snoc (h : L.Reaches G s s') (hrun : L.halted s' = false) (hguard : G s')
    (hstep : L.step s' = .ok s'') : L.Reaches G s s'' := by
  obtain ⟨n, rounds⟩ := h
  exact ⟨n + 1, rounds.snoc hrun hguard hstep⟩

theorem invariant
    (hpres : ∀ s s', P s → L.halted s = false → G s → L.step s = .ok s' → P s')
    (hstart : P s) (h : L.Reaches G s s') : P s' := by
  obtain ⟨n, rounds⟩ := h
  exact rounds.invariant hpres hstart

end Reaches

end Loop

/-! ## Two computations that may raise -/

theorem ok_of_bind {ε α β : Type} {x : Except ε α} {f : α → Except ε β} {b : β}
    (h : x >>= f = .ok b) : ∃ a, x = .ok a ∧ f a = .ok b := by
  cases x with
  | error e => cases h
  | ok a => exact ⟨a, rfl, h⟩

theorem ok_of_map {ε α β : Type} {x : Except ε α} {f : α → β} {b : β}
    (h : x.map f = .ok b) : ∃ a, x = .ok a ∧ f a = b := by
  cases x with
  | error e => cases h
  | ok a => exact ⟨a, rfl, Except.ok.inj h⟩

theorem error_of_bind {ε α β : Type} {x : Except ε α} {f : α → Except ε β} {e : ε}
    (h : x >>= f = .error e) : x = .error e ∨ ∃ a, x = .ok a ∧ f a = .error e := by
  cases x with
  | error e' =>
      cases h
      exact .inl rfl
  | ok a => exact .inr ⟨a, rfl, h⟩

theorem bind_eq_of_ok {ε α β : Type} {x : Except ε α} {f g : α → Except ε β}
    (h : ∀ a, x = .ok a → f a = g a) : x >>= f = x >>= g := by
  cases x with
  | error e => rfl
  | ok a => exact h a rfl

/-- Both raise the same exception, or both yield related values. -/
def Agree {ε α β : Type} (R : α → β → Prop) : Except ε α → Except ε β → Prop
  | .ok a, .ok b => R a b
  | .error e, .error e' => e = e'
  | _, _ => False

namespace Agree

variable {ε α β γ δ : Type} {R : α → β → Prop} {S : γ → δ → Prop}
  {x : Except ε α} {y : Except ε β}

theorem bind_of_eq {f : α → Except ε γ} {g : β → Except ε δ} (h : Agree R x y)
    (hcont : ∀ a b, y = .ok b → R a b → Agree S (f a) (g b)) :
    Agree S (x >>= f) (y >>= g) := by
  cases x with
  | error e =>
      cases y with
      | error e' => exact h
      | ok b => exact h.elim
  | ok a =>
      cases y with
      | error e' => exact h.elim
      | ok b => exact hcont a b rfl h

theorem bind {f : α → Except ε γ} {g : β → Except ε δ} (h : Agree R x y)
    (hcont : ∀ a b, R a b → Agree S (f a) (g b)) : Agree S (x >>= f) (y >>= g) :=
  h.bind_of_eq fun a b _ => hcont a b

/-- A continuation on the left that never raises only changes how the results compare. -/
theorem then_ok {S : γ → β → Prop} {f : α → Except ε γ} (h : Agree R x y)
    (hcont : ∀ a b, R a b → ∃ c, f a = .ok c ∧ S c b) : Agree S (x >>= f) y := by
  cases x with
  | error e => cases y <;> exact h
  | ok a =>
      cases y with
      | error e' => exact h.elim
      | ok b =>
          obtain ⟨c, hc, hS⟩ := hcont a b h
          change Agree S (f a) (.ok b)
          rw [hc]
          exact hS

theorem ite {p : Prop} [Decidable p] {x' : Except ε α} {y' : Except ε β}
    (hpos : p → Agree R x y) (hneg : ¬ p → Agree R x' y') :
    Agree R (if p then x else x') (if p then y else y') := by
  split
  · exact hpos ‹_›
  · exact hneg ‹_›

theorem trans {z : Except ε γ} {S : β → γ → Prop} (h : Agree R x y) (h' : Agree S y z) :
    Agree (fun a c => ∃ b, R a b ∧ S b c) x z := by
  cases y with
  | error e =>
      cases x with
      | error e' =>
          rw [show e' = e from h]
          cases z <;> exact h'
      | ok a => exact h.elim
  | ok b =>
      cases x with
      | error e' => exact h.elim
      | ok a =>
          cases z with
          | error e => exact h'.elim
          | ok c => exact ⟨b, h, h'⟩

theorem symm (h : Agree R x y) : Agree (fun b a => R a b) y x := by
  cases x <;> cases y <;> first | exact h | exact Eq.symm h

theorem mono {S : α → β → Prop} (h : Agree R x y) (himp : ∀ a b, R a b → S a b) :
    Agree S x y := by
  cases x with
  | error e => cases y <;> exact h
  | ok a =>
      cases y with
      | error e => exact h.elim
      | ok b => exact himp a b h

theorem refl (x : Except ε α) : Agree Eq x x := by
  cases x <;> exact rfl

theorem ok {a : α} {b : β} (h : R a b) :
    Agree (ε := ε) R (.ok a) (.ok b) := h

theorem of_ok {a : α} (h : Agree R x y) (hx : x = .ok a) : ∃ b, y = .ok b ∧ R a b := by
  subst hx
  cases y with
  | error e => exact h.elim
  | ok b => exact ⟨b, rfl, h⟩

theorem of_ok_right {b : β} (h : Agree R x y) (hy : y = .ok b) : ∃ a, x = .ok a ∧ R a b := by
  subst hy
  cases x with
  | error e => exact h.elim
  | ok a => exact ⟨a, rfl, h⟩

theorem of_error {e : ε} (h : Agree R x y) (hx : x = .error e) : y = .error e := by
  subst hx
  cases y with
  | error e' => exact congrArg _ (Eq.symm h)
  | ok b => exact h.elim

end Agree

end RiscvPerfSim.Foundation
