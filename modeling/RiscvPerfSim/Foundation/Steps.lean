import Mathlib.Logic.Basic

/-!
# Labelled steps

A relation between states whose steps carry labels, and the lists of labels
that lead from one state to another.  Lists grow at their end, as a log does.
-/

namespace RiscvPerfSim.Foundation

inductive Steps {σ α : Type} (step : σ → α → σ → Prop) (s : σ) : List α → σ → Prop
  | nil : Steps step s [] s
  | snoc {labels : List α} {label : α} {t u : σ} (before : Steps step s labels t)
      (last : step t label u) : Steps step s (labels ++ [label]) u

namespace Steps

variable {σ α : Type} {step : σ → α → σ → Prop} {s t u : σ} {labels : List α}

theorem optional (h : Steps step s labels t) {label : Option α}
    (hsome : ∀ a, label = some a → step t a u) (hnone : label = none → u = t) :
    Steps step s (labels ++ label.toList) u := by
  cases label with
  | none =>
      rw [hnone rfl, Option.toList_none, List.append_nil]
      exact h
  | some a => exact h.snoc (hsome a rfl)

theorem of_snoc {label : α} (h : Steps step s (labels ++ [label]) u) :
    ∃ t, Steps step s labels t ∧ step t label u := by
  generalize hall : labels ++ [label] = all at h
  cases h with
  | nil => simp at hall
  | snoc before last =>
      obtain ⟨rfl, hlabel⟩ := List.append_inj' hall rfl
      cases hlabel
      exact ⟨_, before, last⟩

theorem of_optional {label : Option α} (h : Steps step s (labels ++ label.toList) u) :
    ∃ t, Steps step s labels t := by
  cases label with
  | none =>
      rw [Option.toList_none, List.append_nil] at h
      exact ⟨u, h⟩
  | some a =>
      obtain ⟨t, hbefore, -⟩ := h.of_snoc
      exact ⟨t, hbefore⟩

end Steps

end RiscvPerfSim.Foundation
