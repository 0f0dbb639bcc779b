/-
**Progress in runs.**

A system waits, and a measure says how many ticks that can last: no step makes it larger, and a tick makes it smaller
or ends the waiting. Then the waiting ends within that many ticks of the run, whatever else happens in between:
`Run.reaches`.
-/

import Kfs.Base.Trace

namespace Kfs

variable {σ α : Type} {step : σ → α → σ → Prop} {s t : σ} {labels : List α} {tick : α → Bool}

/-- A run passes through a good state, with at most `limit` ticks before it. -/
def PassesWithin (step : σ → α → σ → Prop) (tick : α → Bool) (Good : σ → Prop) (limit : Nat) (s : σ) (labels : List α)
    (t : σ) : Prop :=
  ∃ before after u, labels = before ++ after ∧ Run step s before u ∧ Run step u after t ∧ Good u ∧
    before.countP tick ≤ limit

/-- **A measure of waiting is a bound on waiting.** -/
theorem Run.reaches (Waits Good : σ → Prop) (left : σ → Nat) (run : Run step s labels t)
    (moves : ∀ x a y, a ∈ labels → Waits x → step x a y →
      Good y ∨ Waits y ∧ left y + (if tick a then 1 else 0) ≤ left x)
    (some' : ∀ x, Waits x → 0 < left x) (waits : Waits s) (enough : left s ≤ labels.countP tick) :
    PassesWithin step tick Good (left s) s labels t := by
  induction run with
  | nil s => exact absurd enough (Nat.not_le_of_gt (some' s waits))
  | @cons s u t a labels first rest ih =>
      have here := some' s waits
      rcases moves _ _ _ List.mem_cons_self waits first with good | ⟨still, less⟩
      · refine ⟨[a], labels, u, rfl, .cons first (.nil u), rest, good, ?_⟩
        rw [List.countP_singleton]
        split <;> omega
      · rw [List.countP_cons] at enough
        obtain ⟨before, after, v, split, there, later, good, few⟩ :=
          ih (fun x b y member => moves x b y (List.mem_cons_of_mem a member)) still (by omega)
        refine ⟨a :: before, after, v, by rw [split, List.cons_append], .cons first there, later, good, ?_⟩
        rw [List.countP_cons]
        omega

end Kfs
