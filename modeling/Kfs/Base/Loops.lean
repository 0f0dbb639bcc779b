/-
**Counted loops.**

`forTo body n s` is `for (i = 0; i < n; i++) body(i)` on a state. A loop of loops over rows and columns is
one loop over the cells (`forTo_mul`), loops with the same bodies do the same (`forTo_congr`), and what
every round carries on holds at the end (`forTo_invariant`).
-/

import Mathlib.Data.Nat.Basic

namespace Kfs

variable {σ : Type}

/-- `for (i = 0; i < n; i++)`. -/
def forTo (body : Nat → σ → σ) : Nat → σ → σ
  | 0, s => s
  | n + 1, s => body n (forTo body n s)

@[simp] theorem forTo_zero (body : Nat → σ → σ) (s : σ) : forTo body 0 s = s := rfl

theorem forTo_succ (body : Nat → σ → σ) (n : Nat) (s : σ) :
    forTo body (n + 1) s = body n (forTo body n s) := rfl

/-- **What every round carries on holds at the end.** -/
theorem forTo_invariant {body : Nat → σ → σ} {n : Nat} (Inv : Nat → σ → Prop)
    (keep : ∀ i s, i < n → Inv i s → Inv (i + 1) (body i s)) {s : σ} (here : Inv 0 s) :
    Inv n (forTo body n s) := by
  induction n with
  | zero => exact here
  | succ n ih => exact keep n _ n.lt_succ_self (ih fun i s inside => keep i s (Nat.lt_succ_of_lt inside))

theorem forTo_congr {body body' : Nat → σ → σ} {n : Nat} (same : ∀ i s, i < n → body i s = body' i s)
    (s : σ) : forTo body n s = forTo body' n s := by
  induction n with
  | zero => rfl
  | succ n ih =>
      rw [forTo_succ, forTo_succ, ih fun i s inside => same i s (Nat.lt_succ_of_lt inside),
        same n _ n.lt_succ_self]

theorem forTo_add (body : Nat → σ → σ) (m n : Nat) (s : σ) :
    forTo body (m + n) s = forTo (fun i => body (m + i)) n (forTo body m s) := by
  induction n with
  | zero => rfl
  | succ n ih => rw [← Nat.add_assoc, forTo_succ, forTo_succ, ih]

/-- **Rows and columns**: a loop over rows of a loop over columns is a loop over the cells. -/
theorem forTo_mul (body : Nat → σ → σ) (m n : Nat) (s : σ) :
    forTo (fun y => forTo (fun x => body (y * n + x)) n) m s = forTo body (m * n) s := by
  induction m with
  | zero => rw [Nat.zero_mul, forTo_zero, forTo_zero]
  | succ m ih => rw [forTo_succ, ih, Nat.succ_mul, forTo_add]

end Kfs
