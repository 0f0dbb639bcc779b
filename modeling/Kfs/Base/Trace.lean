/-
**Runs of a labelled transition system.**

`Run step s labels t`: the labelled steps lead from `s` to `t`. Two rules carry every argument about
whole runs: `Run.invariant` (what each step keeps holds at the end) and `Run.induction` (the same with
the label list in hand). A run whose steps all satisfy a condition is a run of the restricted relation
`Guarded`; `Run.good_iff` is about conditions that decide whether a step leads to a good state.
`Run.simulate` follows a run in another system, step by step, from a related state.
`runAll` computes a run of an executable system.
-/

import Kfs.Base.Outcome

namespace Kfs

variable {σ α : Type}

/-- A finite run, with its labels in order. -/
inductive Run (step : σ → α → σ → Prop) : σ → List α → σ → Prop
  | nil (s : σ) : Run step s [] s
  | cons {s t u : σ} {a : α} {labels : List α} :
      step s a t → Run step t labels u → Run step s (a :: labels) u

/-- The steps that meet a condition on the state before and the label. -/
def Guarded (cond : σ → α → Prop) (step : σ → α → σ → Prop) (s : σ) (a : α) (t : σ) : Prop :=
  cond s a ∧ step s a t

namespace Run

variable {step : σ → α → σ → Prop} {s t u : σ} {labels more : List α}

/-- **What every step keeps, every run keeps.** -/
theorem invariant (run : Run step s labels t) (Inv : σ → Prop)
    (keep : ∀ x a y, Inv x → step x a y → Inv y) (here : Inv s) : Inv t := by
  induction run with
  | nil s => exact here
  | cons first _ ih => exact ih (keep _ _ _ here first)

/-- A relation to the first state that every step extends holds at the end. Steps may be assumed to
carry a label of the run. -/
theorem induction (run : Run step s labels t) (Inv : σ → Prop)
    (keep : ∀ x a y, a ∈ labels → Inv x → step x a y → Inv y) (here : Inv s) : Inv t := by
  induction run with
  | nil s => exact here
  | cons first _ ih =>
      exact ih (fun x a y member => keep x a y (List.mem_cons_of_mem _ member))
        (keep _ _ _ List.mem_cons_self here first)

theorem append (first : Run step s labels t) (second : Run step t more u) :
    Run step s (labels ++ more) u := by
  induction first with
  | nil s => exact second
  | cons here _ ih => exact .cons here (ih second)

theorem mono {step' : σ → α → σ → Prop} (run : Run step s labels t)
    (weaker : ∀ x a y, step x a y → step' x a y) : Run step' s labels t := by
  induction run with
  | nil s => exact .nil s
  | cons here _ ih => exact .cons (weaker _ _ _ here) ih

/-- **A relation that answers every step answers every run.** -/
theorem simulate {τ : Type} {s' : τ} (run : Run step s labels t) (step' : τ → α → τ → Prop)
    (R : σ → τ → Prop)
    (answer : ∀ x x' a y, R x x' → step x a y → ∃ y', step' x' a y' ∧ R y y') (here : R s s') :
    ∃ t', Run step' s' labels t' ∧ R t t' := by
  induction run generalizing s' with
  | nil s => exact ⟨s', .nil s', here⟩
  | cons first _ ih =>
      obtain ⟨next, step, related⟩ := answer _ _ _ _ here first
      obtain ⟨last, rest, final⟩ := ih related
      exact ⟨last, .cons step rest, final⟩

/-- **Runs through good states.** Where a step from a good state leads to a good one exactly when it meets a
condition, the runs through good states are the runs of steps that meet it. -/
theorem good_iff {cond : σ → α → Prop} (Inv Good : σ → Prop)
    (keep : ∀ x a y, Inv x → Good x → step x a y → Inv y)
    (decides : ∀ x a y, Inv x → Good x → step x a y → (Good y ↔ cond x a)) (here : Inv s) (good : Good s) :
    Run (fun x a y => step x a y ∧ Good y) s labels t ↔ Run (Guarded cond step) s labels t := by
  constructor
  · intro run
    induction run with
    | nil s => exact .nil s
    | cons first _ ih =>
        obtain ⟨steps, good'⟩ := first
        exact .cons ⟨(decides _ _ _ here good steps).mp good', steps⟩ (ih (keep _ _ _ here good steps) good')
  · intro run
    induction run with
    | nil s => exact .nil s
    | cons first _ ih =>
        obtain ⟨meets, steps⟩ := first
        have good' := (decides _ _ _ here good steps).mpr meets
        exact .cons ⟨steps, good'⟩ (ih (keep _ _ _ here good steps) good')

end Run

/-! ### Executable systems -/

/-- Make the calls one after the other. -/
def runAll (exec : σ → α → Outcome σ) : σ → List α → Outcome σ
  | s, [] => .ok s
  | s, a :: labels => do
      let t ← exec s a
      runAll exec t labels

/-- A call is made only when it meets the condition. -/
def guardedExec (cond : σ → α → Prop) [∀ s a, Decidable (cond s a)] (exec : σ → α → Outcome σ) (s : σ)
    (a : α) : Outcome σ :=
  if cond s a then exec s a else .diverge

variable {exec : σ → α → Outcome σ} {s t : σ} {labels : List α}

theorem Run.of_runAll (done : runAll exec s labels = .ok t) :
    Run (fun s a t => exec s a = .ok t) s labels t := by
  induction labels generalizing s with
  | nil =>
      cases done
      exact .nil _
  | cons a labels ih =>
      obtain ⟨u, first, rest⟩ := Outcome.bind_eq_ok.mp done
      exact .cons first (ih rest)

theorem Run.of_guardedExec {cond : σ → α → Prop} [∀ s a, Decidable (cond s a)]
    (done : runAll (guardedExec cond exec) s labels = .ok t) :
    Run (Guarded cond fun s a t => exec s a = .ok t) s labels t := by
  refine (Run.of_runAll done).mono fun x a y step => ?_
  unfold guardedExec at step
  split at step
  · rename_i holds
    exact ⟨holds, step⟩
  · cases step

end Kfs
