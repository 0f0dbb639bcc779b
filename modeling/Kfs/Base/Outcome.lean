/-
**Outcomes of kernel code, and its loops.**

A call returns, stops the machine with a message, or never returns. `Outcome` is the monad of the
three. Loops over linked structures are bounded by fuel and yield `diverge` when it runs out; counted
loops (`forLoop`) carry a state and may leave early with a value.
-/

import Mathlib.Tactic

namespace Kfs

/-- What a call does: return a value, stop the kernel with a message, or loop for ever. -/
inductive Outcome (α : Type) where
  | ok (value : α)
  | panic (message : String)
  | diverge
  deriving Repr, DecidableEq

namespace Outcome

variable {α β σ : Type}

/-- Sequence two calls. -/
protected def bind (first : Outcome α) (next : α → Outcome β) : Outcome β :=
  match first with
  | ok value => next value
  | panic message => panic message
  | diverge => diverge

instance : Monad Outcome where
  pure := ok
  bind := Outcome.bind

@[simp] theorem pure_eq (value : α) : (pure value : Outcome α) = ok value := rfl

@[simp] theorem ok_bind (value : α) (next : α → Outcome β) : (ok value >>= next) = next value := rfl

@[simp] theorem panic_bind (message : String) (next : α → Outcome β) :
    (panic message >>= next) = panic message := rfl

@[simp] theorem diverge_bind (next : α → Outcome β) :
    ((diverge : Outcome α) >>= next) = diverge := rfl

/-- **A sequence returns exactly when both parts do.** -/
theorem bind_eq_ok {first : Outcome α} {next : α → Outcome β} {result : β} :
    (first >>= next) = ok result ↔ ∃ value, first = ok value ∧ next value = ok result := by
  cases first with
  | ok value => simp
  | panic message => simp
  | diverge => simp

/-- The value of a call that returns. -/
def getD : Outcome α → α → α
  | ok value, _ => value
  | panic _, default => default
  | diverge, default => default

/-- The call returns. -/
def isOk : Outcome α → Bool
  | ok _ => true
  | panic _ => false
  | diverge => false

/-- The message a call stops with. -/
def message : Outcome α → Option String
  | ok _ => none
  | panic message => some message
  | diverge => none

theorem eq_panic {outcome : Outcome α} {text : String} (stops : outcome.message = some text) :
    outcome = panic text := by
  cases outcome with
  | ok value => cases stops
  | panic message =>
      cases stops
      rfl
  | diverge => cases stops

theorem eq_ok_getD {outcome : Outcome α} (returns : outcome.isOk = true) (default : α) :
    outcome = ok (outcome.getD default) := by
  cases outcome with
  | ok value => rfl
  | panic message => cases returns
  | diverge => cases returns

theorem eq_ok_getD_pair {β : Type} {outcome : Outcome (α × β)} {default : α × β} {b : β}
    (returns : outcome.isOk = true) (second : (outcome.getD default).2 = b) :
    outcome = ok ((outcome.getD default).1, b) := by
  rw [← second]
  exact eq_ok_getD returns default

end Outcome

/-- One round of a counted loop: go on with a new state, or leave the loop with a value. -/
inductive Round (σ β : Type) where
  | next (state : σ)
  | exit (value : β)
  deriving Repr, DecidableEq

/-- A round goes on with a state of one kind, or leaves with a value of another. -/
@[simp] def Round.Ends {σ β : Type} (Inv : σ → Prop) (Exit : β → Prop) : Round σ β → Prop
  | next state => Inv state
  | exit value => Exit value

/-- A round that leaves the loop with the value of an outcome. -/
def Outcome.leaves {σ β : Type} (outcome : Outcome β) : Outcome (Round σ β) := do
  let value ← outcome
  return .exit value

/-- `for (i = start; i < start + count; i++)` with an early exit. -/
def forLoop {σ β : Type} (body : Nat → σ → Outcome (Round σ β)) :
    (start count : Nat) → σ → Outcome (Round σ β)
  | _, 0, state => .ok (.next state)
  | start, count + 1, state => do
      match ← body start state with
      | .next later => forLoop body (start + 1) count later
      | .exit value => .ok (.exit value)

section Loop

variable {σ β : Type} {body : Nat → σ → Outcome (Round σ β)}

/-- **The invariant rule.** An invariant kept by every round holds when the loop ends, and every
early exit satisfies the exit condition. -/
theorem forLoop_inv {Inv : Nat → σ → Prop} {Exit : β → Prop} {start count : Nat} {state : σ}
    (here : Inv start state)
    (step : ∀ i s round, start ≤ i → i < start + count → Inv i s → body i s = .ok round →
      round.Ends (Inv (i + 1)) Exit) :
    ∀ {result}, forLoop body start count state = .ok result →
      result.Ends (Inv (start + count)) Exit := by
  induction count generalizing start state with
  | zero =>
      intro result done
      cases done
      exact here
  | succ count ih =>
      intro result done
      obtain ⟨round, first, rest⟩ := Outcome.bind_eq_ok.mp done
      have kept := step start state round le_rfl (by omega) here first
      cases round with
      | exit value =>
          cases rest
          exact kept
      | next later =>
          have := ih kept (fun i s r low high => step i s r (by omega) (by omega)) rest
          rwa [show start + (count + 1) = start + 1 + count by omega]

/-- **The progress rule.** When every round returns, goes on and keeps the invariant, the loop returns
with it. -/
theorem forLoop_next {Inv : Nat → σ → Prop} {start count : Nat} {state : σ} (here : Inv start state)
    (step : ∀ i s, start ≤ i → i < start + count → Inv i s →
      ∃ s', body i s = .ok (.next s') ∧ Inv (i + 1) s') :
    ∃ s', forLoop body start count state = .ok (.next s') ∧ Inv (start + count) s' := by
  induction count generalizing start state with
  | zero => exact ⟨state, rfl, here⟩
  | succ count ih =>
      obtain ⟨later, round, kept⟩ := step start state le_rfl (by omega) here
      obtain ⟨last, loop, final⟩ := ih kept fun i s low high => step i s (by omega) (by omega)
      refine ⟨last, ?_, ?_⟩
      · rw [forLoop, round]
        exact loop
      · rwa [show start + (count + 1) = start + 1 + count by omega]

/-- **The rule for a loop that may be left.** Every round goes on and keeps the invariant, or leaves with
the outcome of something else, which need not return; so does the loop. -/
theorem forLoop_leaves {Inv : Nat → σ → Prop} {Stop : Nat → Outcome β → Prop} {start count : Nat}
    {state : σ} (here : Inv start state)
    (step : ∀ i s, start ≤ i → i < start + count → Inv i s →
      (∃ s', body i s = .ok (.next s') ∧ Inv (i + 1) s') ∨
        ∃ last, body i s = last.leaves ∧ Stop i last) :
    (∃ s', forLoop body start count state = .ok (.next s') ∧ Inv (start + count) s') ∨
      ∃ i last, start ≤ i ∧ i < start + count ∧ forLoop body start count state = last.leaves ∧
        Stop i last := by
  induction count generalizing start state with
  | zero => exact .inl ⟨state, rfl, here⟩
  | succ count ih =>
      rcases step start state le_rfl (by omega) here with ⟨later, round, kept⟩ | ⟨last, round, stop⟩
      · rcases ih kept fun i s low high => step i s (by omega) (by omega) with
          ⟨s', loop, final⟩ | ⟨i, last, low, high, loop, stop⟩
        · refine .inl ⟨s', ?_, ?_⟩
          · rw [forLoop, round]
            exact loop
          · rwa [show start + (count + 1) = start + 1 + count by omega]
        · refine .inr ⟨i, last, by omega, by omega, ?_, stop⟩
          rw [forLoop, round]
          exact loop
      · refine .inr ⟨start, last, le_rfl, by omega, ?_, stop⟩
        rw [forLoop, round]
        cases last <;> rfl

/-- A loop whose rounds return whenever those of another do. -/
theorem forLoop_mono {body' : Nat → σ → Outcome (Round σ β)}
    (step : ∀ i s round, body i s = .ok round → body' i s = .ok round) {start count : Nat} {state : σ}
    {result : Round σ β} (done : forLoop body start count state = .ok result) :
    forLoop body' start count state = .ok result := by
  induction count generalizing start state with
  | zero => exact done
  | succ count ih =>
      obtain ⟨round, first, rest⟩ := Outcome.bind_eq_ok.mp done
      rw [forLoop, step start state round first, Outcome.ok_bind]
      cases round with
      | exit value => exact rest
      | next later => exact ih rest

/-- A loop that is left was left in some round. -/
theorem forLoop_left {start count : Nat} {state : σ}
    {value : β} (left : forLoop body start count state = .ok (.exit value)) :
    ∃ k < count, ∃ later, forLoop body start k state = .ok (.next later) ∧
      body (start + k) later = .ok (.exit value) := by
  induction count generalizing start state with
  | zero => cases left
  | succ count ih =>
      obtain ⟨round, here, rest⟩ := Outcome.bind_eq_ok.mp left
      cases round with
      | exit v =>
          cases rest
          exact ⟨0, Nat.succ_pos count, state, rfl, here⟩
      | next later =>
          obtain ⟨k, less, last, loop, out⟩ := ih rest
          refine ⟨k + 1, Nat.succ_lt_succ less, last, ?_, ?_⟩
          · rw [forLoop, here, Outcome.ok_bind]
            exact loop
          · rw [show start + (k + 1) = start + 1 + k by omega]
            exact out

/-- The rounds of a loop after its first ones. -/
theorem forLoop_add {a b start : Nat} {state later : σ}
    (first : forLoop body start a state = .ok (.next later)) :
    forLoop body start (a + b) state = forLoop body (start + a) b later := by
  induction a generalizing start state with
  | zero =>
      cases first
      rw [Nat.zero_add, Nat.add_zero]
  | succ a ih =>
      obtain ⟨round, here, rest⟩ := Outcome.bind_eq_ok.mp first
      cases round with
      | exit value => cases rest
      | next next =>
          rw [Nat.add_right_comm, forLoop, here, Outcome.ok_bind]
          simp only
          rw [ih rest, Nat.add_assoc, Nat.add_comm 1]

end Loop

end Kfs
