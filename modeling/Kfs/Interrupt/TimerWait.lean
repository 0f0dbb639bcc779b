/-
**`timer_wait`: `timer.c`.**

`timer_wait` reads `timer_ticks`, adds the number of ticks to wait for, and halts until the counter is not
below the sum. Both wrap at `2 ^ 32`, and the comparison is between plain numbers: a deadline that wraps is
below the counter, and the call returns at once. A timer interrupt may come at any point of the call, also
before the counter is read, and then the deadline moves with it. So the call waits long enough in every run
exactly when the counter is `2 n` or more below the wrap; when no interrupt comes before the read, exactly
when the deadline does not wrap: `timer_wait_iff`.
-/

import Kfs.Base.Trace
import Kfs.Shell.Session

namespace Kfs.Interrupt

/-- Where a call of `timer_wait` is: before `timer_ticks` is read, before a comparison with `end_ticks`, before
`hlt`, in it, or at its end. -/
inductive WaitPoint where
  | called
  | looping (endTicks : UInt32)
  | halting (endTicks : UInt32)
  | halted (endTicks : UInt32)
  | returned
  deriving DecidableEq, Repr

namespace WaitPoint

/-- An interrupt ends `hlt`. -/
def awake : WaitPoint → WaitPoint
  | halted endTicks => looping endTicks
  | point => point

/-- `end_ticks`, once it is known. -/
def deadline : WaitPoint → Option UInt32
  | looping endTicks => some endTicks
  | halting endTicks => some endTicks
  | halted endTicks => some endTicks
  | called => none
  | returned => none

end WaitPoint

/-- `timer_ticks`, the call, and the timer interrupts since the call. -/
structure Waiter where
  timerTicks : UInt32
  point : WaitPoint
  interrupts : Nat

namespace Waiter

/-- The call. -/
def call (timerTicks : UInt32) : Waiter := ⟨timerTicks, .called, 0⟩

/-- The call, with `timer_ticks` read before any interrupt. -/
def begun (timerTicks ticks : UInt32) : Waiter := ⟨timerTicks, .looping (timerTicks + ticks), 0⟩

end Waiter

/-- What happens: a timer interrupt, another interrupt, or one step of the call. -/
inductive WaitOp where
  | timer
  | interrupt
  | step
  deriving DecidableEq, Repr

/-- The steps until `timer_wait(ticks)` returns. -/
inductive WaitStep (ticks : UInt32) : Waiter → WaitOp → Waiter → Prop
  | timer {w : Waiter} (running : w.point ≠ .returned) :
      WaitStep ticks w .timer ⟨w.timerTicks + 1, w.point.awake, w.interrupts + 1⟩
  | interrupt {w : Waiter} (running : w.point ≠ .returned) :
      WaitStep ticks w .interrupt ⟨w.timerTicks, w.point.awake, w.interrupts⟩
  | read {now : UInt32} {k : Nat} :
      WaitStep ticks ⟨now, .called, k⟩ .step ⟨now, .looping (now + ticks), k⟩
  | early {now endTicks : UInt32} {k : Nat} (below : now < endTicks) :
      WaitStep ticks ⟨now, .looping endTicks, k⟩ .step ⟨now, .halting endTicks, k⟩
  | hlt {now endTicks : UInt32} {k : Nat} :
      WaitStep ticks ⟨now, .halting endTicks, k⟩ .step ⟨now, .halted endTicks, k⟩
  | late {now endTicks : UInt32} {k : Nat} (reached : ¬ now < endTicks) :
      WaitStep ticks ⟨now, .looping endTicks, k⟩ .step ⟨now, .returned, k⟩

/-- **`timer_wait(ticks)` waits long enough**: whatever happens, it has not returned before `ticks` timer
interrupts have come. -/
def WaitsLongEnough (ticks : UInt32) (start : Waiter) : Prop :=
  ∀ ops w, Run (WaitStep ticks) start ops w → w.point = .returned → ticks.toNat ≤ w.interrupts

/-- What keeps a call from returning too early: a deadline that is `ticks` or more above the counter at the
call, as numbers. Before the deadline is known, `ticks` interrupts must not make it wrap. -/
structure OnTime (start ticks : UInt32) (w : Waiter) : Prop where
  now : w.timerTicks.toNat = (start.toNat + w.interrupts) % 2 ^ 32
  called : w.point = .called → start.toNat + 2 * ticks.toNat ≤ 2 ^ 32
  deadline : ∀ endTicks ∈ w.point.deadline,
    start.toNat + ticks.toNat ≤ endTicks.toNat ∨ ticks.toNat ≤ w.interrupts
  returned : w.point = .returned → ticks.toNat ≤ w.interrupts

section Steps

variable {start ticks now endTicks : UInt32} {w w' : Waiter} {op : WaitOp} {k : Nat}

/-- `timer_irq_handler` adds one to the counter. -/
theorem timerIrqHandler_ticks {Fs : Type} {t t' : Shell.Session Fs} (done : Shell.timerIrqHandler t = .ok t') :
    UInt32.ofNat t'.timerTicks = UInt32.ofNat t.timerTicks + 1 := by
  have counted : t'.timerTicks = (t.timerTicks + 1) % 2 ^ 32 := by
    unfold Shell.timerIrqHandler at done
    simp only at done
    split at done
    · obtain ⟨⟨s, _⟩, _, rest⟩ := Outcome.bind_eq_ok.mp done
      cases rest
      rfl
    · cases done
      rfl
  apply UInt32.toNat_inj.mp
  rw [counted, UInt32.toNat_add]
  simp

theorem awake_deadline (point : WaitPoint) : point.awake.deadline = point.deadline := by
  cases point <;> rfl

theorem awake_called {point : WaitPoint} : point.awake = .called ↔ point = .called := by
  cases point <;> simp [WaitPoint.awake]

theorem awake_returned {point : WaitPoint} : point.awake = .returned ↔ point = .returned := by
  cases point <;> simp [WaitPoint.awake]

/-- Interrupts are counted, and end `hlt`. -/
theorem OnTime.awake (here : OnTime start ticks w) {now : UInt32} {k : Nat} (more : w.interrupts ≤ k)
    (counted : now.toNat = (start.toNat + k) % 2 ^ 32) : OnTime start ticks ⟨now, w.point.awake, k⟩ := by
  refine ⟨counted, fun called => here.called (awake_called.mp called), fun e member => ?_, fun returned => ?_⟩
  · rw [awake_deadline] at member
    exact (here.deadline e member).imp_right fun enough => enough.trans more
  · exact (here.returned (awake_returned.mp returned)).trans more

/-- Once the deadline is known, only it matters. -/
theorem OnTime.of_deadline {point : WaitPoint} (known : point.deadline = some endTicks)
    (counted : now.toNat = (start.toNat + k) % 2 ^ 32)
    (far : start.toNat + ticks.toNat ≤ endTicks.toNat ∨ ticks.toNat ≤ k) :
    OnTime start ticks ⟨now, point, k⟩ := by
  refine ⟨counted, fun called => ?_, fun e member => ?_, fun returned => ?_⟩
  · cases called
    cases known
  · cases known.symm.trans member
    exact far
  · cases returned
    cases known

/-- The deadline that is read. -/
theorem OnTime.read (here : OnTime start ticks ⟨now, .called, k⟩) :
    start.toNat + ticks.toNat ≤ (now + ticks).toNat ∨ ticks.toNat ≤ k := by
  have room := here.called rfl
  have counted : now.toNat = (start.toNat + k) % 2 ^ 32 := here.now
  rw [UInt32.toNat_add]
  omega

/-- A counter that is not below the deadline. -/
theorem OnTime.late (here : OnTime start ticks ⟨now, .looping endTicks, k⟩) (reached : ¬ now < endTicks) :
    ticks.toNat ≤ k := by
  have counted : now.toNat = (start.toNat + k) % 2 ^ 32 := here.now
  have small := endTicks.toNat_lt
  have order : endTicks.toNat ≤ now.toNat := by
    rw [UInt32.lt_iff_toNat_lt] at reached
    exact not_lt.mp reached
  rcases here.deadline endTicks rfl with far | enough
  · by_contra few
    omega
  · exact enough

/-- **One step.** -/
theorem WaitStep.keeps (step : WaitStep ticks w op w') (here : OnTime start ticks w) :
    OnTime start ticks w' := by
  cases step with
  | timer running =>
      refine here.awake (Nat.le_succ _) ?_
      have counted := here.now
      rw [UInt32.toNat_add, UInt32.toNat_one]
      omega
  | interrupt running => exact here.awake le_rfl here.now
  | read => exact .of_deadline rfl here.now here.read
  | early below => exact .of_deadline rfl here.now (here.deadline _ rfl)
  | hlt => exact .of_deadline rfl here.now (here.deadline _ rfl)
  | late reached =>
      refine ⟨here.now, fun called => ?_, fun e member => ?_, fun _ => here.late reached⟩
      · cases called
      · cases member

theorem OnTime.waits (here : OnTime start ticks w) : WaitsLongEnough ticks w := by
  intro ops w' run returned
  exact (run.invariant (OnTime start ticks) (fun _ _ _ here step => step.keeps here) here).returned returned

/-- Interrupts before `timer_ticks` is read. -/
theorem run_interrupts (now : UInt32) (k j : Nat) : Run (WaitStep ticks) ⟨now, .called, k⟩
    (List.replicate j .timer) ⟨now + UInt32.ofNat j, .called, k + j⟩ := by
  induction j generalizing now k with
  | zero =>
      have same : now + UInt32.ofNat 0 = now := UInt32.add_zero now
      rw [same]
      exact .nil _
  | succ j ih =>
      have next := ih (now + 1) (k + 1)
      have later : now + UInt32.ofNat (j + 1) = now + 1 + UInt32.ofNat j := by
        rw [UInt32.ofNat_add, UInt32.add_assoc, UInt32.add_comm (UInt32.ofNat j)]
        rfl
      rw [later, show k + (j + 1) = k + 1 + j by omega]
      exact .cons (.timer (by simp)) next

/-- A deadline that wraps is reached at once. -/
theorem run_wrapped (wraps : 2 ^ 32 ≤ now.toNat + ticks.toNat) (k : Nat) :
    Run (WaitStep ticks) ⟨now, .looping (now + ticks), k⟩ [.step] ⟨now, .returned, k⟩ := by
  refine .cons (.late ?_) (.nil _)
  have bound := now.toNat_lt
  have bound' := ticks.toNat_lt
  rw [UInt32.lt_iff_toNat_lt, UInt32.toNat_add]
  omega

end Steps

/-- **Exactly when `timer_wait` waits long enough**: in every run, when the counter at the call is twice the
number of ticks or more below the wrap; and when no interrupt comes before the counter is read, when the
deadline does not wrap. -/
theorem timer_wait_iff (now ticks : UInt32) :
    (WaitsLongEnough ticks (.call now) ↔ now.toNat + 2 * ticks.toNat ≤ 2 ^ 32) ∧
      (WaitsLongEnough ticks (.begun now ticks) ↔ now.toNat + ticks.toNat < 2 ^ 32) := by
  have small := now.toNat_lt
  have small' := ticks.toNat_lt
  refine ⟨⟨fun waits => ?_, fun room => ?_⟩, ⟨fun waits => ?_, fun room => ?_⟩⟩
  · by_contra near
    -- enough interrupts before the read that the deadline wraps
    obtain ⟨j, less, inside, wraps⟩ : ∃ j, j < ticks.toNat ∧ now.toNat + j < 2 ^ 32 ∧
        2 ^ 32 ≤ now.toNat + j + ticks.toNat :=
      ⟨2 ^ 32 - ticks.toNat - now.toNat, by omega, by omega, by omega⟩
    have counted : (now + UInt32.ofNat j).toNat = now.toNat + j := by
      rw [UInt32.toNat_add, UInt32.toNat_ofNat', Nat.add_mod_mod, Nat.mod_eq_of_lt inside]
    have first := @run_interrupts ticks now 0 j
    have last := run_wrapped (show 2 ^ 32 ≤ (now + UInt32.ofNat j).toNat + ticks.toNat by rwa [counted]) (0 + j)
    have enough := waits _ _ (first.append (.cons .read last)) rfl
    simp only at enough
    omega
  · refine OnTime.waits ⟨(Nat.mod_eq_of_lt small).symm, fun _ => room, fun e member => ?_, fun returned => ?_⟩
    · cases member
    · cases returned
  · by_contra wraps
    have enough := waits _ _ (run_wrapped (not_lt.mp wraps) 0) rfl
    simp only at enough
    omega
  · refine OnTime.waits (.of_deadline rfl (Nat.mod_eq_of_lt small).symm (.inl ?_))
    rw [UInt32.toNat_add, Nat.mod_eq_of_lt room]

/-- **The counter is about to wrap**: waiting for one tick returns without any. -/
theorem timer_wait_wraps : Run (WaitStep 1) (.call 0xFFFFFFFF) [.step, .step] ⟨0xFFFFFFFF, .returned, 0⟩ ∧
    ¬ WaitsLongEnough 1 (.call 0xFFFFFFFF) := by
  have run : Run (WaitStep 1) (.call 0xFFFFFFFF) [.step, .step] ⟨0xFFFFFFFF, .returned, 0⟩ :=
    .cons .read (.cons (.late (by decide)) (.nil _))
  refine ⟨run, fun waits => ?_⟩
  exact absurd (waits _ _ run rfl) (by decide)

end Kfs.Interrupt
