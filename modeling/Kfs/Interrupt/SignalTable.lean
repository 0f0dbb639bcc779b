/-
**Kernel signals: `signal.c`.**

A table of actions and a word of pending signals. A handler is code outside the file: here it is any
function from what the rest of the kernel holds to the calls of `signal_raise`, `signal_register` and
`signal_unregister` that it makes. `signal_process_pending` walks the numbers upwards, clears a bit and then
sends the signal, so what a handler raises is sent in the same call if its number is still to come and stays
pending otherwise. `SIGKILL` and `SIGSTOP` have the default action whatever is called.
-/

import Mathlib.Tactic
import Kfs.Base.Loops

namespace Kfs.Interrupt

/-- `MAX_SIGNALS`. -/
def maxSignals : Nat := 32

/-- `SIG_DFL`. -/
def sigDfl : Nat := 0

/-- `SIG_IGN`. -/
def sigIgn : Nat := 1

/-- `SIGKILL`. -/
def sigKill : Nat := 9

/-- `SIGSTOP`. -/
def sigStop : Nat := 19

/-- `struct signal_action`: the handler is a code pointer. -/
structure SignalAction where
  handler : Nat
  registered : Bool
  deriving DecidableEq

/-- The default action. -/
def defaultAction : SignalAction := ⟨sigDfl, false⟩

/-- `signal_actions` and `pending_signals`. -/
structure SignalTable where
  actions : Nat → SignalAction
  pending : BitVec 32

/-- `signal_names`. -/
def signalNames : List String :=
  ["SIGNAL0", "SIGHUP", "SIGINT", "SIGQUIT", "SIGILL", "SIGTRAP", "SIGABRT", "SIGBUS", "SIGFPE", "SIGKILL",
    "SIGUSR1", "SIGSEGV", "SIGUSR2", "SIGPIPE", "SIGALRM", "SIGTERM", "SIGSTKFLT", "SIGCHLD", "SIGCONT",
    "SIGSTOP", "SIGTSTP"]

/-- `signal_name`. -/
def signalName (signal : Int) : String :=
  if signal < 0 ∨ 20 < signal then "UNKNOWN" else signalNames.getD signal.toNat "UNKNOWN"

/-- `signal_valid`. -/
def SignalValid (signal : Int) : Prop := 0 < signal ∧ signal < maxSignals

instance (signal : Int) : Decidable (SignalValid signal) := inferInstanceAs (Decidable (_ ∧ _))

/-- What a handler calls. -/
inductive SignalCall where
  | raise (signal : Int)
  | register (signal : Int) (handler : Nat)
  | unregister (signal : Int)
  deriving DecidableEq

namespace SignalTable

/-- `signal_register`. -/
def signalRegister (t : SignalTable) (signal : Int) (handler : Nat) : SignalTable × Int :=
  if ¬ SignalValid signal then (t, -1)
  else if signal = sigKill ∨ signal = sigStop then (t, -1)
  else ({ t with actions := Function.update t.actions signal.toNat ⟨handler, true⟩ }, 0)

/-- `signal_unregister`. -/
def signalUnregister (t : SignalTable) (signal : Int) : SignalTable × Int :=
  if ¬ SignalValid signal then (t, -1)
  else ({ t with actions := Function.update t.actions signal.toNat defaultAction }, 0)

/-- `signal_raise`. -/
def signalRaise (t : SignalTable) (signal : Int) : SignalTable × Int :=
  if ¬ SignalValid signal then (t, -1)
  else ({ t with pending := t.pending ||| 1#32 <<< signal.toNat }, 0)

/-- One call. -/
def call (t : SignalTable) : SignalCall → SignalTable
  | .raise signal => (t.signalRaise signal).1
  | .register signal handler => (t.signalRegister signal handler).1
  | .unregister signal => (t.signalUnregister signal).1

/-- Clear a pending flag. -/
def clear (t : SignalTable) (signal : Nat) : SignalTable :=
  { t with pending := t.pending &&& ~~~(1#32 <<< signal) }

/-- Signal `i` is pending. -/
def IsPending (t : SignalTable) (i : Nat) : Prop := t.pending.getLsbD i = true

/-- `SIGKILL` and `SIGSTOP` have the default action. -/
structure Uncaught (t : SignalTable) : Prop where
  kill : t.actions sigKill = defaultAction
  stop : t.actions sigStop = defaultAction

end SignalTable

/-- What `signal_send` did: it ran the handler, which made calls, printed the name, or did nothing. -/
inductive SignalEffect where
  | handled (calls : List SignalCall)
  | printed (name : String)
  | ignored
  deriving DecidableEq

/-- A signal that was sent. -/
structure Sending where
  signal : Nat
  effect : SignalEffect
  deriving DecidableEq

/-- The calls of the handler. -/
def Sending.calls (d : Sending) : List SignalCall :=
  match d.effect with
  | .handled calls => calls
  | _ => []

/-- The handler raised signal `i`. -/
def Sending.Raises (d : Sending) (i : Nat) : Prop := .raise (i : Int) ∈ d.calls

/-- The code of the handlers: what the code at a pointer calls for a signal, by what the rest of the kernel
holds, and what that is afterwards. -/
abbrev Handlers (ω : Type) := Nat → Int → ω → List SignalCall × ω

/-- The table, the rest of the kernel, the signals sent so far, and all tables there have been. -/
structure SignalWorld (ω : Type) where
  table : SignalTable
  outside : ω
  sent : List Sending
  seen : List SignalTable

/-- What the rest of the kernel does. -/
inductive SignalOp (ω : Type) where
  | call (c : SignalCall)
  | send (signal : Int)
  | processPending
  | work (outside : ω)

namespace SignalWorld

variable {ω : Type}

/-- Before anything is sent. -/
def start (table : SignalTable) (outside : ω) : SignalWorld ω := ⟨table, outside, [], [table]⟩

/-- The table changes. -/
def update (w : SignalWorld ω) (table : SignalTable) : SignalWorld ω :=
  { w with table := table, seen := w.seen ++ [table] }

/-- Calls one after the other. -/
def perform (w : SignalWorld ω) (calls : List SignalCall) : SignalWorld ω :=
  calls.foldl (fun w c => w.update (w.table.call c)) w

/-- Note a signal as sent. -/
def note (w : SignalWorld ω) (signal : Int) (effect : SignalEffect) : SignalWorld ω :=
  { w with sent := w.sent ++ [⟨signal.toNat, effect⟩] }

/-- `signal_send`. -/
def signalSend (handlers : Handlers ω) (w : SignalWorld ω) (signal : Int) : SignalWorld ω × Int :=
  if ¬ SignalValid signal then (w, -1)
  else
    let action := w.table.actions signal.toNat
    if action.registered ∧ action.handler ≠ sigDfl ∧ action.handler ≠ sigIgn then
      let run := handlers action.handler signal w.outside
      (({ w with outside := run.2 }.perform run.1).note signal (.handled run.1), 0)
    else if action.handler = sigDfl then (w.note signal (.printed (signalName signal)), 0)
    else (w.note signal .ignored, 0)

/-- One round of the loop: a pending signal is cleared and sent. -/
def round (handlers : Handlers ω) (w : SignalWorld ω) (i : Nat) : SignalWorld ω :=
  if w.table.pending &&& 1#32 <<< i ≠ 0 then (signalSend handlers (w.update (w.table.clear i)) i).1 else w

/-- `signal_process_pending`. -/
def signalProcessPending (handlers : Handlers ω) (w : SignalWorld ω) : SignalWorld ω :=
  if w.table.pending = 0 then w else forTo (fun k w => w.round handlers (k + 1)) (maxSignals - 1) w

/-- One thing that the kernel does. -/
def exec (handlers : Handlers ω) (w : SignalWorld ω) : SignalOp ω → SignalWorld ω
  | .call c => w.perform [c]
  | .send signal => (signalSend handlers w signal).1
  | .processPending => w.signalProcessPending handlers
  | .work outside => { w with outside := outside }

/-- One after the other. -/
def run (handlers : Handlers ω) (w : SignalWorld ω) (ops : List (SignalOp ω)) : SignalWorld ω :=
  ops.foldl (exec handlers) w

end SignalWorld

section Pending

variable {t : SignalTable} {i j : Nat} {c : SignalCall}

open SignalTable

theorem bit_test (p : BitVec 32) (inside : i < 32) : p &&& 1#32 <<< i ≠ 0 ↔ p.getLsbD i = true := by
  rw [← BitVec.twoPow_eq, BitVec.and_twoPow]
  have bit : (BitVec.twoPow 32 i).getLsbD i = true := by simp [inside]
  by_cases set : p.getLsbD i = true
  · rw [if_pos set]
    refine iff_of_true (fun zero => ?_) set
    rw [zero] at bit
    exact absurd bit (by simp)
  · rw [if_neg set]
    exact iff_of_false (fun wrong => wrong rfl) set

theorem bit_set (p : BitVec 32) (inside : i < 32) :
    (p ||| 1#32 <<< i).getLsbD j = true ↔ p.getLsbD j = true ∨ j = i := by
  have hit : (decide (i < 32) && decide (i = j)) = decide (j = i) := by
    rw [decide_eq_true inside, Bool.true_and]
    exact decide_eq_decide.mpr eq_comm
  rw [← BitVec.twoPow_eq, BitVec.getLsbD_or, BitVec.getLsbD_twoPow, hit, Bool.or_eq_true, decide_eq_true_iff]

theorem bit_clear (p : BitVec 32) (inside : i < 32) :
    (p &&& ~~~(1#32 <<< i)).getLsbD j = true ↔ p.getLsbD j = true ∧ j ≠ i := by
  have hit : (decide (i < 32) && decide (i = j)) = decide (i = j) := by
    rw [decide_eq_true inside, Bool.true_and]
  have low : p.getLsbD j = true → j < 32 := BitVec.lt_of_getLsbD
  rw [← BitVec.twoPow_eq, BitVec.getLsbD_and, BitVec.getLsbD_not, BitVec.getLsbD_twoPow, hit, Bool.and_eq_true,
    Bool.and_eq_true, Bool.not_eq_true', decide_eq_false_iff_not, decide_eq_true_iff]
  exact ⟨fun both => ⟨both.1, fun same => both.2.2 same.symm⟩,
    fun both => ⟨both.1, low both.1, fun same => both.2 same.symm⟩⟩

/-- What a call makes pending. -/
theorem call_pending (t : SignalTable) (c : SignalCall) (valid : SignalValid i) :
    (t.call c).IsPending i ↔ t.IsPending i ∨ c = .raise i := by
  cases c with
  | raise signal =>
      show (t.signalRaise signal).1.IsPending i ↔ _
      unfold signalRaise
      by_cases sound : SignalValid signal
      · rw [if_neg (not_not.mpr sound)]
        obtain ⟨n, rfl⟩ := Int.eq_ofNat_of_zero_le sound.1.le
        have inside : n < 32 := Int.ofNat_lt.mp sound.2
        show (t.pending ||| 1#32 <<< n).getLsbD i = true ↔ _
        rw [bit_set _ inside, SignalCall.raise.injEq, Int.natCast_inj, eq_comm (a := n)]
        rfl
      · rw [if_pos sound]
        refine ⟨.inl, fun either => either.resolve_right fun same => ?_⟩
        cases same
        exact sound valid
  | register signal handler =>
      have same : (t.call (.register signal handler)).pending = t.pending := by
        show (t.signalRegister signal handler).1.pending = t.pending
        unfold signalRegister
        split
        · rfl
        · split <;> rfl
      simp [IsPending, same]
  | unregister signal =>
      have same : (t.call (.unregister signal)).pending = t.pending := by
        show (t.signalUnregister signal).1.pending = t.pending
        unfold signalUnregister
        split <;> rfl
      simp [IsPending, same]

/-- **No call gives `SIGKILL` or `SIGSTOP` another action.** -/
theorem SignalTable.Uncaught.call (uncaught : t.Uncaught) (c : SignalCall) : (t.call c).Uncaught := by
  cases c with
  | raise signal =>
      show (t.signalRaise signal).1.Uncaught
      unfold signalRaise
      split
      · exact uncaught
      · exact ⟨uncaught.kill, uncaught.stop⟩
  | register signal handler =>
      show (t.signalRegister signal handler).1.Uncaught
      unfold signalRegister
      split
      · exact uncaught
      · split
        · exact uncaught
        · rename_i sound other
          obtain ⟨noKill, noStop⟩ := not_or.mp other
          have positive := (not_not.mp sound).1
          exact ⟨(Function.update_of_ne (by omega) _ _).trans uncaught.kill,
            (Function.update_of_ne (by omega) _ _).trans uncaught.stop⟩
  | unregister signal =>
      have kept : ∀ a : Nat, t.actions a = defaultAction →
          Function.update t.actions signal.toNat defaultAction a = defaultAction := by
        intro a plain
        by_cases same : a = signal.toNat
        · rw [same, Function.update_self]
        · rw [Function.update_of_ne same, plain]
      show (t.signalUnregister signal).1.Uncaught
      unfold signalUnregister
      split
      · exact uncaught
      · exact ⟨kept _ uncaught.kill, kept _ uncaught.stop⟩

end Pending

section Processing

variable {ω : Type} {handlers : Handlers ω} {w : SignalWorld ω} {i j k : Nat} {calls : List SignalCall}

open SignalWorld

/-- What a list of calls makes pending. -/
theorem perform_pending (w : SignalWorld ω) (calls : List SignalCall) (valid : SignalValid i) :
    (w.perform calls).table.IsPending i ↔ w.table.IsPending i ∨ .raise (i : Int) ∈ calls := by
  induction calls generalizing w with
  | nil => exact (or_iff_left List.not_mem_nil).symm
  | cons c calls ih =>
      have first : (w.update (w.table.call c)).table.IsPending i ↔ w.table.IsPending i ∨ c = .raise i :=
        call_pending w.table c valid
      show ((w.update (w.table.call c)).perform calls).table.IsPending i ↔ _
      rw [ih, first, List.mem_cons, or_assoc, eq_comm (a := c)]

theorem perform_sent (w : SignalWorld ω) (calls : List SignalCall) : (w.perform calls).sent = w.sent := by
  induction calls generalizing w with
  | nil => rfl
  | cons c calls ih =>
      show ((w.update (w.table.call c)).perform calls).sent = w.sent
      rw [ih]
      rfl

/-- **What a sending does**: it is noted, and what its handler raises is pending. -/
theorem signalSend_spec (w : SignalWorld ω) (valid : SignalValid i) :
    ∃ d : Sending, d.signal = i ∧ (signalSend handlers w i).1.sent = w.sent ++ [d] ∧
      ∀ j : Nat, SignalValid j →
        ((signalSend handlers w i).1.table.IsPending j ↔ w.table.IsPending j ∨ d.Raises j) := by
  have quiet : ∀ effect, Sending.calls ⟨i, effect⟩ = [] → ∀ j : Nat,
      (w.table.IsPending j ↔ w.table.IsPending j ∨ Sending.Raises ⟨i, effect⟩ j) := by
    intro effect none j
    unfold Sending.Raises
    rw [none]
    exact (or_iff_left List.not_mem_nil).symm
  unfold signalSend
  rw [if_neg (not_not.mpr valid)]
  simp only [Int.toNat_natCast]
  split
  · refine ⟨⟨i, .handled (handlers (w.table.actions i).handler i w.outside).1⟩, rfl, ?_, fun j sound => ?_⟩
    · show (SignalWorld.perform _ _).sent ++ _ = _
      rw [perform_sent]
      rfl
    · exact perform_pending _ _ sound
  · split
    · exact ⟨⟨i, .printed (signalName i)⟩, rfl, rfl, fun j _ => quiet _ rfl j⟩
    · exact ⟨⟨i, .ignored⟩, rfl, rfl, fun j _ => quiet _ rfl j⟩

/-- After round `k` of the loop, begun with the pending signals `before`: what has been sent, and what is
pending. -/
structure Swept (before : Nat → Prop) (k : Nat) (w : SignalWorld ω) : Prop where
  increasing : (w.sent.map Sending.signal).Pairwise (· < ·)
  range : ∀ d ∈ w.sent, 0 < d.signal ∧ d.signal ≤ k
  sent : ∀ i, 0 < i → i ≤ k →
    (i ∈ w.sent.map Sending.signal ↔ before i ∨ ∃ d ∈ w.sent, d.signal < i ∧ d.Raises i)
  pending : ∀ i, 0 < i → i < maxSignals →
    (w.table.IsPending i ↔ (k < i ∧ before i) ∨ ∃ d ∈ w.sent, (k < i ∨ i ≤ d.signal) ∧ d.Raises i)

theorem signalValid_nat (positive : 0 < i) (inside : i < maxSignals) : SignalValid i :=
  ⟨Int.natCast_pos.mpr positive, Int.ofNat_lt.mpr inside⟩

theorem Swept.low {before : Nat → Prop} (swept : Swept before k w) {d : Sending} (member : d ∈ w.sent) :
    d.signal < k + 1 := Nat.lt_succ_of_le (swept.range d member).2

/-- The signals that the next round leaves pending. -/
theorem Swept.rest {before : Nat → Prop} (swept : Swept before k w) (positive : 0 < i) (small : i < maxSignals) :
    w.table.IsPending i ∧ i ≠ k + 1 ↔
      (k + 1 < i ∧ before i) ∨ ∃ d ∈ w.sent, (k + 1 < i ∨ i ≤ d.signal) ∧ d.Raises i := by
  rw [swept.pending i positive small]
  constructor
  · rintro ⟨⟨later, first⟩ | ⟨d, member, place, raised⟩, other⟩
    · exact .inl ⟨by omega, first⟩
    · exact .inr ⟨d, member, place.imp_left (by omega), raised⟩
  · rintro (⟨later, first⟩ | ⟨d, member, place, raised⟩)
    · exact ⟨.inl ⟨by omega, first⟩, by omega⟩
    · have low := swept.low member
      exact ⟨.inr ⟨d, member, place.imp_left (by omega), raised⟩, by omega⟩

/-- Whether the next signal is due. -/
theorem Swept.due {before : Nat → Prop} (swept : Swept before k w) (inside : k + 1 < maxSignals) :
    w.table.IsPending (k + 1) ↔
      before (k + 1) ∨ ∃ d ∈ w.sent, d.signal < k + 1 ∧ d.Raises (k + 1) := by
  rw [swept.pending (k + 1) k.succ_pos inside]
  constructor
  · rintro (⟨_, first⟩ | ⟨d, member, _, raised⟩)
    · exact .inl first
    · exact .inr ⟨d, member, swept.low member, raised⟩
  · rintro (first | ⟨d, member, _, raised⟩)
    · exact .inl ⟨k.lt_succ_self, first⟩
    · exact .inr ⟨d, member, .inl k.lt_succ_self, raised⟩

/-- A round in which nothing is due. -/
theorem Swept.skip {before : Nat → Prop} (swept : Swept before k w) (inside : k + 1 < maxSignals)
    (notDue : ¬ w.table.IsPending (k + 1)) : Swept before (k + 1) w := by
  refine ⟨swept.increasing, fun d member => ⟨(swept.range d member).1, (swept.low member).le⟩, ?_, ?_⟩
  · intro i positive below
    by_cases next : i = k + 1
    · rw [next]
      refine iff_of_false (fun member => ?_) fun due => notDue ((swept.due inside).mpr due)
      obtain ⟨d, old, signal⟩ := List.mem_map.mp member
      exact absurd (swept.low old) (by omega)
    · exact swept.sent i positive (by omega)
  · intro i positive small
    rw [← swept.rest positive small]
    exact ⟨fun isPending => ⟨isPending, fun next => notDue (next ▸ isPending)⟩, And.left⟩

/-- A round in which the next signal is sent. -/
theorem Swept.send {before : Nat → Prop} (swept : Swept before k w) (inside : k + 1 < maxSignals)
    (due : w.table.IsPending (k + 1)) {d : Sending} (signal : d.signal = k + 1) {v : SignalWorld ω}
    (sent : v.sent = w.sent ++ [d])
    (pending : ∀ j : Nat, SignalValid j →
      (v.table.IsPending j ↔ (w.table.IsPending j ∧ j ≠ k + 1) ∨ d.Raises j)) :
    Swept before (k + 1) v := by
  refine ⟨?_, ?_, ?_, ?_⟩
  · rw [sent, List.map_append, List.pairwise_append]
    refine ⟨swept.increasing, List.pairwise_singleton _ _, fun a old b new => ?_⟩
    obtain ⟨e, member, rfl⟩ := List.mem_map.mp old
    rw [List.mem_singleton.mp new, signal]
    exact swept.low member
  · intro e member
    rw [sent] at member
    rcases List.mem_append.mp member with old | new
    · exact ⟨(swept.range e old).1, (swept.low old).le⟩
    · rw [List.mem_singleton.mp new, signal]
      exact ⟨k.succ_pos, le_rfl⟩
  · intro i positive below
    rw [sent]
    by_cases next : i = k + 1
    · rw [next]
      refine iff_of_true (List.mem_map.mpr ⟨d, by simp, signal⟩) ?_
      refine ((swept.due inside).mp due).imp_right ?_
      rintro ⟨e, member, low, raised⟩
      exact ⟨e, List.mem_append_left _ member, low, raised⟩
    · have old := swept.sent i positive (by omega)
      have notNew : ¬ d.signal = i := by omega
      have notBelow : ¬ d.signal < i := by omega
      simp only [List.map_append, List.mem_append, List.map_cons, List.map_nil, List.mem_singleton,
        Ne.symm notNew, or_false, old, or_and_right, exists_or, exists_eq_left, notBelow, false_and]
  · intro i positive small
    have place : k + 1 < i ∨ i ≤ d.signal := by omega
    rw [pending i (signalValid_nat positive small), swept.rest positive small, sent]
    constructor
    · rintro ((first | ⟨e, member, rest⟩) | raised)
      · exact .inl first
      · exact .inr ⟨e, List.mem_append_left _ member, rest⟩
      · exact .inr ⟨d, List.mem_append_right _ (List.mem_singleton_self d), place, raised⟩
    · rintro (first | ⟨e, member, rest⟩)
      · exact .inl (.inl first)
      · rcases List.mem_append.mp member with old | new
        · exact .inl (.inr ⟨e, old, rest⟩)
        · rw [List.mem_singleton.mp new] at rest
          exact .inr rest.2

/-- **One round**: the next signal is sent if it is pending. -/
theorem Swept.round {before : Nat → Prop} (swept : Swept before k w) (inside : k + 1 < maxSignals) :
    Swept before (k + 1) (w.round handlers (k + 1)) := by
  unfold SignalWorld.round
  by_cases set : w.table.pending &&& 1#32 <<< (k + 1) ≠ 0
  · obtain ⟨d, signal, sent, pending⟩ :=
      @signalSend_spec _ handlers _ (w.update (w.table.clear (k + 1))) (signalValid_nat k.succ_pos inside)
    rw [if_pos set]
    refine swept.send inside ((bit_test _ inside).mp set) signal sent fun j valid => ?_
    rw [pending j valid]
    exact or_congr_left (bit_clear _ inside)
  · rw [if_neg set]
    exact swept.skip inside fun due => set ((bit_test _ inside).mpr due)

/-- All tables there have been are uncaught, the present one among them. -/
structure AllUncaught (w : SignalWorld ω) : Prop where
  seen : ∀ t ∈ w.seen, t.Uncaught
  now : w.table.Uncaught

theorem AllUncaught.update (all : AllUncaught w) {t : SignalTable} (uncaught : t.Uncaught) :
    AllUncaught (w.update t) := by
  refine ⟨fun u member => ?_, uncaught⟩
  rcases List.mem_append.mp member with old | new
  · exact all.seen u old
  · rw [List.mem_singleton.mp new]
    exact uncaught

theorem AllUncaught.perform (all : AllUncaught w) (calls : List SignalCall) :
    AllUncaught (w.perform calls) := by
  induction calls generalizing w with
  | nil => exact all
  | cons c calls ih => exact ih (all.update (all.now.call c))

theorem AllUncaught.send (all : AllUncaught w) (handlers : Handlers ω) (signal : Int) :
    AllUncaught (signalSend handlers w signal).1 := by
  unfold signalSend
  split
  · exact all
  · dsimp only
    split
    · have ran := AllUncaught.perform (w := { w with
        outside := (handlers (w.table.actions signal.toNat).handler signal w.outside).2 })
        ⟨all.seen, all.now⟩ (handlers (w.table.actions signal.toNat).handler signal w.outside).1
      exact ⟨ran.seen, ran.now⟩
    · split
      · exact ⟨all.seen, all.now⟩
      · exact ⟨all.seen, all.now⟩

theorem AllUncaught.round (all : AllUncaught w) (handlers : Handlers ω) (i : Nat) :
    AllUncaught (w.round handlers i) := by
  unfold SignalWorld.round
  split
  · exact (all.update (t := w.table.clear i) ⟨all.now.kill, all.now.stop⟩).send handlers i
  · exact all

theorem AllUncaught.exec (all : AllUncaught w) (handlers : Handlers ω) (op : SignalOp ω) :
    AllUncaught (w.exec handlers op) := by
  cases op with
  | call c => exact all.perform [c]
  | send signal => exact all.send handlers signal
  | processPending =>
      show AllUncaught (w.signalProcessPending handlers)
      unfold signalProcessPending
      split
      · exact all
      · exact forTo_invariant (fun _ => AllUncaught) (fun k v _ here => here.round handlers (k + 1)) all
  | work outside => exact ⟨all.seen, all.now⟩

theorem AllUncaught.run (all : AllUncaught w) (handlers : Handlers ω) (ops : List (SignalOp ω)) :
    AllUncaught (w.run handlers ops) := by
  induction ops generalizing w with
  | nil => exact all
  | cons op ops ih => exact ih (all.exec handlers op)

end Processing

end Kfs.Interrupt
