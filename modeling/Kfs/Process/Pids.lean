/-
**PIDs identify processes.**

The history of a run says who was given which PID. `holder` reads off it the slot that holds a PID: the
one the PID was given with, from then until the process is reaped. `pids_identify`: while the counter has
not come round, `process_get_by_pid` computes exactly that, also when calls in between failed after
taking a PID from the counter. It needs that `process_exit` is called for a process: a slot that is UNUSED
would become a ZOMBIE under the PID it had last (`exit_finds_reaped`).
-/

import Kfs.Process.Table

namespace Kfs.Process

/-- The slot that was given a PID and not reaped since. -/
def holder : List Event → Nat → Option Slot
  | [], _ => none
  | .created p i :: history, pid => if p = pid then some i else holder history pid
  | .forked _ p i :: history, pid => if p = pid then some i else holder history pid
  | .reaped _ p _ :: history, pid => if p = pid then none else holder history pid
  | .failed _ :: history, pid => holder history pid
  | .exited _ _ :: history, pid => holder history pid

/-- The PID an event gave to a process. -/
def Event.given : Event → Option Nat
  | .created pid _ => some pid
  | .forked _ pid _ => some pid
  | .failed _ => none
  | .exited _ _ => none
  | .reaped _ _ _ => none

/-- The PIDs given to processes. -/
def given (history : List Event) : List Nat := history.filterMap Event.given

theorem given_sublist (history : List Event) : (given history).Sublist (drawn history) := by
  induction history with
  | nil => exact .slnil
  | cons event history ih =>
      cases event with
      | created pid slot => exact ih.cons_cons pid
      | forked parent pid slot => exact ih.cons_cons pid
      | failed pid => exact ih.cons pid
      | exited pid status => exact ih
      | reaped parent pid status => exact ih

theorem mem_drawn_of_holder {history : List Event} {pid : Nat} {i : Slot}
    (held : holder history pid = some i) : pid ∈ drawn history := by
  induction history with
  | nil => cases held
  | cons event history ih =>
      cases event with
      | created p slot =>
          rw [holder] at held
          split at held
          · rename_i same
            rw [← same]
            exact List.mem_cons_self
          · exact List.mem_cons_of_mem _ (ih held)
      | forked parent p slot =>
          rw [holder] at held
          split at held
          · rename_i same
            rw [← same]
            exact List.mem_cons_self
          · exact List.mem_cons_of_mem _ (ih held)
      | failed p => exact List.mem_cons_of_mem _ (ih held)
      | exited p status => exact ih held
      | reaped parent p status =>
          rw [holder] at held
          split at held
          · cases held
          · exact ih held

/-! ### The invariant -/

/-- Fewer PIDs drawn than the counter has values. -/
def Few (t : Traced) : Prop := (drawn t.history).length < 2 ^ 32 - 1

/-- The table and the history agree on who holds which PID. -/
structure PidsKept (t : Traced) : Prop where
  bounds : ∀ pid ∈ drawn t.history, 1 ≤ pid ∧ pid ≤ (drawn t.history).length
  nodup : (drawn t.history).Nodup
  holds : ∀ i, (t.procs.table i).state ≠ .unused →
    holder t.history (t.procs.table i).pid = some i
  held : ∀ pid i, holder t.history pid = some i →
    (t.procs.table i).state ≠ .unused ∧ (t.procs.table i).pid = pid

namespace PidsKept

variable {t : Traced} {s' : Procs} {i j : Slot} {pid : Nat}

theorem unique (kept : PidsKept t) (first : (t.procs.table i).state ≠ .unused)
    (second : (t.procs.table j).state ≠ .unused)
    (same : (t.procs.table i).pid = (t.procs.table j).pid) : i = j := by
  have one := kept.holds i first
  rw [same, kept.holds j second] at one
  exact (Option.some.inj one).symm

theorem pid_ne_zero (kept : PidsKept t) (used : (t.procs.table i).state ≠ .unused) :
    (t.procs.table i).pid ≠ 0 := by
  have low := (kept.bounds _ (mem_drawn_of_holder (kept.holds i used))).1
  omega

/-- **`process_get_by_pid` finds the holder.** -/
theorem getByPid_eq (kept : PidsKept t) (pid : Nat) :
    processGetByPid t.procs.table pid = holder t.history pid := by
  cases found : processGetByPid t.procs.table pid with
  | some i =>
      have here := List.find?_some found
      simp only [decide_eq_true_eq] at here
      rw [← here.2, kept.holds i here.1]
  | none =>
      cases held : holder t.history pid with
      | none => rfl
      | some i =>
          have missing := List.find?_eq_none.mp found i (List.mem_finRange i)
          simp only [decide_eq_true_eq] at missing
          exact absurd (kept.held pid i held) missing

theorem fresh (kept : PidsKept t) (counted : Counted t) (few : (drawn t.history).length + 1 < 2 ^ 32) :
    t.procs.nextPid = (drawn t.history).length + 1 ∧ t.procs.nextPid ∉ drawn t.history := by
  have next : t.procs.nextPid = (drawn t.history).length + 1 := by
    rw [counted.nextPid, Nat.mod_eq_of_lt few]
  refine ⟨next, fun member => ?_⟩
  have high := (kept.bounds _ member).2
  omega

/-- A new PID is drawn. -/
theorem draw (kept : PidsKept t) (counted : Counted t) (few : (drawn t.history).length + 1 < 2 ^ 32) :
    (∀ pid ∈ t.procs.nextPid :: drawn t.history,
      1 ≤ pid ∧ pid ≤ (t.procs.nextPid :: drawn t.history).length) ∧
      (t.procs.nextPid :: drawn t.history).Nodup := by
  obtain ⟨next, new⟩ := kept.fresh counted few
  refine ⟨fun pid member => ?_, List.nodup_cons.mpr ⟨new, kept.nodup⟩⟩
  rw [List.length_cons]
  rcases List.mem_cons.mp member with rfl | member
  · omega
  · have bounds := kept.bounds pid member
    omega

/-- A slot is given to a new process. -/
theorem birth (kept : PidsKept t) (counted : Counted t) (few : (drawn t.history).length + 1 < 2 ^ 32)
    {directory : Nat} (birth : t.procs.Birth s' i directory (some i)) {event : Event}
    (drew : event.drawn = some t.procs.nextPid)
    (holds : ∀ pid, holder (event :: t.history) pid =
      if t.procs.nextPid = pid then some i else holder t.history pid) :
    PidsKept ⟨s', event :: t.history⟩ := by
  have new := (kept.fresh counted few).2
  have more : drawn (event :: t.history) = t.procs.nextPid :: drawn t.history := by
    rw [drawn, List.filterMap_cons, drew]
    rfl
  have used : (s'.table i).state ≠ .unused := by
    rcases birth.born with ⟨-, ready, -⟩ | ⟨failed, -⟩
    · rw [ready]
      decide
    · cases failed
  have drew := kept.draw counted few
  rw [← more] at drew
  refine ⟨drew.1, drew.2, fun j live => ?_, fun pid j held => ?_⟩
  · rw [holds]
    by_cases here : j = i
    · subst here
      rw [if_pos birth.pid.symm]
    · have same := birth.others j here
      have held := kept.holds j (same.state ▸ live)
      rw [same.pid, if_neg, held]
      exact fun equal => new (equal ▸ mem_drawn_of_holder held)
  · simp only [holds] at held
    split at held
    · rename_i drawn
      cases held
      exact ⟨used, birth.pid.trans drawn⟩
    · have before := kept.held pid j held
      have other : j ≠ i := by
        rintro rfl
        exact before.1 birth.unused
      have same := birth.others j other
      exact ⟨same.state.trans_ne before.1, same.pid.trans before.2⟩

/-- A PID is drawn and the call fails. -/
theorem failed (kept : PidsKept t) (counted : Counted t) (few : (drawn t.history).length + 1 < 2 ^ 32)
    {directory : Nat} (birth : t.procs.Birth s' i directory none) :
    PidsKept ⟨s', .failed t.procs.nextPid :: t.history⟩ := by
  have unused : (s'.table i).state = .unused := by
    rcases birth.born with ⟨made, -⟩ | ⟨-, unused⟩
    · cases made
    · exact unused
  have drew := kept.draw counted few
  refine ⟨drew.1, drew.2, fun j live => ?_, fun pid j held => ?_⟩
  · have other : j ≠ i := by
      rintro rfl
      exact live unused
    have same := birth.others j other
    have held := kept.holds j (same.state ▸ live)
    rwa [← same.pid] at held
  · have before := kept.held pid j held
    have other : j ≠ i := by
      rintro rfl
      exact before.1 birth.unused
    have same := birth.others j other
    exact ⟨same.state.trans_ne before.1, same.pid.trans before.2⟩

/-- A process exits. -/
theorem exited (kept : PidsKept t) {status : Int} (used : (t.procs.table i).state ≠ .unused)
    (ended : t.procs.Ended s' i status) :
    PidsKept ⟨s', .exited (t.procs.table i).pid status :: t.history⟩ := by
  have same : ∀ j, (s'.table j).pid = (t.procs.table j).pid ∧
      ((s'.table j).state ≠ .unused ↔ (t.procs.table j).state ≠ .unused) := by
    intro j
    by_cases here : j = i
    · subst here
      refine ⟨ended.self.pid, iff_of_true ?_ used⟩
      rw [ended.zombie]
      decide
    · rw [(ended.others j here).pid, (ended.others j here).state]
      exact ⟨rfl, Iff.rfl⟩
  refine ⟨kept.bounds, kept.nodup, fun j live => ?_, fun pid j held => ?_⟩
  · have held := kept.holds j ((same j).2.mp live)
    rwa [← (same j).1] at held
  · have before := kept.held pid j held
    exact ⟨(same j).2.mpr before.1, (same j).1.trans before.2⟩

/-- A zombie is reaped. -/
theorem reaped (kept : PidsKept t) {parent : Nat} (reaped : t.procs.Reaped s' i) :
    PidsKept ⟨s', .reaped parent (t.procs.table i).pid (t.procs.table i).exitStatus :: t.history⟩ := by
  have zombie : (t.procs.table i).state ≠ .unused := by
    rw [reaped.zombie]
    decide
  refine ⟨kept.bounds, kept.nodup, fun j live => ?_, fun pid j held => ?_⟩
  · have other : j ≠ i := by
      rintro rfl
      exact live reaped.unused
    have same := reaped.others j other
    have used := same.state ▸ live
    rw [holder, same.pid, if_neg, kept.holds j used]
    exact fun equal => other (kept.unique zombie used equal).symm
  · rw [holder] at held
    split at held
    · cases held
    · rename_i notIt
      have before := kept.held pid j held
      have other : j ≠ i := by
        rintro rfl
        exact notIt before.2
      have same := reaped.others j other
      exact ⟨same.state.trans_ne before.1, same.pid.trans before.2⟩

end PidsKept

/-! ### Runs -/

/-- The calls of a process's life; `process_exit` is called for a process. -/
def Procs.Lifecycle (s : Procs) : ProcOp → Prop
  | .create _ _ _ => True
  | .fork _ _ => True
  | .exit proc _ => ∀ i ∈ proc, (s.table i).state ≠ .unused
  | .wait _ => True
  | .schedule => False
  | .setCurrent _ => False

instance (s : Procs) : (op : ProcOp) → Decidable (s.Lifecycle op)
  | .create _ _ _ => inferInstanceAs (Decidable True)
  | .fork _ _ => inferInstanceAs (Decidable True)
  | .exit proc _ => inferInstanceAs (Decidable (∀ i ∈ proc, _))
  | .wait _ => inferInstanceAs (Decidable True)
  | .schedule => inferInstanceAs (Decidable False)
  | .setCurrent _ => inferInstanceAs (Decidable False)

/-- A run of such calls. -/
abbrev LifeRun := Run (Guarded (fun t => t.procs.Lifecycle) TracedStep)

variable {kernelDirectory : Nat} {ops : List ProcOp} {t t' : Traced} {op : ProcOp}

theorem PidsKept.step (kept : PidsKept t) (counted : Counted t)
    (step : Guarded (fun t => t.procs.Lifecycle) TracedStep t op t') (few : Few t') : PidsKept t' := by
  obtain ⟨life, step⟩ := step
  obtain ⟨event, change, grown⟩ := step.change
  obtain ⟨procs, history⟩ := t'
  simp only at change grown
  subst grown
  unfold Few at few
  rw [drawn_append, List.length_append] at few
  have room : drawn event.toList ≠ [] → (drawn t.history).length + 1 < 2 ^ 32 := fun drew => by
    have := List.length_pos_iff.mpr drew
    omega
  cases change with
  | nothing => exact kept
  | created birth => exact kept.birth counted (room (List.cons_ne_nil _ _)) birth rfl fun _ => rfl
  | createFailed birth => exact kept.failed counted (room (List.cons_ne_nil _ _)) birth
  | forked birth => exact kept.birth counted (room (List.cons_ne_nil _ _)) birth rfl fun _ => rfl
  | forkFailed birth => exact kept.failed counted (room (List.cons_ne_nil _ _)) birth
  | exited ended => exact kept.exited (life _ rfl) ended
  | reaped reaped => exact kept.reaped reaped
  | switched _ => exact absurd life id
  | setCurrent _ => exact absurd life id

theorem PidsKept.init : PidsKept (.init kernelDirectory) :=
  ⟨fun _ member => absurd member List.not_mem_nil, List.nodup_nil, fun _ used => absurd rfl used,
    fun _ _ held => nomatch held⟩

theorem LifeRun.pidsKept (run : LifeRun (.init kernelDirectory) ops t) (few : Few t) : PidsKept t := by
  have inv : Counted t ∧ (Few t → PidsKept t) := by
    refine run.invariant (fun x => Counted x ∧ (Few x → PidsKept x)) (fun x op y here step => ?_)
      ⟨Counted.init, fun _ => PidsKept.init⟩
    refine ⟨here.1.step step.2, fun few => (here.2 ?_).step here.1 step few⟩
    exact lt_of_le_of_lt step.2.drawn_le few
  exact inv.2 few

/-- **PIDs identify processes**: different slots in use have different nonzero PIDs, no PID is given
twice, and `process_get_by_pid` returns the slot that was given the PID, from its creation until it is
reaped, and NULL before and after. -/
theorem pids_identify (run : LifeRun (.init kernelDirectory) ops t) (few : Few t) :
    (∀ i, (t.procs.table i).state ≠ .unused → (t.procs.table i).pid ≠ 0) ∧
    (∀ i j, (t.procs.table i).state ≠ .unused → (t.procs.table j).state ≠ .unused →
      (t.procs.table i).pid = (t.procs.table j).pid → i = j) ∧
    (given t.history).Nodup ∧
    ∀ pid, processGetByPid t.procs.table pid = holder t.history pid := by
  have kept := run.pidsKept few
  exact ⟨fun i used => kept.pid_ne_zero used, fun i j first second same => kept.unique first second same,
    kept.nodup.sublist (given_sublist t.history), kept.getByPid_eq⟩

/-- A fork that gets no directory, one that succeeds, and the child's exit. -/
def failedFork : Traced :=
  (runAll (guardedExec (fun t => t.procs.Lifecycle) Traced.exec) (.init 0x200000)
    [.create 0 0 ⟨0x501000, 0x502020, 0x503030⟩, .fork (some firstSlot) ⟨0, 0, 0⟩,
      .fork (some firstSlot) ⟨0x507000, 0x508020, 0⟩, .exit (some secondSlot) 7]).getD (.init 0x200000)

theorem pids_identify_failedFork :
    holder failedFork.history 3 = some secondSlot ∧
      processGetByPid failedFork.procs.table 3 = some secondSlot ∧
      processGetByPid failedFork.procs.table 2 = none := by
  have run : LifeRun (.init 0x200000) [.create 0 0 ⟨0x501000, 0x502020, 0x503030⟩,
      .fork (some firstSlot) ⟨0, 0, 0⟩, .fork (some firstSlot) ⟨0x507000, 0x508020, 0⟩,
      .exit (some secondSlot) 7] failedFork :=
    Run.of_guardedExec (Outcome.eq_ok_getD (by decide +kernel) _)
  have found := (pids_identify run (by unfold Few; decide +kernel)).2.2.2
  refine ⟨by decide +kernel, (found 3).trans (by decide +kernel), (found 2).trans (by decide +kernel)⟩

/-- A child is forked, exits and is reaped; then `process_exit` is called for its slot, which is UNUSED. -/
def exitAfterReap : List ProcOp :=
  [.create 0 0 ⟨0x501000, 0x502020, 0x503030⟩, .fork (some firstSlot) ⟨0x507000, 0x508020, 0⟩,
    .exit (some secondSlot) 7, .wait (some firstSlot), .exit (some secondSlot) 0]

/-- What these calls leave. -/
def exitedAgain : Traced := (runAll Traced.exec (.init 0x200000) exitAfterReap).getD (.init 0x200000)

/-- `process_exit` looks at no state: the reaped slot becomes a ZOMBIE, and its old PID is found again. -/
theorem exit_finds_reaped :
    Run TracedStep (.init 0x200000) exitAfterReap exitedAgain ∧ Few exitedAgain ∧
      holder exitedAgain.history 2 = none ∧
      (exitedAgain.procs.table secondSlot).state = .zombie ∧
      processGetByPid exitedAgain.procs.table 2 = some secondSlot :=
  ⟨Run.of_runAll (Outcome.eq_ok_getD (by decide +kernel) _), by unfold Few; decide +kernel, by decide +kernel,
    by decide +kernel, by decide +kernel⟩

end Kfs.Process
