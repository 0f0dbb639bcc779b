/-
**A READY process gets its turn.**
Each call of the scheduler moves on to the nearest READY slot, so what is ahead of a READY process becomes less with
every call, and nothing else makes it more: new processes may take slots, but the current one stays where it is.
`ready_runs`: in every run in which nobody ends the process or sets the current one by hand, the process runs after at
most as many calls of the scheduler as there are slots from the current one to its own.
-/

import Kfs.Base.Progress
import Kfs.Process.RoundRobin

namespace Kfs.Process

/-! ### Turns that are left -/

section Search

variable {table : Table} {cur p : Slot} {R : Finset Slot}

/-- **The search finds the nearest READY slot** besides the current one, if there is any. -/
theorem pickNext_others (ready : ∀ i, i ∈ R ↔ i ≠ cur ∧ (table i).state = .ready) (member : p ∈ R) :
    ∃ next, pickNext table (some cur) = some next ∧ NearestOn R cur next := by
  unfold pickNext
  dsimp only
  cases ahead : slots.find? fun i => cur < i ∧ (table i).state = .ready with
  | some next =>
      obtain ⟨passes, first⟩ := find_slots_first ahead
      simp only [decide_eq_true_eq] at passes first
      refine ⟨next, rfl, (ready next).mpr ⟨passes.1.ne', passes.2⟩, fun c inside => ?_⟩
      exact ringDistance_le_ahead passes.1 fun later => first c ⟨later, ((ready c).mp inside).2⟩
  | none =>
      have behind : ∀ c ∈ R, c < cur := by
        intro c inside
        have none := find_slots_none ahead c
        simp only [((ready c).mp inside).2, and_true, decide_eq_false_iff_not] at none
        exact lt_of_le_of_ne (not_lt.mp none) ((ready c).mp inside).1
      cases before : slots.find? fun i => i < cur ∧ (table i).state = .ready with
      | some next =>
          obtain ⟨passes, first⟩ := find_slots_first before
          simp only [decide_eq_true_eq] at passes first
          refine ⟨next, rfl, (ready next).mpr ⟨passes.1.ne, passes.2⟩, fun c inside => ?_⟩
          have least := first c ⟨behind c inside, ((ready c).mp inside).2⟩
          exact ringDistance_le_behind passes.1.le (behind c inside).le least
      | none =>
          have none := find_slots_none before p
          simp only [((ready p).mp member).2, behind p member, and_self, decide_true] at none
          cases none

end Search

/-- A slot that is passed is nearer than the one that is waited for. -/
theorem ringDistance_passed {size : Nat} {cur next p : Fin size} (less : ringDistance cur next < ringDistance cur p) :
    ringDistance next p + ringDistance cur next = ringDistance cur p := by
  unfold ringDistance at *
  have a := cur.isLt
  have b := next.isLt
  have c := p.isLt
  simp only [Fin.lt_def] at *
  split_ifs at * <;> omega

theorem ringDistance_lt {size : Nat} {a b : Fin size} (apart : a ≠ b) : ringDistance a b < size := by
  unfold ringDistance
  have inside := a.isLt
  have other : (a : Nat) ≠ b := fun same => apart (Fin.ext same)
  simp only [Fin.lt_def]
  split_ifs <;> omega

theorem ringDistance_injective {size : Nat} {a b c : Fin size} (same : ringDistance a b = ringDistance a c) :
    b = c := by
  rw [← ringAdvance_distance a b, same, ringAdvance_distance]

namespace Procs

variable {s s' : Procs} {op : ProcOp} {event : Option Event} {p : Slot}

/-- The calls of the scheduler until a process runs, at most. -/
def turnsLeft (s : Procs) (p : Slot) : Nat :=
  match s.currentProcess with
  | some cur => ringDistance cur p
  | none => maxProcesses

/-- A process is READY, and another one is current or none. -/
structure Waits (s : Procs) (p : Slot) : Prop where
  ready : (s.table p).state = .ready
  apart : s.currentProcess ≠ some p

/-- A process is current and RUNNING. -/
structure HasTurn (s : Procs) (p : Slot) : Prop where
  current : s.currentProcess = some p
  running : (s.table p).state = .running

theorem turnsLeft_some {cur : Slot} (current : s.currentProcess = some cur) : s.turnsLeft p = ringDistance cur p := by
  unfold turnsLeft
  rw [current]

theorem turnsLeft_pos (s : Procs) (p : Slot) : 0 < s.turnsLeft p := by
  unfold turnsLeft
  split
  · exact ringDistance_pos _ p
  · decide

/-- A switch to another process leaves a READY one waiting. -/
theorem Waits.switch (waits : s.Waits p) {next : Slot} (other : next ≠ p) : (s.switch next).Waits p where
  ready := by
    rw [switch_table, if_neg other.symm]
    split
    · rfl
    · exact waits.ready
  apart := by
    rw [switch_currentProcess]
    exact fun same => other (Option.some.inj same)

theorem hasTurn_switch (s : Procs) (p : Slot) : (s.switch p).HasTurn p where
  current := switch_currentProcess s p
  running := by rw [switch_table, if_pos rfl]

/-- **A call of the scheduler** brings the turn, or brings it nearer. -/
theorem Waits.schedule (waits : s.Waits p) :
    s.schedule.HasTurn p ∨ s.schedule.Waits p ∧ s.schedule.turnsLeft p + 1 ≤ s.turnsLeft p := by
  unfold Procs.schedule
  cases current : s.currentProcess with
  | none =>
      cases found : pickNext s.table none with
      | none =>
          have missing := find_slots_none (show slots.find? (fun i => (s.table i).state = .ready) = none from found) p
          simp only [waits.ready, decide_true] at missing
          cases missing
      | some next =>
          dsimp only
          rw [if_pos (Option.some_ne_none next)]
          by_cases own : next = p
          · exact .inl (own ▸ hasTurn_switch s next)
          · refine .inr ⟨waits.switch own, ?_⟩
            rw [turnsLeft_some (switch_currentProcess s next), turnsLeft, current]
            exact ringDistance_lt own
  | some cur =>
      have apart : p ≠ cur := fun same => waits.apart (same ▸ current)
      obtain ⟨next, found, nearest⟩ := @pickNext_others s.table cur p
        (Finset.univ.filter fun i => i ≠ cur ∧ (s.table i).state = .ready) (fun i => by simp)
        (by simp [apart, waits.ready])
      have other : next ≠ cur := (Finset.mem_filter.mp nearest.member).2.1
      rw [found]
      dsimp only
      rw [if_pos fun same => other (Option.some.inj same)]
      by_cases own : next = p
      · exact .inl (own ▸ hasTurn_switch s next)
      · refine .inr ⟨waits.switch own, ?_⟩
        have less : ringDistance cur next < ringDistance cur p :=
          lt_of_le_of_ne (nearest.nearest p (by simp [apart, waits.ready])) fun same =>
            own (ringDistance_injective same)
        have sum := ringDistance_passed less
        have some' := ringDistance_pos cur next
        rw [turnsLeft_some (switch_currentProcess s next), turnsLeft_some current]
        omega

/-- What leaves the current process and the state of this one alone. -/
theorem Waits.same (waits : s.Waits p) (current : s'.currentProcess = s.currentProcess)
    (state : (s'.table p).state = (s.table p).state) : s'.Waits p ∧ s'.turnsLeft p = s.turnsLeft p :=
  ⟨⟨state.trans waits.ready, fun now => waits.apart (current.symm.trans now)⟩, by rw [turnsLeft, turnsLeft, current]⟩

/-- Nobody ends the process, and nobody sets the current one. -/
def Steady (p : Slot) (op : ProcOp) : Prop := (∀ status, op ≠ .exit (some p) status) ∧ ∀ proc, op ≠ .setCurrent proc

/-- **Every other call** leaves the turn as near as it was. -/
theorem Waits.change (waits : s.Waits p) (steady : Steady p op) (other : op ≠ .schedule)
    (change : s.Change op s' event) : s'.Waits p ∧ s'.turnsLeft p = s.turnsLeft p := by
  have born : ∀ {i : Slot} {directory : Nat} {result : Option Slot}, s.Birth s' i directory result →
      s'.Waits p ∧ s'.turnsLeft p = s.turnsLeft p := by
    intro i directory result birth
    have elsewhere : p ≠ i := by
      intro same
      have unused := birth.unused
      rw [← same, waits.ready] at unused
      cases unused
    exact waits.same birth.currentProcess (birth.others p elsewhere).state
  cases change with
  | nothing => exact ⟨waits, rfl⟩
  | created birth => exact born birth
  | createFailed birth => exact born birth
  | forked birth => exact born birth
  | forkFailed birth => exact born birth
  | @exited _ i status ended =>
      have elsewhere : p ≠ i := fun same => steady.1 status (same ▸ rfl)
      exact waits.same ended.currentProcess (ended.others p elsewhere).state
  | @reaped _ parent child reaped =>
      have elsewhere : p ≠ child := by
        intro same
        have zombie := reaped.zombie
        rw [← same, waits.ready] at zombie
        cases zombie
      exact waits.same reaped.currentProcess (reaped.others p elsewhere).state
  | switched => exact absurd rfl other
  | setCurrent proc => exact absurd rfl (steady.2 proc)

end Procs

/-- The calls of the scheduler. -/
def ProcOp.schedules (op : ProcOp) : Bool := op = .schedule

/-- **A READY process runs**, within as many calls of the scheduler as there are slots from the current process to it,
in whatever order processes are created, forked, ended and waited for in between. -/
theorem ready_runs {t u : Traced} {ops : List ProcOp} {p : Slot} (run : Run TracedStep t ops u)
    (waits : t.procs.Waits p) (steady : ∀ op ∈ ops, Procs.Steady p op)
    (enough : t.procs.turnsLeft p ≤ ops.countP ProcOp.schedules) :
    PassesWithin TracedStep ProcOp.schedules (fun v => v.procs.HasTurn p) (t.procs.turnsLeft p) t ops u := by
  refine run.reaches (fun v => v.procs.Waits p) (fun v => v.procs.HasTurn p) (fun v => v.procs.turnsLeft p) ?_
    (fun v _ => v.procs.turnsLeft_pos p) waits enough
  intro x op y member here step
  by_cases schedules : op = .schedule
  · subst schedules
    cases step
    exact here.schedule
  · obtain ⟨event, change, -⟩ := step.change
    obtain ⟨still, same⟩ := here.change (steady op member) schedules change
    refine .inr ⟨still, ?_⟩
    rw [same, if_neg (by simpa [ProcOp.schedules] using schedules)]
    exact le_rfl

/-- Of two processes the one that does not run gets its turn at the next call. -/
theorem ready_runs_pair : ∃ u, Run TracedStep ⟨pairKernel.procs, []⟩ [.wait none, .schedule] u ∧
    PassesWithin TracedStep ProcOp.schedules (fun v => v.procs.HasTurn secondSlot) 1 ⟨pairKernel.procs, []⟩
      [.wait none, .schedule] u := by
  have run : Run TracedStep ⟨pairKernel.procs, []⟩ [.wait none, .schedule] ⟨pairKernel.procs.schedule, []⟩ :=
    .cons rfl (.cons rfl (.nil _))
  have steady : ∀ op ∈ [ProcOp.wait none, .schedule], Procs.Steady secondSlot op := by
    intro op member
    rcases List.mem_pair.mp member with rfl | rfl
    · exact ⟨(fun _ same => by cases same), (fun _ same => by cases same)⟩
    · exact ⟨(fun _ same => by cases same), (fun _ same => by cases same)⟩
  exact ⟨_, run, ready_runs run ⟨by decide, by decide⟩ steady (by decide)⟩

end Kfs.Process
