/-
**Children are reaped exactly once.**

`Recorded` ties the table to the history by PIDs: who was forked by whom, who has exited with which
status, and who was reaped. `reaped_once`: `process_wait` returns a child that the caller forked, that
has exited, and that no wait returned before, takes it out of the list of children, and frees its slot;
and it finds one whenever there is one. Slots are used again and orphans keep stale links; PIDs tell the
processes apart.
-/

import Kfs.Process.Pids
import Kfs.Process.Tree

namespace Kfs.Process

/-- The PIDs an event speaks about. -/
def Event.mentions : Event → List Nat
  | .created pid _ => [pid]
  | .forked parent pid _ => [parent, pid]
  | .failed pid => [pid]
  | .exited pid _ => [pid]
  | .reaped parent pid _ => [parent, pid]

/-- A wait has returned this PID. -/
def WasReaped (history : List Event) (pid : Nat) : Prop := ∃ parent status, .reaped parent pid status ∈ history

/-- The process has exited. -/
def HasExited (history : List Event) (pid : Nat) : Prop := ∃ status, .exited pid status ∈ history

/-- The table agrees with the history. -/
structure Recorded (t : Traced) : Prop where
  /-- Events speak about PIDs that were drawn. -/
  known : ∀ event ∈ t.history, ∀ pid ∈ event.mentions, pid ∈ drawn t.history
  /-- A child was forked by its parent. -/
  forked : ∀ p c, ChildOf t.procs p c →
    .forked (t.procs.table p).pid (t.procs.table c).pid c ∈ t.history
  /-- What a live process forked is its child, until it is reaped. -/
  children : ∀ p pid c, (t.procs.table p).live → .forked (t.procs.table p).pid pid c ∈ t.history →
    WasReaped t.history pid ∨ ChildOf t.procs p c ∧ (t.procs.table c).pid = pid
  /-- A zombie exited with its status, and with no other. -/
  exited : ∀ c, (t.procs.table c).state = .zombie → ∀ status,
    .exited (t.procs.table c).pid status ∈ t.history ↔ status = (t.procs.table c).exitStatus
  /-- A live process has not exited. -/
  alive : ∀ c, (t.procs.table c).live → ¬ HasExited t.history (t.procs.table c).pid
  /-- A process in use was not reaped. -/
  present : ∀ c, (t.procs.table c).state ≠ .unused → ¬ WasReaped t.history (t.procs.table c).pid

/-! ### One call -/

namespace Recorded

variable {t : Traced} {s' : Procs} {i p c child : Slot} {l : List Slot} {status : Int}

theorem known_cons (recorded : Recorded t) {event : Event}
    (mentioned : ∀ pid ∈ event.mentions, pid ∈ drawn (event :: t.history)) :
    ∀ e ∈ event :: t.history, ∀ pid ∈ e.mentions, pid ∈ drawn (event :: t.history) := by
  intro e member pid here
  rcases List.mem_cons.mp member with rfl | member
  · exact mentioned pid here
  · have old := recorded.known e member pid here
    rw [← List.singleton_append, drawn_append]
    exact List.mem_append_right _ old

/-- A slot was taken: by a process that nobody forked or none, or by the child of a live process. -/
structure Newborn (t : Traced) (s' : Procs) (i : Slot) (event : Event) : Prop where
  unused : (t.procs.table i).state = .unused
  others : ∀ j, j ≠ i → (t.procs.table j).Relinked (s'.table j)
  parents : ∀ j, j ≠ i → (s'.table j).parent = (t.procs.table j).parent
  pid : (s'.table i).pid = t.procs.nextPid
  notZombie : (s'.table i).state ≠ .zombie
  born : (s'.table i).parent = none ∧
      (event = .created t.procs.nextPid i ∨ event = .failed t.procs.nextPid) ∨
    ∃ p, (t.procs.table p).live ∧ (s'.table i).parent = some p ∧ (s'.table i).state = .ready ∧
      event = .forked (t.procs.table p).pid t.procs.nextPid i

namespace Newborn

variable {event : Event}

theorem drawn_eq (newborn : Newborn t s' i event) :
    drawn (event :: t.history) = t.procs.nextPid :: drawn t.history := by
  rcases newborn.born with ⟨-, rfl | rfl⟩ | ⟨p, -, -, -, rfl⟩ <;> rfl

theorem hasExited (newborn : Newborn t s' i event) {pid : Nat} {status : Int} :
    .exited pid status ∈ event :: t.history ↔ .exited pid status ∈ t.history := by
  rcases newborn.born with ⟨-, rfl | rfl⟩ | ⟨p, -, -, -, rfl⟩ <;> simp

theorem wasReaped (newborn : Newborn t s' i event) {pid : Nat} :
    WasReaped (event :: t.history) pid ↔ WasReaped t.history pid := by
  rcases newborn.born with ⟨-, rfl | rfl⟩ | ⟨p, -, -, -, rfl⟩ <;> simp [WasReaped]

theorem apart (newborn : Newborn t s' i event) (live : (t.procs.table p).live) : p ≠ i := by
  rintro rfl
  exact live.1 newborn.unused

theorem childOf (newborn : Newborn t s' i event) (other : c ≠ i) :
    ChildOf s' p c ↔ ChildOf t.procs p c := by
  rw [ChildOf, ChildOf, (newborn.others c other).state, newborn.parents c other]

/-- A PID that is new is not in the history. -/
theorem silent (recorded : Recorded t) (new : t.procs.nextPid ∉ drawn t.history) {pid : Nat}
    {event : Event} (member : event ∈ t.history) (mentioned : pid ∈ event.mentions) :
    pid ≠ t.procs.nextPid := by
  rintro rfl
  exact new (recorded.known event member _ mentioned)

theorem known (newborn : Newborn t s' i event) (recorded : Recorded t) (kept : PidsKept t) :
    ∀ e ∈ event :: t.history, ∀ pid ∈ e.mentions, pid ∈ drawn (event :: t.history) := by
  refine recorded.known_cons fun pid mentioned => ?_
  rw [newborn.drawn_eq]
  rcases newborn.born with ⟨-, rfl | rfl⟩ | ⟨p, live, -, -, rfl⟩
  · rw [List.mem_singleton.mp mentioned]
    exact List.mem_cons_self
  · rw [List.mem_singleton.mp mentioned]
    exact List.mem_cons_self
  · simp only [Event.mentions, List.mem_cons, List.not_mem_nil, or_false] at mentioned
    rcases mentioned with rfl | rfl
    · exact List.mem_cons_of_mem _ (mem_drawn_of_holder (kept.holds p live.1))
    · exact List.mem_cons_self

theorem forked (newborn : Newborn t s' i event) (recorded : Recorded t) (family : Family t.procs)
    (child : ChildOf s' p c) : .forked (s'.table p).pid (s'.table c).pid c ∈ event :: t.history := by
  by_cases here : c = i
  · subst here
    rcases newborn.born with ⟨orphan, -⟩ | ⟨q, live, parent, -, rfl⟩
    · exact nomatch orphan.symm.trans child.2
    · cases parent.symm.trans child.2
      rw [newborn.pid, (newborn.others p (newborn.apart live)).pid]
      exact List.mem_cons_self
  · have before := (newborn.childOf here).mp child
    rw [(newborn.others c here).pid,
      (newborn.others p (newborn.apart (family.parents p c before))).pid]
    exact List.mem_cons_of_mem _ (recorded.forked p c before)

/-- The forks in the new history: the old ones, and the one of the newborn. -/
theorem mem_forked (newborn : Newborn t s' i event) {parent pid : Nat}
    (forked : .forked parent pid c ∈ event :: t.history) :
    .forked parent pid c ∈ t.history ∨ c = i ∧ pid = t.procs.nextPid ∧
      ∃ p, (t.procs.table p).live ∧ parent = (t.procs.table p).pid ∧ ChildOf s' p i := by
  rcases newborn.born with ⟨-, rfl | rfl⟩ | ⟨p, live, linked, ready, rfl⟩
  · exact .inl (by simpa using forked)
  · exact .inl (by simpa using forked)
  · rcases List.mem_cons.mp forked with same | forked
    · injection same with samePid pid slot
      exact .inr ⟨slot, pid, p, live, samePid, by rw [ready]; decide, linked⟩
    · exact .inl forked

theorem children (newborn : Newborn t s' i event) (recorded : Recorded t) (kept : PidsKept t)
    (new : t.procs.nextPid ∉ drawn t.history) {pid : Nat} (live : (s'.table p).live)
    (forked : .forked (s'.table p).pid pid c ∈ event :: t.history) :
    WasReaped t.history pid ∨ ChildOf s' p c ∧ (s'.table c).pid = pid := by
  by_cases here : p = i
  · subst here
    rw [newborn.pid] at forked
    rcases newborn.mem_forked forked with old | ⟨-, -, q, alive, samePid, -⟩
    · exact absurd rfl (silent recorded new old (by simp [Event.mentions]))
    · exact absurd (mem_drawn_of_holder (kept.holds q alive.1)) (samePid ▸ new)
  · have same := newborn.others p here
    rw [same.pid] at forked
    rw [live_iff same.state] at live
    rcases newborn.mem_forked forked with old | ⟨rfl, rfl, q, alive, samePid, child⟩
    · rcases recorded.children p pid c live old with reaped | ⟨child, rfl⟩
      · exact .inl reaped
      · have other : c ≠ i := by
          rintro rfl
          exact child.1 newborn.unused
        exact .inr ⟨(newborn.childOf other).mpr child, (newborn.others c other).pid⟩
    · rw [kept.unique live.1 alive.1 samePid]
      exact .inr ⟨child, newborn.pid⟩

/-- **A new process, or a call that took a PID and failed.** -/
theorem recorded (newborn : Newborn t s' i event) (recorded : Recorded t) (family : Family t.procs)
    (kept : PidsKept t) (new : t.procs.nextPid ∉ drawn t.history) :
    Recorded ⟨s', event :: t.history⟩ := by
  refine ⟨newborn.known recorded kept, fun q c child => newborn.forked recorded family child,
    fun q pid c live forked => ?_, fun c zombie status => ?_, fun c live exited => ?_,
    fun c used reaped => ?_⟩
  · rw [newborn.wasReaped]
    exact newborn.children recorded kept new live forked
  · have other : c ≠ i := by
      rintro rfl
      exact newborn.notZombie zombie
    have same := newborn.others c other
    rw [newborn.hasExited]
    simp only [same.pid, same.exitStatus, same.state] at zombie ⊢
    exact recorded.exited c zombie status
  · obtain ⟨status, exited⟩ := exited
    have exited := newborn.hasExited.mp exited
    by_cases here : c = i
    · subst here
      exact absurd newborn.pid (silent recorded new exited (by simp [Event.mentions]))
    · have same := newborn.others c here
      simp only [same.pid] at exited
      exact recorded.alive c ((live_iff same.state).mp live) ⟨status, exited⟩
  · have reaped := newborn.wasReaped.mp reaped
    by_cases here : c = i
    · subst here
      obtain ⟨parent, status, reaped⟩ := reaped
      exact absurd newborn.pid (silent recorded new reaped (by simp [Event.mentions]))
    · have same := newborn.others c here
      simp only [same.pid, same.state] at reaped used
      exact recorded.present c used reaped

end Newborn

/-- **A live process exits.** -/
theorem exit (recorded : Recorded t) (kept : PidsKept t) (live : (t.procs.table i).live)
    (members : ∀ c, c ∈ l ↔ ChildOf t.procs i c) (ended : t.procs.Ended s' i status)
    (orphaned : Family.Orphaned t.procs s' l) :
    Recorded ⟨s', .exited (t.procs.table i).pid status :: t.history⟩ := by
  have pids : ∀ j, (s'.table j).pid = (t.procs.table j).pid := fun j => by
    by_cases here : j = i
    · subst here
      exact ended.self.pid
    · exact (ended.others j here).pid
  have childOf : ∀ {q c}, ChildOf s' q c ↔ ChildOf t.procs q c ∧ q ≠ i :=
    Family.childOf_exit live.1 members ended orphaned
  have reaped : ∀ {pid}, WasReaped (.exited (t.procs.table i).pid status :: t.history) pid ↔
      WasReaped t.history pid := by
    simp [WasReaped]
  refine ⟨recorded.known_cons fun pid mentioned => ?_, fun q c child => ?_,
    fun q pid c alive forked => ?_, fun c zombie status' => ?_, fun c alive exited => ?_,
    fun c used gone => ?_⟩
  · rw [List.mem_singleton.mp mentioned]
    show _ ∈ drawn t.history
    exact mem_drawn_of_holder (kept.holds i live.1)
  · simp only [pids]
    exact List.mem_cons_of_mem _ (recorded.forked q c (childOf.mp child).1)
  · have other : q ≠ i := by
      rintro rfl
      exact alive.2 ended.zombie
    have before := (live_iff (ended.others q other).state).mp alive
    simp only [pids, List.mem_cons, reduceCtorEq, false_or] at forked ⊢
    rw [reaped, childOf]
    rcases recorded.children q pid c before forked with gone | ⟨child, same⟩
    · exact .inl gone
    · exact .inr ⟨⟨child, other⟩, same⟩
  · simp only [pids, List.mem_cons, Event.exited.injEq]
    by_cases here : c = i
    · subst here
      rw [ended.self.exitStatus]
      simp only [true_and]
      exact ⟨fun h => h.resolve_right fun old => recorded.alive c live ⟨status', old⟩, .inl⟩
    · have same := ended.others c here
      simp only [same.state] at zombie
      have apart : (t.procs.table c).pid ≠ (t.procs.table i).pid := fun equal =>
        here (kept.unique (by rw [zombie]; decide) live.1 equal)
      rw [same.exitStatus]
      simp only [apart, false_and, false_or]
      exact recorded.exited c zombie status'
  · obtain ⟨status', exited⟩ := exited
    have other : c ≠ i := by
      rintro rfl
      exact alive.2 ended.zombie
    have before := (live_iff (ended.others c other).state).mp alive
    simp only [pids, List.mem_cons, Event.exited.injEq] at exited
    rcases exited with ⟨equal, -⟩ | exited
    · exact other (kept.unique before.1 live.1 equal)
    · exact recorded.alive c before ⟨status', exited⟩
  · simp only [pids] at gone
    refine recorded.present c (fun unused => ?_) (reaped.mp gone)
    have other : c ≠ i := by
      rintro rfl
      exact live.1 unused
    exact used ((ended.others c other).state.trans unused)

/-- **A child is reaped.** -/
theorem reap (recorded : Recorded t) (kept : PidsKept t) (live : (t.procs.table p).live)
    (unlinked : Unlinked t.procs s' p child l) :
    Recorded ⟨s', .reaped (t.procs.table p).pid (t.procs.table child).pid
      (t.procs.table child).exitStatus :: t.history⟩ := by
  have taken := unlinked.reaped
  have zombie : (t.procs.table child).state ≠ .unused := by
    rw [taken.zombie]
    decide
  have pids : ∀ j, (s'.table j).pid = (t.procs.table j).pid := fun j => by
    by_cases here : j = child
    · subst here
      exact taken.self.pid
    · exact (taken.others j here).pid
  have apart : ∀ c, (s'.table c).state ≠ .unused → c ≠ child := by
    rintro c used rfl
    exact used taken.unused
  have before : ∀ c, (s'.table c).state ≠ .unused → (s'.table c).state = (t.procs.table c).state :=
    fun c used => (taken.others c (apart c used)).state
  refine ⟨recorded.known_cons fun pid mentioned => ?_, fun q c alive => ?_,
    fun q pid c alive forked => ?_, fun c ended status' => ?_, fun c alive exited => ?_,
    fun c used gone => ?_⟩
  · simp only [Event.mentions, List.mem_cons, List.not_mem_nil, or_false] at mentioned
    show pid ∈ drawn t.history
    rcases mentioned with rfl | rfl
    · exact mem_drawn_of_holder (kept.holds p live.1)
    · exact mem_drawn_of_holder (kept.holds child zombie)
  · simp only [pids]
    exact List.mem_cons_of_mem _ (recorded.forked q c (unlinked.childOf.mp alive).2)
  · have live' := (live_iff (before q alive.1)).mp alive
    simp only [pids, List.mem_cons, reduceCtorEq, false_or] at forked ⊢
    rcases recorded.children q pid c live' forked with ⟨parent, status', gone⟩ | ⟨known, rfl⟩
    · exact .inl ⟨parent, status', List.mem_cons_of_mem _ gone⟩
    · by_cases here : c = child
      · subst here
        exact .inl ⟨_, _, List.mem_cons_self⟩
      · exact .inr ⟨unlinked.childOf.mpr ⟨here, known⟩, rfl⟩
  · have used : (s'.table c).state ≠ .unused := by
      rw [ended]
      decide
    have same := taken.others c (apart c used)
    simp only [pids, same.exitStatus, List.mem_cons, reduceCtorEq, false_or]
    exact recorded.exited c ((before c used).symm.trans ended) status'
  · obtain ⟨status', exited⟩ := exited
    simp only [pids, List.mem_cons, reduceCtorEq, false_or] at exited
    exact recorded.alive c ((live_iff (before c alive.1)).mp alive) ⟨status', exited⟩
  · obtain ⟨parent, status', gone⟩ := gone
    have used' : (t.procs.table c).state ≠ .unused := before c used ▸ used
    simp only [pids, List.mem_cons, Event.reaped.injEq] at gone
    rcases gone with ⟨-, equal, -⟩ | gone
    · exact apart c used (kept.unique used' zombie equal)
    · exact recorded.present c used' ⟨parent, status', gone⟩

end Recorded

/-! ### Runs -/

/-- Forks and waits are by live processes, a fork that finds a slot gets its memory, and a process exits
once. -/
def Procs.Parental (s : Procs) : ProcOp → Prop
  | .create _ _ _ => True
  | .fork parent mem => ∀ p ∈ parent, (s.table p).live ∧
      (s.allocSlot = none ∨ cloned (s.table p).pageDirectory mem ≠ 0 ∧ mem.kernelStack ≠ 0)
  | .exit proc _ => ∀ i ∈ proc, (s.table i).live
  | .wait parent => ∀ p ∈ parent, (s.table p).live
  | .schedule => False
  | .setCurrent _ => False

instance (s : Procs) : (op : ProcOp) → Decidable (s.Parental op)
  | .create _ _ _ => inferInstanceAs (Decidable True)
  | .fork parent _ => inferInstanceAs (Decidable (∀ p ∈ parent, _))
  | .exit proc _ => inferInstanceAs (Decidable (∀ i ∈ proc, _))
  | .wait parent => inferInstanceAs (Decidable (∀ p ∈ parent, _))
  | .schedule => inferInstanceAs (Decidable False)
  | .setCurrent _ => inferInstanceAs (Decidable False)

/-- A run of such calls. -/
abbrev ReapRun := Run (Guarded (fun t => t.procs.Parental) TracedStep)

theorem Procs.Parental.lifecycle {s : Procs} {op : ProcOp} (parental : s.Parental op) :
    s.Lifecycle op := by
  cases op with
  | exit proc status => exact fun i here => (parental i here).1
  | schedule => exact parental
  | setCurrent proc => exact parental
  | _ => trivial

/-- The tree and the history while there are PIDs. -/
structure Told (t : Traced) : Prop where
  family : Family t.procs
  recorded : Recorded t

namespace Told

variable {t t' : Traced} {op : ProcOp} {i p : Slot} {mem : Supply} {status : Int}

theorem create (told : Told t) (kept : PidsKept t) (entryPoint uid : Nat)
    (new : t.procs.nextPid ∉ drawn t.history) (step : TracedStep t (.create entryPoint uid mem) t') :
    Told t' := by
  cases step
  cases found : t.procs.allocSlot with
  | none => exact told
  | some i =>
      have unused := Procs.allocSlot_unused found
      have birth := Procs.createAt_birth unused entryPoint uid mem
      have orphan := (Procs.createAt_links (s := t.procs) (i := i) entryPoint uid mem).1
      have family := told.family.createAt unused entryPoint uid mem
      have parents : ∀ j, j ≠ i →
          ((t.procs.createAt i entryPoint uid mem).1.table j).parent = (t.procs.table j).parent :=
        fun j other => by rw [Procs.createAt_others entryPoint uid mem other]
      simp only [Option.map_some]
      generalize t.procs.createAt i entryPoint uid mem = outcome at *
      obtain ⟨s', result⟩ := outcome
      have notZombie : (s'.table i).state ≠ .zombie := birth.notZombie
      refine ⟨family, ?_⟩
      rcases birth.result with rfl | rfl
      · exact Recorded.Newborn.recorded ⟨unused, birth.others, parents, birth.pid, notZombie,
          .inl ⟨orphan, .inl rfl⟩⟩ told.recorded told.family kept new
      · exact Recorded.Newborn.recorded ⟨unused, birth.others, parents, birth.pid, notZombie,
          .inl ⟨orphan, .inr rfl⟩⟩ told.recorded told.family kept new

theorem fork (told : Told t) (kept : PidsKept t) {parent : Option Slot}
    (parental : t.procs.Parental (.fork parent mem)) (new : t.procs.nextPid ∉ drawn t.history)
    (step : TracedStep t (.fork parent mem) t') : Told t' := by
  cases step
  cases parent with
  | none => exact told
  | some p =>
      obtain ⟨live, memory⟩ := parental p rfl
      cases found : t.procs.allocSlot with
      | none => exact told
      | some c =>
          obtain ⟨directory, kernelStack⟩ := memory.resolve_left (by simp [found])
          have unused := Procs.allocSlot_unused found
          have apart : c ≠ p := by
            rintro rfl
            exact live.1 unused
          have linked := t.procs.forkAt_linked apart mem
          have birth := Procs.forkAt_birth unused p mem
          have made : (t.procs.forkAt p c mem).2 = some c := by
            simp [Procs.forkAt, t.procs.linked_directory, directory, kernelStack]
          simp only
          generalize t.procs.forkAt p c mem = outcome at *
          obtain ⟨s', result⟩ := outcome
          obtain rfl : result = some c := made
          have ready : (s'.table c).state = .ready := birth.ready
          have parents : ∀ j, j ≠ c → (s'.table j).parent = (t.procs.table j).parent := by
            intro j other
            by_cases here : j = p
            · rw [here, linked.parent]
            · rw [linked.others j other here]
          refine ⟨told.family.fork live unused linked ready, ?_⟩
          exact Recorded.Newborn.recorded ⟨unused, birth.others, parents, birth.pid, birth.notZombie,
            .inr ⟨p, live, linked.child.1, ready, rfl⟩⟩ told.recorded told.family kept new

theorem exit (told : Told t) (kept : PidsKept t) {proc : Option Slot}
    (parental : t.procs.Parental (.exit proc status)) (step : TracedStep t (.exit proc status) t') :
    Told t' := by
  obtain ⟨⟨procs, event⟩, done, rest⟩ := Outcome.bind_eq_ok.mp step
  obtain ⟨s', exited, last⟩ := Outcome.bind_eq_ok.mp done
  cases last
  cases rest
  cases proc with
  | none =>
      cases exited
      exact told
  | some i =>
      have live := parental i rfl
      obtain ⟨l, kids, members⟩ := told.family.lists i live
      obtain ⟨_, done', orphaned⟩ := Family.exit_orphaned kids status
      cases exited.symm.trans done'
      have ended := Procs.exit_ended exited
      exact ⟨told.family.exit live.1 members ended orphaned,
        told.recorded.exit kept live members ended orphaned⟩

theorem wait (told : Told t) (kept : PidsKept t) {parent : Option Slot}
    (parental : t.procs.Parental (.wait parent)) (step : TracedStep t (.wait parent) t') : Told t' := by
  obtain ⟨⟨procs, event⟩, done, rest⟩ := Outcome.bind_eq_ok.mp step
  obtain ⟨⟨s', pid, status⟩, waited, last⟩ := Outcome.bind_eq_ok.mp done
  cases rest
  cases parent with
  | none =>
      cases waited
      cases last
      exact told
  | some p =>
      have live := parental p rfl
      obtain ⟨l, kids, members⟩ := told.family.lists p live
      rcases wait_eq kids with ⟨-, done'⟩ | ⟨child, _, -, done', unlinked⟩
      · cases waited.symm.trans done'
        cases last
        exact told
      · cases waited.symm.trans done'
        cases last
        exact ⟨told.family.wait kids members unlinked, told.recorded.reap kept live unlinked⟩

theorem step (told : Told t) (kept : PidsKept t) (counted : Counted t)
    (step : Guarded (fun t => t.procs.Parental) TracedStep t op t') (few : Few t') : Told t' := by
  obtain ⟨parental, step⟩ := step
  have before : Few t := lt_of_le_of_lt step.drawn_le few
  have new := (kept.fresh counted (by unfold Few at before; omega)).2
  cases op with
  | create entryPoint uid mem => exact told.create kept entryPoint uid new step
  | fork parent mem => exact told.fork kept parental new step
  | exit proc status => exact told.exit kept parental step
  | wait parent => exact told.wait kept parental step
  | schedule => exact absurd parental id
  | setCurrent proc => exact absurd parental id

theorem init {kernelDirectory : Nat} : Told (.init kernelDirectory) :=
  ⟨Family.init, fun _ member => absurd member List.not_mem_nil, fun _ _ child => absurd rfl child.1,
    fun _ _ _ live => absurd rfl live.1, fun _ zombie => (nomatch zombie),
    fun _ live => absurd rfl live.1, fun _ used => absurd rfl used⟩

end Told

variable {kernelDirectory : Nat} {ops : List ProcOp} {t : Traced} {p : Slot}

theorem ReapRun.lifeRun (run : ReapRun (.init kernelDirectory) ops t) :
    LifeRun (.init kernelDirectory) ops t :=
  run.mono fun _ _ _ step => ⟨step.1.lifecycle, step.2⟩

theorem ReapRun.told (run : ReapRun (.init kernelDirectory) ops t) (few : Few t) : Told t := by
  have inv : Counted t ∧ (Few t → PidsKept t ∧ Told t) := by
    refine run.invariant (fun x => Counted x ∧ (Few x → PidsKept x ∧ Told x))
      (fun x op y here step => ?_) ⟨Counted.init, fun _ => ⟨PidsKept.init, Told.init⟩⟩
    · refine ⟨here.1.step step.2, fun few => ?_⟩
      obtain ⟨kept, told⟩ := here.2 (lt_of_le_of_lt step.2.drawn_le few)
      exact ⟨kept.step here.1 ⟨step.1.lifecycle, step.2⟩ few, told.step kept here.1 step few⟩
  exact (inv.2 few).2

/-- A child that the process forked has exited and no wait has returned it. -/
def Waiting (t : Traced) (p : Slot) : Prop :=
  ∃ pid c, .forked (t.procs.table p).pid pid c ∈ t.history ∧ HasExited t.history pid ∧
    ¬ WasReaped t.history pid

/-- What a successful wait returns and does: a child that the process forked, that exited with this
status, and that no wait returned before, leaves the list, and its slot is free. -/
structure ReapsChild (t : Traced) (p : Slot) (l : List Slot) (s' : Procs) (pid : Nat)
    (status : Option Int) (child : Slot) : Prop where
  forked : .forked (t.procs.table p).pid pid child ∈ t.history
  exited : ∃ given, status = some given ∧ ∀ any, .exited pid any ∈ t.history ↔ any = given
  unreaped : ¬ WasReaped t.history pid
  member : child ∈ l
  kids : Kids s' p (l.erase child)
  freed : (s'.table child).state = .unused
  others : ∀ j, j ≠ child → (t.procs.table j).Relinked (s'.table j)

theorem Told.reapsChild {s' : Procs} {child : Slot} {l : List Slot} (told : Told t)
    (members : ∀ c, c ∈ l ↔ ChildOf t.procs p c) (unlinked : Unlinked t.procs s' p child l) :
    ReapsChild t p l s' (t.procs.table child).pid (some (t.procs.table child).exitStatus) child := by
  have reaped := unlinked.reaped
  have isChild := (members child).mp unlinked.member
  exact ⟨told.recorded.forked p child isChild, ⟨_, rfl, told.recorded.exited child reaped.zombie⟩,
    told.recorded.present child isChild.1, unlinked.member, unlinked.kids, reaped.unused, reaped.others⟩

/-- A child that waits to be reaped is a zombie in the list. -/
theorem Told.zombie_of_waiting {l : List Slot} (told : Told t) (live : (t.procs.table p).live)
    (members : ∀ c, c ∈ l ↔ ChildOf t.procs p c) (waiting : Waiting t p) :
    ∃ c ∈ l, (t.procs.table c).state = .zombie := by
  obtain ⟨pid, c, forked, exited, unreaped⟩ := waiting
  obtain ⟨child, rfl⟩ := (told.recorded.children p pid c live forked).resolve_left unreaped
  refine ⟨c, (members c).mpr child, by_contra fun notZombie => ?_⟩
  exact told.recorded.alive c ⟨child.1, notZombie⟩ exited

/-- **Exactly-once reaping.** -/
theorem reaped_once (run : ReapRun (.init kernelDirectory) ops t) (few : Few t)
    (live : (t.procs.table p).live) :
    ∃ l s' pid status, Kids t.procs p l ∧ t.procs.wait (some p) = .ok (s', pid, status) ∧
      (pid ≠ noChild → ∃ child, ReapsChild t p l s' pid status child) ∧
      (pid = noChild ∧ s' = t.procs ↔ ¬ Waiting t p) := by
  have told := run.told few
  have kept := run.lifeRun.pidsKept few
  obtain ⟨l, kids, members⟩ := told.family.lists p live
  rcases wait_eq kids with ⟨none, done⟩ | ⟨child, s', -, done, unlinked⟩
  · refine ⟨l, _, _, _, kids, done, fun found => absurd rfl found, iff_of_true ⟨rfl, rfl⟩ fun waiting => ?_⟩
    obtain ⟨c, member, zombie⟩ := told.zombie_of_waiting live members waiting
    have missing := List.find?_eq_none.mp none c member
    simp only [decide_eq_true_eq] at missing
    exact missing zombie
  · have reaps := told.reapsChild members unlinked
    have isPid : (t.procs.table child).pid ≠ noChild := by
      have drew := mem_drawn_of_holder (kept.holds child ((members child).mp unlinked.member).1)
      have high := (kept.bounds _ drew).2
      unfold Few at few
      unfold noChild
      omega
    refine ⟨l, s', _, _, kids, done, fun _ => ⟨child, reaps⟩, iff_of_false (fun found => isPid found.1)
      fun idle => idle ⟨_, child, reaps.forked, ?_, reaps.unreaped⟩⟩
    obtain ⟨given, -, exited⟩ := reaps.exited
    exact ⟨given, (exited given).mpr rfl⟩

/-- Two children, the first of which has exited. -/
def oneExited : Traced :=
  (runAll (guardedExec (fun t => t.procs.Parental) Traced.exec) (.init 0x200000)
    [.create 0 0 sampleSupply, .fork (some firstSlot) sampleSupply, .fork (some firstSlot) sampleSupply,
      .exit (some secondSlot) 7]).getD (.init 0x200000)

theorem reaped_once_sibling : ∃ s' l child,
    oneExited.procs.wait (some firstSlot) = .ok (s', 2, some 7) ∧
      ReapsChild oneExited firstSlot l s' 2 (some 7) child := by
  have run : ReapRun (.init 0x200000) [.create 0 0 sampleSupply, .fork (some firstSlot) sampleSupply,
      .fork (some firstSlot) sampleSupply, .exit (some secondSlot) 7] oneExited :=
    Run.of_guardedExec (Outcome.eq_ok_getD (by decide +kernel) _)
  obtain ⟨l, s', pid, status, -, done, found, -⟩ :=
    reaped_once run (by unfold Few; decide +kernel) (by decide +kernel :
      (oneExited.procs.table firstSlot).live)
  have value : ((oneExited.procs.wait (some firstSlot)).getD (oneExited.procs, 0, none)).2 =
      (2, some 7) := by decide +kernel
  rw [done] at value
  obtain ⟨rfl, rfl⟩ := Prod.mk.inj value
  obtain ⟨child, reaps⟩ := found (by decide)
  exact ⟨s', l, child, done, reaps⟩

end Kfs.Process
