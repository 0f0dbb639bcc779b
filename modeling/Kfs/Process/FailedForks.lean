/-
**A fork that fails.**

`process_fork` links the child into its parent's list before it asks for memory, and gives the slot back
without taking the link out again. Two tables are `Alike` when they differ only in control blocks that
are not in use, and there not in their state or sibling link: no later call for processes in use tells
them apart (`Alike.exec`, `Alike.answers`).

`fork_unharmed` — a fork that returns NULL leaves a table like the one before exactly when no slot was
free, or the parent's list already began with the free slot and that slot was its own successor, as two
failed forks in a row leave it.
-/

import Kfs.Process.Refine
import Kfs.Process.Tree
import Kfs.Process.Release

namespace Kfs.Process

open Kfs.Heap Kfs.Paging

/-! ### Tables that differ only in free slots -/

/-- The two control blocks agree in state and sibling link, and in everything when they are in use. -/
structure Pcb.Alike (a b : Pcb) : Prop where
  state : b.state = a.state
  nextSibling : b.nextSibling = a.nextSibling
  used : a.state ≠ .unused → b = a

/-- The tables agree but for control blocks that are not in use. -/
def Table.Alike (s t : Table) : Prop := ∀ j, (s j).Alike (t j)

/-- The process tables agree, and the PID counters. -/
structure Procs.Alike (s t : Procs) : Prop where
  table : s.table.Alike t.table
  nextPid : t.nextPid = s.nextPid

section Alike

variable {a b : Pcb} {s t : Table} {i : Slot}

theorem Pcb.Alike.refl (a : Pcb) : a.Alike a := ⟨rfl, rfl, fun _ => rfl⟩

theorem Pcb.Alike.symm (alike : a.Alike b) : b.Alike a :=
  ⟨alike.state.symm, alike.nextSibling.symm, fun used => (alike.used (alike.state ▸ used)).symm⟩

theorem Table.Alike.symm (alike : s.Alike t) : t.Alike s := fun j => (alike j).symm

theorem Procs.Alike.symm {s t : Procs} (alike : s.Alike t) : t.Alike s :=
  ⟨alike.table.symm, alike.nextPid.symm⟩

/-- Changing one control block in both tables. -/
theorem Table.Alike.modify (alike : s.Alike t) {f : Pcb → Pcb}
    (here : (f (s i)).Alike (f (t i))) : (s.modify i f).Alike (t.modify i f) := by
  intro j
  rw [Table.modify_apply, Table.modify_apply]
  split
  · exact here
  · exact alike j

/-! The walks of `process_exit` and `process_wait` follow the sibling links. -/

theorem Table.Alike.orphanChildren (alike : s.Alike t) {fuel : Nat} {child : Option Slot} {s' : Table}
    (done : orphanChildren fuel s child = .ok s') :
    ∃ t', Process.orphanChildren fuel t child = .ok t' ∧ s'.Alike t' := by
  induction fuel generalizing s t child with
  | zero =>
      cases child with
      | none =>
          cases done
          exact ⟨t, rfl, alike⟩
      | some child => cases done
  | succ fuel ih =>
      cases child with
      | none =>
          cases done
          exact ⟨t, rfl, alike⟩
      | some child =>
          have here := alike child
          simp only [Process.orphanChildren] at done ⊢
          rw [here.nextSibling]
          exact ih (alike.modify ⟨here.state, here.nextSibling, fun used => by rw [here.used used]⟩) done

theorem Table.Alike.findZombie (alike : s.Alike t) (fuel : Nat) (child : Option Slot) :
    findZombie t fuel child = Process.findZombie s fuel child := by
  induction fuel generalizing child with
  | zero => cases child <;> rfl
  | succ fuel ih =>
      cases child with
      | none => rfl
      | some child =>
          simp only [Process.findZombie, (alike child).state, (alike child).nextSibling, ih]

theorem Table.Alike.seekLink (alike : s.Alike t) {child : Slot} (fuel : Nat) {prev : Link}
    (same : t.read prev = s.read prev) :
    seekLink t child fuel prev = Process.seekLink s child fuel prev := by
  induction fuel generalizing prev with
  | zero =>
      unfold Process.seekLink
      rw [same]
  | succ fuel ih =>
      unfold Process.seekLink
      rw [same]
      simp only [fun c => @ih (.nextSibling c) (alike c).nextSibling]

/-- The link found is the one the search began with, or a sibling link. -/
theorem seekLink_cases {child : Slot} {fuel : Nat} {prev found : Link}
    (done : seekLink s child fuel prev = .ok found) :
    found = prev ∨ ∃ c, found = .nextSibling c := by
  induction fuel generalizing prev with
  | zero =>
      unfold seekLink at done
      split at done
      · cases done
        exact .inl rfl
      · split at done
        · cases done
          exact .inl rfl
        · cases done
  | succ fuel ih =>
      unfold seekLink at done
      split at done
      · cases done
        exact .inl rfl
      · split at done
        · cases done
          exact .inl rfl
        · rcases ih done with rfl | next
          · exact .inr ⟨_, rfl⟩
          · exact .inr next

theorem Table.Alike.write (alike : s.Alike t) {link : Link} {value : Option Slot}
    (used : ∀ q, link = .children q → (s q).state ≠ .unused) :
    (s.write link value).Alike (t.write link value) := by
  cases link with
  | children q =>
      show (s.modify q fun p => { p with children := value }).Alike
        (t.modify q fun p => { p with children := value })
      refine alike.modify ?_
      rw [(alike q).used (used q rfl)]
      exact .refl _
  | nextSibling q =>
      show (s.modify q fun p => { p with nextSibling := value }).Alike
        (t.modify q fun p => { p with nextSibling := value })
      have here := alike q
      exact alike.modify ⟨here.state, rfl, fun used => by rw [here.used used]⟩

theorem Table.Alike.wait (alike : s.Alike t) {p : Slot} (used : (s p).state ≠ .unused) {s' : Table}
    {pid : Nat} {status : Option Int} (done : processWait s (some p) = .ok (s', pid, status)) :
    ∃ t', processWait t (some p) = .ok (t', pid, status) ∧ s'.Alike t' := by
  obtain ⟨found, search, done⟩ := Outcome.bind_eq_ok.mp done
  have parent := (alike p).used used
  simp only [processWait]
  rw [parent, alike.findZombie, search, Outcome.ok_bind]
  cases found with
  | none =>
      cases done
      exact ⟨t, rfl, alike⟩
  | some child =>
      have zombie := findZombie_zombie search
      have same := (alike child).used (by rw [zombie]; decide)
      obtain ⟨prev, sought, done⟩ := Outcome.bind_eq_ok.mp done
      cases done
      have start : t.read (.children p) = s.read (.children p) := by
        rw [Table.read, Table.read, parent]
      have reads : t.read prev = s.read prev := by
        rcases seekLink_cases sought with rfl | ⟨c, rfl⟩
        · exact start
        · exact (alike c).nextSibling
      have keeps : ∀ q, prev = .children q → (s q).state ≠ .unused := by
        rintro q rfl
        rcases seekLink_cases sought with here | ⟨c, other⟩
        · cases here
          exact used
        · cases other
      simp only [alike.seekLink maxProcesses start, sought, Outcome.ok_bind, reads, same]
      refine ⟨_, rfl, ?_⟩
      split
      · exact (alike.write keeps).modify
          ⟨rfl, ((alike.write keeps) child).nextSibling, fun used => absurd rfl used⟩
      · exact alike.modify ⟨rfl, (alike child).nextSibling, fun used => absurd rfl used⟩

end Alike

/-! ### Later calls -/

namespace Procs.Alike

variable {s t s' : Procs} {op : ProcOp} {event : Option Event}

theorem allocSlot (alike : s.Alike t) : t.allocSlot = s.allocSlot := by
  simp only [Procs.allocSlot, fun j => (alike.table j).state]

theorem inUse (alike : s.Alike t) (used : s.InUse op) : t.InUse op := by
  cases op with
  | create _ _ _ => trivial
  | fork parent mem => exact fun p here => by rw [(alike.table p).state]; exact used p here
  | exit proc status => exact fun i here => by rw [(alike.table i).state]; exact used i here
  | wait parent => exact fun p here => by rw [(alike.table p).state]; exact used p here
  | schedule => exact used
  | setCurrent proc => exact used

theorem createAt (alike : s.Alike t) {i : Slot} (unused : (s.table i).state = .unused)
    (entryPoint uid : Nat) (mem : Supply) :
    (t.createAt i entryPoint uid mem).2 = (s.createAt i entryPoint uid mem).2 ∧
      (s.createAt i entryPoint uid mem).1.Alike (t.createAt i entryPoint uid mem).1 := by
  have pid := alike.nextPid
  have unused' : (t.table i).state = .unused := (alike.table i).state.trans unused
  refine ⟨?_, fun j => ?_, ?_⟩
  · simp only [Procs.createAt, apply_ite Prod.snd]
  · by_cases here : j = i
    · subst here
      have same : (t.createAt j entryPoint uid mem).1.table j =
          (s.createAt j entryPoint uid mem).1.table j := by
        simp only [Procs.createAt, Procs.discard, pid]
        split
        · simp
        · split
          · simp
          · split <;> simp
      rw [same]
      exact .refl _
    · rw [createAt_others entryPoint uid mem here, createAt_others entryPoint uid mem here]
      exact alike.table j
  · rw [(createAt_birth unused entryPoint uid mem).nextPid,
      (createAt_birth unused' entryPoint uid mem).nextPid, pid]

theorem forkAt (alike : s.Alike t) {p c : Slot} (used : (s.table p).state ≠ .unused)
    (unused : (s.table c).state = .unused) (mem : Supply) :
    (t.forkAt p c mem).2 = (s.forkAt p c mem).2 ∧ (s.forkAt p c mem).1.Alike (t.forkAt p c mem).1 := by
  have pid := alike.nextPid
  have apart : c ≠ p := fun same => used (same ▸ unused)
  have unused' : (t.table c).state = .unused := (alike.table c).state.trans unused
  have parent := (alike.table p).used used
  have source : ((t.linked p c).table p).pageDirectory = ((s.linked p c).table p).pageDirectory := by
    rw [linked_directory, linked_directory, parent]
  refine ⟨?_, fun j => ?_, ?_⟩
  · simp only [Procs.forkAt, source, apply_ite Prod.snd]
  · by_cases child : j = c
    · subst child
      have start : (t.linked p j).table j = (s.linked p j).table j := by
        simp [Procs.linked, pid, parent, apart]
      have same : (t.forkAt p j mem).1.table j = (s.forkAt p j mem).1.table j := by
        simp only [Procs.forkAt, Procs.discard, source]
        split
        · simp [start]
        · split <;> simp [start]
      rw [same]
      exact .refl _
    · by_cases here : j = p
      · subst here
        rw [(s.forkAt_linked apart mem).parent, (t.forkAt_linked apart mem).parent, parent]
        exact .refl _
      · rw [forkAt_others mem child here, forkAt_others mem child here]
        exact alike.table j
  · rw [(forkAt_birth unused p mem).nextPid, (forkAt_birth unused' p mem).nextPid, pid]

theorem exit (alike : s.Alike t) {i : Slot} (used : (s.table i).state ≠ .unused) {status : Int}
    (done : s.exit (some i) status = .ok s') :
    ∃ t', t.exit (some i) status = .ok t' ∧ s'.Alike t' := by
  have here := (alike.table i).used used
  obtain ⟨table, orphaned, rest⟩ := Outcome.bind_eq_ok.mp done
  cases rest
  have ended := alike.table.modify (i := i) (f := fun proc =>
    { proc with exitStatus := status, state := .zombie, pageDirectory := 0, kernelStack := 0 })
    (by rw [here]; exact .refl _)
  obtain ⟨table', orphaned', related⟩ := ended.orphanChildren orphaned
  have head := congrArg Pcb.children ((ended i).used (by simp [Table.modify_apply]))
  refine ⟨{ t with table := table' }, ?_, related, alike.nextPid⟩
  exact Outcome.bind_eq_ok.mpr ⟨table', (congrArg _ head).trans orphaned', rfl⟩

theorem wait (alike : s.Alike t) {p : Slot} (used : (s.table p).state ≠ .unused) {pid : Nat}
    {status : Option Int} (done : s.wait (some p) = .ok (s', pid, status)) :
    ∃ t', t.wait (some p) = .ok (t', pid, status) ∧ s'.Alike t' := by
  obtain ⟨⟨table, _, _⟩, walked, rest⟩ := Outcome.bind_eq_ok.mp done
  cases rest
  obtain ⟨table', walked', related⟩ := alike.table.wait used walked
  exact ⟨{ t with table := table' }, Outcome.bind_eq_ok.mpr ⟨_, walked', rfl⟩, related, alike.nextPid⟩

/-- **A call for processes in use does the same to both tables.** -/
theorem exec (alike : s.Alike t) (used : s.InUse op) (done : s.exec op = .ok (s', event)) :
    ∃ t', t.exec op = .ok (t', event) ∧ s'.Alike t' := by
  have pid := alike.nextPid
  have slot := alike.allocSlot
  cases op with
  | create entryPoint uid mem =>
      cases done
      refine ⟨(t.create entryPoint uid mem).1, ?_⟩
      simp only [Procs.exec, Procs.create, slot, pid]
      cases found : s.allocSlot with
      | none => exact ⟨rfl, alike⟩
      | some i =>
          have born := alike.createAt (allocSlot_unused found) entryPoint uid mem
          exact ⟨by simp only [born.1], born.2⟩
  | fork parent mem =>
      cases done
      refine ⟨(t.fork parent mem).1, ?_⟩
      simp only [Procs.exec, Procs.fork, slot, pid]
      cases parent with
      | none => exact ⟨rfl, alike⟩
      | some p =>
          have here := (alike.table p).used (used p rfl)
          cases found : s.allocSlot with
          | none => exact ⟨rfl, alike⟩
          | some c =>
              have born := alike.forkAt (used p rfl) (allocSlot_unused found) mem
              exact ⟨by simp only [born.1, here], born.2⟩
  | exit proc status =>
      obtain ⟨after, exited, rest⟩ := Outcome.bind_eq_ok.mp done
      cases rest
      cases proc with
      | none =>
          cases exited
          exact ⟨t, rfl, alike⟩
      | some i =>
          obtain ⟨t', exited', related⟩ := alike.exit (used i rfl) exited
          have here := (alike.table i).used (used i rfl)
          refine ⟨t', Outcome.bind_eq_ok.mpr ⟨t', exited', ?_⟩, related⟩
          show Outcome.ok (t', some (Event.exited (t.table i).pid status)) = _
          rw [here]
          rfl
  | wait parent =>
      obtain ⟨⟨after, reaped, status⟩, waited, rest⟩ := Outcome.bind_eq_ok.mp done
      cases parent with
      | none =>
          cases waited
          cases rest
          exact ⟨t, rfl, alike⟩
      | some p =>
          obtain ⟨t', waited', related⟩ := alike.wait (used p rfl) waited
          have here := (alike.table p).used (used p rfl)
          cases status with
          | none =>
              cases rest
              exact ⟨t', Outcome.bind_eq_ok.mpr ⟨_, waited', rfl⟩, related⟩
          | some status =>
              cases rest
              refine ⟨t', Outcome.bind_eq_ok.mpr ⟨_, waited', ?_⟩, related⟩
              show Outcome.ok (t', some (Event.reaped (t.table p).pid reaped status)) = _
              rw [here]
  | schedule => exact absurd used id
  | setCurrent proc => exact absurd used id

end Procs.Alike

/-- A run of calls for processes in use. -/
abbrev UseRun := Run (Guarded (fun t => t.procs.InUse) TracedStep)

/-- Every run of later calls for processes in use from one table is a run from the other, with the same
answers. -/
def Procs.AnswersAs (s t : Procs) : Prop :=
  ∀ ops history, (∃ u, UseRun ⟨s, []⟩ ops u ∧ u.history = history) ↔
    ∃ u, UseRun ⟨t, []⟩ ops u ∧ u.history = history

/-- Alike tables with the same history. -/
def Traced.Alike (x y : Traced) : Prop := x.procs.Alike y.procs ∧ y.history = x.history

theorem Traced.Alike.step {x y x' : Traced} {op : ProcOp} (alike : x.Alike y)
    (step : Guarded (fun t => t.procs.InUse) TracedStep x op x') :
    ∃ y', Guarded (fun t => t.procs.InUse) TracedStep y op y' ∧ x'.Alike y' := by
  obtain ⟨⟨procs, event⟩, done, rest⟩ := Outcome.bind_eq_ok.mp step.2
  cases rest
  obtain ⟨procs', done', after⟩ := alike.1.exec step.1 done
  refine ⟨⟨procs', event.toList ++ y.history⟩, ⟨alike.1.inUse step.1, ?_⟩, after, ?_⟩
  · exact Outcome.bind_eq_ok.mpr ⟨_, done', rfl⟩
  · rw [alike.2]

/-- **Tables that are alike cannot be told apart.** -/
theorem Procs.Alike.answers {s t : Procs} (alike : s.Alike t) : s.AnswersAs t := by
  have follow : ∀ {s t : Procs} {ops : List ProcOp} {u : Traced}, s.Alike t → UseRun ⟨s, []⟩ ops u →
      ∃ v, UseRun ⟨t, []⟩ ops v ∧ v.history = u.history := by
    intro s t ops u alike run
    have start : (Traced.mk s []).Alike (Traced.mk t []) := ⟨alike, rfl⟩
    obtain ⟨v, answered, _, same⟩ := run.simulate _ Traced.Alike (fun _ _ _ _ => Traced.Alike.step) start
    exact ⟨v, answered, same⟩
  intro ops history
  constructor
  · rintro ⟨u, run, rfl⟩
    exact follow alike run
  · rintro ⟨u, run, rfl⟩
    exact follow alike.symm run

/-! ### The fork that fails -/

/-- What a failed call must leave: every process in use as it was, with every sibling link, no slot
taken, and a table that answers every later call as the old one would with the same PID counter. -/
structure Unharmed (s t : Procs) : Prop where
  alike : s.table.Alike t.table
  nextPid : t.nextPid = s.nextPid ∨ t.nextPid = (s.nextPid + 1) % 2 ^ 32
  later : Procs.AnswersAs { s with nextPid := t.nextPid } t

section Fork

variable {s t : Kernel} {p : Slot}

/-- **A failed fork leaves the table intact** exactly when there was no slot for it, or it found the slot
at the head of the parent's list and following itself. -/
theorem fork_unharmed (live : (s.table p).live) (failed : processFork s (some p) = .ok (t, none)) :
    Unharmed s.procs t.procs ↔ processAllocSlot s = none ∨
      ∃ c, processAllocSlot s = some c ∧ (s.table p).children = some c ∧
        (s.table c).nextSibling = some c := by
  obtain ⟨mem, forked⟩ := fork_procs failed
  have slot : s.procs.allocSlot = processAllocSlot s := rfl
  rw [← slot]
  cases found : s.procs.allocSlot with
  | none =>
      simp only [Procs.fork, found] at forked
      have same : s.procs = t.procs := (Prod.mk.inj forked).1
      refine ⟨fun _ => .inl rfl, fun _ => ?_⟩
      rw [← same]
      exact ⟨fun j => .refl _, .inl rfl, fun _ _ => Iff.rfl⟩
  | some c =>
      simp only [Procs.fork, found] at forked
      have unused := Procs.allocSlot_unused found
      have apart : c ≠ p := fun same => live.1 (same ▸ unused)
      have linked := s.procs.forkAt_linked apart mem
      have birth := Procs.forkAt_birth unused p mem
      rw [forked] at linked birth
      have free : (t.procs.table c).state = .unused := by
        rcases birth.born with ⟨made, -⟩ | ⟨-, free⟩
        · cases made
        · exact free
      constructor
      · intro unharmed
        have parent := ((unharmed.alike p).used live.1).symm.trans linked.parent
        have head : (s.table p).children = some c := congrArg Pcb.children parent
        refine .inr ⟨c, rfl, head, ?_⟩
        exact (unharmed.alike c).nextSibling.symm.trans (linked.child.2.2.trans head)
      · rintro (none | ⟨_, here, head, itself⟩)
        · cases none
        · cases here
          have alike : s.procs.table.Alike t.procs.table := by
            intro j
            by_cases child : j = c
            · subst child
              exact ⟨free.trans unused.symm, linked.child.2.2.trans (head.trans itself.symm),
                fun used => absurd unused used⟩
            · by_cases parent : j = p
              · subst parent
                have same : t.procs.table j = s.procs.table j := by
                  rw [linked.parent, ← head]
                  rfl
                rw [same]
                exact .refl _
              · rw [linked.others j child parent]
                exact .refl _
          exact ⟨alike, .inr birth.nextPid, Procs.Alike.answers ⟨alike, rfl⟩⟩

end Fork

/-- A kernel that has room for one process and for no directory more. -/
def crowdedKernel : Kernel :=
  processInit sampleImage ((HeapOp.exec (Client.init (pagingInit sampleImage fun _ => 0))
    (.malloc 1020000)).getD (Client.init fun _ => 0)).heap

theorem crowdedKernel_booted : Booted sampleImage crowdedKernel :=
  ⟨fun _ => 0, [.malloc 1020000], _,
    .cons (HeapStep.of_exec (Outcome.eq_ok_getD (by decide +kernel) _)) (.nil _), rfl⟩

/-- The kernel after the first process, or a later state of it, tried to fork. -/
def afterFork (s : Kernel) : Kernel := ((processFork s (some firstSlot)).getD (s, none)).1

/-- A fork that returns NULL. -/
theorem afterFork_failed {s : Kernel} (returns : (processFork s (some firstSlot)).isOk = true)
    (null : ((processFork s (some firstSlot)).getD (s, none)).2 = none) :
    processFork s (some firstSlot) = .ok (afterFork s, none) := by
  rw [← null]
  exact Outcome.eq_ok_getD returns _

/-- The third failed fork in a row. -/
theorem fork_unharmed_third : Unharmed (afterFork (afterFork (afterCreate crowdedKernel))).procs
    (afterFork (afterFork (afterFork (afterCreate crowdedKernel)))).procs := by
  have failed : processFork (afterFork (afterFork (afterCreate crowdedKernel))) (some firstSlot) =
      .ok (afterFork (afterFork (afterFork (afterCreate crowdedKernel))), none) :=
    afterFork_failed (by decide +kernel) (by decide +kernel)
  refine (fork_unharmed (by decide +kernel) failed).mpr ?_
  exact .inr ⟨secondSlot, by decide +kernel, by decide +kernel, by decide +kernel⟩

/-- The first fork that fails leaves a free slot at the head of the parent's list. -/
theorem fork_harms : Booted sampleImage crowdedKernel ∧
    processCreate sampleImage crowdedKernel 0 0 = .ok (afterCreate crowdedKernel, some firstSlot) ∧
    ((afterCreate crowdedKernel).table firstSlot).live ∧
    processFork (afterCreate crowdedKernel) (some firstSlot) =
      .ok (afterFork (afterCreate crowdedKernel), none) ∧
    ¬ Unharmed (afterCreate crowdedKernel).procs (afterFork (afterCreate crowdedKernel)).procs := by
  have made : ((processCreate sampleImage crowdedKernel 0 0).getD (crowdedKernel, none)).2 =
      some firstSlot := by decide +kernel
  have live : ((afterCreate crowdedKernel).table firstSlot).live := by decide +kernel
  refine ⟨crowdedKernel_booted, ?_, live, afterFork_failed (by decide +kernel) (by decide +kernel),
    fun unharmed => ?_⟩
  · rw [← made]
    exact Outcome.eq_ok_getD (by decide +kernel) (crowdedKernel, none)
  · have kept := congrArg Pcb.children ((unharmed.alike firstSlot).used live.1)
    have childless : ((afterCreate crowdedKernel).table firstSlot).children = none := by decide +kernel
    have linked : ((afterFork (afterCreate crowdedKernel)).table firstSlot).children =
        some secondSlot := by decide +kernel
    cases linked.symm.trans (kept.trans childless)

end Kfs.Process
