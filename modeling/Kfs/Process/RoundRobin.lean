/-
**The scheduler goes round.**

`process_schedule` looks for a READY slot in two passes over the table, from the current slot to the end
and from the beginning to the current slot. The two passes are one search round the ring of slots
(`pickNext_nearest`): the slot found is the one at the least distance after the current one.

A switch exchanges the RUNNING slot with the READY slot it goes to, so the slots that are RUNNING or READY
stay the same ones (`Turn`), and consecutive calls make the tour of them. `schedule_round_robin`: as many
calls as there are such slots run each of them once, in the order of the ring, and leave the states and
the current process as they were.
-/

import Kfs.Base.Ring
import Kfs.Process.Refine
import Kfs.Process.SignalOrder

namespace Kfs.Process

open Kfs.Heap

/-! ### One search round the ring -/

section Search

variable {table : Table} {cur next i : Slot} {R : Finset Slot}

/-- A search of the table finds the first slot that passes. -/
theorem find_slots_first {test : Slot → Bool} (found : slots.find? test = some i) :
    test i = true ∧ ∀ j, test j = true → i ≤ j := by
  obtain ⟨passes, before, after, split, fails⟩ := List.find?_eq_some_iff_append.mp found
  refine ⟨passes, fun j also => ?_⟩
  have member : j ∈ slots := List.mem_finRange j
  have sorted : slots.Pairwise (· < ·) := List.pairwise_lt_finRange maxProcesses
  rw [split] at member sorted
  rcases List.mem_append.mp member with early | late
  · have not := fails j early
    rw [also] at not
    cases not
  · rcases List.mem_cons.mp late with same | late
    · exact same.ge
    · exact ((List.pairwise_cons.mp (List.pairwise_append.mp sorted).2.1).1 j late).le

theorem find_slots_none {test : Slot → Bool} (none : slots.find? test = none) (i : Slot) :
    test i = false :=
  Bool.eq_false_iff.mpr (List.find?_eq_none.mp none i (List.mem_finRange i))

/-- **The two passes are one search**: the first READY slot round the ring. -/
theorem pickNext_nearest (ready : ∀ i, i ∈ R ↔ (table i).state = .ready) (idle : cur ∉ R)
    (picked : pickNext table (some cur) = some next) : NearestOn R cur next := by
  simp only [pickNext] at picked
  split at picked
  · rename_i found
    cases picked
    obtain ⟨passes, first⟩ := find_slots_first found
    simp only [decide_eq_true_eq] at passes first
    refine ⟨(ready _).mpr passes.2, fun c member => ?_⟩
    exact ringDistance_le_ahead passes.1 fun later => first c ⟨later, (ready c).mp member⟩
  · rename_i nothing
    split at picked
    · rename_i found
      cases picked
      obtain ⟨passes, first⟩ := find_slots_first found
      simp only [decide_eq_true_eq] at passes first
      refine ⟨(ready _).mpr passes.2, fun c member => ?_⟩
      have apart : c ≠ cur := fun same => idle (same ▸ member)
      have before : c ≤ cur := by
        have none := find_slots_none nothing c
        simp only [(ready c).mp member, and_true, decide_eq_false_iff_not] at none
        exact not_lt.mp none
      have least := first c ⟨lt_of_le_of_ne before apart, (ready c).mp member⟩
      exact ringDistance_le_behind passes.1.le before least
    · split at picked
      · rename_i here
        exact absurd ((ready cur).mpr here) idle
      · cases picked

/-- Nothing is found only when nothing is READY. -/
theorem pickNext_none (ready : ∀ i, i ∈ R ↔ (table i).state = .ready) (idle : cur ∉ R)
    (picked : pickNext table (some cur) = none) : R = ∅ := by
  refine Finset.eq_empty_of_forall_notMem fun c member => ?_
  have apart : c ≠ cur := fun same => idle (same ▸ member)
  simp only [pickNext] at picked
  split at picked
  · cases picked
  · rename_i after
    split at picked
    · cases picked
    · rename_i before
      have late := find_slots_none after c
      have early := find_slots_none before c
      simp only [(ready c).mp member, and_true, decide_eq_false_iff_not] at late early
      exact apart (le_antisymm (not_lt.mp late) (not_lt.mp early))

end Search

/-! ### Turns on the table -/

namespace Procs

variable {s : Procs} {c next : Slot} {S : Finset Slot} {base : Slot → ProcessState}

/-- One slot of the set runs, the others of the set are READY, and the rest has the states of `base`,
none of them READY. -/
structure Turn (S : Finset Slot) (base : Slot → ProcessState) (c : Slot) (s : Procs) : Prop where
  current : s.currentProcess = some c
  member : c ∈ S
  running : (s.table c).state = .running
  ready : ∀ i ∈ S, i ≠ c → (s.table i).state = .ready
  rest : ∀ i, i ∉ S → (s.table i).state = base i
  idle : ∀ i, i ∉ S → base i ≠ .ready

theorem Turn.ready_iff (turn : Turn S base c s) (i : Slot) :
    i ∈ S.erase c ↔ (s.table i).state = .ready := by
  rw [Finset.mem_erase]
  refine ⟨fun other => turn.ready i other.2 other.1, fun ready => ⟨?_, ?_⟩⟩
  · rintro rfl
    rw [turn.running] at ready
    cases ready
  · by_contra outside
    rw [turn.rest i outside] at ready
    exact turn.idle i outside ready

/-- A switch hands the turn on. -/
theorem Turn.switch (turn : Turn S base c s) (member : next ∈ S) (other : next ≠ c) :
    Turn S base next (s.switch next) where
  current := switch_currentProcess s next
  member := member
  running := by rw [switch_table, if_pos rfl]
  ready i inside apart := by
    rw [switch_table, if_neg apart]
    by_cases here : i = c
    · subst here
      rw [if_pos ⟨turn.current, turn.running⟩]
    · have still := turn.ready i inside here
      rw [if_neg (by simp [still]), still]
  rest i outside := by
    have apart : i ≠ next := fun same => outside (same ▸ member)
    have away : i ≠ c := fun same => outside (same ▸ turn.member)
    have idle : ¬ (s.currentProcess = some i ∧ (s.table i).state = .running) := fun both =>
      away (Option.some.inj (both.1.symm.trans turn.current))
    rw [switch_table, if_neg apart, if_neg idle, turn.rest i outside]
  idle := turn.idle

/-- **A call of the scheduler hands the turn to the nearest slot of the set.** -/
theorem Turn.schedule (turn : Turn S base c s) :
    ∃ next, NearestOn S c next ∧ Turn S base next s.schedule := by
  have away : c ∉ S.erase c := Finset.notMem_erase c S
  unfold Procs.schedule
  rw [turn.current]
  cases picked : pickNext s.table (some c) with
  | none =>
      have alone := pickNext_none turn.ready_iff away picked
      refine ⟨c, ⟨turn.member, fun i inside => ?_⟩, turn⟩
      obtain rfl : i = c := by
        by_contra other
        exact Finset.notMem_empty i (alone ▸ Finset.mem_erase.mpr ⟨other, inside⟩)
      exact le_rfl
  | some next =>
      have found := pickNext_nearest turn.ready_iff away picked
      obtain ⟨other, inside⟩ := Finset.mem_erase.mp found.member
      refine ⟨next, ⟨inside, fun i among => ?_⟩, ?_⟩
      · by_cases here : i = c
        · rw [here, ringDistance_self]
          exact ringDistance_le c next
        · exact found.nearest i (Finset.mem_erase.mpr ⟨here, among⟩)
      · have differs : some next ≠ some c := fun same => other (Option.some.inj same)
        simp only [if_pos differs]
        exact turn.switch inside other

/-- **A whole round of turns**: every slot of the set, in the order of the ring. -/
theorem Turn.round (turn : Turn S base c s) :
    itinerary Procs.schedule currentProcess S.card s = (ringTour S c).map some ∧
      Turn S base c (Procs.schedule^[S.card] s) :=
  itinerary_tour (fun _ _ here => here.current) (fun _ _ here => here.schedule) turn.member turn

/-- The states of two moments of one turn are the same. -/
theorem Turn.state_eq {t : Procs} (turn : Turn S base c s) (again : Turn S base c t) (i : Slot) :
    (t.table i).state = (s.table i).state := by
  by_cases inside : i ∈ S
  · by_cases here : i = c
    · rw [here, again.running, turn.running]
    · rw [again.ready i inside here, turn.ready i inside here]
  · rw [again.rest i inside, turn.rest i inside]

/-- Only slots that are READY or current get a turn. -/
theorem schedule_turn {i : Slot}
    (turn : (s.schedule.table i).state = .ready ∨ s.schedule.currentProcess = some i) :
    (s.table i).state = .ready ∨ s.currentProcess = some i := by
  unfold Procs.schedule at turn
  split at turn
  · exact turn
  · rename_i next picked
    split at turn
    · rw [switch_table, switch_currentProcess] at turn
      by_cases here : i = next
      · rw [here]
        exact .inl (pickNext_ready picked)
      · rw [if_neg here] at turn
        rcases turn with ready | same
        · split at ready
          · rename_i left
            exact .inr left.1
          · exact .inl ready
        · exact absurd (Option.some.inj same).symm here
    · exact turn

/-- A switch leaves no signals pending and adds none. -/
theorem schedule_signalQueue (i : Slot) (quiet : (s.table i).signalQueue = 0) :
    (s.schedule.table i).signalQueue = 0 := by
  unfold Procs.schedule
  split
  · exact quiet
  · split
    · rw [switch_table]
      split
      · rfl
      · split <;> exact quiet
    · exact quiet

end Procs

/-! ### Calls of the kernel -/

section Calls

variable {s t : Kernel} {cur next : Slot} {R : Finset Slot} {S : Set Slot} {l : List Segment}
  {queues : Slot → List Nat} {count : Nat} {visited : List (Option Slot)}

/-- Consecutive calls of `process_schedule`, with the process that is current after each. -/
def scheduleCalls : (count : Nat) → Kernel → Outcome (Kernel × List (Option Slot))
  | 0, s => .ok (s, [])
  | count + 1, s => do
      let (s, _) ← processSchedule s
      let (t, later) ← scheduleCalls count s
      return (t, s.currentProcess :: later)

/-- Calls of the kernel that return are calls on the table. -/
theorem scheduleCalls_procs (done : scheduleCalls count s = .ok (t, visited)) :
    visited = itinerary Procs.schedule Procs.currentProcess count s.procs ∧
      t.procs = Procs.schedule^[count] s.procs := by
  induction count generalizing s visited with
  | zero =>
      cases done
      exact ⟨rfl, rfl⟩
  | succ count ih =>
      obtain ⟨⟨u, delivered⟩, first, rest⟩ := Outcome.bind_eq_ok.mp done
      obtain ⟨⟨v, later⟩, more, rest⟩ := Outcome.bind_eq_ok.mp rest
      cases rest
      obtain ⟨visits, last⟩ := ih more
      have moved := schedule_procs first
      refine ⟨?_, ?_⟩
      · rw [itinerary, moved, ← visits]
        rfl
      · rw [last, Function.iterate_succ_apply, moved]

/-- Without pending signals nothing is delivered. -/
theorem signalLoop_empty (handlers : Nat → Nat) {fuel : Nat} (some : 0 < fuel) (h : HeapState) :
    signalLoop handlers fuel h 0 = .ok (h, []) := by
  obtain ⟨fuel, rfl⟩ := Nat.exists_eq_succ_of_ne_zero some.ne'
  rw [signalLoop, if_pos rfl]

theorem switchTo_signalQueue (s : Kernel) (next i : Slot) :
    ((switchTo s next).table i).signalQueue = (s.table i).signalQueue :=
  switchTo_field Pcb.signalQueue s next i fun _ _ => rfl

theorem processSchedule_quiet (quiet : ∀ i, (s.table i).state = .ready → (s.table i).signalQueue = 0) :
    ∃ t, processSchedule s = .ok (t, []) := by
  unfold processSchedule
  split
  · exact ⟨s, rfl⟩
  · rename_i next picked
    split
    · have none : ((switchTo s next).table next).signalQueue = 0 :=
        (switchTo_signalQueue s next next).trans (quiet next (Procs.pickNext_ready picked))
      refine ⟨((switchTo s next).withHeap (switchTo s next).paging.heap).modify next
        fun proc => { proc with signalQueue := 0 }, ?_⟩
      rw [processSwitch, processSignalProcess, none,
        signalLoop_empty _ (show 0 < walkFuel by decide), Outcome.ok_bind]
      rfl
    · exact ⟨s, rfl⟩

/-- The slots that may get a turn: a call adds none. -/
theorem turn_of_schedule {delivered : List Delivery} (done : processSchedule s = .ok (t, delivered)) {i : Slot}
    (turn : (t.table i).state = .ready ∨ t.currentProcess = some i) :
    (s.table i).state = .ready ∨ s.currentProcess = some i := by
  have moved := schedule_procs done
  have state : (s.procs.schedule.table i).state = (t.table i).state := by rw [moved]; rfl
  have current : s.procs.schedule.currentProcess = t.currentProcess := by rw [moved]; rfl
  rw [← state, ← current] at turn
  exact Procs.schedule_turn turn

/-- Consecutive calls return when each of them does. -/
theorem scheduleCalls_returns (Inv : Kernel → Prop)
    (step : ∀ s, Inv s → ∃ t delivered, processSchedule s = .ok (t, delivered) ∧ Inv t) (count : Nat)
    (here : Inv s) : ∃ t visited, scheduleCalls count s = .ok (t, visited) := by
  induction count generalizing s with
  | zero => exact ⟨s, [], rfl⟩
  | succ count ih =>
      obtain ⟨t, delivered, first, next⟩ := step s here
      obtain ⟨u, later, rest⟩ := ih next
      refine ⟨u, t.currentProcess :: later, ?_⟩
      rw [scheduleCalls, first, Outcome.ok_bind]
      simp only [rest, Outcome.ok_bind, Outcome.pure_eq]

/-- With no signals pending, consecutive calls return. -/
theorem scheduleCalls_quiet (count : Nat)
    (quiet : ∀ i, (s.table i).state = .ready ∨ s.currentProcess = some i → (s.table i).signalQueue = 0) :
    ∃ t visited, scheduleCalls count s = .ok (t, visited) := by
  refine scheduleCalls_returns (fun s => ∀ i, (s.table i).state = .ready ∨ s.currentProcess = some i →
    (s.table i).signalQueue = 0) (fun s quiet => ?_) count quiet
  obtain ⟨t, first⟩ := processSchedule_quiet fun i ready => quiet i (.inl ready)
  refine ⟨t, [], first, fun i turn => ?_⟩
  have before := quiet i (turn_of_schedule first turn)
  have after := Procs.schedule_signalQueue (s := s.procs) i before
  rw [schedule_procs first] at after
  exact after

/-- The queues of some processes: every entry in a block of its own, and in one queue. -/
structure Queued (S : Set Slot) (s : Kernel) (l : List Segment) (queues : Slot → List Nat) : Prop where
  waiting : ∀ i ∈ S, Enqueued s.paging.heap l (s.table i).signalQueue (queues i)
  apart : ∀ i ∈ S, ∀ j ∈ S, i ≠ j → (queues i).Disjoint (queues j)

/-- **A switch to one of them delivers its signals** and returns; the other queues stay. -/
theorem Queued.switch (queued : Queued S s l queues) (member : next ∈ S) :
    ∃ t delivered l', processSwitch s next = .ok (t, delivered) ∧
      Queued S t l' (Function.update queues next []) := by
  have waiting := queued.waiting next member
  obtain ⟨h, l', loop, heap, keeps⟩ :=
    @Enqueued.deliver _ _ _ _ walkFuel ((switchTo s next).table next).signalHandlers waiting waiting.length_lt
  have switched : processSwitch s next = (do
      let sent ← signalLoop ((switchTo s next).table next).signalHandlers walkFuel s.paging.heap
        (s.table next).signalQueue
      return (((switchTo s next).withHeap sent.1).modify next fun proc => { proc with signalQueue := 0 },
        sent.2)) := by
    rw [processSwitch, processSignalProcess, switchTo_heap, switchTo_signalQueue]
  rw [loop] at switched
  refine ⟨_, _, l', switched, fun i inside => ?_, fun i insideI j insideJ other => ?_⟩
  · by_cases here : i = next
    · subst here
      rw [Function.update_self, Kernel.modify_self]
      exact .empty heap
    · rw [Function.update_of_ne here, Kernel.modify_table, if_neg here]
      have before := queued.waiting i inside
      have away : ∀ e ∈ queues i, e ∉ queues next := queued.apart i inside next member here
      have same : (((switchTo s next).withHeap h).table i).signalQueue = (s.table i).signalQueue :=
        switchTo_signalQueue s next i
      rw [same]
      exact (before.congr heap (fun e queuedE => (keeps e (before.held e queuedE) (away e queuedE)).1)
        fun e queuedE => (keeps e (before.held e queuedE) (away e queuedE)).2).1
  · by_cases first : i = next
    · rw [first, Function.update_self]
      exact List.disjoint_nil_left _
    · by_cases second : j = next
      · rw [second, Function.update_self]
        exact List.disjoint_nil_right _
      · rw [Function.update_of_ne first, Function.update_of_ne second]
        exact queued.apart i insideI j insideJ other

/-- **With signals pending in such queues**, consecutive calls return. -/
theorem scheduleCalls_queued (count : Nat) (queued : Queued S s l queues)
    (turns : ∀ i, (s.table i).state = .ready ∨ s.currentProcess = some i → i ∈ S) :
    ∃ t visited, scheduleCalls count s = .ok (t, visited) := by
  refine scheduleCalls_returns (fun s => (∃ l queues, Queued S s l queues) ∧
    ∀ i, (s.table i).state = .ready ∨ s.currentProcess = some i → i ∈ S) ?_ count
    ⟨⟨l, queues, queued⟩, turns⟩
  rintro s ⟨⟨l, queues, queued⟩, turns⟩
  cases picked : pickNext s.table s.currentProcess with
  | none => exact ⟨s, [], by simp only [processSchedule, picked], ⟨l, queues, queued⟩, turns⟩
  | some next =>
      by_cases other : some next ≠ s.currentProcess
      · obtain ⟨t, delivered, l', switched, after⟩ :=
          queued.switch (turns next (.inl (Procs.pickNext_ready picked)))
        have done : processSchedule s = .ok (t, delivered) := by
          simp only [processSchedule, picked, if_pos other, switched]
        exact ⟨t, delivered, done, ⟨l', _, after⟩, fun i turn => turns i (turn_of_schedule done turn)⟩
      · exact ⟨s, [], by simp only [processSchedule, picked, if_neg other], ⟨l, queues, queued⟩, turns⟩

/-- **The scheduler is exact round robin.** A call switches to the READY slot at the least distance after
the current one and does nothing when there is none; one call more than there are READY slots runs each
of them and then the current one, in the order of the ring, and restores the states. The calls return when no
signals are pending for these slots, and when those that are lie in queues of blocks. -/
theorem schedule_round_robin (current : s.currentProcess = some cur)
    (running : (s.table cur).state = .running) (ready : ∀ i, i ∈ R ↔ (s.table i).state = .ready) :
    (R = ∅ → processSchedule s = .ok (s, [])) ∧
    (R.Nonempty → ∃ next, NearestOn R cur next ∧ processSchedule s = processSwitch s next ∧
      ∀ t delivered, processSchedule s = .ok (t, delivered) → t.currentProcess = some next) ∧
    (∀ t visited, scheduleCalls (R.card + 1) s = .ok (t, visited) →
      (∃ tour : List Slot, visited = tour.map some ∧
        tour.Pairwise (fun i j => ringDistance cur i < ringDistance cur j) ∧
        ∀ i, i ∈ tour ↔ i = cur ∨ i ∈ R) ∧
      t.currentProcess = some cur ∧ ∀ i, (t.table i).state = (s.table i).state) ∧
    ((∀ i, i = cur ∨ i ∈ R → (s.table i).signalQueue = 0) →
      ∃ t visited, scheduleCalls (R.card + 1) s = .ok (t, visited)) ∧
    ∀ l queues, Queued {i | i = cur ∨ i ∈ R} s l queues →
      ∃ t visited, scheduleCalls (R.card + 1) s = .ok (t, visited) := by
  have idle : cur ∉ R := fun member => by
    rw [ready, running] at member
    cases member
  have turn : s.procs.Turn (insert cur R) (fun i => (s.table i).state) cur := by
    refine ⟨current, Finset.mem_insert_self cur R, running, fun i inside other => ?_, fun _ _ => rfl,
      fun i outside here => ?_⟩
    · exact (ready i).mp (Finset.mem_of_mem_insert_of_ne inside other)
    · exact outside (Finset.mem_insert_of_mem ((ready i).mpr here))
  have card : (insert cur R).card = R.card + 1 := Finset.card_insert_of_notMem idle
  have turns : ∀ i, (s.table i).state = .ready ∨ s.currentProcess = some i → i = cur ∨ i ∈ R := by
    rintro i (here | here)
    · exact .inr ((ready i).mpr here)
    · exact .inl (Option.some.inj (here.symm.trans current))
  refine ⟨fun empty => ?_, fun some => ?_, fun t visited done => ?_,
    fun quiet => scheduleCalls_quiet _ fun i here => quiet i (turns i here),
    fun l queues queued => scheduleCalls_queued _ queued turns⟩
  · cases picked : pickNext s.table s.currentProcess with
    | none => simp only [processSchedule, picked]
    | some next =>
        have here := (ready next).mpr (Procs.pickNext_ready picked)
        exact absurd (empty ▸ here) (Finset.notMem_empty next)
  · cases picked : pickNext s.table s.currentProcess with
    | none =>
        rw [current] at picked
        exact absurd (pickNext_none ready idle picked) some.ne_empty
    | some next =>
        have nearest := pickNext_nearest ready idle (current ▸ picked)
        have other : Option.some next ≠ s.currentProcess := by
          rw [current]
          rintro ⟨⟩
          exact idle nearest.member
        have switches : processSchedule s = processSwitch s next := by
          simp only [processSchedule, picked, if_pos other]
        refine ⟨next, nearest, switches, fun t delivered done => ?_⟩
        have moved := schedule_procs done
        have picks : pickNext s.procs.table s.procs.currentProcess = Option.some next := picked
        rw [Procs.schedule, picks] at moved
        simp only at moved
        rw [if_pos (show Option.some next ≠ s.procs.currentProcess from other)] at moved
        exact (congrArg Procs.currentProcess moved).symm.trans (Procs.switch_currentProcess _ next)
  · obtain ⟨visits, last⟩ := scheduleCalls_procs done
    obtain ⟨tour, again⟩ := turn.round
    rw [card] at tour again
    rw [← last] at again
    refine ⟨⟨ringTour (insert cur R) cur, visits.trans tour, ringTour_sorted _ _, fun i => ?_⟩,
      again.current, fun i => turn.state_eq again i⟩
    rw [mem_ringTour, Finset.mem_insert]

/-- A kernel in which one process runs and another one is READY. -/
def pairKernel : Kernel :=
  { freshKernel with
    table := fun i =>
      if i = firstSlot then { Pcb.zero with state := .running }
      else if i = secondSlot then { Pcb.zero with state := .ready } else Pcb.zero
    currentProcess := some firstSlot }

theorem pairKernel_ready (i : Slot) : i ∈ ({secondSlot} : Finset Slot) ↔
    (pairKernel.table i).state = .ready := by
  rw [Finset.mem_singleton]
  unfold pairKernel
  simp only
  split
  · rename_i first
    exact ⟨fun same => absurd (first.symm.trans same) (by decide), nofun⟩
  · split
    · rename_i second
      exact ⟨fun _ => rfl, fun _ => second⟩
    · rename_i other
      exact ⟨fun same => absurd same other, nofun⟩

theorem pairKernel_quiet (i : Slot) : (pairKernel.table i).signalQueue = 0 := by
  unfold pairKernel
  simp only
  split
  · rfl
  · split <;> rfl

theorem schedule_round_robin_pair :
    (∃ t visited, scheduleCalls 2 pairKernel = .ok (t, visited)) ∧
      ∀ t visited, scheduleCalls 2 pairKernel = .ok (t, visited) →
        t.currentProcess = some firstSlot ∧ visited.length = 2 := by
  obtain ⟨-, -, calls, returns, -⟩ :=
    @schedule_round_robin pairKernel firstSlot {secondSlot} rfl rfl pairKernel_ready
  refine ⟨returns fun i _ => pairKernel_quiet i, fun t visited done => ?_⟩
  refine ⟨(calls t visited done).2.1, ?_⟩
  rw [(scheduleCalls_procs done).1]
  rfl

end Calls

end Kfs.Process
