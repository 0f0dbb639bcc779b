/-
**Which process runs.**

`running_is_current`: at every moment at most one slot is RUNNING, the one `current_process` points at,
and the scheduler only starts READY processes. This holds for all arguments, also for pointers to slots
that are unused or whose process has exited.

`process_set_current` does not look at the states it overwrites: the outgoing process becomes READY and
the new one RUNNING also when they have exited. `ended_stays`: as long as it is called with live
processes only, a process that has exited stays a zombie until it is reaped, and never runs again.
-/

import Kfs.Paging.Attempt
import Kfs.Process.Release
import Kfs.Process.RoundRobin

namespace Kfs.Process

open Kfs.Heap Kfs.Paging

/-! ### At most one process runs -/

namespace Procs

variable {s s' : Procs} {op : ProcOp} {event : Option Event} {i j next : Slot}

/-- Every RUNNING slot is the current one. -/
def RunningIsCurrent (s : Procs) : Prop :=
  ∀ i, (s.table i).state = .running → s.currentProcess = some i

theorem RunningIsCurrent.of_others (inv : RunningIsCurrent s)
    (current : s'.currentProcess = s.currentProcess)
    (others : ∀ j, j ≠ i → (s.table j).Relinked (s'.table j))
    (idle : (s'.table i).state ≠ .running) : RunningIsCurrent s' := by
  intro j running
  rw [current]
  by_cases here : j = i
  · subst here
    exact absurd running idle
  · rw [(others j here).state] at running
    exact inv j running

theorem Birth.idle {directory : Nat} {result : Option Slot} (birth : Birth s s' i directory result) :
    (s'.table i).state ≠ .running := by
  rcases birth.state with here | here
  · simp [here]
  · simp [here]

theorem RunningIsCurrent.switch (inv : RunningIsCurrent s) (next : Slot) :
    RunningIsCurrent (s.switch next) := by
  intro i running
  rw [switch_table] at running
  rw [switch_currentProcess]
  split at running
  · rename_i here
    rw [here]
  · split at running
    · cases running
    · rename_i other
      exact absurd ⟨inv i running, running⟩ other

theorem RunningIsCurrent.setCurrent (inv : RunningIsCurrent s) (proc : Option Slot) :
    RunningIsCurrent (s.setCurrent proc) := by
  intro i running
  rw [setCurrent_table] at running
  rw [setCurrent_currentProcess]
  split at running
  · rename_i here
    exact here
  · split at running
    · cases running
    · rename_i other
      exact absurd (inv i running) other

theorem RunningIsCurrent.change (inv : RunningIsCurrent s) (change : Change s op s' event) :
    RunningIsCurrent s' := by
  cases change with
  | nothing => exact inv
  | created birth => exact inv.of_others birth.currentProcess birth.others birth.idle
  | createFailed birth => exact inv.of_others birth.currentProcess birth.others birth.idle
  | forked birth => exact inv.of_others birth.currentProcess birth.others birth.idle
  | forkFailed birth => exact inv.of_others birth.currentProcess birth.others birth.idle
  | exited ended =>
      refine inv.of_others ended.currentProcess ended.others ?_
      rw [ended.zombie]
      decide
  | reaped reaped =>
      refine inv.of_others reaped.currentProcess reaped.others ?_
      rw [reaped.unused]
      decide
  | switched _ => exact inv.switch _
  | setCurrent proc => exact inv.setCurrent proc

/-- After a call of `process_schedule` that changed anything, every RUNNING slot was READY before. -/
theorem RunningIsCurrent.schedule (inv : RunningIsCurrent s)
    (running : (s.schedule.table i).state = .running) :
    (s.table i).state = .ready ∨ s.schedule = s := by
  unfold Procs.schedule at running ⊢
  split at running
  · exact .inr rfl
  · rename_i next picked
    split at running
    · left
      rw [switch_table] at running
      split at running
      · rename_i here
        rw [here]
        exact pickNext_ready picked
      · split at running
        · cases running
        · rename_i other
          exact absurd ⟨inv i running, running⟩ other
    · rename_i same
      right
      simp only [if_neg same]

end Procs

/-- **At most one process runs**, the current one, and what the scheduler starts was READY. -/
theorem running_is_current {kernelDirectory : Nat} {ops : List ProcOp} {t : Traced}
    (run : Run TracedStep (.init kernelDirectory) ops t) :
    (∀ i, (t.procs.table i).state = .running → t.procs.currentProcess = some i) ∧
      ∀ i, (t.procs.schedule.table i).state = .running →
        (t.procs.table i).state = .ready ∨ t.procs.schedule = t.procs := by
  have inv : t.procs.RunningIsCurrent := by
    refine run.invariant (fun x => x.procs.RunningIsCurrent) (fun x op y here step => ?_) ?_
    · obtain ⟨event, change, -⟩ := step.change
      exact here.change change
    · intro i running
      cases running
  exact ⟨inv, fun i running => inv.schedule running⟩

theorem running_is_current_switch : ∃ t,
    Run TracedStep (.init 0x200000) [.create 0 0 sampleSupply, .fork (some firstSlot) sampleSupply,
        .setCurrent (some firstSlot), .schedule] t ∧
      (t.procs.table secondSlot).state = .running ∧
      ∀ i, (t.procs.table i).state = .running → i = secondSlot := by
  refine ⟨_, .cons rfl (.cons rfl (.cons rfl (.cons rfl (.nil _)))), rfl, fun i running => ?_⟩
  have current := (running_is_current
    (.cons rfl (.cons rfl (.cons rfl (.cons rfl (.nil _)))) :
      Run TracedStep (.init 0x200000) [.create 0 0 sampleSupply, .fork (some firstSlot) sampleSupply,
        .setCurrent (some firstSlot), .schedule] _)).1 i running
  exact (Option.some.inj current).symm

/-! ### A process that has exited -/

namespace Procs

variable {s s' : Procs} {op : ProcOp} {event : Option Event} {i : Slot} {pid : Nat}

/-- `process_set_current` gets a live process or NULL, and replaces a live process or none. -/
def SetsLive (s : Procs) : ProcOp → Prop
  | .setCurrent proc =>
      (∀ i ∈ proc, (s.table i).live) ∧ ∀ j ∈ s.currentProcess, proc ≠ some j → (s.table j).live
  | _ => True

instance (s : Procs) : (op : ProcOp) → Decidable (s.SetsLive op)
  | .setCurrent _ => inferInstanceAs (Decidable (_ ∧ _))
  | .create _ _ _ => inferInstanceAs (Decidable True)
  | .fork _ _ => inferInstanceAs (Decidable True)
  | .exit _ _ => inferInstanceAs (Decidable True)
  | .wait _ => inferInstanceAs (Decidable True)
  | .schedule => inferInstanceAs (Decidable True)

/-- A process with this PID is not live in this slot. -/
def Gone (i : Slot) (pid : Nat) (s : Procs) : Prop := (s.table i).live → (s.table i).pid ≠ pid

theorem Gone.of_others (gone : Gone i pid s) {k : Slot}
    (others : ∀ j, j ≠ k → (s.table j).Relinked (s'.table j))
    (self : (s'.table k).live → (s'.table k).pid ≠ pid) : Gone i pid s' := by
  intro live
  by_cases here : i = k
  · subst here
    exact self live
  · rw [(others i here).pid]
    exact gone ((live_iff (others i here).state).mp live)

theorem Gone.switch (gone : Gone i pid s) {next : Slot} (ready : (s.table next).state = .ready) :
    Gone i pid (s.switch next) := by
  intro live
  rw [switch_pid]
  apply gone
  rw [switch_table] at live
  split at live
  · rename_i here
    rw [here, Pcb.live, ready]
    decide
  · split at live
    · rename_i running
      rw [Pcb.live, running.2]
      decide
    · exact live

theorem Gone.setCurrent (gone : Gone i pid s) {proc : Option Slot} (sets : SetsLive s (.setCurrent proc)) :
    Gone i pid (s.setCurrent proc) := by
  intro live
  rw [setCurrent_pid]
  apply gone
  rw [setCurrent_table] at live
  split at live
  · rename_i here
    exact sets.1 i here
  · rename_i other
    split at live
    · rename_i current
      exact sets.2 i current other
    · exact live

theorem Gone.birth (gone : Gone i pid s) {k : Slot} {directory : Nat} {result : Option Slot}
    (birth : Birth s s' k directory result) (fresh : s.nextPid ≠ pid) : Gone i pid s' :=
  gone.of_others birth.others fun _ => birth.pid.trans_ne fresh

/-- **What is gone stays gone**, as long as a PID that is handed out is another one. -/
theorem Gone.change (gone : Gone i pid s) (sets : SetsLive s op)
    (fresh : drawn event.toList ≠ [] → s.nextPid ≠ pid) (change : Change s op s' event) :
    Gone i pid s' := by
  cases change with
  | nothing => exact gone
  | created birth => exact gone.birth birth (fresh (List.cons_ne_nil _ _))
  | createFailed birth => exact gone.birth birth (fresh (List.cons_ne_nil _ _))
  | forked birth => exact gone.birth birth (fresh (List.cons_ne_nil _ _))
  | forkFailed birth => exact gone.birth birth (fresh (List.cons_ne_nil _ _))
  | exited ended =>
      refine gone.of_others ended.others fun live => ?_
      exact absurd ended.zombie live.2
  | reaped reaped =>
      refine gone.of_others reaped.others fun live => ?_
      exact absurd reaped.unused live.1
  | switched picked => exact gone.switch (pickNext_ready picked)
  | setCurrent proc => exact gone.setCurrent sets

/-- **A zombie stays a zombie or is reaped.** -/
theorem zombie_change (zombie : (s.table i).state = .zombie) (sets : SetsLive s op)
    (change : Change s op s' event) :
    (s'.table i).state = .zombie ∧ (s'.table i).pid = (s.table i).pid ∨
      (∃ parent, op = .wait parent) ∧ (s'.table i).state = .unused := by
  have kept : ∀ {a : Pcb}, (s.table i).Relinked a → a.state = .zombie ∧ a.pid = (s.table i).pid :=
    fun same => ⟨same.state.trans zombie, same.pid⟩
  have apart : ∀ {k : Slot}, (s.table k).state = .unused → i ≠ k := by
    rintro k unused rfl
    rw [zombie] at unused
    cases unused
  cases change with
  | nothing => exact .inl ⟨zombie, rfl⟩
  | created birth => exact .inl (kept (birth.others i (apart birth.unused)))
  | createFailed birth => exact .inl (kept (birth.others i (apart birth.unused)))
  | forked birth => exact .inl (kept (birth.others i (apart birth.unused)))
  | forkFailed birth => exact .inl (kept (birth.others i (apart birth.unused)))
  | @exited _ k _ ended =>
      left
      by_cases here : i = k
      · subst here
        exact ⟨ended.zombie, ended.self.pid⟩
      · exact kept (ended.others i here)
  | @reaped _ p child reaped =>
      by_cases here : i = child
      · subst here
        exact .inr ⟨⟨some p, rfl⟩, reaped.unused⟩
      · exact .inl (kept (reaped.others i here))
  | @switched next picked =>
      left
      have other : i ≠ next := by
        rintro rfl
        rw [pickNext_ready picked] at zombie
        cases zombie
      rw [switch_table, if_neg other, if_neg (by simp [zombie])]
      exact ⟨zombie, rfl⟩
  | setCurrent proc =>
      left
      have other : proc ≠ some i := fun here => (sets.1 i here).2 zombie
      have idle : s.currentProcess ≠ some i := fun current => (sets.2 i current other).2 zombie
      rw [setCurrent_table, if_neg other, if_neg idle]
      exact ⟨zombie, rfl⟩

end Procs

/-- A run in which `process_set_current` is called for live processes, in place of live ones. -/
abbrev LiveRun := Run (Guarded (fun t => t.procs.SetsLive) TracedStep)

variable {kernelDirectory : Nat} {ops more : List ProcOp} {t u : Traced} {i : Slot}

theorem LiveRun.counted (run : LiveRun t ops u) (counted : Counted t) : Counted u :=
  run.invariant Counted (fun _ _ _ here step => here.step step.2) counted

theorem LiveRun.gone (run : LiveRun t more u) (counted : Counted t)
    (ended : ¬ (t.procs.table i).live) (few : (drawn u.history).length < 2 ^ 32) :
    u.procs.Gone i (t.procs.table i).pid := by
  have inv : Counted u ∧ (drawn t.history).length ≤ (drawn u.history).length ∧
      ((drawn u.history).length < 2 ^ 32 → u.procs.Gone i (t.procs.table i).pid) := by
    refine run.invariant (fun x => Counted x ∧ (drawn t.history).length ≤ (drawn x.history).length ∧
      ((drawn x.history).length < 2 ^ 32 → x.procs.Gone i (t.procs.table i).pid))
      (fun x op y here step => ?_) ⟨counted, le_rfl, fun _ live => absurd live ended⟩
    obtain ⟨counted', since, gone⟩ := here
    have grows := step.2.drawn_le
    refine ⟨counted'.step step.2, since.trans grows, fun few => ?_⟩
    obtain ⟨event, change, grown⟩ := step.2.change
    refine (gone (by omega)).change step.1 (fun drew => ?_) change
    have more : (drawn x.history).length < (drawn y.history).length := by
      rw [grown, drawn_append, List.length_append]
      exact Nat.lt_add_of_pos_left (List.length_pos_iff.mpr drew)
    have old := counted.pid_le i
    rw [counted'.nextPid, Nat.mod_eq_of_lt (by omega)]
    omega
  exact inv.2.2 few

/-- **A process that has exited never runs again**, in runs that set live processes only: a zombie stays
in its slot under its PID until a wait frees the slot, and while the PID counter has not come round, a
live process in that slot has another PID. -/
theorem ended_stays (run : LiveRun (.init kernelDirectory) ops t)
    (zombie : (t.procs.table i).state = .zombie) :
    (∀ op u, Guarded (fun t => t.procs.SetsLive) TracedStep t op u →
      (u.procs.table i).state = .zombie ∧ (u.procs.table i).pid = (t.procs.table i).pid ∨
        (∃ parent, op = .wait parent) ∧ (u.procs.table i).state = .unused) ∧
    ∀ more u, LiveRun t more u → (drawn u.history).length < 2 ^ 32 →
      (u.procs.table i).pid = (t.procs.table i).pid →
        (u.procs.table i).state ≠ .ready ∧ (u.procs.table i).state ≠ .running := by
  refine ⟨fun op u step => ?_, fun more u later few same => ?_⟩
  · obtain ⟨event, change, -⟩ := step.2.change
    exact Procs.zombie_change zombie step.1 change
  · have gone := later.gone (run.counted Counted.init) (fun live => live.2 zombie) few
    refine ⟨fun ready => gone ?_ same, fun running => gone ?_ same⟩
    · rw [Pcb.live, ready]
      decide
    · rw [Pcb.live, running]
      decide

/-- The other case: an ended process set current, or replaced as the current one, is started again. -/
theorem setCurrent_revives {s : Procs} {proc : Option Slot} (unset : ¬ s.SetsLive (.setCurrent proc)) :
    ∃ i, ¬ (s.table i).live ∧ ((s.setCurrent proc).table i).pid = (s.table i).pid ∧
      (((s.setCurrent proc).table i).state = .ready ∨ ((s.setCurrent proc).table i).state = .running) := by
  by_cases first : ∀ i ∈ proc, (s.table i).live
  · have second : ¬ ∀ j ∈ s.currentProcess, proc ≠ some j → (s.table j).live :=
      fun second => unset ⟨first, second⟩
    push Not at second
    obtain ⟨j, current, other, ended⟩ := second
    refine ⟨j, ended, Procs.setCurrent_pid s proc j, .inl ?_⟩
    rw [Procs.setCurrent_table, if_neg other, if_pos (Option.mem_def.mp current)]
  · push Not at first
    obtain ⟨j, here, ended⟩ := first
    refine ⟨j, ended, Procs.setCurrent_pid s proc j, .inr ?_⟩
    rw [Procs.setCurrent_table, if_pos (Option.mem_def.mp here)]

/-- A process, and its child that has exited. -/
def endedChild : Traced :=
  (runAll (guardedExec (fun t => t.procs.SetsLive) Traced.exec) (.init 0x200000)
    [.create 0 0 sampleSupply, .setCurrent (some firstSlot), .fork (some firstSlot) sampleSupply,
      .exit (some secondSlot) 7]).getD (.init 0x200000)

/-- The child is reaped and its slot taken by another one. -/
def nextChild : Traced :=
  (runAll (guardedExec (fun t => t.procs.SetsLive) Traced.exec) endedChild
    [.wait (some firstSlot), .fork (some firstSlot) sampleSupply]).getD endedChild

theorem ended_stays_reaped :
    (endedChild.procs.table secondSlot).state = .zombie ∧
      (nextChild.procs.table secondSlot).state = .ready ∧
      (nextChild.procs.table secondSlot).pid ≠ (endedChild.procs.table secondSlot).pid := by
  have first : LiveRun (.init 0x200000) [.create 0 0 sampleSupply, .setCurrent (some firstSlot),
      .fork (some firstSlot) sampleSupply, .exit (some secondSlot) 7] endedChild :=
    Run.of_guardedExec (Outcome.eq_ok_getD (by decide +kernel) _)
  have second : LiveRun endedChild [.wait (some firstSlot), .fork (some firstSlot) sampleSupply]
      nextChild :=
    Run.of_guardedExec (Outcome.eq_ok_getD (by decide +kernel) _)
  refine ⟨by decide +kernel, by decide +kernel, fun same => ?_⟩
  have never := (ended_stays first (by decide +kernel)).2 _ _ second (by decide +kernel) same
  exact never.1 (by decide +kernel)

/-! ### The kernel -/

/-- The rest of the kernel takes sixteen blocks and gives eight back, two of them for stacks and six at page
boundaries: the memory of two processes. -/
def pairedOps : List HeapOp :=
  [.malloc 4096, .malloc 4048, .malloc 8192, .malloc 4064, .malloc 4096, .malloc 4064, .malloc 8192,
    .malloc 4064, .malloc 8192, .malloc 4064, .malloc 4096, .malloc 4064, .malloc 4096, .malloc 4064,
    .malloc 8192, .malloc 16, .free 0x500010, .free 0x502000, .free 0x505000, .free 0x507000, .free 0x50A000,
    .free 0x50D000, .free 0x50F000, .free 0x511000]

/-- The blocks after these calls. -/
def pairedBlocks : List Segment := (pairedOps.foldlM HeapOp.plan [⟨heapStart, heapSize, true⟩]).getD []

/-- What `process_create` asks for. -/
def newProcess : List Request := [.entries, .stack, .page, .entries]

/-- **The outgoing process is made READY**, and is the next to run if no other one is READY. -/
theorem Procs.setCurrent_schedule {s : Procs} {p q : Slot} (current : s.currentProcess = some p) (other : p ≠ q)
    (alone : ∀ i, i ≠ q → (s.table i).state = .ready → i = p) :
    ((s.setCurrent (some q)).schedule.table p).state = .running ∧
      ((s.setCurrent (some q)).schedule.table p).pid = (s.table p).pid := by
  have ready : ∀ i, i ∈ ({p} : Finset Slot) ↔ ((s.setCurrent (some q)).table i).state = .ready := by
    intro i
    rw [Finset.mem_singleton, Procs.setCurrent_table, current]
    constructor
    · rintro rfl
      rw [if_neg fun same => other (Option.some.inj same).symm, if_pos rfl]
    · split
      · intro running
        cases running
      · rename_i apart
        split
        · rename_i here
          exact fun _ => (Option.some.inj here).symm
        · exact alone i fun same => apart (same ▸ rfl)
  have idle : q ∉ ({p} : Finset Slot) := fun member => other (Finset.mem_singleton.mp member).symm
  unfold Procs.schedule
  rw [Procs.setCurrent_currentProcess]
  cases picked : pickNext (s.setCurrent (some q)).table (some q) with
  | none => exact absurd (pickNext_none ready idle picked) (Finset.singleton_ne_empty p)
  | some next =>
      obtain rfl := Finset.mem_singleton.mp (pickNext_nearest ready idle picked).1
      simp only
      rw [if_pos fun same => other (Option.some.inj same), Procs.switch_pid, Procs.setCurrent_pid,
        Procs.switch_table, if_pos rfl]
      exact ⟨rfl, rfl⟩

section Current

variable {image : KernelImage} {b : Books} {l : List Segment} {other : Multiset Nat} {i : Slot}
  {s s₁ s₂ : Kernel} {entryPoint uid : Nat} {made : Option Slot}

/-- The exit of a process that is set current, and has no children, returns. -/
theorem exit_current (accounts : Accounts image b l other) (live : (b.kernel.table i).live)
    (childless : (b.kernel.table i).children = none) (status : Int) :
    ∃ s, processExit (processSetCurrent b.kernel i) (some i) status = .ok s := by
  obtain ⟨heap, state, now, -⟩ := processSetCurrent_memory b.kernel i i
  have spans : Spans ((processSetCurrent b.kernel i).table i).pageDirectory
      (((processSetCurrent b.kernel i).table i).kernelStack ::ₘ besides b.kernel other i)
      (processSetCurrent b.kernel i).paging l := by
    obtain ⟨inv, balance, room, aligned⟩ := accounts.spans live
    have mem : (processSetCurrent b.kernel i).paging.mem = b.kernel.paging.mem := congrArg HeapState.mem heap
    rw [now]
    refine ⟨heap ▸ inv, ?_, ?_, aligned⟩
    · rw [mem]
      exact balance
    · rw [mem]
      exact room
  obtain ⟨s₁, s₂, -, first, second, -, -, -, children⟩ := @exitMemory
    ((processSetCurrent b.kernel i).modify i fun proc => { proc with exitStatus := status, state := .zombie }) l
    (besides b.kernel other i) i (by simpa using spans)
  have orphans : (s₂.table i).children = none := by
    rw [children, Kernel.modify_self, now]
    exact childless
  have returns : processExitBy kfreeLive (processSetCurrent b.kernel i) (some i) status = .ok s₂ := by
    simp only [processExitBy, first, second, orphans, orphanChildren, Outcome.ok_bind, Outcome.pure_eq]
  exact ⟨s₂, processExitBy_mono (fun _ _ _ => kfree_of_kfreeLive) returns⟩

/-- So does that of one of two processes whose memory was taken at page boundaries. -/
theorem exit_one_of_two (booted : Booted image s) (placed : AtBoundaries (blocks s) (createRequests s))
    (created : processCreate image s entryPoint uid = .ok (s₁, some i))
    (placed' : AtBoundaries (blocks s₁) (createRequests s₁))
    (created' : processCreate image s₁ entryPoint uid = .ok (s₂, made)) (live : (s₂.table i).live)
    (childless : (s₂.table i).children = none) (status : Int) :
    ∃ t, processExit (processSetCurrent s₂ i) (some i) status = .ok t := by
  obtain ⟨l, other, start⟩ := booted.accounts
  obtain ⟨l', after⟩ := start.create placed created
  obtain ⟨l'', accounts⟩ := after.create placed' created'
  exact exit_current accounts live childless status

/-- `process_alloc_slot` gives the first slot that is free. -/
theorem processAllocSlot_eq (unused : (s.table i).state = .unused) (used : ∀ j < i, (s.table j).state ≠ .unused) :
    processAllocSlot s = some i := by
  cases found : processAllocSlot s with
  | none =>
      have taken := find_slots_none found i
      rw [unused] at taken
      cases taken
  | some k =>
      obtain ⟨free, first⟩ := find_slots_first found
      have below : k ≤ i := first i (by rw [unused]; rfl)
      rcases below.lt_or_eq with less | rfl
      · exact absurd (of_decide_eq_true free) (used k less)
      · rfl

/-- **`process_create`** when first fit serves what it asks for. -/
theorem KernelInv.create_served {grid : Prop} {own : Owner → Option Nat} {more : List Request}
    (inv : KernelInv grid image s l own) (slot : processAllocSlot s = some i)
    (room : Enough l (newProcess ++ more)) (bound : AtBoundaries l (newProcess ++ more)) :
    ∃ s' l' own', processCreate image s 0 0 = .ok (s', some i) ∧ KernelInv grid image s' l' own' ∧
      AtBoundaries (blocks s) (createRequests s) ∧ Enough l' more ∧ AtBoundaries l' more := by
  obtain ⟨last, _, x, l₁, _, placed₁, ⟨stack, l₂, _, placed₂, ⟨page, l₃, _, placed₃, ⟨y, l₄, _, placed₄, rest, -⟩,
    -⟩, -⟩, -⟩ := room
  obtain ⟨s', done, -, -, heap⟩ := inv.create_placed 0 0 slot placed₁ placed₂ placed₃ placed₄
  obtain ⟨⟨l', own', after⟩, -⟩ := inv.create (fun none => absurd none (by simp)) done
  cases after.layout.heap.blockList_eq.symm.trans heap
  have serves : Serves l newProcess l₄ ([] ++ ([] ++ ([page] ++ []))) :=
    (Serves.entries placed₁).append ((Serves.stack placed₂).append
      ((Serves.page placed₃).append (Serves.entries placed₄)))
  obtain ⟨here, later⟩ := (AtBoundaries.append serves).mp bound
  refine ⟨s', l₄, own', done, after, ?_, ⟨last, _, rest⟩, later⟩
  rw [blocks, inv.layout.heap.blockList_eq, Option.getD_some, createRequests, slot]
  exact here

/-- What a new process looks like, and that the others stay. -/
theorem processCreate_table (created : processCreate image s entryPoint uid = .ok (s₁, some i)) :
    (s₁.table i).state = .ready ∧ (s₁.table i).children = none ∧ (s₁.table i).signalQueue = 0 ∧
      (∀ j, j ≠ i → s₁.table j = s.table j) ∧ s₁.currentProcess = s.currentProcess := by
  obtain ⟨_, _, _, _, _, _, -, -, -, -, -, -, -, -, table, current⟩ := processCreate_some created
  rw [table, Function.update_self]
  exact ⟨rfl, rfl, rfl, fun j other => Function.update_of_ne other _ _, current⟩

/-- The scheduler after `process_set_current`, with no signals pending. -/
theorem schedule_after_setCurrent {q : Slot}
    (quiet : ∀ i, ((s.procs.setCurrent (some q)).table i).state = .ready → (s.procs.table i).signalQueue = 0) :
    ∃ t, processSchedule (processSetCurrent s q) = .ok (t, []) ∧
      (s.procs.setCurrent (some q)).schedule = t.procs := by
  have current : s.procs.setCurrent (some q) = (processSetCurrent s q).procs := setCurrent_procs s (some q)
  rw [current] at quiet ⊢
  obtain ⟨t, schedules⟩ := @processSchedule_quiet (processSetCurrent s q) fun i ready => by
    obtain ⟨-, now, same, -⟩ := processSetCurrent_memory s q i
    rw [same]
    exact quiet i ready
  exact ⟨t, schedules, schedule_procs schedules⟩

end Current

theorem zombie_runs_again : ∃ c s₁ s₂ s₃ s₄,
    Run HeapStep (Client.init (pagingInit sampleImage fun _ => 0)) pairedOps c ∧
    processCreate sampleImage (processInit sampleImage c.heap) 0 0 = .ok (s₁, some firstSlot) ∧
    processCreate sampleImage s₁ 0 0 = .ok (s₂, some secondSlot) ∧
    processExit (processSetCurrent s₂ firstSlot) (some firstSlot) 0 = .ok s₃ ∧
    (s₃.table firstSlot).state = .zombie ∧
    processSchedule (processSetCurrent s₃ secondSlot) = .ok (s₄, []) ∧
    (s₄.table firstSlot).state = .running ∧
    (s₄.table firstSlot).pid = (s₃.table firstSlot).pid := by
  obtain ⟨c, run, client⟩ := (clientInv_init (pagingInit sampleImage fun _ => 0)).plans
    (show pairedOps.foldlM HeapOp.plan [⟨heapStart, heapSize, true⟩] = some pairedBlocks by decide +kernel)
  have booted : Booted sampleImage (processInit sampleImage c.heap) := ⟨_, _, c, run, rfl⟩
  obtain ⟨l, inv⟩ := @Booted.inv False sampleImage _ booted fun on => on.elim
  have found : blockList (processInit sampleImage c.heap).paging.heap = some pairedBlocks :=
    client.heap.blockList_eq
  cases inv.layout.heap.blockList_eq.symm.trans found
  obtain ⟨room, bound⟩ : Enough pairedBlocks (newProcess ++ (newProcess ++ [])) ∧
      AtBoundaries pairedBlocks (newProcess ++ (newProcess ++ [])) := by
    decide +kernel
  -- two processes
  obtain ⟨s₁, l₁, own₁, created, inv₁, placed, room₁, bound₁⟩ :=
    inv.create_served processAllocSlot_init room bound
  obtain ⟨ready, childless, quiet, others, current⟩ := processCreate_table created
  have slot : processAllocSlot s₁ = some secondSlot := by
    refine processAllocSlot_eq ?_ fun j less => ?_
    · rw [others _ (by decide)]
      rfl
    · obtain rfl : j = firstSlot := by
        rw [Fin.lt_def] at less
        exact Fin.ext (Nat.lt_one_iff.mp less)
      rw [ready]
      decide
  obtain ⟨s₂, l₂, own₂, created', inv₂, placed', -, -⟩ := inv₁.create_served slot room₁ bound₁
  obtain ⟨ready', -, quiet', others', current'⟩ := processCreate_table created'
  rw [← others' firstSlot (by decide)] at ready childless quiet
  have rest : ∀ j, j ≠ firstSlot → j ≠ secondSlot → s₂.table j = Pcb.zero := fun j one two =>
    (others' j two).trans (others j one)
  -- the first one exits
  have live : (s₂.table firstSlot).live := by
    rw [Pcb.live, ready]
    decide
  obtain ⟨s₃, exits⟩ := exit_one_of_two booted placed created placed' created' live childless 0
  have set : s₂.procs.setCurrent (some firstSlot) = (processSetCurrent s₂ firstSlot).procs :=
    setCurrent_procs s₂ (some firstSlot)
  have ended := Procs.exit_ended (exit_procs exits)
  rw [← set] at ended
  have idle : s₂.procs.currentProcess = none := current'.trans current
  have kept : ∀ j, j ≠ firstSlot → (s₂.procs.table j).Relinked (s₃.procs.table j) := by
    intro j other
    have same := ended.others j other
    rwa [Procs.setCurrent_table, if_neg fun here => other (Option.some.inj here).symm, idle,
      if_neg (by simp)] at same
  have queues : ∀ j, (s₃.procs.table j).signalQueue = 0 := by
    intro j
    by_cases first : j = firstSlot
    · obtain ⟨_, _, _, same⟩ := ended.self
      rw [first, same, Procs.setCurrent_table, if_pos rfl]
      exact quiet
    · obtain ⟨_, _, _, same⟩ := kept j first
      rw [same]
      by_cases second : j = secondSlot
      · rw [second]
        exact quiet'
      · rw [Kernel.procs_table, rest j first second]
        rfl
  -- it is READY again once the second one is set current, and no other one is
  obtain ⟨s₄, schedules, table⟩ := @schedule_after_setCurrent s₃ secondSlot fun j _ => queues j
  have first := ended.currentProcess.trans (Procs.setCurrent_currentProcess _ _)
  obtain ⟨runs, pid⟩ := Procs.setCurrent_schedule first (show firstSlot ≠ secondSlot by decide)
    fun j second ready => by
      by_contra other
      rw [(kept j other).state, Kernel.procs_table, rest j other second] at ready
      cases ready
  rw [table] at runs pid
  exact ⟨c, s₁, s₂, s₃, s₄, run, created, created', exits, ended.zombie, schedules, runs, pid⟩

end Kfs.Process
