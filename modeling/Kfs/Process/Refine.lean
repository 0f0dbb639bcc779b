/-
**The kernel refines its process table.**

`Kernel.procs` forgets the memory behind the process table. Whatever the memory functions do, each call of
the kernel that returns is the call on the table, with a supply that the memory could have given
(`create_procs`, `fork_procs`, `exit_procs`, `wait_procs`, `schedule_procs`, `setCurrent_procs`). So a run of
kernel calls is a run of the table (`ControlStep.refines`, `control_refines`), and what every run of the
table has, every run of the kernel has.
-/

import Kfs.Process.Table

namespace Kfs.Process

open Kfs.Heap Kfs.Paging Memory

/-! ### The loaded directory

Only a switch changes it. -/

section Loaded

variable {image : KernelImage} {p p' : PagingState} {dir src ptr : Nat}

/-- A loop whose rounds do not switch directories does not either. -/
theorem forLoop_current {body : Nat → PagingState → Outcome (Round PagingState PagingState)}
    (rounds : ∀ i q round, body i q = .ok round →
      round.Ends (fun r => r.current = q.current) fun r => r.current = q.current)
    {start count : Nat} {round : Round PagingState PagingState}
    (done : forLoop body start count p = .ok round) :
    round.Ends (fun r => r.current = p.current) fun r => r.current = p.current := by
  refine @forLoop_inv _ _ body (fun _ r => r.current = p.current) (fun r => r.current = p.current) start
    count p rfl (fun i q round _ _ same step => ?_) _ done
  have kept := rounds i q round step
  rw [same] at kept
  exact kept

theorem destroyPage_current {table j : Nat} {round : Round PagingState PagingState}
    (step : destroyPage table j p = .ok round) :
    round.Ends (fun r => r.current = p.current) fun r => r.current = p.current := by
  unfold destroyPage at step
  split at step
  · obtain ⟨h, -, step⟩ := Outcome.bind_eq_ok.mp step
    cases step
    rfl
  · cases step
    rfl

theorem destroyTable_current {i : Nat} {round : Round PagingState PagingState}
    (step : destroyTable dir i p = .ok round) :
    round.Ends (fun r => r.current = p.current) fun r => r.current = p.current := by
  unfold destroyTable at step
  split at step
  · obtain ⟨inner, looped, step⟩ := Outcome.bind_eq_ok.mp step
    have kept := forLoop_current (fun _ _ _ page => destroyPage_current page) looped
    cases inner with
    | exit r =>
        cases step
        exact kept
    | next r =>
        obtain ⟨h, -, step⟩ := Outcome.bind_eq_ok.mp step
        cases step
        exact kept
  · cases step
    rfl

theorem destroyDirectory_current (done : pagingDestroyDirectory p dir = .ok p') :
    p'.current = p.current := by
  unfold pagingDestroyDirectory at done
  split at done
  · cases done
    rfl
  · obtain ⟨round, looped, done⟩ := Outcome.bind_eq_ok.mp done
    have kept := forLoop_current (fun _ _ _ table => destroyTable_current table) looped
    cases round with
    | exit r =>
        cases done
        exact kept
    | next r =>
        obtain ⟨h, -, done⟩ := Outcome.bind_eq_ok.mp done
        cases done
        exact kept

theorem allocTable_current (done : pagingAllocTable p = .ok (p', ptr)) : p'.current = p.current := by
  obtain ⟨⟨h, table⟩, -, done⟩ := Outcome.bind_eq_ok.mp done
  simp only at done
  split at done <;> cases done <;> rfl

theorem createDirectory_current (done : pagingCreateDirectory image p = .ok (p', dir)) :
    p'.current = p.current := by
  obtain ⟨⟨h, made⟩, -, done⟩ := Outcome.bind_eq_ok.mp done
  simp only at done
  split at done <;> cases done <;> rfl

theorem clonePage_current {dst i srcTable dstTable j : Nat} {round : Round PagingState PagingState}
    (step : clonePage dst i srcTable dstTable j p = .ok round) :
    round.Ends (fun r => r.current = p.current) fun r => r.current = p.current := by
  unfold clonePage at step
  split at step
  · obtain ⟨⟨h, phys⟩, -, step⟩ := Outcome.bind_eq_ok.mp step
    simp only at step
    split at step
    · obtain ⟨h', -, step⟩ := Outcome.bind_eq_ok.mp step
      obtain ⟨r, destroyed, step⟩ := Outcome.bind_eq_ok.mp step
      have same := destroyDirectory_current destroyed
      cases step
      exact same
    · cases step
      rfl
  · cases step
    rfl

theorem cloneTable_current {dst i : Nat} {round : Round PagingState PagingState}
    (step : cloneTable src dst i p = .ok round) :
    round.Ends (fun r => r.current = p.current) fun r => r.current = p.current := by
  unfold cloneTable at step
  split at step
  · obtain ⟨⟨q, table⟩, allocated, step⟩ := Outcome.bind_eq_ok.mp step
    have same := allocTable_current allocated
    simp only at step
    split at step
    · obtain ⟨r, destroyed, step⟩ := Outcome.bind_eq_ok.mp step
      cases step
      exact (destroyDirectory_current destroyed).trans same
    · obtain ⟨inner, looped, step⟩ := Outcome.bind_eq_ok.mp step
      have kept := forLoop_current (fun _ _ _ page => clonePage_current page) looped
      cases inner with
      | exit r =>
          cases step
          exact kept.trans same
      | next r =>
          cases step
          exact kept.trans same
  · cases step
    rfl

theorem cloneDirectory_current (done : pagingCloneDirectory p src = .ok (p', dir)) :
    p'.current = p.current := by
  unfold pagingCloneDirectory at done
  split at done
  · cases done
    rfl
  · obtain ⟨⟨h, dst⟩, -, done⟩ := Outcome.bind_eq_ok.mp done
    simp only at done
    split at done
    · cases done
      rfl
    · obtain ⟨round, looped, done⟩ := Outcome.bind_eq_ok.mp done
      have kept := forLoop_current (fun _ _ _ table => cloneTable_current table) looped
      cases round with
      | exit r =>
          cases done
          exact kept
      | next r =>
          cases done
          exact kept

theorem mapPageInDirectory_current {virt phys flags : Nat}
    (done : pagingMapPageInDirectory p dir virt phys flags = .ok p') : p'.current = p.current := by
  unfold pagingMapPageInDirectory at done
  split at done
  · cases done
    rfl
  · obtain ⟨q, ensured, done⟩ := Outcome.bind_eq_ok.mp done
    have table : q.current = p.current := by
      unfold ensureTable at ensured
      split at ensured
      · cases ensured
        rfl
      · obtain ⟨⟨r, table⟩, allocated, ensured⟩ := Outcome.bind_eq_ok.mp ensured
        simp only at ensured
        split at ensured
        · cases ensured
        · cases ensured
          exact show r.current = p.current from allocTable_current allocated
    cases done
    exact table

end Loaded

/-- The process table of the kernel. -/
def Kernel.procs (s : Kernel) : Procs := ⟨s.table, s.currentProcess, s.nextPid, s.paging.current⟩

theorem Kernel.procs_table (s : Kernel) : s.procs.table = s.table := rfl

section Calls

variable {image : KernelImage} {s t : Kernel} {i : Slot} {r : Option Slot}

theorem procs_eq {q : Procs} (table : q.table = t.table) (current : q.currentProcess = t.currentProcess)
    (nextPid : q.nextPid = t.nextPid) (directory : t.paging.current = q.currentDirectory) :
    q = t.procs := by
  obtain ⟨_, _, _, _⟩ := q
  simp only at table current nextPid directory
  rw [table, current, nextPid, ← directory]
  rfl

/-- **Creating a process.** -/
theorem create_procs {entryPoint uid : Nat} (done : processCreate image s entryPoint uid = .ok (t, r)) :
    ∃ mem, s.procs.create entryPoint uid mem = (t.procs, r) := by
  have slot : s.procs.allocSlot = processAllocSlot s := rfl
  simp only [Procs.create, slot]
  unfold processCreate at done
  cases found : processAllocSlot s with
  | none =>
      rw [found] at done
      cases done
      exact ⟨sampleSupply, rfl⟩
  | some i =>
      rw [found] at done
      obtain ⟨⟨p₁, dir⟩, created, done⟩ := Outcome.bind_eq_ok.mp done
      have first : p₁.current = s.paging.current := createDirectory_current created
      simp only at done
      by_cases noDir : dir = 0
      · rw [if_pos noDir] at done
        cases done
        refine ⟨⟨dir, 0, 0⟩, ?_⟩
        simp only [Procs.createAt, if_pos noDir]
        exact congrArg (fun q => (q, none)) (procs_eq rfl rfl rfl first)
      · rw [if_neg noDir] at done
        obtain ⟨⟨h₂, stack⟩, -, done⟩ := Outcome.bind_eq_ok.mp done
        simp only at done
        by_cases noStack : stack = 0
        · rw [if_pos noStack] at done
          obtain ⟨p₃, destroyed, done⟩ := Outcome.bind_eq_ok.mp done
          have last := destroyDirectory_current destroyed
          cases done
          refine ⟨⟨dir, stack, 0⟩, ?_⟩
          simp only [Procs.createAt, if_neg noDir, if_pos noStack]
          exact congrArg (fun q => (q, none)) (procs_eq rfl rfl rfl (last.trans first))
        · rw [if_neg noStack] at done
          obtain ⟨⟨h₃, page⟩, -, done⟩ := Outcome.bind_eq_ok.mp done
          simp only at done
          by_cases noPage : page = 0
          · rw [if_pos noPage] at done
            obtain ⟨h₄, -, done⟩ := Outcome.bind_eq_ok.mp done
            obtain ⟨p₅, destroyed, done⟩ := Outcome.bind_eq_ok.mp done
            have last := destroyDirectory_current destroyed
            cases done
            refine ⟨⟨dir, stack, page⟩, ?_⟩
            simp only [Procs.createAt, if_neg noDir, if_neg noStack, if_pos noPage]
            exact congrArg (fun q => (q, none)) (procs_eq rfl rfl rfl (last.trans first))
          · rw [if_neg noPage] at done
            obtain ⟨p₄, mapped, done⟩ := Outcome.bind_eq_ok.mp done
            have last := mapPageInDirectory_current mapped
            cases done
            refine ⟨⟨dir, stack, page⟩, ?_⟩
            simp only [Procs.createAt, if_neg noDir, if_neg noStack, if_neg noPage]
            exact congrArg (fun q => (q, some i)) (procs_eq rfl rfl rfl (last.trans first))

/-- A clone of NULL is NULL. -/
theorem cloneDirectory_cloned {p p' : PagingState} {src dir : Nat}
    (done : pagingCloneDirectory p src = .ok (p', dir)) (stack page : Nat) :
    Procs.cloned src ⟨dir, stack, page⟩ = dir := by
  unfold Procs.cloned
  split
  · rename_i null
    rw [null] at done
    cases done
    rfl
  · rfl

/-- **Forking a process.** -/
theorem fork_procs {parent : Option Slot} (done : processFork s parent = .ok (t, r)) :
    ∃ mem, s.procs.fork parent mem = (t.procs, r) := by
  have slot : s.procs.allocSlot = processAllocSlot s := rfl
  simp only [Procs.fork, slot]
  unfold processFork at done
  cases parent with
  | none =>
      cases done
      exact ⟨sampleSupply, rfl⟩
  | some p =>
      cases found : processAllocSlot s with
      | none =>
          rw [found] at done
          cases done
          exact ⟨sampleSupply, rfl⟩
      | some c =>
          rw [found] at done
          obtain ⟨⟨p₁, dir⟩, copied, done⟩ := Outcome.bind_eq_ok.mp done
          have first : p₁.current = s.paging.current := cloneDirectory_current copied
          have supplied : ∀ stack page, Procs.cloned ((s.procs.linked p c).table p).pageDirectory
              ⟨dir, stack, page⟩ = dir := fun stack page => cloneDirectory_cloned copied stack page
          simp only at done
          by_cases noDir : dir = 0
          · rw [if_pos noDir] at done
            cases done
            refine ⟨⟨dir, 0, 0⟩, ?_⟩
            simp only [Procs.forkAt, supplied, if_pos noDir]
            exact congrArg (fun q => (q, none)) (procs_eq rfl rfl rfl first)
          · rw [if_neg noDir] at done
            obtain ⟨⟨h₂, stack⟩, -, done⟩ := Outcome.bind_eq_ok.mp done
            simp only at done
            by_cases noStack : stack = 0
            · rw [if_pos noStack] at done
              obtain ⟨p₃, destroyed, done⟩ := Outcome.bind_eq_ok.mp done
              have last := destroyDirectory_current destroyed
              cases done
              refine ⟨⟨dir, stack, 0⟩, ?_⟩
              simp only [Procs.forkAt, supplied, if_neg noDir, if_pos noStack]
              exact congrArg (fun q => (q, none)) (procs_eq rfl rfl rfl (last.trans first))
            · rw [if_neg noStack] at done
              cases done
              refine ⟨⟨dir, stack, 0⟩, ?_⟩
              simp only [Procs.forkAt, supplied, if_neg noDir, if_neg noStack]
              exact congrArg (fun q => (q, some c)) (procs_eq rfl rfl rfl first)

theorem procs_modify (s : Kernel) (i : Slot) (f : Pcb → Pcb) : (s.modify i f).procs = s.procs.modify i f :=
  rfl

theorem procs_withPaging {p : PagingState} (same : p.current = s.paging.current) :
    (s.withPaging p).procs = s.procs :=
  congrArg (Procs.mk s.table s.currentProcess s.nextPid) same

theorem modify_modify (q : Procs) (i : Slot) (f g : Pcb → Pcb) :
    (q.modify i f).modify i g = q.modify i fun proc => g (f proc) := by
  simp only [Procs.modify, Table.modify, Function.update_self, Function.update_idem]

theorem modify_same {q : Procs} {f : Pcb → Pcb} (same : f (q.table i) = q.table i) : q.modify i f = q := by
  simp only [Procs.modify, Table.modify, same, Function.update_eq_self]

theorem exitDirectory_procs (done : exitDirectory s i = .ok t) :
    t.procs = s.procs.modify i fun proc => { proc with pageDirectory := 0 } := by
  unfold exitDirectory at done
  split at done
  · obtain ⟨p, destroyed, done⟩ := Outcome.bind_eq_ok.mp done
    cases done
    rw [procs_modify, procs_withPaging (destroyDirectory_current destroyed)]
  · rename_i null
    cases done
    refine (modify_same ?_).symm
    show { s.table i with pageDirectory := 0 } = s.table i
    rw [← not_not.mp null]

theorem exitStack_procs (done : exitStack s i = .ok t) :
    t.procs = s.procs.modify i fun proc => { proc with kernelStack := 0 } := by
  unfold exitStack at done
  split at done
  · obtain ⟨h, -, done⟩ := Outcome.bind_eq_ok.mp done
    cases done
    rfl
  · rename_i null
    cases done
    refine (modify_same ?_).symm
    show { s.table i with kernelStack := 0 } = s.table i
    rw [← not_not.mp null]

/-- **Ending a process.** -/
theorem exit_procs {proc : Option Slot} {status : Int} (done : processExit s proc status = .ok t) :
    s.procs.exit proc status = .ok t.procs := by
  cases proc with
  | none =>
      cases done
      rfl
  | some i =>
      obtain ⟨s₁, first, done⟩ := Outcome.bind_eq_ok.mp done
      obtain ⟨s₂, second, done⟩ := Outcome.bind_eq_ok.mp done
      obtain ⟨table, orphaned, done⟩ := Outcome.bind_eq_ok.mp done
      cases done
      have ended : s₂.procs = s.procs.modify i fun proc =>
          { proc with exitStatus := status, state := .zombie, pageDirectory := 0, kernelStack := 0 } := by
        rw [exitStack_procs second, exitDirectory_procs first, procs_modify, modify_modify, modify_modify]
      have walk : orphanChildren maxProcesses s₂.procs.table (s₂.procs.table i).children = .ok table :=
        orphaned
      simp only [Procs.exit, ← ended, walk, Outcome.ok_bind]
      rfl

/-- **Waiting for a child.** -/
theorem wait_procs {parent : Option Slot} {table : Table} {pid : Nat} {status : Option Int}
    (done : processWait s.table parent = .ok (table, pid, status)) :
    s.procs.wait parent = .ok (Kernel.procs { s with table := table }, pid, status) := by
  have walk : processWait s.procs.table parent = .ok (table, pid, status) := done
  simp only [Procs.wait, walk, Outcome.ok_bind]
  rfl

theorem switchDirectory_procs (s : Kernel) (dir : Nat) :
    (s.withPaging (pagingSwitchDirectory s.paging dir)).procs = s.procs.switchDirectory dir := by
  unfold pagingSwitchDirectory Procs.switchDirectory
  split <;> rfl

/-- The end of `process_switch` and of `process_set_current`: another process runs. -/
def Kernel.enter (s : Kernel) (next : Slot) : Kernel :=
  let s := { s with currentProcess := some next }
  let s := s.modify next fun proc => { proc with state := .running }
  s.withPaging (pagingSwitchDirectory s.paging (s.table next).pageDirectory)

/-- The same on the table. -/
def Procs.enter (q : Procs) (next : Slot) : Procs :=
  let q := { q with currentProcess := some next }
  let q := q.modify next fun proc => { proc with state := .running }
  q.switchDirectory (q.table next).pageDirectory

theorem enter_procs (s : Kernel) (next : Slot) : (s.enter next).procs = s.procs.enter next :=
  switchDirectory_procs _ _

/-- The start of `process_switch`: the running process is ready again. -/
def Kernel.leave (s : Kernel) : Kernel :=
  match s.currentProcess with
  | some j =>
      if (s.table j).state = ProcessState.running then s.modify j fun proc => { proc with state := .ready }
      else s
  | none => s

/-- The same on the table. -/
def Procs.leave (q : Procs) : Procs :=
  match q.currentProcess with
  | some j =>
      if (q.table j).state = ProcessState.running then q.modify j fun proc => { proc with state := .ready }
      else q
  | none => q

theorem leave_procs (s : Kernel) : s.leave.procs = s.procs.leave := by
  obtain ⟨paging, table, current, nextPid⟩ := s
  cases current with
  | none => rfl
  | some j => exact apply_ite Kernel.procs ((table j).state = ProcessState.running) _ _

theorem switchTo_procs (s : Kernel) (next : Slot) :
    (switchTo s next).procs.modify next (fun proc => { proc with signalQueue := 0 }) =
      s.procs.switch next := by
  refine congrArg (Procs.modify · next _) ?_
  show (s.leave.enter next).procs = s.procs.leave.enter next
  rw [enter_procs, leave_procs]

/-- A change of the state of one process leaves every other field alone. -/
theorem modify_state {α : Type} (field : Pcb → α) (s : Kernel) (i j : Slot) (state : ProcessState)
    (same : ∀ proc : Pcb, field { proc with state := state } = field proc) :
    field ((s.modify i fun proc => { proc with state := state }).table j) = field (s.table j) := by
  rw [Kernel.modify_table]
  split
  · rename_i here
    rw [here, same]
  · rfl

/-- **What a switch leaves alone** until it delivers: every field but the state, and the heap. -/
theorem switchTo_field {α : Type} (field : Pcb → α) (s : Kernel) (next i : Slot)
    (same : ∀ (proc : Pcb) (state : ProcessState), field { proc with state := state } = field proc) :
    field ((switchTo s next).table i) = field (s.table i) := by
  have left : field (s.leave.table i) = field (s.table i) := by
    unfold Kernel.leave
    split
    · split
      · exact modify_state field s _ i .ready fun proc => same proc .ready
      · rfl
    · rfl
  rw [← left]
  exact modify_state field { s.leave with currentProcess := some next } next i .running fun proc =>
    same proc .running

theorem switchTo_heap (s : Kernel) (next : Slot) : (switchTo s next).paging.heap = s.paging.heap := by
  have left : s.leave.paging = s.paging := by
    unfold Kernel.leave
    split
    · split <;> rfl
    · rfl
  have loads : ∀ dir, (pagingSwitchDirectory s.leave.paging dir).heap = s.leave.paging.heap := by
    intro dir
    unfold pagingSwitchDirectory
    split <;> rfl
  rw [← left]
  exact loads _

/-- **Scheduling.** -/
theorem schedule_procs {delivered : List Delivery} (done : processSchedule s = .ok (t, delivered)) :
    s.procs.schedule = t.procs := by
  have picks : pickNext s.procs.table s.procs.currentProcess = pickNext s.table s.currentProcess := rfl
  have current : s.procs.currentProcess = s.currentProcess := rfl
  unfold processSchedule at done
  unfold Procs.schedule
  rw [picks, current]
  cases picked : pickNext s.table s.currentProcess with
  | none =>
      rw [picked] at done
      cases done
      rfl
  | some next =>
      rw [picked] at done
      simp only at done ⊢
      by_cases other : some next ≠ s.currentProcess
      · rw [if_pos other] at done ⊢
        obtain ⟨⟨h, later⟩, -, done⟩ := Outcome.bind_eq_ok.mp done
        cases done
        exact (switchTo_procs s next).symm
      · rw [if_neg other] at done ⊢
        cases done
        rfl

/-- The start of `process_set_current`: the current process, if another one, is ready again. -/
def Kernel.yield (s : Kernel) (proc : Option Slot) : Kernel :=
  match s.currentProcess with
  | some j => if some j ≠ proc then s.modify j fun proc => { proc with state := .ready } else s
  | none => s

/-- The same on the table. -/
def Procs.yield (q : Procs) (proc : Option Slot) : Procs :=
  match q.currentProcess with
  | some j => if some j ≠ proc then q.modify j fun proc => { proc with state := .ready } else q
  | none => q

theorem yield_procs (s : Kernel) (proc : Option Slot) : (s.yield proc).procs = s.procs.yield proc := by
  obtain ⟨paging, table, current, nextPid⟩ := s
  cases current with
  | none => rfl
  | some j => exact apply_ite Kernel.procs (some j ≠ proc) _ _

theorem setCurrent_yield (s : Kernel) (i : Slot) : processSetCurrent s i = (s.yield (some i)).enter i := by
  obtain ⟨paging, table, current, nextPid⟩ := s
  cases current with
  | none => rfl
  | some j =>
      have same : j ≠ i ↔ some j ≠ some i := not_congr Option.some_inj.symm
      exact congrArg (Kernel.enter · i) (if_congr same rfl rfl)

/-- **Setting the current process.** -/
theorem setCurrent_procs (s : Kernel) (proc : Option Slot) :
    s.procs.setCurrent proc = (processSetCurrentOr s proc).procs := by
  cases proc with
  | none =>
      show { s.procs.yield none with currentProcess := none } = _
      rw [← yield_procs]
      obtain ⟨paging, table, current, nextPid⟩ := s
      cases current with
      | none => rfl
      | some j => rfl
  | some i =>
      show (s.procs.yield (some i)).enter i = (processSetCurrent s i).procs
      rw [setCurrent_yield, enter_procs, yield_procs]

end Calls

section Runs

variable {image : KernelImage} {s t : Kernel}

/-- The calls of the kernel that change the process table. -/
inductive ControlStep (image : KernelImage) : Kernel → Kernel → Prop
  | create {s t : Kernel} (entryPoint uid : Nat) (r : Option Slot)
      (done : processCreate image s entryPoint uid = .ok (t, r)) : ControlStep image s t
  | fork {s t : Kernel} (parent r : Option Slot) (done : processFork s parent = .ok (t, r)) :
      ControlStep image s t
  | exit {s t : Kernel} (proc : Option Slot) (status : Int) (done : processExit s proc status = .ok t) :
      ControlStep image s t
  | wait {s : Kernel} (parent : Option Slot) (table : Table) (pid : Nat) (status : Option Int)
      (done : processWait s.table parent = .ok (table, pid, status)) :
      ControlStep image s { s with table := table }
  | schedule {s t : Kernel} (delivered : List Delivery) (done : processSchedule s = .ok (t, delivered)) :
      ControlStep image s t
  | setCurrent (s : Kernel) (proc : Option Slot) : ControlStep image s (processSetCurrentOr s proc)

/-- **A call of the kernel is a call on the table.** -/
theorem ControlStep.refines (step : ControlStep image s t) :
    ∃ op event, s.procs.exec op = .ok (t.procs, event) := by
  cases step with
  | create entryPoint uid r done =>
      obtain ⟨mem, made⟩ := create_procs done
      refine ⟨.create entryPoint uid mem, ?_⟩
      simp only [Procs.exec, made]
      exact ⟨_, rfl⟩
  | fork parent r done =>
      obtain ⟨mem, made⟩ := fork_procs done
      refine ⟨.fork parent mem, ?_⟩
      simp only [Procs.exec, made]
      exact ⟨_, rfl⟩
  | exit proc status done =>
      refine ⟨.exit proc status, ?_⟩
      simp only [Procs.exec, exit_procs done, Outcome.ok_bind]
      exact ⟨_, rfl⟩
  | wait parent table pid status done =>
      refine ⟨.wait parent, ?_⟩
      simp only [Procs.exec, wait_procs done, Outcome.ok_bind]
      split <;> exact ⟨_, rfl⟩
  | schedule delivered done =>
      exact ⟨.schedule, none, congrArg (fun q => Outcome.ok (q, none)) (schedule_procs done)⟩
  | setCurrent proc =>
      exact ⟨.setCurrent proc, none, congrArg (fun q => Outcome.ok (q, none)) (setCurrent_procs s proc)⟩

/-- **A run of kernel calls is a run of the table**, from `process_init` on. -/
theorem control_refines {h : HeapState}
    (run : Relation.ReflTransGen (ControlStep image) (processInit image h) t) :
    ∃ ops history, Run TracedStep (.init image.directory) ops ⟨t.procs, history⟩ := by
  induction run with
  | refl => exact ⟨[], [], .nil _⟩
  | tail _ step ih =>
      obtain ⟨ops, history, before⟩ := ih
      obtain ⟨op, event, done⟩ := step.refines
      refine ⟨ops ++ [op], event.toList ++ history, before.append (.cons ?_ (.nil _))⟩
      exact Outcome.bind_eq_ok.mpr ⟨_, done, rfl⟩

end Runs

end Kfs.Process
