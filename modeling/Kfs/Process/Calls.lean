/-
**What the calls of process memory management do.**

`process_create` and `process_fork` ask for one block after the other, and give back what they have when one is
missing. `CreateWay` and `ForkWay` have a constructor for each way through the call: the allocations and clean-ups
on it, and the kernel at its end, where only the slot and the paging state are new (`Kernel.filled`). `MmapWay`,
`MunmapWay` and `BrkWay` are the same for `process_mmap`, `process_munmap` and `process_brk`. There are no other
ways (`processCreate_way` and so on), and the proofs about a call are case analyses over them.
-/

import Kfs.Process.Pcb

namespace Kfs.Process

open Kfs.Heap Kfs.Paging Memory

/-! ### The kernel at the end of a call -/

/-- A kernel with this control block in the slot `i` and this paging state. -/
def Kernel.filled (s : Kernel) (i : Slot) (proc : Pcb) (p : PagingState) : Kernel :=
  { s with table := Function.update s.table i proc, paging := p }

/-- The control block of `process_create` before it is set up, with what was allocated for it. -/
def Pcb.allocated (pid uid dir stack : Nat) : Pcb :=
  { Pcb.zero with
    pid := pid
    state := .ready
    uid := uid
    gid := uid
    pageDirectory := dir
    kernelStack := stack }

/-- `process_fork`, before it copies the directory: the child is a copy of its parent, and the first of its
children. -/
def Kernel.linked (s : Kernel) (p c : Slot) : Kernel :=
  let t := (processAllocPid s).1.modify c fun _ =>
    { s.table p with pid := s.nextPid, state := .ready, parent := some p, children := none }
  let t := t.modify c fun proc => { proc with nextSibling := (t.table p).children }
  t.modify p fun proc => { proc with children := some c }

namespace Kernel

variable {s : Kernel} {i j p c : Slot} {proc : Pcb} {q r : PagingState}

@[simp] theorem filled_paging : (s.filled i proc q).paging = q := rfl

@[simp] theorem filled_currentProcess : (s.filled i proc q).currentProcess = s.currentProcess := rfl

@[simp] theorem filled_self : (s.filled i proc q).table i = proc := by
  unfold filled
  exact Function.update_self i proc s.table

theorem filled_other (other : j ≠ i) : (s.filled i proc q).table j = s.table j := by
  unfold filled
  exact Function.update_of_ne other proc s.table

theorem filled_start (s : Kernel) (i : Slot) (proc : Pcb) : s.modify i (fun _ => proc) = s.filled i proc s.paging :=
  rfl

/-- Filled with what it has. -/
theorem filled_same : s.filled i (s.table i) q = s.withPaging q := by
  unfold filled
  rw [Function.update_eq_self]
  rfl

theorem withPaging_modify {f : Pcb → Pcb} : (s.withPaging q).modify i f = s.filled i (f (s.table i)) q := rfl

theorem filled_modify {f : Pcb → Pcb} : (s.filled i proc q).modify i f = s.filled i (f proc) q := by
  unfold modify
  rw [filled_self]
  unfold filled
  simp only [Function.update_idem]

theorem filled_withPaging : (s.filled i proc q).withPaging r = s.filled i proc r := rfl

theorem filled_withHeap {h : HeapState} : (s.filled i proc q).withHeap h = s.filled i proc (q.withHeap h) := rfl

theorem filled_discard : (s.filled i proc q).discard i = s.filled i { proc with state := .unused } q :=
  filled_modify

@[simp] theorem linked_paging : (s.linked p c).paging = s.paging := rfl

@[simp] theorem linked_currentProcess : (s.linked p c).currentProcess = s.currentProcess := rfl

theorem linked_child (apart : p ≠ c) : (s.linked p c).table c =
    { s.table p with
      pid := s.nextPid
      state := .ready
      parent := some p
      children := none
      nextSibling := (s.table p).children } := by
  simp only [linked, modify_table, if_neg apart, if_neg apart.symm, if_true]
  rfl

theorem linked_parent (apart : p ≠ c) :
    (s.linked p c).table p = { s.table p with children := some c } := by
  simp only [linked, modify_table, if_neg apart, if_true]
  rfl

theorem linked_other (parent : j ≠ p) (child : j ≠ c) : (s.linked p c).table j = s.table j := by
  simp only [linked, modify_table, if_neg parent, if_neg child]
  rfl

/-- The directory that is copied is the parent's. -/
theorem linked_directory : ((s.linked p c).table p).pageDirectory = (s.table p).pageDirectory := by
  by_cases same : p = c
  · subst same
    simp only [linked, modify_self]
  · rw [linked_parent same]

end Kernel

/-! ### `process_create` -/

/-- **The ways through `process_create`.** -/
inductive CreateWay (image : KernelImage) (s : Kernel) (entryPoint uid : Nat) : Kernel → Option Slot → Prop
  | noSlot (full : processAllocSlot s = none) : CreateWay image s entryPoint uid s none
  | noDirectory {i : Slot} {p : PagingState} (slot : processAllocSlot s = some i)
      (created : pagingCreateDirectory image s.paging = .ok (p, 0)) :
      CreateWay image s entryPoint uid
        ((processAllocPid s).1.filled i { Pcb.allocated s.nextPid uid 0 0 with state := .unused } p) none
  | noStack {i : Slot} {p q : PagingState} {h : HeapState} {dir : Nat} (slot : processAllocSlot s = some i)
      (created : pagingCreateDirectory image s.paging = .ok (p, dir)) (directory : dir ≠ 0)
      (first : kmalloc p.heap pageSize = .ok (h, 0))
      (destroyed : pagingDestroyDirectory (p.withHeap h) dir = .ok q) :
      CreateWay image s entryPoint uid
        ((processAllocPid s).1.filled i { Pcb.allocated s.nextPid uid dir 0 with state := .unused } q) none
  | noPage {i : Slot} {p q : PagingState} {h h' h'' : HeapState} {dir stack : Nat}
      (slot : processAllocSlot s = some i)
      (created : pagingCreateDirectory image s.paging = .ok (p, dir)) (directory : dir ≠ 0)
      (first : kmalloc p.heap pageSize = .ok (h, stack)) (found : stack ≠ 0)
      (second : kmalloc h pageSize = .ok (h', 0)) (freed : kfree h' stack = .ok h'')
      (destroyed : pagingDestroyDirectory (((p.withHeap h).withHeap h').withHeap h'') dir = .ok q) :
      CreateWay image s entryPoint uid
        ((processAllocPid s).1.filled i { Pcb.allocated s.nextPid uid dir stack with state := .unused } q) none
  | made {i : Slot} {p q : PagingState} {h h' : HeapState} {dir stack page : Nat}
      (slot : processAllocSlot s = some i)
      (created : pagingCreateDirectory image s.paging = .ok (p, dir)) (directory : dir ≠ 0)
      (first : kmalloc p.heap pageSize = .ok (h, stack)) (found : stack ≠ 0)
      (second : kmalloc h pageSize = .ok (h', page)) (given : page ≠ 0)
      (mapped : pagingMapPageInDirectory ((p.withHeap h).withHeap h') dir userStackVirt page
        (pageWrite ||| pageUser) = .ok q) :
      CreateWay image s entryPoint uid
        ((processAllocPid s).1.filled i ((Pcb.allocated s.nextPid uid dir stack).setUp entryPoint) q) (some i)

/-- **A call of `process_create` goes one of the ways.** -/
theorem processCreate_way {image : KernelImage} {s s' : Kernel} {entryPoint uid : Nat} {result : Option Slot}
    (done : processCreate image s entryPoint uid = .ok (s', result)) :
    CreateWay image s entryPoint uid s' result := by
  unfold processCreate at done
  cases slot : processAllocSlot s with
  | none =>
      rw [slot] at done
      cases done
      exact .noSlot slot
  | some i =>
      rw [slot] at done
      simp only [Kernel.filled_start, Kernel.filled_withPaging, Kernel.filled_modify, Kernel.filled_paging,
        Kernel.filled_withHeap, Kernel.filled_discard] at done
      obtain ⟨⟨p, dir⟩, created, rest⟩ := Outcome.bind_eq_ok.mp done
      simp only at rest
      by_cases directory : dir = 0
      · rw [if_pos directory] at rest
        cases directory
        cases rest
        exact .noDirectory slot created
      · rw [if_neg directory] at rest
        obtain ⟨⟨h, stack⟩, first, rest⟩ := Outcome.bind_eq_ok.mp rest
        simp only at rest
        by_cases found : stack = 0
        · rw [if_pos found] at rest
          obtain ⟨q, destroyed, last⟩ := Outcome.bind_eq_ok.mp rest
          cases found
          cases last
          exact .noStack slot created directory first destroyed
        · rw [if_neg found] at rest
          obtain ⟨⟨h', page⟩, second, rest⟩ := Outcome.bind_eq_ok.mp rest
          simp only at rest
          by_cases given : page = 0
          · rw [if_pos given] at rest
            obtain ⟨h'', freed, rest⟩ := Outcome.bind_eq_ok.mp rest
            obtain ⟨q, destroyed, last⟩ := Outcome.bind_eq_ok.mp rest
            cases given
            cases last
            exact .noPage slot created directory first found second freed destroyed
          · rw [if_neg given] at rest
            obtain ⟨q, mapped, last⟩ := Outcome.bind_eq_ok.mp rest
            cases last
            exact .made slot created directory first found second given mapped

/-! ### `process_fork` -/

/-- **The ways through `process_fork`** of a process. -/
inductive ForkWay (s : Kernel) (parent : Slot) : Kernel → Option Slot → Prop
  | noSlot (full : processAllocSlot s = none) : ForkWay s parent s none
  | noDirectory {c : Slot} {p : PagingState} (slot : processAllocSlot s = some c)
      (cloned : pagingCloneDirectory s.paging (s.table parent).pageDirectory = .ok (p, 0)) :
      ForkWay s parent ((s.linked parent c).filled c
        { (s.linked parent c).table c with pageDirectory := 0, state := .unused } p) none
  | noStack {c : Slot} {p q : PagingState} {h : HeapState} {dir : Nat} (slot : processAllocSlot s = some c)
      (cloned : pagingCloneDirectory s.paging (s.table parent).pageDirectory = .ok (p, dir)) (directory : dir ≠ 0)
      (taken : kmalloc p.heap pageSize = .ok (h, 0))
      (destroyed : pagingDestroyDirectory (p.withHeap h) dir = .ok q) :
      ForkWay s parent ((s.linked parent c).filled c
        { (s.linked parent c).table c with pageDirectory := dir, kernelStack := 0, state := .unused } q) none
  | made {c : Slot} {p : PagingState} {h : HeapState} {dir stack source : Nat} (slot : processAllocSlot s = some c)
      (cloned : pagingCloneDirectory s.paging (s.table parent).pageDirectory = .ok (p, dir)) (directory : dir ≠ 0)
      (taken : kmalloc p.heap pageSize = .ok (h, stack)) (found : stack ≠ 0)
      (copied : parent ≠ c → source = (s.table parent).kernelStack) :
      ForkWay s parent ((s.linked parent c).filled c
        { (s.linked parent c).table c with
          pageDirectory := dir
          kernelStack := stack
          context := { ((s.linked parent c).table c).context with eax := 0 } }
        ((p.withHeap h).write ((p.withHeap h).mem.copy stack source pageSize))) (some c)

/-- **A call of `process_fork` goes one of the ways.** -/
theorem processFork_way {s s' : Kernel} {parent : Slot} {result : Option Slot}
    (done : processFork s (some parent) = .ok (s', result)) : ForkWay s parent s' result := by
  unfold processFork at done
  cases slot : processAllocSlot s with
  | none =>
      rw [slot] at done
      cases done
      exact .noSlot slot
  | some c =>
      rw [slot] at done
      change (pagingCloneDirectory s.paging ((s.linked parent c).table parent).pageDirectory >>= _) = _ at done
      rw [Kernel.linked_directory] at done
      obtain ⟨⟨p, dir⟩, cloned, rest⟩ := Outcome.bind_eq_ok.mp done
      simp only [Kernel.withPaging_modify, Kernel.filled_withPaging, Kernel.filled_modify, Kernel.filled_paging,
        Kernel.filled_withHeap, Kernel.filled_discard] at rest
      by_cases directory : dir = 0
      · rw [if_pos directory] at rest
        cases directory
        cases rest
        exact .noDirectory slot cloned
      · rw [if_neg directory] at rest
        obtain ⟨⟨h, stack⟩, taken, rest⟩ := Outcome.bind_eq_ok.mp rest
        simp only at rest
        by_cases found : stack = 0
        · rw [if_pos found] at rest
          obtain ⟨q, destroyed, last⟩ := Outcome.bind_eq_ok.mp rest
          cases found
          cases last
          exact .noStack slot cloned directory taken destroyed
        · rw [if_neg found] at rest
          cases rest
          refine .made slot cloned directory taken found fun apart => ?_
          have source : ((s.linked parent c).table parent).kernelStack = (s.table parent).kernelStack := by
            rw [Kernel.linked_parent apart]
          rw [Kernel.filled_other apart]
          exact source

/-! ### `process_mmap`, `process_munmap` and `process_brk` -/

/-- The end of the range that `process_mmap` maps, as it computes it. -/
def mmapEnd (proc : Pcb) (addr length : Nat) : Nat :=
  (mmapVirt proc addr + pagesNeeded length * pageSize % 2 ^ 32) % 2 ^ 32

/-- **The ways through `process_mmap`** for a process. What it has mapped moves the end of the heap up only. -/
inductive MmapWay (s : Kernel) (i : Slot) (addr length prot flags : Nat) : Kernel → Nat → Prop
  | nothing (empty : length = 0) : MmapWay s i addr length prot flags s mapFailed
  | failed {p : PagingState} (asked : length ≠ 0)
      (loop : forLoop (mmapPage (s.table i).pageDirectory (mmapVirt (s.table i) addr)
        (if prot &&& protWrite ≠ 0 then pageUser ||| pageWrite else pageUser) flags) 0 (pagesNeeded length)
        s.paging = .ok (.exit p)) :
      MmapWay s i addr length prot flags (s.withPaging p) mapFailed
  | done {p : PagingState} (asked : length ≠ 0)
      (loop : forLoop (mmapPage (s.table i).pageDirectory (mmapVirt (s.table i) addr)
        (if prot &&& protWrite ≠ 0 then pageUser ||| pageWrite else pageUser) flags) 0 (pagesNeeded length)
        s.paging = .ok (.next p)) :
      MmapWay s i addr length prot flags
        ((s.withPaging p).modify i fun proc =>
          { proc with heapEnd := max proc.heapEnd (mmapEnd (s.table i) addr length) })
        (mmapVirt (s.table i) addr)

/-- **The ways through `process_munmap`.** -/
inductive MunmapWay (s : Kernel) (proc : Option Slot) (addr length : Nat) : Kernel → Int → Prop
  | nothing (refused : proc = none ∨ addr = 0 ∨ length = 0) : MunmapWay s proc addr length s (-1)
  | done {p : PagingState} (asked : ¬ (proc = none ∨ addr = 0 ∨ length = 0))
      (loop : forLoop (munmapPage (frame addr)) 0 (pagesNeeded length) s.paging = .ok (.next p)) :
      MunmapWay s proc addr length (s.withPaging p) 0

/-- **The ways through `process_brk`** for a process. -/
inductive BrkWay (s : Kernel) (i : Slot) (addr : Nat) : Kernel → Nat → Prop
  | query (null : addr = 0) : BrkWay s i addr s (s.table i).heapEnd
  | failed {t : Kernel} (asked : addr ≠ 0) (grows : (s.table i).heapEnd < newBrk addr)
      (mmap : processMmap s (some i) (s.table i).heapEnd (newBrk addr - (s.table i).heapEnd)
        (protRead ||| protWrite) (mapPrivate ||| mapAnonymous) = .ok (t, mapFailed)) :
      BrkWay s i addr t mapFailed
  | grown {t : Kernel} {virt : Nat} (asked : addr ≠ 0) (grows : (s.table i).heapEnd < newBrk addr)
      (mmap : processMmap s (some i) (s.table i).heapEnd (newBrk addr - (s.table i).heapEnd)
        (protRead ||| protWrite) (mapPrivate ||| mapAnonymous) = .ok (t, virt)) (found : virt ≠ mapFailed) :
      BrkWay s i addr t (t.table i).heapEnd
  | shrunk {t : Kernel} {code : Int} (asked : addr ≠ 0) (shrinks : newBrk addr < (s.table i).heapEnd)
      (munmap : processMunmap s (some i) (newBrk addr) ((s.table i).heapEnd - newBrk addr) = .ok (t, code)) :
      BrkWay s i addr (t.modify i fun proc => { proc with heapEnd := newBrk addr }) (newBrk addr)
  | kept (asked : addr ≠ 0) (same : (s.table i).heapEnd = newBrk addr) : BrkWay s i addr s (s.table i).heapEnd

section Memory

variable {s s' : Kernel} {i : Slot} {addr length prot flags virt : Nat} {p : PagingState}

/-- **A call of `process_mmap` goes one of the ways.** -/
theorem processMmap_way {result : Nat} (done : processMmap s (some i) addr length prot flags = .ok (s', result)) :
    MmapWay s i addr length prot flags s' result := by
  unfold processMmap at done
  simp only at done
  by_cases empty : length = 0
  · rw [if_pos empty] at done
    cases done
    exact .nothing empty
  · rw [if_neg empty] at done
    obtain ⟨round, loop, rest⟩ := Outcome.bind_eq_ok.mp done
    cases round with
    | exit p =>
        cases rest
        exact .failed empty loop
    | next p =>
        have mapped := @MmapWay.done s i addr length prot flags p empty loop
        simp only at rest
        split at rest
        · rename_i grows
          cases rest
          have larger : max (s.table i).heapEnd (mmapEnd (s.table i) addr length) = mmapEnd (s.table i) addr length :=
            max_eq_right (Nat.le_of_lt grows)
          rwa [Kernel.withPaging_modify, larger] at mapped
        · rename_i stays
          cases rest
          have smaller : max (s.table i).heapEnd (mmapEnd (s.table i) addr length) = (s.table i).heapEnd :=
            max_eq_left (not_lt.mp stays)
          rwa [Kernel.withPaging_modify, smaller, Kernel.filled_same] at mapped

/-- A loop that maps all its pages lets the call succeed. -/
theorem processMmap_done (asked : length ≠ 0)
    (loop : forLoop (mmapPage (s.table i).pageDirectory (mmapVirt (s.table i) addr)
      (if prot &&& protWrite ≠ 0 then pageUser ||| pageWrite else pageUser) flags) 0 (pagesNeeded length)
      s.paging = .ok (.next p)) :
    ∃ s', processMmap s (some i) addr length prot flags = .ok (s', mmapVirt (s.table i) addr) := by
  unfold processMmap
  simp only
  rw [if_neg asked, loop]
  simp only [Outcome.ok_bind]
  split
  · exact ⟨_, rfl⟩
  · exact ⟨_, rfl⟩

/-- The loop of `process_munmap` is never left. -/
theorem munmapPage_next {k : Nat} {q : PagingState} : munmapPage virt k p ≠ .ok (.exit q) := by
  intro done
  unfold munmapPage at done
  simp only at done
  split at done
  · obtain ⟨h, _, rest⟩ := Outcome.bind_eq_ok.mp done
    cases rest
  · cases done

/-- **A call of `process_munmap` goes one of the ways.** -/
theorem processMunmap_way {proc : Option Slot} {result : Int}
    (done : processMunmap s proc addr length = .ok (s', result)) : MunmapWay s proc addr length s' result := by
  unfold processMunmap at done
  by_cases refused : proc = none ∨ addr = 0 ∨ length = 0
  · rw [if_pos refused] at done
    cases done
    exact .nothing refused
  · rw [if_neg refused] at done
    obtain ⟨round, loop, rest⟩ := Outcome.bind_eq_ok.mp done
    cases round with
    | next p =>
        cases rest
        exact .done refused loop
    | exit p =>
        have never := @forLoop_inv _ _ (munmapPage (frame addr)) (fun _ _ => True) (fun _ => False) 0
          (pagesNeeded length) s.paging trivial (fun k q round _ _ _ body => by
            cases round with
            | next _ => trivial
            | exit _ => exact munmapPage_next body) _ loop
        exact never.elim

/-- **A call of `process_brk` goes one of the ways.** -/
theorem processBrk_way {result : Nat} (done : processBrk s (some i) addr = .ok (s', result)) :
    BrkWay s i addr s' result := by
  unfold processBrk at done
  simp only at done
  by_cases query : addr = 0
  · rw [if_pos query] at done
    cases done
    exact .query query
  · rw [if_neg query] at done
    by_cases grows : (s.table i).heapEnd < newBrk addr
    · rw [if_pos grows] at done
      obtain ⟨⟨t, virt⟩, mmap, rest⟩ := Outcome.bind_eq_ok.mp done
      simp only at rest
      by_cases missing : virt = mapFailed
      · rw [if_pos missing] at rest
        cases missing
        cases rest
        exact .failed query grows mmap
      · rw [if_neg missing] at rest
        cases rest
        exact .grown query grows mmap missing
    · rw [if_neg grows] at done
      by_cases shrinks : newBrk addr < (s.table i).heapEnd
      · rw [if_pos shrinks] at done
        obtain ⟨⟨t, code⟩, munmap, rest⟩ := Outcome.bind_eq_ok.mp done
        cases rest
        rw [Kernel.modify_self]
        exact .shrunk query shrinks munmap
      · rw [if_neg shrinks] at done
        cases done
        exact .kept query (Nat.le_antisymm (not_lt.mp shrinks) (not_lt.mp grows))

end Memory

end Kfs.Process
