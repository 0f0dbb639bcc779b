/-
**What a process leaves behind: `process_exit`.**

`Releases`: `process_exit` returns, every address it frees is that of a block in use, and no block taken
for the process is in use afterwards. `memory_released` has it for every process of every run of
`process_create`, `process_fork`, `process_mmap`, `process_brk` and `process_signal_send` whose calls meet
`Accountable`. That asks for what the code does not: `kfree` takes addresses as `kmalloc` returned them,
and entries hold them rounded to pages, so all pages, tables and directories must have been placed at page
boundaries; a page that is mapped twice is lost, a page of the kernel's part is never freed, and neither is
a queued signal; and a fork that takes a slot it already points at makes the list of children a circle.

The first process of a fresh kernel does not meet it, and its exit stops the machine
(`first_exit_panics`).
-/

import Kfs.Process.Accounts

namespace Kfs.Process

open Kfs.Heap Kfs.Paging Memory

/-! ### Exit, freeing in any way -/

/-- `exitDirectory`, given what frees a block. -/
def exitDirectoryBy (free : HeapState → Nat → Outcome HeapState) (s : Kernel) (i : Slot) :
    Outcome Kernel :=
  if (s.table i).pageDirectory ≠ 0 then do
    let p ← destroyDirectoryBy free s.paging (s.table i).pageDirectory
    return (s.withPaging p).modify i fun proc => { proc with pageDirectory := 0 }
  else .ok s

/-- `exitStack`, given what frees a block. -/
def exitStackBy (free : HeapState → Nat → Outcome HeapState) (s : Kernel) (i : Slot) : Outcome Kernel :=
  if (s.table i).kernelStack ≠ 0 then do
    let h ← free s.paging.heap (s.table i).kernelStack
    return (s.withHeap h).modify i fun proc => { proc with kernelStack := 0 }
  else .ok s

/-- `process_exit`, given what frees a block. -/
def processExitBy (free : HeapState → Nat → Outcome HeapState) (s : Kernel) (proc : Option Slot)
    (status : Int) : Outcome Kernel :=
  match proc with
  | none => .ok s
  | some i => do
      let s := s.modify i fun proc => { proc with exitStatus := status, state := .zombie }
      let s ← exitDirectoryBy free s i
      let s ← exitStackBy free s i
      let table ← orphanChildren maxProcesses s.table (s.table i).children
      return { s with table := table }

theorem processExitBy_kfree : processExitBy kfree = processExit := rfl

section Exit

variable {free free' : HeapState → Nat → Outcome HeapState} {s s' : Kernel} {i : Slot} {status : Int}

/-! What returns when less may be freed returns the same when more may. -/

theorem exitDirectoryBy_mono (more : ∀ h a h', free h a = .ok h' → free' h a = .ok h')
    (done : exitDirectoryBy free s i = .ok s') : exitDirectoryBy free' s i = .ok s' := by
  unfold exitDirectoryBy at done ⊢
  split at done
  · rename_i nonzero
    obtain ⟨p, destroyed, last⟩ := Outcome.bind_eq_ok.mp done
    rw [if_pos nonzero, destroyDirectoryBy_mono more destroyed]
    exact last
  · rename_i zero
    rwa [if_neg zero]

theorem exitStackBy_mono (more : ∀ h a h', free h a = .ok h' → free' h a = .ok h')
    (done : exitStackBy free s i = .ok s') : exitStackBy free' s i = .ok s' := by
  unfold exitStackBy at done ⊢
  split at done
  · rename_i nonzero
    obtain ⟨h, freed, last⟩ := Outcome.bind_eq_ok.mp done
    rw [if_pos nonzero, more _ _ _ freed]
    exact last
  · rename_i zero
    rwa [if_neg zero]

theorem processExitBy_mono {proc : Option Slot} (more : ∀ h a h', free h a = .ok h' → free' h a = .ok h')
    (done : processExitBy free s proc status = .ok s') : processExitBy free' s proc status = .ok s' := by
  unfold processExitBy at done ⊢
  cases proc with
  | none => exact done
  | some i =>
      obtain ⟨s₁, first, rest⟩ := Outcome.bind_eq_ok.mp done
      obtain ⟨s₂, second, last⟩ := Outcome.bind_eq_ok.mp rest
      exact Outcome.bind_eq_ok.mpr ⟨s₁, exitDirectoryBy_mono more first,
        Outcome.bind_eq_ok.mpr ⟨s₂, exitStackBy_mono more second, last⟩⟩

end Exit

/-! ### Releasing everything -/

/-- **`process_exit` releases everything**: it returns, nothing but addresses of blocks in use are freed
on the way, and no block taken for the process is in use afterwards. -/
def Releases (b : Books) (p : Slot) (status : Int) : Prop :=
  ∃ s', processExitBy kfreeLive b.kernel (some p) status = .ok s' ∧
    processExit b.kernel (some p) status = .ok s' ∧ ∀ a, b.holder a = some p → ¬ Allocated s' a

section Releases

variable {image : KernelImage} {b : Books} {s s' : Kernel} {l : List Segment} {other rest : Multiset Nat}
  {i : Slot} {status : Int}

/-- The directory and the kernel stack are freed. -/
theorem exitMemory (spans : Spans (s.table i).pageDirectory ((s.table i).kernelStack ::ₘ rest) s.paging l) :
    ∃ s₁ s₂ l', exitDirectoryBy kfreeLive s i = .ok s₁ ∧ exitStackBy kfreeLive s₁ i = .ok s₂ ∧
      HeapInv s₂.paging.heap l' ∧ inUse l' = rest ∧ (∀ j, (s₂.table j).nextSibling = (s.table j).nextSibling) ∧
      (s₂.table i).children = (s.table i).children := by
  obtain ⟨p, l₁, destroyed, heap₁, left₁, _⟩ := spans.destroyDirectory
  obtain ⟨h, l₂, freed, heap₂, left₂, _⟩ := giveBack heap₁ left₁
  have stack : (s.table i).kernelStack ≠ 0 := by
    have member : (s.table i).kernelStack ∈ inUse l₁ := by
      rw [left₁]
      exact Multiset.mem_cons_self _ _
    obtain ⟨c, _, _, here⟩ := mem_inUse.mp member
    omega
  refine ⟨(s.withPaging p).modify i fun proc => { proc with pageDirectory := 0 },
    (((s.withPaging p).modify i fun proc => { proc with pageDirectory := 0 }).withHeap h).modify i
      fun proc => { proc with kernelStack := 0 }, l₂, ?_, ?_, heap₂, left₂, fun j => ?_, ?_⟩
  · rw [exitDirectoryBy, if_pos spans.directory_ne_zero, destroyed]
    rfl
  · rw [exitStackBy, if_pos (by simpa using stack)]
    simp only [Kernel.modify_paging, Kernel.withPaging_paging, Kernel.modify_self, Kernel.withPaging_table,
      freed, Outcome.ok_bind]
    rfl
  · by_cases mine : j = i
    · subst mine
      simp
    · simp [Kernel.modify_table, mine]
  · simp

/-- **A process of kernels whose accounts are in order releases everything.** -/
theorem Accounts.releases (accounts : Accounts image b l other) (live : (b.kernel.table i).live)
    (status : Int) : Releases b i status := by
  have spans := accounts.spans live
  -- becoming a zombie changes neither the directory nor the stack
  obtain ⟨s₁, s₂, l', first, second, heap, left, next, children⟩ := @exitMemory
    (b.kernel.modify i fun proc => { proc with exitStatus := status, state := .zombie }) l
    (besides b.kernel other i) i (by simpa using spans)
  obtain ⟨c, threads⟩ := accounts.ends (b.kernel.table i).children
  have threads' : Threads (Table.next s₂.table) (s₂.table i).children c := by
    rw [children, Kernel.modify_self]
    refine threads.congr fun j _ => ?_
    rw [Table.next, next, Kernel.modify_table, Table.next]
    split
    · next mine => rw [mine]
    · rfl
  have short : c.length ≤ maxProcesses := threads.length_le.trans (Fintype.card_fin _).le
  have orphaned := orphanChildren_eq threads' short
  have returns : processExitBy kfreeLive b.kernel (some i) status = .ok { s₂ with
      table := fun j => if j ∈ c then { s₂.table j with parent := none } else s₂.table j } := by
    simp only [processExitBy, first, second, orphaned, Outcome.ok_bind, Outcome.pure_eq]
  refine ⟨_, returns, processExitBy_mono (fun _ _ _ => kfree_of_kfreeLive) returns, fun a held => ?_⟩
  have nodup := inUse_nodup accounts.heap.tiles
  rw [accounts.balance_live live] at nodup
  have apart := Multiset.disjoint_right.mp (Multiset.nodup_add.mp nodup).2.2 (accounts.held a i held).2
  intro still
  have member := (allocated_iff heap).mp still
  rw [left] at member
  exact apart member

end Releases

/-! ### Runs -/

/-- A call that gives memory to a process. -/
inductive OwnOp where
  | create (entryPoint uid : Nat)
  | fork (parent : Slot)
  | mmap (proc : Slot) (addr length prot flags : Nat)
  | brk (proc : Slot) (addr : Nat)
  | signalSend (proc : Slot) (signal : Int)
  deriving DecidableEq, Repr

namespace OwnOp

/-- Run one call; the second value is the process it takes memory for, if there is one. -/
def exec (image : KernelImage) (s : Kernel) : OwnOp → Outcome (Kernel × Option Slot)
  | .create entryPoint uid => processCreate image s entryPoint uid
  | .fork parent => processFork s (some parent)
  | .mmap proc addr length prot flags => do
      let (s, _) ← processMmap s (some proc) addr length prot flags
      return (s, some proc)
  | .brk proc addr => do
      let (s, _) ← processBrk s (some proc) addr
      return (s, some proc)
  | .signalSend proc signal => do
      let (s, _) ← processSignalSend s (some proc) signal
      return (s, some proc)

/-- The process a call names is live. -/
def Called (s : Kernel) : OwnOp → Prop
  | .create _ _ => True
  | .fork parent => (s.table parent).live
  | .mmap proc _ _ _ _ => (s.table proc).live
  | .brk proc _ => (s.table proc).live
  | .signalSend proc _ => (s.table proc).live

/-- **A call whose memory can be accounted for**, in the state before it: first fit places its pages,
tables and directories at page boundaries; the pages it maps are pages of the user's part that are not
mapped, and the pages it unmaps are of the user's part; a fork takes a slot that is not among the parent's
children; and no signal is queued. -/
def Accountable (s : Kernel) : OwnOp → Prop
  | .create _ _ => AtBoundaries (blocks s) (createRequests s)
  | .fork parent => AtBoundaries (blocks s) (forkRequests s parent) ∧ NewSibling s parent
  | .mmap proc addr length _ _ =>
      Mappable s proc (mmapVirt (s.table proc) addr) (pagesNeeded length)
  | .brk proc addr =>
      Mappable s proc (brkMapped (s.table proc) addr).1 (brkMapped (s.table proc) addr).2 ∧
        AboveOrNull (brkUnmapped (s.table proc) addr).1 (brkUnmapped (s.table proc) addr).2
  | .signalSend _ signal => Refused s signal

end OwnOp

/-- One call, for live processes, that returns. -/
def BookStep (image : KernelImage) (b : Books) (op : OwnOp) (b' : Books) : Prop :=
  op.Called b.kernel ∧ ∃ s who, op.exec image b.kernel = .ok (s, who) ∧ b' = b.post s who

/-- The books of a kernel that has started: nothing was taken for a process yet. -/
def Books.start (s : Kernel) : Books := ⟨s, fun _ => none⟩

section Runs

variable {image : KernelImage} {b b' t : Books} {s : Kernel} {l : List Segment} {other : Multiset Nat}
  {op : OwnOp} {ops : List OwnOp} {p : Slot}

/-- **Every call keeps the accounts.** -/
theorem Accounts.step (accounts : Accounts image b l other) (accountable : op.Accountable b.kernel)
    (step : BookStep image b op b') : ∃ l' other', Accounts image b' l' other' := by
  obtain ⟨called, s, who, done, rfl⟩ := step
  cases op with
  | create entryPoint uid =>
      obtain ⟨l', next⟩ := accounts.create accountable done
      exact ⟨l', other, next⟩
  | fork parent => exact accounts.fork called accountable.1 accountable.2 done
  | mmap proc addr length prot flags =>
      obtain ⟨⟨s₁, result⟩, call, last⟩ := Outcome.bind_eq_ok.mp done
      cases last
      obtain ⟨l', next⟩ := accounts.mmap called accountable call
      exact ⟨l', other, next⟩
  | brk proc addr =>
      obtain ⟨⟨s₁, result⟩, call, last⟩ := Outcome.bind_eq_ok.mp done
      cases last
      obtain ⟨l', next⟩ := accounts.brk called accountable.1 accountable.2 call
      exact ⟨l', other, next⟩
  | signalSend proc signal =>
      obtain ⟨⟨s₁, result⟩, call, last⟩ := Outcome.bind_eq_ok.mp done
      cases last
      exact ⟨l, other, accounts.send accountable call⟩

/-- **A kernel that has started** has its accounts in order. -/
theorem Booted.accounts (booted : Booted image s) :
    ∃ l other, Accounts image (Books.start s) l other := by
  obtain ⟨l, heap, kernel⟩ := booted.mapped
  obtain ⟨_, _, c, _, rfl⟩ := booted
  have unused : ∀ i, ¬ ((processInit image c.heap).table i).live := fun i live => live.1 rfl
  have empty : liveSlots (processInit image c.heap) = ∅ := by
    ext i
    simp [mem_liveSlots, unused]
  refine ⟨l, inUse l, heap, ?_, fun i live => absurd live (unused i), fun i live => absurd live (unused i),
    kernel, rfl, fun a i found => (by cases found), fun head => ?_⟩
  · rw [Books.start, empty, Finset.sum_empty, add_zero]
  · cases head with
    | none => exact ⟨[], rfl⟩
    | some i => exact ⟨[i], rfl, rfl⟩

/-- **The memory of a process is released on exit**, in every run whose calls can be accounted for. -/
theorem memory_released (booted : Booted image s)
    (run : Run (Guarded (fun b op => op.Accountable b.kernel) (BookStep image)) (Books.start s) ops t)
    (live : (t.kernel.table p).live) (status : Int) : Releases t p status := by
  obtain ⟨l, other, accounts⟩ := run.invariant (fun b => ∃ l other, Accounts image b l other)
    (fun _ _ _ ⟨_, _, here⟩ step => here.step step.1 step.2) booted.accounts
  exact accounts.releases live status

/-- The same kernel as `freshKernel`, after the rest of it has taken eight blocks and given four of them
back: three of the holes start at page boundaries, and a smaller one comes before them. -/
def preparedOps : List HeapOp :=
  [.malloc 4096, .malloc 4048, .malloc 8192, .malloc 4064, .malloc 4096, .malloc 4064, .malloc 8192,
    .malloc 16, .free 0x500010, .free 0x502000, .free 0x505000, .free 0x507000]

/-- The rest of the kernel after these calls. -/
def preparedClient : Client :=
  (runAll HeapOp.exec (Client.init (pagingInit sampleImage fun _ => 0)) preparedOps).getD
    (Client.init fun _ => 0)

def preparedKernel : Kernel := processInit sampleImage preparedClient.heap

theorem preparedKernel_booted : Booted sampleImage preparedKernel :=
  ⟨fun _ => 0, preparedOps, preparedClient,
    (Run.of_runAll (Outcome.eq_ok_getD (by decide +kernel) _)).mono fun _ _ _ => HeapStep.of_exec, rfl⟩

/-- The kernel after its first `process_create`. -/
def afterCreate (s : Kernel) : Kernel := ((processCreate sampleImage s 0 0).getD (s, none)).1

theorem afterCreate_eq {made : Option Slot} (returns : (processCreate sampleImage s 0 0).isOk = true)
    (which : ((processCreate sampleImage s 0 0).getD (s, none)).2 = made) :
    processCreate sampleImage s 0 0 = .ok (afterCreate s, made) :=
  Outcome.eq_ok_getD_pair returns which

/-- The books after it. -/
def createBooks (s : Kernel) : Books := (Books.start s).post (afterCreate s) (some firstSlot)

theorem createBooks_step (returns : (processCreate sampleImage s 0 0).isOk = true)
    (first : ((processCreate sampleImage s 0 0).getD (s, none)).2 = some firstSlot) :
    BookStep sampleImage (Books.start s) (.create 0 0) (createBooks s) := by
  exact ⟨trivial, afterCreate s, some firstSlot, afterCreate_eq returns first, rfl⟩

theorem memory_released_created :
    Run (Guarded (fun b op => op.Accountable b.kernel) (BookStep sampleImage))
        (Books.start preparedKernel) [.create 0 0] (createBooks preparedKernel) ∧
      ((createBooks preparedKernel).kernel.table firstSlot).live ∧
      Releases (createBooks preparedKernel) firstSlot 0 := by
  obtain ⟨accountable, returns, first, live⟩ :
      AtBoundaries (blocks preparedKernel) (createRequests preparedKernel) ∧
        (processCreate sampleImage preparedKernel 0 0).isOk = true ∧
        ((processCreate sampleImage preparedKernel 0 0).getD (preparedKernel, none)).2 = some firstSlot ∧
        ((createBooks preparedKernel).kernel.table firstSlot).live := by
    decide +kernel
  have run : Run (Guarded (fun b op => op.Accountable b.kernel) (BookStep sampleImage))
      (Books.start preparedKernel) [.create 0 0] (createBooks preparedKernel) :=
    .cons ⟨accountable, createBooks_step returns first⟩ (.nil _)
  exact ⟨run, live, memory_released preparedKernel_booted run live 0⟩

/-- The first process of a fresh kernel: the address of its user stack, rounded down to a page, is not the
address of a block. -/
theorem first_exit_panics : Booted sampleImage freshKernel ∧
    Run (BookStep sampleImage) (Books.start freshKernel) [.create 0 0] (createBooks freshKernel) ∧
    ((createBooks freshKernel).kernel.table firstSlot).live ∧
    processExit (createBooks freshKernel).kernel (some firstSlot) 0 = .panic invalidPointer ∧
    ¬ Releases (createBooks freshKernel) firstSlot 0 := by
  obtain ⟨returns, first, live, stops⟩ : (processCreate sampleImage freshKernel 0 0).isOk = true ∧
      ((processCreate sampleImage freshKernel 0 0).getD (freshKernel, none)).2 = some firstSlot ∧
      ((createBooks freshKernel).kernel.table firstSlot).live ∧
      (processExit (createBooks freshKernel).kernel (some firstSlot) 0).message = some invalidPointer := by
    decide +kernel
  have panics : processExit (createBooks freshKernel).kernel (some firstSlot) 0 = .panic invalidPointer :=
    Outcome.eq_panic stops
  refine ⟨freshKernel_booted, .cons (createBooks_step returns first) (.nil _), live, panics, ?_⟩
  rintro ⟨s', _, returns, _⟩
  cases panics.symm.trans returns

end Runs

end Kfs.Process
