/-
**Address spaces over whole runs.**

A run starts when `paging_init`, `kmalloc_init` and `process_init` are done and the rest of the kernel
has used the heap in any way it may, and then interleaves the operations of process memory management.

* `identity_survives` — as long as no call maps or unmaps a page of the kernel's part, every address
  below 8 MB translates to itself, without the user bit, in the kernel's directory and in that of every
  live process. A call that names such a page breaks it (`mmap_breaks_identity`).
* `frames_belong` — as long as also first fit picks a page boundary for every user page, the frame of
  every user mapping is the payload of the allocation made for it, apart from all other blocks, tables
  and frames. The first process created on a fresh heap breaks it (`create_misplaces_stack`).

Both need that no heap block starts at 12 modulo 16 when the run begins; a fresh heap has one block, at
`HEAP_START`.
-/

import Kfs.Process.Spaces

namespace Kfs.Process

open Kfs.Heap Kfs.Paging Memory

/-! ### Starting up -/

section Boot

variable {grid : Prop} {image : KernelImage} {m : Memory}

/-- The words of a page written by a loop. -/
theorem entry_writeWords {table : Nat} {f : Nat → Nat} {i : Nat} (index : i < pageEntries) :
    entry (m.writeWords table pageEntries f) table i = f i % 2 ^ 32 :=
  load32_writeWords m table pageEntries f index

theorem entry_writeWords_other {table t : Nat} {f : Nat → Nat} {i : Nat} (aligned : pageSize ∣ table)
    (aligned' : pageSize ∣ t) (other : t ≠ table) (index : i < pageEntries) :
    entry (m.writeWords table pageEntries f) t i = entry m t i := by
  refine entry_congr ((writeWords_eqOn m table pageEntries f).mono fun x inside => ?_) index
  simp only [Set.mem_Ico, Set.mem_ofPred_eq, pageSize, pageEntries] at *
  omega

theorem entry_fill {t i : Nat} (index : i < pageEntries) :
    entry (m.fill t 0 pageSize) t i = 0 := by
  refine load32_fill_zero m (by omega) ?_
  simp only [pageSize, pageEntries] at *
  omega

theorem entry_fill_other {table t i : Nat} (aligned : pageSize ∣ table) (aligned' : pageSize ∣ t)
    (other : t ≠ table) (index : i < pageEntries) :
    entry (m.fill table 0 pageSize) t i = entry m t i := by
  refine entry_congr ((fill_eqOn m table 0 pageSize).mono fun x inside => ?_) index
  simp only [Set.mem_Ico, Set.mem_ofPred_eq, pageSize] at *
  omega

/-- **`paging_init`** maps the first 8 MB to themselves. -/
theorem kernelMapped_pagingInit (image : KernelImage) (m : Memory) :
    KernelMapped image (pagingInit image m) := by
  obtain ⟨aligned, aligned0, aligned1⟩ := image.aligned
  obtain ⟨apart0, apart1, apart⟩ := image.distinct
  have low := image.low
  have word : ∀ e < 2 ^ 31, (e ||| pagePresent ||| pageWrite) % 2 ^ 32 = e ||| pagePresent ||| pageWrite :=
    fun e small => Nat.mod_eq_of_lt (or_lt (or_lt (by omega) (by decide)) (by decide))
  have small0 : image.table0 < 2 ^ 31 := by
    simp only [heapStart] at low
    omega
  have small1 : image.table1 < 2 ^ 31 := by
    simp only [heapStart] at low
    omega
  unfold pagingInit
  refine ⟨?_, ?_, fun i above index => ?_, fun i index => ?_, fun i index => ?_⟩
  · rw [entry_setEntry aligned aligned (by decide) (by decide), if_neg (by omega),
      entry_setEntry aligned aligned (by decide) (by decide), if_pos ⟨rfl, rfl⟩, word _ small0]
  · rw [entry_setEntry aligned aligned (by decide) (by decide), if_pos ⟨rfl, rfl⟩, word _ small1]
  · rw [entry_setEntry aligned aligned (by decide) index, if_neg (by omega),
      entry_setEntry aligned aligned (by decide) index, if_neg (by omega),
      entry_writeWords_other aligned1 aligned apart1 index,
      entry_writeWords_other aligned0 aligned apart0 index,
      entry_fill_other aligned1 aligned apart1 index, entry_fill_other aligned0 aligned apart0 index,
      entry_fill index]
  · rw [entry_setEntry aligned aligned0 (by decide) index, if_neg (fun both => apart0 both.1.symm),
      entry_setEntry aligned aligned0 (by decide) index, if_neg (fun both => apart0 both.1.symm),
      entry_writeWords_other aligned1 aligned0 apart index, entry_writeWords index]
    refine word _ ?_
    simp only [pageSize, pageEntries] at *
    omega
  · rw [entry_setEntry aligned aligned1 (by decide) index, if_neg (fun both => apart1 both.1.symm),
      entry_setEntry aligned aligned1 (by decide) index, if_neg (fun both => apart1 both.1.symm),
      entry_writeWords index]
    refine word _ ?_
    simp only [pageSize, pageEntries] at *
    omega

/-- A kernel that has started: `paging_init`, `kmalloc_init`, any use of the heap by the rest of the
kernel, `process_init`. -/
def Booted (image : KernelImage) (s : Kernel) : Prop :=
  ∃ m ops c, Run HeapStep (Client.init (pagingInit image m)) ops c ∧ s = processInit image c.heap

/-- The heap of a started kernel, and its first 8 MB. -/
theorem Booted.mapped {s : Kernel} (booted : Booted image s) :
    ∃ l, HeapInv s.paging.heap l ∧ KernelMapped image s.paging.mem := by
  obtain ⟨m, ops, c, run, rfl⟩ := booted
  obtain ⟨⟨l, inv⟩, below⟩ := run_below run (clientInv_init _)
  have below' := below.trans (init_below (pagingInit image m))
  exact ⟨l, inv.heap, (kernelMapped_pagingInit image m).below below'⟩

/-- **A started kernel satisfies the invariant.** -/
theorem Booted.inv {s : Kernel} (booted : Booted image s)
    (spaced : grid → ∀ l, blockList s.paging.heap = some l → Spaced l) :
    ∃ l, KernelInv grid image s l fun _ => none := by
  obtain ⟨l, heap, kernel⟩ := booted.mapped
  obtain ⟨m, ops, c, run, rfl⟩ := booted
  have layout : Layout grid image (processInit image c.heap).paging l (fun _ => none) ∅ :=
    ⟨heap, fun on => spaced on l heap.blockList_eq, kernel, fun a b x => by simp, fun a x => by simp,
      fun d x => by simp, fun d x => by simp, fun d x i => by simp, fun d i y j => by simp⟩
  have unused : ∀ i, ¬ ((processInit image c.heap).table i).live := fun i live => live.1 rfl
  exact ⟨l, layout, Or.inl rfl, fun i live => absurd live (unused i), fun i j live => absurd live
    (unused i), fun i => Dvd.intro 0 rfl, fun i current => by cases current⟩

end Boot

/-! ### Runs -/

/-- One call, for live processes, that returns. -/
def MemStep (image : KernelImage) (s : Kernel) (op : MemOp) (t : Kernel) : Prop :=
  Called s op ∧ exec image s op = .ok t

section Runs

variable {grid : Prop} {image : KernelImage} {s t : Kernel} {ops : List MemOp}

/-- **Runs keep the invariant**, on a spaced heap, as long as their calls stay above the kernel's part. -/
theorem run_inv (on : grid) (run : Run (Guarded TouchesUser (MemStep image)) s ops t)
    (inv : ∃ l own, KernelInv grid image s l own) : ∃ l own, KernelInv grid image t l own :=
  run.invariant (fun x => ∃ l own, KernelInv grid image x l own)
    (fun _ _ _ ⟨_, _, here⟩ step => (here.exec on step.2.1 step.1 step.2.2).1) inv

/-! ### User mappings -/

/-- The page directory entry of a virtual address in a process. -/
def pdeOf (s : Kernel) (i : Slot) (virt : Nat) : Nat :=
  entry s.paging.mem (s.table i).pageDirectory (dirIndex virt)

/-- The page table entry of a virtual address in a process. -/
def pteOf (s : Kernel) (i : Slot) (virt : Nat) : Nat :=
  entry s.paging.mem (frame (pdeOf s i virt)) (tableIndex virt)

/-- A present user mapping of a live process. -/
structure UserMapped (s : Kernel) (i : Slot) (virt : Nat) : Prop where
  live : (s.table i).live
  above : kernelEnd ≤ virt
  small : virt < 2 ^ 32
  table : present (pdeOf s i virt) = true
  page : present (pteOf s i virt) = true

section Create

variable {l l₁ l₂ l₃ l₄ : List Segment} {own : Owner → Option Nat} {i : Slot}
  {page stack x y : Nat}

/-- **`process_create` succeeds** when first fit finds room for the four blocks it asks for. -/
theorem KernelInv.create_placed (inv : KernelInv grid image s l own) (entryPoint uid : Nat)
    (slot : processAllocSlot s = some i)
    (placed₁ : place (2 * pageSize) l = some (x, l₁)) (placed₂ : place pageSize l₁ = some (stack, l₂))
    (placed₃ : place pageSize l₂ = some (page, l₃)) (placed₄ : place (2 * pageSize) l₃ = some (y, l₄)) :
    ∃ s', processCreate image s entryPoint uid = .ok (s', some i) ∧ UserMapped s' i userStackVirt ∧
      s'.paging.made = ⟨(s'.table i).pageDirectory, userStackVirt / pageSize, page⟩ :: s.paging.made ∧
      blockList s'.paging.heap = some l₄ := by
  obtain ⟨p₁, own₁, created, positive, layout, owned, made₁, empty⟩ :=
    inv.layout.createDirectory_placed placed₁
  obtain ⟨h₂, taken₂, layout₂, _, _, same₂⟩ :=
    layout.take_placed (by decide) (by decide) (by decide) placed₂
  obtain ⟨h₃, taken₃, layout₃, holds, fresh, same₃⟩ :=
    layout₂.take_placed (by decide) (by decide) (by decide) placed₃
  have absent : present (entry ((p₁.withHeap h₂).withHeap h₃).mem (home x)
      (dirIndex userStackVirt)) = false := by
    have tracked := Tracked.directory layout owned
    rw [PagingState.mem_withHeap, same₃ _ tracked _ (by decide), PagingState.mem_withHeap,
      same₂ _ tracked _ (by decide), empty _ (by decide) (by decide)]
    decide
  obtain ⟨p₄, mapped, heap, made, table, here⟩ :=
    (layout₃.claim holds fresh).mapPage_placed userStackVirt (pageWrite ||| pageUser)
      ((Function.update_of_ne (by simp) _ _).trans owned) (by decide) (by decide) (by decide)
      (Function.update_self _ _ _) absent placed₄
  obtain ⟨s', done, rfl, directory, live⟩ : ∃ s',
      processCreate image s entryPoint uid = .ok (s', some i) ∧ s'.paging = p₄ ∧
        (s'.table i).pageDirectory = home x ∧ (s'.table i).live := by
    unfold processCreate
    rw [slot]
    simp only [processAllocPid, Kernel.modify_paging, created, Outcome.ok_bind, positive.ne', if_false,
      Kernel.withPaging_paging, taken₂, place_ne_null placed₂, Kernel.withHeap_paging,
      PagingState.heap_withHeap, Outcome.pure_eq]
    rw [show kmalloc h₂ pageSize = .ok (h₃, page) from taken₃]
    simp only [Outcome.ok_bind, place_ne_null placed₃, if_false, mapped]
    refine ⟨_, rfl, ?_, ?_, ?_⟩
    · simp only [Kernel.modify_paging, Kernel.withPaging_paging]
    · simp only [Kernel.modify_self, Kernel.withPaging_table, Kernel.withHeap_table, Pcb.setUp]
    · simp only [Kernel.modify_self, Kernel.withPaging_table, Kernel.withHeap_table, Pcb.setUp,
        Pcb.live]
      decide
  refine ⟨s', done, ⟨live, by decide, by decide, ?_, ?_⟩, ?_, heap⟩
  · rw [pdeOf, directory]
    exact table
  · rw [pteOf, pdeOf, directory]
    exact here
  · rw [made, directory]
    exact congrArg _ made₁

end Create

theorem processAllocSlot_init {h : HeapState} :
    processAllocSlot (processInit image h) = some firstSlot := by
  have first : List.finRange maxProcesses = firstSlot :: (List.finRange 255).map Fin.succ :=
    List.finRange_succ
  rw [processAllocSlot, first]
  rfl

/-- The first `process_create` of a started kernel, when the heap has room. -/
theorem Booted.created {l l₁ l₂ l₃ l₄ : List Segment} {page stack x y : Nat} (booted : Booted image s)
    (blocks : blockList s.paging.heap = some l) (spaced : Spaced l)
    (placed₁ : place (2 * pageSize) l = some (x, l₁)) (placed₂ : place pageSize l₁ = some (stack, l₂))
    (placed₃ : place pageSize l₂ = some (page, l₃)) (placed₄ : place (2 * pageSize) l₃ = some (y, l₄)) :
    ∃ t own, processCreate image s 0 0 = .ok (t, some firstSlot) ∧ KernelInv True image t l₄ own ∧
      UserMapped t firstSlot userStackVirt ∧
      t.paging.made = [⟨(t.table firstSlot).pageDirectory, userStackVirt / pageSize, page⟩] := by
  obtain ⟨l', inv⟩ : ∃ l', KernelInv True image s l' _ := booted.inv fun _ l' found => by
    cases found.symm.trans blocks
    exact spaced
  cases inv.layout.heap.blockList_eq.symm.trans blocks
  obtain ⟨_, _, c, _, rfl⟩ := booted
  obtain ⟨t, done, mapped, made, heap⟩ := inv.create_placed 0 0
    processAllocSlot_init placed₁ placed₂ placed₃ placed₄
  obtain ⟨⟨l', own, after⟩, _⟩ := inv.create (fun _ => trivial) done
  cases after.layout.heap.blockList_eq.symm.trans heap
  exact ⟨t, own, done, after, mapped, made⟩

theorem Booted.create {l l₁ l₂ l₃ l₄ : List Segment} {page stack x y : Nat} (booted : Booted image s)
    (blocks : blockList s.paging.heap = some l) (spaced : Spaced l)
    (placed₁ : place (2 * pageSize) l = some (x, l₁)) (placed₂ : place pageSize l₁ = some (stack, l₂))
    (placed₃ : place pageSize l₂ = some (page, l₃)) (placed₄ : place (2 * pageSize) l₃ = some (y, l₄)) :
    ∃ t own, MemStep image s (.create 0 0) t ∧ KernelInv True image t l₄ own ∧
      UserMapped t firstSlot userStackVirt ∧
      t.paging.made = [⟨(t.table firstSlot).pageDirectory, userStackVirt / pageSize, page⟩] := by
  obtain ⟨t, own, done, found⟩ := booted.created blocks spaced placed₁ placed₂ placed₃ placed₄
  refine ⟨t, own, ⟨trivial, ?_⟩, found⟩
  simp only [exec, done, Outcome.ok_bind, Outcome.pure_eq]

/-! ### The kernel's part -/

/-- A virtual address translates to itself, for the kernel only. -/
def TranslatesToItself (m : Memory) (dir virt : Nat) : Prop :=
  let pde := entry m dir (dirIndex virt)
  let pte := entry m (frame pde) (tableIndex virt)
  present pde = true ∧ present pte = true ∧ frame pte + virt % pageSize = virt ∧
    user pde = false ∧ user pte = false

/-- **The kernel's identity mapping**: in its own directory and in that of every live process. -/
def IdentityMapped (image : KernelImage) (s : Kernel) : Prop :=
  ∀ virt < kernelEnd, TranslatesToItself s.paging.mem image.directory virt ∧
    ∀ i, (s.table i).live → TranslatesToItself s.paging.mem (s.table i).pageDirectory virt

theorem kernelEntry {e : Nat} (aligned : pageSize ∣ e) :
    present (e ||| pagePresent ||| pageWrite) = true ∧ frame (e ||| pagePresent ||| pageWrite) = e ∧
      user (e ||| pagePresent ||| pageWrite) = false := by
  refine ⟨?_, ?_, ?_⟩
  · rw [present_or, present_or, show present pagePresent = true by decide, Bool.or_true, Bool.true_or]
  · rw [frame_or (by decide), frame_or (by decide), frame_of_dvd aligned]
  · rw [user_or, user_or, user_of_dvd aligned]
    decide

/-- A directory whose first two entries are the kernel's. -/
theorem translates_of_shared {m : Memory} {dir virt : Nat} (kernel : KernelMapped image m)
    (first : entry m dir 0 = entry m image.directory 0)
    (second : entry m dir 1 = entry m image.directory 1) (low : virt < kernelEnd) :
    TranslatesToItself m dir virt := by
  rw [kernel.first] at first
  rw [kernel.second] at second
  have index : tableIndex virt < pageEntries := tableIndex_lt
  have half : dirIndex virt = 0 ∨ dirIndex virt = 1 := by
    simp only [dirIndex, kernelEnd] at *
    omega
  rcases half with here | here
  · obtain ⟨seen, at0, hidden⟩ := kernelEntry image.aligned.2.1
    obtain ⟨seen', frame', hidden'⟩ := @kernelEntry (tableIndex virt * pageSize) (Dvd.intro_left _ rfl)
    simp only [TranslatesToItself, here, first, at0, kernel.table0 _ index]
    refine ⟨seen, seen', ?_, hidden, hidden'⟩
    rw [frame']
    simp only [tableIndex, dirIndex, pageSize, pageEntries] at *
    omega
  · obtain ⟨seen, at1, hidden⟩ := kernelEntry image.aligned.2.2
    obtain ⟨seen', frame', hidden'⟩ :=
      @kernelEntry ((pageEntries + tableIndex virt) * pageSize) (Dvd.intro_left _ rfl)
    simp only [TranslatesToItself, here, second, at1, kernel.table1 _ index]
    refine ⟨seen, seen', ?_, hidden, hidden'⟩
    rw [frame']
    simp only [tableIndex, dirIndex, pageSize, pageEntries, kernelEnd] at *
    omega

theorem KernelInv.identityMapped {l : List Segment} {own : Owner → Option Nat}
    (inv : KernelInv grid image s l own) : IdentityMapped image s := by
  intro virt low
  refine ⟨translates_of_shared inv.layout.kernel rfl rfl low, fun i live => ?_⟩
  obtain ⟨x, owned⟩ := inv.directories i live
  obtain ⟨first, second⟩ := inv.layout.shared _ x owned
  exact translates_of_shared inv.layout.kernel first second low

/-- **The identity mapping survives** every run whose calls stay above the kernel's part. -/
theorem identity_survives (booted : Booted image s)
    (spaced : ∀ l, blockList s.paging.heap = some l → Spaced l)
    (run : Run (Guarded TouchesUser (MemStep image)) s ops t) : IdentityMapped image t := by
  obtain ⟨l, inv⟩ : ∃ l, KernelInv True image s l _ := booted.inv fun _ => spaced
  obtain ⟨l', own', after⟩ := run_inv trivial run ⟨l, _, inv⟩
  exact after.identityMapped

/-! The other case: a call that maps a page of the kernel's part, with room in the heap. -/

section Low

variable {l l' : List Segment} {own : Owner → Option Nat} {i : Slot} {v virt z : Nat}

/-- The kernel's table behind an address of the kernel's part, the same one in every directory. -/
theorem kernelTable {p : PagingState} {d x : Nat} (layout : Layout grid image p l own ∅)
    (owned : own (.directory d) = some x) (low : virt < kernelEnd) :
    ∃ t, pageSize ∣ t ∧ t ≠ image.directory ∧
      entry p.mem image.directory (dirIndex virt) = t ||| pagePresent ||| pageWrite ∧
      entry p.mem d (dirIndex virt) = t ||| pagePresent ||| pageWrite := by
  obtain ⟨first, second⟩ := layout.shared d x owned
  have half : dirIndex virt = 0 ∨ dirIndex virt = 1 := by
    simp only [dirIndex, kernelEnd] at *
    omega
  rcases half with here | here
  · rw [here, first, layout.kernel.first]
    exact ⟨image.table0, image.aligned.2.1, image.distinct.1.symm, rfl, rfl⟩
  · rw [here, second, layout.kernel.second]
    exact ⟨image.table1, image.aligned.2.2, image.distinct.2.1.symm, rfl, rfl⟩

/-- An entry for the user in a kernel table: its page does not translate to itself any more. -/
theorem not_translates_of_user {m : Memory} {t : Nat} (aligned : pageSize ∣ t)
    (other : t ≠ image.directory)
    (pde : entry m image.directory (dirIndex virt) = t ||| pagePresent ||| pageWrite)
    (low : virt < kernelEnd) (bound : v < 2 ^ 32) (seen : user v = true) :
    ¬ TranslatesToItself (setEntry m t (tableIndex virt) v) image.directory virt := by
  rintro ⟨_, _, _, _, hidden⟩
  have index : dirIndex virt < pageEntries := by
    simp only [dirIndex, kernelEnd, pageEntries] at *
    omega
  rw [entry_setEntry aligned image.aligned.1 tableIndex_lt index, if_neg fun both => other both.1.symm,
    pde, (kernelEntry aligned).2.1, entry_setEntry aligned aligned tableIndex_lt tableIndex_lt,
    if_pos ⟨rfl, rfl⟩, Nat.mod_eq_of_lt bound, seen] at hidden
  cases hidden

/-- One page of `process_mmap` in the kernel's part. -/
theorem mmapPage_low (flags : Nat) {p : PagingState} {d pageFlags x : Nat} (layout : Layout grid image p l own ∅)
    (owned : own (.directory d) = some x) (low : virt < kernelEnd) (seen : user (flagBits pageFlags) = true)
    (placed : place pageSize l = some (z, l')) :
    ∃ p', mmapPage d virt pageFlags flags 0 p = .ok (.next p') ∧
      ¬ TranslatesToItself p'.mem image.directory virt := by
  obtain ⟨h, taken, next, holds, fresh, _⟩ :=
    layout.take_placed (by decide) (by decide) (by decide) placed
  have positive := directory_pos layout owned
  have bounds := holds.bounds next.heap
  have first : pageVirt virt 0 = virt := by
    rw [pageVirt, Nat.zero_mul, Nat.add_zero, Nat.mod_eq_of_lt (lt_trans low (by decide))]
  unfold mmapPage
  rw [taken]
  simp only [Outcome.ok_bind]
  rw [if_neg (place_ne_null placed), first]
  generalize given : (if flags &&& mapAnonymous ≠ 0 then
    (p.withHeap h).write ((p.withHeap h).mem.fill z 0 pageSize) else p.withHeap h) = p₁
  have laid : Layout grid image p₁ l' own ∅ := by
    rw [← given]
    split
    · exact next.scribble holds (fun a found => absurd found (fresh a)) (fill_eqOn _ _ _ _)
    · exact next
  obtain ⟨t, aligned, other, pde, shared⟩ := kernelTable laid owned low
  obtain ⟨here, table, _⟩ := kernelEntry aligned
  unfold pagingMapPageInDirectory ensureTable
  rw [if_neg (by omega), shared, here, if_pos rfl, Outcome.ok_bind, shared, table]
  refine ⟨_, rfl, ?_⟩
  rw [PagingState.mem_note, PagingState.mem_write]
  refine not_translates_of_user aligned other pde low (or_lt (or_lt ?_ flagBits_lt) (by decide)) ?_
  · have := @frame_le z
    simp only [heapEnd, heapStart, heapSize] at bounds
    omega
  · rw [user_or, user_or, seen, Bool.or_true, Bool.true_or]

/-- **Mapping a page of the kernel's part breaks the identity mapping** whenever the heap has room. -/
theorem KernelInv.mmap_low (virt prot flags : Nat) (inv : KernelInv grid image s l own) (live : (s.table i).live)
    (low : virt < kernelEnd) (aligned : pageSize ∣ virt) (nonzero : virt ≠ 0)
    (placed : place pageSize l = some (z, l')) :
    ∃ s' result, processMmap s (some i) virt pageSize prot flags = .ok (s', result) ∧
      ¬ IdentityMapped image s' := by
  obtain ⟨x, owned⟩ := inv.directories i live
  have start : mmapVirt (s.table i) virt = virt := by
    rw [mmapVirt, if_pos nonzero, frame_of_dvd aligned]
  have seen : user (flagBits (if prot &&& protWrite ≠ 0 then pageUser ||| pageWrite else pageUser)) =
      true := by
    split <;> decide
  obtain ⟨p, body, broken⟩ := mmapPage_low flags inv.layout owned low seen placed
  suffices returns : ∃ s' result, processMmap s (some i) virt pageSize prot flags = .ok (s', result) ∧
      s'.paging = p by
    obtain ⟨s', result, done, paging⟩ := returns
    refine ⟨s', result, done, fun identity => broken ?_⟩
    rw [← paging]
    exact (identity virt low).1
  unfold processMmap
  simp only [start]
  rw [if_neg (by decide), show pagesNeeded pageSize = 1 by decide]
  simp only [forLoop, body, Outcome.ok_bind]
  split
  · exact ⟨_, _, rfl, rfl⟩
  · exact ⟨_, _, rfl, rfl⟩

end Low

/-- A kernel with its directory and tables at 2 MB. -/
def sampleImage : KernelImage where
  directory := 0x200000
  table0 := 0x201000
  table1 := 0x202000
  aligned := by decide
  distinct := by decide
  nonzero := by decide
  low := by decide

/-- The same kernel started over zeroed memory, with an empty heap. -/
def freshKernel : Kernel :=
  processInit sampleImage (Client.init (pagingInit sampleImage fun _ => 0)).heap

theorem freshKernel_booted : Booted sampleImage freshKernel := ⟨fun _ => 0, [], _, .nil _, rfl⟩

theorem freshKernel_blocks :
    blockList freshKernel.paging.heap = some [⟨heapStart, heapSize, true⟩] :=
  (clientInv_init (pagingInit sampleImage fun _ => 0)).heap.blockList_eq

theorem freshKernel_spaced : Spaced [⟨heapStart, heapSize, true⟩] := by
  intro b member
  rw [List.mem_singleton.mp member]
  decide

theorem touchesUser_create {entryPoint uid : Nat} : TouchesUser s (.create entryPoint uid) := by
  intro call resolved
  cases resolved
  exact ⟨fun k less => absurd less (Nat.not_lt_zero k), fun k less => absurd less (Nat.not_lt_zero k)⟩

theorem identity_survives_create : ∃ t,
    Run (Guarded TouchesUser (MemStep sampleImage)) freshKernel [.create 0 0] t ∧
      (t.table firstSlot).live ∧ IdentityMapped sampleImage t := by
  obtain ⟨t, _, step, _, mapped, _⟩ :=
    freshKernel_booted.create freshKernel_blocks freshKernel_spaced rfl rfl rfl rfl
  have run : Run (Guarded TouchesUser (MemStep sampleImage)) freshKernel [.create 0 0] t :=
    .cons ⟨touchesUser_create, step⟩ (.nil t)
  refine ⟨t, run, mapped.live, identity_survives freshKernel_booted (fun l found => ?_) run⟩
  cases found.symm.trans freshKernel_blocks
  exact freshKernel_spaced

/-- A process maps a page at 4 MB: its entry goes to the second of the kernel's tables. -/
theorem mmap_breaks_identity : Booted sampleImage freshKernel ∧ ∃ t,
    Run (MemStep sampleImage) freshKernel [.create 0 0, .mmap firstSlot 0x400000 pageSize
      (protRead ||| protWrite) (mapPrivate ||| mapAnonymous)] t ∧ ¬ IdentityMapped sampleImage t := by
  refine ⟨freshKernel_booted, ?_⟩
  obtain ⟨t, own, step, inv, mapped, _⟩ :=
    freshKernel_booted.create freshKernel_blocks freshKernel_spaced rfl rfl rfl rfl
  obtain ⟨u, result, done, broken⟩ := KernelInv.mmap_low 0x400000 (protRead ||| protWrite)
    (mapPrivate ||| mapAnonymous) inv mapped.live (by decide) (by decide) (by decide) rfl
  refine ⟨u, .cons step (.cons ⟨mapped.live, ?_⟩ (.nil u)), broken⟩
  simp only [exec, done, Outcome.ok_bind, Outcome.pure_eq]

/-! ### User frames -/

/-- Two pages do not overlap. -/
def PagesApart (f g : Nat) : Prop := f + pageSize ≤ g ∨ g + pageSize ≤ f

/-- **User frames belong to their page.** The frame of every user mapping lies in the payload of the
block allocated for that page; it overlaps no other block, no directory or table of a live process and
no frame of another mapping. -/
structure FramesBelong (s : Kernel) : Prop where
  inside : ∀ i virt, UserMapped s i virt → ∃ l b, blockList s.paging.heap = some l ∧ b ∈ l ∧
    b.free = false ∧
    s.paging.madeFor (s.table i).pageDirectory (virt / pageSize) = some (b.addr + blockHeaderSize) ∧
    b.addr + blockHeaderSize ≤ frame (pteOf s i virt) ∧
    frame (pteOf s i virt) + pageSize ≤ b.addr + b.size ∧
    ∀ c ∈ l, c ≠ b → c.addr + c.size ≤ frame (pteOf s i virt) ∨
      frame (pteOf s i virt) + pageSize ≤ c.addr
  tables : ∀ i virt, UserMapped s i virt → ∀ j, (s.table j).live →
    PagesApart (frame (pteOf s i virt)) (s.table j).pageDirectory ∧
    ∀ k < pageEntries, present (entry s.paging.mem (s.table j).pageDirectory k) = true →
      PagesApart (frame (pteOf s i virt)) (frame (entry s.paging.mem (s.table j).pageDirectory k))
  frames : ∀ i virt j virt', UserMapped s i virt → UserMapped s j virt' →
    (i ≠ j ∨ virt / pageSize ≠ virt' / pageSize) →
      PagesApart (frame (pteOf s i virt)) (frame (pteOf s j virt'))

/-- Every page noted so far was placed at a page boundary. -/
def AlignedPages (s : Kernel) : Prop := ∀ r ∈ s.paging.made, pageSize ∣ r.ptr

theorem madeFor_mem {p : PagingState} {dir page ptr : Nat} (found : p.madeFor dir page = some ptr) :
    ∃ r ∈ p.made, r.ptr = ptr := by
  obtain ⟨r, search, same⟩ := Option.map_eq_some_iff.mp found
  exact ⟨r, List.mem_of_find?_eq_some search, same⟩

section Frames

variable {l : List Segment} {own : Owner → Option Nat} {i j : Slot} {virt virt' : Nat}

/-- What a user mapping leads to: a page of its own. -/
theorem KernelInv.userPage (inv : KernelInv grid image s l own) (mapped : UserMapped s i virt) :
    ∃ z, own (.page (s.table i).pageDirectory (dirIndex virt) (tableIndex virt)) = some z ∧
      frame (pteOf s i virt) = frame z ∧
      s.paging.madeFor (s.table i).pageDirectory (virt / pageSize) = some z := by
  obtain ⟨x, owned⟩ := inv.directories i mapped.live
  obtain ⟨low, index⟩ := dirIndex_bounds mapped.above mapped.small
  obtain ⟨y, table, same⟩ := inv.layout.tableOf owned low index mapped.table
  have page := mapped.page
  have pte : pteOf s i virt = entry s.paging.mem (home y) (tableIndex virt) := by
    rw [pteOf, show frame (pdeOf s i virt) = home y from same]
  rw [pte] at page ⊢
  rcases inv.layout.pages _ _ y _ table tableIndex_lt page with ⟨lost, _⟩ | ⟨z, mine, sameFrame, made⟩
  · exact absurd lost (Set.notMem_empty _)
  · exact ⟨z, mine, sameFrame, by rw [page_eq]; exact made⟩

/-- With aligned pages, the frame is the payload itself. -/
theorem KernelInv.userFrame (inv : KernelInv grid image s l own) (aligned : AlignedPages s)
    (mapped : UserMapped s i virt) :
    ∃ z, own (.page (s.table i).pageDirectory (dirIndex virt) (tableIndex virt)) = some z ∧
      frame (pteOf s i virt) = z ∧
      s.paging.madeFor (s.table i).pageDirectory (virt / pageSize) = some z := by
  obtain ⟨z, mine, same, made⟩ := inv.userPage mapped
  obtain ⟨r, member, rfl⟩ := madeFor_mem made
  exact ⟨r.ptr, mine, same.trans (frame_of_dvd (aligned r member)), made⟩

/-- A user page is apart from the page of entries of any owner. -/
theorem userPage_apart {p : PagingState} (layout : Layout grid image p l own ∅) {d k n x z : Nat}
    {a : Owner} (page : own (.page d k n) = some z) (entries : a.structural = true)
    (owned : own a = some x) : PagesApart z (home x) := by
  have other : z ≠ x := by
    rintro rfl
    have same := layout.inj _ _ z page owned
    rw [← same] at entries
    cases entries
  have holds : Holds l z pageSize := layout.held _ z page
  have apart := holds.apart layout.heap (layout.holds_structural entries owned) other
  have bounds := layout.home_bounds owned
  unfold PagesApart
  omega

/-- **Aligned pages belong.** -/
theorem KernelInv.framesBelong (inv : KernelInv grid image s l own) (aligned : AlignedPages s) :
    FramesBelong s := by
  refine ⟨fun i virt mapped => ?_, fun i virt mapped j live => ?_,
    fun i virt j virt' first second other => ?_⟩
  · obtain ⟨z, page, same, made⟩ := inv.userFrame aligned mapped
    obtain ⟨b, member, used, rfl, room⟩ := inv.layout.held _ z page
    rw [same]
    refine ⟨l, b, inv.layout.heap.blockList_eq, member, used, made, le_rfl, room, fun c found ne => ?_⟩
    have apart := inv.layout.heap.tiles.disjoint found member fun equal =>
      ne (inv.layout.heap.tiles.eq_of_addr found member equal)
    have inside := inv.layout.heap.bounds member
    simp only [Owner.need] at room
    omega
  · obtain ⟨z, page, same, _⟩ := inv.userFrame aligned mapped
    obtain ⟨x, owned⟩ := inv.directories j live
    have holds : Holds l z pageSize := inv.layout.held _ z page
    have bounds := holds.bounds inv.layout.heap
    rw [same]
    refine ⟨?_, fun k index here => ?_⟩
    · rw [inv.layout.placed _ x owned]
      exact userPage_apart inv.layout page rfl owned
    · obtain ⟨first, second⟩ := inv.layout.shared _ x owned
      have low := image.low
      by_cases kernel : k < 2
      · refine Or.inr ?_
        interval_cases k
        · rw [first, inv.layout.kernel.first, (kernelEntry image.aligned.2.1).2.1]
          omega
        · rw [second, inv.layout.kernel.second, (kernelEntry image.aligned.2.2).2.1]
          omega
      · obtain ⟨y, table, home⟩ := inv.layout.tableOf owned (by omega) index here
        rw [home]
        exact userPage_apart inv.layout page rfl table
  · obtain ⟨z, page, same, _⟩ := inv.userFrame aligned first
    obtain ⟨z', page', same', _⟩ := inv.userFrame aligned second
    rw [same, same']
    have differs : z ≠ z' := by
      rintro rfl
      have equal := inv.layout.inj _ _ z page page'
      rw [Owner.page.injEq] at equal
      rcases other with slots | pages
      · exact slots (inv.distinct i j first.live second.live equal.1)
      · refine pages ?_
        rw [page_eq, page_eq, equal.2.1, equal.2.2]
    have holds : Holds l z pageSize := inv.layout.held _ z page
    have holds' : Holds l z' pageSize := inv.layout.held _ z' page'
    have apart := holds.apart inv.layout.heap holds' differs
    unfold PagesApart
    omega

end Frames

/-- A call above the kernel's part for whose user pages first fit, on the block list before the call,
picks page boundaries. -/
def PlacesAligned (s : Kernel) (op : MemOp) : Prop :=
  TouchesUser s op ∧ ∀ l, blockList s.paging.heap = some l →
    ∀ ptr ∈ userPages l (requests s op), pageSize ∣ ptr

/-- **User frames belong to their page** in every run whose user pages are placed at page
boundaries. -/
theorem frames_belong (booted : Booted image s)
    (spaced : ∀ l, blockList s.paging.heap = some l → Spaced l)
    (run : Run (Guarded PlacesAligned (MemStep image)) s ops t) : FramesBelong t := by
  obtain ⟨l, inv⟩ : ∃ l, KernelInv True image s l _ := booted.inv fun _ => spaced
  have start : AlignedPages s := by
    obtain ⟨_, _, c, _, rfl⟩ := booted
    intro r member
    cases member
  obtain ⟨⟨l', own', after⟩, aligned⟩ := run.invariant
    (fun x => (∃ l own, KernelInv True image x l own) ∧ AlignedPages x)
    (by
      rintro x op y ⟨⟨l, own, here⟩, aligned⟩ ⟨⟨above, places⟩, called, done⟩
      obtain ⟨next, noted⟩ := here.exec trivial called above done
      refine ⟨next, fun r member => ?_⟩
      rcases noted r member with old | new
      · exact aligned r old
      · exact places l here.layout.heap.blockList_eq r.ptr new)
    ⟨⟨l, _, inv⟩, start⟩
  exact after.framesBelong aligned

/-- The first process of a fresh kernel: the user stack is placed 48 bytes above a page boundary. -/
theorem create_misplaces_stack : Booted sampleImage freshKernel ∧ ∃ t,
    Run (MemStep sampleImage) freshKernel [.create 0 0] t ∧ UserMapped t firstSlot userStackVirt ∧
      ¬ FramesBelong t := by
  refine ⟨freshKernel_booted, ?_⟩
  obtain ⟨t, own, step, inv, mapped, made⟩ :=
    freshKernel_booted.create freshKernel_blocks freshKernel_spaced rfl rfl rfl rfl
  refine ⟨t, .cons step (.nil t), mapped, fun belong => ?_⟩
  obtain ⟨z, _, same, noted⟩ := inv.userPage mapped
  obtain ⟨l, b, _, _, _, noted', low, _⟩ := belong.inside firstSlot userStackVirt mapped
  obtain ⟨r, member, here⟩ := madeFor_mem noted
  rw [made, List.mem_singleton] at member
  rw [same, ← Option.some.inj (noted.symm.trans noted'), ← here, member] at low
  change 0x503030 ≤ frame 0x503030 at low
  revert low
  decide

/-- The same kernel after the rest of it took a block of 4032 bytes. -/
def usedKernel : Kernel :=
  processInit sampleImage (afterTake (Client.init (pagingInit sampleImage fun _ => 0)).heap 4032 heapStart)

theorem usedKernel_booted : Booted sampleImage usedKernel := by
  have heap := (clientInv_init (pagingInit sampleImage fun _ => 0)).heap
  have step := HeapStep.malloc (show NoWrap 4032 by decide)
    (@kmalloc_some _ [] [] _ 4032 heap (by decide) (by simp) (by decide))
  exact ⟨fun _ => 0, [.malloc 4032], _, .cons step (.nil _), rfl⟩

/-- What is left of the heap starts 32 bytes below the second page. -/
def usedBlocks : List Segment :=
  [⟨heapStart, 4048, false⟩, ⟨heapStart + 4048, heapSize - 4048, true⟩]

theorem usedKernel_blocks : blockList usedKernel.paging.heap = some usedBlocks := by
  have heap := (clientInv_init (pagingInit sampleImage fun _ => 0)).heap
  exact (@afterTake_inv _ [] [] _ 4032 heap (Or.inl (legal_totalSize (by decide)))
    (by decide)).blockList_eq

theorem usedKernel_spaced : Spaced usedBlocks := by
  unfold Spaced
  decide

theorem frames_belong_create : ∃ t,
    Run (Guarded PlacesAligned (MemStep sampleImage)) usedKernel [.create 0 0] t ∧
      UserMapped t firstSlot userStackVirt ∧ FramesBelong t := by
  obtain ⟨t, _, step, _, mapped, _⟩ :=
    usedKernel_booted.create usedKernel_blocks usedKernel_spaced rfl rfl rfl rfl
  have asked : requests usedKernel (.create 0 0) = [.entries, .stack, .page, .entries] := by
    have slot : processAllocSlot usedKernel = some firstSlot := processAllocSlot_init
    simp only [requests, resolve, createRequests, slot]
  have places : PlacesAligned usedKernel (.create 0 0) := by
    refine ⟨touchesUser_create, fun l found => ?_⟩
    cases found.symm.trans usedKernel_blocks
    rw [asked]
    decide
  have run : Run (Guarded PlacesAligned (MemStep sampleImage)) usedKernel [.create 0 0] t :=
    .cons ⟨places, step⟩ (.nil t)
  refine ⟨t, run, mapped, frames_belong usedKernel_booted (fun l found => ?_) run⟩
  cases found.symm.trans usedKernel_blocks
  exact usedKernel_spaced

end Runs

end Kfs.Process
