/-
**`process_brk` and the heap of a process.**

The heap of a new process is empty and starts at 0x08080000. A call may ask for its end, or for an address that
rounds up to no less than its start. It then leaves a heap whose pages are the mapped ones between its start and
the user stack (`brk_keeps_heap`), as long as `kfree` accepts the pages it frees: those above a lower end, and those
mapped before the kernel's heap was full. A call for any other address that returns leaves `heap_end` below
`heap_start`. (Rounding up wraps for the last page of addresses.) The heap cannot reach the stack: its pages are
blocks of the kernel's heap, which is smaller.
-/

import Kfs.Process.Rollback

namespace Kfs.Process

open Kfs.Heap Kfs.Paging Memory

/-! ### How many pages can be mapped -/

section Few

variable {grid : Prop} {image : KernelImage} {own : Owner → Option Nat} {l : List Segment} {q : PagingState}
  {base d n x : Nat}

/-- **The pages of a range that are all mapped** fit into the kernel's heap. -/
theorem mapped_few (layout : Layout grid image q l own ∅) (owned : own (.directory d) = some x)
    (aligned : pageSize ∣ base) (above : kernelEnd ≤ base) (small : base + n * pageSize ≤ 2 ^ 32)
    (mapped : ∀ k < n, translate q.mem d (base + k * pageSize) ≠ 0) : n * pageSize ≤ heapSize := by
  have page : ∀ k < n, ∃ z i j, own (.page d i j) = some z ∧
      (base + k * pageSize) / pageSize = pageEntries * i + j := by
    intro k less
    have user : UserIndex (base + k * pageSize) := userIndex_of (by omega) (by
      simp only [pageSize] at *
      omega)
    obtain ⟨y, z, -, page, -⟩ := layout.pageOf owned user (Nat.dvd_add aligned (Nat.dvd_mul_left _ _))
      (mapped k less)
    exact ⟨z, _, _, page, page_eq⟩
  choose! z i j owns index using page
  have inside : ∀ k < n, z k / pageSize ∈ Finset.Ico (heapStart / pageSize) (heapEnd / pageSize) := by
    intro k less
    have bounds := (layout.held _ _ (owns k less)).bounds layout.heap
    rw [Finset.mem_Ico]
    simp only [Owner.need, heapEnd, heapStart, heapSize, pageSize] at *
    omega
  have distinct : ∀ a < n, ∀ b < n, z a / pageSize = z b / pageSize → a = b := by
    intro a lessA b lessB same
    have equal := holds_near layout.heap (layout.held _ _ (owns a lessA)) (layout.held _ _ (owns b lessB))
      (.inr (by rw [frame, frame, same]))
    have owner := layout.inj _ _ _ (owns a lessA) (equal ▸ owns b lessB)
    rw [Owner.page.injEq] at owner
    have first := index a lessA
    have second := index b lessB
    rw [owner.2.1, owner.2.2, ← second] at first
    simp only [pageSize] at first
    omega
  have most := Finset.card_le_card_of_injOn (s := Finset.range n) (fun k => z k / pageSize)
    (fun k member => inside k (Finset.mem_range.mp member))
    (fun a first b second => distinct a (by simpa using first) b (by simpa using second))
  rw [Finset.card_range, Nat.card_Ico] at most
  simp only [heapEnd, heapStart, heapSize, pageSize] at *
  omega

end Few

/-! ### What a call finds -/

/-- First fit serves the pages of a range and their tables, or the heap is full at one of the pages, after pages
of this kind. -/
def FindsRoom (kind : Nat → Prop) (p : PagingState) (d virt n : Nat) : Prop :=
  ∀ l, blockList p.heap = some l → Enough l (mapRequests p.mem d virt n) ∨
    ∃ k < n, ∃ l' given, Serves l (mapRequests p.mem d virt k) l' given ∧ place pageSize l' = none ∧
      ∀ ptr ∈ given, kind ptr

section Finds

variable {grid : Prop} {image : KernelImage} {s s' : Kernel} {own own' : Owner → Option Nat} {l l' : List Segment}
  {given : List Nat} {p p' : PagingState} {i : Slot} {addr d flags length n pageFlags prot result virt x : Nat}

/-- A round of `process_mmap` that leaves the loop found no room. -/
theorem mmapPage_exit (left : mmapPage d virt pageFlags flags n p = .ok (.exit p')) :
    ∃ h, kmalloc p.heap pageSize = .ok (h, 0) := by
  obtain ⟨⟨h, ptr⟩, taken, rest⟩ := Outcome.bind_eq_ok.mp left
  simp only at rest
  by_cases null : ptr = 0
  · exact ⟨h, null ▸ taken⟩
  · rw [if_neg null] at rest
    obtain ⟨q, -, last⟩ := Outcome.bind_eq_ok.mp rest
    cases last

/-- **A call that returns** found room, or a full heap at one of its pages. -/
theorem FindsRoom.of_returned (inv : KernelInv grid image s l own) (live : (s.table i).live)
    (asked : length ≠ 0) (above : AboveKernel (mmapVirt (s.table i) addr) (pagesNeeded length))
    (done : processMmap s (some i) addr length prot flags = .ok (s', result)) :
    FindsRoom (fun _ => True) s.paging (s.table i).pageDirectory (mmapVirt (s.table i) addr)
      (pagesNeeded length) := by
  intro l₁ found
  cases found.symm.trans inv.layout.heap.blockList_eq
  obtain ⟨x, owned⟩ := inv.directories i live
  have lends := fun k less q => @mmapPages_lent grid image own l s.paging q (s.table i).pageDirectory flags k
    (mmapFlags prot) (mmapVirt (s.table i) addr) x inv.layout inv.known owned (dvd_mmapVirt inv) mmapFlags_lt
    (fun j inside => above j (lt_of_lt_of_le inside less)) (le_trans less (Nat.le_of_lt pagesNeeded_lt))
  cases processMmap_way done with
  | nothing empty => exact absurd empty asked
  | @done q _ loop =>
      obtain ⟨l', own', given, -, lent⟩ := lends _ le_rfl q loop
      exact .inl ⟨l', given, lent.served⟩
  | @failed q _ loop =>
      obtain ⟨k, less, later, before, left⟩ := forLoop_left loop
      rw [Nat.zero_add] at left
      obtain ⟨h, full⟩ := mmapPage_exit left
      obtain ⟨l', own', given, mapping, lent⟩ := lends k (Nat.le_of_lt less) later before
      obtain ⟨-, unfit⟩ := (kmalloc_null mapping.layout.heap (by decide)).mp full
      exact .inr ⟨k, less, l', given, lent.served, place_none unfit, fun _ _ => trivial⟩

/-- **The call that fails**, by what first fit serves before. -/
theorem FailsAt.of_served (inv : KernelInv grid image s l own) (live : (s.table i).live)
    (asked : length ≠ 0) (inside : n < pagesNeeded length) (above : AboveKernel (mmapVirt (s.table i) addr) n)
    (served : Serves l (mapRequests s.paging.mem (s.table i).pageDirectory (mmapVirt (s.table i) addr) n) l' given)
    (full : place pageSize l' = none) : FailsAt s i addr length prot flags n := by
  obtain ⟨x, owned⟩ := inv.directories i live
  obtain ⟨q, l₁, own₁, loop, mapping⟩ := mmapPages_returns flags inv.layout inv.known owned (dvd_mmapVirt inv)
    (@mmapFlags_lt prot) above ⟨l', given, served⟩
  obtain ⟨given₁, serves, -⟩ := mapping.served
  have all : Serves l (mapRequests s.paging.mem (s.table i).pageDirectory (mmapVirt (s.table i) addr) n ++ []) l'
      given := by rwa [List.append_nil]
  obtain ⟨_, rfl, -⟩ := all.rest serves
  exact ⟨asked, inside, q, q.heap, loop, kmalloc_place_none mapping.layout.heap full⟩

end Finds

/-! ### What a call does -/

/-- `heap_start` of a new process. -/
def heapBase : Nat := 0x08080000

/-- **What a call to `process_brk` does**, with the directory loaded: the end of the heap moves, and the pages
between the old end and the new one are mapped or unmapped. -/
structure Moves (grid : Prop) (image : KernelImage) (s s' : Kernel) (i : Slot) (stop : Nat) : Prop where
  inv : ∃ l own, KernelInv grid image s' l own
  live : (s'.table i).live
  directory : (s'.table i).pageDirectory = (s.table i).pageDirectory
  loaded : s'.paging.current = s.paging.current
  start : (s'.table i).heapStart = (s.table i).heapStart
  ends : (s'.table i).heapEnd = stop
  same : ∀ w < 2 ^ 32, (w < (s.table i).heapEnd ↔ w < stop) →
    translate s'.paging.mem (s.table i).pageDirectory w =
      translate s.paging.mem (s.table i).pageDirectory w
  grown : ∀ w, (s.table i).heapEnd ≤ w → w < stop →
    translate s'.paging.mem (s.table i).pageDirectory w ≠ 0
  shrunk : ∀ w, stop ≤ w → w < (s.table i).heapEnd →
    translate s'.paging.mem (s.table i).pageDirectory w = 0

/-- The pages of the heap are mapped. -/
def HeapMapped (p : PagingState) (d stop : Nat) : Prop :=
  ∀ w, heapBase ≤ w → w < stop → translate p.mem d w ≠ 0

/-- **What a call needs**: it asks where the heap ends, or for an address that rounds up to one not below its
start; pages that are taken away are freed without a panic, and there is room for new ones. -/
structure Asks (freed : PagingState → Nat → Nat → Prop) (kind : Nat → Prop) (s : Kernel) (i : Slot) (addr : Nat) :
    Prop where
  start : (s.table i).heapStart ≤ newBrk addr
  shrinks : newBrk addr < (s.table i).heapEnd →
    freed s.paging (newBrk addr) (pagesNeeded ((s.table i).heapEnd - newBrk addr))
  grows : (s.table i).heapEnd < newBrk addr → FindsRoom kind s.paging (s.table i).pageDirectory
    (s.table i).heapEnd (pagesNeeded (newBrk addr - (s.table i).heapEnd))

/-- The pages are freed without a panic, and nothing is in the way of `kfree`. -/
def CanRelease (p : PagingState) (virt n : Nat) : Prop := Freeable p virt n ∧ ClearBelow p virt n

section Calls

variable {grid : Prop} {image : KernelImage} {s s' : Kernel} {own own' : Owner → Option Nat} {l l' : List Segment}
  {given : List Nat} {p q : PagingState} {i : Slot} {addr d flags n result stop virt w x : Nat}

/-- **A heap whose pages are all mapped** ends below the user stack. -/
theorem HeapMapped.below (mapped : HeapMapped q d stop) (layout : Layout grid image q l own ∅)
    (owned : own (.directory d) = some x) (whole : pageSize ∣ stop) (small : stop < 2 ^ 32) :
    stop ≤ heapBase + heapSize := by
  by_contra far
  have base : pageSize ∣ heapBase := by decide
  have few := @mapped_few grid image own l q heapBase d ((stop - heapBase) / pageSize) x layout owned base
    (by decide) (by simp only [heapBase, pageSize] at *; omega) fun k less => mapped _ (by omega) (by
      simp only [heapBase, pageSize] at *
      omega)
  simp only [heapBase, heapSize, pageSize] at *
  omega

/-- A page that translates to 0 is not mapped, and a page is mapped at all its addresses or at none. -/
theorem translate_zero_iff {m : Memory} (same : w / pageSize = virt / pageSize)
    (start : virt % pageSize = 0) (zero : translate m d w = 0) : translate m d virt = 0 := by
  obtain ⟨row, column⟩ := page_eq_iff.mp same
  have word : pageWord m d w = pageWord m d virt := by rw [pageWord, pageWord, row, column]
  rw [translate_eq, word] at zero
  rw [translate_eq, start, Nat.or_zero]
  split at zero
  · rename_i here
    rw [if_pos here]
    exact (Nat.or_eq_zero_iff.mp zero).1
  · rename_i none
    exact if_neg none

/-- An address that translates is one of a page in use. -/
theorem translate_of_not_maps {m : Memory} (none : ¬ Maps m d w) : translate m d w = 0 := by
  unfold Paging.translate
  split
  · rename_i here
    exact if_neg fun found => none ⟨here, found⟩
  · rfl

/-- The pages of a range, by its end. -/
theorem Inside.inPages (inside : Inside virt n) (aligned : pageSize ∣ virt) :
    InPages virt n w ↔ virt ≤ w ∧ w < virt + n * pageSize := by
  constructor
  · rintro ⟨k, less, same⟩
    refine ⟨?_, inside.lt_end aligned less same⟩
    rw [inside.pageVirt_eq less] at same
    simp only [pageSize] at *
    omega
  · rintro ⟨low, high⟩
    have less : (w - virt) / pageSize < n := by
      simp only [pageSize] at *
      omega
    refine ⟨_, less, ?_⟩
    rw [inside.pageVirt_eq less]
    simp only [pageSize] at *
    omega

theorem Regions.mmapVirt_eq (regions : Regions s i) (inv : KernelInv grid image s l own) :
    mmapVirt (s.table i) (s.table i).heapEnd = (s.table i).heapEnd := by
  refine mmapVirt_heapEnd inv fun zero => ?_
  have low := regions.low
  rw [zero] at low
  exact absurd low (by decide)

/-- How far `process_brk` maps. -/
theorem Regions.grown_stop (regions : Regions s i) (inv : KernelInv grid image s l own)
    (grows : (s.table i).heapEnd < newBrk addr) :
    (s.table i).heapEnd + pagesNeeded (newBrk addr - (s.table i).heapEnd) * pageSize = newBrk addr := by
  have whole : pageSize ∣ newBrk addr - (s.table i).heapEnd := Nat.dvd_sub dvd_newBrk (inv.heapEnd i)
  have top := @newBrk_lt addr
  have low := regions.low
  rw [pagesNeeded_mul whole (by simp only [kernelEnd, pageSize] at *; omega)]
  omega

/-- The pages of a range that has been mapped are mapped. -/
theorem Lent.mapped (lent : Lent image own d virt l p n q l' given) (heap : HeapInv q.heap l')
    (aligned : pageSize ∣ virt) (here : InPages virt n w) : translate q.mem d w ≠ 0 := by
  intro zero
  obtain ⟨k, less, same⟩ := here
  have found := lent.inside k _ (List.getElem?_eq_getElem (by rw [lent.length]; exact less))
  rw [translate_zero_iff same (pageVirt_mod aligned) zero] at found
  exact frame_ne_zero heap (lent.held _ (List.getElem_mem _)) found.symm

/-- The heap stays. -/
theorem Moves.refl (inv : KernelInv grid image s l own) (live : (s.table i).live) :
    Moves grid image s s i (s.table i).heapEnd :=
  ⟨⟨l, own, inv⟩, live, rfl, rfl, rfl, rfl, fun _ _ _ => rfl, fun _ low high => absurd high (not_lt.mpr low),
    fun _ low high => absurd high (not_lt.mpr low)⟩

/-- **The heap grows** when there is room for its pages and their tables. -/
theorem Moves.grow (inv : KernelInv grid image s l own) (regions : Regions s i) (asked : addr ≠ 0)
    (grows : (s.table i).heapEnd < newBrk addr)
    (enough : Enough l (mapRequests s.paging.mem (s.table i).pageDirectory (s.table i).heapEnd
      (pagesNeeded (newBrk addr - (s.table i).heapEnd)))) :
    ∃ s' result, processBrk s (some i) addr = .ok (s', result) ∧ Moves grid image s s' i (newBrk addr) := by
  have inside := regions.grown inv grows
  have virt := regions.mmapVirt_eq inv
  have range := fun w => inside.inPages (w := w) (inv.heapEnd i)
  have reach := regions.grown_stop inv grows
  obtain ⟨x, owned⟩ := inv.directories i regions.live
  obtain ⟨p, -, -, loop, -⟩ := mmapPages_returns (mapPrivate ||| mapAnonymous) inv.layout inv.known owned
    (inv.heapEnd i) (@mmapFlags_lt (protRead ||| protWrite)) inside.above enough
  obtain ⟨s', done⟩ := @processMmap_done s i (s.table i).heapEnd (newBrk addr - (s.table i).heapEnd)
    (protRead ||| protWrite) (mapPrivate ||| mapAnonymous) p (by omega) (virt.symm ▸ loop)
  have success : mmapVirt (s.table i) (s.table i).heapEnd ≠ mapFailed := by
    intro same
    have aligned := inv.heapEnd i
    rw [← virt, same] at aligned
    exact absurd aligned (by decide)
  have keeps := processMmap_keeps done i
  obtain ⟨kept, -⟩ := inv.mmap regions.live (virt.symm ▸ inside.above) (fun failed => absurd failed success) done
  obtain ⟨-, -, p', loop', rfl, -, stop⟩ := processMmap_mapped done success
  rw [virt] at loop' stop
  obtain ⟨l', own', given, mapping, lent⟩ := mmapPages_lent inv.layout inv.known owned (inv.heapEnd i)
    mmapFlags_lt inside.above (Nat.le_of_lt pagesNeeded_lt) loop'
  have reached : (s'.table i).heapEnd = newBrk addr := by
    have top := @newBrk_lt addr
    rw [Nat.mod_eq_of_lt (show pagesNeeded _ * pageSize < 2 ^ 32 by omega), reach] at stop
    omega
  refine ⟨s', (s'.table i).heapEnd, ?_, kept, ?_, by rw [keeps], mapping.current, by rw [keeps], reached,
    fun w small unmoved => ?_, fun w low high => ?_, fun w low high => ?_⟩
  · unfold processBrk
    simp only
    rw [if_neg asked, if_pos grows, done, Outcome.ok_bind]
    exact if_neg success
  · rw [keeps]
    exact regions.live
  · refine lent.outside _ (inv.isDirectory regions.live) w small fun both => ?_
    have between := (range w).mp both.2
    omega
  · exact lent.mapped mapping.layout.heap (inv.heapEnd i) ((range w).mpr ⟨low, by omega⟩)
  · omega

/-- The heap with the pages that have been mapped behind it. -/
theorem HeapMapped.extend (mapped : HeapMapped p d virt)
    (lent : Lent image own d virt l p n q l' given) (heap : HeapInv q.heap l') (directory : IsDirectory image own d)
    (aligned : pageSize ∣ virt) (inside : Inside virt n) : HeapMapped q d (virt + n * pageSize) := by
  intro w low high
  by_cases old : w < virt
  · have outside := lent.outside d directory w (lt_trans high inside.2) fun both => by
      have between := (inside.inPages aligned).mp both.2
      omega
    rw [outside]
    exact mapped w low old
  · exact lent.mapped heap aligned ((inside.inPages aligned).mpr ⟨by omega, high⟩)

/-- Nothing is mapped between the heap and the user stack. -/
theorem Regions.unmapped (regions : Regions s i) (aligned : pageSize ∣ (s.table i).heapEnd)
    (inside : Inside (s.table i).heapEnd n)
    (most : (s.table i).heapEnd + n * pageSize ≤ heapBase + heapSize) (small : w < 2 ^ 32)
    (here : InPages (s.table i).heapEnd n w) : translate s.paging.mem (s.table i).pageDirectory w = 0 := by
  have between := (inside.inPages aligned).mp here
  have low := regions.low
  refine translate_of_not_maps fun maps => ?_
  rcases regions.mapped w (userIndex_of (by omega) small) maps with below | stack
  · omega
  · simp only [heapBase, heapSize, userStackVirt, pageSize] at *
    omega

/-- **The heap cannot grow**, and the pages mapped so far can be freed. -/
theorem Moves.fail {k : Nat} (inv : KernelInv grid image s l own) (regions : Regions s i)
    (loaded : (s.table i).pageDirectory = s.paging.current)
    (mapped : HeapMapped s.paging (s.table i).pageDirectory (s.table i).heapEnd)
    (asked : addr ≠ 0) (grows : (s.table i).heapEnd < newBrk addr)
    (less : k < pagesNeeded (newBrk addr - (s.table i).heapEnd))
    (served : Serves l (mapRequests s.paging.mem (s.table i).pageDirectory (s.table i).heapEnd k) l' given)
    (full : place pageSize l' = none) (starts : ∀ ptr ∈ given, pageSize ∣ ptr) :
    ∃ s' result, processBrk s (some i) addr = .ok (s', result) ∧
      Moves grid image s s' i (s.table i).heapEnd := by
  have virt := regions.mmapVirt_eq inv
  have aligned := inv.heapEnd i
  have few : k ≤ 2 ^ 20 := (Nat.le_of_lt less).trans (Nat.le_of_lt pagesNeeded_lt)
  have inside : Inside (s.table i).heapEnd k := by
    refine ⟨regions.low, lt_of_le_of_lt ?_ (regions.grown inv grows).2⟩
    simp only [pageSize]
    omega
  obtain ⟨x, owned⟩ := inv.directories i regions.live
  have fails : FailsAt s i (s.table i).heapEnd (newBrk addr - (s.table i).heapEnd) (protRead ||| protWrite)
      (mapPrivate ||| mapAnonymous) k :=
    .of_served inv regions.live (by omega) less (virt.symm ▸ inside.above) (virt.symm ▸ served) full
  obtain ⟨p, l₁, own₁, given₁, -, call, mapping, lent⟩ := fails.lent inv regions.live (virt.symm ▸ inside.above)
  rw [virt] at call mapping lent
  have most := (mapped.extend lent mapping.layout.heap (inv.isDirectory regions.live) aligned inside).below
    mapping.layout ((mapping.dirs _).trans owned) (Nat.dvd_add aligned (Nat.dvd_mul_left _ _)) inside.2
  have listed : ∀ ptr ∈ userPages l (mapRequests s.paging.mem (s.table i).pageDirectory (s.table i).heapEnd k),
      pageSize ∣ ptr := by
    rwa [served.listed]
  have here := mapping.current.trans loaded.symm
  obtain ⟨-, q, ran, l₂, own₂, cleared⟩ := (mmapCleanups_cleared mapping.layout
    (currentOwned_of inv.known mapping.dirs mapping.current) aligned few inside.above
    (lent.clearBelow mapping.layout here listed)).resolve_right
      fun refused => refused.1 (lent.freeable mapping.layout here listed)
  rw [ran, Outcome.ok_bind] at call
  have steady : Steady grid image own s.paging.current q.made q :=
    ⟨l₂, own₂, cleared.layout, fun d => (cleared.dirs d).trans (mapping.dirs d),
      cleared.current.trans mapping.current, rfl⟩
  refine ⟨s.withPaging q, mapFailed, ?_, inv.of_steady steady (fun j liveJ => ⟨liveJ, rfl⟩) inv.heapEnd inv.running,
    regions.live, rfl, cleared.current.trans mapping.current, rfl, rfl, fun w small _ => ?_,
    fun w low high => absurd high (not_lt.mpr low), fun w low high => absurd high (not_lt.mpr low)⟩
  · unfold processBrk
    simp only
    rw [if_neg asked, if_pos grows, call]
    rfl
  · have after := cleared.view _ ((inv.isDirectory regions.live).congr mapping.dirs) w small
    rw [mapping.current, ← loaded] at after
    simp only [Kernel.withPaging_paging]
    rw [after]
    split
    · rename_i both
      rw [regions.unmapped aligned inside most small both.2]
    · rename_i other
      exact lent.outside _ (inv.isDirectory regions.live) w small other

/-- The pages that `process_brk` unmaps, as its call of `process_munmap` finds them. -/
theorem Regions.unmaps (regions : Regions s i) (inv : KernelInv grid image s l own) (above : kernelEnd ≤ newBrk addr)
    (shrinks : newBrk addr < (s.table i).heapEnd)
    (clear : ClearBelow s.paging (newBrk addr) (pagesNeeded ((s.table i).heapEnd - newBrk addr))) :
    (Freeable s.paging (newBrk addr) (pagesNeeded ((s.table i).heapEnd - newBrk addr)) ∧
      ∃ q, processMunmap s (some i) (newBrk addr) ((s.table i).heapEnd - newBrk addr) = .ok (s.withPaging q, 0) ∧
        ∃ l' own', Cleared grid image own (newBrk addr) l s.paging
          (pagesNeeded ((s.table i).heapEnd - newBrk addr)) q l' own') ∨
    ¬ Freeable s.paging (newBrk addr) (pagesNeeded ((s.table i).heapEnd - newBrk addr)) ∧
      processMunmap s (some i) (newBrk addr) ((s.table i).heapEnd - newBrk addr) = .panic invalidPointer := by
  obtain ⟨-, inside⟩ := regions.shrunk inv above shrinks
  have positive : newBrk addr ≠ 0 := by
    rintro zero
    rw [zero] at above
    exact absurd above (by decide)
  unfold processMunmap
  rw [if_neg (by simp [positive]; omega), frame_of_dvd dvd_newBrk]
  rcases munmapPages_cleared inv.layout inv.current dvd_newBrk (Nat.le_of_lt pagesNeeded_lt) inside.above clear with
    ⟨freeable, q, ran, cleared⟩ | ⟨refused, ran⟩
  · rw [ran]
    exact .inl ⟨freeable, q, rfl, cleared⟩
  · rw [ran]
    exact .inr ⟨refused, rfl⟩

/-- **The heap shrinks**, when its pages can be freed. -/
theorem Moves.shrink (inv : KernelInv grid image s l own) (regions : Regions s i)
    (loaded : (s.table i).pageDirectory = s.paging.current) (asked : addr ≠ 0) (above : kernelEnd ≤ newBrk addr)
    (shrinks : newBrk addr < (s.table i).heapEnd)
    (releases : CanRelease s.paging (newBrk addr) (pagesNeeded ((s.table i).heapEnd - newBrk addr))) :
    ∃ s' result, processBrk s (some i) addr = .ok (s', result) ∧ Moves grid image s s' i (newBrk addr) := by
  obtain ⟨count, inside⟩ := regions.shrunk inv above shrinks
  have range := fun w => inside.inPages (w := w) dvd_newBrk
  rw [count] at range
  obtain ⟨-, q, munmap, l', own', cleared⟩ :=
    (regions.unmaps inv above shrinks releases.2).resolve_right fun refused => refused.1 releases.1
  have view := cleared.view _ (inv.isDirectory regions.live)
  have steady : Steady grid image own s.paging.current q.made q :=
    ⟨l', own', cleared.layout, cleared.dirs, cleared.current, rfl⟩
  refine ⟨(s.withPaging q).modify i fun proc => { proc with heapEnd := newBrk addr }, newBrk addr, ?_,
    inv.modify_steady steady rfl rfl dvd_newBrk, ?_, ?_, cleared.current, ?_, ?_,
    fun w small unmoved => ?_, fun w low high => ?_, fun w low high => ?_⟩
  · unfold processBrk
    simp only
    rw [if_neg asked, if_neg (not_lt.mpr shrinks.le), if_pos shrinks, munmap, Outcome.ok_bind]
    simp only [Kernel.modify_self]
    rfl
  · rw [Kernel.modify_self]
    exact regions.live
  · rw [Kernel.modify_self]
    rfl
  · rw [Kernel.modify_self]
    rfl
  · rw [Kernel.modify_self]
  · simp only [Kernel.modify_paging, Kernel.withPaging_paging]
    rw [view w small, if_neg fun both => ?_]
    have between := (range w).mp both.2
    omega
  · omega
  · have small := regions.high
    simp only [Kernel.modify_paging, Kernel.withPaging_paging]
    rw [view w (by omega), if_pos ⟨loaded, (range w).mpr ⟨low, by omega⟩⟩]

/-- **What a call does**, when the directory is loaded and the call finds what it needs. -/
theorem processBrk_moves (inv : KernelInv grid image s l own) (regions : Regions s i)
    (loaded : (s.table i).pageDirectory = s.paging.current)
    (mapped : HeapMapped s.paging (s.table i).pageDirectory (s.table i).heapEnd)
    (base : (s.table i).heapStart = heapBase) (asks : addr ≠ 0 → Asks CanRelease (pageSize ∣ ·) s i addr) :
    ∃ s' result stop, processBrk s (some i) addr = .ok (s', result) ∧ Moves grid image s s' i stop ∧
      (stop = (s.table i).heapEnd ∨ heapBase ≤ newBrk addr ∧ stop = newBrk addr) := by
  by_cases null : addr = 0
  · refine ⟨s, (s.table i).heapEnd, _, ?_, .refl inv regions.live, .inl rfl⟩
    unfold processBrk
    exact if_pos null
  · obtain ⟨start, shrinks, grows⟩ := asks null
    rw [base] at start
    rcases Nat.lt_trichotomy (newBrk addr) (s.table i).heapEnd with less | same | more
    · obtain ⟨s', result, done, moves⟩ :=
        Moves.shrink inv regions loaded null (le_trans (by decide) start) less (shrinks less)
      exact ⟨s', result, _, done, moves, .inr ⟨start, rfl⟩⟩
    · refine ⟨s, (s.table i).heapEnd, _, ?_, .refl inv regions.live, .inl rfl⟩
      unfold processBrk
      simp only
      rw [if_neg null, if_neg (by omega), if_neg (by omega)]
    · rcases grows more l inv.layout.heap.blockList_eq with enough | ⟨k, inside, l', given, served, full, starts⟩
      · obtain ⟨s', result, done, moves⟩ := Moves.grow inv regions null more enough
        exact ⟨s', result, _, done, moves, .inr ⟨start, rfl⟩⟩
      · obtain ⟨s', result, done, moves⟩ := Moves.fail inv regions loaded mapped null more inside served full starts
        exact ⟨s', result, _, done, moves, .inl rfl⟩

/-- A call for an address below the heap, if it returns, moves the end of the heap there. -/
theorem processBrk_below (nonzero : addr ≠ 0) (below : newBrk addr < (s.table i).heapEnd)
    (done : processBrk s (some i) addr = .ok (s', result)) : (s'.table i).heapEnd = newBrk addr := by
  cases processBrk_way done with
  | query null => exact absurd null nonzero
  | failed asked grows mmap => exact absurd grows below.not_gt
  | grown asked grows mmap found => exact absurd grows below.not_gt
  | shrunk asked shrinks munmap => rw [Kernel.modify_self]
  | kept asked same => exact absurd same below.ne'

/-- **A call that returns** for an address not below the heap has found what it needs. -/
theorem processBrk_asks (inv : KernelInv grid image s l own) (regions : Regions s i)
    (base : (s.table i).heapStart = heapBase) (start : (s.table i).heapStart ≤ newBrk addr) (nonzero : addr ≠ 0)
    (done : processBrk s (some i) addr = .ok (s', result)) :
    Asks (fun p virt n => ClearBelow p virt n → Freeable p virt n) (fun _ => True) s i addr := by
  have room : ∀ {t : Kernel} {v : Nat}, (s.table i).heapEnd < newBrk addr →
      processMmap s (some i) (s.table i).heapEnd (newBrk addr - (s.table i).heapEnd) (protRead ||| protWrite)
        (mapPrivate ||| mapAnonymous) = .ok (t, v) →
      FindsRoom (fun _ => True) s.paging (s.table i).pageDirectory (s.table i).heapEnd
        (pagesNeeded (newBrk addr - (s.table i).heapEnd)) := by
    intro t v grows mmap
    have virt := regions.mmapVirt_eq inv
    have found := FindsRoom.of_returned inv regions.live (by omega)
      (virt.symm ▸ (regions.grown inv grows).above) mmap
    rwa [virt] at found
  cases processBrk_way done with
  | query null => exact absurd null nonzero
  | failed asked grows mmap => exact ⟨start, fun less => absurd less grows.not_gt, fun _ => room grows mmap⟩
  | grown asked grows mmap found => exact ⟨start, fun less => absurd less grows.not_gt, fun _ => room grows mmap⟩
  | shrunk asked shrinks munmap =>
      refine ⟨start, fun _ clear => ?_, fun more => absurd more shrinks.not_gt⟩
      rcases regions.unmaps inv (le_trans (by decide) (base ▸ start)) shrinks clear with
        ⟨freeable, -⟩ | ⟨-, panics⟩
      · exact freeable
      · cases panics.symm.trans munmap
  | kept asked same => exact ⟨start, fun less => absurd same less.ne', fun more => absurd same more.ne⟩

end Calls

/-! ### Runs -/

/-- A call to `process_brk`, which may panic; the second component is the highest end of the heap so far. -/
def brkCall (i : Slot) (before : Outcome (Kernel × Nat)) (addr : Nat) : Outcome (Kernel × Nat) := do
  let (s, top) ← before
  let (s, _) ← processBrk s (some i) addr
  return (s, max top (s.table i).heapEnd)

/-- One call. -/
def BrkStep (i : Slot) (before : Outcome (Kernel × Nat)) (addr : Nat) (after : Outcome (Kernel × Nat)) : Prop :=
  after = brkCall i before addr

/-- **A well-formed heap**: it ends at a page boundary and not before its start, the mapped pages between
its start and the user stack are those below its end, and no other page was touched. -/
structure WellFormedHeap (start : Kernel) (i : Slot) (s : Kernel) (top : Nat) : Prop where
  base : (s.table i).heapStart = (start.table i).heapStart
  ordered : (s.table i).heapStart ≤ (s.table i).heapEnd
  aligned : pageSize ∣ (s.table i).heapEnd
  mapped : ∀ w, (s.table i).heapStart ≤ w → w < userStackVirt →
    (translate s.paging.mem (s.table i).pageDirectory w ≠ 0 ↔ w < (s.table i).heapEnd)
  outside : ∀ w < 2 ^ 32, ¬ ((s.table i).heapStart ≤ w ∧ w < top) →
    translate s.paging.mem (s.table i).pageDirectory w =
      translate start.paging.mem (start.table i).pageDirectory w

/-- The calls so far have returned and left a well-formed heap. -/
def KeptHeap (start : Kernel) (i : Slot) (after : Outcome (Kernel × Nat)) : Prop :=
  ∃ s top, after = .ok (s, top) ∧ WellFormedHeap start i s top

/-- The call asks where the heap ends, or for an address it can be moved to. -/
def Manages (i : Slot) (before : Outcome (Kernel × Nat)) (addr : Nat) : Prop :=
  ∀ s top, before = .ok (s, top) → addr ≠ 0 → Asks CanRelease (pageSize ∣ ·) s i addr

/-- What the calls keep. -/
structure Heaped (grid : Prop) (image : KernelImage) (start : Kernel) (i : Slot) (s : Kernel) (top : Nat) : Prop where
  inv : ∃ l own, KernelInv grid image s l own
  regions : Regions s i
  loaded : (s.table i).pageDirectory = s.paging.current
  base : (s.table i).heapStart = heapBase
  first : (start.table i).heapStart = heapBase
  ordered : heapBase ≤ (s.table i).heapEnd
  bounded : (s.table i).heapEnd ≤ top
  heap : HeapMapped s.paging (s.table i).pageDirectory (s.table i).heapEnd
  outside : ∀ w < 2 ^ 32, ¬ (heapBase ≤ w ∧ w < top) →
    translate s.paging.mem (s.table i).pageDirectory w =
      translate start.paging.mem (start.table i).pageDirectory w

section Runs

variable {grid : Prop} {image : KernelImage} {start s s' s₁ : Kernel} {t : Outcome (Kernel × Nat)} {i : Slot}
  {l : List Segment} {own : Owner → Option Nat} {addr entryPoint stop top uid : Nat}

/-- A call that returns. -/
theorem brkCall_ok {result : Nat} (done : processBrk s (some i) addr = .ok (s', result)) (top : Nat) :
    brkCall i (.ok (s, top)) addr = .ok (s', max top (s'.table i).heapEnd) := by
  rw [brkCall, Outcome.ok_bind]
  simp only
  rw [done]
  rfl

theorem Heaped.wellFormed (heaped : Heaped grid image start i s top) : WellFormedHeap start i s top := by
  obtain ⟨l, own, inv⟩ := heaped.inv
  obtain ⟨x, owned⟩ := inv.directories i heaped.regions.live
  have far := heaped.heap.below inv.layout owned (inv.heapEnd i) heaped.regions.high
  refine ⟨heaped.base.trans heaped.first.symm, heaped.base ▸ heaped.ordered, inv.heapEnd i,
    fun w low high => ⟨fun maps => ?_, fun inside => heaped.heap w (heaped.base ▸ low) inside⟩,
    fun w small other => heaped.outside w small (heaped.base ▸ other)⟩
  rw [heaped.base] at low
  by_contra beyond
  refine maps (translate_of_not_maps fun here => ?_)
  have user : UserIndex w := userIndex_of (le_trans (by decide) low) (lt_trans high (by decide))
  rcases heaped.regions.mapped w user here with below | stack
  · exact beyond below
  · simp only [userStackVirt, pageSize] at *
    omega

/-- The pages in use are still those below the end of the heap, and that of the stack. -/
theorem Moves.regions (moves : Moves grid image s s' i stop) (regions : Regions s i)
    (loaded : (s.table i).pageDirectory = s.paging.current) (low : kernelEnd ≤ stop) (high : stop < 2 ^ 32) :
    Regions s' i := by
  obtain ⟨l, own, inv⟩ := moves.inv
  obtain ⟨x, owned⟩ := inv.directories i moves.live
  have here : (s'.table i).pageDirectory = s'.paging.current := by
    rw [moves.directory, moves.loaded, loaded]
  refine ⟨moves.live, moves.ends.symm ▸ low, moves.ends.symm ▸ high, fun w user maps => ?_⟩
  rw [moves.ends]
  have mapped := inv.layout.physicalAddress_maps (here ▸ owned) user (here ▸ maps)
  rw [physicalAddress_translate, ← here, moves.directory] at mapped
  by_contra neither
  obtain ⟨beyond, apart⟩ := not_or.mp neither
  have small : w < 2 ^ 32 := by
    have := user.2
    simp only [dirIndex, pageEntries] at this
    omega
  by_cases old : w < (s.table i).heapEnd
  · exact mapped (moves.shrunk w (not_lt.mp beyond) old)
  · rw [moves.same w small (iff_of_false old beyond)] at mapped
    have before : Maps s.paging.mem (s.table i).pageDirectory w := by
      by_contra none
      exact mapped (translate_of_not_maps none)
    exact (regions.mapped w user before).elim old apart

/-- **One call.** -/
theorem Heaped.step (heaped : Heaped grid image start i s top)
    (asks : addr ≠ 0 → Asks CanRelease (pageSize ∣ ·) s i addr) :
    ∃ s' result, processBrk s (some i) addr = .ok (s', result) ∧
      Heaped grid image start i s' (max top (s'.table i).heapEnd) := by
  obtain ⟨l, own, inv⟩ := heaped.inv
  obtain ⟨s', result, stop, done, moves, which⟩ :=
    processBrk_moves inv heaped.regions heaped.loaded heaped.heap heaped.base asks
  have before := heaped.bounded
  have ends := heaped.ordered
  obtain ⟨ordered, small⟩ : heapBase ≤ stop ∧ stop < 2 ^ 32 := by
    rcases which with rfl | ⟨above, rfl⟩
    · exact ⟨heaped.ordered, heaped.regions.high⟩
    · exact ⟨above, newBrk_lt⟩
  refine ⟨s', result, done, moves.inv,
    moves.regions heaped.regions heaped.loaded (le_trans (by decide) ordered) small, ?_,
    moves.start.trans heaped.base, heaped.first, moves.ends.symm ▸ ordered, le_max_right _ _,
    fun w low high => ?_, fun w inside other => ?_⟩
  · rw [moves.directory, moves.loaded, heaped.loaded]
  · rw [moves.ends] at high
    rw [moves.directory]
    by_cases old : w < (s.table i).heapEnd
    · rw [moves.same w (lt_trans high small) (iff_of_true old high)]
      exact heaped.heap w low old
    · exact moves.grown w (not_lt.mp old) high
  · rw [moves.ends] at other
    rw [moves.directory, moves.same w inside (by omega)]
    exact heaped.outside w inside (by omega)

/-- `process_set_current` loads the directory of the process. -/
theorem processSetCurrent_self (nonzero : (s.table i).pageDirectory ≠ 0) :
    (processSetCurrent s i).paging.current = (s.table i).pageDirectory ∧
      ((processSetCurrent s i).table i).heapStart = (s.table i).heapStart := by
  obtain ⟨-, state, now, -⟩ := processSetCurrent_memory s i i
  refine ⟨?_, by rw [now]⟩
  have root : ((processSetCurrent s i).table i).pageDirectory = (s.table i).pageDirectory := by rw [now]
  have loads : (processSetCurrent s i).paging.current = ((processSetCurrent s i).table i).pageDirectory :=
    congrArg PagingState.current (if_neg (root.trans_ne nonzero))
  exact loads.trans root

/-- **A new process**, made current. -/
theorem Heaped.created (inv : KernelInv grid image s l own)
    (created : processCreate image s entryPoint uid = .ok (s₁, some i)) :
    Heaped grid image (processSetCurrent s₁ i) i (processSetCurrent s₁ i)
      ((processSetCurrent s₁ i).table i).heapEnd := by
  obtain ⟨l', own', inv'⟩ := (inv.create (fun none => absurd none (by simp)) created).1
  have regions := Regions.create inv created
  obtain ⟨_, dir, _, _, _, _, -, -, nonzero, -, -, -, -, -, table, -⟩ := processCreate_some created
  have block := congrFun table i
  rw [Function.update_self] at block
  obtain ⟨loaded, base⟩ := @processSetCurrent_self s₁ i (by rw [block]; exact nonzero)
  obtain ⟨-, stop, directory, -⟩ := processSetCurrent_keeps s₁ i i
  rw [block] at base stop
  refine ⟨⟨l', own', inv'.setCurrent regions.live⟩, regions.setCurrent i, directory.trans loaded.symm, base,
    base, stop.symm ▸ le_rfl, le_rfl, fun w low high => ?_, fun _ _ _ => rfl⟩
  rw [stop] at high
  exact absurd high (not_lt.mpr low)

/-- **A run of calls that find what they need.** -/
theorem Heaped.run {ops : List Nat} {first : Outcome (Kernel × Nat)}
    (run : Run (Guarded (Manages i) (BrkStep i)) first ops t)
    (heaped : ∃ s top, first = .ok (s, top) ∧ Heaped grid image start i s top) :
    ∃ s top, t = .ok (s, top) ∧ Heaped grid image start i s top := by
  refine run.invariant (fun a => ∃ s top, a = .ok (s, top) ∧ Heaped grid image start i s top) ?_ heaped
  rintro _ addr b ⟨s, top, rfl, heaped⟩ ⟨manages, step⟩
  obtain ⟨s', result, done, next⟩ := heaped.step (manages s top rfl)
  exact ⟨s', _, Eq.trans step (brkCall_ok done top), next⟩

/-- What a call that keeps the heap well-formed has found. -/
theorem Heaped.asked {after : Outcome (Kernel × Nat)} (heaped : Heaped grid image start i s top)
    (step : BrkStep i (.ok (s, top)) addr after) (kept : KeptHeap start i after) (nonzero : addr ≠ 0) :
    Asks (fun p virt n => ClearBelow p virt n → Freeable p virt n) (fun _ => True) s i addr := by
  obtain ⟨l, own, inv⟩ := heaped.inv
  obtain ⟨s', top', rfl, well⟩ := kept
  rw [BrkStep, brkCall, Outcome.ok_bind] at step
  obtain ⟨⟨_, result⟩, done, rest⟩ := Outcome.bind_eq_ok.mp step.symm
  cases rest
  refine processBrk_asks inv heaped.regions heaped.base ?_ nonzero done
  by_contra below
  have ordered := heaped.ordered
  have stop := processBrk_below nonzero (by rw [heaped.base] at below; omega) done
  have order := well.ordered
  rw [well.base, heaped.first, stop] at order
  rw [heaped.base] at below
  exact below order

/-- **The heap stays well-formed** in every run of calls for its end or for addresses not below its start, as long
as pages to be freed are accepted by `kfree`, with nothing 20 bytes below them, and new pages and their tables find
room or leave a full heap after pages at page boundaries. A next call that keeps it well-formed is of this kind, but
for what happens to be found at or below frames that are no pointers of blocks. -/
theorem brk_keeps_heap (inv : KernelInv grid image s l own)
    (created : processCreate image s entryPoint uid = .ok (s₁, some i)) (ops : List Nat)
    (t : Outcome (Kernel × Nat))
    (run : Run (Guarded (Manages i) (BrkStep i))
      (.ok (processSetCurrent s₁ i, ((processSetCurrent s₁ i).table i).heapEnd)) ops t) :
    KeptHeap (processSetCurrent s₁ i) i t ∧
    ∀ s top addr after, t = .ok (s, top) → BrkStep i t addr after →
      KeptHeap (processSetCurrent s₁ i) i after → addr ≠ 0 →
      Asks (fun p virt n => ClearBelow p virt n → Freeable p virt n) (fun _ => True) s i addr := by
  obtain ⟨s, top, rfl, heaped⟩ := Heaped.run run ⟨_, _, rfl, Heaped.created inv created⟩
  refine ⟨⟨s, top, rfl, heaped.wellFormed⟩, fun s' top' addr after same step kept nonzero => ?_⟩
  cases same
  exact heaped.asked step kept nonzero

end Runs

/-! ### Two runs -/

/-- The first process of a kernel asks for one page of heap. -/
def onePage : Outcome (Kernel × Nat) := processBrk loadedKernel (some firstSlot) 0x08080001

/-- The state after it. -/
def pageGrown : Kernel := (onePage.getD (loadedKernel, 0)).1

/-- It has it, gives it back, and its heap is well-formed. -/
theorem brk_keeps_heap_grown : ∃ t,
    Run (Guarded (Manages firstSlot) (BrkStep firstSlot))
      (.ok (loadedKernel, (loadedKernel.table firstSlot).heapEnd)) [0x08080001, 0x08080000] t ∧
    KeptHeap loadedKernel firstSlot t := by
  obtain ⟨l, own, inv⟩ := steppedKernel_booted.run_inv (.nil _) fun _ => steppedKernel_spaced
  have created : processCreate sampleImage steppedKernel 0 0 =
      .ok (afterCreate steppedKernel, some firstSlot) :=
    afterCreate_eq (by decide +kernel) (by decide +kernel)
  obtain ⟨returns, result⟩ : onePage.isOk = true ∧ (onePage.getD (loadedKernel, 0)).2 = 0x08081000 := by
    decide +kernel
  have done : onePage = .ok (pageGrown, 0x08081000) := Outcome.eq_ok_getD_pair returns result
  have room : Enough ((blockList loadedKernel.paging.heap).getD [])
      (mapRequests loadedKernel.paging.mem (loadedKernel.table firstSlot).pageDirectory 0x08080000 1) := by
    decide +kernel
  obtain ⟨same, start, stop, accepts, clear⟩ :
      (pageGrown.table firstSlot).heapStart = 0x08080000 ∧
      (loadedKernel.table firstSlot).heapStart = 0x08080000 ∧
      (pageGrown.table firstSlot).heapEnd = 0x08081000 ∧
      Accepts pageGrown.paging.mem (pagingGetPhysicalAddress pageGrown.paging (pageVirt 0x08080000 0)) ∧
      ∀ s ∈ (blockList pageGrown.paging.heap).getD [],
        s.addr + 20 ≠ pagingGetPhysicalAddress pageGrown.paging (pageVirt 0x08080000 0) := by
    decide +kernel
  have before : (loadedKernel.table firstSlot).heapEnd = 0x08080000 := by decide +kernel
  have grows : Manages firstSlot (.ok (loadedKernel, (loadedKernel.table firstSlot).heapEnd)) 0x08080001 := by
    rintro _ _ ⟨⟩ -
    refine ⟨start.symm ▸ by decide, fun less => ?_, fun _ l' found => .inl ?_⟩
    · rw [before] at less
      exact absurd less (by decide)
    · rw [found, Option.getD_some] at room
      rw [before]
      exact room
  have shrinks : ∀ top, Manages firstSlot (.ok (pageGrown, top)) 0x08080000 := by
    rintro top _ _ ⟨⟩ -
    refine ⟨same.symm ▸ by decide, fun _ => ?_, fun more => ?_⟩
    · rw [stop]
      refine ⟨fun k less => ?_, fun k less l' found => ?_⟩
      all_goals
        obtain rfl : k = 0 := by
          revert less
          simp only [show pagesNeeded (0x08081000 - newBrk 0x08080000) = 1 by decide]
          omega
      · exact .inr accepts
      · rw [found, Option.getD_some] at clear
        exact clear
    · rw [stop] at more
      exact absurd more (by decide)
  have grown : Guarded (Manages firstSlot) (BrkStep firstSlot)
      (.ok (loadedKernel, (loadedKernel.table firstSlot).heapEnd)) 0x08080001
      (.ok (pageGrown, max (loadedKernel.table firstSlot).heapEnd (pageGrown.table firstSlot).heapEnd)) :=
    ⟨grows, (brkCall_ok done _).symm⟩
  have run := Run.cons grown (.cons ⟨shrinks _, rfl⟩ (.nil (brkCall firstSlot _ 0x08080000)))
  exact ⟨_, run, (@brk_keeps_heap True sampleImage steppedKernel (afterCreate steppedKernel) firstSlot l own 0 0
    inv created _ _ run).1⟩

/-- The first process of a kernel asks for the last address. -/
def lastAddress : Outcome (Kernel × Nat) := processBrk loadedKernel (some firstSlot) 0xFFFFFFFF

/-- **Rounding up wraps**: the heap of the process ends at 0 then, and the call succeeds. -/
theorem brk_wraps : Booted sampleImage steppedKernel ∧
    processCreate sampleImage steppedKernel 0 0 = .ok (afterCreate steppedKernel, some firstSlot) ∧
    ∃ t, Run (BrkStep firstSlot) (.ok (processSetCurrent (afterCreate steppedKernel) firstSlot,
        ((processSetCurrent (afterCreate steppedKernel) firstSlot).table firstSlot).heapEnd))
        [0xFFFFFFFF] (.ok t) ∧
      ¬ KeptHeap (processSetCurrent (afterCreate steppedKernel) firstSlot) firstSlot (.ok t) := by
  have done : lastAddress = .ok ((lastAddress.getD (loadedKernel, 1)).1, 0) :=
    Outcome.eq_ok_getD_pair (by decide +kernel) (by decide +kernel)
  have step := (brkCall_ok done (loadedKernel.table firstSlot).heapEnd).symm
  refine ⟨steppedKernel_booted, afterCreate_eq (by decide +kernel) (by decide +kernel),
    _, .cons step (.nil _), ?_⟩
  rintro ⟨_, _, same, well⟩
  cases same
  have ordered := well.ordered
  revert ordered
  decide +kernel

end Kfs.Process
