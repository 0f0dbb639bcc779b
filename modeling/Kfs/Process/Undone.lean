/-
**`process_munmap` undoes `process_mmap` in the directory that is loaded.**

Mapping goes through the directory of the process, unmapping through the one that is loaded. A range that
was not mapped before is as it was, in every address space, if and only if the two are the same and `kfree`
accepts the frames that were mapped: `munmap_undoes_mmap`. It accepts them when first fit puts the pages at
page boundaries. A frame with a block 20 bytes below it, which no payload has, is left out: what `kfree` writes
there breaks the block list.
-/

import Kfs.Process.Ranges

namespace Kfs.Process

open Kfs.Heap Kfs.Paging Memory

/-- Every virtual address translates as before, in the directory of every process. -/
def SameTranslations (s s' : Kernel) : Prop := ∀ j, (s.table j).live → ∀ w < 2 ^ 32,
  translate s'.paging.mem (s'.table j).pageDirectory w =
    translate s.paging.mem (s.table j).pageDirectory w

section Undone

variable {grid : Prop} {image : KernelImage} {s s' : Kernel} {own own' : Owner → Option Nat} {l l' : List Segment}
  {given : List Nat} {p q : PagingState} {i j : Slot} {addr d flags length n prot v virt x : Nat}

/-- The directory of a live process. -/
theorem KernelInv.isDirectory (inv : KernelInv grid image s l own) (live : (s.table j).live) :
    IsDirectory image own (s.table j).pageDirectory := .inr (inv.directories j live)

/-- `process_mmap` changes no more of a control block than `heap_end`. -/
theorem processMmap_keeps {result : Nat}
    (done : processMmap s (some i) addr length prot flags = .ok (s', result)) (j : Slot) :
    s'.table j = { s.table j with heapEnd := (s'.table j).heapEnd } := by
  cases processMmap_way done with
  | nothing empty => rfl
  | failed asked loop => rfl
  | done asked loop =>
      rw [Kernel.modify_table]
      split
      · rename_i here
        rw [here]
        rfl
      · rfl

theorem processMmap_directory {result : Nat}
    (done : processMmap s (some i) addr length prot flags = .ok (s', result)) (j : Slot) :
    (s'.table j).pageDirectory = (s.table j).pageDirectory := by
  rw [processMmap_keeps done j]

theorem Lent.first (lent : Lent image own d virt l p n q l' given) (some : n ≠ 0) :
    ∃ ptr ∈ given, translate q.mem d (pageVirt virt 0) = frame ptr := by
  have inside : 0 < given.length := by
    have := lent.length
    omega
  exact ⟨given[0], List.getElem_mem inside, lent.inside 0 _ (List.getElem?_eq_getElem inside)⟩

/-- The frame of a block is not 0. -/
theorem frame_ne_zero {h : HeapState} (heap : HeapInv h l) (holds : Holds l x n) : frame x ≠ 0 := by
  have inside := holds.bounds heap
  have near := @lt_frame_add x
  simp only [heapStart, pageSize] at inside near
  omega

/-- Blocks at page boundaries are accepted. -/
theorem accepts_of_dvd {h : HeapState} (heap : HeapInv h l) (holds : Holds l x n) (start : pageSize ∣ x) :
    Accepts h.mem (frame x) := by
  obtain ⟨b, member, -, rfl, -⟩ := holds
  rw [frame_of_dvd start, Accepts, blockOf_payload heap member]
  exact (heap.linked.header member).2.2

/-- Nothing is 20 bytes below a block at a page boundary. -/
theorem unshadowed_of_dvd {h : HeapState} (heap : HeapInv h l) (holds : Holds l x n) (start : pageSize ∣ x) :
    Unshadowed l (frame x) := by
  obtain ⟨b, member, -, rfl, -⟩ := holds
  rw [frame_of_dvd start]
  exact heap.unshadowed member

/-- The frame of a page just mapped, under the directory it was mapped in. -/
theorem Lent.phys (lent : Lent image own d virt l p n q l' given) (loaded : q.current = d) {k : Nat}
    (less : k < n) : ∃ ptr ∈ given, pagingGetPhysicalAddress q (pageVirt virt k) = frame ptr := by
  have inside : k < given.length := by
    rw [lent.length]
    exact less
  refine ⟨given[k], List.getElem_mem inside, ?_⟩
  rw [physicalAddress_translate, loaded]
  exact lent.inside k _ (List.getElem?_eq_getElem inside)

/-- The pages just mapped are freed without a panic if first fit put them at page boundaries. -/
theorem Lent.freeable (lent : Lent image own d virt l p n q l' given) (layout : Layout grid image q l' own' ∅)
    (loaded : q.current = d) (starts : ∀ ptr ∈ userPages l (mapRequests p.mem d virt n), pageSize ∣ ptr) :
    Freeable q virt n := by
  intro k less
  obtain ⟨ptr, member, found⟩ := lent.phys loaded less
  rw [FreeableAt, found]
  exact .inr (accepts_of_dvd layout.heap (lent.held ptr member) (starts ptr (lent.served.listed.symm ▸ member)))

/-- And nothing is in the way then. -/
theorem Lent.clearBelow (lent : Lent image own d virt l p n q l' given) (layout : Layout grid image q l' own' ∅)
    (loaded : q.current = d) (starts : ∀ ptr ∈ userPages l (mapRequests p.mem d virt n), pageSize ∣ ptr) :
    ClearBelow q virt n := by
  intro k less l'' found
  cases found.symm.trans layout.heap.blockList_eq
  obtain ⟨ptr, member, same⟩ := lent.phys loaded less
  rw [same]
  exact unshadowed_of_dvd layout.heap (lent.held ptr member) (starts ptr (lent.served.listed.symm ▸ member))

/-- A range without pages. -/
theorem processMunmap_empty (s : Kernel) (i : Slot) (v : Nat) (empty : pagesNeeded length = 0) :
    ∃ result, processMunmap s (some i) v length = .ok (s, result) := by
  unfold processMunmap
  split
  · exact ⟨_, rfl⟩
  · rw [empty]
    exact ⟨_, rfl⟩

/-- **`process_munmap` undoes `process_mmap`** if and only if the directory of the process is loaded, and
`kfree` accepts the frames of the range, when no block is 20 bytes below one. Frames that first fit puts at page
boundaries are accepted, and nothing is below them. -/
theorem munmap_undoes_mmap (inv : KernelInv grid image s l own) (live : (s.table i).live)
    (above : AboveKernel (mmapVirt (s.table i) addr) (pagesNeeded length))
    (unmapped : ∀ w < 2 ^ 32, InPages (mmapVirt (s.table i) addr) (pagesNeeded length) w →
      translate s.paging.mem (s.table i).pageDirectory w = 0)
    (done : processMmap s (some i) addr length prot flags = .ok (s', v)) (success : v ≠ mapFailed) :
    (ClearBelow s'.paging v (pagesNeeded length) →
      ((∃ s'' result, processMunmap s' (some i) v length = .ok (s'', result) ∧ SameTranslations s s'') ↔
        pagesNeeded length = 0 ∨ (s.table i).pageDirectory = s.paging.current ∧
          Freeable s'.paging v (pagesNeeded length))) ∧
    ((s.table i).pageDirectory = s.paging.current →
      (∀ ptr ∈ userPages l (mapRequests s.paging.mem (s.table i).pageDirectory
        (mmapVirt (s.table i) addr) (pagesNeeded length)), pageSize ∣ ptr) →
      Freeable s'.paging v (pagesNeeded length) ∧ ClearBelow s'.paging v (pagesNeeded length)) := by
  have aligned : pageSize ∣ mmapVirt (s.table i) addr := dvd_mmapVirt inv
  have directories := processMmap_directory done
  obtain ⟨rfl, some, p, loop, rfl, -, -⟩ := processMmap_mapped done success
  obtain ⟨x, owned⟩ := inv.directories i live
  obtain ⟨l', own', given, mapping, lent⟩ := mmapPages_lent inv.layout inv.known owned aligned
    mmapFlags_lt above (Nat.le_of_lt pagesNeeded_lt) loop
  have current : CurrentOwned image s'.paging own' := currentOwned_of inv.known mapping.dirs mapping.current
  refine ⟨fun clear => ?_, fun loaded starts =>
    ⟨lent.freeable mapping.layout (mapping.current.trans loaded.symm) starts,
      lent.clearBelow mapping.layout (mapping.current.trans loaded.symm) starts⟩⟩
  have kept : ∀ w < 2 ^ 32, ∀ j, (s.table j).live →
      ¬ ((s.table j).pageDirectory = (s.table i).pageDirectory ∧
        InPages (mmapVirt (s.table i) addr) (pagesNeeded length) w) →
      translate s'.paging.mem (s.table j).pageDirectory w =
        translate s.paging.mem (s.table j).pageDirectory w :=
    fun w small j here other => lent.outside _ (inv.isDirectory here) w small other
  by_cases empty : pagesNeeded length = 0
  · have same : SameTranslations s s' := fun j here w small => by
      rw [directories j]
      refine kept w small j here fun both => ?_
      rw [empty] at both
      exact not_inPages_zero both.2
    obtain ⟨result, unmap⟩ := processMunmap_empty s' i (mmapVirt (s.table i) addr) empty
    exact iff_of_true ⟨s', result, unmap, same⟩ (.inl empty)
  · have positive : mmapVirt (s.table i) addr ≠ 0 := by
      intro zero
      have low := above 0 (Nat.pos_of_ne_zero empty)
      rw [zero] at low
      exact absurd low (by decide)
    rw [or_iff_right empty, processMunmap, if_neg (by simp [positive, some]), frame_of_dvd aligned]
    have cleared := munmapPages_cleared mapping.layout current aligned (Nat.le_of_lt pagesNeeded_lt) above clear
    constructor
    · rintro ⟨s'', result, unmap, same⟩
      rcases cleared with ⟨freeable, q, ran, l'', own'', cleared⟩ | ⟨-, ran⟩
      · rw [ran] at unmap
        cases unmap
        refine ⟨?_, freeable⟩
        by_contra other
        obtain ⟨ptr, member, first⟩ := lent.first empty
        have still := cleared.view _ ((inv.isDirectory live).congr mapping.dirs)
          (pageVirt (mmapVirt (s.table i) addr) 0) pageVirt_lt
        rw [mapping.current, if_neg fun both => other both.1, first] at still
        have before := same i live (pageVirt (mmapVirt (s.table i) addr) 0) pageVirt_lt
        simp only [Kernel.withPaging_table, Kernel.withPaging_paging] at before
        rw [directories i, still, unmapped _ pageVirt_lt ⟨0, Nat.pos_of_ne_zero empty, rfl⟩] at before
        exact frame_ne_zero mapping.layout.heap (lent.held ptr member) before
      · rw [ran] at unmap
        cases unmap
    · rintro ⟨loaded, freeable⟩
      rcases cleared with ⟨-, q, ran, l'', own'', cleared⟩ | ⟨refused, -⟩
      · rw [ran]
        refine ⟨_, _, rfl, fun j here w small => ?_⟩
        simp only [Kernel.withPaging_table, Kernel.withPaging_paging]
        rw [directories j, cleared.view _ ((inv.isDirectory here).congr mapping.dirs) w small,
          mapping.current, ← loaded]
        split
        · rename_i both
          rw [both.1, unmapped w small both.2]
        · rename_i other
          exact kept w small j here other
      · exact absurd freeable refused

/-! ### Two runs -/

/-- A kernel the rest of which has taken one block, so that the first page after the blocks of a process
starts at a page boundary. -/
def steppedKernel : Kernel :=
  processInit sampleImage ((runAll HeapOp.exec (Client.init (pagingInit sampleImage fun _ => 0))
    [.malloc 4000]).getD (Client.init fun _ => 0)).heap

theorem steppedKernel_booted : Booted sampleImage steppedKernel :=
  ⟨fun _ => 0, [.malloc 4000], _,
    (Run.of_runAll (Outcome.eq_ok_getD (by decide +kernel) _)).mono fun _ _ _ => HeapStep.of_exec, rfl⟩

theorem touchesUser_setCurrent : TouchesUser s (.setCurrent i) := by
  intro call resolved
  cases resolved
  exact ⟨fun k less => absurd less (Nat.not_lt_zero k), fun k less => absurd less (Nat.not_lt_zero k)⟩

theorem afterCreate_step (returns : (processCreate sampleImage s 0 0).isOk = true) :
    MemStep sampleImage s (.create 0 0) (afterCreate s) := by
  refine ⟨trivial, ?_⟩
  have done := Outcome.eq_ok_getD returns (s, none)
  rw [exec, done]
  rfl

/-- One process, its directory loaded. -/
theorem firstLoaded_run (returns : (processCreate sampleImage s 0 0).isOk = true)
    (live : ((afterCreate s).table firstSlot).live) :
    Run (Guarded TouchesUser (MemStep sampleImage)) s [.create 0 0, .setCurrent firstSlot]
      (processSetCurrent (afterCreate s) firstSlot) :=
  .cons ⟨touchesUser_create, afterCreate_step returns⟩
    (.cons ⟨touchesUser_setCurrent, live, rfl⟩ (.nil _))

/-- Two processes, the directory of the second loaded. -/
theorem secondLoaded_run (returns : (processCreate sampleImage s 0 0).isOk = true)
    (again : (processCreate sampleImage (afterCreate s) 0 0).isOk = true)
    (live : ((afterCreate (afterCreate s)).table secondSlot).live) :
    Run (MemStep sampleImage) s [.create 0 0, .create 0 0, .setCurrent secondSlot]
      (processSetCurrent (afterCreate (afterCreate s)) secondSlot) :=
  .cons (afterCreate_step returns) (.cons (afterCreate_step again) (.cons ⟨live, rfl⟩ (.nil _)))

/-- States reached on a spaced heap. -/
theorem Booted.run_inv (booted : Booted image s) {ops : List MemOp} (run : Run (Guarded TouchesUser
    (MemStep image)) s ops s') (spaced : ∀ l, blockList s.paging.heap = some l → Spaced l) :
    ∃ l own, KernelInv True image s' l own :=
  Process.run_inv trivial run ((booted.inv fun _ => spaced).imp fun _ inv => ⟨_, inv⟩)

/-- Its first process, with its directory loaded. -/
def loadedKernel : Kernel := processSetCurrent (afterCreate steppedKernel) firstSlot

theorem loadedKernel_run : Run (Guarded TouchesUser (MemStep sampleImage)) steppedKernel
    [.create 0 0, .setCurrent firstSlot] loadedKernel := by
  obtain ⟨returns, live⟩ : (processCreate sampleImage steppedKernel 0 0).isOk = true ∧
      ((afterCreate steppedKernel).table firstSlot).live := by
    decide +kernel
  exact firstLoaded_run returns live

theorem steppedKernel_spaced {l : List Segment} (found : blockList steppedKernel.paging.heap = some l) :
    Spaced l := by
  have blocks : l = (blockList steppedKernel.paging.heap).getD [] := by
    rw [found]
    rfl
  rw [blocks, Spaced]
  decide +kernel

theorem loadedKernel_inv : ∃ l own, KernelInv True sampleImage loadedKernel l own :=
  steppedKernel_booted.run_inv loadedKernel_run fun _ => steppedKernel_spaced

/-- A page with no entry translates to 0 at all its addresses. -/
theorem translate_of_pageWord {m : Memory} {dir w : Nat} (none : pageWord m dir v = 0)
    (same : w / pageSize = v / pageSize) : translate m dir w = 0 := by
  obtain ⟨row, column⟩ := page_eq_iff.mp same
  have word : pageWord m dir w = pageWord m dir v := by rw [pageWord, pageWord, row, column]
  rw [translate_eq, word, none, if_neg (by decide)]

/-- What a process gets that maps the page behind its stack. -/
def behindStack (s : Kernel) : Outcome (Kernel × Nat) :=
  processMmap s (some firstSlot) 0x10001000 pageSize (protRead ||| protWrite)
    (mapPrivate ||| mapAnonymous)

/-- The state after it. -/
def stackGrown (s : Kernel) : Kernel × Nat := (behindStack s).getD (s, 0)

theorem behindStack_done {s : Kernel} (returns : (behindStack s).isOk = true)
    (address : (stackGrown s).2 = 0x10001000) :
    behindStack s = .ok ((stackGrown s).1, 0x10001000) := Outcome.eq_ok_getD_pair returns address

/-- The page behind the stack is not mapped. -/
theorem behindStack_unmapped {s : Kernel}
    (none : pageWord s.paging.mem (s.table firstSlot).pageDirectory 0x10001000 = 0) :
    ∀ w < 2 ^ 32, InPages (mmapVirt (s.table firstSlot) 0x10001000) (pagesNeeded pageSize) w →
      translate s.paging.mem (s.table firstSlot).pageDirectory w = 0 := by
  rintro w - ⟨k, less, same⟩
  obtain rfl : k = 0 := by
    simp only [pagesNeeded, pageSize] at less
    omega
  exact translate_of_pageWord none same

theorem munmap_undoes_mmap_loaded :
    behindStack loadedKernel = .ok ((stackGrown loadedKernel).1, 0x10001000) ∧
    ∃ s'' result, processMunmap (stackGrown loadedKernel).1 (some firstSlot) 0x10001000 pageSize =
      .ok (s'', result) ∧ SameTranslations loadedKernel s'' := by
  obtain ⟨l, own, inv⟩ := loadedKernel_inv
  obtain ⟨live, loaded, above, unmapped, grows, address⟩ : (loadedKernel.table firstSlot).live ∧
      (loadedKernel.table firstSlot).pageDirectory = loadedKernel.paging.current ∧
      kernelEnd ≤ pageVirt (mmapVirt (loadedKernel.table firstSlot) 0x10001000) 0 ∧
      pageWord loadedKernel.paging.mem (loadedKernel.table firstSlot).pageDirectory 0x10001000 = 0 ∧
      (behindStack loadedKernel).isOk = true ∧ (stackGrown loadedKernel).2 = 0x10001000 := by
    decide +kernel
  have done : behindStack loadedKernel = .ok ((stackGrown loadedKernel).1, 0x10001000) :=
    behindStack_done grows address
  have law := @munmap_undoes_mmap True sampleImage loadedKernel (stackGrown loadedKernel).1 own l firstSlot
    0x10001000 (mapPrivate ||| mapAnonymous) pageSize (protRead ||| protWrite) 0x10001000 inv live
    (fun k less => by
      obtain rfl : k = 0 := by
        simp only [pagesNeeded, pageSize] at less
        omega
      exact above)
    (behindStack_unmapped unmapped) done (by decide)
  have blocks : l = (blockList loadedKernel.paging.heap).getD [] := by
    rw [inv.layout.heap.blockList_eq]
    rfl
  obtain ⟨freeable, clear⟩ := law.2 loaded (by
    rw [blocks]
    decide +kernel)
  exact ⟨done, (law.1 clear).mpr (.inr ⟨loaded, freeable⟩)⟩

/-- The call that takes the page back. -/
def stackUnmapped (s : Kernel) : Outcome (Kernel × Int) :=
  processMunmap (stackGrown s).1 (some firstSlot) 0x10001000 pageSize

/-- A kernel with two processes, the directory of the second one loaded. -/
def secondLoaded : Kernel := processSetCurrent (afterCreate (afterCreate freshKernel)) secondSlot

/-- **Unmapped from the wrong directory**: the first process maps a page, and `process_munmap` returns 0
for the same page, which stays mapped. -/
theorem munmap_leaves_page : Booted sampleImage freshKernel ∧
    Run (MemStep sampleImage) freshKernel [.create 0 0, .create 0 0, .setCurrent secondSlot] secondLoaded ∧
    (secondLoaded.table firstSlot).live ∧ (secondLoaded.table secondSlot).live ∧
    (∀ w < 2 ^ 32, InPages (mmapVirt (secondLoaded.table firstSlot) 0x10001000) (pagesNeeded pageSize) w →
      translate secondLoaded.paging.mem (secondLoaded.table firstSlot).pageDirectory w = 0) ∧
    behindStack secondLoaded = .ok ((stackGrown secondLoaded).1, 0x10001000) ∧
    ∃ s'', processMunmap (stackGrown secondLoaded).1 (some firstSlot) 0x10001000 pageSize = .ok (s'', 0) ∧
      ¬ SameTranslations secondLoaded s'' := by
  obtain ⟨returns, again, opened⟩ : (processCreate sampleImage freshKernel 0 0).isOk = true ∧
      (processCreate sampleImage (afterCreate freshKernel) 0 0).isOk = true ∧
      ((afterCreate (afterCreate freshKernel)).table secondSlot).live := by
    decide +kernel
  obtain ⟨live, second, unmapped, grows, address⟩ : (secondLoaded.table firstSlot).live ∧
      (secondLoaded.table secondSlot).live ∧
      pageWord secondLoaded.paging.mem (secondLoaded.table firstSlot).pageDirectory 0x10001000 = 0 ∧
      (behindStack secondLoaded).isOk = true ∧ (stackGrown secondLoaded).2 = 0x10001000 := by
    decide +kernel
  obtain ⟨unmaps, zero, stays⟩ : (stackUnmapped secondLoaded).isOk = true ∧
      ((stackUnmapped secondLoaded).getD (freshKernel, -1)).2 = 0 ∧
      translate ((stackUnmapped secondLoaded).getD (freshKernel, -1)).1.paging.mem
          (((stackUnmapped secondLoaded).getD (freshKernel, -1)).1.table firstSlot).pageDirectory 0x10001000 ≠
        translate secondLoaded.paging.mem (secondLoaded.table firstSlot).pageDirectory 0x10001000 := by
    decide +kernel
  have done : stackUnmapped secondLoaded =
      .ok (((stackUnmapped secondLoaded).getD (freshKernel, -1)).1, 0) :=
    Outcome.eq_ok_getD_pair unmaps zero
  refine ⟨freshKernel_booted, secondLoaded_run returns again opened, live, second,
    behindStack_unmapped unmapped, behindStack_done grows address, _, done, fun same => stays ?_⟩
  exact same firstSlot live 0x10001000 (by decide)

end Undone

end Kfs.Process
