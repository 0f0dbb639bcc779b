/-
**What a failed `process_mmap` leaves behind.**

When a page cannot be had, the pages mapped so far are looked up in the directory that is loaded, freed
there and unmapped there. Nothing is left of the call if it failed at its first page, or the directory of the
process is loaded, the range has all its tables and nothing mapped, and first fit puts its pages at page
boundaries: `mmap_fails_clean`. Otherwise a block stays in use, a mapping that was replaced is gone, or `kfree`
panics, unless it writes into the header of a block 20 bytes below a frame.
-/

import Kfs.Process.Undone

namespace Kfs.Process

open Kfs.Heap Kfs.Paging Memory

/-- The addresses in use in a heap. -/
def liveBlocks (h : HeapState) : Option (Multiset Nat) := (blockList h).map inUse

/-- A call without effect: on the translations of all directories, on the heap of the process, and on the
live allocations. -/
structure Untouched (image : KernelImage) (s s' : Kernel) (i : Slot) : Prop where
  translations : SameTranslations s s'
  kernel : ∀ w < 2 ^ 32,
    translate s'.paging.mem image.directory w = translate s.paging.mem image.directory w
  heapEnd : (s'.table i).heapEnd = (s.table i).heapEnd
  blocks : liveBlocks s'.paging.heap = liveBlocks s.paging.heap

/-- `process_mmap` has mapped `n` pages when the heap has no room for the next. -/
structure FailsAt (s : Kernel) (i : Slot) (addr length prot flags n : Nat) : Prop where
  asked : length ≠ 0
  inside : n < pagesNeeded length
  full : ∃ p h, forLoop (mmapPage (s.table i).pageDirectory (mmapVirt (s.table i) addr) (mmapFlags prot)
    flags) 0 n s.paging = .ok (.next p) ∧ kmalloc p.heap pageSize = .ok (h, 0)

/-- The pages of a range can be taken back: they will be looked up where they were mapped, no table is
needed for them, they start at page boundaries, and they replace none. -/
structure RollsBack (s : Kernel) (l : List Segment) (d virt n : Nat) : Prop where
  loaded : d = s.paging.current
  tables : .entries ∉ mapRequests s.paging.mem d virt n
  starts : ∀ ptr ∈ userPages l (mapRequests s.paging.mem d virt n), pageSize ∣ ptr
  unmapped : ∀ w < 2 ^ 32, InPages virt n w → translate s.paging.mem d w = 0

section Rollback

variable {grid : Prop} {image : KernelImage} {s s' : Kernel} {own own' own'' : Owner → Option Nat}
  {l l' l'' : List Segment} {given : List Nat} {p q r : PagingState} {i j : Slot}
  {addr d flags length n prot virt x : Nat}

/-- **The call that fails** is the cleanup of what it mapped. -/
theorem FailsAt.call (fails : FailsAt s i addr length prot flags n)
    (heaps : ∀ p, forLoop (mmapPage (s.table i).pageDirectory (mmapVirt (s.table i) addr) (mmapFlags prot)
      flags) 0 n s.paging = .ok (.next p) → ∃ l, HeapInv p.heap l) :
    ∃ p, forLoop (mmapPage (s.table i).pageDirectory (mmapVirt (s.table i) addr) (mmapFlags prot) flags)
        0 n s.paging = .ok (.next p) ∧
      processMmap s (some i) addr length prot flags = (do
        match ← forLoop (mmapCleanup (mmapVirt (s.table i) addr)) 0 n p with
        | .next q => return (s.withPaging q, mapFailed)
        | .exit q => return (s.withPaging q, mapFailed)) := by
  obtain ⟨asked, inside, p, h, loop, full⟩ := fails
  refine ⟨p, loop, ?_⟩
  obtain ⟨l, heap⟩ := heaps p loop
  obtain ⟨rfl, -⟩ := (kmalloc_null heap (by decide)).mp full
  obtain ⟨more, count⟩ := Nat.exists_eq_add_of_lt inside
  have round : mmapPage (s.table i).pageDirectory (mmapVirt (s.table i) addr) (mmapFlags prot) flags n p =
      (do match ← forLoop (mmapCleanup (mmapVirt (s.table i) addr)) 0 n p with
          | .next q => return .exit q
          | .exit q => return .exit q) := by
    rw [mmapPage, full]
    rfl
  unfold processMmap
  simp only [if_neg asked]
  rw [show (if prot &&& protWrite ≠ 0 then pageUser ||| pageWrite else pageUser) = mmapFlags prot by rfl,
    count, Nat.add_assoc, forLoop_add loop, Nat.zero_add, Nat.add_comm more, Nat.add_comm 1, forLoop, round]
  cases forLoop (mmapCleanup (mmapVirt (s.table i) addr)) 0 n p with
  | ok round => cases round <;> rfl
  | panic message => rfl
  | diverge => rfl

/-- A range with nothing mapped lies above the kernel's part. -/
theorem aboveKernel_of_unmapped (inv : KernelInv grid image s l own) (live : (s.table i).live)
    (aligned : pageSize ∣ virt)
    (unmapped : ∀ w < 2 ^ 32, InPages virt n w → translate s.paging.mem (s.table i).pageDirectory w = 0) :
    AboveKernel virt n := by
  intro k less
  by_contra low
  have whole : pageSize ∣ pageVirt virt k := dvd_pageVirt aligned
  have inside : pageVirt virt k + 1 < kernelEnd := by
    simp only [kernelEnd, pageSize] at *
    omega
  obtain ⟨here, found, same, -⟩ := (inv.identityMapped _ inside).2 i live
  have none := unmapped (pageVirt virt k + 1) (lt_trans inside (by decide)) ⟨k, less, by
    simp only [pageSize] at *
    omega⟩
  rw [Paging.translate, if_pos here, if_pos found, Nat.or_eq_zero_iff] at none
  omega

/-- A page that the call has mapped is no page of another directory. -/
theorem Lent.foreign (lent : Lent image own d virt l p n q l' given) (layout : Layout grid image q l' own' ∅)
    (owned : own' (.directory d) = some x) (aligned : pageSize ∣ virt) (above : AboveKernel virt n)
    (other : d ≠ q.current) {ptr k : Nat} (found : given[k]? = some ptr) :
    ∀ i j, own' (.page q.current i j) ≠ some ptr := by
  intro i j mine
  have less : k < n := by
    rw [← lent.length]
    exact (List.getElem?_eq_some_iff.mp found).1
  have same := lent.inside k ptr found
  have holds := lent.held ptr (List.mem_of_getElem? found)
  obtain ⟨y, z, -, page, phys⟩ := layout.pageOf owned (userIndex_of (above k less) pageVirt_lt)
    (dvd_pageVirt aligned) (by rw [same]; exact frame_ne_zero layout.heap holds)
  have equal := holds_near layout.heap (layout.held _ z page) holds (.inr (phys.symm.trans same))
  have owner := layout.inj _ _ _ page (equal ▸ mine)
  rw [Owner.page.injEq] at owner
  exact other owner.1

theorem mem_mapRequests {m : Memory} {r : Request} (member : r ∈ mapRequests m d virt n) :
    r = .page ∨ r = .entries := by
  obtain ⟨k, -, here⟩ := List.mem_flatMap.mp member
  rcases List.mem_cons.mp here with page | table
  · exact .inl page
  · split at table
    · cases table
    · exact .inr (List.mem_singleton.mp table)

/-- No table is asked for if and only if nothing but pages is. -/
theorem no_tables {m : Memory} : .entries ∉ mapRequests m d virt n ↔
    ((mapRequests m d virt n).filter (· ≠ .page)).length = 0 := by
  rw [List.length_eq_zero_iff, List.filter_eq_nil_iff]
  constructor
  · intro none r member
    rcases mem_mapRequests member with page | table
    · simp [page]
    · exact absurd (table ▸ member) none
  · intro all member
    exact absurd (all _ member) (by decide)

/-- The frames of pages that start at page boundaries, under the directory they were mapped in. -/
theorem Lent.frames_eq (lent : Lent image own d virt l p n q l' given) (loaded : q.current = d)
    (starts : ∀ ptr ∈ given, pageSize ∣ ptr) : frames q virt n = given := by
  refine List.ext_getElem? fun k => ?_
  by_cases less : k < n
  · have inside : k < given.length := by
      rw [lent.length]
      exact less
    have here := List.getElem?_eq_getElem inside
    rw [frames, List.getElem?_map, List.getElem?_range less, Option.map_some, here,
      physicalAddress_translate, loaded, lent.inside k _ here,
      frame_of_dvd (starts _ (List.getElem_mem inside))]
  · rw [List.getElem?_eq_none (by simp [frames]; omega),
      List.getElem?_eq_none (by rw [lent.length]; omega)]

/-- **After the cleanup** of pages that could be taken back, or of none, everything is as it was. -/
theorem Lent.taken_back (lent : Lent image own d virt l p n q l' given)
    (cleared : Cleared grid image own' virt l' q n r l'' own'')
    (dirs : SameDirs own own') (loaded : n ≠ 0 → q.current = d)
    (tables : .entries ∉ mapRequests p.mem d virt n) (starts : ∀ ptr ∈ given, pageSize ∣ ptr)
    (unmapped : ∀ w < 2 ^ 32, InPages virt n w → translate p.mem d w = 0) :
    inUse l'' = inUse l ∧ ∀ e, IsDirectory image own e → ∀ w < 2 ^ 32,
      translate r.mem e w = translate p.mem e w := by
  refine ⟨?_, fun e directory w small => ?_⟩
  · obtain ⟨others, taken, count⟩ := lent.served.takes
    rw [no_tables.mp tables, Multiset.card_eq_zero] at count
    rw [count, add_zero] at taken
    by_cases none : n = 0
    · subst none
      have gives := cleared.gives fun k less => absurd less (Nat.not_lt_zero k)
      rw [List.eq_nil_of_length_eq_zero lent.length] at taken
      rw [taken] at gives
      simpa [frames] using gives.symm
    · have same := lent.frames_eq (loaded none) starts
      have gives := cleared.gives fun k less => by
        have inside : k < given.length := by
          rw [lent.length]
          exact less
        have here := List.getElem?_eq_getElem inside
        rw [physicalAddress_translate, loaded none, lent.inside k _ here,
          frame_of_dvd (starts _ (List.getElem_mem inside))]
        exact lent.held _ (List.getElem_mem inside)
      rw [same, taken] at gives
      exact (add_left_cancel gives).symm
  · rw [cleared.view e (directory.congr dirs) w small]
    split
    · rename_i here
      have some : n ≠ 0 := by
        rintro rfl
        exact not_inPages_zero here.2
      rw [here.1, loaded some, unmapped w small here.2]
    · rename_i outside
      refine lent.outside e directory w small fun both => outside ⟨?_, both.2⟩
      have some : n ≠ 0 := by
        rintro rfl
        exact not_inPages_zero both.2
      rw [both.1, loaded some]

/-- **After a cleanup that left nothing behind**, the pages could be taken back, or there were none. -/
theorem Lent.could_take_back (lent : Lent image own d virt l p n q l' given) (layout : Layout grid image q l' own' ∅)
    (cleared : Cleared grid image own' virt l' q n r l'' own'')
    (owned : own' (.directory d) = some x) (aligned : pageSize ∣ virt) (above : AboveKernel virt n)
    (blocks : inUse l'' = inUse l)
    (same : ∀ w < 2 ^ 32, translate r.mem d w = translate p.mem d w) (some : n ≠ 0) :
    q.current = d ∧ .entries ∉ mapRequests p.mem d virt n ∧ (∀ ptr ∈ given, pageSize ∣ ptr) ∧
      ∀ w < 2 ^ 32, InPages virt n w → translate p.mem d w = 0 := by
  have nodup := inUse_nodup layout.heap.tiles
  -- a page that stays in use was not in use before
  have gone : ∀ ptr ∈ given, pageSize ∣ ptr ∧ ∃ i j, own' (.page q.current i j) = Option.some ptr := by
    intro ptr member
    by_contra other
    have stays := cleared.stays ptr (lent.held ptr member) fun start i j mine => other ⟨start, i, j, mine⟩
    obtain ⟨b, inside, used, here, -⟩ := stays
    refine lent.served.fresh nodup member ?_
    rw [← blocks]
    exact mem_inUse.mpr ⟨b, inside, used, here⟩
  have loaded : q.current = d := by
    by_contra other
    have inside : 0 < given.length := by
      rw [lent.length]
      exact Nat.pos_of_ne_zero some
    obtain ⟨-, i, j, mine⟩ := gone _ (List.getElem_mem inside)
    exact lent.foreign layout owned aligned above (Ne.symm other) (List.getElem?_eq_getElem inside) i j mine
  refine ⟨loaded, no_tables.mpr ?_, fun ptr member => (gone ptr member).1, fun w small inside => ?_⟩
  · obtain ⟨others, taken, count⟩ := lent.served.takes
    have most := cleared.count
    rw [blocks, taken, Multiset.card_add, Multiset.card_add, Multiset.coe_card, lent.length, count] at most
    omega
  · rw [← same w small, cleared.view d (.inr ⟨x, owned⟩) w small, if_pos ⟨loaded.symm, inside⟩]

/-- **The call that fails**, with the pages it had mapped. -/
theorem FailsAt.lent (fails : FailsAt s i addr length prot flags n) (inv : KernelInv grid image s l own)
    (live : (s.table i).live) (above : AboveKernel (mmapVirt (s.table i) addr) n) :
    ∃ p l' own' given,
      forLoop (mmapPage (s.table i).pageDirectory (mmapVirt (s.table i) addr) (mmapFlags prot) flags) 0 n
        s.paging = .ok (.next p) ∧
      processMmap s (some i) addr length prot flags = (do
        match ← forLoop (mmapCleanup (mmapVirt (s.table i) addr)) 0 n p with
        | .next q => return (s.withPaging q, mapFailed)
        | .exit q => return (s.withPaging q, mapFailed)) ∧
      Mapping grid image own s.paging.current (s.table i).pageDirectory (mmapVirt (s.table i) addr) l s.paging n
        p l' own' ∧
      Lent image own (s.table i).pageDirectory (mmapVirt (s.table i) addr) l s.paging n p l' given := by
  have few : n ≤ 2 ^ 20 := (Nat.le_of_lt fails.inside).trans (Nat.le_of_lt pagesNeeded_lt)
  obtain ⟨x, owned⟩ := inv.directories i live
  have mapped := fun p => @mmapPages_lent grid image own l s.paging p (s.table i).pageDirectory flags n
    (mmapFlags prot) (mmapVirt (s.table i) addr) x inv.layout inv.known owned (dvd_mmapVirt inv) mmapFlags_lt
    above few
  obtain ⟨p, loop, call⟩ := fails.call fun p loop => by
    obtain ⟨l', own', -, mapping, -⟩ := mapped p loop
    exact ⟨l', mapping.layout.heap⟩
  obtain ⟨l', own', given, mapping, lent⟩ := mapped p loop
  exact ⟨p, l', own', given, loop, call, mapping, lent⟩

/-- Live blocks, by the block lists. -/
theorem liveBlocks_eq_iff {h h' : HeapState} (heap : HeapInv h l) (heap' : HeapInv h' l') :
    liveBlocks h' = liveBlocks h ↔ inUse l' = inUse l := by
  rw [liveBlocks, liveBlocks, heap'.blockList_eq, heap.blockList_eq, Option.map_some, Option.map_some,
    Option.some.injEq]

/-- **A call that can take its pages back** leaves nothing behind, and neither does one that mapped none. -/
theorem FailsAt.takes_back (fails : FailsAt s i addr length prot flags n) (inv : KernelInv grid image s l own)
    (live : (s.table i).live)
    (condition : n = 0 ∨ RollsBack s l (s.table i).pageDirectory (mmapVirt (s.table i) addr) n) :
    ∃ s', processMmap s (some i) addr length prot flags = .ok (s', mapFailed) ∧ Untouched image s s' i := by
  have aligned : pageSize ∣ mmapVirt (s.table i) addr := dvd_mmapVirt inv
  have few : n ≤ 2 ^ 20 := (Nat.le_of_lt fails.inside).trans (Nat.le_of_lt pagesNeeded_lt)
  have above : AboveKernel (mmapVirt (s.table i) addr) n := by
    rcases condition with rfl | rollsBack
    · exact fun k less => absurd less (Nat.not_lt_zero k)
    · exact aboveKernel_of_unmapped inv live aligned rollsBack.unmapped
  obtain ⟨p, l', own', given, -, call, mapping, lent⟩ := fails.lent inv live above
  obtain ⟨freeable, clear⟩ : Freeable p (mmapVirt (s.table i) addr) n ∧
      ClearBelow p (mmapVirt (s.table i) addr) n := by
    rcases condition with rfl | rollsBack
    · exact ⟨fun k less => absurd less (Nat.not_lt_zero k), fun k less => absurd less (Nat.not_lt_zero k)⟩
    · have loaded := mapping.current.trans rollsBack.loaded.symm
      exact ⟨lent.freeable mapping.layout loaded rollsBack.starts,
        lent.clearBelow mapping.layout loaded rollsBack.starts⟩
  obtain ⟨loaded, tables, starts, unmapped⟩ : (n ≠ 0 → p.current = (s.table i).pageDirectory) ∧
      .entries ∉ mapRequests s.paging.mem (s.table i).pageDirectory (mmapVirt (s.table i) addr) n ∧
      (∀ ptr ∈ given, pageSize ∣ ptr) ∧ ∀ w < 2 ^ 32, InPages (mmapVirt (s.table i) addr) n w →
        translate s.paging.mem (s.table i).pageDirectory w = 0 := by
    rcases condition with rfl | rollsBack
    · have empty := List.eq_nil_of_length_eq_zero lent.length
      exact ⟨fun some => absurd rfl some, by simp [mapRequests], by simp [empty],
        fun w _ inside => absurd inside not_inPages_zero⟩
    · exact ⟨fun _ => mapping.current.trans rollsBack.loaded.symm, rollsBack.tables,
        lent.served.listed ▸ rollsBack.starts, rollsBack.unmapped⟩
  have current : CurrentOwned image p own' := currentOwned_of inv.known mapping.dirs mapping.current
  obtain ⟨-, q, ran, l'', own'', cleared⟩ :=
    (mmapCleanups_cleared mapping.layout current aligned few above clear).resolve_right
      fun refused => refused.1 freeable
  rw [call, ran]
  obtain ⟨blocks, same⟩ := lent.taken_back cleared mapping.dirs loaded tables starts unmapped
  exact ⟨_, rfl, fun j here w small => same _ (inv.isDirectory here) w small,
    fun w small => same _ (.inl rfl) w small, rfl,
    (liveBlocks_eq_iff inv.layout.heap cleared.layout.heap).mpr blocks⟩

/-- No block is 20 bytes below a frame that the cleanup of a failed call frees. -/
def ClearAfter (s : Kernel) (i : Slot) (addr prot flags n : Nat) : Prop :=
  ∀ p, forLoop (mmapPage (s.table i).pageDirectory (mmapVirt (s.table i) addr) (mmapFlags prot) flags) 0 n
    s.paging = .ok (.next p) → ClearBelow p (mmapVirt (s.table i) addr) n

/-- **A call that left nothing behind** mapped no page, or could take its pages back. -/
theorem FailsAt.took_back (fails : FailsAt s i addr length prot flags n) (inv : KernelInv grid image s l own)
    (live : (s.table i).live) (above : AboveKernel (mmapVirt (s.table i) addr) n)
    (clear : ClearAfter s i addr prot flags n)
    (returned : processMmap s (some i) addr length prot flags = .ok (s', mapFailed))
    (untouched : Untouched image s s' i) :
    n = 0 ∨ RollsBack s l (s.table i).pageDirectory (mmapVirt (s.table i) addr) n := by
  have aligned : pageSize ∣ mmapVirt (s.table i) addr := dvd_mmapVirt inv
  have few : n ≤ 2 ^ 20 := (Nat.le_of_lt fails.inside).trans (Nat.le_of_lt pagesNeeded_lt)
  obtain ⟨p, l', own', given, loop, call, mapping, lent⟩ := fails.lent inv live above
  have current : CurrentOwned image p own' := currentOwned_of inv.known mapping.dirs mapping.current
  rw [call] at returned
  rcases mmapCleanups_cleared mapping.layout current aligned few above (clear p loop) with
    ⟨-, q, ran, l'', own'', cleared⟩ | ⟨-, ran⟩
  · rw [ran] at returned
    cases returned
    by_cases none : n = 0
    · exact .inl none
    · obtain ⟨x, owned⟩ := inv.directories i live
      have blocks := (liveBlocks_eq_iff inv.layout.heap cleared.layout.heap).mp untouched.blocks
      obtain ⟨loaded, tables, starts, unmapped⟩ := lent.could_take_back mapping.layout
        cleared ((mapping.dirs _).trans owned) aligned above blocks (untouched.translations i live) none
      refine .inr ⟨loaded.symm.trans mapping.current, tables, ?_, unmapped⟩
      rwa [lent.served.listed]
  · rw [ran] at returned
    cases returned

/-- **A failed `process_mmap` has no effect** if it failed at its first page, or could take back what it had
mapped; and only then, if its pages lie above the kernel's part and no block is 20 bytes below a frame it
frees. -/
theorem mmap_fails_clean (inv : KernelInv grid image s l own) (live : (s.table i).live)
    (fails : FailsAt s i addr length prot flags n) :
    (n = 0 ∨ RollsBack s l (s.table i).pageDirectory (mmapVirt (s.table i) addr) n →
      ∃ s', processMmap s (some i) addr length prot flags = .ok (s', mapFailed) ∧ Untouched image s s' i) ∧
    (AboveKernel (mmapVirt (s.table i) addr) n → ClearAfter s i addr prot flags n →
      (∃ s', processMmap s (some i) addr length prot flags = .ok (s', mapFailed) ∧
        Untouched image s s' i) →
      n = 0 ∨ RollsBack s l (s.table i).pageDirectory (mmapVirt (s.table i) addr) n) :=
  ⟨fails.takes_back inv live, fun above clear ⟨_, returned, untouched⟩ =>
    fails.took_back inv live above clear returned untouched⟩

/-! ### A heap with room for one page -/

/-- The failing round, computed. -/
def roundFails (s : Kernel) (i : Slot) (addr prot flags n : Nat) : Bool :=
  match forLoop (mmapPage (s.table i).pageDirectory (mmapVirt (s.table i) addr) (mmapFlags prot) flags) 0 n
      s.paging with
  | .ok (.next p) => match kmalloc p.heap pageSize with
      | .ok (_, ptr) => ptr == 0
      | _ => false
  | _ => false

theorem FailsAt.of_eval (asked : length ≠ 0) (inside : n < pagesNeeded length)
    (eval : roundFails s i addr prot flags n = true) : FailsAt s i addr length prot flags n := by
  refine ⟨asked, inside, ?_⟩
  unfold roundFails at eval
  split at eval
  · rename_i p loop
    split at eval
    · rename_i h ptr taken
      rw [beq_iff_eq.mp eval] at taken
      exact ⟨p, h, loop, taken⟩
    · cases eval
  · cases eval

/-- A kernel the rest of which has taken the heap, and given back one block of this size. -/
def scarceKernel (room rest : Nat) : Kernel :=
  processInit sampleImage ((runAll HeapOp.exec (Client.init (pagingInit sampleImage fun _ => 0))
    [.malloc 4000, .malloc room, .malloc rest, .free 0x500FC0]).getD (Client.init fun _ => 0)).heap

theorem scarceKernel_booted {room rest : Nat}
    (returns : (runAll HeapOp.exec (Client.init (pagingInit sampleImage fun _ => 0))
      [.malloc 4000, .malloc room, .malloc rest, .free 0x500FC0]).isOk = true) :
    Booted sampleImage (scarceKernel room rest) :=
  ⟨fun _ => 0, _, _, (Run.of_runAll (Outcome.eq_ok_getD returns _)).mono fun _ _ _ => HeapStep.of_exec, rfl⟩

/-- What a process gets that asks for the two pages behind its stack. -/
def twoPages (s : Kernel) : Outcome (Kernel × Nat) :=
  processMmap s (some firstSlot) 0x10001000 (2 * pageSize) (protRead ||| protWrite)
    (mapPrivate ||| mapAnonymous)

/-- With room for a process and one more page, which starts at a page boundary. -/
def oneMore : Kernel := processSetCurrent (afterCreate (scarceKernel 28736 1015792)) firstSlot

theorem oneMore_run : Run (Guarded TouchesUser (MemStep sampleImage)) (scarceKernel 28736 1015792)
    [.create 0 0, .setCurrent firstSlot] oneMore := by
  obtain ⟨returns, live⟩ : (processCreate sampleImage (scarceKernel 28736 1015792) 0 0).isOk = true ∧
      ((afterCreate (scarceKernel 28736 1015792)).table firstSlot).live := by
    decide +kernel
  exact firstLoaded_run returns live

theorem oneMore_inv : ∃ l own, KernelInv True sampleImage oneMore l own := by
  refine (scarceKernel_booted (by decide +kernel)).run_inv oneMore_run fun l found => ?_
  have blocks : l = (blockList (scarceKernel 28736 1015792).paging.heap).getD [] := by
    rw [found]
    rfl
  rw [blocks, Spaced]
  decide +kernel

theorem mmap_fails_clean_loaded :
    FailsAt oneMore firstSlot 0x10001000 (2 * pageSize) (protRead ||| protWrite)
      (mapPrivate ||| mapAnonymous) 1 ∧
    ∃ s', twoPages oneMore = .ok (s', mapFailed) ∧ Untouched sampleImage oneMore s' firstSlot := by
  obtain ⟨l, own, inv⟩ := oneMore_inv
  obtain ⟨live, loaded, tables, unmapped, second⟩ : (oneMore.table firstSlot).live ∧
      (oneMore.table firstSlot).pageDirectory = oneMore.paging.current ∧
      .entries ∉ mapRequests oneMore.paging.mem (oneMore.table firstSlot).pageDirectory
        (mmapVirt (oneMore.table firstSlot) 0x10001000) 1 ∧
      pageWord oneMore.paging.mem (oneMore.table firstSlot).pageDirectory 0x10001000 = 0 ∧
      roundFails oneMore firstSlot 0x10001000 (protRead ||| protWrite) (mapPrivate ||| mapAnonymous) 1 =
        true := by
    decide +kernel
  have fails : FailsAt oneMore firstSlot 0x10001000 (2 * pageSize) (protRead ||| protWrite)
      (mapPrivate ||| mapAnonymous) 1 := .of_eval (by decide) (by decide) second
  have blocks : l = (blockList oneMore.paging.heap).getD [] := by
    rw [inv.layout.heap.blockList_eq]
    rfl
  have rollsBack : RollsBack oneMore l (oneMore.table firstSlot).pageDirectory
      (mmapVirt (oneMore.table firstSlot) 0x10001000) 1 := by
    refine ⟨loaded, tables, ?_, behindStack_unmapped unmapped⟩
    rw [blocks]
    decide +kernel
  exact ⟨fails, (@mmap_fails_clean True sampleImage oneMore own l firstSlot 0x10001000
    (mapPrivate ||| mapAnonymous) (2 * pageSize) 1 (protRead ||| protWrite) inv live fails).1 (.inr rollsBack)⟩

/-- Room for two processes and one more page; the directory of the second process is loaded. -/
def otherLoaded : Kernel :=
  processSetCurrent (afterCreate (afterCreate (scarceKernel 53376 991152))) secondSlot

/-- **A page left behind**: the call for the first process fails at its second page, and returns -1 with
the first one mapped. -/
theorem mmap_fails_with_page : Booted sampleImage (scarceKernel 53376 991152) ∧
    Run (MemStep sampleImage) (scarceKernel 53376 991152)
      [.create 0 0, .create 0 0, .setCurrent secondSlot] otherLoaded ∧
    (otherLoaded.table firstSlot).live ∧
    FailsAt otherLoaded firstSlot 0x10001000 (2 * pageSize) (protRead ||| protWrite)
      (mapPrivate ||| mapAnonymous) 1 ∧
    ∃ s', twoPages otherLoaded = .ok (s', mapFailed) ∧ ¬ Untouched sampleImage otherLoaded s' firstSlot := by
  obtain ⟨returns, again, opened⟩ :
      (processCreate sampleImage (scarceKernel 53376 991152) 0 0).isOk = true ∧
      (processCreate sampleImage (afterCreate (scarceKernel 53376 991152)) 0 0).isOk = true ∧
      ((afterCreate (afterCreate (scarceKernel 53376 991152))).table secondSlot).live := by
    decide +kernel
  obtain ⟨live, second, maps, failed, stays⟩ : (otherLoaded.table firstSlot).live ∧
      roundFails otherLoaded firstSlot 0x10001000 (protRead ||| protWrite) (mapPrivate ||| mapAnonymous) 1 =
        true ∧ (twoPages otherLoaded).isOk = true ∧
      ((twoPages otherLoaded).getD (freshKernel, 0)).2 = mapFailed ∧
      translate ((twoPages otherLoaded).getD (freshKernel, 0)).1.paging.mem
          (((twoPages otherLoaded).getD (freshKernel, 0)).1.table firstSlot).pageDirectory 0x10001000 ≠
        translate otherLoaded.paging.mem (otherLoaded.table firstSlot).pageDirectory 0x10001000 := by
    decide +kernel
  exact ⟨scarceKernel_booted (by decide +kernel), secondLoaded_run returns again opened, live,
    .of_eval (by decide) (by decide) second, _, Outcome.eq_ok_getD_pair maps failed,
    fun untouched => stays (untouched.translations firstSlot live 0x10001000 (by decide))⟩

end Rollback

end Kfs.Process
