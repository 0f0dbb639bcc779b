/-
**The part of an address space in use.**

`process_mmap` without an address maps at `heap_end`, which is the only record of what is used:
`process_mmap` raises it to the end of what it maps and `process_brk` moves it. `Regions` says what it
promises: every page of the process lies below `heap_end` or is the page of the user stack, which
`process_create` maps at 256 MB without raising `heap_end`.

As long as ranges stay in the user's part and end below 4 GB, and pages are only unmapped while the
directory of the process is loaded (`paging_unmap_page` works on the loaded directory, whatever process
it is called for), the invariant holds in every state; the pages chosen by the kernel are then new if
and only if the stack page is not among them: `mmap_null_fresh`.
-/

import Kfs.Paging.Present
import Kfs.Process.Runs

namespace Kfs.Process

open Kfs.Heap Kfs.Paging Memory

section Pages

variable {grid : Prop} {image : KernelImage} {l l' : List Segment} {own own' : Owner → Option Nat}
  {current d flags i j n pageFlags virt w x : Nat} {made : List Made} {p q q' : PagingState}

theorem userIndex_of (above : kernelEnd ≤ virt) (small : virt < 2 ^ 32) : UserIndex virt :=
  dirIndex_bounds above small

/-! ### Mapping and unmapping pages -/

/-- One page of `process_mmap`. -/
theorem mmapPage_maps (layout : Layout grid image q l own ∅) (owned : own (.directory d) = some x)
    (small : pageFlags < pageSize) (low : UserIndex (pageVirt virt i))
    (done : mmapPage d virt pageFlags flags i q = .ok (.next q')) (user : UserIndex w) :
    (Maps q'.mem d w → w / pageSize = pageVirt virt i / pageSize ∨ Maps q.mem d w) ∧
      (Maps q.mem d w → Maps q'.mem d w) := by
  rcases mmapPage_cases layout done with
    ⟨_, left, -⟩ | ⟨ptr, l', q₁, _, next, -, holds, -, laid, -, -, entries, mapped⟩
  · cases left
  · cases next
    have bounds := holds.bounds laid.heap
    have same := layout.maps_congr owned user entries
    have below : ptr < 2 ^ 32 := by
      simp only [heapEnd, heapStart, heapSize] at bounds
      omega
    rw [← same]
    exact ⟨laid.mapPageInDirectory_maps owned low small mapped user,
      laid.mapPageInDirectory_keeps owned low small mapped user below⟩

/-- One page of `process_munmap`, in the loaded directory. -/
theorem munmapPage_maps (on : grid) (layout : Layout grid image q l own ∅)
    (owned : own (.directory q.current) = some x) (aligned : pageSize ∣ virt)
    (low : UserIndex (pageVirt virt i)) (done : munmapPage virt i q = .ok (.next q'))
    (user : UserIndex w) (maps : Maps q'.mem q.current w) :
    w / pageSize ≠ pageVirt virt i / pageSize ∧ Maps q.mem q.current w := by
  unfold munmapPage at done
  by_cases mapped : pagingGetPhysicalAddress q (pageVirt virt i) = 0
  · rw [if_neg (not_not.mpr mapped)] at done
    cases done
    refine ⟨fun same => ?_, maps⟩
    exact layout.physicalAddress_maps owned low ((Maps.congr_page same).mp maps) mapped
  · rw [if_pos mapped] at done
    obtain ⟨h, freed, rest⟩ := Outcome.bind_eq_ok.mp done
    cases rest
    have whole := dvd_pageVirt (i := i) aligned
    exact layout.freeMapped_maps owned low whole mapped
      (layout.unshadowed on (dvd_physicalAddress whole)) freed user maps

/-- One page of the cleanup of `process_mmap`, in the loaded directory. -/
theorem mmapCleanup_maps (on : grid) (layout : Layout grid image q l own ∅)
    (owned : own (.directory q.current) = some x) (aligned : pageSize ∣ virt)
    (low : UserIndex (pageVirt virt i)) (done : mmapCleanup virt i q = .ok (.next q'))
    (user : UserIndex w) (maps : Maps q'.mem q.current w) :
    w / pageSize ≠ pageVirt virt i / pageSize ∧ Maps q.mem q.current w := by
  unfold mmapCleanup at done
  by_cases mapped : pagingGetPhysicalAddress q (pageVirt virt i) = 0
  · rw [if_neg (not_not.mpr mapped)] at done
    cases done
    exact layout.unmapPage_maps owned low user maps
  · rw [if_pos mapped] at done
    obtain ⟨h, freed, rest⟩ := Outcome.bind_eq_ok.mp done
    cases rest
    have whole := dvd_pageVirt (i := i) aligned
    exact layout.freeMapped_maps owned low whole mapped
      (layout.unshadowed on (dvd_physicalAddress whole)) freed user maps

/-- A loop whose rounds unmap one page each, in the loaded directory. -/
theorem unmapLoop_maps {body : Nat → PagingState → Outcome (Round PagingState PagingState)}
    (steady : Steady grid image own d made q)
    (keeps : ∀ k q round, k < n → Steady grid image own d made q → body k q = .ok round →
      round.Ends (Steady grid image own d made) (Steady grid image own d made))
    (stays : ∀ k q q', body k q ≠ .ok (.exit q'))
    (unmaps : ∀ k q q', k < n → Steady grid image own d made q → body k q = .ok (.next q') →
      ∀ w, UserIndex w → Maps q'.mem d w → w / pageSize ≠ pageVirt virt k / pageSize ∧ Maps q.mem d w)
    {round : Round PagingState PagingState} (done : forLoop body 0 n q = .ok round) :
    ∃ q', round = .next q' ∧ Steady grid image own d made q' ∧ ∀ w, UserIndex w → Maps q'.mem d w →
      Maps q.mem d w ∧ ∀ k < n, w / pageSize ≠ pageVirt virt k / pageSize := by
  have invariant := @forLoop_inv _ _ body
    (fun j q' => Steady grid image own d made q' ∧ ∀ w, UserIndex w → Maps q'.mem d w →
      Maps q.mem d w ∧ ∀ k < j, w / pageSize ≠ pageVirt virt k / pageSize)
    (fun _ => False) 0 n q ⟨steady, fun w _ maps => ⟨maps, fun k less => absurd less (Nat.not_lt_zero k)⟩⟩
    (by
      rintro j q₁ round - inside ⟨here, before⟩ ran
      rw [Nat.zero_add] at inside
      cases round with
      | exit q₂ => exact stays j q₁ q₂ ran
      | next q₂ =>
          refine ⟨keeps j q₁ _ inside here ran, fun w user maps => ?_⟩
          obtain ⟨apart, old⟩ := unmaps j q₁ q₂ inside here ran w user maps
          obtain ⟨older, others⟩ := before w user old
          refine ⟨older, fun k less => ?_⟩
          rcases Nat.lt_succ_iff_lt_or_eq.mp less with earlier | rfl
          · exact others k earlier
          · exact apart) _ done
  cases round with
  | exit q' => exact absurd invariant id
  | next q' =>
      rw [Nat.zero_add] at invariant
      exact ⟨q', rfl, invariant.1, invariant.2⟩

theorem mmapCleanup_next : mmapCleanup virt i q ≠ .ok (.exit q') := by
  intro done
  unfold mmapCleanup at done
  simp only at done
  split at done
  · obtain ⟨h, _, rest⟩ := Outcome.bind_eq_ok.mp done
    cases rest
  · cases done

/-- The loop of `process_munmap`, in the loaded directory. -/
theorem munmapPages_maps (on : grid) (steady : Steady grid image own d made q) (owned : own (.directory d) = some x)
    (aligned : pageSize ∣ virt) (above : ∀ k < n, kernelEnd ≤ pageVirt virt k)
    {round : Round PagingState PagingState} (done : forLoop (munmapPage virt) 0 n q = .ok round) :
    ∃ q', round = .next q' ∧ Steady grid image own d made q' ∧ ∀ w, UserIndex w → Maps q'.mem d w →
      Maps q.mem d w ∧ ∀ k < n, w / pageSize ≠ pageVirt virt k / pageSize := by
  refine unmapLoop_maps steady (fun k q round less here ran => munmapPage_steady on (.inr ⟨x, owned⟩) aligned
    (.inl (above k less)) here ran) (fun _ _ _ => munmapPage_next) ?_ done
  rintro k q q' less ⟨l, own', layout, dirs, rfl, _⟩ ran w user maps
  exact munmapPage_maps on layout ((dirs _).trans owned) aligned (userIndex_of (above k less) pageVirt_lt)
    ran user maps

/-- The cleanup of `process_mmap`, in the loaded directory. -/
theorem mmapCleanups_maps (on : grid) (steady : Steady grid image own d made q) (owned : own (.directory d) = some x)
    (aligned : pageSize ∣ virt) (above : ∀ k < n, kernelEnd ≤ pageVirt virt k)
    {round : Round PagingState PagingState} (done : forLoop (mmapCleanup virt) 0 n q = .ok round) :
    ∃ q', round = .next q' ∧ Steady grid image own d made q' ∧ ∀ w, UserIndex w → Maps q'.mem d w →
      Maps q.mem d w ∧ ∀ k < n, w / pageSize ≠ pageVirt virt k / pageSize := by
  refine unmapLoop_maps steady (fun k q round less here ran => mmapCleanup_steady on (.inr ⟨x, owned⟩) aligned
    (above k less) here ran) (fun _ _ _ => mmapCleanup_next) ?_ done
  rintro k q q' less ⟨l, own', layout, dirs, rfl, _⟩ ran w user maps
  exact mmapCleanup_maps on layout ((dirs _).trans owned) aligned (userIndex_of (above k less) pageVirt_lt)
    ran user maps

/-! ### The loop of `process_mmap` -/

/-- The call either maps its first page or nothing, or has room for all, or unmaps from the directory it
mapped in. -/
def CanFinish (p : PagingState) (d virt n : Nat) : Prop :=
  d = p.current ∨ ∀ l, blockList p.heap = some l →
    place pageSize l = none ∨ Enough l (mapRequests p.mem d virt n)

/-- The first round that finds no room, when the directory is not loaded, is the first round of all. -/
theorem Mapping.fails_first (mapping : Mapping grid image own current d virt l p i q l' own')
    (inside : i < n) (full : place pageSize l' = none)
    (enough : place pageSize l = none ∨ Enough l (mapRequests p.mem d virt n)) : i = 0 := by
  obtain ⟨given, serves, -⟩ := mapping.served
  rcases enough with none | ⟨l₂, given₂, all⟩
  · by_contra later
    obtain ⟨first, asked⟩ := mapRequests_succ p.mem d virt 0
    obtain ⟨more, split⟩ := mapRequests_le p.mem d virt (Nat.one_le_iff_ne_zero.mpr later)
    rw [split, asked] at serves
    obtain ⟨ptr, l₁, _, placed, _⟩ := serves
    exact nomatch none.symm.trans placed
  · exfalso
    obtain ⟨first, asked⟩ := mapRequests_succ p.mem d virt i
    obtain ⟨rest, split⟩ := mapRequests_le p.mem d virt (Nat.succ_le_of_lt inside)
    rw [split, asked, List.append_assoc] at all
    obtain ⟨_, ptr, l₁, _, placed, _⟩ := all.rest serves
    exact nomatch full.symm.trans placed

/-- **The loop of `process_mmap`** maps the pages of its range, or nothing. -/
theorem mmapPages_maps (known : p.current = image.directory ∨ ∃ x, own (.directory p.current) = some x)
    (owned : own (.directory d) = some x) (aligned : pageSize ∣ virt) (small : pageFlags < pageSize)
    (above : ∀ j < n, kernelEnd ≤ pageVirt virt j) (layout : Layout grid image p l own ∅)
    (finish : CanFinish p d virt n) {round : Round PagingState PagingState}
    (done : forLoop (mmapPage d virt pageFlags flags) 0 n p = .ok round) :
    round.Ends (fun p' => ∀ w, UserIndex w →
        (Maps p'.mem d w → Maps p.mem d w ∨ ∃ k < n, w / pageSize = pageVirt virt k / pageSize) ∧
        (Maps p.mem d w → Maps p'.mem d w))
      (fun p' => grid → ∀ w, UserIndex w → Maps p'.mem d w → Maps p.mem d w) := by
  have invariant := @forLoop_inv _ _ (mmapPage d virt pageFlags flags)
    (fun i p' => (∃ l' own', Mapping grid image own p.current d virt l p i p' l' own') ∧
      ∀ w, UserIndex w →
        (Maps p'.mem d w → Maps p.mem d w ∨ ∃ k < i, w / pageSize = pageVirt virt k / pageSize) ∧
        (Maps p.mem d w → Maps p'.mem d w))
    (fun p' => grid → ∀ w, UserIndex w → Maps p'.mem d w → Maps p.mem d w) 0 n p
    ⟨⟨l, own, .start layout rfl⟩, fun w _ => ⟨.inl, id⟩⟩
    (by
      rintro i q round - inside ⟨⟨l', own', mapping⟩, before⟩ body
      rw [Nat.zero_add] at inside
      have step := mapping.step known owned aligned small (fun j le => above j (by omega)) body
      have owned' : own' (.directory d) = some x := (mapping.dirs d).trans owned
      cases round with
      | next q' =>
          refine ⟨step, fun w user => ?_⟩
          obtain ⟨new, old⟩ := mmapPage_maps mapping.layout owned' small
            (userIndex_of (above i inside) pageVirt_lt) body user
          refine ⟨fun maps => ?_, fun maps => old ((before w user).2 maps)⟩
          rcases new maps with here | there
          · exact .inr ⟨i, Nat.lt_succ_self i, here⟩
          · rcases (before w user).1 there with first | ⟨k, less, same⟩
            · exact .inl first
            · exact .inr ⟨k, Nat.lt_succ_of_lt less, same⟩
      | exit q' =>
          intro on w user maps
          obtain ⟨⟨h, ptr⟩, taken, rest⟩ := Outcome.bind_eq_ok.mp body
          simp only at rest
          by_cases null : ptr = 0
          · subst null
            rw [if_pos rfl] at rest
            obtain ⟨inner, loop, last⟩ := Outcome.bind_eq_ok.mp rest
            obtain ⟨rfl, unfit⟩ := (kmalloc_null mapping.layout.heap (by decide)).mp taken
            rcases finish with loaded | enough
            · have steady : Steady grid image own d q.made q :=
                ⟨l', own', mapping.layout, mapping.dirs, mapping.current.trans loaded.symm, rfl⟩
              obtain ⟨q₂, rfl, _, cleared⟩ := mmapCleanups_maps on steady owned aligned
                (fun k less => above k (by omega)) loop
              cases last
              obtain ⟨there, apart⟩ := cleared w user maps
              rcases (before w user).1 there with first | ⟨k, less, same⟩
              · exact first
              · exact absurd same (apart k less)
            · obtain rfl := mapping.fails_first inside (place_none unfit)
                (enough l layout.heap.blockList_eq)
              cases loop
              cases last
              rcases (before w user).1 maps with first | ⟨k, less, _⟩
              · exact first
              · exact absurd less (Nat.not_lt_zero k)
          · rw [if_neg null] at rest
            obtain ⟨q₂, _, last⟩ := Outcome.bind_eq_ok.mp rest
            cases last) _ done
  cases round with
  | next p' =>
      rw [Nat.zero_add] at invariant
      exact invariant.2
  | exit p' => exact invariant

end Pages

/-! ### The invariant -/

/-- The pages of a process lie below the end of its heap, but for that of the user stack. -/
structure Regions (s : Kernel) (i : Slot) : Prop where
  live : (s.table i).live
  low : kernelEnd ≤ (s.table i).heapEnd
  high : (s.table i).heapEnd < 2 ^ 32
  mapped : ∀ w, UserIndex w → Maps s.paging.mem (s.table i).pageDirectory w →
    w < (s.table i).heapEnd ∨ w / pageSize = userStackVirt / pageSize

/-- A range of pages in the user's part that ends below 4 GB. -/
def Inside (virt n : Nat) : Prop := kernelEnd ≤ virt ∧ virt + n * pageSize < 2 ^ 32

/-- The calls on one process that keep its record: ranges stay inside, and unmapping is done while the
directory of the process is loaded. Between them the processor may be given to any process. -/
def Orderly (i : Slot) (s : Kernel) : MemOp → Prop
  | .mmap proc addr length _ _ => proc = i ∧
      Inside (mmapVirt (s.table i) addr) (pagesNeeded length) ∧
      CanFinish s.paging (s.table i).pageDirectory (mmapVirt (s.table i) addr) (pagesNeeded length)
  | .brk proc addr => proc = i ∧ (addr ≠ 0 →
      (newBrk addr < (s.table i).heapEnd → kernelEnd ≤ newBrk addr ∧
        (s.table i).pageDirectory = s.paging.current) ∧
      ((s.table i).heapEnd < newBrk addr → CanFinish s.paging (s.table i).pageDirectory
        (s.table i).heapEnd (pagesNeeded (newBrk addr - (s.table i).heapEnd))))
  | .setCurrent _ => True
  | _ => False

section Calls

variable {grid : Prop} {image : KernelImage} {s s' : Kernel} {l : List Segment} {own : Owner → Option Nat}
  {addr flags length n prot result virt : Nat} {i j : Slot}

theorem Inside.pageVirt_eq (inside : Inside virt n) {k : Nat} (less : k < n) :
    pageVirt virt k = virt + k * pageSize := by
  have below := inside.2
  have pages : k * pageSize ≤ n * pageSize := Nat.mul_le_mul_right _ (Nat.le_of_lt less)
  rw [pageVirt, Nat.mod_eq_of_lt (by omega)]

theorem Inside.above (inside : Inside virt n) : AboveKernel virt n := by
  intro k less
  rw [inside.pageVirt_eq less]
  have := inside.1
  omega

/-- A page of a range lies below its end. -/
theorem Inside.lt_end (inside : Inside virt n) (aligned : pageSize ∣ virt) {k w : Nat} (less : k < n)
    (same : w / pageSize = pageVirt virt k / pageSize) : w < virt + n * pageSize := by
  rw [inside.pageVirt_eq less] at same
  simp only [pageSize] at *
  omega

/-- **`process_mmap`** keeps the record, and what it returns is where it mapped. -/
theorem Regions.mmap (regions : Regions s i) (inv : KernelInv grid image s l own)
    (on : result = mapFailed → grid)
    (inside : Inside (mmapVirt (s.table i) addr) (pagesNeeded length))
    (finish : CanFinish s.paging (s.table i).pageDirectory (mmapVirt (s.table i) addr)
      (pagesNeeded length))
    (done : processMmap s (some i) addr length prot flags = .ok (s', result)) :
    Regions s' i ∧ (result = mapFailed ∨ result = mmapVirt (s.table i) addr) := by
  obtain ⟨x, owned⟩ := inv.directories i regions.live
  have aligned : pageSize ∣ mmapVirt (s.table i) addr := dvd_mmapVirt inv
  have small : (if prot &&& protWrite ≠ 0 then pageUser ||| pageWrite else pageUser) < pageSize := by
    split <;> decide
  cases processMmap_way done with
  | nothing empty => exact ⟨regions, .inl rfl⟩
  | failed asked loop =>
      have ends := mmapPages_maps inv.known owned aligned small inside.above inv.layout finish loop
      exact ⟨⟨regions.live, regions.low, regions.high, fun w user maps =>
        regions.mapped w user (ends (on rfl) w user maps)⟩, .inl rfl⟩
  | @done p asked loop =>
      have ends := mmapPages_maps inv.known owned aligned small inside.above inv.layout finish loop
      have stop : mmapEnd (s.table i) addr length =
          mmapVirt (s.table i) addr + pagesNeeded length * pageSize := by
        have := inside.2
        rw [mmapEnd, Nat.mod_eq_of_lt (show pagesNeeded length * pageSize < 2 ^ 32 by omega),
          Nat.mod_eq_of_lt this]
      refine ⟨⟨?_, ?_, ?_, fun w user maps => ?_⟩, .inr rfl⟩
      · rw [Kernel.modify_self]
        exact regions.live
      · rw [Kernel.modify_self]
        exact regions.low.trans (le_max_left _ _)
      · rw [Kernel.modify_self, stop]
        exact max_lt regions.high inside.2
      · rw [Kernel.modify_self, Kernel.modify_paging] at maps
        rw [Kernel.modify_self, stop]
        rcases (ends w user).1 maps with old | ⟨k, less, same⟩
        · exact (regions.mapped w user old).imp_left fun below => lt_max_of_lt_left below
        · exact .inl (lt_max_of_lt_right (inside.lt_end aligned less same))

theorem newBrk_lt : newBrk addr < 2 ^ 32 := lt_of_le_of_lt frame_le (Nat.mod_lt _ (by decide))

theorem dvd_newBrk : pageSize ∣ newBrk addr := dvd_frame

/-- A whole number of pages. -/
theorem pagesNeeded_mul (whole : pageSize ∣ length) (small : length + pageSize ≤ 2 ^ 32) :
    pagesNeeded length * pageSize = length := by
  simp only [pagesNeeded, pageSize] at *
  omega

theorem mmapVirt_heapEnd (inv : KernelInv grid image s l own) (nonzero : (s.table i).heapEnd ≠ 0) :
    mmapVirt (s.table i) (s.table i).heapEnd = (s.table i).heapEnd := by
  rw [mmapVirt, if_pos nonzero, frame_of_dvd (inv.heapEnd i)]

/-- The range that `process_brk` maps. -/
theorem Regions.grown (regions : Regions s i) (inv : KernelInv grid image s l own)
    (grows : (s.table i).heapEnd < newBrk addr) :
    Inside (s.table i).heapEnd (pagesNeeded (newBrk addr - (s.table i).heapEnd)) := by
  refine ⟨regions.low, ?_⟩
  have top : newBrk addr < 2 ^ 32 := newBrk_lt
  have low := regions.low
  have whole : pageSize ∣ newBrk addr - (s.table i).heapEnd := Nat.dvd_sub dvd_newBrk (inv.heapEnd i)
  rw [pagesNeeded_mul whole (by simp only [kernelEnd, pageSize] at *; omega)]
  omega

/-- The range that `process_brk` unmaps. -/
theorem Regions.shrunk (regions : Regions s i) (inv : KernelInv grid image s l own)
    (above : kernelEnd ≤ newBrk addr) (shrinks : newBrk addr < (s.table i).heapEnd) :
    pagesNeeded ((s.table i).heapEnd - newBrk addr) * pageSize = (s.table i).heapEnd - newBrk addr ∧
      Inside (newBrk addr) (pagesNeeded ((s.table i).heapEnd - newBrk addr)) := by
  have high := regions.high
  have whole : pageSize ∣ (s.table i).heapEnd - newBrk addr := Nat.dvd_sub (inv.heapEnd i) dvd_newBrk
  have count := pagesNeeded_mul whole (by simp only [kernelEnd, pageSize] at *; omega)
  exact ⟨count, above, by omega⟩

/-- **The heap shrinks** to an end above the kernel's part, with the directory loaded. -/
theorem Regions.shrink {code : Int} (regions : Regions s i) (inv : KernelInv grid image s l own) (on : grid)
    (above : kernelEnd ≤ newBrk addr) (loaded : (s.table i).pageDirectory = s.paging.current)
    (shrinks : newBrk addr < (s.table i).heapEnd)
    (done : processMunmap s (some i) (newBrk addr) ((s.table i).heapEnd - newBrk addr) = .ok (s', code)) :
    Regions (s'.modify i fun proc => { proc with heapEnd := newBrk addr }) i := by
  obtain ⟨count, inside⟩ := regions.shrunk inv above shrinks
  obtain ⟨x, owned⟩ := inv.directories i regions.live
  cases processMunmap_way done with
  | nothing refused =>
      simp only [kernelEnd, reduceCtorEq, false_or] at *
      omega
  | done asked loop =>
      rw [frame_of_dvd dvd_newBrk] at loop
      have steady := inv.steady
      rw [← loaded] at steady
      obtain ⟨p, same, -, unmapped⟩ := munmapPages_maps on steady owned dvd_newBrk inside.above loop
      cases same
      refine ⟨?_, ?_, ?_, fun w user maps => ?_⟩
      · rw [Kernel.modify_self]
        exact regions.live
      · rw [Kernel.modify_self]
        exact above
      · rw [Kernel.modify_self]
        exact newBrk_lt
      · simp only [Kernel.modify_self, Kernel.modify_paging, Kernel.withPaging_table,
          Kernel.withPaging_paging] at maps ⊢
        obtain ⟨old, apart⟩ := unmapped w user maps
        refine (regions.mapped w user old).imp_left fun below => ?_
        by_contra high
        -- the page of `w` is one of those unmapped
        have less : (w - newBrk addr) / pageSize < pagesNeeded ((s.table i).heapEnd - newBrk addr) := by
          simp only [pageSize] at *
          omega
        refine apart ((w - newBrk addr) / pageSize) less ?_
        have whole : pageSize ∣ newBrk addr := dvd_newBrk
        rw [inside.pageVirt_eq less]
        simp only [pageSize] at *
        omega

/-- **`process_brk`** keeps the record. -/
theorem Regions.brk (regions : Regions s i) (inv : KernelInv grid image s l own) (on : grid)
    (orderly : Orderly i s (.brk i addr)) (done : processBrk s (some i) addr = .ok (s', result)) :
    Regions s' i := by
  have nonzero : (s.table i).heapEnd ≠ 0 := by
    have := regions.low
    simp only [kernelEnd] at this
    omega
  have virt := mmapVirt_heapEnd inv nonzero
  cases processBrk_way done with
  | query null => exact regions
  | failed asked grows mmap =>
      exact (regions.mmap inv (fun _ => on) (virt.symm ▸ regions.grown inv grows)
        (virt.symm ▸ (orderly.2 asked).2 grows) mmap).1
  | grown asked grows mmap found =>
      exact (regions.mmap inv (fun _ => on) (virt.symm ▸ regions.grown inv grows)
        (virt.symm ▸ (orderly.2 asked).2 grows) mmap).1
  | shrunk asked shrinks munmap =>
      obtain ⟨above, loaded⟩ := (orderly.2 asked).1 shrinks
      exact regions.shrink inv on above loaded shrinks munmap
  | kept asked same => exact regions

/-- `process_set_current` leaves the heap alone, and changes no more of a control block than its state, to
READY or RUNNING. -/
theorem processSetCurrent_memory (s : Kernel) (i j : Slot) :
    (processSetCurrent s i).paging.heap = s.paging.heap ∧
      ∃ state, (processSetCurrent s i).table j = { s.table j with state := state } ∧
        (state = (s.table j).state ∨ state = .ready ∨ state = .running) := by
  have switched : ∀ (p : PagingState) (d : Nat), (pagingSwitchDirectory p d).heap = p.heap := by
    intro p d
    unfold pagingSwitchDirectory
    split <;> rfl
  have put : ∀ (s : Kernel) (k : Slot) (state : ProcessState), ∃ now,
      (s.modify k fun proc => { proc with state := state }).table j = { s.table j with state := now } ∧
        (now = (s.table j).state ∨ now = state) := by
    intro s k state
    rw [Kernel.modify_table]
    split
    · rename_i here
      rw [here]
      exact ⟨state, rfl, .inr rfl⟩
    · exact ⟨(s.table j).state, rfl, .inl rfl⟩
  unfold processSetCurrent
  cases s.currentProcess with
  | none =>
      obtain ⟨now, same, which⟩ := put { s with currentProcess := some i } i .running
      exact ⟨switched _ _, now, same, which.imp_right .inr⟩
  | some k =>
      refine ⟨(switched _ _).trans ?_, ?_⟩
      · simp only
        split <;> rfl
      · simp only
        split
        · obtain ⟨before, ready, first⟩ := put s k .ready
          obtain ⟨now, running, second⟩ := put { (s.modify k fun proc =>
            { proc with state := .ready }) with currentProcess := some i } i .running
          refine ⟨now, running.trans ?_, ?_⟩
          · show { (s.modify k fun proc => { proc with state := .ready }).table j with state := now } = _
            rw [ready]
          · rcases second with same | second
            · rw [same.trans (congrArg Pcb.state ready)]
              exact first.imp_right .inl
            · exact .inr (.inr second)
        · obtain ⟨now, same, which⟩ := put { s with currentProcess := some i } i .running
          exact ⟨now, same, which.imp_right .inr⟩

/-- So no page changes, and live processes stay live. -/
theorem processSetCurrent_keeps (s : Kernel) (i j : Slot) :
    (processSetCurrent s i).paging.mem = s.paging.mem ∧
      ((processSetCurrent s i).table j).heapEnd = (s.table j).heapEnd ∧
      ((processSetCurrent s i).table j).pageDirectory = (s.table j).pageDirectory ∧
      ((s.table j).live → ((processSetCurrent s i).table j).live) := by
  obtain ⟨heap, state, now, which⟩ := processSetCurrent_memory s i j
  rw [now]
  refine ⟨congrArg HeapState.mem heap, rfl, rfl, fun live => ?_⟩
  rcases which with rfl | rfl | rfl
  · exact live
  · exact (by decide : ProcessState.ready ≠ .unused ∧ ProcessState.ready ≠ .zombie)
  · exact (by decide : ProcessState.running ≠ .unused ∧ ProcessState.running ≠ .zombie)

theorem Regions.setCurrent (regions : Regions s i) (j : Slot) : Regions (processSetCurrent s j) i := by
  obtain ⟨mem, heapEnd, directory, live⟩ := processSetCurrent_keeps s j i
  refine ⟨live regions.live, ?_, ?_, fun w user maps => ?_⟩
  · rw [heapEnd]
    exact regions.low
  · rw [heapEnd]
    exact regions.high
  · rw [mem, directory] at maps
    rw [heapEnd]
    exact regions.mapped w user maps

/-- What a `process_create` that succeeds has done. -/
theorem processCreate_some {entryPoint uid : Nat}
    (done : processCreate image s entryPoint uid = .ok (s', some i)) :
    ∃ p₁ dir h₂ stack h₃ page, processAllocSlot s = some i ∧
      pagingCreateDirectory image s.paging = .ok (p₁, dir) ∧ dir ≠ 0 ∧
      kmalloc p₁.heap pageSize = .ok (h₂, stack) ∧ stack ≠ 0 ∧
      kmalloc h₂ pageSize = .ok (h₃, page) ∧ page ≠ 0 ∧
      pagingMapPageInDirectory ((p₁.withHeap h₂).withHeap h₃) dir userStackVirt page
        (pageWrite ||| pageUser) = .ok s'.paging ∧
      s'.table = Function.update s.table i (Pcb.setUp
        { Pcb.zero with
          pid := s.nextPid
          state := .ready
          uid := uid
          gid := uid
          pageDirectory := dir
          kernelStack := stack } entryPoint) ∧
      s'.currentProcess = s.currentProcess := by
  cases processCreate_way done with
  | made slot created directory first found second given mapped =>
      exact ⟨_, _, _, _, _, _, slot, created, directory, first, found, second, given, mapped, rfl, rfl⟩

theorem processCreate_heapEnd {entryPoint uid : Nat}
    (done : processCreate image s entryPoint uid = .ok (s', some i)) :
    (s'.table i).heapEnd = 0x08080000 := by
  obtain ⟨_, _, _, _, _, _, _, _, _, _, _, _, _, _, table, _⟩ := processCreate_some done
  rw [table, Function.update_self, Pcb.setUp]

/-- **A new process** has one page, that of its stack. -/
theorem Regions.create {entryPoint uid : Nat} (inv : KernelInv grid image s l own)
    (done : processCreate image s entryPoint uid = .ok (s', some i)) : Regions s' i := by
  obtain ⟨p₁, dir, h₂, stack, h₃, page, _, created, directory, first, noStack, second, noPage, mapped,
    table, _⟩ := processCreate_some done
  rcases inv.layout.createDirectory created with
    ⟨null, _⟩ | ⟨l₁, own₁, x, _, layout, _, owned, _, _, _, empty⟩
  · exact absurd null directory
  rcases layout.take (by decide) (by decide) first with ⟨null, _⟩ | ⟨l₂, _, layout₂, _, _, same₂⟩
  · exact absurd null noStack
  rcases layout₂.take (by decide) (by decide) second with ⟨null, _⟩ | ⟨l₃, _, layout₃, _, _, same₃⟩
  · exact absurd null noPage
  have mine : s'.table i = Pcb.setUp { Pcb.zero with
      pid := s.nextPid
      state := .ready
      uid := uid
      gid := uid
      pageDirectory := dir
      kernelStack := stack } entryPoint := by
    rw [table, Function.update_self]
  refine ⟨?_, ?_, ?_, fun w user maps => .inr ?_⟩
  · rw [mine, Pcb.live]
    simp only [Pcb.setUp]
    decide
  · rw [mine]
    simp only [Pcb.setUp]
    decide
  · rw [mine]
    simp only [Pcb.setUp]
    decide
  · rw [mine] at maps
    rcases layout₃.mapPageInDirectory_maps owned (show UserIndex userStackVirt by unfold UserIndex; decide)
      (by decide) mapped user maps with here | old
    · exact here
    · exfalso
      have older := (layout₂.maps_congr owned user same₃).mp old
      have oldest := (layout.maps_congr owned user same₂).mp older
      rw [Maps, empty _ user.1 user.2] at oldest
      exact absurd oldest.1 (by decide)

/-- **Every orderly call** keeps the record. -/
theorem Regions.step {op : MemOp} (regions : Regions s i) (inv : KernelInv grid image s l own) (on : grid)
    (orderly : Orderly i s op) (step : MemStep image s op s') :
    Regions s' i ∧ ∃ l' own', KernelInv grid image s' l' own' := by
  obtain ⟨called, done⟩ := step
  cases op with
  | mmap proc addr length prot flags =>
      obtain ⟨rfl, inside, finish⟩ := orderly
      obtain ⟨⟨s₁, result⟩, mmap, rest⟩ := Outcome.bind_eq_ok.mp done
      cases rest
      exact ⟨(regions.mmap inv (fun _ => on) inside finish mmap).1,
        (inv.mmap regions.live inside.above (fun _ => on) mmap).1⟩
  | brk proc addr =>
      obtain ⟨rfl, rest⟩ := orderly
      obtain ⟨⟨s₁, result⟩, brk, last⟩ := Outcome.bind_eq_ok.mp done
      cases last
      refine ⟨regions.brk inv on ⟨rfl, rest⟩ brk, (inv.brk on regions.live ?_ ?_ brk).1⟩
      · unfold brkMapped
        split
        · rename_i grows
          have nonzero : (s.table proc).heapEnd ≠ 0 := by
            have := regions.low
            simp only [kernelEnd] at this
            omega
          rw [mmapVirt_heapEnd inv nonzero]
          exact (regions.grown inv grows.2).above
        · exact fun k less => absurd less (Nat.not_lt_zero k)
      · unfold brkUnmapped
        split
        · rename_i shrinks
          obtain ⟨above, _⟩ := (rest shrinks.1).1 shrinks.2
          obtain ⟨_, inside⟩ := regions.shrunk inv above shrinks.2
          rw [munmapped]
          split
          · rw [frame_of_dvd dvd_newBrk]
            exact fun k less => .inl (inside.above k less)
          · exact fun k less => absurd less (Nat.not_lt_zero k)
        · exact fun k less => absurd less (Nat.not_lt_zero k)
  | setCurrent proc =>
      cases done
      exact ⟨regions.setCurrent proc, l, own, inv.setCurrent called⟩
  | create _ _ => exact absurd orderly id
  | fork _ => exact absurd orderly id
  | munmap _ _ _ => exact absurd orderly id
  | sysMmap _ _ _ _ => exact absurd orderly id
  | sysBrk _ => exact absurd orderly id

/-- The range that the kernel chooses contains the page of the user stack, and that page is mapped. -/
def HitsStack (s : Kernel) (i : Slot) (length : Nat) : Prop :=
  (s.table i).heapEnd ≤ userStackVirt ∧
    userStackVirt < (s.table i).heapEnd + pagesNeeded length * pageSize ∧
    Maps s.paging.mem (s.table i).pageDirectory userStackVirt

/-- The pages chosen by the kernel are new, unless the stack page is among them. -/
theorem Regions.fresh (regions : Regions s i) (inv : KernelInv grid image s l own)
    (inside : Inside (s.table i).heapEnd (pagesNeeded length)) :
    (∀ k < pagesNeeded length, ¬ Maps s.paging.mem (s.table i).pageDirectory
      (pageVirt (s.table i).heapEnd k)) ↔ ¬ HitsStack s i length := by
  have aligned : pageSize ∣ (s.table i).heapEnd := inv.heapEnd i
  have stack : pageSize ∣ userStackVirt := by decide
  constructor
  · rintro fresh ⟨low, high, maps⟩
    have less : (userStackVirt - (s.table i).heapEnd) / pageSize < pagesNeeded length := by
      simp only [pageSize] at *
      omega
    refine fresh _ less ?_
    have here : pageVirt (s.table i).heapEnd ((userStackVirt - (s.table i).heapEnd) / pageSize) =
        userStackVirt := by
      rw [inside.pageVirt_eq less]
      simp only [pageSize] at *
      omega
    rw [here]
    exact maps
  · intro clear k less maps
    have user := userIndex_of (inside.above k less) pageVirt_lt
    have place := inside.pageVirt_eq less
    rcases regions.mapped _ user maps with below | same
    · omega
    · have here : pageVirt (s.table i).heapEnd k = userStackVirt := by
        simp only [pageSize] at *
        omega
      refine clear ⟨?_, ?_, here ▸ maps⟩
      · omega
      · rw [← here, place]
        simp only [pageSize] at *
        omega

end Calls

/-! ### Calls that find room -/

section Room

variable {grid : Prop} {image : KernelImage} {s : Kernel} {l l₁ l₂ : List Segment} {own : Owner → Option Nat} {i : Slot}
  {x y z : Nat}

/-- One page of `process_mmap` finds room. -/
theorem mmapPage_returns {p : PagingState} {d k : Nat} (virt pageFlags flags : Nat)
    (layout : Layout grid image p l own ∅) (owned : own (.directory d) = some x)
    (placed : place pageSize l = some (z, l₁)) (index : dirIndex (pageVirt virt k) < pageEntries)
    (room : present (entry p.mem d (dirIndex (pageVirt virt k))) = false →
      ∃ y l₂, place (2 * pageSize) l₁ = some (y, l₂)) :
    ∃ p', mmapPage d virt pageFlags flags k p = .ok (.next p') := by
  obtain ⟨h, taken, next, holds, fresh, kept⟩ :=
    layout.take_placed (by decide) (by decide) (by decide) placed
  have plain : ∀ a, own a = some z → a.structural = false := fun a found => absurd found (fresh a)
  have tracked := Tracked.directory layout owned
  unfold mmapPage
  rw [taken]
  simp only [Outcome.ok_bind]
  rw [if_neg (place_ne_null placed)]
  generalize given : (if flags &&& mapAnonymous ≠ 0 then
    (p.withHeap h).write ((p.withHeap h).mem.fill z 0 pageSize) else p.withHeap h) = p₁
  obtain ⟨laid, same⟩ : Layout grid image p₁ l₁ own ∅ ∧
      entry p₁.mem d (dirIndex (pageVirt virt k)) = entry p.mem d (dirIndex (pageVirt virt k)) := by
    rw [← given]
    split
    · refine ⟨next.scribble holds plain (fill_eqOn _ _ _ _), ?_⟩
      rw [PagingState.mem_write, next.entry_scribble holds plain (fill_eqOn _ _ _ _) tracked index,
        PagingState.mem_withHeap, kept d tracked _ index]
    · exact ⟨next, kept d tracked _ index⟩
  obtain ⟨p', mapped⟩ := laid.mapPage_returns (pageVirt virt k) z pageFlags owned (same ▸ room)
  rw [mapped]
  exact ⟨p', rfl⟩

/-- **The loop of `process_mmap`** when first fit serves all it asks for. -/
theorem mmapPages_returns {p : PagingState} {d n pageFlags virt : Nat} (flags : Nat)
    (layout : Layout grid image p l own ∅)
    (known : p.current = image.directory ∨ ∃ x, own (.directory p.current) = some x)
    (owned : own (.directory d) = some x) (aligned : pageSize ∣ virt) (small : pageFlags < pageSize)
    (above : AboveKernel virt n) (enough : Enough l (mapRequests p.mem d virt n)) :
    ∃ q l' own', forLoop (mmapPage d virt pageFlags flags) 0 n p = .ok (.next q) ∧
      Mapping grid image own p.current d virt l p n q l' own' := by
  obtain ⟨last, granted, all⟩ := enough
  obtain ⟨q, loop, l', own', mapping⟩ := @forLoop_next _ _ (mmapPage d virt pageFlags flags)
    (fun k q => ∃ l' own', Mapping grid image own p.current d virt l p k q l' own') 0 n p
    ⟨l, own, .start layout rfl⟩ (by
      rintro k q - inside ⟨l', own', mapping⟩
      rw [Nat.zero_add] at inside
      obtain ⟨-, index⟩ := dirIndex_bounds (above k inside) pageVirt_lt
      -- what this round asks for is served, as first fit serves everything
      obtain ⟨more, split⟩ := mapRequests_le p.mem d virt (Nat.succ_le_of_lt inside)
      obtain ⟨before, serves, -⟩ := mapping.served
      have rest := all
      rw [split, mapping.asked index, List.append_assoc, List.cons_append] at rest
      obtain ⟨_, z, l₁, later, placed, tail, -⟩ := rest.rest serves
      obtain ⟨q', body⟩ := mmapPage_returns virt pageFlags flags mapping.layout
        ((mapping.dirs d).trans owned) placed index fun absent => by
          rw [linkRequests, absent, if_neg (by decide)] at tail
          obtain ⟨y, l₂, -, room, -⟩ := tail
          exact ⟨y, l₂, room⟩
      exact ⟨q', body, mapping.step known owned aligned small (fun j le => above j (by omega)) body⟩)
  rw [Nat.zero_add] at mapping
  exact ⟨q, l', own', loop, mapping⟩

/-- What one page of a range asks for. -/
theorem mapRequests_one (m : Memory) (d virt : Nat) :
    mapRequests m d virt 1 = [.page] ∨ mapRequests m d virt 1 = [.page, .entries] := by
  simp only [mapRequests, List.range_one, List.flatMap_singleton]
  split
  · exact .inl rfl
  · exact .inr rfl

/-- First fit finds room for one page and its table. -/
theorem enough_one (m : Memory) (d virt : Nat) (placed : place pageSize l = some (z, l₁))
    (placed' : place (2 * pageSize) l₁ = some (y, l₂)) : Enough l (mapRequests m d virt 1) := by
  rcases mapRequests_one m d virt with asked | asked
  · exact ⟨l₁, [z], asked ▸ Serves.page placed⟩
  · exact ⟨l₂, [z] ++ [], asked ▸ (Serves.page placed).append (Serves.entries placed')⟩

theorem finish_one {p : PagingState} (layout : Layout grid image p l own ∅) (d virt : Nat)
    (placed : place pageSize l = some (z, l₁)) (placed' : place (2 * pageSize) l₁ = some (y, l₂)) :
    CanFinish p d virt 1 := by
  refine .inr fun l' found => .inr ?_
  cases found.symm.trans layout.heap.blockList_eq
  exact enough_one _ _ _ placed placed'

/-- **`process_mmap` of one page** when the heap has room for it and its table. -/
theorem KernelInv.mmap_one (inv : KernelInv grid image s l own) (live : (s.table i).live)
    (addr prot flags : Nat) (inside : Inside (mmapVirt (s.table i) addr) 1)
    (placed : place pageSize l = some (z, l₁)) (placed' : place (2 * pageSize) l₁ = some (y, l₂)) :
    ∃ s' l' own', processMmap s (some i) addr pageSize prot flags = .ok (s', mmapVirt (s.table i) addr) ∧
      KernelInv grid image s' l' own' ∧ (l' = l₁ ∨ l' = l₂) ∧ (s'.table i).live ∧
      s'.paging.current = s.paging.current ∧
      (s'.table i).pageDirectory = (s.table i).pageDirectory ∧
      (s'.table i).heapEnd = max (s.table i).heapEnd (mmapVirt (s.table i) addr + pageSize) ∧
      ∀ w, UserIndex w → Maps s.paging.mem (s.table i).pageDirectory w →
        Maps s'.paging.mem (s.table i).pageDirectory w := by
  obtain ⟨x, owned⟩ := inv.directories i live
  have aligned : pageSize ∣ mmapVirt (s.table i) addr := dvd_mmapVirt inv
  generalize given : (if prot &&& protWrite ≠ 0 then pageUser ||| pageWrite else pageUser) = pageFlags
  have small : pageFlags < pageSize := by
    rw [← given]
    split <;> decide
  obtain ⟨p, l', own', loop, mapping⟩ := mmapPages_returns flags inv.layout inv.known owned aligned small
    inside.above (enough_one s.paging.mem (s.table i).pageDirectory (mmapVirt (s.table i) addr) placed placed')
  have finish := finish_one inv.layout (s.table i).pageDirectory (mmapVirt (s.table i) addr) placed placed'
  have ends := mmapPages_maps inv.known owned aligned small inside.above inv.layout finish loop
  have stop : (mmapVirt (s.table i) addr + 1 * pageSize % 2 ^ 32) % 2 ^ 32 =
      mmapVirt (s.table i) addr + pageSize := by
    have := inside.2
    simp only [pageSize] at *
    omega
  obtain ⟨s', done, paging, live', directory, heapEnd'⟩ : ∃ s',
      processMmap s (some i) addr pageSize prot flags = .ok (s', mmapVirt (s.table i) addr) ∧
        s'.paging = p ∧ (s'.table i).live ∧ (s'.table i).pageDirectory = (s.table i).pageDirectory ∧
        (s'.table i).heapEnd = max (s.table i).heapEnd (mmapVirt (s.table i) addr + pageSize) := by
    unfold processMmap
    simp only
    rw [if_neg (by decide), show pagesNeeded pageSize = 1 by decide, given, loop]
    simp only [Outcome.ok_bind, stop, Kernel.withPaging_table]
    split
    · rename_i grows
      refine ⟨_, rfl, rfl, ?_, ?_, ?_⟩
      · rw [Kernel.modify_self]
        exact live
      · rw [Kernel.modify_self]
        rfl
      · rw [Kernel.modify_self]
        exact (max_eq_right grows.le).symm
    · rename_i stays
      exact ⟨_, rfl, rfl, live, rfl, (max_eq_left (not_lt.mp stays)).symm⟩
  obtain ⟨⟨l'', own'', after⟩, _⟩ := inv.mmap live (show AboveKernel _ (pagesNeeded pageSize) from
    inside.above) (fun failed => absurd (failed ▸ aligned : pageSize ∣ mapFailed) (by decide)) done
  have same : l'' = l' := by
    have found := after.layout.heap.blockList_eq
    rw [paging] at found
    exact Option.some.inj (found.symm.trans mapping.layout.heap.blockList_eq)
  obtain ⟨given', serves, _⟩ := mapping.served
  refine ⟨s', l'', own'', done, after, ?_, live', ?_, directory, heapEnd', fun w user maps => ?_⟩
  · rw [same]
    rcases mapRequests_one s.paging.mem (s.table i).pageDirectory (mmapVirt (s.table i) addr) with
      asked | asked
    · rw [asked] at serves
      obtain ⟨z', l₃, later, placed₃, ⟨rfl, _⟩, _⟩ := serves
      cases placed₃.symm.trans placed
      exact .inl rfl
    · rw [asked] at serves
      obtain ⟨z', l₃, later, placed₃, ⟨y', l₄, later', placed₄, ⟨rfl, _⟩, _⟩, _⟩ := serves
      cases placed₃.symm.trans placed
      cases placed₄.symm.trans placed'
      exact .inr rfl
  · rw [paging]
    exact mapping.current
  · rw [paging]
    exact (ends w user).2 maps

end Room

/-! ### Pages chosen by the kernel -/

/-- **When the kernel chooses the address, the pages are new.** For a process made by `process_create` in
any state of a run, and any orderly sequence of `process_mmap` and `process_brk` on it: the next
`process_mmap` without an address, if it succeeds, returns pages none of which was mapped, if and only if
the page of the user stack is not among them. -/
theorem mmap_null_fresh {image : KernelImage} {s₀ s t u : Kernel} {before ops : List MemOp} {i : Slot}
    {entryPoint uid : Nat} (booted : Booted image s₀)
    (spaced : ∀ l, blockList s₀.paging.heap = some l → Spaced l)
    (earlier : Run (Guarded TouchesUser (MemStep image)) s₀ before s)
    (created : processCreate image s entryPoint uid = .ok (t, some i))
    (run : Run (Guarded (Orderly i) (MemStep image)) t ops u) {length prot flags result : Nat} {v : Kernel}
    (orderly : Orderly i u (.mmap i 0 length prot flags))
    (done : processMmap u (some i) 0 length prot flags = .ok (v, result))
    (success : result ≠ mapFailed) :
    (∀ k < pagesNeeded length,
      ¬ Maps u.paging.mem (u.table i).pageDirectory (pageVirt result k)) ↔ ¬ HitsStack u i length := by
  obtain ⟨l, inv₀⟩ : ∃ l, KernelInv True image s₀ l _ := booted.inv fun _ => spaced
  obtain ⟨l₁, own₁, inv₁⟩ := run_inv trivial earlier ⟨l, _, inv₀⟩
  have start : Regions t i ∧ ∃ l own, KernelInv True image t l own :=
    ⟨Regions.create inv₁ created, (inv₁.create (fun _ => trivial) created).1⟩
  obtain ⟨regions, l₂, own₂, inv⟩ := run.invariant
    (fun x => Regions x i ∧ ∃ l own, KernelInv True image x l own)
    (fun _ _ _ ⟨here, _, _, kept⟩ step => here.step kept trivial step.1 step.2) start
  obtain ⟨-, inside, finish⟩ := orderly
  have chosen := (regions.mmap inv (fun _ => trivial) inside finish done).2.resolve_left success
  rw [chosen]
  exact regions.fresh inv inside

/-- A new process of a fresh kernel is loaded and maps a page at 129 MB; the kernel then chooses the page
after it. -/
theorem mmap_null_fresh_loaded : ∃ t u v,
    processCreate sampleImage freshKernel 0 0 = .ok (t, some firstSlot) ∧
    Run (Guarded (Orderly firstSlot) (MemStep sampleImage)) t
      [.setCurrent firstSlot, .mmap firstSlot 0x08100000 pageSize protRead mapPrivate] u ∧
    processMmap u (some firstSlot) 0 pageSize protRead mapPrivate = .ok (v, 0x08101000) ∧
    ∀ k < pagesNeeded pageSize,
      ¬ Maps u.paging.mem (u.table firstSlot).pageDirectory (pageVirt 0x08101000 k) := by
  obtain ⟨t, own, created, inv, mapped, _⟩ :=
    freshKernel_booted.created freshKernel_blocks freshKernel_spaced rfl rfl rfl rfl
  have inv₁ := inv.setCurrent mapped.live
  obtain ⟨_, heapEnd₁, _, live₁⟩ := processSetCurrent_keeps t firstSlot firstSlot
  rw [processCreate_heapEnd created] at heapEnd₁
  have start : mmapVirt ((processSetCurrent t firstSlot).table firstSlot) 0x08100000 = 0x08100000 := by
    rw [mmapVirt, if_pos (by decide)]
    decide
  have first : Inside (mmapVirt ((processSetCurrent t firstSlot).table firstSlot) 0x08100000) 1 := by
    rw [start]
    unfold Inside
    decide
  obtain ⟨u, l', own', done, inv', which, live, _, _, heapEnd₂, _⟩ := inv₁.mmap_one (live₁ mapped.live)
    0x08100000 protRead mapPrivate first rfl rfl
  rw [heapEnd₁, start] at heapEnd₂
  have next : mmapVirt (u.table firstSlot) 0 = 0x08101000 := heapEnd₂
  have inside : Inside (mmapVirt (u.table firstSlot) 0) 1 := by
    rw [next]
    unfold Inside
    decide
  obtain ⟨v, again, finish⟩ : ∃ v,
      processMmap u (some firstSlot) 0 pageSize protRead mapPrivate =
        .ok (v, mmapVirt (u.table firstSlot) 0) ∧
      CanFinish u.paging (u.table firstSlot).pageDirectory (mmapVirt (u.table firstSlot) 0) 1 := by
    rcases which with rfl | rfl
    · obtain ⟨v, _, _, again, _⟩ := inv'.mmap_one live 0 protRead mapPrivate inside rfl rfl
      exact ⟨v, again, finish_one inv'.layout _ _ rfl rfl⟩
    · obtain ⟨v, _, _, again, _⟩ := inv'.mmap_one live 0 protRead mapPrivate inside rfl rfl
      exact ⟨v, again, finish_one inv'.layout _ _ rfl rfl⟩
  rw [next] at again
  have run : Run (Guarded (Orderly firstSlot) (MemStep sampleImage)) t
      [.setCurrent firstSlot, .mmap firstSlot 0x08100000 pageSize protRead mapPrivate] u := by
    have loaded : exec sampleImage t (.setCurrent firstSlot) = .ok (processSetCurrent t firstSlot) :=
      rfl
    refine .cons ⟨trivial, mapped.live, loaded⟩
      (.cons ⟨⟨rfl, first, ?_⟩, live₁ mapped.live, ?_⟩ (.nil u))
    · exact finish_one inv₁.layout _ _ rfl rfl
    · simp only [exec, done, Outcome.ok_bind, Outcome.pure_eq]
  have orderly : Orderly firstSlot u (.mmap firstSlot 0 pageSize protRead mapPrivate) := by
    rw [Orderly, show pagesNeeded pageSize = 1 by decide]
    exact ⟨rfl, inside, finish⟩
  refine ⟨t, u, v, created, run, again, (mmap_null_fresh freshKernel_booted (fun l found => ?_)
    (.nil freshKernel) created run orderly again (by decide)).mpr ?_⟩
  · cases found.symm.trans freshKernel_blocks
    exact freshKernel_spaced
  · rintro ⟨_, high, _⟩
    rw [heapEnd₂] at high
    revert high
    decide

/-- A process of a fresh kernel maps the page below its stack, which raises `heap_end` to the stack; the
page chosen next is that of the stack. -/
theorem mmap_null_stack : Booted sampleImage freshKernel ∧ ∃ t u v,
    processCreate sampleImage freshKernel 0 0 = .ok (t, some firstSlot) ∧
    Run (MemStep sampleImage) t [.mmap firstSlot 0x0FFFF000 pageSize protRead mapPrivate] u ∧
    processMmap u (some firstSlot) 0 pageSize protRead mapPrivate = .ok (v, userStackVirt) ∧
    userStackVirt ≠ mapFailed ∧
    Maps u.paging.mem (u.table firstSlot).pageDirectory userStackVirt := by
  refine ⟨freshKernel_booted, ?_⟩
  obtain ⟨t, own, created, inv, mapped, _⟩ :=
    freshKernel_booted.created freshKernel_blocks freshKernel_spaced rfl rfl rfl rfl
  have heapEnd₁ := processCreate_heapEnd created
  have start : mmapVirt (t.table firstSlot) 0x0FFFF000 = 0x0FFFF000 := by
    rw [mmapVirt, if_pos (by decide)]
    decide
  obtain ⟨u, l', own', done, inv', which, live, _, directory, heapEnd₂, keeps⟩ := inv.mmap_one mapped.live
    0x0FFFF000 protRead mapPrivate (by rw [start]; unfold Inside; decide) rfl rfl
  rw [heapEnd₁, start] at heapEnd₂
  have next : mmapVirt (u.table firstSlot) 0 = userStackVirt := heapEnd₂
  obtain ⟨v, _, _, again, _⟩ : ∃ v l'' own'',
      processMmap u (some firstSlot) 0 pageSize protRead mapPrivate =
        .ok (v, mmapVirt (u.table firstSlot) 0) ∧ KernelInv True sampleImage v l'' own'' := by
    have inside : Inside (mmapVirt (u.table firstSlot) 0) 1 := by
      rw [next]
      unfold Inside
      decide
    rcases which with rfl | rfl
    · obtain ⟨v, l'', own'', again, inv'', _⟩ := inv'.mmap_one live 0 protRead mapPrivate inside rfl rfl
      exact ⟨v, l'', own'', again, inv''⟩
    · obtain ⟨v, l'', own'', again, inv'', _⟩ := inv'.mmap_one live 0 protRead mapPrivate inside rfl rfl
      exact ⟨v, l'', own'', again, inv''⟩
  rw [next] at again
  refine ⟨t, u, v, created, .cons ⟨mapped.live, ?_⟩ (.nil u), again, by decide, ?_⟩
  · simp only [exec, done, Outcome.ok_bind, Outcome.pure_eq]
  · rw [directory]
    exact keeps _ ⟨by decide, by decide⟩ ⟨mapped.table, mapped.page⟩

end Kfs.Process
