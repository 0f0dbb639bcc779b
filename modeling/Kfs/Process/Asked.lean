/-
**What a successful `process_mmap` maps.**

The number of pages, their addresses and the new end of the heap are computed modulo 2^32. A call that
returns an address has mapped every page of its loop (`mmapPages_progress`), whatever these addresses
are. That they are the pages asked for, and that `heap_end` covers them, holds exactly when the range
ends at least one page below 4 GB: `mmap_maps_asked`.
-/

import Kfs.Paging.Furnished
import Kfs.Process.Release

namespace Kfs.Process

open Kfs.Heap Kfs.Paging Memory

/-! ### What entries grant -/

/-- `entry & PAGE_WRITE`. -/
def writable (e : Nat) : Bool := e.testBit 1

/-- The flags `process_mmap` maps with. -/
def mmapFlags (prot : Nat) : Nat := if prot &&& protWrite ≠ 0 then pageUser ||| pageWrite else pageUser

/-- A page entry that is present, for the user, and writable exactly if that was asked for. -/
structure Grants (prot e : Nat) : Prop where
  present : present e = true
  user : user e = true
  write : writable e = true ↔ prot &&& protWrite ≠ 0

/-- A directory entry that lets the page entries below it grant as much. -/
structure Admits (prot e : Nat) : Prop where
  user : user e = true
  write : prot &&& protWrite ≠ 0 → writable e = true

section Entries

variable {e f prot t : Nat}

theorem writable_or : writable (e ||| f) = (writable e || writable f) := Nat.testBit_or _ _ _

theorem writable_of_dvd (aligned : pageSize ∣ e) : writable e = false := by
  obtain ⟨q, rfl⟩ := aligned
  rw [writable, Nat.mul_comm, show pageSize = 2 ^ 12 by rfl, Nat.testBit_mul_two_pow]
  rfl

theorem mmapFlags_lt : mmapFlags prot < pageSize := by
  unfold mmapFlags
  split <;> decide

theorem user_mmapFlags : user (mmapFlags prot) = true := by
  unfold mmapFlags
  split <;> decide

theorem writable_mmapFlags : writable (mmapFlags prot) = true ↔ prot &&& protWrite ≠ 0 := by
  unfold mmapFlags
  split
  · rename_i asked
    exact iff_of_true (by decide) asked
  · rename_i unasked
    exact iff_of_false (by decide) unasked

/-- The page entries that `process_mmap` writes. -/
theorem grants_word (aligned : pageSize ∣ f) :
    Grants prot (f ||| flagBits (mmapFlags prot) ||| pagePresent) := by
  rw [flagBits, Nat.mod_eq_of_lt mmapFlags_lt]
  refine ⟨?_, ?_, ?_⟩
  · rw [present_or, show Paging.present pagePresent = true by decide, Bool.or_true]
  · rw [user_or, user_or, user_mmapFlags, Bool.or_true, Bool.true_or]
  · rw [writable_or, writable_or, writable_of_dvd aligned, show writable pagePresent = false by decide,
      Bool.or_false, Bool.false_or]
    exact writable_mmapFlags

/-- The directory entries it writes. -/
theorem admits_linked (linked : Linked (mmapFlags prot) e) : Admits prot e := by
  obtain ⟨t, -, rfl⟩ := linked
  refine ⟨?_, fun _ => ?_⟩
  · rw [user_or, user_mmapFlags, Bool.or_true]
  · rw [writable_or, writable_or, show writable pageWrite = true by decide, Bool.or_true, Bool.true_or]

end Entries

/-! ### The loop -/

section Loop

variable {image : KernelImage} {l : List Segment} {p q q' : PagingState} {h : HeapState}
  {d flags i k n pageFlags ptr virt w x : Nat}

/-- The loop of `process_mmap` after `i` rounds: page entries with its flags, and directory entries kept
or made for them. -/
structure Progress (image : KernelImage) (d x pageFlags virt : Nat) (p : PagingState) (i : Nat)
    (q : PagingState) : Prop where
  furnished : ∃ l, Furnished image d q l x
  pages : ∀ k < i, ∀ w < 2 ^ 32, w / pageSize = pageVirt virt k / pageSize →
    ∃ f, pageSize ∣ f ∧ pageWord q.mem d w = f ||| flagBits pageFlags ||| pagePresent
  rows : ∀ k < pageEntries, entry q.mem d k = entry p.mem d k ∨
    present (entry p.mem d k) = false ∧ Linked pageFlags (entry q.mem d k)

/-- A page that a round has taken, cleared if it is anonymous. -/
def clearPage (flags ptr : Nat) (p : PagingState) : PagingState :=
  if flags &&& mapAnonymous ≠ 0 then p.write (p.mem.fill ptr 0 pageSize) else p

theorem mmapPage_taken (flags : Nat) (furnished : Furnished image d q l x)
    (taken : kmalloc q.heap pageSize = .ok (h, ptr)) (found : ptr ≠ 0) :
    ptr < 2 ^ 32 ∧ ∃ l', Furnished image d (clearPage flags ptr (q.withHeap h)) l' x ∧
      (∀ k < pageEntries, entry (clearPage flags ptr (q.withHeap h)).mem d k = entry q.mem d k) ∧
      ∀ w < 2 ^ 32, pageWord (clearPage flags ptr (q.withHeap h)).mem d w = pageWord q.mem d w := by
  rcases (Since.refl furnished.rooted.heap).take .page taken with
    ⟨null, -⟩ | ⟨l', placed, next, spares, held, filled, absent⟩
  · exact absurd null found
  · have bounds := held.bounds next.heap
    refine ⟨?_, l', ?_⟩
    · simp only [heapEnd, heapStart, heapSize] at bounds
      omega
    · unfold clearPage
      split
      · obtain ⟨written, spares'⟩ :=
          next.write held le_rfl le_rfl filled (fill_eqOn (q.withHeap h).mem ptr 0 pageSize)
        exact furnished.since written
          (((spares.mono (Set.empty_subset _)).trans spares').drop absent)
      · exact furnished.since next spares

/-- **One round** of the loop. -/
theorem Progress.step (progress : Progress image d x pageFlags virt p i q) (low : pageFlags < pageSize)
    (done : mmapPage d virt pageFlags flags i q = .ok (.next q')) :
    Progress image d x pageFlags virt p (i + 1) q' := by
  obtain ⟨⟨l, furnished⟩, pages, rows⟩ := progress
  obtain ⟨⟨h, ptr⟩, taken, rest⟩ := Outcome.bind_eq_ok.mp done
  simp only at rest
  by_cases null : ptr = 0
  · rw [if_pos null] at rest
    obtain ⟨inner, -, last⟩ := Outcome.bind_eq_ok.mp rest
    cases inner <;> cases last
  rw [if_neg null] at rest
  obtain ⟨q₂, mapped, last⟩ := Outcome.bind_eq_ok.mp rest
  cases last
  obtain ⟨fits, l', furnished₁, kept, same⟩ := mmapPage_taken flags furnished taken null
  obtain ⟨l'', furnished', linked, words⟩ := furnished₁.mapPage pageVirt_lt fits low mapped
  refine ⟨⟨l'', furnished'⟩, fun k less w small page => ?_, fun k index => ?_⟩
  · rw [words w small]
    split
    · exact ⟨_, dvd_frame, rfl⟩
    · rename_i other
      rw [same w small]
      refine pages k (lt_of_le_of_ne (Nat.lt_succ_iff.mp less) ?_) w small page
      rintro rfl
      exact other page
  · rcases linked k index with unchanged | ⟨-, absent, new⟩
    · rw [unchanged, kept k index]
      exact rows k index
    · rw [kept k index] at absent
      rcases rows k index with before | ⟨before, -⟩
      · exact .inr ⟨before ▸ absent, new⟩
      · exact .inr ⟨before, new⟩

/-- **The loop of `process_mmap`**, when it maps all its pages. -/
theorem mmapPages_progress (furnished : Furnished image d p l x) (low : pageFlags < pageSize)
    (done : forLoop (mmapPage d virt pageFlags flags) 0 n p = .ok (.next q)) :
    Progress image d x pageFlags virt p n q := by
  have invariant := @forLoop_inv _ _ (mmapPage d virt pageFlags flags)
    (Progress image d x pageFlags virt p) (fun _ => True) 0 n p
    ⟨⟨l, furnished⟩, fun k less => absurd less (Nat.not_lt_zero k), fun _ _ => .inl rfl⟩
    (by
      rintro i q round - - progress body
      cases round with
      | exit q' => trivial
      | next q' => exact progress.step low body) _ done
  rwa [Nat.zero_add] at invariant

end Loop

/-! ### The call -/

/-- A process whose directory has blocks of its own, and whose heap ends at a page boundary. -/
structure Equipped (image : KernelImage) (s : Kernel) (i : Slot) : Prop where
  directory : ∃ l x, Furnished image (s.table i).pageDirectory s.paging l x
  heapEnd : pageSize ∣ (s.table i).heapEnd
  small : (s.table i).heapEnd < 2 ^ 32

/-- **What was asked for**: the pages of the range are there for the user, writable or not as asked, and
the heap of the process ends behind them. -/
structure Delivered (s : Kernel) (i : Slot) (v length prot : Nat) : Prop where
  aligned : pageSize ∣ v
  fits : v + length ≤ 2 ^ 32
  pages : ∀ a, v ≤ a → a < v + length → present (pdeOf s i a) = true ∧ Grants prot (pteOf s i a)
  heapEnd : v + length ≤ (s.table i).heapEnd

/-- The directory entries of the range grant it too. -/
def Admitted (s : Kernel) (i : Slot) (v length prot : Nat) : Prop :=
  ∀ a, v ≤ a → a < v + length → Admits prot (pdeOf s i a)

section Call

variable {grid : Prop} {image : KernelImage} {s s' : Kernel} {p q : PagingState} {i : Slot}
  {a addr d flags length n pageFlags prot v virt x : Nat}

/-- What `process_mmap` returns, when it is no failure. -/
theorem processMmap_mapped (done : processMmap s (some i) addr length prot flags = .ok (s', v))
    (success : v ≠ mapFailed) : v = mmapVirt (s.table i) addr ∧ length ≠ 0 ∧
    ∃ p, forLoop (mmapPage (s.table i).pageDirectory v (mmapFlags prot) flags) 0 (pagesNeeded length)
        s.paging = .ok (.next p) ∧
      s'.paging = p ∧ (s'.table i).pageDirectory = (s.table i).pageDirectory ∧
      (s'.table i).heapEnd =
        max (s.table i).heapEnd ((v + pagesNeeded length * pageSize % 2 ^ 32) % 2 ^ 32) := by
  cases processMmap_way done with
  | nothing empty => exact absurd rfl success
  | failed asked loop => exact absurd rfl success
  | @done p asked loop =>
      refine ⟨rfl, asked, p, loop, rfl, ?_, ?_⟩
      · rw [Kernel.modify_self]
        rfl
      · rw [Kernel.modify_self]
        rfl

/-- The page of the loop that an address of the range is in. -/
theorem pageVirt_of_mem (aligned : pageSize ∣ v) (fits : v + length ≤ 2 ^ 32 - pageSize)
    (low : v ≤ a) (high : a < v + length) : ∃ k < pagesNeeded length,
    a / pageSize = pageVirt v k / pageSize := by
  refine ⟨(a - v) / pageSize, ?_, ?_⟩
  · simp only [pagesNeeded, pageSize] at *
    omega
  · simp only [pageVirt, pageSize] at *
    omega

/-- The end of a range that ends below the last page is not wrapped. -/
theorem mmapStop_of_fits (aligned : pageSize ∣ v) (fits : v + length ≤ 2 ^ 32 - pageSize) :
    v + length ≤ (v + pagesNeeded length * pageSize % 2 ^ 32) % 2 ^ 32 := by
  simp only [pagesNeeded, pageSize] at *
  omega

/-- The new end of the heap is at a page boundary, wrapped or not, and so are all it is compared with. -/
theorem fits_of_heapEnd {stop : Nat} (ends : pageSize ∣ stop) (small : stop < 2 ^ 32)
    (covered : v + length ≤ stop) : v + length ≤ 2 ^ 32 - pageSize := by
  simp only [pageSize] at *
  omega

/-- **What a successful `process_mmap` maps** is what was asked for exactly when the range ends at least a
page below 4 GB. The directory entries grant as much as the page entries exactly if those that were
there before did. -/
theorem mmap_maps_asked (equipped : Equipped image s i)
    (done : processMmap s (some i) addr length prot flags = .ok (s', v)) (success : v ≠ mapFailed) :
    (Delivered s' i v length prot ↔ mmapVirt (s.table i) addr + length ≤ 2 ^ 32 - pageSize) ∧
      (Delivered s' i v length prot ∧ Admitted s' i v length prot ↔
        mmapVirt (s.table i) addr + length ≤ 2 ^ 32 - pageSize ∧
        ∀ a, mmapVirt (s.table i) addr ≤ a → a < mmapVirt (s.table i) addr + length →
          present (pdeOf s i a) = true → Admits prot (pdeOf s i a)) := by
  obtain ⟨here, positive, p, loop, paging, directory, heapEnd⟩ := processMmap_mapped done success
  rw [← here]
  obtain ⟨⟨l, x, furnished⟩, ends, small⟩ := equipped
  have aligned : pageSize ∣ v := by
    rw [here, mmapVirt]
    split
    · exact dvd_frame
    · exact ends
  have progress := mmapPages_progress furnished mmapFlags_lt loop
  have pdes : ∀ a, pdeOf s' i a = entry p.mem (s.table i).pageDirectory (dirIndex a) := fun a => by
    rw [pdeOf, directory, paging]
  have words : v + length ≤ 2 ^ 32 - pageSize → ∀ a, v ≤ a → a < v + length →
      present (pdeOf s' i a) = true ∧ Grants prot (pteOf s' i a) := by
    intro fits a low high
    obtain ⟨k, less, page⟩ := pageVirt_of_mem aligned fits low high
    have below : a < 2 ^ 32 := by omega
    obtain ⟨f, whole, word⟩ := progress.pages k less a below page
    have grants : Grants prot (pageWord p.mem (s.table i).pageDirectory a) := by
      rw [word]
      exact grants_word whole
    obtain ⟨table, same⟩ := present_pageWord grants.present
    rw [← same] at grants
    rw [pteOf, pdes, paging]
    exact ⟨table, grants⟩
  have delivered : Delivered s' i v length prot ↔ v + length ≤ 2 ^ 32 - pageSize := by
    constructor
    · intro asked
      refine fits_of_heapEnd ?_ ?_ asked.heapEnd
      · rw [heapEnd]
        rcases max_cases (s.table i).heapEnd ((v + pagesNeeded length * pageSize % 2 ^ 32) % 2 ^ 32) with
          ⟨same, -⟩ | ⟨same, -⟩
        · rw [same]
          exact ends
        · rw [same]
          simp only [pageSize] at *
          omega
      · rw [heapEnd]
        exact max_lt small (Nat.mod_lt _ (by decide))
    · intro fits
      refine ⟨aligned, fits.trans (Nat.sub_le _ _), words fits, ?_⟩
      rw [heapEnd]
      exact (mmapStop_of_fits aligned fits).trans (le_max_right _ _)
  refine ⟨delivered, ?_⟩
  rw [delivered]
  refine and_congr_right fun fits => forall_congr' fun a => forall_congr' fun low =>
    forall_congr' fun high => ?_
  have row : dirIndex a < pageEntries := dirIndex_lt (by omega)
  rw [pdes]
  rcases progress.rows _ row with kept | ⟨absent, linked⟩
  · have before : pdeOf s i a = entry p.mem (s.table i).pageDirectory (dirIndex a) := kept.symm
    have table := (words fits a low high).1
    rw [pdes] at table
    rw [before]
    exact ⟨fun admits _ => admits, fun admits => admits table⟩
  · have before : present (pdeOf s i a) = false := absent
    rw [before]
    exact iff_of_true (admits_linked linked) fun here => by cases here

/-- The live processes of the kernel. -/
theorem KernelInv.equipped {l : List Segment} {own : Owner → Option Nat} (inv : KernelInv grid image s l own)
    (live : (s.table i).live) (small : (s.table i).heapEnd < 2 ^ 32) : Equipped image s i := by
  obtain ⟨x, owned⟩ := inv.directories i live
  exact ⟨⟨l, x, inv.layout.furnished owned⟩, inv.heapEnd i, small⟩

/-- The first process of a fresh kernel. -/
theorem freshProcess_made : Equipped sampleImage (afterCreate freshKernel) firstSlot ∧
    processCreate sampleImage freshKernel 0 0 = .ok (afterCreate freshKernel, some firstSlot) := by
  obtain ⟨t, own, created, inv, mapped, -⟩ :=
    freshKernel_booted.created freshKernel_blocks freshKernel_spaced rfl rfl rfl rfl
  have same : afterCreate freshKernel = t := by
    rw [afterCreate, created]
    rfl
  rw [same]
  exact ⟨inv.equipped mapped.live (by rw [← same]; decide +kernel), created⟩

/-- What a `process_mmap` of it gives. -/
def freshMmap (addr length : Nat) : Outcome (Kernel × Nat) :=
  processMmap (afterCreate freshKernel) (some firstSlot) addr length (protRead ||| protWrite)
    (mapPrivate ||| mapAnonymous)

/-- The state after it, and the address. -/
def freshMapped (addr length : Nat) : Kernel × Nat := (freshMmap addr length).getD (freshKernel, 0)

/-- It asks for 5000 bytes, at the end of its heap. -/
theorem mmap_maps_asked_fresh : freshMmap 0 5000 = .ok ((freshMapped 0 5000).1, 0x08080000) ∧
    Delivered (freshMapped 0 5000).1 firstSlot 0x08080000 5000 (protRead ||| protWrite) := by
  have address : (freshMapped 0 5000).2 = 0x08080000 := by decide +kernel
  have done : freshMmap 0 5000 = .ok ((freshMapped 0 5000).1, 0x08080000) := by
    rw [← address]
    exact Outcome.eq_ok_getD (by decide +kernel) (freshKernel, 0)
  have asked := @mmap_maps_asked sampleImage (afterCreate freshKernel) (freshMapped 0 5000).1 firstSlot 0
    (mapPrivate ||| mapAnonymous) 5000 (protRead ||| protWrite) 0x08080000 freshProcess_made.1 done
    (by decide)
  exact ⟨done, asked.1.mpr (by decide +kernel)⟩

/-- It asks for all but one byte of the address space, and gets an address, with nothing there. -/
theorem mmap_maps_nothing : Booted sampleImage freshKernel ∧
    processCreate sampleImage freshKernel 0 0 = .ok (afterCreate freshKernel, some firstSlot) ∧
    ((afterCreate freshKernel).table firstSlot).live ∧
    freshMmap 0x20000000 0xFFFFFFFF = .ok (freshMapped 0x20000000 0xFFFFFFFF) ∧
    (freshMapped 0x20000000 0xFFFFFFFF).2 = 0x20000000 ∧
    present (pdeOf (freshMapped 0x20000000 0xFFFFFFFF).1 firstSlot 0x20000000) = false ∧
    ¬ Delivered (freshMapped 0x20000000 0xFFFFFFFF).1 firstSlot 0x20000000 0xFFFFFFFF
      (protRead ||| protWrite) :=
  ⟨freshKernel_booted, freshProcess_made.2, by decide +kernel,
    Outcome.eq_ok_getD (by decide +kernel) (freshKernel, 0), by decide +kernel, by decide +kernel,
    fun delivered => absurd delivered.fits (by decide)⟩

end Call

end Kfs.Process
