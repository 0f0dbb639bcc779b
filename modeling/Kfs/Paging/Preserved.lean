/-
**A clone is a copy of the address space, when its pages are page-aligned.**

A block's payload lies anywhere in its page. Where that is no page boundary, the low bits of its address
end up among the flags of the clone's entry, and the frame that the entry designates begins before the
payload.

* `Built`: the directories built by `paging_create_directory` and `paging_map_page_in_directory`, and what
  they keep (`Rooted`): they and their tables lie apart from free memory.
* `clone_preserves` — of such a directory the clone is a copy when first fit puts every page it asks for
  at a page boundary and no frame of the source is touched by what the clone asks for up to that page; and
  where a page is put elsewhere, a copy would need the low bits among the flags, and a block's magic number
  in the source page.
-/

import Kfs.Paging.Attempt

namespace Kfs.Paging

open Kfs.Heap Memory

/-! ### Directories built by the paging code -/

/-- The directory has the kernel's first two entries. -/
def SharesKernel (image : KernelImage) (m : Memory) (d : Nat) : Prop :=
  entry m d 0 = image.table0 ||| pagePresent ||| pageWrite ∧
    entry m d 1 = image.table1 ||| pagePresent ||| pageWrite

/-- The directory itself, or a table of its user part. -/
def PartOf (m : Memory) (d a : Nat) : Prop :=
  a = d ∨ ∃ i, 2 ≤ i ∧ i < pageEntries ∧ present (entry m d i) = true ∧ a = frame (entry m d i)

/-- **The states in which `d` is a directory built by `paging_create_directory` and
`paging_map_page_in_directory`**, with any physical addresses and flags, except that a call which makes a
table has its flags in the low twelve bits: it does not mask them in the directory's entry, and higher bits
would change the table's address. In between anything may happen that leaves the heap in order and the
directory with its tables as they are. -/
inductive Built (image : KernelImage) (d : Nat) : PagingState → Prop
  | create {s s' : PagingState} {l : List Segment} (heap : HeapInv s.heap l)
      (kernel : SharesKernel image s.mem image.directory)
      (done : pagingCreateDirectory image s = .ok (s', d)) (found : d ≠ 0) : Built image d s'
  | map {s s' : PagingState} {virt phys flags : Nat} (built : Built image d s) (small : virt < 2 ^ 32)
      (low : present (entry s.mem d (dirIndex virt)) = false → flags < pageSize)
      (done : pagingMapPageInDirectory s d virt phys flags = .ok s') : Built image d s'
  | other {s s' : PagingState} {l l' : List Segment} (built : Built image d s)
      (list : blockList s.heap = some l) (heap : HeapInv s'.heap l')
      (keeps : ∀ y, PartOf s.mem d (home y) → Holds l y (2 * pageSize) → Holds l' y (2 * pageSize) ∧
        ∀ j < pageEntries, entry s'.mem (home y) j = entry s.mem (home y) j) : Built image d s'

/-- What such a directory keeps: a block of its own, and one for every table of its user part. -/
structure Rooted (image : KernelImage) (d : Nat) (s : PagingState) (l : List Segment) (x : Nat) :
    Prop where
  heap : HeapInv s.heap l
  place : d = home x
  held : Holds l x (2 * pageSize)
  kernel : SharesKernel image s.mem d
  tables : ∀ i, 2 ≤ i → i < pageEntries → present (entry s.mem d i) = true →
    ∃ y, frame (entry s.mem d i) = home y ∧ Holds l y (2 * pageSize) ∧ y ≠ x

section Built

variable {image : KernelImage} {l l' : List Segment} {m : Memory} {s s' : PagingState} {h : HeapState}
  {a d flags i j phys t v virt x y : Nat}

theorem sheltered_below (heap : HeapInv h l) (low : a + pageSize ≤ heapStart) : Sheltered l a := by
  intro c inside t found _ covers
  have := heap.bounds found
  simp only [Set.mem_Ico, Segment.Covers] at *
  omega

theorem sheltered_home (heap : HeapInv h l) (held : Holds l y (2 * pageSize)) :
    Sheltered l (home y) := by
  have near := home_bounds heap held
  exact sheltered_of_holds heap held near.1 (by omega)

/-- Memory below the heap is no part of it. -/
theorem heap_setEntry_below (heap : HeapInv s.heap l) (low : t + pageSize ≤ heapStart)
    (index : j < pageEntries) : HeapInv (s.write (setEntry s.mem t j v)).heap l := by
  refine ⟨heap.ready, heap.start, heap.linked.congr fun b member => ?_, heap.tiles, heap.legal,
    heap.apart⟩
  have inside := heap.bounds member
  refine (store32_eqOn s.mem _ v).mono fun c within => ?_
  simp only [Set.mem_Ico, Set.mem_ofPred_eq, pageSize, pageEntries] at *
  omega

theorem present_kernel : present (t ||| pagePresent ||| pageWrite) = true := by
  rw [present_or, present_or, show present pagePresent = true by decide, Bool.or_true, Bool.true_or]

namespace Rooted

/-- A new directory, with an empty user part. -/
theorem create (heap : HeapInv s.heap l) (kernel : SharesKernel image s.mem image.directory)
    (done : pagingCreateDirectory image s = .ok (s', d)) (found : d ≠ 0) :
    ∃ l' x, Rooted image d s' l' x ∧ ∀ i, 2 ≤ i → i < pageEntries → entry s'.mem d i = 0 := by
  obtain ⟨⟨h, ptr⟩, taken, rest⟩ := Outcome.bind_eq_ok.mp done
  rcases (Since.refl heap).takePage taken with
    ⟨rfl, rfl⟩ | ⟨l', x, rfl, nonzero, -, next, -, held, filled, -, empty⟩
  · cases rest
    exact absurd rfl found
  · simp only at rest
    rw [if_neg nonzero] at rest
    have below := sheltered_below heap image.low.1
    have first : entry (h.mem.fill (home x) 0 pageSize) image.directory 0 =
        image.table0 ||| pagePresent ||| pageWrite :=
      (next.entry below (by decide)).trans kernel.1
    obtain ⟨one, _⟩ := next.setEntry held filled (by decide : 0 < pageEntries)
      (image.table0 ||| pagePresent ||| pageWrite)
    have second : entry (setEntry (h.mem.fill (home x) 0 pageSize) (home x) 0
        (image.table0 ||| pagePresent ||| pageWrite)) image.directory 1 =
        image.table1 ||| pagePresent ||| pageWrite :=
      (one.entry below (by decide)).trans kernel.2
    obtain ⟨two, _⟩ := one.setEntry held filled (by decide : 1 < pageEntries)
      (image.table1 ||| pagePresent ||| pageWrite)
    rw [first, second] at rest
    cases rest
    have entries : ∀ k < pageEntries, entry (setEntry (setEntry (h.mem.fill (home x) 0 pageSize)
        (home x) 0 (image.table0 ||| pagePresent ||| pageWrite)) (home x) 1
        (image.table1 ||| pagePresent ||| pageWrite)) (home x) k =
        if k = 1 then image.table1 ||| pagePresent ||| pageWrite
        else if k = 0 then image.table0 ||| pagePresent ||| pageWrite else 0 := by
      intro k index
      have small0 : (image.table0 ||| pagePresent ||| pageWrite) % 2 ^ 32 =
          image.table0 ||| pagePresent ||| pageWrite := Nat.mod_eq_of_lt (first ▸ entry_lt)
      have small1 : (image.table1 ||| pagePresent ||| pageWrite) % 2 ^ 32 =
          image.table1 ||| pagePresent ||| pageWrite := Nat.mod_eq_of_lt (second ▸ entry_lt)
      rw [entry_setEntry dvd_home dvd_home (by decide) index,
        entry_setEntry dvd_home dvd_home (by decide) index, empty k index, small0, small1]
      simp only [true_and]
    have none : ∀ i, 2 ≤ i → i < pageEntries → entry _ (home x) i = 0 := fun i low index =>
      (entries i index).trans ((if_neg (by omega)).trans (if_neg (by omega)))
    refine ⟨l', x, ⟨two.heap, rfl, held, ⟨?_, ?_⟩, fun i low index here => ?_⟩, none⟩
    · exact (entries 0 (by decide)).trans (by simp)
    · exact (entries 1 (by decide)).trans (by simp)
    · cases (congrArg present (none i low index)).symm.trans here

/-- An address without a table is in the user part. -/
theorem two_le_of_absent (rooted : Rooted image d s l x) (here : present (entry s.mem d i) = false) : 2 ≤ i := by
  by_contra below
  have kernel := rooted.kernel
  obtain zero | one : i = 0 ∨ i = 1 := by omega
  · rw [zero, kernel.1, present_kernel] at here
    cases here
  · rw [one, kernel.2, present_kernel] at here
    cases here

theorem row_spared (rooted : Rooted image d s l x) (spares : Spares ∅ l l' s.mem m) :
    ∀ k < pageEntries, entry m d k = entry s.mem d k := by
  intro k inside
  rw [rooted.place]
  exact spares.entry rooted.heap rooted.held (Set.notMem_empty x) inside

/-- Writing one entry of the directory, when other blocks may have been taken. -/
theorem setEntry_row (rooted : Rooted image d s l x) (next : HeapInv s'.heap l') (held : Holds l' x (2 * pageSize))
    (row : ∀ k < pageEntries, entry s'.mem d k = entry s.mem d k) (index : i < pageEntries) (small : v < 2 ^ 32) :
    HeapInv (s'.write (setEntry s'.mem d i v)).heap l' ∧
      ∀ k < pageEntries, entry (setEntry s'.mem d i v) d k = if k = i then v else entry s.mem d k := by
  have inBlock : Set.EqOn (setEntry s'.mem d i v) s'.mem {a | a < x ∨ x + 2 * pageSize ≤ a} := by
    have near := home_bounds next held
    rw [rooted.place]
    refine (store32_eqOn _ _ _).mono fun a outside => ?_
    simp only [Set.mem_ofPred_eq, pageSize, pageEntries] at *
    omega
  refine ⟨(write_exact next held (Multiset.notMem_zero x) inBlock).1, fun k inside => ?_⟩
  have aligned : pageSize ∣ d := rooted.place ▸ dvd_home
  rw [entry_setEntry aligned aligned index inside, Nat.mod_eq_of_lt small, row k inside]
  simp only [true_and]

/-- **A new table** in a block of its own is entered for a user address. -/
theorem enterTable (rooted : Rooted image d s l x) (next : HeapInv s'.heap l') (spares : Spares ∅ l l' s.mem s'.mem)
    (heldY : Holds l' y (2 * pageSize)) (other : y ≠ x) (user : 2 ≤ i) (index : i < pageEntries)
    (small : v < 2 ^ 32) (framed : frame v = home y) : Rooted image d (s'.write (setEntry s'.mem d i v)) l' x := by
  have held := spares.holds x _ rooted.held
  obtain ⟨heap, entries⟩ := rooted.setEntry_row next held (rooted.row_spared spares) index small
  refine ⟨heap, rooted.place, held, ⟨?_, ?_⟩, fun k low' inside found => ?_⟩
  · exact (entries 0 (by decide)).trans ((if_neg (by omega)).trans rooted.kernel.1)
  · exact (entries 1 (by decide)).trans ((if_neg (by omega)).trans rooted.kernel.2)
  · by_cases same : k = i
    · exact ⟨y, (congrArg frame ((entries k inside).trans (if_pos same))).trans framed, heldY, other⟩
    · have old := (entries k inside).trans (if_neg same)
      obtain ⟨z, framed, heldZ, apart⟩ := rooted.tables k low' inside ((congrArg present old).symm.trans found)
      exact ⟨z, (congrArg frame old).trans framed, spares.holds z _ heldZ, apart⟩

/-- The table for an address, cleared if it is new. -/
theorem ensureTable (rooted : Rooted image d s l x) (index : dirIndex virt < pageEntries)
    (low : present (entry s.mem d (dirIndex virt)) = false → flags < pageSize)
    (done : ensureTable s d virt flags = .ok s') :
    ∃ l', Rooted image d s' l' x ∧ present (entry s'.mem d (dirIndex virt)) = true ∧
      (∀ k < pageEntries, k ≠ dirIndex virt → entry s'.mem d k = entry s.mem d k) ∧
      (present (entry s.mem d (dirIndex virt)) = false →
        ∀ j < pageEntries, entry s'.mem (frame (entry s'.mem d (dirIndex virt))) j = 0) := by
  rcases ensureTable_cases done with ⟨here, rfl⟩ | ⟨here, s₁, t, taken, nonnull, rfl⟩
  · exact ⟨l, rooted, here, fun _ _ _ => rfl, fun absent => by cases absent.symm.trans here⟩
  · obtain ⟨⟨h, ptr⟩, block, last⟩ := Outcome.bind_eq_ok.mp taken
    rcases (Since.refl rooted.heap).takePage block with
      ⟨rfl, rfl⟩ | ⟨l₁, y, rfl, nonzero, -, next, spares, heldY, -, absent, empty⟩
    · cases last
      exact absurd rfl nonnull
    · simp only at last
      rw [if_neg nonzero] at last
      cases last
      have user := rooted.two_le_of_absent here
      have other : y ≠ x := fun same => absent _ (same ▸ rooted.held)
      have held := spares.holds x _ rooted.held
      have bounds := heldY.bounds next.heap
      have near := home_bounds next.heap heldY
      have small : home y ||| pagePresent ||| pageWrite ||| flags < 2 ^ 32 := by
        refine or_lt (or_lt (or_lt ?_ (by decide)) (by decide)) (low here)
        simp only [heapEnd, heapStart, heapSize, pageSize] at *
        omega
      have framed : frame (home y ||| pagePresent ||| pageWrite ||| flags) = home y :=
        frame_tableEntry dvd_home (low here)
      have seen : present (home y ||| pagePresent ||| pageWrite ||| flags) = true := by
        rw [present_or, present_kernel, Bool.true_or]
      obtain ⟨-, entries⟩ := rooted.setEntry_row next.heap held (rooted.row_spared spares) index small
      have mine := (entries _ index).trans (if_pos rfl)
      refine ⟨l₁, rooted.enterTable next.heap spares heldY other user index small framed,
        (congrArg present mine).trans seen, fun k inside other => (entries k inside).trans (if_neg other),
        fun _ j column => ?_⟩
      have apart : d ≠ home y := fun same =>
        other (home_inj next.heap heldY held (same.symm.trans rooted.place))
      have leads := (congrArg frame mine).trans framed
      refine (congrArg (fun t => entry _ t j) leads).trans ?_
      exact (entry_setEntry (rooted.place ▸ dvd_home) dvd_home index column).trans
        ((if_neg fun both => apart both.1.symm).trans (empty j column))

/-- An entry of a table, which is the kernel's or one of the directory's own. -/
theorem writeTable (rooted : Rooted image d s l x) (index : i < pageEntries) (column : j < pageEntries)
    (here : present (entry s.mem d i) = true) (v : Nat) :
    HeapInv (s.write (setEntry s.mem (frame (entry s.mem d i)) j v)).heap l ∧
      frame (entry s.mem d i) ≠ home x := by
  have near := home_bounds rooted.heap rooted.held
  have bounds := rooted.held.bounds rooted.heap
  by_cases user : 2 ≤ i
  · obtain ⟨y, framed, held, other⟩ := rooted.tables _ user index here
    rw [framed]
    have nearY := home_bounds rooted.heap held
    refine ⟨(@write_exact 0 l _ _ (2 * pageSize) y rooted.heap held (Multiset.notMem_zero y)
      ((store32_eqOn s.mem _ v).mono fun a outside => ?_)).1, fun same =>
        other (home_inj rooted.heap held rooted.held same)⟩
    simp only [Set.mem_ofPred_eq, pageSize, pageEntries] at *
    omega
  · obtain ⟨t, framed, below⟩ : ∃ t, frame (entry s.mem d i) = t ∧ t + pageSize ≤ heapStart := by
      obtain rfl | rfl : i = 0 ∨ i = 1 := by omega
      · refine ⟨image.table0, ?_, image.low.2.1⟩
        rw [rooted.kernel.1, frame_or (by decide), frame_or (by decide), frame_of_dvd image.aligned.2.1]
      · refine ⟨image.table1, ?_, image.low.2.2⟩
        rw [rooted.kernel.2, frame_or (by decide), frame_or (by decide), frame_of_dvd image.aligned.2.2]
    rw [framed]
    refine ⟨heap_setEntry_below rooted.heap below column, ?_⟩
    simp only [pageSize] at *
    omega

/-- **A page** at any address, with any flags. -/
theorem mapPage (rooted : Rooted image d s l x) (small : virt < 2 ^ 32)
    (low : present (entry s.mem d (dirIndex virt)) = false → flags < pageSize)
    (done : pagingMapPageInDirectory s d virt phys flags = .ok s') :
    ∃ l', Rooted image d s' l' x ∧ present (entry s'.mem d (dirIndex virt)) = true ∧
      (∀ k < pageEntries, k ≠ dirIndex virt → entry s'.mem d k = entry s.mem d k) ∧
      (present (entry s.mem d (dirIndex virt)) = false → ∀ j < pageEntries,
        entry s'.mem (frame (entry s'.mem d (dirIndex virt))) j =
          if j = tableIndex virt then (frame phys ||| flagBits flags ||| pagePresent) % 2 ^ 32 else 0) := by
  have bounds := rooted.held.bounds rooted.heap
  have near := home_bounds rooted.heap rooted.held
  have index : dirIndex virt < pageEntries := dirIndex_lt small
  unfold pagingMapPageInDirectory at done
  rw [if_neg (by rw [rooted.place]; omega)] at done
  obtain ⟨s₁, ensured, rest⟩ := Outcome.bind_eq_ok.mp done
  obtain ⟨l₁, next, here, rows, cleared⟩ := rooted.ensureTable index low ensured
  cases rest
  generalize frame phys ||| flagBits flags ||| pagePresent = v
  have written := next.writeTable index (@tableIndex_lt virt) here v
  have row : ∀ k < pageEntries, entry (setEntry s₁.mem (frame (entry s₁.mem d (dirIndex virt)))
      (tableIndex virt) v) d k = entry s₁.mem d k := by
    intro k inside
    have aligned : pageSize ∣ d := next.place ▸ dvd_home
    rw [entry_setEntry dvd_frame aligned tableIndex_lt inside,
      if_neg fun both => written.2 (both.1.symm.trans next.place)]
  refine ⟨l₁, ⟨written.1, next.place, next.held, ⟨?_, ?_⟩, fun k low' inside found => ?_⟩,
    (congrArg present (row _ index)).trans here, fun k inside other => (row k inside).trans (rows k inside other),
    fun absent j column => ?_⟩
  · exact (row 0 (by decide)).trans next.kernel.1
  · exact (row 1 (by decide)).trans next.kernel.2
  · obtain ⟨y, framed, held, other⟩ := next.tables k low' inside
      ((congrArg present (row k inside)).symm.trans found)
    exact ⟨y, (congrArg frame (row k inside)).trans framed, held, other⟩
  · have same : entry _ d (dirIndex virt) = entry s₁.mem d (dirIndex virt) := row _ index
    show entry _ (frame (entry (setEntry s₁.mem (frame (entry s₁.mem d (dirIndex virt)))
      (tableIndex virt) v) d (dirIndex virt))) j = _
    rw [same]
    refine (entry_setEntry dvd_frame dvd_frame tableIndex_lt column).trans ?_
    simp only [true_and, cleared absent j column]

theorem sheltered (rooted : Rooted image d s l x) : Sheltered l d := by
  rw [rooted.place]
  exact sheltered_home rooted.heap rooted.held

theorem sheltered_table (rooted : Rooted image d s l x) (k : Nat) (low : 2 ≤ k) (index : k < pageEntries)
    (here : present (entry s.mem d k) = true) : Sheltered l (frame (entry s.mem d k)) := by
  obtain ⟨y, framed, held, -⟩ := rooted.tables k low index here
  rw [framed]
  exact sheltered_home rooted.heap held

theorem readable (rooted : Rooted image d s l x) : Readable l s.mem d :=
  ⟨rooted.sheltered, rooted.sheltered_table⟩

end Rooted

/-- **Every directory built by the paging code has blocks of its own.** -/
theorem Built.rooted (built : Built image d s) : ∃ l x, Rooted image d s l x := by
  induction built with
  | create heap kernel done found =>
      obtain ⟨l, x, rooted, -⟩ := Rooted.create heap kernel done found
      exact ⟨l, x, rooted⟩
  | map _ small low done ih =>
      obtain ⟨l, x, rooted⟩ := ih
      obtain ⟨l', next, -⟩ := rooted.mapPage small low done
      exact ⟨l', x, next⟩
  | @other s s' l l' _ list heap keeps ih =>
      obtain ⟨l₁, x, rooted⟩ := ih
      obtain rfl := Option.some.inj (rooted.heap.blockList_eq.symm.trans list)
      obtain ⟨held, row⟩ := keeps x (.inl rooted.place.symm) rooted.held
      rw [← rooted.place] at row
      refine ⟨l', x, heap, rooted.place, held, ⟨?_, ?_⟩, fun k low inside found => ?_⟩
      · exact (row 0 (by decide)).trans rooted.kernel.1
      · exact (row 1 (by decide)).trans rooted.kernel.2
      · rw [row k inside] at found ⊢
        obtain ⟨y, framed, heldY, other⟩ := rooted.tables k low inside found
        exact ⟨y, framed, (keeps y (.inr ⟨k, low, inside, found, framed.symm⟩) heldY).1, other⟩

/-- **It can be read while free memory is taken.** -/
theorem Built.readable (built : Built image d s) (heap : HeapInv s.heap l) : Readable l s.mem d := by
  obtain ⟨l₁, x, rooted⟩ := built.rooted
  cases rooted.heap.unique heap
  exact rooted.readable

end Built

/-! ### The copy -/

/-- The entry of the page at a virtual address, in the table that the directory leads to. -/
def pageEntry (m : Memory) (d virt : Nat) : Nat :=
  entry m (frame (entry m d (dirIndex virt))) (tableIndex virt)

/-- The page at a virtual address is the same in the directory `d` of memory `m'` as it was in `src` of
`m`, in a frame of its own. -/
structure PagePreserved (m m' : Memory) (src d virt : Nat) : Prop where
  maps : Maps m' d virt ↔ Maps m src virt
  flags : Maps m src virt →
    flagBits (entry m' d (dirIndex virt)) = flagBits (entry m src (dirIndex virt)) ∧
      flagBits (pageEntry m' d virt) = flagBits (pageEntry m src virt)
  bytes : Maps m src virt → ∀ k < pageSize,
    m' (frame (pageEntry m' d virt) + k) = m (frame (pageEntry m src virt) + k)
  apart : Maps m src virt → PageApart (frame (pageEntry m' d virt)) (frame (pageEntry m src virt))

/-- Every page of the user's part is preserved. -/
def Preserved (m m' : Memory) (src d : Nat) : Prop := ∀ virt, UserIndex virt → PagePreserved m m' src d virt

/-- What a clone has asked for when it has got the page for a virtual address. -/
def requestsTo (m : Memory) (src virt : Nat) : List Request :=
  .entries :: cloneRequests m src (dirIndex virt) ++ [.entries] ++
    tableRequests m (frame (entry m src (dirIndex virt))) (tableIndex virt + 1)

/-- No frame that the directory maps in the user's part is touched by what the clone asks for up to its page:
it is still as it was when it is copied, and the copy is elsewhere. -/
def FramesKept (l : List Segment) (m : Memory) (src : Nat) : Prop :=
  ∀ virt, UserIndex virt → Maps m src virt →
    Unwritten l (requestsTo m src virt) (frame (pageEntry m src virt))

/-- The low bits of `p` are among the flags of a page of `src`, whose frame holds a block's magic number
that many bytes in, less four. -/
def Coincides (m : Memory) (src p : Nat) : Prop :=
  ∃ virt, UserIndex virt ∧ Maps m src virt ∧
    flagBits p ||| flagBits (pageEntry m src virt) = flagBits (pageEntry m src virt) ∧
    m.load32 (frame (pageEntry m src virt) + p % pageSize - 4) = blockMagic

section Preserved

variable {image : KernelImage} {l l' l₀ : List Segment} {m m' m₀ : Memory} {s s' : PagingState}
  {given : List Nat} {h' : HeapState} {d e f p src virt x : Nat}

theorem flagBits_or : flagBits (e ||| f) = flagBits e ||| flagBits f := by
  simp only [flagBits, show pageSize = 2 ^ 12 by rfl, Nat.or_mod_two_pow]

theorem flagBits_of_dvd (aligned : pageSize ∣ e) : flagBits e = 0 := Nat.mod_eq_zero_of_dvd aligned

theorem flagBits_flagBits : flagBits (flagBits e) = flagBits e := Nat.mod_mod _ _

/-- The entry of a page-aligned block with the flags of another. -/
theorem flagBits_tagged (aligned : pageSize ∣ p) : flagBits (p ||| flagBits e) = flagBits e := by
  rw [flagBits_or, flagBits_of_dvd aligned, flagBits_flagBits, Nat.zero_or]

/-- What became of a page that is mapped. -/
theorem RowsCopied.page (copied : RowsCopied l₀ m₀ x l m src d pageEntries given) (user : UserIndex virt)
    (maps : Maps m₀ src virt) : ∃ y, entry m d (dirIndex virt) =
      home y ||| flagBits (entry m₀ src (dirIndex virt)) ∧ ∃ p ∈ given,
        PageCopied l₀ m₀ (requestsTo m₀ src virt) {x} l m p (pageEntry m₀ src virt) (pageEntry m d virt) := by
  obtain ⟨gs, part, y, here, -, -, table⟩ := copied.tables _ user.1 user.2 maps.1
  obtain ⟨p, member, page⟩ := table.pages _ tableIndex_lt maps.2
  refine ⟨y, here, p, part p member, ?_⟩
  unfold pageEntry
  rwa [here, frame_or flagBits_lt, frame_of_dvd dvd_home]

theorem RowsCopied.maps (copied : RowsCopied l₀ m₀ x l m src d pageEntries given)
    (user : UserIndex virt) : Maps m d virt ↔ Maps m₀ src virt := by
  cases here : present (entry m₀ src (dirIndex virt)) with
  | false =>
      have none := copied.absent _ user.1 user.2 here
      simp only [Maps, here, none, Bool.false_eq_true, false_and]
  | true =>
      obtain ⟨gs, part, y, linked, -, -, table⟩ := copied.tables _ user.1 user.2 here
      have framed : frame (entry m d (dirIndex virt)) = home y := by
        rw [linked, frame_or flagBits_lt, frame_of_dvd dvd_home]
      have seen : present (entry m d (dirIndex virt)) = true := by
        rw [linked, present_or, present_flagBits, here, Bool.or_true]
      simp only [Maps, here, seen, framed, true_and]
      cases found : present (entry m₀ (frame (entry m₀ src (dirIndex virt))) (tableIndex virt)) with
      | false => simp [table.absent _ tableIndex_lt found]
      | true =>
          obtain ⟨p, -, page⟩ := table.pages _ tableIndex_lt found
          rw [page.entry, present_or, present_flagBits, found, Bool.or_true]

/-- The frames of the clone are those of its blocks: a copy. -/
theorem RowsCopied.preserved (copied : RowsCopied l₀ m₀ x l m src d pageEntries given)
    (aligned : ∀ p ∈ given, pageSize ∣ p) (kept : FramesKept l₀ m₀ src) :
    Preserved m₀ m src d := by
  intro virt user
  refine ⟨copied.maps user, fun maps => ?_, fun maps => ?_, fun maps => ?_⟩
  · obtain ⟨y, linked, p, member, page⟩ := copied.page user maps
    rw [linked, flagBits_tagged dvd_home, page.entry, flagBits_tagged (aligned p member)]
    exact ⟨rfl, rfl⟩
  · obtain ⟨y, linked, p, member, page⟩ := copied.page user maps
    rw [page.entry, frame_or flagBits_lt, frame_of_dvd (aligned p member)]
    exact page.bytes (kept virt user maps)
  · obtain ⟨y, linked, p, member, page⟩ := copied.page user maps
    rw [page.entry, frame_or flagBits_lt, frame_of_dvd (aligned p member)]
    exact page.filled.apart (kept virt user maps)

/-- **A copy in spite of a page that is not aligned** needs a coincidence. -/
theorem RowsCopied.coincides (copied : RowsCopied l₀ m₀ x l m src d pageEntries given)
    (heap : HeapInv h' l) (here : h'.mem = m) (preserved : Preserved m₀ m src d) (member : p ∈ given) :
    pageSize ∣ p ∨ Coincides m₀ src p := by
  obtain ⟨k, gs, low, high, rowHere, inside, y, linked, -, -, table⟩ := copied.given p member
  obtain ⟨j, column, found, page⟩ := table.given p inside
  obtain ⟨virt, row, index⟩ : ∃ virt, dirIndex virt = k ∧ tableIndex virt = j := by
    refine ⟨k * 2 ^ 22 + j * 2 ^ 12, ?_, ?_⟩
    · simp only [dirIndex, pageEntries] at *
      omega
    · simp only [tableIndex, pageEntries] at *
      omega
  subst row index
  have maps : Maps m₀ src virt := ⟨rowHere, found⟩
  have same := preserved virt ⟨low, high⟩
  have entries : pageEntry m d virt = p ||| flagBits (pageEntry m₀ src virt) := by
    rw [pageEntry, linked, frame_or flagBits_lt, frame_of_dvd dvd_home]
    exact page.entry
  have flags := (same.flags maps).2
  have bytes := same.bytes maps
  rw [entries, flagBits_or, flagBits_flagBits] at flags
  rw [entries, frame_or flagBits_lt] at bytes
  by_cases aligned : pageSize ∣ p
  · exact .inl aligned
  · refine .inr ⟨virt, ⟨low, high⟩, maps, flags, ?_⟩
    obtain ⟨b, listed, used, rfl, room⟩ := page.held
    have word := heap.addr_dvd listed
    have magic : m.load32 (b.addr + 12) = blockMagic := by
      rw [← here]
      exact (heap.linked.header listed).2.2
    rw [← magic]
    -- the frame begins before the payload, so the four bytes before it are in the frame
    have rest : (b.addr + 16) % pageSize ≠ 0 := fun zero => aligned (Nat.dvd_of_mod_eq_zero zero)
    have parts : frame (b.addr + 16) + (b.addr + 16) % pageSize = b.addr + 16 := by
      rw [frame, Nat.mul_comm]
      exact Nat.div_add_mod _ _
    have small : (b.addr + 16) % pageSize < pageSize := Nat.mod_lt _ (by decide)
    have four : 4 ≤ (b.addr + 16) % pageSize := by
      simp only [pageSize] at *
      omega
    have byte : ∀ i < 4, m₀ (frame (pageEntry m₀ src virt) + (b.addr + 16) % pageSize - 4 + i) =
        m (b.addr + 12 + i) := by
      intro i few
      have read := bytes ((b.addr + 16) % pageSize - 4 + i) (by omega)
      rw [show frame (b.addr + 16) + ((b.addr + 16) % pageSize - 4 + i) = b.addr + 12 + i by omega] at read
      rw [read]
      congr 1
      omega
    simp only [load32]
    rw [byte 1 (by decide), byte 2 (by decide), byte 3 (by decide)]
    have zero := byte 0 (by decide)
    rw [Nat.add_zero, Nat.add_zero] at zero
    rw [zero]

/-- The copy of a directory, with the pages that first fit gives. -/
theorem Readable.copied (readable : Readable l s.mem src) (heap : HeapInv s.heap l)
    (done : pagingCloneDirectory s src = .ok (s', d)) (found : d ≠ 0) :
    ∃ x l', HeapInv s'.heap l' ∧ RowsCopied l s.mem x l' s'.mem src d pageEntries
      (userPages l (.entries :: cloneRequests s.mem src pageEntries)) := by
  obtain ⟨x', l', given, rfl, copy⟩ := cloneDirectory_copies heap readable.directory readable.tables done found
  rw [copy.served.listed]
  exact ⟨x', l', copy.since.heap, copy.copied⟩

/-- **Cloning an address space.** A directory built by the paging code can be read while it is cloned. Of any
such directory a clone that is returned is a copy if first fit puts every page at a page boundary and touches
no frame before it is copied; and it is none as soon as some page is put elsewhere, unless the low bits of its
address and the bytes before it coincide with the flags and the bytes of a page of the source. -/
theorem clone_preserves (heap : HeapInv s.heap l) (done : pagingCloneDirectory s src = .ok (s', d))
    (found : d ≠ 0) :
    (Built image src s → Readable l s.mem src) ∧
    (Readable l s.mem src →
      ((∀ p ∈ userPages l (.entries :: cloneRequests s.mem src pageEntries), pageSize ∣ p) →
        FramesKept l s.mem src → Preserved s.mem s'.mem src d) ∧
      (Preserved s.mem s'.mem src d →
        ∀ p ∈ userPages l (.entries :: cloneRequests s.mem src pageEntries),
          pageSize ∣ p ∨ Coincides s.mem src p)) := by
  refine ⟨fun built => built.readable heap, fun readable => ?_⟩
  obtain ⟨x, l', heap', copied⟩ := readable.copied heap done found
  exact ⟨copied.preserved, fun preserved p member => copied.coincides heap' rfl preserved member⟩

end Preserved

/-! ### A directory with one page -/

section OnePage

variable {image : KernelImage} {l : List Segment} {m : Memory} {s s' : PagingState} {h : HeapState}
  {d flags i j phys src virt : Nat}

theorem flatMap_single {α : Type} {f : Nat → List α} {n : Nat} (inside : i < n)
    (others : ∀ k < n, k ≠ i → f k = []) : (List.range n).flatMap f = f i := by
  induction n with
  | zero => exact absurd inside (Nat.not_lt_zero i)
  | succ n ih =>
      rw [List.range_succ, List.flatMap_append, List.flatMap_singleton]
      by_cases last : i = n
      · subst last
        have none : (List.range i).flatMap f = [] := List.flatMap_eq_nil_iff.mpr fun k member =>
          have below := List.mem_range.mp member
          others k (by omega) (by omega)
        rw [none, List.nil_append]
      · rw [ih (by omega) fun k below => others k (by omega), others n (by omega) (by omega),
          List.append_nil]

/-- One table with one page. -/
theorem cloneRequests_single (low : 2 ≤ i) (index : i < pageEntries)
    (here : present (entry m src i) = true)
    (rows : ∀ k, 2 ≤ k → k < pageEntries → k ≠ i → present (entry m src k) = false)
    (column : j < pageEntries) (page : present (entry m (frame (entry m src i)) j) = true)
    (others : ∀ k < pageEntries, k ≠ j → present (entry m (frame (entry m src i)) k) = false) :
    cloneRequests m src pageEntries = [.entries, .page] := by
  have table : tableRequests m (frame (entry m src i)) pageEntries = [.page] := by
    refine (flatMap_single column fun k below other => ?_).trans (if_pos page)
    rw [others k below other, if_neg (by decide)]
  refine (flatMap_single index fun k below other => ?_).trans ?_
  · by_cases user : 2 ≤ k
    · rw [entryRequests, rows k user below other, if_neg (by simp)]
    · exact if_neg fun both => user both.1
  · rw [entryRequests, if_pos ⟨low, here⟩, table]

/-- **The first page** of a directory is its only one. -/
theorem Rooted.firstPage {x : Nat} (rooted : Rooted image d s l x)
    (empty : ∀ i, 2 ≤ i → i < pageEntries → entry s.mem d i = 0) (user : UserIndex virt)
    (small : virt < 2 ^ 32) (low : flags < pageSize) (fits : phys < 2 ^ 32)
    (done : pagingMapPageInDirectory s d virt phys flags = .ok s') :
    cloneRequests s'.mem d pageEntries = [.entries, .page] ∧ Maps s'.mem d virt ∧
      ∀ w, UserIndex w → Maps s'.mem d w →
        pageEntry s'.mem d w = frame phys ||| flagBits flags ||| pagePresent := by
  obtain ⟨l', -, here, rows, columns⟩ := rooted.mapPage small (fun _ => low) done
  have table := columns (by rw [empty _ user.1 user.2]; decide)
  have row : ∀ k, 2 ≤ k → k < pageEntries → k ≠ dirIndex virt → present (entry s'.mem d k) = false := by
    intro k above below other
    rw [rows k below other, empty k above below]
    decide
  have column : ∀ k < pageEntries, k ≠ tableIndex virt →
      present (entry s'.mem (frame (entry s'.mem d (dirIndex virt))) k) = false := by
    intro k below other
    rw [table k below, if_neg other]
    decide
  have word : (frame phys ||| flagBits flags ||| pagePresent) % 2 ^ 32 =
      frame phys ||| flagBits flags ||| pagePresent :=
    Nat.mod_eq_of_lt (or_lt (or_lt (lt_of_le_of_lt frame_le fits) flagBits_lt) (by decide))
  have last := table _ (tableIndex_lt : tableIndex virt < pageEntries)
  rw [if_pos rfl, word] at last
  have page : present (entry s'.mem (frame (entry s'.mem d (dirIndex virt))) (tableIndex virt)) = true := by
    rw [last, present_or, show present pagePresent = true by decide, Bool.or_true]
  refine ⟨cloneRequests_single user.1 user.2 here row tableIndex_lt page column, ⟨here, page⟩,
    fun w within maps => ?_⟩
  have same : dirIndex w = dirIndex virt := by
    by_contra other
    exact absurd maps.1 (by rw [row _ within.1 within.2 other]; decide)
  have first : tableIndex w = tableIndex virt := by
    by_contra other
    have seen := maps.2
    rw [same, column _ tableIndex_lt other] at seen
    cases seen
  rw [pageEntry, same, first, last]

theorem lowImage_aligned : pageSize ∣ 0x200000 ∧ pageSize ∣ 0x201000 ∧ pageSize ∣ 0x202000 := by decide

theorem lowImage_distinct : 0x200000 ≠ 0x201000 ∧ 0x200000 ≠ 0x202000 ∧ 0x201000 ≠ 0x202000 := by decide

theorem lowImage_nonzero : 0 < 0x200000 ∧ 0 < 0x201000 ∧ 0 < 0x202000 := by decide

theorem lowImage_low : 0x200000 + pageSize ≤ heapStart ∧ 0x201000 + pageSize ≤ heapStart ∧
    0x202000 + pageSize ≤ heapStart := by decide

/-- A kernel with its directory and tables at 2 MB. -/
def lowImage : KernelImage where
  directory := 0x200000
  table0 := 0x201000
  table1 := 0x202000
  aligned := lowImage_aligned
  distinct := lowImage_distinct
  nonzero := lowImage_nonzero
  low := lowImage_low

/-- Its state after `paging_init`, once the rest of the kernel has used the heap. -/
def startOn (h : HeapState) : PagingState := ⟨h, lowImage.directory, []⟩

/-- A directory created then, and its address. -/
def createdOn (h : HeapState) : PagingState × Nat :=
  (pagingCreateDirectory lowImage (startOn h)).getD (startOn h, 0)

/-- The directory with the frame at 6 MB mapped at the user's stack. -/
def mappedOn (h : HeapState) : PagingState :=
  (pagingMapPageInDirectory (createdOn h).1 (createdOn h).2 0x10000000 0x600000
    (pageWrite ||| pageUser)).getD (createdOn h).1

/-- It is built by the paging code, and has one page. -/
theorem mappedOn_built (heap : HeapInv h l) (kernel : SharesKernel lowImage h.mem lowImage.directory)
    (made : (pagingCreateDirectory lowImage (startOn h)).isOk = true) (found : (createdOn h).2 ≠ 0)
    (mapped : (pagingMapPageInDirectory (createdOn h).1 (createdOn h).2 0x10000000 0x600000
      (pageWrite ||| pageUser)).isOk = true) :
    Built lowImage (createdOn h).2 (mappedOn h) ∧
      cloneRequests (mappedOn h).mem (createdOn h).2 pageEntries = [.entries, .page] ∧
      Maps (mappedOn h).mem (createdOn h).2 0x10000000 ∧
      ∀ w, UserIndex w → Maps (mappedOn h).mem (createdOn h).2 w →
        pageEntry (mappedOn h).mem (createdOn h).2 w = 0x600007 := by
  have first := Outcome.eq_ok_getD made (startOn h, 0)
  have second := Outcome.eq_ok_getD mapped (createdOn h).1
  obtain ⟨l', x, rooted, empty⟩ := @Rooted.create lowImage l (startOn h) _ _ heap kernel first found
  obtain ⟨requests, maps, entries⟩ :=
    rooted.firstPage empty ⟨by decide, by decide⟩ (by decide) (by decide) (by decide) second
  exact ⟨.map (@Built.create lowImage _ (startOn h) _ l heap kernel first found) (by decide)
    (fun _ => by decide) second, requests, maps, entries⟩

/-- The heap after the rest of the kernel has taken three blocks and given one back: the hole is just
large enough for a page, and starts at a page boundary. -/
def holedOps : List HeapOp := [.malloc 4064, .malloc 4096, .malloc 16, .free 0x501000]

def holedClient : Client :=
  (runAll HeapOp.exec (Client.init (pagingInit lowImage fun _ => 0)) holedOps).getD
    (Client.init fun _ => 0)

theorem holedClient_inv : ∃ l, HeapInv holedClient.heap l := by
  have run : Run HeapStep (Client.init (pagingInit lowImage fun _ => 0)) holedOps holedClient :=
    (Run.of_runAll (Outcome.eq_ok_getD (by decide +kernel) _)).mono fun _ _ _ => HeapStep.of_exec
  obtain ⟨l, inv⟩ := Reachable.inv ⟨_, holedOps, run⟩
  exact ⟨l, inv.heap⟩

/-- The heap that nothing was taken from. -/
def emptyHeap : HeapState := (Client.init (pagingInit lowImage fun _ => 0)).heap

/-- The blocks when the directory is cloned. -/
def emptyBlocks : List Segment := (blockList (mappedOn emptyHeap).heap).getD []

def holedBlocks : List Segment := (blockList (mappedOn holedClient.heap).heap).getD []

theorem clone_preserves_page : ∃ s' d,
    pagingCloneDirectory (mappedOn holedClient.heap) (createdOn holedClient.heap).2 = .ok (s', d) ∧
      d ≠ 0 ∧ Maps (mappedOn holedClient.heap).mem (createdOn holedClient.heap).2 0x10000000 ∧
      Preserved (mappedOn holedClient.heap).mem s'.mem (createdOn holedClient.heap).2 d := by
  obtain ⟨l, heap⟩ := holedClient_inv
  obtain ⟨built, asked, maps, entries⟩ := mappedOn_built heap ⟨by decide +kernel, by decide +kernel⟩
    (by decide +kernel) (by decide +kernel) (by decide +kernel)
  obtain ⟨k, x, rooted⟩ := built.rooted
  have blocks : k = holedBlocks := by
    rw [holedBlocks, rooted.heap.blockList_eq]
    rfl
  subst blocks
  have enough : Enough holedBlocks [.entries, .entries, .page] := by decide +kernel
  have pages : userPages holedBlocks [.entries, .entries, .page] = [0x501000] := by decide +kernel
  rw [← asked] at enough pages
  have nonnull : (createdOn holedClient.heap).2 ≠ 0 := by decide +kernel
  obtain ⟨s', d, returned, found⟩ := cloneDirectory_returns rooted.heap nonnull rooted.sheltered
    rooted.sheltered_table enough
  refine ⟨s', d, returned, found, maps,
    (((@clone_preserves lowImage _ _ _ _ _ rooted.heap returned found).2 rooted.readable).1 ?_ ?_)⟩
  · intro p member
    rw [pages, List.mem_singleton] at member
    rw [member]
    decide
  · intro w user mapped
    have sheltered : Sheltered holedBlocks (frame (pageEntry (mappedOn holedClient.heap).mem
        (createdOn holedClient.heap).2 w)) := by
      intro a inside b listed _ covers
      have bounds := rooted.heap.bounds listed
      rw [entries w user mapped] at inside
      simp only [Set.mem_Ico, Segment.Covers, frame, heapEnd, heapStart, heapSize, pageSize] at *
      omega
    exact sheltered.unwritten rooted.heap

/-- On a heap that nothing was taken from, the page of the clone is put eighty bytes into a page: bits of
its address are among the flags of the clone's entry. -/
theorem clone_changes_flags : ∃ s' d, Built lowImage (createdOn emptyHeap).2 (mappedOn emptyHeap) ∧
    pagingCloneDirectory (mappedOn emptyHeap) (createdOn emptyHeap).2 = .ok (s', d) ∧ d ≠ 0 ∧
      ¬ Preserved (mappedOn emptyHeap).mem s'.mem (createdOn emptyHeap).2 d := by
  have heap : HeapInv emptyHeap [⟨heapStart, heapSize, true⟩] :=
    (clientInv_init (pagingInit lowImage fun _ => 0)).heap
  obtain ⟨built, asked, maps, entries⟩ := mappedOn_built heap ⟨by decide +kernel, by decide +kernel⟩
    (by decide +kernel) (by decide +kernel) (by decide +kernel)
  obtain ⟨k, x, rooted⟩ := built.rooted
  have blocks : k = emptyBlocks := by
    rw [emptyBlocks, rooted.heap.blockList_eq]
    rfl
  subst blocks
  have enough : Enough emptyBlocks [.entries, .entries, .page] := by decide +kernel
  have pages : userPages emptyBlocks [.entries, .entries, .page] = [0x508050] := by decide +kernel
  rw [← asked] at enough pages
  have nonnull : (createdOn emptyHeap).2 ≠ 0 := by decide +kernel
  obtain ⟨s', d, returned, found⟩ := cloneDirectory_returns rooted.heap nonnull rooted.sheltered
    rooted.sheltered_table enough
  refine ⟨s', d, built, returned, found, fun preserved => ?_⟩
  obtain ⟨y, l', heap', copied⟩ := rooted.readable.copied rooted.heap returned found
  rcases copied.coincides heap' rfl preserved (p := 0x508050) (by rw [pages]; simp) with
    aligned | ⟨w, user, mapped, flags, -⟩
  · exact absurd aligned (by decide)
  · rw [entries w user mapped] at flags
    exact absurd flags (by decide)

end OnePage

end Kfs.Paging
