/-
**The paging functions keep the layout.**

For each function of `paging.c` that process management calls: from a laid-out state, whenever it
returns, the state is laid out again, the current directory is the same one, and the directories are the
old ones, one more (`pagingCreateDirectory`) or one less (`pagingDestroyDirectory`, whose loops carry
the invariant with what is gone so far). The blocks asked for on the way are those of `Kfs.Paging.Placement`.
-/

import Kfs.Paging.Moves
import Kfs.Paging.Placement

namespace Kfs.Paging

open Kfs.Heap Memory

/-- The two ownerships have the same directories. -/
def SameDirs (own own' : Owner → Option Nat) : Prop :=
  ∀ d, own' (.directory d) = own (.directory d)

/-- The two ownerships have the same directories but for one. -/
def SameDirsBut (d : Nat) (own own' : Owner → Option Nat) : Prop :=
  ∀ d', d' ≠ d → own' (.directory d') = own (.directory d')

theorem SameDirs.trans {own own' own'' : Owner → Option Nat} (first : SameDirs own own')
    (second : SameDirs own' own'') : SameDirs own own'' :=
  fun d => (second d).trans (first d)

section Spaces

variable {grid : Prop} {image : KernelImage} {s s' : PagingState} {l : List Segment} {own : Owner → Option Nat}
  {gone : Set Owner} {h' : HeapState} {d flags i j ptr t virt x y z : Nat}

/-! ### Blocks of two pages -/

/-- `kmalloc_aligned` of a page: NULL and nothing changed, or the page inside a block nobody owns. -/
theorem Layout.takeAligned (layout : Layout grid image s l own gone)
    (done : kmallocAligned s.heap pageSize pageSize = .ok (h', t)) :
    (t = 0 ∧ h' = s.heap) ∨ ∃ l' y, t = home y ∧ place (2 * pageSize) l = some (y, l') ∧
      Layout grid image (s.withHeap h') l' own gone ∧
      Holds l' y (2 * pageSize) ∧ (∀ a, own a ≠ some y) ∧
      ∀ t, Tracked image own t → ∀ i < pageEntries, entry h'.mem t i = entry s.mem t i := by
  obtain ⟨⟨h, y⟩, taken, rest⟩ := Outcome.bind_eq_ok.mp done
  rcases layout.take (by decide) (by decide) taken with
    ⟨rfl, rfl⟩ | ⟨l', placed, next, holds, fresh, same⟩
  · cases rest
    exact Or.inl ⟨rfl, rfl⟩
  · have bounds := holds.bounds next.heap
    simp only at rest
    rw [if_neg (by omega)] at rest
    cases rest
    exact Or.inr ⟨l', y, rfl, placed, next, holds, fresh, same⟩

/-- The page of a block of two pages. -/
theorem home_pos (layout : Layout grid image s l own gone) (holds : Holds l x ptr) : 0 < home x := by
  have bounds := holds.bounds layout.heap
  have above := Paging.home_bounds layout.heap holds
  omega

/-- Clearing the page of a fresh block. -/
theorem Layout.clearHome (layout : Layout grid image s l own gone) (holds : Holds l y (2 * pageSize))
    (fresh : ∀ a, own a ≠ some y) :
    Layout grid image (s.write (s.mem.fill (home y) 0 pageSize)) l own gone ∧
      (∀ j < pageEntries, entry (s.mem.fill (home y) 0 pageSize) (home y) j = 0) ∧
      ∀ t, Tracked image own t → ∀ i < pageEntries,
        entry (s.mem.fill (home y) 0 pageSize) t i = entry s.mem t i := by
  have above := Paging.home_bounds layout.heap holds
  have plain : ∀ a, own a = some y → a.structural = false := fun a owned => absurd owned (fresh a)
  have same : Set.EqOn (s.mem.fill (home y) 0 pageSize) s.mem
      {x | x < y ∨ y + 2 * pageSize ≤ x} := (fill_eqOn s.mem _ 0 pageSize).mono fun x outside => by
    simp only [Set.mem_ofPred_eq] at *
    omega
  refine ⟨layout.scribble holds plain same, fun j index => ?_, fun t tracked i index =>
    layout.entry_scribble holds plain same tracked index⟩
  refine load32_fill_zero s.mem (by omega) ?_
  simp only [pageSize, pageEntries] at *
  omega

/-- `paging_alloc_table`. -/
theorem Layout.allocTable (layout : Layout grid image s l own gone)
    (done : pagingAllocTable s = .ok (s', t)) :
    (t = 0 ∧ s' = s) ∨ ∃ l' y, t = home y ∧ Serves l [.entries] l' [] ∧ s'.made = s.made ∧
      Layout grid image s' l' own gone ∧
      Holds l' y (2 * pageSize) ∧ (∀ a, own a ≠ some y) ∧ s'.current = s.current ∧
      (∀ j < pageEntries, entry s'.mem (home y) j = 0) ∧
      ∀ t, Tracked image own t → ∀ i < pageEntries, entry s'.mem t i = entry s.mem t i := by
  obtain ⟨⟨h, p⟩, taken, rest⟩ := Outcome.bind_eq_ok.mp done
  rcases layout.takeAligned taken with ⟨rfl, rfl⟩ | ⟨l', y, rfl, placed, next, holds, fresh, same⟩
  · cases rest
    exact Or.inl ⟨rfl, rfl⟩
  · have positive := home_pos next holds
    simp only at rest
    rw [if_neg (by omega)] at rest
    cases rest
    obtain ⟨clear, empty, kept⟩ := next.clearHome holds fresh
    exact Or.inr ⟨l', y, rfl, Serves.entries placed, rfl, clear, holds, fresh, rfl, empty,
      fun t tracked i index => (kept t tracked i index).trans (same t tracked i index)⟩

/-- The memory of a fresh directory: cleared, then its first two entries. -/
def freshDirectory (m : Memory) (dir first second : Nat) : Memory :=
  setEntry (setEntry (m.fill dir 0 pageSize) dir 0 first) dir 1 second

/-- **A fresh directory** that shares the kernel's entries. -/
theorem Layout.newDirectory (layout : Layout grid image s l own gone) (holds : Holds l x (2 * pageSize))
    (fresh : ∀ a, own a ≠ some x) :
    Layout grid image (s.write (freshDirectory s.mem (home x) (entry s.mem image.directory 0)
      (entry s.mem image.directory 1))) l (Function.update own (.directory (home x)) (some x)) gone ∧
    (∀ i, 2 ≤ i → i < pageEntries → entry (freshDirectory s.mem (home x)
      (entry s.mem image.directory 0) (entry s.mem image.directory 1)) (home x) i = 0) ∧
    ∀ t, Tracked image own t → ∀ i < pageEntries, entry (freshDirectory s.mem (home x)
      (entry s.mem image.directory 0) (entry s.mem image.directory 1)) t i = entry s.mem t i := by
  generalize firstEq : entry s.mem image.directory 0 = first
  generalize secondEq : entry s.mem image.directory 1 = second
  obtain ⟨_, empty, kept⟩ := layout.clearHome holds fresh
  have above := Paging.home_bounds layout.heap holds
  have plain : ∀ a, own a = some x → a.structural = false := fun a owned => absurd owned (fresh a)
  have entries : ∀ t k, pageSize ∣ t → k < pageEntries →
      entry (freshDirectory s.mem (home x) first second) t k =
        if t = home x ∧ k = 1 then second
        else if t = home x ∧ k = 0 then first
        else entry (s.mem.fill (home x) 0 pageSize) t k := by
    intro t k aligned index
    have small1 : second % 2 ^ 32 = second := Nat.mod_eq_of_lt (secondEq ▸ entry_lt)
    have small0 : first % 2 ^ 32 = first := Nat.mod_eq_of_lt (firstEq ▸ entry_lt)
    rw [freshDirectory, entry_setEntry dvd_home aligned (by decide) index,
      entry_setEntry dvd_home aligned (by decide) index, small0, small1]
  have same : Set.EqOn (freshDirectory s.mem (home x) first second) s.mem
      {y | y < x ∨ x + 2 * pageSize ≤ y} := by
    intro y outside
    simp only [Set.mem_ofPred_eq, pageSize] at outside above
    rw [freshDirectory, setEntry, store32_of_disjoint _ _ (by omega), setEntry,
      store32_of_disjoint _ _ (by omega), fill_eqOn s.mem _ 0 pageSize]
    simp only [Set.mem_ofPred_eq, pageSize]
    omega
  have others : ∀ t, Tracked image own t → ∀ k < pageEntries,
      entry (freshDirectory s.mem (home x) first second) t k = entry s.mem t k :=
    fun t tracked k index => layout.entry_scribble holds plain same tracked index
  have kernel : ∀ k < pageEntries,
      entry (freshDirectory s.mem (home x) first second) image.directory k =
        entry s.mem image.directory k := others _ (Or.inl rfl)
  have zero : ∀ k, 2 ≤ k → k < pageEntries →
      entry (freshDirectory s.mem (home x) first second) (home x) k = 0 := fun k low index => by
    rw [entries _ k dvd_home index, if_neg (by omega), if_neg (by omega), empty k index]
  refine ⟨(layout.scribble holds plain same).adoptDirectory holds fresh ?_ ?_ zero, zero, others⟩
  · rw [PagingState.mem_write, entries _ 0 dvd_home (by decide), if_neg (by omega),
      if_pos ⟨rfl, rfl⟩, kernel 0 (by decide), firstEq]
  · rw [PagingState.mem_write, entries _ 1 dvd_home (by decide), if_pos ⟨rfl, rfl⟩,
      kernel 1 (by decide), secondEq]

/-- The code reads the two entries while it writes them, from another page. -/
theorem freshDirectory_reads (layout : Layout grid image s l own gone) (holds : Holds l x (2 * pageSize))
    (fresh : ∀ a, own a ≠ some x) (tracked : Tracked image own t) :
    setEntry (setEntry (s.mem.fill (home x) 0 pageSize) (home x) 0
        (entry (s.mem.fill (home x) 0 pageSize) t 0)) (home x) 1
        (entry (setEntry (s.mem.fill (home x) 0 pageSize) (home x) 0
          (entry (s.mem.fill (home x) 0 pageSize) t 0)) t 1) =
      freshDirectory s.mem (home x) (entry s.mem t 0) (entry s.mem t 1) := by
  obtain ⟨_, _, kept⟩ := layout.clearHome holds fresh
  rw [entry_setEntry dvd_home (Layout.tracked_dvd tracked) (by decide) (by decide),
    if_neg (by omega), kept t tracked 0 (by decide), kept t tracked 1 (by decide)]
  rfl

/-- **`paging_create_directory`**: NULL and nothing changed, or one more directory. -/
theorem Layout.createDirectory (layout : Layout grid image s l own gone)
    (done : pagingCreateDirectory image s = .ok (s', d)) :
    (d = 0 ∧ s' = s) ∨ ∃ l' own' x, place (2 * pageSize) l = some (x, l') ∧
      Layout grid image s' l' own' gone ∧ own (.directory d) = none ∧ own' (.directory d) = some x ∧
      SameDirsBut d own own' ∧ s'.current = s.current ∧ s'.made = s.made ∧
      ∀ i, 2 ≤ i → i < pageEntries → entry s'.mem d i = 0 := by
  obtain ⟨⟨h, p⟩, taken, rest⟩ := Outcome.bind_eq_ok.mp done
  rcases layout.takeAligned taken with ⟨rfl, rfl⟩ | ⟨l', x, rfl, placed, next, holds, fresh, _⟩
  · cases rest
    exact Or.inl ⟨rfl, rfl⟩
  · have positive := home_pos next holds
    simp only at rest
    rw [if_neg (by omega)] at rest
    cases rest
    have reads := freshDirectory_reads next holds fresh (t := image.directory) (Or.inl rfl)
    simp only [PagingState.mem_withHeap] at reads
    rw [reads]
    obtain ⟨created, empty, _⟩ := next.newDirectory holds fresh
    exact Or.inr ⟨l', _, x, placed, created, next.directory_fresh holds fresh,
      Function.update_self _ _ _, fun d' other => Function.update_of_ne (by simpa using other) _ _, rfl,
      rfl, empty⟩

/-! ### Mapping and unmapping -/

theorem page_eq : virt / pageSize = pageEntries * dirIndex virt + tableIndex virt := by
  simp only [pageSize, pageEntries, dirIndex, tableIndex]
  omega

theorem tableIndex_lt : tableIndex virt < pageEntries := Nat.mod_lt _ (by decide)

theorem directory_pos (layout : Layout grid image s l own gone) (owned : own (.directory d) = some x) :
    0 < d := by
  rw [layout.placed d x owned]
  exact home_pos layout (layout.held _ x owned)

/-- The table behind a present entry of an owned directory. -/
theorem Layout.tableOf (layout : Layout grid image s l own ∅) (owned : own (.directory d) = some x)
    (low : 2 ≤ i) (index : i < pageEntries) (here : present (entry s.mem d i) = true) :
    ∃ y, own (.table d i) = some y ∧ frame (entry s.mem d i) = home y := by
  rcases layout.tables d x i owned low index here with ⟨lost, _⟩ | found
  · exact absurd lost (Set.notMem_empty _)
  · exact found

/-- A directory entry made from a table. -/
theorem frame_tableEntry (aligned : pageSize ∣ t) (small : flags < pageSize) :
    frame (t ||| pagePresent ||| pageWrite ||| flags) = t := by
  rw [frame_or small, frame_or (by decide), frame_or (by decide), frame_of_dvd aligned]

theorem home_lt (layout : Layout grid image s l own gone) (holds : Holds l x (2 * pageSize)) :
    home x < 2 ^ 32 := by
  have bounds := holds.bounds layout.heap
  have above := Paging.home_bounds layout.heap holds
  simp only [heapEnd, heapStart, heapSize, pageSize] at *
  omega

/-- What `paging_map_page_in_directory` asks for the table of an address. -/
def linkRequests (m : Memory) (dir virt : Nat) : List Request :=
  if present (entry m dir (dirIndex virt)) then [] else [.entries]

/-- The entries present in a directory are the old ones and that of an address. -/
def LinkedAt (d virt : Nat) (m m' : Memory) : Prop :=
  ∀ k < pageEntries, present (entry m' d k) = true ↔ present (entry m d k) = true ∨ k = dirIndex virt

/-- `paging_map_page_in_directory`, up to the table: the table is there, and loose pages stay. -/
theorem Layout.ensureTable (layout : Layout grid image s l own ∅) (owned : own (.directory d) = some x)
    (low : 2 ≤ dirIndex virt) (index : dirIndex virt < pageEntries) (small : flags < pageSize)
    (done : ensureTable s d virt flags = .ok s') :
    ∃ l' own' y, Layout grid image s' l' own' ∅ ∧ SameDirs own own' ∧ s'.current = s.current ∧
      (∀ z, own (.loose z) = some z → own' (.loose z) = some z) ∧
      own' (.table d (dirIndex virt)) = some y ∧ frame (entry s'.mem d (dirIndex virt)) = home y ∧
      Serves l (linkRequests s.mem d virt) l' [] ∧ s'.made = s.made ∧ LinkedAt d virt s.mem s'.mem := by
  unfold linkRequests
  rcases ensureTable_cases done with ⟨here, rfl⟩ | ⟨here, s₁, t, taken, nonzero, rfl⟩
  · obtain ⟨y, table, same⟩ := layout.tableOf owned low index here
    refine ⟨l, own, y, layout, fun _ => rfl, rfl, fun _ => id, table, same, ?_, rfl, fun k _ => ⟨Or.inl, ?_⟩⟩
    · rw [here, if_pos rfl]
      exact Serves.nil
    · rintro (old | rfl)
      · exact old
      · exact here
  · rcases layout.allocTable taken with
      ⟨rfl, rfl⟩ | ⟨l', y, rfl, serves, made, next, holds, fresh, current, empty, same⟩
    · exact absurd rfl nonzero
    · have absent : ∀ x, own (.directory d) = some x →
          present (entry s₁.mem d (dirIndex virt)) = false := fun x' owned' => by
        rw [same d (Tracked.directory layout owned') _ index, here]
      have adopted := next.adoptTable holds fresh empty absent
      have table : Function.update own (.table d (dirIndex virt)) (some y)
          (.table d (dirIndex virt)) = some y := Function.update_self _ _ _
      have stays : Function.update own (.table d (dirIndex virt)) (some y) (.directory d) = some x := by
        rw [Function.update_of_ne (by simp), owned]
      have bound : home y ||| pagePresent ||| pageWrite ||| flags < 2 ^ 32 :=
        or_lt (or_lt (or_lt (home_lt next holds) (by decide)) (by decide)) small
      have aligned := Layout.tracked_dvd (Tracked.directory layout owned)
      refine ⟨l', _, y, adopted.linkTable stays low index table bound
        (frame_tableEntry dvd_home small), fun d' => Function.update_of_ne (by simp) _ _, current,
        fun z loose => (Function.update_of_ne (by simp) _ _).trans loose, table, ?_, ?_, made,
        fun k inside => ?_⟩
      · rw [PagingState.mem_write, entry_setEntry aligned aligned index index, if_pos ⟨rfl, rfl⟩,
          Nat.mod_eq_of_lt bound, frame_tableEntry dvd_home small]
      · rwa [here, if_neg (by decide)]
      · rw [PagingState.mem_write, entry_setEntry aligned aligned index inside,
          ← same d (Tracked.directory layout owned) k inside]
        by_cases here : k = dirIndex virt
        · rw [if_pos ⟨rfl, here⟩, Nat.mod_eq_of_lt bound]
          refine ⟨fun _ => Or.inr here, fun _ => ?_⟩
          simp only [present_or, show present pagePresent = true by decide, Bool.or_true,
            Bool.true_or]
        · rw [if_neg fun both => here both.2]
          exact ⟨Or.inl, fun old => old.resolve_right here⟩

/-- **`paging_map_page_in_directory`** of a claimed page, above the kernel's part. -/
theorem Layout.mapPageInDirectory (layout : Layout grid image s l own ∅)
    (owned : own (.directory d) = some x) (low : 2 ≤ dirIndex virt)
    (index : dirIndex virt < pageEntries) (small : flags < pageSize)
    (loose : own (.loose z) = some z)
    (done : pagingMapPageInDirectory s d virt z flags = .ok s') :
    ∃ l' own', Layout grid image s' l' own' ∅ ∧ SameDirs own own' ∧ s'.current = s.current ∧
      Serves l (linkRequests s.mem d virt) l' [] ∧ s'.made = ⟨d, virt / pageSize, z⟩ :: s.made ∧
      LinkedAt d virt s.mem s'.mem ∧
      present (entry s'.mem (frame (entry s'.mem d (dirIndex virt))) (tableIndex virt)) = true := by
  unfold pagingMapPageInDirectory at done
  have positive := directory_pos layout owned
  rw [if_neg (by omega)] at done
  obtain ⟨s₁, ensured, rest⟩ := Outcome.bind_eq_ok.mp done
  obtain ⟨l', own', y, next, same, current, stays, table, home, serves, made, linked⟩ :=
    layout.ensureTable owned low index small ensured
  have owned' : own' (.directory d) = some x := (same d).trans owned
  have place := next.placed d x owned'
  cases rest
  have claimed := stays z loose
  have holds := next.held _ z claimed
  have bounds := holds.bounds next.heap
  have bound : frame z ||| flagBits flags ||| pagePresent < 2 ^ 32 := by
    refine or_lt (or_lt ?_ flagBits_lt) (by decide)
    have := @frame_le z
    simp only [heapEnd, heapStart, heapSize] at bounds
    omega
  rw [home, page_eq]
  generalize written : frame z ||| flagBits flags ||| pagePresent = v at *
  have other : ∀ k < pageEntries, entry (setEntry s₁.mem (Paging.home y) (tableIndex virt) v) d k =
      entry s₁.mem d k := fun k inside => by
    rw [place]
    exact next.entry_setEntry_other rfl table rfl owned' (by simp) tableIndex_lt inside
  refine ⟨l', _, next.mapPage table tableIndex_lt holds (fun a found => next.inj a _ z found claimed)
    bound ?_, fun d' => ?_, current, serves, ?_, fun k inside => ?_, ?_⟩
  · rw [← written, frame_or (by decide), frame_or flagBits_lt, frame_of_dvd dvd_frame]
  · rw [Function.update_of_ne (by simp), Function.update_of_ne (by simp), same]
  · rw [← made]
    rfl
  · rw [PagingState.mem_note, PagingState.mem_write, other k inside]
    exact linked k inside
  · rw [PagingState.mem_note, PagingState.mem_write, other _ index, home,
      entry_setEntry dvd_home dvd_home tableIndex_lt tableIndex_lt, if_pos ⟨rfl, rfl⟩,
      Nat.mod_eq_of_lt bound, ← written, present_or, show present pagePresent = true by decide,
      Bool.or_true]

/-- The current directory is the kernel's or an owned one. -/
def CurrentOwned (image : KernelImage) (s : PagingState) (own : Owner → Option Nat) : Prop :=
  s.current = image.directory ∨ ∃ x, own (.directory s.current) = some x

/-- The kernel's directory has no entries above the kernel's part. -/
theorem CurrentOwned.owned (current : CurrentOwned image s own) (kernel : KernelMapped image s.mem)
    (low : 2 ≤ i) (index : i < pageEntries) (here : present (entry s.mem s.current i) = true) :
    ∃ x, own (.directory s.current) = some x := by
  rcases current with same | owned
  · rw [same, kernel.rest i low index] at here
    exact absurd here (by decide)
  · exact owned

theorem pagingUnmapPage_table (here : present (entry s.mem s.current (dirIndex virt)) = true)
    (same : frame (entry s.mem s.current (dirIndex virt)) = t) :
    pagingUnmapPage s virt = s.write (setEntry s.mem t (tableIndex virt) 0) := by
  rw [← same]
  exact if_pos here

/-- **`paging_unmap_page`** above the kernel's part. -/
theorem Layout.unmapPage (layout : Layout grid image s l own ∅) (current : CurrentOwned image s own)
    (low : 2 ≤ dirIndex virt) (index : dirIndex virt < pageEntries) :
    Layout grid image (pagingUnmapPage s virt) l own ∅ := by
  cases here : present (entry s.mem s.current (dirIndex virt)) with
  | false =>
      rw [pagingUnmapPage, if_neg (by rw [here]; decide)]
      exact layout
  | true =>
      obtain ⟨x, owned⟩ := current.owned layout.kernel low index here
      obtain ⟨y, table, same⟩ := layout.tableOf owned low index here
      rw [pagingUnmapPage_table here same]
      have more := layout.forget (fun _ _ => id) (fun _ _ => Or.inl)
        (Set.empty_subset (insert (.page s.current (dirIndex virt) (tableIndex virt)) ∅))
      exact more.clearPage table tableIndex_lt

/-- Striking off a user page leaves the pages of entries alone. -/
theorem Tracked.strike {a : Owner} {t : Nat} (tracked : Tracked image own t)
    (plain : a.structural = false) : Tracked image (Function.update own a none) t := by
  rcases tracked with rfl | rfl | rfl | ⟨b, x, entries, owned, rfl⟩
  · exact .inl rfl
  · exact .inr (.inl rfl)
  · exact .inr (.inr (.inl rfl))
  · refine .inr (.inr (.inr ⟨b, x, entries, ?_, rfl⟩))
    rw [Function.update_of_ne, owned]
    rintro rfl
    rw [plain] at entries
    cases entries

/-- What freeing a mapped page of the current directory and unmapping it does. -/
theorem Layout.freeMapped_cases (layout : Layout grid image s l own ∅) (current : CurrentOwned image s own)
    (low : 2 ≤ dirIndex virt) (index : dirIndex virt < pageEntries) (aligned : pageSize ∣ virt)
    (mapped : pagingGetPhysicalAddress s virt ≠ 0)
    (clear : Unshadowed l (pagingGetPhysicalAddress s virt))
    (done : kfree s.heap (pagingGetPhysicalAddress s virt) = .ok h') :
    ∃ l' x y, own (.directory s.current) = some x ∧ own (.table s.current (dirIndex virt)) = some y ∧
      present (entry s.mem s.current (dirIndex virt)) = true ∧
      frame (entry s.mem s.current (dirIndex virt)) = home y ∧ StartsAmong l' l ∧
      Layout grid image (s.withHeap h') l'
        (Function.update own (.page s.current (dirIndex virt) (tableIndex virt)) none)
        (insert (.page s.current (dirIndex virt) (tableIndex virt)) ∅) ∧
      (∀ t, Tracked image own t → ∀ k < pageEntries, entry h'.mem t k = entry s.mem t k) ∧
      pagingUnmapPage (s.withHeap h') virt =
        (s.withHeap h').write (setEntry h'.mem (home y) (tableIndex virt) 0) := by
  unfold pagingGetPhysicalAddress at mapped clear done
  cases here : present (entry s.mem s.current (dirIndex virt)) with
  | false =>
      rw [here, if_neg (by decide)] at mapped
      exact absurd rfl mapped
  | true =>
      obtain ⟨x, owned⟩ := current.owned layout.kernel low index here
      obtain ⟨y, table, same⟩ := layout.tableOf owned low index here
      rw [here, if_pos rfl, same] at mapped clear done
      simp only at mapped clear done
      cases found : present (entry s.mem (home y) (tableIndex virt)) with
      | false =>
          rw [found, if_neg (by decide)] at mapped
          exact absurd rfl mapped
      | true =>
          rw [found, if_pos rfl, Nat.mod_eq_zero_of_dvd aligned, Nat.or_zero] at clear done
          rcases layout.pages _ _ y _ table tableIndex_lt found with ⟨lost, _⟩ | ⟨z, page, sameFrame, _⟩
          · exact absurd lost (Set.notMem_empty _)
          · rw [sameFrame] at clear done
            obtain ⟨l', freed, starts, entries⟩ := layout.free page
              ⟨lt_frame_add, lt_of_le_of_lt frame_le (Nat.lt_add_of_pos_right (by decide))⟩ dvd_frame
              clear done
            have kept : ∀ t, Tracked image own t → ∀ k < pageEntries,
                entry h'.mem t k = entry s.mem t k := fun t tracked => entries t (tracked.strike rfl)
            have entry' := kept _ (Tracked.directory layout owned) _ index
            refine ⟨l', x, y, owned, table, rfl, same, starts, freed, kept, ?_⟩
            exact @pagingUnmapPage_table (s.withHeap h') _ _ (by rw [← here, ← entry']; rfl)
              (by rw [← same, ← entry']; rfl)

/-- **Freeing a mapped page and unmapping it**, as `process_munmap` does: its owner is struck off. -/
theorem Layout.freeMapped_owners (layout : Layout grid image s l own ∅) (current : CurrentOwned image s own)
    (low : 2 ≤ dirIndex virt) (index : dirIndex virt < pageEntries) (aligned : pageSize ∣ virt)
    (mapped : pagingGetPhysicalAddress s virt ≠ 0)
    (clear : Unshadowed l (pagingGetPhysicalAddress s virt))
    (done : kfree s.heap (pagingGetPhysicalAddress s virt) = .ok h') :
    ∃ l', HeapInv h' l' ∧ StartsAmong l' l ∧ Layout grid image (pagingUnmapPage (s.withHeap h') virt) l'
      (Function.update own (.page s.current (dirIndex virt) (tableIndex virt)) none) ∅ := by
  obtain ⟨l', x, y, -, table, -, -, starts, freed, -, written⟩ :=
    layout.freeMapped_cases current low index aligned mapped clear done
  have table' : Function.update own (.page s.current (dirIndex virt) (tableIndex virt)) none
      (.table s.current (dirIndex virt)) = some y := by
    rw [Function.update_of_ne (by simp), table]
  refine ⟨l', freed.heap, starts, ?_⟩
  rw [written]
  exact freed.clearPage table' tableIndex_lt

theorem Layout.freeMapped (layout : Layout grid image s l own ∅) (current : CurrentOwned image s own)
    (low : 2 ≤ dirIndex virt) (index : dirIndex virt < pageEntries) (aligned : pageSize ∣ virt)
    (mapped : pagingGetPhysicalAddress s virt ≠ 0)
    (clear : Unshadowed l (pagingGetPhysicalAddress s virt))
    (done : kfree s.heap (pagingGetPhysicalAddress s virt) = .ok h') :
    ∃ l' own', Layout grid image (pagingUnmapPage (s.withHeap h') virt) l' own' ∅ ∧ SameDirs own own' := by
  obtain ⟨l', -, -, freed⟩ := layout.freeMapped_owners current low index aligned mapped clear done
  exact ⟨l', _, freed, fun d' => Function.update_of_ne (by simp) _ _⟩

/-- The frame of a page is a multiple of the page size. -/
theorem dvd_physicalAddress (aligned : pageSize ∣ virt) : pageSize ∣ pagingGetPhysicalAddress s virt := by
  simp only [pagingGetPhysicalAddress, Nat.mod_eq_zero_of_dvd aligned, Nat.or_zero]
  split
  · split
    · exact dvd_frame
    · exact dvd_zero _
  · exact dvd_zero _

@[simp] theorem current_unmapPage : (pagingUnmapPage s virt).current = s.current := by
  unfold pagingUnmapPage
  split <;> rfl

@[simp] theorem made_unmapPage : (pagingUnmapPage s virt).made = s.made := by
  unfold pagingUnmapPage
  split <;> rfl

/-- The page at 0 reads as not mapped: it is mapped to 0. -/
theorem Layout.physicalAddress_zero (layout : Layout grid image s l own gone)
    (current : CurrentOwned image s own) : pagingGetPhysicalAddress s 0 = 0 := by
  have first : entry s.mem s.current 0 = image.table0 ||| pagePresent ||| pageWrite := by
    rcases current with same | ⟨x, owned⟩
    · rw [same, layout.kernel.first]
    · rw [(layout.shared _ x owned).1, layout.kernel.first]
  have table : frame (entry s.mem s.current 0) = image.table0 := by
    rw [first, frame_or (by decide), frame_or (by decide), frame_of_dvd image.aligned.2.1]
  simp only [pagingGetPhysicalAddress, show dirIndex 0 = 0 by decide, table,
    show tableIndex 0 = 0 by decide, layout.kernel.table0 0 (by decide)]
  rw [show frame (0 * pageSize ||| pagePresent ||| pageWrite) ||| 0 % pageSize = 0 by decide, ite_self,
    ite_self]

/-! ### Destroying a directory -/

/-- Tables of a directory freed so far. -/
def goneTables (d i : Nat) : Set Owner := {a | ∃ k < i, a = .table d k}

/-- Pages of a table freed so far. -/
def gonePages (d i j : Nat) : Set Owner := {a | ∃ k < j, a = .page d i k}

/-- The inner loop of `paging_destroy_directory`: the pages of one table. -/
theorem Layout.destroyPages (layout : Layout grid image s l own (goneTables d i)) (on : grid)
    (table : own (.table d i) = some y)
    (done : forLoop (destroyPage (home y)) 0 pageEntries s = .ok (.next s')) :
    ∃ l' own', Layout grid image s' l' own' (goneTables d i ∪ gonePages d i pageEntries) ∧
      own' (.table d i) = some y ∧ SameDirs own own' ∧ s'.current = s.current := by
  refine @forLoop_inv _ _ (destroyPage (home y))
    (fun j p => ∃ l' own', Layout grid image p l' own' (goneTables d i ∪ gonePages d i j) ∧
      own' (.table d i) = some y ∧ SameDirs own own' ∧ p.current = s.current)
    (fun _ => False) 0 pageEntries s ?_ ?_ _ done |> fun final => by simpa using final
  · refine ⟨l, own, ?_, table, fun _ => rfl, rfl⟩
    exact layout.forget (fun _ _ => id) (fun _ _ => Or.inl) Set.subset_union_left
  · rintro j p round - inside ⟨l', own', here, table', same, current⟩ body
    rw [Nat.zero_add] at inside
    have grow : goneTables d i ∪ gonePages d i j ⊆ goneTables d i ∪ gonePages d i (j + 1) := by
      refine Set.union_subset_union_right _ ?_
      rintro a ⟨k, small, rfl⟩
      exact ⟨k, by omega, rfl⟩
    unfold destroyPage at body
    cases found : present (entry p.mem (home y) j) with
    | false =>
        rw [found, if_neg (by decide)] at body
        cases body
        exact ⟨l', own', here.forget (fun _ _ => id) (fun _ _ => Or.inl) grow, table', same, current⟩
    | true =>
        rw [found, if_pos rfl] at body
        obtain ⟨h, freed, rest⟩ := Outcome.bind_eq_ok.mp body
        cases rest
        rcases here.pages d i y j table' inside found with ⟨lost, _⟩ | ⟨z, page, sameFrame, _⟩
        · rcases lost with ⟨k, _, equal⟩ | ⟨k, less, equal⟩
          · cases equal
          · cases equal
            omega
        · rw [sameFrame] at freed
          obtain ⟨l'', next, _⟩ := here.free page
            ⟨lt_frame_add, lt_of_le_of_lt frame_le (Nat.lt_add_of_pos_right (by decide))⟩ dvd_frame
            (here.unshadowed on dvd_frame) freed
          refine ⟨l'', _, next.forget (fun _ _ => id) (fun _ _ => Or.inl) ?_, ?_, fun d' => ?_, current⟩
          · refine Set.insert_subset ?_ grow
            exact Or.inr ⟨j, by omega, rfl⟩
          · rw [Function.update_of_ne (by simp), table']
          · rw [Function.update_of_ne (by simp), same]

/-- The inner loop never leaves early. -/
theorem destroyPages_exit : forLoop (destroyPage t) 0 pageEntries s ≠ .ok (.exit s') := by
  intro done
  refine @forLoop_inv _ _ (destroyPage t) (fun _ _ => True) (fun _ => False) 0 pageEntries s trivial
    ?_ _ done
  intro j p round _ _ _ body
  unfold destroyPage at body
  split at body
  · obtain ⟨h, _, rest⟩ := Outcome.bind_eq_ok.mp body
    cases rest
    trivial
  · cases body
    trivial

/-- One round of the outer loop of `paging_destroy_directory`. -/
theorem Layout.destroyTable (layout : Layout grid image s l own (goneTables d i)) (on : grid)
    (owned : own (.directory d) = some x) (low : 2 ≤ i) (index : i < pageEntries)
    {round : Round PagingState PagingState} (done : destroyTable d i s = .ok round) :
    ∃ s' l' own', round = .next s' ∧ Layout grid image s' l' own' (goneTables d (i + 1)) ∧
      SameDirs own own' ∧ s'.current = s.current := by
  have grow : goneTables d i ⊆ goneTables d (i + 1) := by
    rintro a ⟨k, small, rfl⟩
    exact ⟨k, by omega, rfl⟩
  unfold Paging.destroyTable at done
  cases here : present (entry s.mem d i) with
  | false =>
      rw [here, if_neg (by decide)] at done
      cases done
      exact ⟨s, l, own, rfl, layout.forget (fun _ _ => id) (fun _ _ => Or.inl) grow, fun _ => rfl, rfl⟩
  | true =>
      rw [here, if_pos rfl] at done
      rcases layout.tables d x i owned low index here with ⟨⟨k, less, equal⟩, _⟩ | ⟨y, table, same⟩
      · cases equal
        omega
      · rw [same] at done
        obtain ⟨inner, loop, rest⟩ := Outcome.bind_eq_ok.mp done
        cases inner with
        | exit value => exact absurd loop destroyPages_exit
        | next s₁ =>
            obtain ⟨l₁, own₁, pages, table₁, dirs, current⟩ := layout.destroyPages on table loop
            obtain ⟨h, freed, last⟩ := Outcome.bind_eq_ok.mp rest
            cases last
            have near := pages.home_bounds table₁
            obtain ⟨l₂, next, _⟩ := pages.free table₁ ⟨by omega, near.2⟩ dvd_home
              (pages.unshadowed on dvd_home) freed
            refine ⟨_, l₂, _, rfl, next.settle (fun d' i' lost outside => ?_) fun d' i' j' lost _ => ?_,
              fun d' => ?_, current⟩
            · exfalso
              rcases lost with equal | ⟨k, less, equal⟩ | ⟨k, _, equal⟩
              · cases equal
                exact outside ⟨i, by omega, rfl⟩
              · cases equal
                exact outside ⟨i', by omega, rfl⟩
              · cases equal
            · rcases lost with equal | ⟨k, _, equal⟩ | ⟨k, _, equal⟩
              · cases equal
              · cases equal
              · cases equal
                exact Function.update_self _ _ _
            · rw [Function.update_of_ne (by simp), dirs]

/-- **`paging_destroy_directory`**: the directory is gone, the others are laid out as before. -/
theorem Layout.destroyDirectory (layout : Layout grid image s l own ∅) (on : grid)
    (owned : own (.directory d) = some x) (done : pagingDestroyDirectory s d = .ok s') :
    ∃ l' own', Layout grid image s' l' own' ∅ ∧ own' (.directory d) = none ∧ SameDirsBut d own own' ∧
      s'.current = s.current := by
  have positive := directory_pos layout owned
  unfold pagingDestroyDirectory at done
  rw [if_neg (by omega)] at done
  obtain ⟨outer, loop, rest⟩ := Outcome.bind_eq_ok.mp done
  have invariant := @forLoop_inv _ _ (Paging.destroyTable d)
    (fun i p => ∃ l' own', Layout grid image p l' own' (goneTables d i) ∧ SameDirs own own' ∧
      p.current = s.current)
    (fun _ => False) 2 (pageEntries - 2) s
    ⟨l, own, layout.forget (fun _ _ => id) (fun _ _ => Or.inl) (Set.empty_subset _), fun _ => rfl, rfl⟩
    (by
      rintro i p round low high ⟨l', own', here, dirs, current⟩ body
      have owned' : own' (.directory d) = some x := (dirs d).trans owned
      obtain ⟨p', l'', own'', rfl, next, dirs', current'⟩ := here.destroyTable on owned' low
        (by simp only [pageEntries] at *; omega) body
      exact ⟨l'', own'', next, dirs.trans dirs', current'.trans current⟩) _ loop
  cases outer with
  | exit value => exact absurd invariant id
  | next s₁ =>
      obtain ⟨l₁, own₁, laid, dirs, current⟩ := invariant
      obtain ⟨h, freed, last⟩ := Outcome.bind_eq_ok.mp rest
      cases last
      have owned₁ : own₁ (.directory d) = some x := (dirs d).trans owned
      have near := laid.home_bounds owned₁
      have here := laid.placed d x owned₁
      have close : x < d + pageSize ∧ d < x + pageSize := ⟨by omega, by omega⟩
      have whole := Layout.tracked_dvd (Tracked.directory laid owned₁)
      obtain ⟨l₂, next, _⟩ := laid.free owned₁ close whole (laid.unshadowed on whole) freed
      refine ⟨l₂, _, next.settle (fun d' i' lost _ => ?_) (fun d' i' j' lost _ => ?_),
        Function.update_self _ _ _, fun d' other => ?_, current⟩
      · rcases lost with equal | ⟨k, _, equal⟩
        · cases equal
        · cases equal
          exact Or.inl (Function.update_self _ _ _)
      · rcases lost with equal | ⟨k, _, equal⟩
        · cases equal
        · cases equal
      · rw [Function.update_of_ne (by simpa using other), dirs]

/-! Destroying notes nothing. -/

theorem made_destroyPages {round : Round PagingState PagingState}
    (done : forLoop (destroyPage t) 0 pageEntries s = .ok round) :
    round.Ends (fun s' => s'.made = s.made) (fun s' => s'.made = s.made) := by
  refine @forLoop_inv _ _ (destroyPage t) (fun _ p => p.made = s.made) (fun p => p.made = s.made) 0
    pageEntries s rfl ?_ _ done
  intro j p round _ _ same body
  unfold destroyPage at body
  split at body
  · obtain ⟨h, _, rest⟩ := Outcome.bind_eq_ok.mp body
    cases rest
    exact same
  · cases body
    exact same

theorem made_destroyTable {round : Round PagingState PagingState}
    (done : destroyTable d i s = .ok round) :
    round.Ends (fun s' => s'.made = s.made) (fun s' => s'.made = s.made) := by
  unfold Paging.destroyTable at done
  split at done
  · obtain ⟨inner, loop, rest⟩ := Outcome.bind_eq_ok.mp done
    have same := made_destroyPages loop
    cases inner with
    | exit s₁ =>
        cases rest
        exact same
    | next s₁ =>
        obtain ⟨h, _, last⟩ := Outcome.bind_eq_ok.mp rest
        cases last
        exact same
  · cases done
    rfl

theorem made_destroyDirectory (done : pagingDestroyDirectory s d = .ok s') : s'.made = s.made := by
  unfold pagingDestroyDirectory at done
  split at done
  · cases done
    rfl
  · obtain ⟨outer, loop, rest⟩ := Outcome.bind_eq_ok.mp done
    have same := @forLoop_inv _ _ (destroyTable d) (fun _ p => p.made = s.made)
      (fun p => p.made = s.made) 2 (pageEntries - 2) s rfl
      (by
        intro i p round _ _ same body
        have step := made_destroyTable body
        cases round with
        | next p' => exact step.trans same
        | exit p' => exact step.trans same) _ loop
    cases outer with
    | exit s₁ =>
        cases rest
        exact same
    | next s₁ =>
        obtain ⟨h, _, last⟩ := Outcome.bind_eq_ok.mp rest
        cases last
        exact same

/-! ### Calls that find room -/

/-- `kmalloc` finds room. -/
theorem Layout.take_placed {l' : List Segment} {size : Nat} (layout : Layout grid image s l own gone)
    (fits : NoWrap size) (grain : 16 ∣ size) (positive : size ≠ 0) (placed : place size l = some (ptr, l')) :
    ∃ h', kmalloc s.heap size = .ok (h', ptr) ∧ Layout grid image (s.withHeap h') l' own gone ∧
      Holds l' ptr size ∧ (∀ a, own a ≠ some ptr) ∧
      ∀ t, Tracked image own t → ∀ i < pageEntries, entry h'.mem t i = entry s.mem t i := by
  obtain ⟨h', taken, _⟩ := kmalloc_place layout.heap fits positive placed
  rcases layout.take fits grain taken with ⟨null, _⟩ | ⟨l'', placed', found⟩
  · exact absurd null (place_ne_null placed)
  · cases placed'.symm.trans placed
    exact ⟨h', taken, found⟩

/-- `kmalloc_aligned` of a page finds room. -/
theorem Layout.takeAligned_placed {l' : List Segment} (layout : Layout grid image s l own gone)
    (placed : place (2 * pageSize) l = some (y, l')) :
    ∃ h', kmallocAligned s.heap pageSize pageSize = .ok (h', home y) ∧ 0 < home y := by
  obtain ⟨h', taken, next, holds, _⟩ := layout.take_placed (by decide) (by decide) (by decide) placed
  refine ⟨h', ?_, home_pos next holds⟩
  unfold kmallocAligned
  rw [show (pageSize + pageSize) % 2 ^ 32 = 2 * pageSize by decide, taken, Outcome.ok_bind]
  exact if_neg (place_ne_null placed)

/-- `paging_create_directory` finds room. -/
theorem Layout.createDirectory_placed {l' : List Segment} (layout : Layout grid image s l own gone)
    (placed : place (2 * pageSize) l = some (x, l')) :
    ∃ s' own', pagingCreateDirectory image s = .ok (s', home x) ∧ 0 < home x ∧
      Layout grid image s' l' own' gone ∧ own' (.directory (home x)) = some x ∧ s'.made = s.made ∧
      ∀ i, 2 ≤ i → i < pageEntries → entry s'.mem (home x) i = 0 := by
  obtain ⟨h, taken, positive⟩ := layout.takeAligned_placed placed
  obtain ⟨s', created⟩ : ∃ s', pagingCreateDirectory image s = .ok (s', home x) := by
    unfold pagingCreateDirectory
    rw [taken, Outcome.ok_bind]
    exact ⟨_, if_neg (by omega)⟩
  rcases layout.createDirectory created with
    ⟨null, _⟩ | ⟨l'', own', x', placed', next, _, owned, _, _, made, empty⟩
  · omega
  · cases placed'.symm.trans placed
    exact ⟨s', own', created, positive, next, owned, made, empty⟩

/-- `paging_map_page_in_directory` returns when it has its table or finds room for it. -/
theorem Layout.mapPage_returns (layout : Layout grid image s l own ∅) (virt z flags : Nat)
    (owned : own (.directory d) = some x)
    (room : present (entry s.mem d (dirIndex virt)) = false →
      ∃ y l', place (2 * pageSize) l = some (y, l')) :
    ∃ s', pagingMapPageInDirectory s d virt z flags = .ok s' := by
  have positive := directory_pos layout owned
  unfold pagingMapPageInDirectory Paging.ensureTable
  rw [if_neg (by omega)]
  cases here : present (entry s.mem d (dirIndex virt)) with
  | true =>
      rw [if_pos rfl]
      exact ⟨_, rfl⟩
  | false =>
      obtain ⟨y, l', placed⟩ := room here
      obtain ⟨h, taken, found⟩ := layout.takeAligned_placed placed
      have table : pagingAllocTable s =
          .ok (s.withHeap { h with mem := h.mem.fill (home y) 0 pageSize }, home y) := by
        unfold pagingAllocTable
        rw [taken, Outcome.ok_bind]
        exact if_neg (by omega)
      rw [if_neg (by decide), table, Outcome.ok_bind]
      simp only
      rw [if_neg (by omega)]
      exact ⟨_, rfl⟩

/-- `paging_map_page_in_directory` finds room for the table it needs. -/
theorem Layout.mapPage_placed {l' : List Segment} (layout : Layout grid image s l own ∅) (virt flags : Nat)
    (owned : own (.directory d) = some x) (low : 2 ≤ dirIndex virt) (index : dirIndex virt < pageEntries)
    (small : flags < pageSize)
    (loose : own (.loose z) = some z) (absent : present (entry s.mem d (dirIndex virt)) = false)
    (placed : place (2 * pageSize) l = some (y, l')) :
    ∃ s', pagingMapPageInDirectory s d virt z flags = .ok s' ∧ blockList s'.heap = some l' ∧
      s'.made = ⟨d, virt / pageSize, z⟩ :: s.made ∧
      present (entry s'.mem d (dirIndex virt)) = true ∧
      present (entry s'.mem (frame (entry s'.mem d (dirIndex virt))) (tableIndex virt)) = true := by
  obtain ⟨s', done⟩ := layout.mapPage_returns virt z flags owned fun _ => ⟨y, l', placed⟩
  obtain ⟨l'', own', next, _, _, serves, made, linked, here⟩ :=
    layout.mapPageInDirectory owned low index small loose done
  rw [linkRequests, absent, if_neg (by decide)] at serves
  obtain ⟨y', l₁, later, placed', ⟨rfl, _⟩, _⟩ := serves
  cases placed'.symm.trans placed
  exact ⟨s', done, next.heap.blockList_eq, made, (linked _ index).mpr (Or.inr rfl), here⟩

end Spaces

end Kfs.Paging
