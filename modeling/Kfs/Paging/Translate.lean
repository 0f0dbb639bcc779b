/-
**Two levels of tables are one function.**

`translate m dir` is the physical address of every virtual address under the directory `dir`, 0 where
nothing is mapped: what `paging_get_physical_address` computes with `dir` current. It depends on the page
entry of the address alone (`pageWord`). A directory is `Tabled` when its present entries designate tables
apart from each other and from the directory. Then writing one page entry changes `pageWord` on one page
(`Tabled.pageWord_setEntry`) and linking an empty table does not change it (`Tabled.pageWord_link`), so
that mapping and unmapping a page are updates of the function on that page: `mapping_is_update`. The
directories of the kernel and of its processes are `Tabled`, and the tables they get are fresh
(`Layout.tabled`, `Layout.freshTable`).
-/

import Kfs.Paging.Present

namespace Kfs.Paging

open Kfs.Heap Memory

/-- The physical address under a directory. -/
def translate (m : Memory) (dir virt : Nat) : Nat :=
  if present (entry m dir (dirIndex virt)) then
    if present (entry m (frame (entry m dir (dirIndex virt))) (tableIndex virt)) then
      frame (entry m (frame (entry m dir (dirIndex virt))) (tableIndex virt)) ||| virt % pageSize
    else 0
  else 0

/-- The page entry of an address, 0 where the directory has no table. -/
def pageWord (m : Memory) (dir virt : Nat) : Nat :=
  if present (entry m dir (dirIndex virt)) then
    entry m (frame (entry m dir (dirIndex virt))) (tableIndex virt)
  else 0

/-- Two pages do not overlap. -/
def PageApart (a b : Nat) : Prop := a + pageSize ≤ b ∨ b + pageSize ≤ a

/-- The present entries of a directory designate distinct tables, away from the directory. -/
structure Tabled (m : Memory) (dir : Nat) : Prop where
  apart : ∀ i < pageEntries, present (entry m dir i) = true → PageApart dir (frame (entry m dir i))
  distinct : ∀ i < pageEntries, ∀ j < pageEntries, present (entry m dir i) = true →
    present (entry m dir j) = true → frame (entry m dir i) = frame (entry m dir j) → i = j

/-- The page `t` is new to a directory: it is none of its tables nor overlaps the directory, and getting it
left the entries of the directory and of its tables alone. -/
structure FreshTable (m m' : Memory) (dir t : Nat) : Prop where
  nonzero : t ≠ 0
  apart : PageApart dir t
  new : ∀ i < pageEntries, present (entry m dir i) = true → frame (entry m dir i) ≠ t
  directory : ∀ i < pageEntries, entry m' dir i = entry m dir i
  tables : ∀ i < pageEntries, present (entry m dir i) = true → ∀ j < pageEntries,
    entry m' (frame (entry m dir i)) j = entry m (frame (entry m dir i)) j

section Update

variable {m m' : Memory} {s s' : PagingState} {dir flags i j phys t v virt w : Nat}

theorem physicalAddress_translate (s : PagingState) (virt : Nat) :
    pagingGetPhysicalAddress s virt = translate s.mem s.current virt := rfl

/-- The physical address is that of the page entry. -/
theorem translate_eq : translate m dir virt =
    if present (pageWord m dir virt) then frame (pageWord m dir virt) ||| virt % pageSize else 0 := by
  unfold translate pageWord
  split
  · rfl
  · exact (if_neg (by decide)).symm

theorem dirIndex_lt (small : virt < 2 ^ 32) : dirIndex virt < pageEntries := by
  simp only [dirIndex, pageEntries]
  omega

theorem entry_end (index : i < pageEntries) : 4 * i + 4 ≤ pageSize := by
  have bound := index
  simp only [pageEntries, pageSize] at *
  omega

/-- An entry of a page survives a write to another page. -/
theorem entry_setEntry_apart (apart : PageApart dir t) (index : i < pageEntries)
    (index' : j < pageEntries) : entry (setEntry m t j v) dir i = entry m dir i := by
  have first := entry_end index
  have second := entry_end index'
  refine load32_store32_of_disjoint m v ?_
  simp only [PageApart] at apart
  omega

/-- An entry of a page, aligned or not, after a write to the page. -/
theorem entry_setEntry_same :
    entry (setEntry m dir j v) dir i = if i = j then v % 2 ^ 32 else entry m dir i := by
  split
  · rename_i same
    rw [same]
    exact load32_store32 m _ v
  · rename_i other
    refine load32_store32_of_disjoint m v ?_
    omega

namespace Tabled

theorem congr (tabled : Tabled m dir) (directory : ∀ i < pageEntries, entry m' dir i = entry m dir i) :
    Tabled m' dir := by
  refine ⟨fun i index here => ?_, fun i first j second here there same => ?_⟩
  · rw [directory i index] at here ⊢
    exact tabled.apart i index here
  · rw [directory i first] at here same
    rw [directory j second] at there same
    exact tabled.distinct i first j second here there same

/-- **Writing one page entry** changes that of one page only. -/
theorem pageWord_setEntry (tabled : Tabled m dir) (index : i < pageEntries) (column : j < pageEntries)
    (here : present (entry m dir i) = true) (small : w < 2 ^ 32) :
    pageWord (setEntry m (frame (entry m dir i)) j v) dir w =
      if dirIndex w = i ∧ tableIndex w = j then v % 2 ^ 32 else pageWord m dir w := by
  have row := dirIndex_lt small
  have directory : entry (setEntry m (frame (entry m dir i)) j v) dir (dirIndex w) =
      entry m dir (dirIndex w) := entry_setEntry_apart (tabled.apart i index here) row column
  unfold pageWord
  rw [directory]
  by_cases there : present (entry m dir (dirIndex w)) = true
  · rw [if_pos there, if_pos there, entry_setEntry dvd_frame dvd_frame column tableIndex_lt]
    by_cases mine : dirIndex w = i ∧ tableIndex w = j
    · have both : frame (entry m dir (dirIndex w)) = frame (entry m dir i) ∧ tableIndex w = j :=
        ⟨by rw [mine.1], mine.2⟩
      rw [if_pos both, if_pos mine]
    · have other : ¬ (frame (entry m dir (dirIndex w)) = frame (entry m dir i) ∧ tableIndex w = j) :=
        fun both => mine ⟨tabled.distinct _ row _ index there here both.1, both.2⟩
      rw [if_neg other, if_neg mine]
  · rw [if_neg there, if_neg there, if_neg]
    rintro ⟨rfl, -⟩
    exact there here

theorem pageWord_absent (absent : present (entry m dir i) = false) (row : dirIndex w = i) :
    pageWord m dir w = 0 := by
  rw [pageWord, row, absent, if_neg (by decide)]

/-- **Linking an empty table** keeps the directory `Tabled` and changes no page entry. -/
theorem pageWord_link (tabled : Tabled m dir) (fresh : FreshTable m m' dir t)
    (absent : present (entry m dir i) = false) (index : i < pageEntries)
    (empty : ∀ j < pageEntries, entry m' t j = 0) (leads : frame (v % 2 ^ 32) = t)
    (set : present (v % 2 ^ 32) = true) :
    Tabled (setEntry m' dir i v) dir ∧
      (∀ k < pageEntries, entry (setEntry m' dir i v) dir k =
        if k = i then v % 2 ^ 32 else entry m dir k) ∧
      ∀ w < 2 ^ 32, pageWord (setEntry m' dir i v) dir w = pageWord m dir w := by
  have rows : ∀ k < pageEntries, entry (setEntry m' dir i v) dir k =
      if k = i then v % 2 ^ 32 else entry m dir k := fun k inside => by
    rw [entry_setEntry_same, fresh.directory k inside]
  -- a table is not written when the directory is
  have away : ∀ {u}, PageApart dir u → ∀ j < pageEntries,
      entry (setEntry m' dir i v) u j = entry m' u j := fun {u} apart j column =>
    @entry_setEntry_apart m' u j i dir v apart.symm column index
  refine ⟨⟨fun k inside here => ?_, fun k first k' second here there same => ?_⟩, rows,
    fun w small => ?_⟩
  · rw [rows k inside] at here ⊢
    split at here
    · rename_i mine
      rw [if_pos mine, leads]
      exact fresh.apart
    · rename_i other
      rw [if_neg other]
      exact tabled.apart k inside here
  · rw [rows k first] at here same
    rw [rows k' second] at there same
    by_cases mine : k = i
    · by_cases also : k' = i
      · rw [mine, also]
      · rw [if_pos mine, if_neg also, leads] at same
        rw [if_neg also] at there
        exact absurd same.symm (fresh.new k' second there)
    · by_cases also : k' = i
      · rw [if_neg mine, if_pos also, leads] at same
        rw [if_neg mine] at here
        exact absurd same (fresh.new k first here)
      · rw [if_neg mine] at here same
        rw [if_neg also] at there same
        exact tabled.distinct k first k' second here there same
  · have row := dirIndex_lt small
    by_cases mine : dirIndex w = i
    · rw [pageWord_absent absent mine]
      unfold pageWord
      rw [rows _ row, if_pos mine, if_pos set, leads, away fresh.apart _ tableIndex_lt,
        empty _ tableIndex_lt]
    · unfold pageWord
      rw [rows _ row, if_neg mine]
      split
      · rename_i here
        rw [away (tabled.apart _ row here) _ tableIndex_lt, fresh.tables _ row here _ tableIndex_lt]
      · rfl

end Tabled

/-! ### The functions -/

/-- **A page table from the allocator** is aligned and zeroed. -/
theorem pagingAllocTable_page (done : pagingAllocTable s = .ok (s', t)) (found : t ≠ 0) :
    pageSize ∣ t ∧ t < 2 ^ 32 ∧ ∀ j < pageEntries, entry s'.mem t j = 0 := by
  obtain ⟨⟨h, p⟩, taken, rest⟩ := Outcome.bind_eq_ok.mp done
  obtain ⟨⟨h₁, q⟩, -, aligned⟩ := Outcome.bind_eq_ok.mp taken
  by_cases none : p = 0
  · subst none
    cases rest
    exact absurd rfl found
  · simp only [if_neg none] at rest
    cases rest
    by_cases null : q = 0
    · simp only [if_pos null] at aligned
      cases aligned
      exact absurd rfl none
    · simp only [if_neg null] at aligned
      cases aligned
      refine ⟨dvd_alignUp, ?_, fun j column => load32_fill_zero h.mem (by omega) ?_⟩
      · simp only [alignUp, pageSize]
        omega
      · have last := entry_end column
        omega

/-- **A page table from the allocator** lies in the heap: below it nothing changes. -/
theorem pagingAllocTable_below {c : Client} (reach : Reachable c) (heap : s.heap = c.heap)
    (done : pagingAllocTable s = .ok (s', t)) : Set.EqOn s'.mem s.mem {x | x < heapStart} := by
  obtain ⟨⟨h, p⟩, taken, rest⟩ := Outcome.bind_eq_ok.mp done
  obtain ⟨⟨h₁, q⟩, given, aligned⟩ := Outcome.bind_eq_ok.mp taken
  rw [heap] at given
  obtain ⟨l, inv⟩ := reach.inv
  have step := @HeapStep.malloc c _ _ _ (by decide) given
  obtain ⟨l', inv'⟩ := step.keeps inv
  have low : Set.EqOn h₁.mem s.mem {x | x < heapStart} := by
    rw [show s.mem = c.heap.mem from congrArg HeapState.mem heap]
    exact step.below inv
  simp only at aligned rest
  by_cases null : q = 0
  · rw [if_pos null] at aligned
    cases aligned
    rw [if_pos rfl] at rest
    cases rest
    exact low
  · rw [if_neg null] at aligned
    cases aligned
    split at rest
    · cases rest
      exact low
    · cases rest
      refine ((Memory.fill_eqOn _ _ _ _).mono fun x below => ?_).trans low
      obtain ⟨b, member, -, place⟩ := (inv'.live q).mp (by simp [null])
      have bounds := inv'.heap.bounds member
      simp only [heapEnd, heapStart, heapSize, Set.mem_ofPred_eq, alignUp, pageSize] at *
      omega

/-- The address has a table, or gets a fresh one. -/
def TableReady (s : PagingState) (dir virt : Nat) : Prop :=
  present (entry s.mem dir (dirIndex virt)) = true ∨
    ∃ s' t, pagingAllocTable s = .ok (s', t) ∧ FreshTable s.mem s'.mem dir t

/-- An entry of the directory that links a table, with the flags the table is made for. -/
def Linked (flags e : Nat) : Prop := ∃ t, pageSize ∣ t ∧ e = t ||| pagePresent ||| pageWrite ||| flags

/-- What becomes of the entries of a directory when a page is mapped. -/
def RowsKept (flags : Nat) (m m' : Memory) (dir virt : Nat) : Prop :=
  ∀ k < pageEntries, entry m' dir k = entry m dir k ∨
    k = dirIndex virt ∧ present (entry m dir k) = false ∧ Linked flags (entry m' dir k)

/-- **The table of an address**: there afterwards, with nothing mapped by it. -/
theorem ensureTable_words (tabled : Tabled s.mem dir) (small : virt < 2 ^ 32)
    (low : flags < pageSize) (ready : TableReady s dir virt) :
    ∃ s', ensureTable s dir virt flags = .ok s' ∧ Tabled s'.mem dir ∧
      present (entry s'.mem dir (dirIndex virt)) = true ∧ RowsKept flags s.mem s'.mem dir virt ∧
      ∀ w < 2 ^ 32, pageWord s'.mem dir w = pageWord s.mem dir w := by
  have index := dirIndex_lt small
  cases here : present (entry s.mem dir (dirIndex virt)) with
  | true =>
      refine ⟨s, ?_, tabled, here, fun _ _ => .inl rfl, fun _ _ => rfl⟩
      rw [ensureTable, here, if_pos rfl]
  | false =>
      rcases ready with there | ⟨s₁, t, taken, fresh⟩
      · rw [here] at there
        cases there
      · obtain ⟨aligned, bound, empty⟩ := pagingAllocTable_page taken fresh.nonzero
        have fits : t ||| pagePresent ||| pageWrite ||| flags < 2 ^ 32 :=
          or_lt (or_lt (or_lt bound (by decide)) (by decide)) low
        have leads : frame ((t ||| pagePresent ||| pageWrite ||| flags) % 2 ^ 32) = t := by
          rw [Nat.mod_eq_of_lt fits, frame_tableEntry aligned low]
        have set : present ((t ||| pagePresent ||| pageWrite ||| flags) % 2 ^ 32) = true := by
          rw [Nat.mod_eq_of_lt fits, present_or, present_or, present_or,
            show present pagePresent = true by decide]
          simp
        obtain ⟨linked, rows, same⟩ := tabled.pageWord_link fresh here index empty leads set
        refine ⟨s₁.write (setEntry s₁.mem dir (dirIndex virt) (t ||| pagePresent ||| pageWrite ||| flags)),
          ?_, linked, ?_, fun k inside => ?_, same⟩
        · simp only [ensureTable, here, taken, Outcome.ok_bind, if_neg fresh.nonzero]
          rfl
        · rw [PagingState.mem_write, rows _ index, if_pos rfl]
          exact set
        · rw [PagingState.mem_write, rows k inside]
          by_cases mine : k = dirIndex virt
          · subst mine
            rw [if_pos rfl, Nat.mod_eq_of_lt fits]
            exact .inr ⟨rfl, here, t, aligned, rfl⟩
          · exact .inl (if_neg mine)

/-- A call that returns had a table for the address, or got one, which is fresh if all tables are. -/
theorem tableReady_of_mapPage (nonzero : dir ≠ 0)
    (fresh : ∀ s₁ t, pagingAllocTable s = .ok (s₁, t) → t ≠ 0 → FreshTable s.mem s₁.mem dir t)
    (done : pagingMapPageInDirectory s dir virt phys flags = .ok s') : TableReady s dir virt := by
  rw [pagingMapPageInDirectory, if_neg nonzero] at done
  obtain ⟨s₁, ensured, -⟩ := Outcome.bind_eq_ok.mp done
  by_cases here : present (entry s.mem dir (dirIndex virt)) = true
  · exact .inl here
  · rw [ensureTable, if_neg here] at ensured
    obtain ⟨⟨s₂, t⟩, taken, rest⟩ := Outcome.bind_eq_ok.mp ensured
    by_cases none : t = 0
    · simp only [if_pos none] at rest
      cases rest
    · exact .inr ⟨s₂, t, taken, fresh s₂ t taken none⟩

/-- **`paging_map_page_in_directory`** updates the page entry of one page. -/
theorem mapPage_words (nonzero : dir ≠ 0) (tabled : Tabled s.mem dir) (small : virt < 2 ^ 32)
    (fits : phys < 2 ^ 32) (low : flags < pageSize) (ready : TableReady s dir virt) :
    ∃ s', pagingMapPageInDirectory s dir virt phys flags = .ok s' ∧ Tabled s'.mem dir ∧
      RowsKept flags s.mem s'.mem dir virt ∧ ∀ w < 2 ^ 32, pageWord s'.mem dir w =
        if w / pageSize = virt / pageSize then frame phys ||| flagBits flags ||| pagePresent
        else pageWord s.mem dir w := by
  obtain ⟨s₁, ensured, linked, here, rows, same⟩ := ensureTable_words tabled small low ready
  have index := dirIndex_lt small
  have whole : frame phys ||| flagBits flags ||| pagePresent < 2 ^ 32 :=
    or_lt (or_lt (lt_of_le_of_lt frame_le fits) flagBits_lt) (by decide)
  have directory : ∀ k < pageEntries, entry (setEntry s₁.mem (frame (entry s₁.mem dir (dirIndex virt)))
      (tableIndex virt) (frame phys ||| flagBits flags ||| pagePresent)) dir k = entry s₁.mem dir k :=
    fun k inside => entry_setEntry_apart (linked.apart _ index here) inside tableIndex_lt
  refine ⟨(s₁.write (setEntry s₁.mem (frame (entry s₁.mem dir (dirIndex virt))) (tableIndex virt)
    (frame phys ||| flagBits flags ||| pagePresent))).note dir (virt / pageSize) phys, ?_,
    linked.congr directory, fun k inside => ?_, fun w inside => ?_⟩
  · rw [pagingMapPageInDirectory, if_neg nonzero, ensured, Outcome.ok_bind]
    rfl
  · rw [PagingState.mem_note, PagingState.mem_write, directory k inside]
    exact rows k inside
  · rw [PagingState.mem_note, PagingState.mem_write,
      linked.pageWord_setEntry index tableIndex_lt here inside, Nat.mod_eq_of_lt whole, same w inside]
    exact if_congr page_eq_iff.symm rfl rfl

/-- **`paging_unmap_page`** clears the page entry of one page of the current directory. -/
theorem unmapPage_words (tabled : Tabled s.mem s.current) (small : virt < 2 ^ 32) :
    Tabled (pagingUnmapPage s virt).mem s.current ∧ (pagingUnmapPage s virt).current = s.current ∧
      ∀ w < 2 ^ 32, pageWord (pagingUnmapPage s virt).mem s.current w =
        if w / pageSize = virt / pageSize then 0 else pageWord s.mem s.current w := by
  have index := dirIndex_lt small
  cases here : present (entry s.mem s.current (dirIndex virt)) with
  | true =>
      have unmapped : pagingUnmapPage s virt = s.write (setEntry s.mem
          (frame (entry s.mem s.current (dirIndex virt))) (tableIndex virt) 0) := by
        rw [pagingUnmapPage, here, if_pos rfl]
      rw [unmapped]
      refine ⟨tabled.congr fun i row =>
        entry_setEntry_apart (tabled.apart _ index here) row tableIndex_lt, rfl, fun w inside => ?_⟩
      rw [PagingState.mem_write, tabled.pageWord_setEntry index tableIndex_lt here inside, Nat.zero_mod]
      exact if_congr page_eq_iff.symm rfl rfl
  | false =>
      have unmapped : pagingUnmapPage s virt = s := by
        rw [pagingUnmapPage, here, if_neg (by decide)]
      rw [unmapped]
      refine ⟨tabled, rfl, fun w inside => ?_⟩
      split
      · rename_i same
        exact Tabled.pageWord_absent here (page_eq_iff.mp same).1
      · rfl

/-- **`paging_map_page_in_directory`** updates the translation on one page. -/
theorem mapPage_translate (nonzero : dir ≠ 0) (tabled : Tabled s.mem dir) (small : virt < 2 ^ 32)
    (fits : phys < 2 ^ 32) (low : flags < pageSize) (ready : TableReady s dir virt) :
    ∃ s', pagingMapPageInDirectory s dir virt phys flags = .ok s' ∧ Tabled s'.mem dir ∧
      ∀ w < 2 ^ 32, translate s'.mem dir w =
        if w / pageSize = virt / pageSize then frame phys ||| w % pageSize else translate s.mem dir w := by
  obtain ⟨s', done, tabled', -, words⟩ := mapPage_words nonzero tabled small fits low ready
  refine ⟨s', done, tabled', fun w inside => ?_⟩
  rw [translate_eq, words w inside]
  split
  · rw [frame_or (by decide), frame_or flagBits_lt, frame_of_dvd dvd_frame, present_or,
      show present pagePresent = true by decide, Bool.or_true, if_pos rfl]
  · rw [translate_eq]

/-- **`paging_unmap_page`** clears the translation on one page of the current directory. -/
theorem unmapPage_translate (tabled : Tabled s.mem s.current) (small : virt < 2 ^ 32) :
    Tabled (pagingUnmapPage s virt).mem s.current ∧ (pagingUnmapPage s virt).current = s.current ∧
      ∀ w < 2 ^ 32, translate (pagingUnmapPage s virt).mem s.current w =
        if w / pageSize = virt / pageSize then 0 else translate s.mem s.current w := by
  obtain ⟨tabled', current, words⟩ := unmapPage_words tabled small
  refine ⟨tabled', current, fun w inside => ?_⟩
  rw [translate_eq, words w inside]
  split
  · exact if_neg (by decide)
  · rw [translate_eq]

/-- **Mapping is a function update**: for every directory whose present entries designate distinct tables,
mapping a page and unmapping one change the physical addresses on that page and on no other. -/
theorem mapping_is_update (nonzero : dir ≠ 0) (tabled : Tabled s.mem dir) (small : virt < 2 ^ 32)
    (fits : phys < 2 ^ 32) (low : flags ≤ 0xFFF) :
    (TableReady s dir virt → ∃ s', pagingMapPageInDirectory s dir virt phys flags = .ok s' ∧
      Tabled s'.mem dir ∧
      ∀ w < 2 ^ 32, pagingGetPhysicalAddress (pagingSwitchDirectory s' dir) w =
        if w / pageSize = virt / pageSize then frame phys ||| w % pageSize
        else pagingGetPhysicalAddress (pagingSwitchDirectory s dir) w) ∧
    Tabled (pagingUnmapPage (pagingSwitchDirectory s dir) virt).mem dir ∧
    ∀ w < 2 ^ 32, pagingGetPhysicalAddress (pagingUnmapPage (pagingSwitchDirectory s dir) virt) w =
      if w / pageSize = virt / pageSize then 0
      else pagingGetPhysicalAddress (pagingSwitchDirectory s dir) w := by
  have switched : ∀ s : PagingState, pagingSwitchDirectory s dir = { s with current := dir } :=
    fun s => if_neg nonzero
  rw [switched s]
  refine ⟨fun ready => ?_, ?_⟩
  · obtain ⟨s', done, tabled', update⟩ := mapPage_translate nonzero tabled small fits
      (Nat.lt_succ_of_le low) ready
    refine ⟨s', done, tabled', fun w inside => ?_⟩
    rw [switched s']
    exact update w inside
  · obtain ⟨tabled', current, update⟩ :=
      unmapPage_translate (s := { s with current := dir }) tabled small
    refine ⟨tabled', fun w inside => ?_⟩
    rw [physicalAddress_translate, current]
    exact update w inside

/-- An empty directory below an empty heap. -/
def emptySpace : PagingState := ⟨(Client.init fun _ => 0).heap, 0x200000, []⟩

theorem mapping_is_update_empty :
    ∃ s', pagingMapPageInDirectory emptySpace 0x200000 0x10000000 0x600000 7 = .ok s' ∧
      pagingGetPhysicalAddress (pagingSwitchDirectory s' 0x200000) 0x10000123 = 0x600123 ∧
      pagingGetPhysicalAddress (pagingSwitchDirectory s' 0x200000) 0x10001000 =
        pagingGetPhysicalAddress (pagingSwitchDirectory emptySpace 0x200000) 0x10001000 := by
  have absent : ∀ i < pageEntries, entry emptySpace.mem 0x200000 i = 0 := fun i inside =>
    Memory.load32_congr ((init_below fun _ => 0).mono fun x member => by
      simp only [Set.mem_Ico, Set.mem_ofPred_eq, heapStart, pageEntries] at *
      omega)
  have unset : ∀ i < pageEntries, ¬ present (entry emptySpace.mem 0x200000 i) = true := fun i inside here => by
    rw [absent i inside] at here
    exact absurd here (by decide)
  have tabled : Tabled emptySpace.mem 0x200000 :=
    ⟨fun i inside here => absurd here (unset i inside),
      fun i inside _ _ here => absurd here (unset i inside)⟩
  have taken : pagingAllocTable emptySpace = .ok ((pagingAllocTable emptySpace).getD (emptySpace, 0)) :=
    Outcome.eq_ok_getD (by decide +kernel) _
  have kept : ∀ i < pageEntries,
      entry ((pagingAllocTable emptySpace).getD (emptySpace, 0)).1.mem 0x200000 i =
        entry emptySpace.mem 0x200000 i := fun i inside =>
    Memory.load32_congr ((pagingAllocTable_below ⟨_, [], .nil _⟩ rfl taken).mono fun x member => by
      simp only [Set.mem_Ico, Set.mem_ofPred_eq, heapStart, pageEntries] at *
      omega)
  have fresh : FreshTable emptySpace.mem ((pagingAllocTable emptySpace).getD (emptySpace, 0)).1.mem 0x200000
      ((pagingAllocTable emptySpace).getD (emptySpace, 0)).2 :=
    ⟨by decide +kernel, .inl (by decide +kernel), fun i inside here => absurd here (unset i inside),
      kept, fun i inside here => absurd here (unset i inside)⟩
  obtain ⟨s', done, -, update⟩ := (@mapping_is_update emptySpace 0x200000 7 0x600000 0x10000000
    (by decide) tabled (by decide) (by decide) (by decide)).1 (.inr ⟨_, _, taken, fresh⟩)
  refine ⟨s', done, ?_, ?_⟩
  · rw [update _ (by decide)]
    decide +kernel
  · rw [update _ (by decide)]
    exact if_neg (by decide)

end Update

/-! ### The directories of the kernel -/

section Directories

variable {grid : Prop} {image : KernelImage} {s s' : PagingState} {l : List Segment} {own : Owner → Option Nat}
  {dir flags i j phys t virt w x : Nat}

theorem pageApart_of_ne {a b : Nat} (first : pageSize ∣ a) (second : pageSize ∣ b) (other : a ≠ b) :
    PageApart a b := by
  obtain ⟨m, rfl⟩ := first
  obtain ⟨n, rfl⟩ := second
  have apart : m ≠ n := fun same => other (by rw [same])
  simp only [PageApart, pageSize]
  omega

/-- The kernel's directory, or that of a process. -/
def IsDirectory (image : KernelImage) (own : Owner → Option Nat) (dir : Nat) : Prop :=
  dir = image.directory ∨ ∃ x, own (.directory dir) = some x

theorem IsDirectory.tracked (layout : Layout grid image s l own ∅) (directory : IsDirectory image own dir) :
    Tracked image own dir := by
  rcases directory with rfl | ⟨x, owned⟩
  · exact .inl rfl
  · exact Tracked.directory layout owned

/-- Where a present entry of a directory leads: to a table of the kernel or to one of its own. -/
def LeadsTo (image : KernelImage) (own : Owner → Option Nat) (dir i t : Nat) : Prop :=
  i = 0 ∧ t = image.table0 ∨ i = 1 ∧ t = image.table1 ∨ ∃ y, own (.table dir i) = some y ∧ t = home y

theorem Layout.leadsTo (layout : Layout grid image s l own ∅) (directory : IsDirectory image own dir)
    (inside : i < pageEntries) (here : present (entry s.mem dir i) = true) :
    LeadsTo image own dir i (frame (entry s.mem dir i)) := by
  have kernel := layout.kernel
  have frames : frame (entry s.mem image.directory 0) = image.table0 ∧
      frame (entry s.mem image.directory 1) = image.table1 := by
    rw [kernel.first, kernel.second]
    refine ⟨?_, ?_⟩
    · rw [frame_or (by decide), frame_or (by decide), frame_of_dvd image.aligned.2.1]
    · rw [frame_or (by decide), frame_or (by decide), frame_of_dvd image.aligned.2.2]
  rcases directory with rfl | ⟨x, owned⟩
  · by_cases low : i < 2
    · interval_cases i
      · exact .inl ⟨rfl, frames.1⟩
      · exact .inr (.inl ⟨rfl, frames.2⟩)
    · rw [kernel.rest i (by omega) inside] at here
      exact absurd here (by decide)
  · by_cases low : i < 2
    · obtain ⟨first, second⟩ := layout.shared dir x owned
      interval_cases i
      · exact .inl ⟨rfl, first ▸ frames.1⟩
      · exact .inr (.inl ⟨rfl, second ▸ frames.2⟩)
    · obtain ⟨y, table, same⟩ := layout.tableOf owned (by omega) inside here
      exact .inr (.inr ⟨y, table, same⟩)

theorem LeadsTo.tracked (leads : LeadsTo image own dir i t) : Tracked image own t := by
  rcases leads with ⟨-, rfl⟩ | ⟨-, rfl⟩ | ⟨y, owned, rfl⟩
  · exact .inr (.inl rfl)
  · exact .inr (.inr (.inl rfl))
  · exact Tracked.home rfl owned

theorem LeadsTo.ne_directory (layout : Layout grid image s l own ∅) (directory : IsDirectory image own dir)
    (leads : LeadsTo image own dir i t) : dir ≠ t := by
  rcases directory with rfl | ⟨x, owned⟩
  · rcases leads with ⟨-, rfl⟩ | ⟨-, rfl⟩ | ⟨y, table, rfl⟩
    · exact image.distinct.1
    · exact image.distinct.2.1
    · exact (layout.kernel_ne_home table).1
  · rcases leads with ⟨-, rfl⟩ | ⟨-, rfl⟩ | ⟨y, table, rfl⟩
    · rw [layout.placed dir x owned]
      exact (layout.kernel_ne_home owned).2.1.symm
    · rw [layout.placed dir x owned]
      exact (layout.kernel_ne_home owned).2.2.symm
    · intro same
      have equal := layout.home_inj rfl rfl owned table ((layout.placed dir x owned).symm.trans same)
      cases equal

theorem LeadsTo.unique (layout : Layout grid image s l own ∅) (first : LeadsTo image own dir i t)
    (second : LeadsTo image own dir j t) : i = j := by
  rcases first with ⟨rfl, here⟩ | ⟨rfl, here⟩ | ⟨y, owned, rfl⟩
  · rcases second with ⟨rfl, -⟩ | ⟨rfl, there⟩ | ⟨z, table, there⟩
    · rfl
    · exact absurd (here.symm.trans there) image.distinct.2.2
    · exact absurd (here.symm.trans there) (layout.kernel_ne_home table).2.1
  · rcases second with ⟨rfl, there⟩ | ⟨rfl, -⟩ | ⟨z, table, there⟩
    · exact absurd (there.symm.trans here) image.distinct.2.2
    · rfl
    · exact absurd (here.symm.trans there) (layout.kernel_ne_home table).2.2
  · rcases second with ⟨rfl, there⟩ | ⟨rfl, there⟩ | ⟨z, table, there⟩
    · exact absurd there.symm (layout.kernel_ne_home owned).2.1
    · exact absurd there.symm (layout.kernel_ne_home owned).2.2
    · have equal := layout.home_inj rfl rfl owned table there
      exact (Owner.table.inj equal).2

/-- **The directories of the kernel and of its processes** designate distinct tables. -/
theorem Layout.tabled (layout : Layout grid image s l own ∅) (directory : IsDirectory image own dir) :
    Tabled s.mem dir := by
  refine ⟨fun i inside here => ?_, fun i first j second here there same => ?_⟩
  · exact pageApart_of_ne (Layout.tracked_dvd (directory.tracked layout)) dvd_frame
      ((layout.leadsTo directory inside here).ne_directory layout directory)
  · exact LeadsTo.unique layout (same ▸ layout.leadsTo directory first here)
      (layout.leadsTo directory second there)

/-- **The tables they get are fresh.** -/
theorem Layout.freshTable (layout : Layout grid image s l own ∅) (directory : IsDirectory image own dir)
    (done : pagingAllocTable s = .ok (s', t)) (found : t ≠ 0) : FreshTable s.mem s'.mem dir t := by
  rcases layout.allocTable done with
    ⟨rfl, -⟩ | ⟨l', y, rfl, -, -, next, holds, fresh, -, -, same⟩
  · exact absurd rfl found
  · have new : ∀ {u}, Tracked image own u → u ≠ home y := by
      intro u tracked equal
      have above := Paging.home_bounds next.heap holds
      have inside := holds.bounds next.heap
      have low := image.low
      rcases tracked with rfl | rfl | rfl | ⟨a, x, entries, owned, rfl⟩
      · simp only [pageSize] at *
        omega
      · simp only [pageSize] at *
        omega
      · simp only [pageSize] at *
        omega
      · have one := Paging.home_inj next.heap (next.holds_structural entries owned) holds equal
        exact fresh a (one ▸ owned)
    have tracked := directory.tracked layout
    refine ⟨found, pageApart_of_ne (Layout.tracked_dvd tracked) dvd_home (new tracked),
      fun i inside here => new (layout.leadsTo directory inside here).tracked,
      fun i inside => same dir tracked i inside, fun i inside here j column => ?_⟩
    exact same _ (layout.leadsTo directory inside here).tracked j column

/-- **A page mapped by the kernel** in one of its directories: the update happens whenever the call
returns. -/
theorem Layout.mapPage_update (layout : Layout grid image s l own ∅) (directory : IsDirectory image own dir)
    (small : virt < 2 ^ 32) (fits : phys < 2 ^ 32) (low : flags < pageSize)
    (done : pagingMapPageInDirectory s dir virt phys flags = .ok s') (inside : w < 2 ^ 32) :
    translate s'.mem dir w =
      if w / pageSize = virt / pageSize then frame phys ||| w % pageSize else translate s.mem dir w := by
  have nonzero : dir ≠ 0 := by
    rcases directory with rfl | ⟨x, owned⟩
    · exact image.nonzero.1.ne'
    · exact (directory_pos layout owned).ne'
  have ready := tableReady_of_mapPage nonzero
    (fun _ _ taken found => layout.freshTable directory taken found) done
  obtain ⟨s'', done', -, update⟩ :=
    mapPage_translate nonzero (layout.tabled directory) small fits low ready
  obtain rfl := Outcome.ok.inj (done'.symm.trans done)
  exact update w inside

end Directories

end Kfs.Paging
