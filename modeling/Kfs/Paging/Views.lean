/-
**Address spaces seen from each other.**

What a directory translates to is read from the directory and the tables it leads to. An entry written for
one directory is in none of these pages of another, unless it is in a table of the kernel, so that mapping
a page above the kernel's part and unmapping one change the translation under one directory only:
`Layout.mapPage_view`, `Layout.unmapPage_view`, and `Layout.freeMapped_view` when the frame is freed first.
None of these moves a magic number, so that what `kfree` accepts afterwards is what it accepted before.
-/

import Kfs.Heap.Magic
import Kfs.Paging.Translate

namespace Kfs.Paging

open Kfs.Heap Memory

section Views

variable {grid : Prop} {image : KernelImage} {s s' : PagingState} {l : List Segment} {own own' : Owner → Option Nat}
  {a : Owner} {h' : HeapState} {m' : Memory} {d e flags i j phys t v virt w x y : Nat}

/-! ### What a directory reads -/

theorem IsDirectory.congr (directory : IsDirectory image own d) (dirs : SameDirs own own') :
    IsDirectory image own' d := by
  rcases directory with rfl | ⟨x, owned⟩
  · exact .inl rfl
  · exact .inr ⟨x, (dirs d).trans owned⟩

/-- A page of entries that a directory reads: itself or one it leads to. -/
def Reads (image : KernelImage) (own : Owner → Option Nat) (d t : Nat) : Prop :=
  t = d ∨ ∃ i, LeadsTo image own d i t

/-- An owner of a page that the directory reads. -/
def Owner.Of (d : Nat) (a : Owner) : Prop := a = .directory d ∨ ∃ i, a = .table d i

theorem Reads.tracked (layout : Layout grid image s l own ∅) (directory : IsDirectory image own d)
    (reads : Reads image own d t) : Tracked image own t := by
  rcases reads with rfl | ⟨i, leads⟩
  · exact directory.tracked layout
  · exact leads.tracked

/-- **The same entries in the pages it reads** make the same translation. -/
theorem Layout.translate_congr (layout : Layout grid image s l own ∅) (directory : IsDirectory image own d)
    (same : ∀ t, Reads image own d t → ∀ k < pageEntries, entry m' t k = entry s.mem t k)
    (small : w < 2 ^ 32) : translate m' d w = translate s.mem d w := by
  have row := dirIndex_lt small
  have first := same d (.inl rfl) _ row
  unfold translate
  rw [first]
  cases here : present (entry s.mem d (dirIndex w)) with
  | false => rfl
  | true =>
      have leads := layout.leadsTo directory row here
      rw [same _ (.inr ⟨_, leads⟩) _ tableIndex_lt]

/-- A page that a directory reads is not the block of an owner that is none of its own. -/
theorem Layout.reads_ne_home (layout : Layout grid image s l own ∅) (directory : IsDirectory image own d)
    (entries : a.structural = true) (owned : own a = some x) (foreign : ¬ a.Of d)
    (reads : Reads image own d t) : t ≠ home x := by
  have kernel := layout.kernel_ne_home owned
  rcases reads with rfl | ⟨i, leads⟩
  · rcases directory with rfl | ⟨y, directory⟩
    · exact kernel.1
    · intro same
      exact foreign (.inl (layout.home_inj entries rfl owned directory
        (same.symm.trans (layout.placed _ y directory))))
  · rcases leads with ⟨-, rfl⟩ | ⟨-, rfl⟩ | ⟨y, table, rfl⟩
    · exact kernel.2.1
    · exact kernel.2.2
    · intro same
      exact foreign (.inr ⟨i, layout.home_inj entries rfl owned table same.symm⟩)

/-- **Writing an entry for another directory.** -/
theorem Layout.translate_setEntry (layout : Layout grid image s l own ∅) (directory : IsDirectory image own d)
    (entries : a.structural = true) (owned : own a = some x) (foreign : ¬ a.Of d) (index : j < pageEntries)
    (small : w < 2 ^ 32) : translate (setEntry s.mem (home x) j v) d w = translate s.mem d w := by
  refine layout.translate_congr directory (fun t reads k inside => ?_) small
  rw [entry_setEntry dvd_home (Layout.tracked_dvd (reads.tracked layout directory)) index inside,
    if_neg fun both => layout.reads_ne_home directory entries owned foreign reads both.1]

/-! ### Mapping and unmapping -/

/-- A table for an address of another directory. -/
theorem Layout.ensureTable_view (layout : Layout grid image s l own ∅) (owned : own (.directory d) = some x)
    (low : UserIndex virt) (done : Paging.ensureTable s d virt flags = .ok s')
    (directory : IsDirectory image own e) (other : e ≠ d) (small : w < 2 ^ 32) :
    translate s'.mem e w = translate s.mem e w := by
  rcases ensureTable_cases done with ⟨here, rfl⟩ | ⟨here, s₁, t, taken, nonzero, rfl⟩
  · rfl
  · rcases layout.allocTable taken with
      ⟨rfl, rfl⟩ | ⟨l', y, rfl, _, _, next, holds, _, _, _, same⟩
    · exact absurd rfl nonzero
    · rw [PagingState.mem_write, next.placed d x owned]
      have foreign : ¬ (Owner.directory d).Of e := by
        rintro (same | ⟨k, same⟩)
        · exact other (Owner.directory.inj same).symm
        · cases same
      rw [next.translate_setEntry directory rfl owned foreign low.2 small]
      exact layout.translate_congr directory
        (fun t reads k inside => same t (reads.tracked layout directory) k inside) small

/-- **Mapping a page** under one directory, seen from every other. -/
theorem Layout.mapPage_other (layout : Layout grid image s l own ∅) (owned : own (.directory d) = some x)
    (low : UserIndex virt) (less : flags < pageSize)
    (done : pagingMapPageInDirectory s d virt phys flags = .ok s')
    (directory : IsDirectory image own e) (other : e ≠ d) (small : w < 2 ^ 32) :
    translate s'.mem e w = translate s.mem e w := by
  unfold pagingMapPageInDirectory at done
  have positive := directory_pos layout owned
  rw [if_neg (by omega)] at done
  obtain ⟨s₁, ensured, rest⟩ := Outcome.bind_eq_ok.mp done
  obtain ⟨l', own', y, next, dirs, _, _, table, home, _⟩ :=
    layout.ensureTable owned low.1 low.2 less ensured
  cases rest
  rw [home, PagingState.mem_note, PagingState.mem_write]
  have foreign : ¬ (Owner.table d (dirIndex virt)).Of e := by
    rintro (same | ⟨k, same⟩)
    · cases same
    · exact other (Owner.table.inj same).1.symm
  rw [next.translate_setEntry (directory.congr dirs) rfl table foreign tableIndex_lt small]
  exact layout.ensureTable_view owned low ensured directory other small

/-- **Mapping a page** above the kernel's part, seen from every directory. -/
theorem Layout.mapPage_view (layout : Layout grid image s l own ∅) (owned : own (.directory d) = some x)
    (low : UserIndex virt) (below : virt < 2 ^ 32) (fits : phys < 2 ^ 32) (less : flags < pageSize)
    (done : pagingMapPageInDirectory s d virt phys flags = .ok s')
    (directory : IsDirectory image own e) (small : w < 2 ^ 32) :
    translate s'.mem e w = if e = d ∧ w / pageSize = virt / pageSize then frame phys ||| w % pageSize
      else translate s.mem e w := by
  by_cases same : e = d
  · subst same
    rw [layout.mapPage_update directory below fits less done small]
    simp only [true_and]
  · rw [if_neg fun both => same both.1]
    exact layout.mapPage_other owned low less done directory same small

/-- **Unmapping a page** above the kernel's part, seen from every directory. -/
theorem Layout.unmapPage_view (layout : Layout grid image s l own ∅) (current : CurrentOwned image s own)
    (low : UserIndex virt) (below : virt < 2 ^ 32) (directory : IsDirectory image own e)
    (small : w < 2 ^ 32) :
    translate (pagingUnmapPage s virt).mem e w =
      if e = s.current ∧ w / pageSize = virt / pageSize then 0 else translate s.mem e w := by
  by_cases same : e = s.current
  · subst same
    rw [(unmapPage_translate (layout.tabled directory) below).2.2 w small]
    simp only [true_and]
  · rw [if_neg fun both => same both.1]
    cases here : present (entry s.mem s.current (dirIndex virt)) with
    | false => rw [pagingUnmapPage, if_neg (by rw [here]; decide)]
    | true =>
        obtain ⟨x, owned⟩ := current.owned layout.kernel low.1 low.2 here
        obtain ⟨y, table, leads⟩ := layout.tableOf owned low.1 low.2 here
        rw [pagingUnmapPage_table here leads, PagingState.mem_write]
        refine layout.translate_setEntry directory rfl table ?_ tableIndex_lt small
        rintro (equal | ⟨k, equal⟩)
        · cases equal
        · exact same (Owner.table.inj equal).1.symm

/-! ### Freeing the frame of a page -/

/-- **A mapped page** of a directory: its owners, and the frame they give for it. -/
theorem Layout.pageOf (layout : Layout grid image s l own ∅) (owned : own (.directory d) = some x)
    (low : UserIndex virt) (aligned : pageSize ∣ virt) (mapped : translate s.mem d virt ≠ 0) :
    ∃ y z, own (.table d (dirIndex virt)) = some y ∧
      own (.page d (dirIndex virt) (tableIndex virt)) = some z ∧ translate s.mem d virt = frame z := by
  rw [translate] at mapped ⊢
  by_cases here : present (entry s.mem d (dirIndex virt)) = true
  · obtain ⟨y, table, same⟩ := layout.tableOf owned low.1 low.2 here
    rw [if_pos here, same] at mapped ⊢
    by_cases found : present (entry s.mem (home y) (tableIndex virt)) = true
    · rw [if_pos found, Nat.mod_eq_zero_of_dvd aligned, Nat.or_zero]
      rcases layout.pages _ _ y _ table tableIndex_lt found with ⟨lost, _⟩ | ⟨z, page, sameFrame, _⟩
      · exact absurd lost (Set.notMem_empty _)
      · exact ⟨y, z, table, page, sameFrame⟩
    · rw [if_neg found] at mapped
      exact absurd rfl mapped
  · rw [if_neg here] at mapped
    exact absurd rfl mapped

/-- **A mapped page of the loaded directory.** -/
theorem Layout.mappedPage (layout : Layout grid image s l own ∅) (current : CurrentOwned image s own)
    (low : UserIndex virt) (aligned : pageSize ∣ virt) (mapped : pagingGetPhysicalAddress s virt ≠ 0) :
    ∃ z, own (.page s.current (dirIndex virt) (tableIndex virt)) = some z ∧
      pagingGetPhysicalAddress s virt = frame z := by
  rw [physicalAddress_translate] at mapped ⊢
  have here : present (entry s.mem s.current (dirIndex virt)) = true := by
    by_contra absent
    rw [translate, if_neg absent] at mapped
    exact mapped rfl
  obtain ⟨x, owned⟩ := current.owned layout.kernel low.1 low.2 here
  obtain ⟨y, z, -, page, phys⟩ := layout.pageOf owned low aligned mapped
  exact ⟨z, page, phys⟩

/-- The frame of a page is one that `kfree` can be asked about. -/
theorem Layout.frame_bounds (layout : Layout grid image s l own ∅) (owned : own a = some x) :
    16 ∣ frame x ∧ frame x ≠ 0 ∧ frame x < 2 ^ 32 := by
  have inside := (layout.held a x owned).bounds layout.heap
  have near := @lt_frame_add x
  have below := @frame_le x
  refine ⟨Dvd.dvd.trans (by decide) dvd_frame, ?_, ?_⟩
  · simp only [heapStart, pageSize] at inside near
    omega
  · simp only [heapEnd, heapStart, heapSize] at inside
    omega

/-- **Freeing the frame** changes no page of entries. -/
theorem Layout.freeFrame_entries (layout : Layout grid image s l own ∅) (current : CurrentOwned image s own)
    (low : UserIndex virt) (aligned : pageSize ∣ virt) (mapped : pagingGetPhysicalAddress s virt ≠ 0)
    (clear : Unshadowed l (pagingGetPhysicalAddress s virt))
    (done : kfree s.heap (pagingGetPhysicalAddress s virt) = .ok h') :
    SameMagic s.mem h'.mem ∧
      ∀ t, Tracked image own t → ∀ k < pageEntries, entry h'.mem t k = entry s.mem t k := by
  obtain ⟨z, page, phys⟩ := layout.mappedPage current low aligned mapped
  rw [phys] at clear done
  obtain ⟨grain, nonzero, small⟩ := layout.frame_bounds page
  obtain ⟨l', -, -, entries⟩ := layout.free page
    ⟨lt_frame_add, lt_of_le_of_lt frame_le (Nat.lt_add_of_pos_right (by decide))⟩ dvd_frame clear done
  exact ⟨kfree_magic layout.heap grain nonzero small clear done,
    fun t tracked => entries t (tracked.strike rfl)⟩

/-- Unmapping a page makes the same entries of the same entries. -/
theorem Layout.unmapPage_congr (layout : Layout grid image s l own ∅) (current : CurrentOwned image s own)
    (low : UserIndex virt)
    (same : ∀ t, Tracked image own t → ∀ k < pageEntries, entry h'.mem t k = entry s.mem t k) :
    ∀ t, Tracked image own t → ∀ k < pageEntries,
      entry (pagingUnmapPage (s.withHeap h') virt).mem t k = entry (pagingUnmapPage s virt).mem t k := by
  intro t tracked k inside
  have root : Tracked image own s.current := IsDirectory.tracked layout current
  have row : entry (s.withHeap h').mem (s.withHeap h').current (dirIndex virt) =
      entry s.mem s.current (dirIndex virt) := same _ root _ low.2
  cases here : present (entry s.mem s.current (dirIndex virt)) with
  | false =>
      rw [pagingUnmapPage, if_neg (by rw [row, here]; decide), pagingUnmapPage,
        if_neg (by rw [here]; decide)]
      exact same t tracked k inside
  | true =>
      rw [@pagingUnmapPage_table (s.withHeap h') _ _ (by rw [row, here]) (by rw [row]),
        pagingUnmapPage_table here rfl, PagingState.mem_write, PagingState.mem_write,
        entry_setEntry dvd_frame (Layout.tracked_dvd tracked) tableIndex_lt inside,
        entry_setEntry dvd_frame (Layout.tracked_dvd tracked) tableIndex_lt inside,
        PagingState.mem_withHeap, same t tracked k inside]

/-- **Freeing a mapped page and unmapping it**, seen from every directory. -/
theorem Layout.freeMapped_view (layout : Layout grid image s l own ∅) (current : CurrentOwned image s own)
    (low : UserIndex virt) (below : virt < 2 ^ 32) (aligned : pageSize ∣ virt)
    (mapped : pagingGetPhysicalAddress s virt ≠ 0)
    (clear : Unshadowed l (pagingGetPhysicalAddress s virt))
    (done : kfree s.heap (pagingGetPhysicalAddress s virt) = .ok h')
    (directory : IsDirectory image own e) (small : w < 2 ^ 32) :
    translate (pagingUnmapPage (s.withHeap h') virt).mem e w =
      if e = s.current ∧ w / pageSize = virt / pageSize then 0 else translate s.mem e w := by
  obtain ⟨-, same⟩ := layout.freeFrame_entries current low aligned mapped clear done
  rw [← layout.unmapPage_view current low below directory small]
  exact (layout.unmapPage current low.1 low.2).translate_congr directory
    (fun t reads => layout.unmapPage_congr current low same t (reads.tracked layout directory)) small

/-- **Unmapping a page** moves no magic number. -/
theorem Layout.unmapPage_magic (layout : Layout grid image s l own ∅) (current : CurrentOwned image s own)
    (low : UserIndex virt)
    (same : ∀ t, Tracked image own t → ∀ k < pageEntries, entry h'.mem t k = entry s.mem t k) :
    SameMagic h'.mem (pagingUnmapPage (s.withHeap h') virt).mem := by
  have root : Tracked image own s.current := IsDirectory.tracked layout current
  have row : entry (s.withHeap h').mem (s.withHeap h').current (dirIndex virt) =
      entry s.mem s.current (dirIndex virt) := same _ root _ low.2
  cases here : present (entry s.mem s.current (dirIndex virt)) with
  | false =>
      rw [pagingUnmapPage, if_neg (by rw [row, here]; decide)]
      exact .refl _
  | true =>
      obtain ⟨x, owned⟩ := current.owned layout.kernel low.1 low.2 here
      obtain ⟨y, table, leads⟩ := layout.tableOf owned low.1 low.2 here
      have tracked : Tracked image own (home y) := Tracked.home rfl table
      rw [@pagingUnmapPage_table (s.withHeap h') _ _ (by rw [row, here]) (by rw [row, leads]),
        PagingState.mem_write, PagingState.mem_withHeap]
      have grain : 4 ∣ home y := Dvd.dvd.trans (by decide) dvd_home
      refine SameMagic.store32 (by omega) ?_ (by decide)
      have kept := same _ tracked (tableIndex virt) tableIndex_lt
      rw [entry] at kept
      rw [kept]
      exact layout.entry_ne_magic tracked tableIndex_lt

/-! ### The blocks left in use -/

/-- Two blocks of a page each with the same frame are one. -/
theorem holds_near (heap : HeapInv h' l) (first : Holds l x pageSize) (second : Holds l y pageSize)
    (near : frame x = y ∨ frame x = frame y) : x = y := by
  by_contra other
  have apart := first.apart heap second other
  have below := @frame_le x
  have above := @lt_frame_add x
  have below' := @frame_le y
  have above' := @lt_frame_add y
  simp only [pageSize] at *
  omega

/-- **Freeing a mapped page and unmapping it**: its owner is struck off, and the other blocks of a page or
more stay in use. The block goes if its payload starts where the frame does. -/
theorem Layout.freeMapped_blocks (layout : Layout grid image s l own ∅) (current : CurrentOwned image s own)
    (low : UserIndex virt) (aligned : pageSize ∣ virt) (mapped : pagingGetPhysicalAddress s virt ≠ 0)
    (clear : Unshadowed l (pagingGetPhysicalAddress s virt))
    (done : kfree s.heap (pagingGetPhysicalAddress s virt) = .ok h') :
    ∃ l', Layout grid image (pagingUnmapPage (s.withHeap h') virt) l'
        (Function.update own (.page s.current (dirIndex virt) (tableIndex virt)) none) ∅ ∧
      StartsAmong l' l ∧
      (∀ x, Holds l x pageSize → (pageSize ∣ x → ∀ i j, own (.page s.current i j) ≠ some x) →
        Holds l' x pageSize) ∧
      (inUse l).card ≤ (inUse l').card + 1 ∧
      (Holds l (pagingGetPhysicalAddress s virt) pageSize →
        inUse l = pagingGetPhysicalAddress s virt ::ₘ inUse l') := by
  obtain ⟨l', heap, starts, unmapped⟩ :=
    layout.freeMapped_owners current low.1 low.2 aligned mapped clear done
  obtain ⟨z, page, phys⟩ := layout.mappedPage current low aligned mapped
  rw [phys] at clear done ⊢
  obtain ⟨grain, nonzero, small⟩ := layout.frame_bounds page
  have mine : Holds l z pageSize := layout.held _ z page
  refine ⟨l', unmapped, starts, ?_⟩
  by_cases payload : ∃ b ∈ l, b.free = false ∧ b.addr + 16 = frame z
  · obtain ⟨b, member, used, here⟩ := payload
    obtain ⟨m, freed, after, -⟩ := kfree_used layout.heap member used
    rw [here] at freed
    cases done.symm.trans freed
    obtain rfl := heap.unique after
    have gone := inUse_release layout.heap.tiles member used
    rw [here] at gone
    refine ⟨fun x holds other => ?_, ?_, fun _ => gone⟩
    · obtain ⟨c, found, busy, rfl, room⟩ := holds
      refine ⟨c, (mem_release_used busy).mpr ⟨found, fun same => ?_⟩, busy, rfl, room⟩
      have equal := holds_near layout.heap mine ⟨c, found, busy, rfl, room⟩ (.inl (by omega))
      have start : pageSize ∣ c.addr + 16 := by
        rw [same, here]
        exact dvd_frame
      exact other start _ _ (equal ▸ page)
    · rw [gone, Multiset.card_cons]
  · rcases kfree_stray layout.heap clear grain nonzero small done with
      ⟨b, member, used, here, -⟩ | ⟨same, -⟩
    · exact absurd ⟨b, member, used, here.symm⟩ payload
    · obtain rfl := heap.unique same
      refine ⟨fun x holds _ => holds, Nat.le_succ _, fun holds => ?_⟩
      obtain ⟨c, found, busy, here, -⟩ := holds
      exact absurd ⟨c, found, busy, here⟩ payload

end Views

end Kfs.Paging
