/-
**Which pages are mapped.**

`Maps m d virt`: in memory `m` the directory `d` has a page at `virt`. For each move of the paging code on
an owned directory, the pages mapped afterwards are mapped before, or are the page just mapped
(`mapPageInDirectory_maps`); a page that is unmapped is not mapped afterwards (`unmapPage_maps`). Only
the user's part is considered, above entries 0 and 1.
-/

import Kfs.Paging.Spaces

namespace Kfs.Paging

open Kfs.Heap Memory

/-- The directory has a page at the virtual address. -/
def Maps (m : Memory) (d virt : Nat) : Prop :=
  present (entry m d (dirIndex virt)) = true ∧
    present (entry m (frame (entry m d (dirIndex virt))) (tableIndex virt)) = true

instance {m : Memory} {d virt : Nat} : Decidable (Maps m d virt) := inferInstanceAs (Decidable (_ ∧ _))

/-- An address of the user's part. -/
def UserIndex (virt : Nat) : Prop := 2 ≤ dirIndex virt ∧ dirIndex virt < pageEntries

section Present

variable {grid : Prop} {image : KernelImage} {s s' : PagingState} {l : List Segment} {own : Owner → Option Nat}
  {gone : Set Owner} {h' : HeapState} {m' : Memory} {d e flags i j v virt w x y z : Nat}

/-- Two addresses are in one page exactly when their indices agree. -/
theorem page_eq_iff : w / pageSize = virt / pageSize ↔
    dirIndex w = dirIndex virt ∧ tableIndex w = tableIndex virt := by
  rw [page_eq, page_eq]
  have first : tableIndex w < pageEntries := tableIndex_lt
  have second : tableIndex virt < pageEntries := tableIndex_lt
  simp only [pageEntries] at *
  omega

theorem Maps.congr_page (same : w / pageSize = virt / pageSize) : Maps m' d w ↔ Maps m' d virt := by
  obtain ⟨directory, table⟩ := page_eq_iff.mp same
  rw [Maps, Maps, directory, table]

/-- A present entry of an owned directory leads to its table. -/
theorem Layout.maps_iff (layout : Layout grid image s l own ∅) (owned : own (.directory d) = some x)
    (user : UserIndex w) : Maps s.mem d w ↔ ∃ y, own (.table d (dirIndex w)) = some y ∧
      present (entry s.mem d (dirIndex w)) = true ∧ frame (entry s.mem d (dirIndex w)) = home y ∧
      present (entry s.mem (home y) (tableIndex w)) = true := by
  constructor
  · rintro ⟨here, found⟩
    obtain ⟨y, table, same⟩ := layout.tableOf owned user.1 user.2 here
    exact ⟨y, table, here, same, same ▸ found⟩
  · rintro ⟨y, _, here, same, found⟩
    exact ⟨here, same ▸ found⟩

/-- Memory with the same entries maps the same pages. -/
theorem Layout.maps_congr (layout : Layout grid image s l own ∅) (owned : own (.directory d) = some x)
    (user : UserIndex w)
    (same : ∀ t, Tracked image own t → ∀ i < pageEntries, entry m' t i = entry s.mem t i) :
    Maps m' d w ↔ Maps s.mem d w := by
  have directory := same d (Tracked.directory layout owned) _ user.2
  rw [Maps, Maps, directory]
  refine and_congr_right fun here => ?_
  obtain ⟨y, table, there⟩ := layout.tableOf owned user.1 user.2 here
  rw [there, same _ (Tracked.home rfl table) _ tableIndex_lt]

/-- **Writing one page entry** of a directory decides about that page only. -/
theorem Layout.maps_setEntry (layout : Layout grid image s l own ∅) (owned : own (.directory d) = some x)
    (table : own (.table d i) = some y) (index : j < pageEntries) (user : UserIndex w)
    (maps : Maps (setEntry s.mem (home y) j v) d w) :
    dirIndex w = i ∧ tableIndex w = j ∧ present (v % 2 ^ 32) = true ∨
      ¬ (dirIndex w = i ∧ tableIndex w = j) ∧ Maps s.mem d w := by
  have directory : entry (setEntry s.mem (home y) j v) d (dirIndex w) = entry s.mem d (dirIndex w) := by
    rw [layout.placed d x owned]
    exact layout.entry_setEntry_other rfl table rfl owned (by simp) index user.2
  obtain ⟨here, found⟩ := maps
  rw [directory] at here found
  obtain ⟨y', table', same⟩ := layout.tableOf owned user.1 user.2 here
  rw [same, entry_setEntry dvd_home dvd_home index tableIndex_lt] at found
  by_cases mine : dirIndex w = i ∧ tableIndex w = j
  · refine .inl ⟨mine.1, mine.2, ?_⟩
    have equal : y' = y := by
      rw [mine.1, table] at table'
      exact (Option.some.inj table').symm
    rwa [if_pos ⟨by rw [equal], mine.2⟩] at found
  · refine .inr ⟨mine, here, ?_⟩
    rw [if_neg] at found
    · rw [same]
      exact found
    · rintro ⟨sameHome, column⟩
      have owner := layout.home_inj rfl rfl table' table sameHome
      rw [Owner.table.injEq] at owner
      exact mine ⟨owner.2, column⟩

/-- Writing a present entry keeps every page that is mapped. -/
theorem Layout.maps_setPresent (layout : Layout grid image s l own ∅) (owned : own (.directory d) = some x)
    (table : own (.table d i) = some y) (index : j < pageEntries) (user : UserIndex w)
    (set : present (v % 2 ^ 32) = true) (maps : Maps s.mem d w) :
    Maps (setEntry s.mem (home y) j v) d w := by
  have directory : entry (setEntry s.mem (home y) j v) d (dirIndex w) = entry s.mem d (dirIndex w) := by
    rw [layout.placed d x owned]
    exact layout.entry_setEntry_other rfl table rfl owned (by simp) index user.2
  obtain ⟨y', table', here, same, found⟩ := (layout.maps_iff owned user).mp maps
  refine ⟨by rw [directory, here], ?_⟩
  rw [directory, same, entry_setEntry dvd_home dvd_home index tableIndex_lt]
  split
  · exact set
  · exact found

/-- Linking an empty table maps nothing. -/
theorem Layout.maps_link (layout : Layout grid image s l own ∅) (owned : own (.directory d) = some x)
    (low : i < pageEntries) (table : own (.table d i) = some y) (same : frame (e % 2 ^ 32) = home y)
    (empty : ∀ j < pageEntries, entry s.mem (home y) j = 0) (user : UserIndex w)
    (maps : Maps (setEntry s.mem d i e) d w) : Maps s.mem d w := by
  have aligned := Layout.tracked_dvd (Tracked.directory layout owned)
  have place := layout.placed d x owned
  have tables : ∀ {k u}, own (.table d k) = some u → ∀ j < pageEntries,
      entry (setEntry s.mem d i e) (home u) j = entry s.mem (home u) j := by
    intro k u found j inside
    rw [place]
    exact layout.entry_setEntry_other rfl owned rfl found (by simp) low inside
  obtain ⟨here, found⟩ := maps
  rw [entry_setEntry aligned aligned low user.2] at here found
  by_cases mine : dirIndex w = i
  · rw [if_pos ⟨rfl, mine⟩, same, tables table _ tableIndex_lt, empty _ tableIndex_lt] at found
    exact absurd found (by decide)
  · rw [if_neg fun both => mine both.2] at here found
    obtain ⟨u, old, there⟩ := layout.tableOf owned user.1 user.2 here
    refine ⟨here, ?_⟩
    rw [there] at found ⊢
    rwa [tables old _ tableIndex_lt] at found

/-- Linking a table where there was none keeps every page that is mapped. -/
theorem Layout.maps_linked (layout : Layout grid image s l own ∅) (owned : own (.directory d) = some x)
    (low : i < pageEntries) (absent : present (entry s.mem d i) = false) (user : UserIndex w)
    (maps : Maps s.mem d w) : Maps (setEntry s.mem d i e) d w := by
  have aligned := Layout.tracked_dvd (Tracked.directory layout owned)
  have place := layout.placed d x owned
  obtain ⟨y, table, here, same, found⟩ := (layout.maps_iff owned user).mp maps
  have other : dirIndex w ≠ i := by
    rintro rfl
    rw [absent] at here
    cases here
  have row : entry (setEntry s.mem d i e) d (dirIndex w) = entry s.mem d (dirIndex w) := by
    rw [entry_setEntry aligned aligned low user.2, if_neg fun both => other both.2]
  refine ⟨by rw [row, here], ?_⟩
  rw [row, same, place, layout.entry_setEntry_other rfl owned rfl table (by simp) low tableIndex_lt]
  exact found

/-! ### The functions -/

theorem Layout.ensureTable_maps (layout : Layout grid image s l own ∅) (owned : own (.directory d) = some x)
    (low : UserIndex virt) (small : flags < pageSize)
    (done : Paging.ensureTable s d virt flags = .ok s') (user : UserIndex w) :
    Maps s'.mem d w ↔ Maps s.mem d w := by
  rcases ensureTable_cases done with ⟨here, rfl⟩ | ⟨here, s₁, t, taken, nonzero, rfl⟩
  · rfl
  · rcases layout.allocTable taken with
      ⟨rfl, rfl⟩ | ⟨l', y, rfl, _, _, next, holds, fresh, _, empty, same⟩
    · exact absurd rfl nonzero
    · have absent : ∀ x, own (.directory d) = some x →
          present (entry s₁.mem d (dirIndex virt)) = false := fun x' owned' => by
        rw [same d (Tracked.directory layout owned') _ low.2, here]
      have adopted := next.adoptTable holds fresh empty absent
      have stays : Function.update own (.table d (dirIndex virt)) (some y) (.directory d) = some x := by
        rw [Function.update_of_ne (by simp), owned]
      have bound : home y ||| pagePresent ||| pageWrite ||| flags < 2 ^ 32 :=
        or_lt (or_lt (or_lt (home_lt next holds) (by decide)) (by decide)) small
      rw [← layout.maps_congr owned user same]
      refine ⟨adopted.maps_link stays low.2 (Function.update_self _ _ _) ?_ empty user,
        next.maps_linked owned low.2 (absent x owned) user⟩
      rw [Nat.mod_eq_of_lt bound, frame_tableEntry dvd_home small]

/-- What `paging_map_page_in_directory` writes, once the table is there. -/
theorem Layout.mapPageInDirectory_mem (layout : Layout grid image s l own ∅)
    (owned : own (.directory d) = some x) (low : UserIndex virt) (small : flags < pageSize)
    (done : pagingMapPageInDirectory s d virt z flags = .ok s') :
    ∃ s₁ l' own' y, Layout grid image s₁ l' own' ∅ ∧ own' (.directory d) = some x ∧
      own' (.table d (dirIndex virt)) = some y ∧
      s'.mem = setEntry s₁.mem (home y) (tableIndex virt) (frame z ||| flagBits flags ||| pagePresent) ∧
      ∀ w, UserIndex w → (Maps s₁.mem d w ↔ Maps s.mem d w) := by
  unfold pagingMapPageInDirectory at done
  have positive := directory_pos layout owned
  rw [if_neg (by omega)] at done
  obtain ⟨s₁, ensured, rest⟩ := Outcome.bind_eq_ok.mp done
  obtain ⟨l', own', y, next, same, _, _, table, home, _⟩ :=
    layout.ensureTable owned low.1 low.2 small ensured
  cases rest
  refine ⟨s₁, l', own', y, next, (same d).trans owned, table, ?_,
    fun w user => layout.ensureTable_maps owned low small ensured user⟩
  rw [home, PagingState.mem_note, PagingState.mem_write]

/-- **`paging_map_page_in_directory`** maps one page. -/
theorem Layout.mapPageInDirectory_maps (layout : Layout grid image s l own ∅)
    (owned : own (.directory d) = some x) (low : UserIndex virt) (small : flags < pageSize)
    (done : pagingMapPageInDirectory s d virt z flags = .ok s') (user : UserIndex w)
    (maps : Maps s'.mem d w) : w / pageSize = virt / pageSize ∨ Maps s.mem d w := by
  obtain ⟨s₁, l', own', y, next, owned', table, written, before⟩ :=
    layout.mapPageInDirectory_mem owned low small done
  rw [written] at maps
  rcases next.maps_setEntry owned' table tableIndex_lt user maps with ⟨row, column, _⟩ | ⟨_, old⟩
  · exact .inl (page_eq_iff.mpr ⟨row, column⟩)
  · exact .inr ((before w user).mp old)

/-- Mapping a page keeps the pages that are mapped. -/
theorem Layout.mapPageInDirectory_keeps (layout : Layout grid image s l own ∅)
    (owned : own (.directory d) = some x) (low : UserIndex virt) (small : flags < pageSize)
    (done : pagingMapPageInDirectory s d virt z flags = .ok s') (user : UserIndex w)
    (bound : z < 2 ^ 32) (maps : Maps s.mem d w) : Maps s'.mem d w := by
  obtain ⟨s₁, l', own', y, next, owned', table, written, before⟩ :=
    layout.mapPageInDirectory_mem owned low small done
  rw [written]
  refine next.maps_setPresent owned' table tableIndex_lt user ?_ ((before w user).mpr maps)
  have small' : frame z ||| flagBits flags ||| pagePresent < 2 ^ 32 :=
    or_lt (or_lt (lt_of_le_of_lt frame_le bound) flagBits_lt) (by decide)
  rw [Nat.mod_eq_of_lt small', present_or, show present pagePresent = true by decide, Bool.or_true]

/-- The frame of a user page is not 0. -/
theorem Layout.physicalAddress_maps (layout : Layout grid image s l own ∅)
    (owned : own (.directory s.current) = some x) (user : UserIndex virt)
    (maps : Maps s.mem s.current virt) : pagingGetPhysicalAddress s virt ≠ 0 := by
  obtain ⟨y, table, here, same, found⟩ := (layout.maps_iff owned user).mp maps
  unfold pagingGetPhysicalAddress
  rw [here, if_pos rfl, same]
  simp only
  rw [found, if_pos rfl]
  rcases layout.pages _ _ y _ table tableIndex_lt found with ⟨lost, _⟩ | ⟨z, page, sameFrame, _⟩
  · exact absurd lost (Set.notMem_empty _)
  · have bounds := (layout.held _ z page).bounds layout.heap
    have near := @lt_frame_add z
    intro zero
    have below : frame z ≤ frame z ||| virt % pageSize := Nat.left_le_or
    rw [← sameFrame, zero, sameFrame] at below
    simp only [heapStart, pageSize] at bounds near
    omega

/-- Clearing the entry of a page that is or is not mapped. -/
theorem Layout.unmapPage_maps (layout : Layout grid image s l own ∅)
    (owned : own (.directory s.current) = some x) (low : UserIndex virt) (user : UserIndex w)
    (maps : Maps (pagingUnmapPage s virt).mem s.current w) :
    w / pageSize ≠ virt / pageSize ∧ Maps s.mem s.current w := by
  cases here : present (entry s.mem s.current (dirIndex virt)) with
  | false =>
      rw [pagingUnmapPage, if_neg (by rw [here]; decide)] at maps
      refine ⟨fun same => ?_, maps⟩
      rw [Maps, (page_eq_iff.mp same).1, here] at maps
      cases maps.1
  | true =>
      obtain ⟨y, table, same⟩ := layout.tableOf owned low.1 low.2 here
      rw [pagingUnmapPage_table here same, PagingState.mem_write] at maps
      rcases layout.maps_setEntry owned table tableIndex_lt user maps with ⟨_, _, set⟩ | ⟨other, old⟩
      · exact absurd set (by decide)
      · exact ⟨fun equal => other (page_eq_iff.mp equal), old⟩

/-- **Freeing a mapped page and unmapping it.** -/
theorem Layout.freeMapped_maps (layout : Layout grid image s l own ∅)
    (owned : own (.directory s.current) = some x) (low : UserIndex virt) (aligned : pageSize ∣ virt)
    (mapped : pagingGetPhysicalAddress s virt ≠ 0)
    (clear : Unshadowed l (pagingGetPhysicalAddress s virt))
    (done : kfree s.heap (pagingGetPhysicalAddress s virt) = .ok h') (user : UserIndex w)
    (maps : Maps (pagingUnmapPage (s.withHeap h') virt).mem s.current w) :
    w / pageSize ≠ virt / pageSize ∧ Maps s.mem s.current w := by
  obtain ⟨l', _, y, -, table, here, same, -, -, kept, written⟩ :=
    layout.freeMapped_cases (.inr ⟨x, owned⟩) low.1 low.2 aligned mapped clear done
  rw [written, PagingState.mem_write] at maps
  have unmapped := layout.unmapPage (.inr ⟨x, owned⟩) low.1 low.2
  refine layout.unmapPage_maps owned low user ?_
  rw [pagingUnmapPage_table here same] at unmapped ⊢
  refine (unmapped.maps_congr owned user fun t tracked k inside => ?_).mp maps
  have aligned' := Layout.tracked_dvd tracked
  rw [PagingState.mem_write, entry_setEntry dvd_home aligned' tableIndex_lt inside,
    entry_setEntry dvd_home aligned' tableIndex_lt inside, kept t tracked k inside]

end Present

end Kfs.Paging
