/-
**Changing page tables.**

The moves of the paging code on directories and tables, each with the invariant it keeps: a fresh block
becomes a directory, a table or a claimed page (`adoptDirectory`, `adoptTable`, `claim`), a table is
linked into its directory (`linkTable`), a page is mapped (`mapPage`), an entry is cleared
(`clearPage`).
-/

import Kfs.Paging.Layout

namespace Kfs.Paging

open Kfs.Heap Memory

/-! ### Moves of the tables -/

section Tables

variable {grid : Prop} {image : KernelImage} {s : PagingState} {l : List Segment} {own : Owner → Option Nat}
  {gone : Set Owner} {a : Owner} {d e i j v x y z : Nat}

/-- A tracked directory. -/
theorem Tracked.directory (layout : Layout grid image s l own gone) (owned : own (.directory d) = some x) :
    Tracked image own d :=
  Or.inr (Or.inr (Or.inr ⟨_, x, rfl, owned, layout.placed d x owned⟩))

theorem Tracked.home (entries : a.structural = true) (owned : own a = some x) :
    Tracked image own (home x) :=
  Or.inr (Or.inr (Or.inr ⟨a, x, entries, owned, rfl⟩))

/-- The allocation noted for a page, after another is noted. -/
theorem madeFor_note {d' p p' : Nat} : (s.note d p z).madeFor d' p' =
    if d' = d ∧ p' = p then some z else s.madeFor d' p' := by
  unfold PagingState.madeFor PagingState.note
  by_cases same : d' = d ∧ p' = p
  · rw [if_pos same, List.find?_cons_of_pos (by simp [same.1, same.2])]
    rfl
  · rw [if_neg same, List.find?_cons_of_neg]
    simp only [decide_eq_true_eq]
    exact fun equal => same ⟨equal.1.symm, equal.2.symm⟩

namespace Layout

/-- The heap does not see a change of an entry. -/
theorem heap_setEntry (layout : Layout grid image s l own gone) (entries : a.structural = true)
    (owned : own a = some x) (index : i < pageEntries) :
    HeapInv { s.heap with mem := setEntry s.mem (home x) i v } l := by
  refine layout.heap.write (Set.EqOn.mono (fun y outside => ?_) (store32_eqOn s.mem _ v))
  obtain ⟨b, member, used, rfl, room⟩ := layout.holds_structural entries owned
  have above := layout.home_bounds owned
  have := outside b member used
  simp only [Set.mem_ofPred_eq, pageSize, pageEntries] at *
  omega

/-- The kernel's tables do not see a change of an entry elsewhere. -/
theorem kernel_setEntry (layout : Layout grid image s l own gone) (owned : own a = some x)
    (index : i < pageEntries) : KernelMapped image (setEntry s.mem (home x) i v) := by
  obtain ⟨apart, apart0, apart1⟩ := layout.kernel_ne_home owned
  obtain ⟨aligned, aligned0, aligned1⟩ := image.aligned
  refine layout.kernel.congr fun t which k inside => ?_
  rcases which with rfl | rfl | rfl
  · rw [entry_setEntry dvd_home aligned index inside, if_neg (fun both => apart both.1)]
  · rw [entry_setEntry dvd_home aligned0 index inside, if_neg (fun both => apart0 both.1)]
  · rw [entry_setEntry dvd_home aligned1 index inside, if_neg (fun both => apart1 both.1)]

/-- Entries of another owner's page. -/
theorem entry_setEntry_other (layout : Layout grid image s l own gone) {b : Owner}
    (entries : a.structural = true) (owned : own a = some x) (entries' : b.structural = true)
    (owned' : own b = some y) (other : b ≠ a) (index : i < pageEntries) (index' : j < pageEntries) :
    entry (setEntry s.mem (home x) i v) (home y) j = entry s.mem (home y) j := by
  rw [entry_setEntry dvd_home dvd_home index index',
    if_neg fun both => other (layout.home_inj entries' entries owned' owned both.1)]

/-- **Linking a table** into its directory. -/
theorem linkTable (layout : Layout grid image s l own gone) (owned : own (.directory d) = some x)
    (low : 2 ≤ i) (index : i < pageEntries) (table : own (.table d i) = some y)
    (small : e < 2 ^ 32) (same : frame e = home y) :
    Layout grid image (s.write (setEntry s.mem d i e)) l own gone := by
  have here := layout.placed d x owned
  have kernel := (layout.kernel_ne_home owned).1
  have directory : ∀ d' x' k, own (.directory d') = some x' → k < pageEntries →
      entry (setEntry s.mem (home x) i e) d' k =
        if d' = d ∧ k = i then e else entry s.mem d' k := fun d' x' k owned' inside => by
    rw [entry_setEntry dvd_home (tracked_dvd (Tracked.directory layout owned')) index inside,
      Nat.mod_eq_of_lt small, ← here]
  rw [here]
  refine ⟨layout.heap_setEntry rfl owned index, layout.spaced, layout.kernel_setEntry owned index,
    layout.inj, layout.held, layout.placed, ?_, ?_, ?_⟩
  · intro d' x' owned'
    rw [PagingState.mem_write, directory d' x' 0 owned' (by decide),
      directory d' x' 1 owned' (by decide), if_neg (by omega), if_neg (by omega),
      entry_setEntry dvd_home image.aligned.1 index (by decide), if_neg (fun both => kernel both.1),
      entry_setEntry dvd_home image.aligned.1 index (by decide), if_neg (fun both => kernel both.1)]
    exact layout.shared d' x' owned'
  · intro d' x' k owned' low' inside found
    rw [PagingState.mem_write, directory d' x' k owned' inside] at *
    by_cases new : d' = d ∧ k = i
    · rw [if_pos new] at *
      rw [new.1, new.2]
      exact Or.inr ⟨y, table, same⟩
    · rw [if_neg new] at *
      exact layout.tables d' x' k owned' low' inside found
  · intro d' k y' j' owned' inside found
    rw [PagingState.mem_write, layout.entry_setEntry_other rfl owned rfl owned' (by simp) index inside]
      at *
    exact layout.pages d' k y' j' owned' inside found

/-- What a change of one page entry keeps, and what is left to show: the entry itself. -/
theorem setPage (layout : Layout grid image s l own gone) (table : own (.table d i) = some y)
    (index : j < pageEntries) {own' : Owner → Option Nat} {gone' : Set Owner} {s' : PagingState}
    (heap : s'.heap = { s.heap with mem := setEntry s.mem (home y) j v })
    (inj : ∀ a b x, own' a = some x → own' b = some x → a = b)
    (held : ∀ a x, own' a = some x → Holds l x a.need)
    (directories : ∀ d, own' (.directory d) = own (.directory d))
    (tables : ∀ d i, own' (.table d i) = own (.table d i))
    (goneTables : ∀ d i, .table d i ∈ gone → .table d i ∈ gone')
    (others : ∀ d' i' j', j' < pageEntries → ¬ (d' = d ∧ i' = i ∧ j' = j) →
      own' (.page d' i' j') = own (.page d' i' j') ∧
      (.page d' i' j' ∈ gone → .page d' i' j' ∈ gone') ∧
      s'.madeFor d' (pageEntries * i' + j') = s.madeFor d' (pageEntries * i' + j'))
    (self : present (v % 2 ^ 32) = true → ∃ z, own' (.page d i j) = some z ∧
      frame (v % 2 ^ 32) = frame z ∧ s'.madeFor d (pageEntries * i + j) = some z) :
    Layout grid image s' l own' gone' := by
  have mem : s'.mem = setEntry s.mem (home y) j v := congrArg HeapState.mem heap
  have directory : ∀ d' x' k, own (.directory d') = some x' → k < pageEntries →
      entry s'.mem d' k = entry s.mem d' k := fun d' x' k owned' inside => by
    rw [mem, layout.placed d' x' owned',
      layout.entry_setEntry_other rfl table rfl owned' (by simp) index inside]
  refine ⟨heap ▸ layout.heap_setEntry rfl table index, layout.spaced,
    mem ▸ layout.kernel_setEntry table index, inj, held, fun d' x' owned' => ?_, ?_, ?_, ?_⟩
  · rw [directories] at owned'
    exact layout.placed d' x' owned'
  · intro d' x' owned'
    rw [directories] at owned'
    have kernel := (layout.kernel_ne_home table).1
    rw [directory d' x' 0 owned' (by decide), directory d' x' 1 owned' (by decide), mem,
      entry_setEntry dvd_home image.aligned.1 index (by decide), if_neg (fun both => kernel both.1),
      entry_setEntry dvd_home image.aligned.1 index (by decide), if_neg (fun both => kernel both.1)]
    exact layout.shared d' x' owned'
  · intro d' x' k owned' low inside found
    rw [directories] at owned'
    rw [directory d' x' k owned' inside] at *
    rw [tables]
    rcases layout.tables d' x' k owned' low inside found with ⟨lost, other⟩ | kept
    · exact Or.inl ⟨goneTables d' k lost, other⟩
    · exact Or.inr kept
  · intro d' i' y' j' owned' inside found
    rw [tables] at owned'
    by_cases here : d' = d ∧ i' = i ∧ j' = j
    · obtain ⟨rfl, rfl, rfl⟩ := here
      obtain rfl : y = y' := Option.some.inj (table.symm.trans owned')
      have new : entry s'.mem (home y) j' = v % 2 ^ 32 := by
        rw [mem, entry_setEntry dvd_home dvd_home index inside, if_pos ⟨rfl, rfl⟩]
      rw [new] at found ⊢
      exact Or.inr (self found)
    · obtain ⟨samePage, more, sameMade⟩ := others d' i' j' inside here
      have old : entry s'.mem (home y') j' = entry s.mem (home y') j' := by
        rw [mem, entry_setEntry dvd_home dvd_home index inside, if_neg]
        rintro ⟨sameHome, rfl⟩
        have owner := layout.home_inj rfl rfl owned' table sameHome
        rw [Owner.table.injEq] at owner
        exact here ⟨owner.1, owner.2, rfl⟩
      rw [old] at found ⊢
      rw [samePage, sameMade]
      rcases layout.pages d' i' y' j' owned' inside found with ⟨lost, other⟩ | kept
      · exact Or.inl ⟨more lost, other⟩
      · exact Or.inr kept

/-- **Clearing an entry**: what was gone there is forgotten. -/
theorem clearPage (layout : Layout grid image s l own (insert (.page d i j) gone))
    (table : own (.table d i) = some y) (index : j < pageEntries) :
    Layout grid image (s.write (setEntry s.mem (home y) j 0)) l own gone := by
  refine layout.setPage table index rfl layout.inj layout.held (fun _ => rfl) (fun _ _ => rfl)
    (fun d' i' lost => ?_) (fun d' i' j' _ other => ⟨rfl, fun lost => ?_, rfl⟩)
    (fun found => absurd found (by decide))
  · rcases Set.mem_insert_iff.mp lost with same | kept
    · cases same
    · exact kept
  · rcases Set.mem_insert_iff.mp lost with same | kept
    · rw [Owner.page.injEq] at same
      exact absurd same other
    · exact kept

/-- **Mapping a page** nobody owns, apart from a loose claim on it. -/
theorem mapPage (layout : Layout grid image s l own gone) (table : own (.table d i) = some y)
    (index : j < pageEntries) (holds : Holds l z pageSize)
    (loose : ∀ a, own a = some z → a = .loose z) (small : e < 2 ^ 32) (same : frame e = frame z) :
    Layout grid image ((s.write (setEntry s.mem (home y) j e)).note d (pageEntries * i + j) z) l
      (Function.update (Function.update own (.loose z) none) (.page d i j) (some z)) gone := by
  have lookup : ∀ b w, Function.update (Function.update own (.loose z) none) (.page d i j) (some z)
      b = some w → (b = .page d i j ∧ w = z) ∨ (b ≠ .page d i j ∧ w ≠ z ∧ own b = some w) := by
    intro b w owned
    by_cases here : b = .page d i j
    · rw [here, Function.update_self] at owned
      exact Or.inl ⟨here, (Option.some.inj owned).symm⟩
    · rw [Function.update_of_ne here] at owned
      obtain ⟨tight, kept⟩ := update_none owned
      refine Or.inr ⟨here, ?_, kept⟩
      rintro rfl
      exact tight (loose b kept)
  refine layout.setPage table index rfl ?_ ?_ (fun _ => by simp) (fun _ _ => by simp)
    (fun _ _ => id) (fun d' i' j' inside other => ⟨?_, id, ?_⟩) (fun _ => ⟨z, ?_, ?_, ?_⟩)
  · intro b c w first second
    rcases lookup b w first with ⟨rfl, rfl⟩ | ⟨_, ne, ownedB⟩
    · rcases lookup c _ second with ⟨rfl, _⟩ | ⟨_, ne, _⟩
      · rfl
      · exact absurd rfl ne
    · rcases lookup c w second with ⟨_, equal⟩ | ⟨_, _, ownedC⟩
      · exact absurd equal ne
      · exact layout.inj b c w ownedB ownedC
  · intro b w owned
    rcases lookup b w owned with ⟨rfl, rfl⟩ | ⟨_, _, owned⟩
    · exact holds
    · exact layout.held b w owned
  · rw [Function.update_of_ne (by simpa using other), Function.update_of_ne (by simp)]
  · rw [madeFor_note, if_neg]
    · rfl
    · simp only [pageEntries] at *
      omega
  · rw [Function.update_self]
  · rw [Nat.mod_eq_of_lt small, same]
  · rw [madeFor_note, if_pos ⟨rfl, rfl⟩]

theorem update_some {b : Owner} (owned : Function.update own a (some x) b = some y) :
    (b = a ∧ y = x) ∨ (b ≠ a ∧ own b = some y) := by
  by_cases same : b = a
  · rw [same, Function.update_self] at owned
    exact Or.inl ⟨same, (Option.some.inj owned).symm⟩
  · rw [Function.update_of_ne same] at owned
    exact Or.inr ⟨same, owned⟩

/-- A fresh block gets an owner. -/
theorem adopt_inj (layout : Layout grid image s l own gone) (fresh : ∀ b, own b ≠ some x) :
    ∀ b c w, Function.update own a (some x) b = some w → Function.update own a (some x) c = some w →
      b = c := by
  intro b c w first second
  rcases update_some first with ⟨rfl, rfl⟩ | ⟨_, ownedB⟩
  · rcases update_some second with ⟨rfl, _⟩ | ⟨_, ownedC⟩
    · rfl
    · exact absurd ownedC (fresh c)
  · rcases update_some second with ⟨_, rfl⟩ | ⟨_, ownedC⟩
    · exact absurd ownedB (fresh b)
    · exact layout.inj b c w ownedB ownedC

theorem adopt_held (layout : Layout grid image s l own gone) (holds : Holds l x a.need) :
    ∀ b w, Function.update own a (some x) b = some w → Holds l w b.need := by
  intro b w owned
  rcases update_some owned with ⟨rfl, rfl⟩ | ⟨_, kept⟩
  · exact holds
  · exact layout.held b w kept

/-- **Claiming a fresh block** for later. -/
theorem claim (layout : Layout grid image s l own gone) (holds : Holds l x pageSize)
    (fresh : ∀ b, own b ≠ some x) :
    Layout grid image s l (Function.update own (.loose x) (some x)) gone := by
  refine ⟨layout.heap, layout.spaced, layout.kernel, layout.adopt_inj fresh, layout.adopt_held holds,
    fun d y owned => ?_, fun d y owned => ?_, fun d y i owned low index found => ?_,
    fun d i y j owned index found => ?_⟩
  · exact layout.placed d y (by simpa using owned)
  · exact layout.shared d y (by simpa using owned)
  · simpa using layout.tables d y i (by simpa using owned) low index found
  · simpa using layout.pages d i y j (by simpa using owned) index found

/-- **A fresh empty table** for an entry that is not present. -/
theorem adoptTable (layout : Layout grid image s l own gone) (holds : Holds l y (2 * pageSize))
    (fresh : ∀ b, own b ≠ some y) (empty : ∀ j < pageEntries, entry s.mem (home y) j = 0)
    (absent : ∀ x, own (.directory d) = some x → present (entry s.mem d i) = false) :
    Layout grid image s l (Function.update own (.table d i) (some y)) gone := by
  refine ⟨layout.heap, layout.spaced, layout.kernel, layout.adopt_inj fresh, layout.adopt_held holds,
    fun d' x owned => ?_, fun d' x owned => ?_, fun d' x i' owned low index found => ?_,
    fun d' i' y' j owned index found => ?_⟩
  · exact layout.placed d' x (by simpa using owned)
  · exact layout.shared d' x (by simpa using owned)
  · have owned' : own (.directory d') = some x := by simpa using owned
    by_cases same : Owner.table d' i' = .table d i
    · rw [Owner.table.injEq] at same
      rw [same.1, same.2] at found
      rw [absent x (same.1 ▸ owned')] at found
      cases found
    · rw [Function.update_of_ne same]
      exact layout.tables d' x i' owned' low index found
  · rcases update_some owned with ⟨_, rfl⟩ | ⟨_, kept⟩
    · rw [empty j index] at found
      exact absurd found (by decide)
    · rw [Function.update_of_ne (by simp)]
      exact layout.pages d' i' y' j kept index found

/-- No directory sits where a fresh block has its page. -/
theorem directory_fresh (layout : Layout grid image s l own gone) (holds : Holds l x (2 * pageSize))
    (fresh : ∀ b, own b ≠ some x) : own (.directory (home x)) = none := by
  cases found : own (.directory (home x)) with
  | none => rfl
  | some w =>
      have same := Paging.home_inj layout.heap holds (layout.holds_structural rfl found)
        (layout.placed _ w found)
      exact absurd found (same ▸ fresh _)

/-- **A fresh directory** with the kernel's entries and no others. -/
theorem adoptDirectory (layout : Layout grid image s l own gone) (holds : Holds l x (2 * pageSize))
    (fresh : ∀ b, own b ≠ some x)
    (first : entry s.mem (home x) 0 = entry s.mem image.directory 0)
    (second : entry s.mem (home x) 1 = entry s.mem image.directory 1)
    (empty : ∀ i, 2 ≤ i → i < pageEntries → entry s.mem (home x) i = 0) :
    Layout grid image s l (Function.update own (.directory (home x)) (some x)) gone := by
  refine ⟨layout.heap, layout.spaced, layout.kernel, layout.adopt_inj fresh, layout.adopt_held holds,
    fun d y owned => ?_, fun d y owned => ?_, fun d y i owned low index found => ?_,
    fun d i y j owned index found => ?_⟩
  · rcases update_some owned with ⟨same, rfl⟩ | ⟨_, kept⟩
    · rwa [Owner.directory.injEq] at same
    · exact layout.placed d y kept
  · rcases update_some owned with ⟨same, rfl⟩ | ⟨_, kept⟩
    · rw [Owner.directory.injEq] at same
      rw [same]
      exact ⟨first, second⟩
    · exact layout.shared d y kept
  · rcases update_some owned with ⟨same, rfl⟩ | ⟨_, kept⟩
    · rw [Owner.directory.injEq] at same
      rw [same, empty i low index] at found
      exact absurd found (by decide)
    · rw [Function.update_of_ne (by simp)]
      exact layout.tables d y i kept low index found
  · rw [Function.update_of_ne (by simp)] at owned ⊢
    exact layout.pages d i y j owned index found

end Layout

end Tables

end Kfs.Paging
