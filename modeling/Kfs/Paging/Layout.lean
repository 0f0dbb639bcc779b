/-
**Who owns which heap block.**

Directories, page tables, user pages and kernel stacks all live in blocks of the kernel heap. `Layout`
is the invariant of the paging code over the heap's: every owner holds a block of its own, a directory
or table sits in its block at the next page boundary, present entries lead to owned tables and pages,
entries 0 and 1 of every directory are the kernel's, and the kernel's own tables map the first 8 MB to
themselves.

Where `grid` holds, the blocks are `Spaced` as well, so that `kfree` can be handed any address an entry gives.

A page that is freed while its entry stays behind is `gone`: `paging_destroy_directory` frees pages
and tables without clearing the entries that lead to them, and `process_munmap` clears the entry last.

The lemmas are the moves the code makes on the heap: take a block (`Layout.take`), write to a block
nobody reads as a table (`Layout.scribble`), and free a block through whatever address an entry gives
for it (`Layout.free`).
-/

import Kfs.Paging.Tables

namespace Kfs.Paging

open Kfs.Heap Memory

/-! ### Owners -/

/-- What a heap block is used for. -/
inductive Owner where
  | loose (ptr : Nat)
  | directory (dir : Nat)
  | table (dir i : Nat)
  | page (dir i j : Nat)
  deriving DecidableEq, Repr

namespace Owner

/-- The payload an owner asked for. -/
def need : Owner → Nat
  | loose _ => pageSize
  | directory _ => 2 * pageSize
  | table _ _ => 2 * pageSize
  | page _ _ _ => pageSize

/-- Directories and tables: blocks that hold entries. -/
def structural : Owner → Bool
  | directory _ => true
  | table _ _ => true
  | _ => false

theorem need_ge (a : Owner) : pageSize ≤ a.need := by
  cases a <;> simp [need, pageSize]

theorem need_of_structural {a : Owner} (entries : a.structural = true) :
    a.need = 2 * pageSize := by
  cases a with
  | loose ptr => cases entries
  | directory dir => rfl
  | table dir i => rfl
  | page dir i j => cases entries

end Owner

/-- A block in use whose payload starts at `x` and has room for `n` bytes. -/
def Holds (l : List Segment) (x n : Nat) : Prop :=
  ∃ b ∈ l, b.free = false ∧ b.addr + 16 = x ∧ x + n ≤ b.addr + b.size

/-- The page of entries in a block. -/
def home (x : Nat) : Nat := alignUp x pageSize

/-- The kernel's page tables map the first 8 MB to themselves, for the kernel only. -/
structure KernelMapped (image : KernelImage) (m : Memory) : Prop where
  first : entry m image.directory 0 = image.table0 ||| pagePresent ||| pageWrite
  second : entry m image.directory 1 = image.table1 ||| pagePresent ||| pageWrite
  rest : ∀ i, 2 ≤ i → i < pageEntries → entry m image.directory i = 0
  table0 : ∀ i < pageEntries, entry m image.table0 i = i * pageSize ||| pagePresent ||| pageWrite
  table1 : ∀ i < pageEntries,
    entry m image.table1 i = (pageEntries + i) * pageSize ||| pagePresent ||| pageWrite

/-- **The invariant of the paging code.** Whether the blocks are spaced too is up to `grid`. -/
structure Layout (grid : Prop) (image : KernelImage) (s : PagingState) (l : List Segment)
    (own : Owner → Option Nat) (gone : Set Owner) : Prop where
  heap : HeapInv s.heap l
  spaced : grid → Spaced l
  kernel : KernelMapped image s.mem
  inj : ∀ a b x, own a = some x → own b = some x → a = b
  held : ∀ a x, own a = some x → Holds l x a.need
  placed : ∀ d x, own (.directory d) = some x → d = home x
  shared : ∀ d x, own (.directory d) = some x →
    entry s.mem d 0 = entry s.mem image.directory 0 ∧
      entry s.mem d 1 = entry s.mem image.directory 1
  tables : ∀ d x i, own (.directory d) = some x → 2 ≤ i → i < pageEntries →
    present (entry s.mem d i) = true →
      (.table d i ∈ gone ∧ entry s.mem d i ≠ blockMagic) ∨
        ∃ y, own (.table d i) = some y ∧ frame (entry s.mem d i) = home y
  pages : ∀ d i y j, own (.table d i) = some y → j < pageEntries →
    present (entry s.mem (home y) j) = true →
      (.page d i j ∈ gone ∧ entry s.mem (home y) j ≠ blockMagic) ∨
        ∃ z, own (.page d i j) = some z ∧ frame (entry s.mem (home y) j) = frame z ∧
          s.madeFor d (pageEntries * i + j) = some z

/-! ### Blocks -/

section Blocks

variable {h : HeapState} {l : List Segment} {x y n k : Nat}

theorem Holds.bounds (inv : HeapInv h l) (holds : Holds l x n) :
    heapStart + 16 ≤ x ∧ x + n ≤ heapEnd := by
  obtain ⟨b, member, _, rfl, room⟩ := holds
  have inside := inv.bounds member
  omega

theorem Holds.apart (inv : HeapInv h l) (first : Holds l x n) (second : Holds l y k)
    (other : x ≠ y) : x + n + 16 ≤ y ∨ y + k + 16 ≤ x := by
  obtain ⟨b, member, _, rfl, room⟩ := first
  obtain ⟨c, member', _, rfl, room'⟩ := second
  have := inv.tiles.disjoint member member' (by omega)
  omega

theorem Holds.le (holds : Holds l x n) (less : k ≤ n) : Holds l x k := by
  obtain ⟨b, member, used, here, room⟩ := holds
  exact ⟨b, member, used, here, by omega⟩

theorem dvd_home : pageSize ∣ home x := dvd_alignUp

theorem home_bounds (inv : HeapInv h l) (holds : Holds l x n) :
    x ≤ home x ∧ home x < x + pageSize := by
  have inside := holds.bounds inv
  refine alignUp_bounds (by decide) ?_
  simp only [heapEnd, heapStart, heapSize, pageSize] at *
  omega

/-- Two blocks of two pages each have different homes. -/
theorem home_inj (inv : HeapInv h l) (first : Holds l x (2 * pageSize))
    (second : Holds l y (2 * pageSize)) (same : home x = home y) : x = y := by
  by_contra other
  have apart := first.apart inv second other
  have boundsX := home_bounds inv first
  have boundsY := home_bounds inv second
  simp only [pageSize] at *
  omega

end Blocks

/-! ### Reading the invariant -/

/-- The pages of entries the invariant reads. -/
def Tracked (image : KernelImage) (own : Owner → Option Nat) (t : Nat) : Prop :=
  t = image.directory ∨ t = image.table0 ∨ t = image.table1 ∨
    ∃ a x, a.structural = true ∧ own a = some x ∧ t = home x

section Reading

variable {grid : Prop} {image : KernelImage} {s : PagingState} {l : List Segment} {own : Owner → Option Nat}
  {gone : Set Owner} {a b : Owner} {d e i j t x y z : Nat}

theorem ne_magic_of_frame (low : frame e < 2 ^ 31) : e ≠ blockMagic := by
  rintro rfl
  revert low
  decide

theorem ne_magic_of_absent (absent : present e = false) : e ≠ blockMagic := by
  rintro rfl
  revert absent
  decide

theorem kernel_ne_magic (aligned : pageSize ∣ e) (low : e < 2 ^ 31) :
    e ||| pagePresent ||| pageWrite ≠ blockMagic := by
  refine ne_magic_of_frame ?_
  rw [frame_or (by decide), frame_or (by decide), frame_of_dvd aligned]
  exact low

namespace Layout

theorem holds_structural (layout : Layout grid image s l own gone) (entries : a.structural = true)
    (owned : own a = some x) : Holds l x (2 * pageSize) := by
  have := layout.held a x owned
  rwa [Owner.need_of_structural entries] at this

theorem home_bounds (layout : Layout grid image s l own gone) (owned : own a = some x) :
    x ≤ home x ∧ home x < x + pageSize :=
  Paging.home_bounds layout.heap (layout.held a x owned)

/-- Pages of entries belong to one owner. -/
theorem home_inj (layout : Layout grid image s l own gone) (first : a.structural = true)
    (second : b.structural = true) (ownedA : own a = some x) (ownedB : own b = some y)
    (same : home x = home y) : a = b := by
  have equal := Paging.home_inj layout.heap (layout.holds_structural first ownedA)
    (layout.holds_structural second ownedB) same
  exact layout.inj a b x ownedA (equal ▸ ownedB)

theorem kernel_ne_home (layout : Layout grid image s l own gone) (owned : own a = some x) :
    image.directory ≠ home x ∧ image.table0 ≠ home x ∧ image.table1 ≠ home x := by
  have inside := (layout.held a x owned).bounds layout.heap
  have above := layout.home_bounds owned
  have low := image.low
  simp only [pageSize] at low
  omega

theorem tracked_dvd (tracked : Tracked image own t) : pageSize ∣ t := by
  rcases tracked with rfl | rfl | rfl | ⟨a, x, _, _, rfl⟩
  · exact image.aligned.1
  · exact image.aligned.2.1
  · exact image.aligned.2.2
  · exact dvd_home

/-- A tracked page lies below the heap or in a block of its own. -/
theorem tracked_cases (layout : Layout grid image s l own gone) (tracked : Tracked image own t) :
    t + pageSize ≤ heapStart ∨ ∃ a x, a.structural = true ∧ own a = some x ∧ x ≤ t ∧
      t + pageSize ≤ x + 2 * pageSize := by
  rcases tracked with rfl | rfl | rfl | ⟨a, x, entries, owned, rfl⟩
  · exact Or.inl image.low.1
  · exact Or.inl image.low.2.1
  · exact Or.inl image.low.2.2
  · have above := layout.home_bounds owned
    exact Or.inr ⟨a, x, entries, owned, by omega, by omega⟩

/-- **No entry is a magic number**, so that the end of a table never looks like a block header. -/
theorem entry_ne_magic (layout : Layout grid image s l own gone) (tracked : Tracked image own t)
    (index : i < pageEntries) : entry s.mem t i ≠ blockMagic := by
  have high : heapEnd < 2 ^ 31 := by decide
  have kernelLow : image.table0 < 2 ^ 31 ∧ image.table1 < 2 ^ 31 := by
    have := image.low
    simp only [heapEnd] at high
    omega
  have first : entry s.mem image.directory 0 ≠ blockMagic := by
    rw [layout.kernel.first]
    exact kernel_ne_magic image.aligned.2.1 kernelLow.1
  have second : entry s.mem image.directory 1 ≠ blockMagic := by
    rw [layout.kernel.second]
    exact kernel_ne_magic image.aligned.2.2 kernelLow.2
  rcases tracked with rfl | rfl | rfl | ⟨a, x, entries, owned, rfl⟩
  · by_cases low : i < 2
    · interval_cases i
      · exact first
      · exact second
    · rw [layout.kernel.rest i (by omega) index]
      decide
  · rw [layout.kernel.table0 i index]
    refine kernel_ne_magic (Dvd.intro_left _ rfl) ?_
    simp only [pageEntries, pageSize] at *
    omega
  · rw [layout.kernel.table1 i index]
    refine kernel_ne_magic (Dvd.intro_left _ rfl) ?_
    simp only [pageEntries, pageSize] at *
    omega
  · cases here : present (entry s.mem (home x) i) with
    | false => exact ne_magic_of_absent here
    | true =>
        cases a with
        | loose ptr => cases entries
        | page d i j => cases entries
        | table d k =>
            rcases layout.pages d k x i owned index here with ⟨_, other⟩ | ⟨z, page, same, _⟩
            · exact other
            · refine ne_magic_of_frame ?_
              have inside := (layout.held _ z page).bounds layout.heap
              have := @frame_le z
              omega
        | directory d =>
            rw [← layout.placed d x owned] at here ⊢
            by_cases low : i < 2
            · obtain ⟨same0, same1⟩ := layout.shared d x owned
              interval_cases i
              · rw [same0]
                exact first
              · rw [same1]
                exact second
            · rcases layout.tables d x i owned (by omega) index here with
                ⟨_, other⟩ | ⟨y, table, same⟩
              · exact other
              · refine ne_magic_of_frame ?_
                have inside := (layout.holds_structural rfl table).bounds layout.heap
                have := layout.home_bounds table
                omega

end Layout

end Reading

/-! ### Moves of the heap -/

section Moves

variable {grid : Prop} {image : KernelImage} {s : PagingState} {l l' : List Segment} {own own' : Owner → Option Nat}
  {gone gone' : Set Owner} {a : Owner} {h' : HeapState} {m' : Memory} {n ptr size x : Nat}

theorem KernelMapped.congr {m : Memory} (kernel : KernelMapped image m)
    (same : ∀ t, t = image.directory ∨ t = image.table0 ∨ t = image.table1 →
      ∀ i < pageEntries, entry m' t i = entry m t i) : KernelMapped image m' := by
  refine ⟨?_, ?_, fun i low index => ?_, fun i index => ?_, fun i index => ?_⟩
  · rw [same _ (by simp) 0 (by decide), kernel.first]
  · rw [same _ (by simp) 1 (by decide), kernel.second]
  · rw [same _ (by simp) i index, kernel.rest i low index]
  · rw [same _ (by simp) i index, kernel.table0 i index]
  · rw [same _ (by simp) i index, kernel.table1 i index]

/-- What leaves the memory below the heap alone keeps the kernel's directory and tables. -/
theorem KernelMapped.below {m : Memory} (kernel : KernelMapped image m)
    (same : Set.EqOn m' m {x | x < heapStart}) : KernelMapped image m' := by
  refine kernel.congr fun t which i index => entry_congr (same.mono fun x inside => ?_) index
  have low := image.low
  simp only [Set.mem_Ico, Set.mem_ofPred_eq] at *
  rcases which with rfl | rfl | rfl <;> omega

namespace Layout

/-- **A change of the heap** that keeps every owned block and every tracked entry. -/
theorem transport (layout : Layout grid image s l own gone) (heap : HeapInv h' l')
    (spaced : grid → Spaced l') (held : ∀ a x, own a = some x → Holds l' x a.need)
    (same : ∀ t, Tracked image own t → ∀ i < pageEntries, entry h'.mem t i = entry s.mem t i) :
    Layout grid image (s.withHeap h') l' own gone := by
  have kernel : ∀ i < pageEntries,
      entry h'.mem image.directory i = entry s.mem image.directory i := same _ (Or.inl rfl)
  have structural : ∀ a x, a.structural = true → own a = some x → ∀ i < pageEntries,
      entry h'.mem (home x) i = entry s.mem (home x) i := fun a x entries owned =>
    same _ (Or.inr (Or.inr (Or.inr ⟨a, x, entries, owned, rfl⟩)))
  have directory : ∀ d x, own (.directory d) = some x → ∀ i < pageEntries,
      entry h'.mem d i = entry s.mem d i := fun d x owned => by
    rw [layout.placed d x owned]
    exact structural _ x rfl owned
  refine ⟨heap, spaced, layout.kernel.congr fun t which => same t ?_, layout.inj, held,
    layout.placed, ?_, ?_, ?_⟩
  · rcases which with rfl | rfl | rfl
    · exact Or.inl rfl
    · exact Or.inr (Or.inl rfl)
    · exact Or.inr (Or.inr (Or.inl rfl))
  · intro d x owned
    rw [PagingState.mem_withHeap, directory d x owned 0 (by decide),
      directory d x owned 1 (by decide), kernel 0 (by decide), kernel 1 (by decide)]
    exact layout.shared d x owned
  · intro d x i owned low index here
    rw [PagingState.mem_withHeap, directory d x owned i index] at *
    exact layout.tables d x i owned low index here
  · intro d i y j owned index here
    rw [PagingState.mem_withHeap, structural _ y rfl owned j index] at *
    exact layout.pages d i y j owned index here

/-- **A change of owners** that only forgets. What is forgotten is gone, or nothing leads to it. -/
theorem forget (layout : Layout grid image s l own gone)
    (fewer : ∀ a x, own' a = some x → own a = some x)
    (dropped : ∀ a x, own a = some x → own' a = some x ∨ a ∈ gone') (more : gone ⊆ gone') :
    Layout grid image s l own' gone' := by
  refine ⟨layout.heap, layout.spaced, layout.kernel, fun a b x first second =>
    layout.inj a b x (fewer a x first) (fewer b x second), fun a x owned =>
    layout.held a x (fewer a x owned), fun d x owned => layout.placed d x (fewer _ x owned),
    fun d x owned => layout.shared d x (fewer _ x owned), ?_, ?_⟩
  · intro d x i owned low index here
    have owned' := fewer _ x owned
    have other : entry s.mem d i ≠ blockMagic := by
      rw [layout.placed d x owned']
      exact layout.entry_ne_magic (Or.inr (Or.inr (Or.inr ⟨_, x, rfl, owned', rfl⟩))) index
    rcases layout.tables d x i owned' low index here with ⟨lost, _⟩ | ⟨y, table, same⟩
    · exact Or.inl ⟨more lost, other⟩
    · rcases dropped _ y table with kept | lost
      · exact Or.inr ⟨y, kept, same⟩
      · exact Or.inl ⟨lost, other⟩
  · intro d i y j owned index here
    have owned' := fewer _ y owned
    have other := layout.entry_ne_magic (Or.inr (Or.inr (Or.inr ⟨_, y, rfl, owned', rfl⟩))) index
    rcases layout.pages d i y j owned' index here with ⟨lost, _⟩ | ⟨z, page, same, made⟩
    · exact Or.inl ⟨more lost, other⟩
    · rcases dropped _ z page with kept | lost
      · exact Or.inr ⟨z, kept, same, made⟩
      · exact Or.inl ⟨lost, other⟩

/-- What is gone may be forgotten when nothing leads to it any more. -/
theorem settle (layout : Layout grid image s l own gone)
    (tables : ∀ d i, .table d i ∈ gone → .table d i ∉ gone' →
      own (.directory d) = none ∨ present (entry s.mem d i) = false)
    (pages : ∀ d i j, .page d i j ∈ gone → .page d i j ∉ gone' → own (.table d i) = none) :
    Layout grid image s l own gone' := by
  refine ⟨layout.heap, layout.spaced, layout.kernel, layout.inj, layout.held, layout.placed,
    layout.shared, ?_, ?_⟩
  · intro d x i owned low index here
    rcases layout.tables d x i owned low index here with ⟨lost, other⟩ | kept
    · refine Or.inl ⟨?_, other⟩
      by_contra outside
      rcases tables d i lost outside with none | absent
      · rw [none] at owned
        cases owned
      · rw [absent] at here
        cases here
    · exact Or.inr kept
  · intro d i y j owned index here
    rcases layout.pages d i y j owned index here with ⟨lost, other⟩ | kept
    · refine Or.inl ⟨?_, other⟩
      by_contra outside
      rw [pages d i j lost outside] at owned
      cases owned
    · exact Or.inr kept

/-- **Taking a block** from the heap: NULL and nothing changed, or a block nobody owns. -/
theorem take (layout : Layout grid image s l own gone) (fits : NoWrap size) (grain : 16 ∣ size)
    (done : kmalloc s.heap size = .ok (h', ptr)) :
    (ptr = 0 ∧ h' = s.heap) ∨ ∃ l', place size l = some (ptr, l') ∧
      Layout grid image (s.withHeap h') l' own gone ∧ Holds l' ptr size ∧ (∀ a, own a ≠ some ptr) ∧
      ∀ t, Tracked image own t → ∀ i < pageEntries, entry h'.mem t i = entry s.mem t i := by
  rcases kmalloc_cases layout.heap fits done with
    null | ⟨front, b, back, rfl, fit, unfit, rfl, rfl, heap⟩
  · exact Or.inl null
  · obtain ⟨free, room⟩ := fits_iff.mp fit
    have total := totalSize_eq fits
    have member : b ∈ front ++ b :: back := by simp
    have inside := layout.heap.bounds member
    have apart : ∀ a x, own a = some x → x + a.need ≤ b.addr ∨ b.addr + b.size + 16 ≤ x := by
      intro a x owned
      obtain ⟨c, found, used, rfl, enough⟩ := layout.held a x owned
      have other : c.addr ≠ b.addr := fun same => by
        rw [layout.heap.tiles.eq_of_addr found member same, free] at used
        cases used
      have := layout.heap.tiles.disjoint found member other
      omega
    have same : ∀ t, Tracked image own t → ∀ i < pageEntries,
        entry (afterTake s.heap size b.addr).mem t i = entry s.mem t i := by
      intro t tracked i index
      refine entry_congr (Set.EqOn.mono (fun y inPage => ?_)
        (afterTake_eqOn layout.heap member (legal_totalSize fits) fit)) index
      simp only [Set.mem_Ico, Set.mem_ofPred_eq, Segment.Covers] at *
      rcases layout.tracked_cases tracked with low | ⟨a, x, entries, owned, low, high⟩
      · omega
      · have := apart a x owned
        rw [Owner.need_of_structural entries] at this
        omega
    refine Or.inr ⟨_, place_append unfit fit,
      layout.transport heap (fun on => (layout.spaced on).carve (by omega)) ?_ same, ?_, ?_, same⟩
    · intro a x owned
      obtain ⟨c, found, used, here, enough⟩ := layout.held a x owned
      exact ⟨c, (mem_carved_used free used).mpr (Or.inl found), used, here, enough⟩
    · obtain ⟨taken, enough, _, carved⟩ := @carve_used _ splitSlack _ room
      refine ⟨⟨b.addr, taken, false⟩, (mem_carved_used free rfl).mpr (Or.inr ⟨carved, rfl⟩), rfl, rfl,
        ?_⟩
      show b.addr + 16 + size ≤ b.addr + taken
      omega
    · intro a owned
      have := apart a _ owned
      have := a.need_ge
      simp only [pageSize] at this
      omega

/-- Entries are not affected by a write into a block that holds none. -/
theorem entry_scribble (layout : Layout grid image s l own gone) (holds : Holds l x n)
    (plain : ∀ a, own a = some x → a.structural = false)
    (same : Set.EqOn m' s.mem {y | y < x ∨ x + n ≤ y}) {t i : Nat} (tracked : Tracked image own t)
    (index : i < pageEntries) : entry m' t i = entry s.mem t i := by
  refine entry_congr (same.mono fun y inPage => ?_) index
  have bounds := holds.bounds layout.heap
  simp only [Set.mem_Ico, Set.mem_ofPred_eq] at *
  rcases layout.tracked_cases tracked with low | ⟨a, z, entries, owned, low, high⟩
  · omega
  · have other : x ≠ z := fun equal => by
      rw [plain a (equal ▸ owned)] at entries
      cases entries
    have := holds.apart layout.heap (layout.holds_structural entries owned) other
    omega

/-- **Writing into a block** that holds no entries. -/
theorem scribble (layout : Layout grid image s l own gone) (holds : Holds l x n)
    (plain : ∀ a, own a = some x → a.structural = false)
    (same : Set.EqOn m' s.mem {y | y < x ∨ x + n ≤ y}) : Layout grid image (s.write m') l own gone := by
  refine layout.transport (layout.heap.write (same.mono fun y outside => ?_)) layout.spaced
    layout.held fun t tracked i index => layout.entry_scribble holds plain same tracked index
  obtain ⟨b, member, used, rfl, room⟩ := holds
  have := outside b member used
  simp only [Set.mem_ofPred_eq]
  omega

/-- Tracked pages lie outside the free blocks of every list that holds the owned blocks. -/
theorem tracked_outsideFree (layout : Layout grid image s l own gone) (tiles : Tiles heapStart heapEnd l')
    (held : ∀ a x, own a = some x → Holds l' x a.need) {t : Nat} (tracked : Tracked image own t) :
    Set.Ico t (t + pageSize) ⊆ OutsideFree l' := by
  intro y inPage
  simp only [Set.mem_Ico] at inPage
  rcases layout.tracked_cases tracked with low | ⟨a, x, entries, owned, low, high⟩
  · intro b member _ covers
    have inside := tiles.bounds member
    simp only [Segment.Covers] at covers
    omega
  · obtain ⟨c, found, used, rfl, room⟩ := held a x owned
    rw [Owner.need_of_structural entries] at room
    exact OutsideFree.of_used tiles found used ⟨by omega, by omega⟩

/-- A block nobody owns is released. -/
theorem released (layout : Layout grid image s l own gone) {b : Segment}
    (others : ∀ a y, own a = some y → y ≠ b.addr + 16) (heap : HeapInv h' (release b.addr l))
    (same : Set.EqOn h'.mem s.mem (OutsideFree (release b.addr l))) :
    Layout grid image (s.withHeap h') (release b.addr l) own gone ∧
      ∀ t, Tracked image own t → ∀ i < pageEntries, entry h'.mem t i = entry s.mem t i := by
  have held : ∀ a x, own a = some x → Holds (release b.addr l) x a.need := by
    intro a x owned
    have other := others a x owned
    obtain ⟨c, found, used, rfl, room⟩ := layout.held a x owned
    exact ⟨c, (mem_release_used used).mpr ⟨found, by omega⟩, used, rfl, room⟩
  have entries : ∀ t, Tracked image own t → ∀ i < pageEntries,
      entry h'.mem t i = entry s.mem t i := fun t tracked i index =>
    entry_congr (same.mono (layout.tracked_outsideFree heap.tiles held tracked)) index
  exact ⟨layout.transport heap (fun on => (layout.spaced on).release b.addr) held entries, entries⟩

theorem update_none {b : Owner} {y : Nat} (owned : Function.update own a none b = some y) :
    b ≠ a ∧ own b = some y := by
  by_cases same : b = a
  · rw [same, Function.update_self] at owned
    cases owned
  · rw [Function.update_of_ne same] at owned
    exact ⟨same, owned⟩

/-- An owner is struck off, its block stays in use. -/
theorem strike (layout : Layout grid image s l own gone) (a : Owner) :
    Layout grid image s l (Function.update own a none) (insert a gone) := by
  refine layout.forget (fun b y owned => (update_none owned).2) (fun b y owned => ?_)
    (Set.subset_insert a gone)
  by_cases same : b = a
  · exact Or.inr (same ▸ Set.mem_insert a gone)
  · exact Or.inl (by rw [Function.update_of_ne same, owned])

/-- No other owner has its block within a page of an owned address. -/
theorem near_unowned (layout : Layout grid image s l own gone) (owned : own a = some x)
    (near : x < ptr + pageSize ∧ ptr < x + pageSize) {b : Owner} {y : Nat}
    (owned' : Function.update own a none b = some y) : y ≠ ptr := by
  rintro rfl
  obtain ⟨other, owned'⟩ := update_none owned'
  have differs : x ≠ y := fun equal => other (layout.inj b a y owned' (equal ▸ owned))
  have apart := (layout.held a x owned).apart layout.heap (layout.held b y owned') differs
  have needA := a.need_ge
  have needB := b.need_ge
  omega

theorem unshadowed (layout : Layout grid image s l own gone) (on : grid) (aligned : pageSize ∣ ptr) :
    Unshadowed l ptr :=
  (layout.spaced on).unshadowed (Dvd.dvd.trans (by decide) aligned)

/-- **Freeing a block through an entry.** The address an entry gives for a block is a page boundary
within a page of its payload. Whatever `kfree` makes of that address, if no block is 20 bytes below it, every
other owner keeps its block and every table its entries. -/
theorem free (layout : Layout grid image s l own gone) (owned : own a = some x)
    (near : x < ptr + pageSize ∧ ptr < x + pageSize) (aligned : pageSize ∣ ptr) (clear : Unshadowed l ptr)
    (done : kfree s.heap ptr = .ok h') :
    ∃ l', Layout grid image (s.withHeap h') l' (Function.update own a none) (insert a gone) ∧
      StartsAmong l' l ∧ ∀ t, Tracked image (Function.update own a none) t → ∀ i < pageEntries,
        entry h'.mem t i = entry s.mem t i := by
  have bounds := (layout.held a x owned).bounds layout.heap
  have struck := layout.strike a
  have grain : 16 ∣ ptr := Dvd.dvd.trans (by decide) aligned
  have inHeap : 0 < ptr ∧ ptr < 2 ^ 32 := by
    simp only [heapEnd, heapStart, heapSize, pageSize] at *
    omega
  rcases kfree_stray layout.heap clear grain (by omega) inHeap.2 done with
    ⟨b, member, used, rfl, heap, same⟩ | ⟨heap, same⟩
  · obtain ⟨next, entries⟩ :=
      struck.released (fun c y owned' => layout.near_unowned owned near owned') heap same
    exact ⟨_, next, startsAmong_release _ _, entries⟩
  · suffices entries : ∀ t, Tracked image (Function.update own a none) t → ∀ i < pageEntries,
        entry h'.mem t i = entry s.mem t i from
      ⟨l, struck.transport heap layout.spaced struck.held entries, .refl l, entries⟩
    intro t tracked i index
    have outside := struck.tracked_outsideFree heap.tiles struck.held tracked
    refine entry_congr (fun y inPage => ?_) index
    rcases same y (outside inPage) with kept | ⟨here, magic⟩
    · exact kept
    · -- the marked byte would be in the last four entries of a table that ends in a magic number
      exfalso
      obtain ⟨p, rfl⟩ := aligned
      obtain ⟨q, rfl⟩ := tracked_dvd tracked
      have last : pageSize * p = pageSize * q + pageSize := by
        simp only [Set.mem_Ico, pageSize] at *
        omega
      refine struck.entry_ne_magic tracked (show 1023 < pageEntries by decide) ?_
      rw [entry, show pageSize * q + 4 * 1023 = pageSize * p - 4 by
        simp only [pageSize] at *
        omega]
      exact magic

/-- **Freeing a block by its own address.** -/
theorem freeExact (layout : Layout grid image s l own gone) (holds : Holds l ptr n)
    (fresh : ∀ a, own a ≠ some ptr) (done : kfree s.heap ptr = .ok h') :
    ∃ l', Layout grid image (s.withHeap h') l' own gone := by
  obtain ⟨b, member, used, rfl, _⟩ := holds
  obtain ⟨m, freed, heap, same⟩ := kfree_used layout.heap member used
  rw [freed] at done
  cases done
  exact ⟨_, (layout.released (fun a y owned equal => fresh a (equal ▸ owned)) heap same).1⟩

end Layout

end Moves

end Kfs.Paging
