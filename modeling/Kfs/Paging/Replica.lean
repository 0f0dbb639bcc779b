/-
**What `paging_clone_directory` copies.**

`paging_clone_directory` takes a block for the directory, one for each table and one for each page, and
puts the address of a page's block and the flag bits of the source's entry into one word. While it runs,
only memory that was free is written, and of that only what `Touched` tells: elsewhere the source can still
be read as it was.

* `Touched l asked`: the memory that serving some requests writes, which first fit tells from the list: the
  headers of the blocks taken and of what is left of free ones, and the pages.
* `Since l₀ m₀ asked`: the heap has changed since a state only by serving these requests.
* `PageCopied`, `TableCopied`, `RowsCopied`: how much of the copy is there, entry by entry, and how one
  more entry is added (`TableCopied.succ`, `RowsCopied.succ`).
-/

import Kfs.Paging.Exact
import Kfs.Paging.Translate
import Mathlib.Order.CompletePartialOrder

namespace Kfs.Paging

open Kfs.Heap Memory

/-! ### Taking free memory -/

/-- The page is apart from free memory. -/
def Sheltered (l : List Segment) (a : Nat) : Prop := Set.Ico a (a + pageSize) ⊆ OutsideFree l

/-- The directory and the tables of its user part lie apart from free heap memory. -/
structure Readable (l : List Segment) (m : Memory) (src : Nat) : Prop where
  directory : Sheltered l src
  tables : ∀ k, 2 ≤ k → k < pageEntries → present (entry m src k) = true →
    Sheltered l (frame (entry m src k))

/-- The headers of the blocks that are new when the list becomes `l'`. -/
def NewHeaders (l l' : List Segment) : Set Nat := {a | ∃ b ∈ l', b ∉ l ∧ b.addr ≤ a ∧ a < b.addr + 16}

/-- The memory that the code fills in a block it was given: a page of entries starts at a page boundary. -/
def Request.filled : Request → Nat → Set Nat
  | entries, ptr => Set.Ico (home ptr) (home ptr + pageSize)
  | stack, _ => ∅
  | page, ptr => Set.Ico ptr (ptr + pageSize)

/-- **The memory written when first fit serves some requests**, up to the first that fails. -/
def Touched : List Segment → List Request → Set Nat
  | _, [] => ∅
  | l, r :: rest =>
      match place r.size l with
      | none => ∅
      | some (ptr, l') => NewHeaders l l' ∪ r.filled ptr ∪ Touched l' rest

/-- The page is among the memory written. -/
def Filled (l : List Segment) (asked : List Request) (a : Nat) : Prop :=
  Set.Ico a (a + pageSize) ⊆ Touched l asked

/-- Nothing in the page is written. -/
def Unwritten (l : List Segment) (asked : List Request) (a : Nat) : Prop :=
  Disjoint (Set.Ico a (a + pageSize)) (Touched l asked)

/-- Since the heap had the list `l₀` and memory `m₀`, these requests have been served, and only what they
touch has been written. -/
structure Since (l₀ : List Segment) (m₀ : Memory) (asked : List Request) (s : PagingState)
    (l : List Segment) : Prop where
  heap : HeapInv s.heap l
  served : ∃ given, Serves l₀ asked l given
  shrinks : OutsideFree l₀ ⊆ OutsideFree l
  within : Disjoint (OutsideFree l₀) (Touched l₀ asked)
  same : Set.EqOn s.mem m₀ (Touched l₀ asked)ᶜ

/-- Blocks in use stay, and only those with these payloads have been written. -/
structure Spares (written : Set Nat) (l l' : List Segment) (m m' : Memory) : Prop where
  holds : ∀ x n, Holds l x n → Holds l' x n
  same : ∀ x n, Holds l x n → x ∉ written → Set.EqOn m' m (Set.Ico x (x + n))

section Taking

variable {l l' l'' l₀ : List Segment} {m m' m'' m₀ : Memory} {s s' : PagingState} {h h' : HeapState}
  {asked rest requests : List Request} {given : List Nat} {b : Segment} {r : Request}
  {written more : Set Nat} {a i j k n p ptr size x y z : Nat}

theorem touched_cons (placed : place r.size l = some (ptr, l')) :
    Touched l (r :: rest) = NewHeaders l l' ∪ r.filled ptr ∪ Touched l' rest := by
  rw [Touched, placed]

/-- What is touched by requests that are served, and by more after them. -/
theorem Serves.touched (serves : Serves l requests l' given) :
    Touched l (requests ++ rest) = Touched l requests ∪ Touched l' rest := by
  induction requests generalizing l given with
  | nil =>
      obtain ⟨rfl, -⟩ := serves
      exact (Set.empty_union _).symm
  | cons r requests ih =>
      obtain ⟨ptr, l₁, later, placed, tail, -⟩ := serves
      rw [List.cons_append, touched_cons placed, touched_cons placed, ih tail, ← Set.union_assoc]

/-- Later requests touch more. -/
theorem touched_append : Touched l asked ⊆ Touched l (asked ++ rest) := by
  induction asked generalizing l with
  | nil => exact Set.empty_subset _
  | cons r asked ih =>
      cases placed : place r.size l with
      | none =>
          rw [Touched, placed]
          exact Set.empty_subset _
      | some found =>
          rw [List.cons_append, touched_cons placed, touched_cons placed]
          exact Set.union_subset_union_right _ ih

theorem Filled.append (filled : Filled l asked a) : Filled l (asked ++ rest) a :=
  Set.Subset.trans filled touched_append

/-- A page that is filled is apart from one that is not touched. -/
theorem Filled.apart (filled : Filled l asked p) (unwritten : Unwritten l asked a) : PageApart p a := by
  unfold PageApart
  by_contra overlap
  have positive : 0 < pageSize := by decide
  have inside : max p a ∈ Set.Ico a (a + pageSize) := ⟨le_max_right _ _, by omega⟩
  exact Set.disjoint_left.mp unwritten inside (filled ⟨le_max_left _ _, by omega⟩)

/-- The parts of a free block that is carved are new. -/
theorem new_of_carve {lo hi : Nat} (tiles : Tiles lo hi l) (member : b ∈ l) (free : b.free = true)
    (positive : 0 < n) {t : Segment} (part : t ∈ carve n splitSlack b) : t ∉ l := by
  intro old
  have slack : 0 < splitSlack := by decide
  rcases mem_carve part with ⟨rfl, enough⟩ | ⟨rfl, enough⟩ | ⟨rfl, -⟩
  · have same := tiles.eq_of_addr old member rfl
    rw [← same] at free
    cases free
  · have same := tiles.eq_of_covers old member (x := b.addr + n) ⟨by simp, by simp only; omega⟩
      ⟨by omega, by omega⟩
    have here := congrArg Segment.addr same
    simp only at here
    omega
  · have same := tiles.eq_of_addr old member rfl
    rw [← same] at free
    cases free

/-- Carving a free block frees no memory. -/
theorem outsideFree_carve {front back : List Segment} (free : b.free = true) :
    OutsideFree (front ++ b :: back) ⊆ OutsideFree (front ++ carve n splitSlack b ++ back) := by
  intro a inside t found isFree covers
  rcases List.mem_append.mp found with found | inBack
  · rcases List.mem_append.mp found with inFront | part
    · exact inside t (by simp [inFront]) isFree covers
    · rcases mem_carve part with ⟨rfl, -⟩ | ⟨rfl, enough⟩ | ⟨rfl, -⟩
      · cases isFree
      · refine inside b (by simp) free ?_
        simp only [Segment.Covers] at *
        omega
      · cases isFree
  · exact inside t (by simp [inBack]) isFree covers

/-- The new headers are in the block that was free. -/
theorem covers_of_newHeaders {front back : List Segment} (header : 16 ≤ n) (room : n ≤ b.size)
    (new : a ∈ NewHeaders (front ++ b :: back) (front ++ carve n splitSlack b ++ back)) : b.Covers a := by
  obtain ⟨t, found, other, low, high⟩ := new
  have part : t ∈ carve n splitSlack b := by
    simp only [List.mem_append, List.mem_cons, not_or] at found other
    tauto
  rcases mem_carve part with ⟨rfl, enough⟩ | ⟨rfl, enough⟩ | ⟨rfl, -⟩
  all_goals
    simp only [Segment.Covers, splitSlack, blockHeaderSize] at *
    omega

/-- The block that is handed out. -/
theorem holds_carved {front back : List Segment} (free : b.free = true) (total : size + 16 ≤ n)
    (room : n ≤ b.size) : Holds (front ++ carve n splitSlack b ++ back) (b.addr + 16) size := by
  obtain ⟨taken, enough, -, carved⟩ := @carve_used _ splitSlack _ room
  refine ⟨⟨b.addr, taken, false⟩, (mem_carved_used free rfl).mpr (.inr ⟨carved, rfl⟩), rfl, rfl, ?_⟩
  show b.addr + 16 + size ≤ b.addr + taken
  omega

/-- What is filled of a block lies inside it. -/
theorem filled_subset (heap : HeapInv h l) (held : Holds l ptr r.size) :
    r.filled ptr ⊆ Set.Ico ptr (ptr + r.size) := by
  cases r with
  | entries =>
      have near := home_bounds heap held
      rintro a ⟨low, high⟩
      refine ⟨by omega, ?_⟩
      show a < ptr + 2 * pageSize
      omega
  | stack => exact Set.empty_subset _
  | page => exact subset_rfl

theorem Spares.refl : Spares written l l m m := ⟨fun _ _ => id, fun _ _ _ _ => Set.eqOn_refl _ _⟩

theorem Spares.trans (first : Spares written l l' m m') (second : Spares written l' l'' m' m'') :
    Spares written l l'' m m'' :=
  ⟨fun x n held => second.holds x n (first.holds x n held), fun x n held other =>
    (second.same x n (first.holds x n held) other).trans (first.same x n held other)⟩

/-- A block that was not in use need not be counted as written. -/
theorem Spares.drop (spares : Spares {z} l l' m m') (absent : ∀ n, ¬ Holds l z n) :
    Spares ∅ l l' m m' :=
  ⟨spares.holds, fun x n held _ => spares.same x n held fun member =>
    absent n (Set.mem_singleton_iff.mp member ▸ held)⟩

theorem Spares.mono (spares : Spares written l l' m m') (fewer : written ⊆ more) :
    Spares more l l' m m' :=
  ⟨spares.holds, fun x n held other => spares.same x n held fun member => other (fewer member)⟩

/-- The entries in the page of a block. -/
theorem Spares.entry (spares : Spares written l l' m m') (heap : HeapInv h' l)
    (held : Holds l y (2 * pageSize)) (other : y ∉ written) (index : j < pageEntries) :
    entry m' (home y) j = entry m (home y) j := by
  have near := home_bounds heap held
  refine entry_congr ((spares.same y _ held other).mono fun a inside => ?_) index
  simp only [Set.mem_Ico] at *
  omega

/-- A page in a block in use is apart from free memory. -/
theorem sheltered_of_holds (heap : HeapInv h' l) (held : Holds l x n) (low : x ≤ a)
    (high : a + pageSize ≤ x + n) : Sheltered l a := by
  obtain ⟨b, member, used, rfl, room⟩ := held
  intro c inside
  refine OutsideFree.of_used heap.tiles member used ?_
  simp only [Set.mem_Ico, Segment.Covers] at *
  omega

namespace Since

theorem refl (heap : HeapInv s.heap l) : Since l s.mem [] s l :=
  ⟨heap, ⟨[], Serves.nil⟩, subset_rfl, Set.disjoint_empty _, Set.eqOn_refl _ _⟩

/-- Memory that was not free reads as it did. -/
theorem outside (since : Since l₀ m₀ asked s l) : Set.EqOn s.mem m₀ (OutsideFree l₀) :=
  since.same.mono since.within.subset_compl_right

/-- A page that is apart from the memory free at the start reads as it did then. -/
theorem entry (since : Since l₀ m₀ asked s l) (sheltered : Sheltered l₀ a) (index : j < pageEntries) :
    entry s.mem a j = entry m₀ a j :=
  entry_congr (since.outside.mono sheltered) index

/-- What one more request touches. -/
theorem touched (since : Since l₀ m₀ asked s l) (placed : place r.size l = some (ptr, l')) :
    Touched l₀ (asked ++ [r]) = Touched l₀ asked ∪ (NewHeaders l l' ∪ r.filled ptr) := by
  obtain ⟨given, serves⟩ := since.served
  rw [serves.touched, touched_cons placed]
  show _ ∪ (_ ∪ ∅) = _
  rw [Set.union_empty]

/-- **Taking a block**: NULL and nothing changed, or a block of memory that was free. -/
theorem take (since : Since l₀ m₀ asked s l) (r : Request) (done : kmalloc s.heap r.size = .ok (h', ptr)) :
    (ptr = 0 ∧ h' = s.heap) ∨ ∃ l', place r.size l = some (ptr, l') ∧
      Since l₀ m₀ (asked ++ [r]) (s.withHeap h') l' ∧ Spares ∅ l l' s.mem h'.mem ∧
      Holds l' ptr r.size ∧ r.filled ptr ⊆ Touched l₀ (asked ++ [r]) ∧ ∀ n, ¬ Holds l ptr n := by
  have fits : NoWrap r.size := by cases r <;> decide
  rcases kmalloc_cases since.heap fits done with null | ⟨front, b, back, rfl, fit, unfit, rfl, rfl, next⟩
  · exact .inl null
  · obtain ⟨free, room⟩ := fits_iff.mp fit
    have total := totalSize_eq fits
    have member : b ∈ front ++ b :: back := by simp
    have legal := legal_totalSize fits
    have outside := afterTake_eqOn since.heap member legal fit
    have wrote : Set.EqOn (afterTake s.heap r.size b.addr).mem s.mem (OutsideFree (front ++ b :: back)) :=
      outside.mono fun a inside => inside b member free
    have placed := @place_append front back b r.size unfit fit
    have held := @holds_carved b (totalSize r.size) r.size front back free (by omega) room
    have more := since.touched placed
    have inBlock : ∀ a ∈ NewHeaders (front ++ b :: back)
        (front ++ carve (totalSize r.size) splitSlack b ++ back) ∪ r.filled (b.addr + 16), b.Covers a := by
      rintro a (headers | filled)
      · exact covers_of_newHeaders legal.2 room headers
      · have inside := filled_subset next held filled
        simp only [Segment.Covers, Set.mem_Ico] at *
        omega
    refine .inr ⟨_, placed, ⟨next, ?_, since.shrinks.trans (outsideFree_carve free), ?_, ?_⟩, ⟨?_, ?_⟩, held,
      ?_, ?_⟩
    · obtain ⟨given, serves⟩ := since.served
      exact ⟨_, serves.append ⟨_, _, [], placed, Serves.nil, rfl⟩⟩
    · rw [more]
      refine Set.disjoint_union_right.mpr ⟨since.within, Set.disjoint_left.mpr fun a inside touched => ?_⟩
      exact since.shrinks inside b member free (inBlock a touched)
    · intro a apart
      rw [more, Set.mem_compl_iff, Set.mem_union, Set.mem_union, not_or, not_or] at apart
      obtain ⟨before, headers, -⟩ := apart
      refine (afterTake_headers since.heap member legal fit fun t part => ?_).trans (since.same before)
      by_contra inside
      simp only [not_or, not_lt, not_le] at inside
      refine headers ⟨t, by simp [part], ?_, inside.1, inside.2⟩
      exact new_of_carve since.heap.tiles member free (by omega) part
    · rintro a n ⟨c, found, used, here, enough⟩
      exact ⟨c, (mem_carved_used free used).mpr (Or.inl found), used, here, enough⟩
    · rintro a n ⟨c, found, used, rfl, enough⟩ -
      refine wrote.mono fun a inside => OutsideFree.of_used since.heap.tiles found used ?_
      simp only [Set.mem_Ico, Segment.Covers] at *
      omega
    · rw [more]
      exact Set.subset_union_of_subset_right Set.subset_union_right _
    · rintro n ⟨c, found, used, here, _⟩
      rw [since.heap.tiles.eq_of_addr found member (by omega), free] at used
      cases used

/-- **Writing into a block** taken since, where its request fills it. -/
theorem write (since : Since l₀ m₀ asked s l) (held : Holds l z k) (low : z ≤ x) (high : x + n ≤ z + k)
    (filled : Set.Ico x (x + n) ⊆ Touched l₀ asked)
    (same : Set.EqOn m' s.mem {a | a < x ∨ x + n ≤ a}) :
    Since l₀ m₀ asked (s.write m') l ∧ Spares {z} l l s.mem m' := by
  refine ⟨⟨since.heap.write (same.mono fun a free => ?_), since.served, since.shrinks, since.within, ?_⟩,
    fun _ _ => id, ?_⟩
  · obtain ⟨b, member, used, rfl, room⟩ := held
    have := free b member used
    simp only [Set.mem_ofPred_eq]
    omega
  · refine (same.mono fun a apart => ?_).trans since.same
    by_contra here
    simp only [Set.mem_ofPred_eq, not_or, not_lt, not_le] at here
    exact apart (filled here)
  · intro w i held' other
    have apart := held'.apart since.heap held (by simpa using other)
    refine same.mono fun a inside => ?_
    simp only [Set.mem_Ico, Set.mem_ofPred_eq] at *
    omega

/-- Setting an entry in the page of such a block. -/
theorem setEntry (since : Since l₀ m₀ asked s l) (held : Holds l y (2 * pageSize))
    (filled : Filled l₀ asked (home y)) (index : j < pageEntries) (v : Nat) :
    Since l₀ m₀ asked (s.write (Paging.setEntry s.mem (home y) j v)) l ∧
      Spares {y} l l s.mem (Paging.setEntry s.mem (home y) j v) := by
  have near := home_bounds since.heap held
  refine since.write held near.1 (by omega) filled ((store32_eqOn s.mem _ v).mono fun a outside => ?_)
  simp only [Set.mem_ofPred_eq, pageSize, pageEntries] at *
  omega

/-- **A cleared page of entries** in a new block. -/
theorem takePage (since : Since l₀ m₀ asked s l)
    (done : kmallocAligned s.heap pageSize pageSize = .ok (h', ptr)) :
    (ptr = 0 ∧ h' = s.heap) ∨ ∃ l' y, ptr = home y ∧ ptr ≠ 0 ∧ place (2 * pageSize) l = some (y, l') ∧
      Since l₀ m₀ (asked ++ [.entries]) (s.withHeap { h' with mem := h'.mem.fill ptr 0 pageSize }) l' ∧
      Spares ∅ l l' s.mem (h'.mem.fill ptr 0 pageSize) ∧ Holds l' y (2 * pageSize) ∧
      Filled l₀ (asked ++ [.entries]) (home y) ∧ (∀ n, ¬ Holds l y n) ∧
      ∀ j < pageEntries, Paging.entry (h'.mem.fill ptr 0 pageSize) ptr j = 0 := by
  obtain ⟨⟨h, y⟩, taken, rest⟩ := Outcome.bind_eq_ok.mp done
  rcases since.take .entries taken with ⟨rfl, rfl⟩ | ⟨l', placed, next, spares, held, filled, absent⟩
  · cases rest
    exact .inl ⟨rfl, rfl⟩
  · replace held : Holds l' y (2 * pageSize) := held
    replace filled : Filled l₀ (asked ++ [.entries]) (home y) := filled
    have bounds := held.bounds next.heap
    have near := home_bounds next.heap held
    simp only at rest
    rw [if_neg (by omega)] at rest
    cases rest
    obtain ⟨written, spares'⟩ := next.write held near.1 (by omega) filled (fill_eqOn h'.mem (home y) 0 pageSize)
    have all : Spares ∅ l l' s.mem (h'.mem.fill (home y) 0 pageSize) :=
      ((spares.mono (Set.empty_subset _)).trans spares').drop absent
    refine .inr ⟨l', y, rfl, ?_, placed, written, all, held, filled, absent, fun j index =>
      load32_fill_zero h'.mem (by omega) ?_⟩
    · show home y ≠ 0
      omega
    · show home y + 4 * j + 4 ≤ home y + pageSize
      simp only [pageSize, pageEntries] at *
      omega

end Since

/-- **What is touched was free.** -/
theorem disjoint_touched (heap : HeapInv h l) : Disjoint (OutsideFree l) (Touched l asked) := by
  induction asked generalizing h l with
  | nil => exact Set.disjoint_empty _
  | cons r asked ih =>
      cases placed : place r.size l with
      | none =>
          rw [Touched, placed]
          exact Set.disjoint_empty _
      | some found =>
          obtain ⟨ptr, l'⟩ := found
          obtain ⟨h', taken, next⟩ := kmalloc_place heap (by cases r <;> decide) (by cases r <;> decide) placed
          rcases (@Since.refl l ⟨h, 0, []⟩ heap).take r taken with ⟨null, -⟩ | ⟨l₁, placed', since, -⟩
          · exact absurd null (place_ne_null placed)
          · cases placed.symm.trans placed'
            have both : Serves l [r] l' _ := ⟨ptr, l', [], placed, Serves.nil, rfl⟩
            rw [← List.singleton_append, both.touched]
            exact Set.disjoint_union_right.mpr ⟨since.within, (ih next).mono_left since.shrinks⟩

theorem Sheltered.unwritten (sheltered : Sheltered l a) (heap : HeapInv h l) : Unwritten l asked a :=
  (disjoint_touched heap).mono_left sheltered

end Taking

/-! ### What is copied -/

/-- An entry `e` of a source table and what became of it: the page at `p`, copied if the frame was not touched
by the requests up to this page's, and the flag bits. -/
structure PageCopied (l₀ : List Segment) (m₀ : Memory) (asked : List Request) (written : Set Nat)
    (l : List Segment) (m : Memory) (p e e' : Nat) : Prop where
  entry : e' = p ||| flagBits e
  held : Holds l p pageSize
  filled : Filled l₀ asked p
  other : p ∉ written
  bytes : Unwritten l₀ asked (frame e) → ∀ k < pageSize, m (p + k) = m₀ (frame e + k)

/-- The first `n` entries of the table `t` and what became of them in the block `y`, with the pages given,
when some requests came before. -/
structure TableCopied (l₀ : List Segment) (m₀ : Memory) (asked : List Request) (written : Set Nat)
    (l : List Segment) (m : Memory) (t y n : Nat) (given : List Nat) : Prop where
  absent : ∀ j < n, present (entry m₀ t j) = false → present (entry m (home y) j) = false
  pages : ∀ j < n, present (entry m₀ t j) = true → ∃ p ∈ given,
    PageCopied l₀ m₀ (asked ++ tableRequests m₀ t (j + 1)) written l m p (entry m₀ t j) (entry m (home y) j)
  given : ∀ p ∈ given, ∃ j < n, present (entry m₀ t j) = true ∧
    PageCopied l₀ m₀ (asked ++ tableRequests m₀ t (j + 1)) written l m p (entry m₀ t j) (entry m (home y) j)

/-- An entry `e` of the source directory and what became of it, with the pages given. -/
def RowCopied (l₀ : List Segment) (m₀ : Memory) (asked : List Request) (written : Set Nat) (l : List Segment)
    (m : Memory) (given : List Nat) (e e' : Nat) : Prop :=
  ∃ y, e' = home y ||| flagBits e ∧ Holds l y (2 * pageSize) ∧ y ∉ written ∧
    TableCopied l₀ m₀ (asked ++ [.entries]) written l m (frame e) y pageEntries given

section Copied

variable {l l' l₀ : List Segment} {m m' m₀ : Memory} {asked : List Request} {written more : Set Nat}
  {given : List Nat} {h' : HeapState} {e e' j n p t y z : Nat}

/-- What is copied stays copied. -/
theorem PageCopied.spares (copied : PageCopied l₀ m₀ asked written l m p e e')
    (spares : Spares written l l' m m') : PageCopied l₀ m₀ asked written l' m' p e e' := by
  refine ⟨copied.entry, spares.holds p _ copied.held, copied.filled, copied.other, fun apart k low => ?_⟩
  rw [spares.same p _ copied.held copied.other ⟨by omega, by omega⟩, copied.bytes apart k low]

theorem TableCopied.spares (copied : TableCopied l₀ m₀ asked written l m t y n given) (heap : HeapInv h' l)
    (held : Holds l y (2 * pageSize)) (other : y ∉ written) (spares : Spares written l l' m m')
    (few : n ≤ pageEntries) : TableCopied l₀ m₀ asked written l' m' t y n given := by
  have column : ∀ j < n, entry m' (home y) j = entry m (home y) j := fun j inside =>
    spares.entry heap held other (by omega)
  refine ⟨fun j inside none => ?_, fun j inside here => ?_, fun p member => ?_⟩
  · rw [column j inside]
    exact copied.absent j inside none
  · rw [column j inside]
    obtain ⟨p, member, page⟩ := copied.pages j inside here
    exact ⟨p, member, page.spares spares⟩
  · obtain ⟨j, inside, here, page⟩ := copied.given p member
    refine ⟨j, inside, here, ?_⟩
    rw [column j inside]
    exact page.spares spares

theorem RowCopied.spares (copied : RowCopied l₀ m₀ asked written l m given e e') (heap : HeapInv h' l)
    (spares : Spares written l l' m m') : RowCopied l₀ m₀ asked written l' m' given e e' := by
  obtain ⟨y, same, held, other, table⟩ := copied
  exact ⟨y, same, spares.holds y _ held, other, table.spares heap held other spares le_rfl⟩

theorem TableCopied.weaken (copied : TableCopied l₀ m₀ asked more l m t y n given) (fewer : written ⊆ more) :
    TableCopied l₀ m₀ asked written l m t y n given := by
  have page : ∀ {asked p e e'}, PageCopied l₀ m₀ asked more l m p e e' →
      PageCopied l₀ m₀ asked written l m p e e' :=
    fun copy => ⟨copy.entry, copy.held, copy.filled, fun inside => copy.other (fewer inside), copy.bytes⟩
  refine ⟨copied.absent, fun j inside here => ?_, fun p member => ?_⟩
  · obtain ⟨p, member, copy⟩ := copied.pages j inside here
    exact ⟨p, member, page copy⟩
  · obtain ⟨j, inside, here, copy⟩ := copied.given p member
    exact ⟨j, inside, here, page copy⟩

end Copied

/-! ### One more page -/

section Inner

variable {l l' l₀ : List Segment} {m₀ : Memory} {asked : List Request} {s s' : PagingState}
  {given : List Nat} {d i j t x y : Nat}

/-- One more entry of the table, in memory where only the table was written among blocks in use. -/
theorem TableCopied.succ {l : List Segment} {m m' : Memory} {ps : List Nat}
    (copied : TableCopied l₀ m₀ asked {x, y} l m t y j given) (spares : Spares {y} l l' m m')
    (columns : ∀ k < j, entry m' (home y) k = entry m (home y) k)
    (absent : present (entry m₀ t j) = false → present (entry m' (home y) j) = false ∧ ps = [])
    (page : present (entry m₀ t j) = true → ∃ p, ps = [p] ∧
      PageCopied l₀ m₀ (asked ++ tableRequests m₀ t (j + 1)) {x, y} l' m' p (entry m₀ t j)
        (entry m' (home y) j)) :
    TableCopied l₀ m₀ asked {x, y} l' m' t y (j + 1) (given ++ ps) := by
  have spares : Spares {x, y} l l' m m' := spares.mono (by simp)
  refine ⟨fun k inside none => ?_, fun k inside here => ?_, fun p member => ?_⟩
  · by_cases last : k = j
    · subst last
      exact (absent none).1
    · rw [columns k (by omega)]
      exact copied.absent k (by omega) none
  · by_cases last : k = j
    · subst last
      obtain ⟨p, rfl, new⟩ := page here
      exact ⟨p, by simp, new⟩
    · rw [columns k (by omega)]
      obtain ⟨p, member, old⟩ := copied.pages k (by omega) here
      exact ⟨p, List.mem_append_left _ member, old.spares spares⟩
  · rcases List.mem_append.mp member with old | new
    · obtain ⟨k, inside, here, copy⟩ := copied.given p old
      refine ⟨k, by omega, here, ?_⟩
      rw [columns k inside]
      exact copy.spares spares
    · cases here : present (entry m₀ t j) with
      | false =>
          rw [(absent here).2] at new
          cases new
      | true =>
          obtain ⟨q, rfl, copy⟩ := page here
          obtain rfl := List.mem_singleton.mp new
          exact ⟨j, by omega, here, copy⟩

end Inner

/-! ### One more table -/

/-- The entries of the source directory below `i` and what became of them in the directory `d`, whose
block is `x`, with the pages given; the others are empty still. -/
structure RowsCopied (l₀ : List Segment) (m₀ : Memory) (x : Nat) (l : List Segment) (m : Memory)
    (src d i : Nat) (given : List Nat) : Prop where
  absent : ∀ k, 2 ≤ k → k < i → present (entry m₀ src k) = false → present (entry m d k) = false
  tables : ∀ k, 2 ≤ k → k < i → present (entry m₀ src k) = true →
    ∃ gs, (∀ p ∈ gs, p ∈ given) ∧
      RowCopied l₀ m₀ (.entries :: cloneRequests m₀ src k) {x} l m gs (entry m₀ src k) (entry m d k)
  given : ∀ p ∈ given, ∃ k gs, 2 ≤ k ∧ k < i ∧ present (entry m₀ src k) = true ∧ p ∈ gs ∧
    RowCopied l₀ m₀ (.entries :: cloneRequests m₀ src k) {x} l m gs (entry m₀ src k) (entry m d k)
  later : ∀ k, i ≤ k → k < pageEntries → entry m d k = 0

section Outer

variable {l l' l₀ : List Segment} {m m' m₀ : Memory} {s s' : PagingState} {given gs : List Nat}
  {h' : HeapState} {d i src x y : Nat}

/-- One more entry of the directory, in memory where only the directory was written among blocks in
use. -/
theorem RowsCopied.succ (copied : RowsCopied l₀ m₀ x l m src d i given) (heap : HeapInv h' l)
    (spares : Spares {x} l l' m m') (low : 2 ≤ i)
    (columns : ∀ k < pageEntries, k ≠ i → entry m' d k = entry m d k) (index : i < pageEntries)
    (absent : present (entry m₀ src i) = false → entry m' d i = 0 ∧ gs = [])
    (row : present (entry m₀ src i) = true →
      RowCopied l₀ m₀ (.entries :: cloneRequests m₀ src i) {x} l' m' gs (entry m₀ src i) (entry m' d i)) :
    RowsCopied l₀ m₀ x l' m' src d (i + 1) (given ++ gs) := by
  refine ⟨fun k above below none => ?_, fun k above below here => ?_, fun p member => ?_,
    fun k above below => ?_⟩
  · by_cases last : k = i
    · subst last
      rw [(absent none).1]
      decide
    · rw [columns k (by omega) last]
      exact copied.absent k above (by omega) none
  · by_cases last : k = i
    · subst last
      exact ⟨gs, fun p member => List.mem_append_right _ member, row here⟩
    · rw [columns k (by omega) last]
      obtain ⟨old, part, copy⟩ := copied.tables k above (by omega) here
      exact ⟨old, fun p member => List.mem_append_left _ (part p member), copy.spares heap spares⟩
  · rcases List.mem_append.mp member with old | new
    · obtain ⟨k, ps, above, below, here, inside, copy⟩ := copied.given p old
      refine ⟨k, ps, above, by omega, here, inside, ?_⟩
      rw [columns k (by omega) (by omega)]
      exact copy.spares heap spares
    · cases here : present (entry m₀ src i) with
      | false =>
          rw [(absent here).2] at new
          cases new
      | true => exact ⟨i, gs, low, by omega, here, new, row here⟩
  · rw [columns k below (by omega)]
    exact copied.later k (by omega) below

end Outer

end Kfs.Paging
