/-
**Page tables whose addresses are those of their blocks.**

`kfree` takes the address that `kmalloc` returned. An entry holds that address rounded down to a page, and
a directory or table is its address rounded up, so what `paging_destroy_directory` frees are the blocks of
a directory only if all of them start at page boundaries. `Spans` says so: the blocks in use are those the
directory leads to, by their own addresses, and a rest.

Each function of `paging.c` keeps it, whatever the rest is, when first fit puts what the function asks for
at page boundaries; the rest is untouched.
-/

import Kfs.Heap.InUse
import Kfs.Paging.Frees
import Kfs.Paging.Present

namespace Kfs.Paging

open Kfs.Heap Memory

/-! ### Blocks that are left alone -/

/-- Some blocks keep their place and their first page, and so does all memory below the heap. -/
structure Untouched (rest : Multiset Nat) (l l' : List Segment) (m m' : Memory) : Prop where
  holds : ∀ a ∈ rest, ∀ n, Holds l a n → Holds l' a n
  pages : ∀ a ∈ rest, Holds l a pageSize → Set.EqOn m' m (Set.Ico a (a + pageSize))
  below : Set.EqOn m' m {x | x < heapStart}

section Untouched

variable {rest rest' : Multiset Nat} {l l' l'' : List Segment} {m m' m'' : Memory} {h h' : HeapState}
  {a d n ptr size x : Nat}

namespace Untouched

theorem refl (rest : Multiset Nat) (l : List Segment) (m : Memory) : Untouched rest l l m m :=
  ⟨fun _ _ _ => id, fun _ _ _ => Set.eqOn_refl _ _, Set.eqOn_refl _ _⟩

theorem trans (first : Untouched rest l l' m m') (second : Untouched rest l' l'' m' m'') :
    Untouched rest l l'' m m'' :=
  ⟨fun a member n holds => second.holds a member n (first.holds a member n holds),
    fun a member holds => (second.pages a member (first.holds a member _ holds)).trans
      (first.pages a member holds), second.below.trans first.below⟩

theorem mono (untouched : Untouched rest l l' m m') (fewer : rest' ≤ rest) : Untouched rest' l l' m m' :=
  ⟨fun a member => untouched.holds a (Multiset.mem_of_le fewer member),
    fun a member => untouched.pages a (Multiset.mem_of_le fewer member), untouched.below⟩

/-- The entries in a block that is left alone. -/
theorem entry (untouched : Untouched rest l l' m m') (member : a ∈ rest) (holds : Holds l a pageSize)
    {j : Nat} (index : j < pageEntries) : entry m' a j = entry m a j :=
  entry_congr (untouched.pages a member holds) index

/-- A directory all of whose blocks are left alone. -/
theorem frees (untouched : Untouched rest l l' m m') (part : frees m d ≤ rest)
    (room : ∀ a ∈ frees m d, Holds l a pageSize) : Paging.frees m' d = Paging.frees m d :=
  frees_congr fun a member _ index =>
    untouched.entry (Multiset.mem_of_le part member) (room a member) index

end Untouched

/-! ### The heap -/

/-- **`kmalloc`**: NULL and nothing changed, or one more block. -/
theorem kmalloc_exact (heap : HeapInv h l) (fits : NoWrap size) (done : kmalloc h size = .ok (h', ptr)) :
    (ptr = 0 ∧ h' = h) ∨ ∃ l', place size l = some (ptr, l') ∧ HeapInv h' l' ∧
      inUse l' = ptr ::ₘ inUse l ∧ Holds l' ptr size ∧ Untouched (inUse l) l l' h.mem h'.mem := by
  rcases kmalloc_cases heap fits done with null | ⟨front, b, back, rfl, fit, unfit, rfl, rfl, next⟩
  · exact .inl null
  · obtain ⟨free, room⟩ := fits_iff.mp fit
    have total := totalSize_eq fits
    have member : b ∈ front ++ b :: back := by simp
    have inside := heap.bounds member
    have placed := @place_append front back b _ unfit fit
    have outside := afterTake_eqOn heap member (legal_totalSize fits) fit
    refine .inr ⟨_, placed, next, inUse_place placed, ?_, ?_, ?_, outside.mono fun x low => ?_⟩
    · obtain ⟨taken, enough, _, carved⟩ := @carve_used _ splitSlack _ room
      refine ⟨⟨b.addr, taken, false⟩, (mem_carved_used free rfl).mpr (Or.inr ⟨carved, rfl⟩), rfl, rfl, ?_⟩
      show b.addr + 16 + size ≤ b.addr + taken
      omega
    · rintro a _ n ⟨c, found, used, here, enough⟩
      exact ⟨c, (mem_carved_used free used).mpr (Or.inl found), used, here, enough⟩
    · rintro a _ ⟨c, found, used, rfl, enough⟩
      refine outside.mono fun x inPage => ?_
      have other : c.addr ≠ b.addr := fun same => by
        rw [heap.tiles.eq_of_addr found member same, free] at used
        cases used
      have apart := heap.tiles.disjoint found member other
      simp only [Set.mem_Ico, Set.mem_ofPred_eq, Segment.Covers] at *
      omega
    · simp only [Set.mem_ofPred_eq, Segment.Covers] at *
      omega

/-- Writing into a block. -/
theorem write_exact (heap : HeapInv h l) (holds : Holds l x n) (outside : x ∉ rest)
    (same : Set.EqOn m' h.mem {y | y < x ∨ x + n ≤ y}) :
    HeapInv { h with mem := m' } l ∧ Untouched rest l l h.mem m' := by
  have bounds := holds.bounds heap
  refine ⟨heap.write (same.mono fun y free => ?_), fun _ _ _ => id, fun a member room => ?_,
    same.mono fun y low => ?_⟩
  · obtain ⟨b, member, used, rfl, room⟩ := holds
    have := free b member used
    simp only [Set.mem_ofPred_eq]
    omega
  · have other : a ≠ x := fun equal => outside (equal ▸ member)
    have apart := room.apart heap holds other
    refine same.mono fun y inPage => ?_
    simp only [Set.mem_Ico, Set.mem_ofPred_eq] at *
    omega
  · simp only [Set.mem_ofPred_eq] at *
    omega

/-- **`kfree` of a block in use** returns, and the block is not in use any more. -/
theorem kfree_exact (heap : HeapInv h l) (member : a ∈ inUse l) :
    ∃ h' l', kfreeLive h a = .ok h' ∧ HeapInv h' l' ∧ inUse l = a ::ₘ inUse l' ∧
      Untouched (inUse l') l l' h.mem h'.mem := by
  have live : kfreeLive h a = kfree h a := by
    rw [kfreeLive, heap.blockList_eq]
    exact if_pos member
  obtain ⟨b, found, used, rfl⟩ := Heap.mem_inUse.mp member
  obtain ⟨m, freed, next, same⟩ := kfree_used heap found used
  refine ⟨_, release b.addr l, live.trans freed, next, inUse_release heap.tiles found used, ?_, ?_,
    same.mono fun x low => ?_⟩
  · rintro c inside n ⟨s, old, usedS, rfl, room⟩
    obtain ⟨t, kept, usedT, here⟩ := Heap.mem_inUse.mp inside
    obtain ⟨oldT, other⟩ := (mem_release_used usedT).mp kept
    obtain rfl := heap.tiles.eq_of_addr old oldT (by omega)
    exact ⟨s, kept, usedS, rfl, room⟩
  · rintro c inside ⟨s, old, usedS, rfl, room⟩
    obtain ⟨t, kept, usedT, here⟩ := Heap.mem_inUse.mp inside
    obtain ⟨oldT, other⟩ := (mem_release_used usedT).mp kept
    obtain rfl := heap.tiles.eq_of_addr old oldT (by omega)
    refine same.mono fun x inPage => OutsideFree.of_used next.tiles kept usedS ?_
    simp only [Set.mem_Ico] at inPage
    exact ⟨by omega, by omega⟩
  · intro t kept _ covers
    have inside := next.bounds kept
    simp only [Set.mem_ofPred_eq, Segment.Covers] at *
    omega

end Untouched

/-! ### Blocks at page boundaries -/

section Boundaries

variable {l : List Segment} {more : List Request} {r : Request} {s s' : PagingState} {h' : HeapState}
  {d ptr t v w x : Nat}

/-- A block for a directory or a table: NULL and nothing changed, or one more block, whose page of entries
starts where the block does. -/
theorem kmallocAligned_exact (heap : HeapInv s.heap l) (bound : AtBoundaries l (.entries :: more))
    (done : kmallocAligned s.heap pageSize pageSize = .ok (h', t)) :
    (t = 0 ∧ h' = s.heap) ∨ ∃ l', HeapInv h' l' ∧ inUse l' = t ::ₘ inUse l ∧
      Holds l' t (2 * pageSize) ∧ pageSize ∣ t ∧ t ≠ 0 ∧ AtBoundaries l' more ∧
      Untouched (inUse l) l l' s.mem h'.mem := by
  obtain ⟨⟨h, y⟩, taken, rest⟩ := Outcome.bind_eq_ok.mp done
  rcases kmalloc_exact heap (by decide) taken with ⟨rfl, rfl⟩ | ⟨l', placed, next, more, holds, same⟩
  · cases rest
    exact .inl ⟨rfl, rfl⟩
  · have bounds := holds.bounds next
    obtain ⟨which, later⟩ := bound.first placed
    have aligned : pageSize ∣ y := which.resolve_left (by decide)
    have here : alignUp y pageSize = y := by
      refine alignUp_of_dvd (by decide) ?_ aligned
      simp only [heapEnd, heapStart, heapSize, pageSize] at *
      omega
    simp only at rest
    rw [if_neg (by omega)] at rest
    cases rest
    rw [here]
    exact .inr ⟨l', next, more, holds, aligned, by omega, later, same⟩

/-- **`paging_alloc_table`**: NULL and nothing changed, or one more block with an empty table. -/
theorem allocTable_exact (heap : HeapInv s.heap l) (bound : AtBoundaries l (.entries :: more))
    (done : pagingAllocTable s = .ok (s', t)) :
    (t = 0 ∧ s' = s) ∨ ∃ l', HeapInv s'.heap l' ∧ inUse l' = t ::ₘ inUse l ∧ Holds l' t (2 * pageSize) ∧
      pageSize ∣ t ∧ t ≠ 0 ∧ AtBoundaries l' more ∧ Untouched (inUse l) l l' s.mem s'.mem ∧
      (∀ j < pageEntries, entry s'.mem t j = 0) ∧ s'.current = s.current := by
  obtain ⟨⟨h, y⟩, taken, rest⟩ := Outcome.bind_eq_ok.mp done
  rcases kmallocAligned_exact heap bound taken with
    ⟨rfl, rfl⟩ | ⟨l', next, taken, holds, aligned, nonzero, later, same⟩
  · cases rest
    exact .inl ⟨rfl, rfl⟩
  · simp only at rest
    rw [if_neg nonzero] at rest
    cases rest
    have fresh : t ∉ inUse l := by
      have nodup := inUse_nodup next.tiles
      rw [taken] at nodup
      exact (Multiset.nodup_cons.mp nodup).1
    have filled : Set.EqOn (h.mem.fill t 0 pageSize) h.mem {y | y < t ∨ t + 2 * pageSize ≤ y} :=
      (fill_eqOn h.mem t 0 pageSize).mono fun y outside => by
        simp only [Set.mem_ofPred_eq] at *
        omega
    obtain ⟨written, untouched⟩ := write_exact next holds fresh filled
    refine .inr ⟨l', written, taken, holds, aligned, nonzero, later, same.trans untouched,
      fun j index => load32_fill_zero h.mem (by omega) ?_, rfl⟩
    simp only [pageSize, pageEntries] at *
    omega

end Boundaries

/-! ### Directories -/

/-- **The blocks in use** are those a directory leads to, by their own addresses, and a rest. -/
structure Spans (d : Nat) (rest : Multiset Nat) (s : PagingState) (l : List Segment) : Prop where
  heap : HeapInv s.heap l
  balance : inUse l = rest + frees s.mem d
  room : ∀ a ∈ frees s.mem d, Holds l a pageSize
  aligned : pageSize ∣ d

namespace Spans

variable {rest more : Multiset Nat} {requests : List Request} {l l' : List Segment} {s s' : PagingState}
  {h' : HeapState} {m' : Memory} {a d e flags j k n ptr t v virt w x y z : Nat}

theorem nodup_all (spans : Spans d rest s l) : (rest + frees s.mem d).Nodup := by
  rw [← spans.balance]
  exact inUse_nodup spans.heap.tiles

theorem nodup (spans : Spans d rest s l) : (frees s.mem d).Nodup :=
  (Multiset.nodup_add.mp spans.nodup_all).2.1

theorem notMem_rest (spans : Spans d rest s l) (member : a ∈ frees s.mem d) : a ∉ rest := fun inside =>
  Multiset.disjoint_left.mp (Multiset.nodup_add.mp spans.nodup_all).2.2 inside member

theorem notMem_frees (spans : Spans d (x ::ₘ rest) s l) : x ∉ frees s.mem d := fun member =>
  spans.notMem_rest member (Multiset.mem_cons_self x rest)

theorem fresh_rest (spans : Spans d (x ::ₘ rest) s l) : x ∉ rest :=
  (Multiset.nodup_cons.mp (Multiset.nodup_add.mp spans.nodup_all).1).1

theorem rest_le (spans : Spans d rest s l) : rest ≤ inUse l := by
  rw [spans.balance]
  exact Multiset.le_add_right _ _

theorem frees_le (spans : Spans d rest s l) : frees s.mem d ≤ inUse l := by
  rw [spans.balance]
  exact Multiset.le_add_left _ _

/-- **A change of the heap** that leaves the blocks of the directory alone. -/
theorem transport (spans : Spans d rest s l) (heap : HeapInv s'.heap l')
    (balance : inUse l' = more + frees s.mem d)
    (same : Untouched (frees s.mem d) l l' s.mem s'.mem) : Spans d more s' l' := by
  have equal := same.frees le_rfl spans.room
  refine ⟨heap, by rw [equal, balance], fun a member => ?_, spans.aligned⟩
  rw [equal] at member
  exact same.holds a member _ (spans.room a member)

/-- Taking a block. -/
theorem take (spans : Spans d rest s l) (heap : HeapInv s'.heap l') (taken : inUse l' = x ::ₘ inUse l)
    (same : Untouched (inUse l) l l' s.mem s'.mem) : Spans d (x ::ₘ rest) s' l' := by
  refine spans.transport heap ?_ (same.mono spans.frees_le)
  rw [taken, spans.balance, Multiset.cons_add]

/-- Writing into a block of the rest. -/
theorem scribble (spans : Spans d (x ::ₘ rest) s l) (holds : Holds l x n)
    (same : Set.EqOn m' s.mem {y | y < x ∨ x + n ≤ y}) :
    Spans d (x ::ₘ rest) (s.write m') l ∧ Untouched (rest + frees s.mem d) l l s.mem m' := by
  have outside : x ∉ rest + frees s.mem d := by
    rw [Multiset.mem_add, not_or]
    exact ⟨spans.fresh_rest, spans.notMem_frees⟩
  obtain ⟨heap, untouched⟩ := write_exact spans.heap holds outside same
  exact ⟨spans.transport heap spans.balance (untouched.mono (Multiset.le_add_left _ _)), untouched⟩

/-- Setting an entry of a table or of the directory leaves the rest alone. -/
theorem setEntry (spans : Spans d rest s l) (member : t ∈ frees s.mem d) (index : j < pageEntries)
    (v : Nat) : HeapInv { s.heap with mem := Paging.setEntry s.mem t j v } l ∧
      Untouched rest l l s.mem (Paging.setEntry s.mem t j v) := by
  refine write_exact spans.heap (spans.room t member) (spans.notMem_rest member) ?_
  refine (store32_eqOn s.mem _ v).mono fun y outside => ?_
  simp only [Set.mem_ofPred_eq, pageSize, pageEntries] at *
  omega

/-- **Linking a table**, with the pages it has. -/
theorem linkTable (spans : Spans d ((y ::ₘ pageFrees s.mem y) + rest) s l)
    (holds : ∀ a ∈ y ::ₘ pageFrees s.mem y, Holds l a pageSize) (low : 2 ≤ k) (index : k < pageEntries)
    (absent : present (entry s.mem d k) = false) (small : e < 2 ^ 32) (here : present e = true)
    (same : frame e = y) :
    Spans d rest (s.write (Paging.setEntry s.mem d k e)) l ∧
      Untouched rest l l s.mem (Paging.setEntry s.mem d k e) := by
  subst same
  obtain ⟨heap, untouched⟩ := spans.setEntry self_mem_frees index e
  have apart : frame e ≠ d := by
    intro same
    refine spans.notMem_rest self_mem_frees ?_
    rw [← same, Multiset.mem_add, Multiset.mem_cons]
    exact .inl (.inl rfl)
  have added := frees_setTable spans.nodup spans.aligned low index absent small here apart
  refine ⟨⟨heap, ?_, fun a member => ?_, spans.aligned⟩, untouched.mono (Multiset.le_add_left _ _)⟩
  · rw [PagingState.mem_write, added, spans.balance]
    ac_rfl
  · rw [PagingState.mem_write, added, Multiset.mem_add] at member
    rcases member with new | old
    · exact holds a new
    · exact spans.room a old

/-- **Mapping a page** in a table of the directory. -/
theorem mapPage (spans : Spans d (z ::ₘ rest) s l) (holds : Holds l z pageSize) (low : 2 ≤ k)
    (index : k < pageEntries) (table : present (entry s.mem d k) = true)
    (same : frame (entry s.mem d k) = t) (inside : j < pageEntries)
    (absent : present (entry s.mem t j) = false) (small : e < 2 ^ 32) (here : present e = true)
    (framed : frame e = z) :
    Spans d rest (s.write (Paging.setEntry s.mem t j e)) l ∧
      Untouched rest l l s.mem (Paging.setEntry s.mem t j e) := by
  have member : t ∈ frees s.mem d := same ▸ mem_frees_of_table low index (table_mem_tableFrees table)
  obtain ⟨heap, untouched⟩ := spans.setEntry member inside e
  have added := frees_setPage spans.nodup spans.aligned low index table same inside absent small here
  rw [framed] at added
  refine ⟨⟨heap, ?_, fun a member => ?_, spans.aligned⟩, untouched.mono (Multiset.le_cons_self _ _)⟩
  · rw [PagingState.mem_write, added, spans.balance, Multiset.cons_add, Multiset.add_cons]
  · rw [PagingState.mem_write, added, Multiset.mem_cons] at member
    rcases member with rfl | old
    · exact holds
    · exact spans.room a old

/-- Noting an allocation changes nothing. -/
theorem note (spans : Spans d rest s l) (dir page ptr : Nat) : Spans d rest (s.note dir page ptr) l :=
  ⟨spans.heap, spans.balance, spans.room, spans.aligned⟩

theorem directory_ne_zero (spans : Spans d rest s l) : d ≠ 0 := by
  have bounds := (spans.room d self_mem_frees).bounds spans.heap
  omega

/-! ### Pages that are mapped -/

/-- The table behind a present entry. -/
theorem table_mem (user : UserIndex w) (here : present (entry s.mem d (dirIndex w)) = true) :
    frame (entry s.mem d (dirIndex w)) ∈ frees s.mem d :=
  mem_frees_of_table user.1 user.2 (table_mem_tableFrees here)

theorem maps_congr (spans : Spans d rest s l) (same : Untouched (frees s.mem d) l l' s.mem m')
    (user : UserIndex w) : Maps m' d w ↔ Maps s.mem d w := by
  have row := same.entry self_mem_frees (spans.room d self_mem_frees) user.2
  rw [Maps, Maps, row]
  refine and_congr_right fun here => ?_
  have member := table_mem user here
  rw [same.entry member (spans.room _ member) tableIndex_lt]

/-- Linking an empty table maps nothing. -/
theorem maps_setTable (spans : Spans d rest s l) (index : k < pageEntries) (small : e < 2 ^ 32)
    (apart : frame e ≠ d) (empty : ∀ j < pageEntries, entry s.mem (frame e) j = 0) (user : UserIndex w)
    (maps : Maps (Paging.setEntry s.mem d k e) d w) : Maps s.mem d w := by
  obtain ⟨row, column⟩ := maps
  rw [entry_setEntry spans.aligned spans.aligned index user.2, Nat.mod_eq_of_lt small] at row column
  by_cases here : dirIndex w = k
  · rw [if_pos ⟨rfl, here⟩, entry_setEntry spans.aligned dvd_frame index tableIndex_lt,
      if_neg fun both => apart both.1, empty _ tableIndex_lt] at column
    exact absurd column (by decide)
  · rw [if_neg fun both => here both.2] at row column
    have other := table_ne_directory spans.nodup user.1 user.2 row
    rw [entry_setEntry spans.aligned dvd_frame index tableIndex_lt, if_neg fun both => other both.1]
      at column
    exact ⟨row, column⟩

/-- Setting an entry of a table maps one page. -/
theorem maps_setPage (spans : Spans d rest s l) (low : 2 ≤ k) (index : k < pageEntries)
    (table : present (entry s.mem d k) = true) (same : frame (entry s.mem d k) = t)
    (inside : j < pageEntries) (user : UserIndex w) (maps : Maps (Paging.setEntry s.mem t j e) d w) :
    Maps s.mem d w ∨ (dirIndex w = k ∧ tableIndex w = j) := by
  subst same
  obtain ⟨row, column⟩ := maps
  have apart := table_ne_directory spans.nodup low index table
  rw [entry_setEntry dvd_frame spans.aligned inside user.2, if_neg fun both => apart both.1.symm]
    at row column
  by_cases here : dirIndex w = k
  · by_cases there : tableIndex w = j
    · exact .inr ⟨here, there⟩
    · rw [entry_setEntry dvd_frame dvd_frame inside tableIndex_lt, if_neg fun both => there both.2] at column
      exact .inl ⟨row, column⟩
  · have other := table_ne_table spans.nodup user.1 user.2 low index here row table
    rw [entry_setEntry dvd_frame dvd_frame inside tableIndex_lt, if_neg fun both => other both.1] at column
    exact .inl ⟨row, column⟩

/-! ### The functions that map -/

theorem freshDirectory_eqOn (m : Memory) : Set.EqOn (freshDirectory m t v w) m
    {y | y < t ∨ t + pageSize ≤ y} := by
  intro y outside
  simp only [Set.mem_ofPred_eq, pageSize] at outside
  rw [freshDirectory, Paging.setEntry, store32_of_disjoint _ _ (by omega), Paging.setEntry,
    store32_of_disjoint _ _ (by omega), fill_eqOn m t 0 pageSize]
  simp only [Set.mem_ofPred_eq, pageSize]
  omega

theorem entry_freshDirectory (m : Memory) (aligned : pageSize ∣ t) (low : 2 ≤ k) (index : k < pageEntries) :
    entry (freshDirectory m t v w) t k = 0 := by
  rw [freshDirectory, entry_setEntry aligned aligned (by decide) index, if_neg (by omega),
    entry_setEntry aligned aligned (by decide) index, if_neg (by omega)]
  refine load32_fill_zero m (by omega) ?_
  simp only [pageSize, pageEntries] at *
  omega

/-- **A fresh directory** in a block just taken. -/
theorem ofFresh (heap : HeapInv s.heap l') (taken : inUse l' = t ::ₘ inUse l)
    (holds : Holds l' t (2 * pageSize)) (aligned : pageSize ∣ t) (v w : Nat) :
    Spans t (inUse l) (s.write (freshDirectory s.mem t v w)) l' ∧
      Untouched (inUse l) l' l' s.mem (freshDirectory s.mem t v w) := by
  have fresh : t ∉ inUse l := by
    have nodup := inUse_nodup heap.tiles
    rw [taken] at nodup
    exact (Multiset.nodup_cons.mp nodup).1
  obtain ⟨written, untouched⟩ := write_exact heap (holds.le (by decide)) fresh (freshDirectory_eqOn s.mem)
  have alone : frees (freshDirectory s.mem t v w) t = {t} := by
    refine frees_empty fun i low index => ?_
    rw [entry_freshDirectory s.mem aligned low index]
    decide
  refine ⟨⟨written, ?_, fun a member => ?_, aligned⟩, untouched⟩
  · rw [PagingState.mem_write, alone, taken, add_comm, Multiset.singleton_add]
  · rw [PagingState.mem_write, alone, Multiset.mem_singleton] at member
    rw [member]
    exact holds.le (by decide)

/-- **`paging_create_directory`**: NULL and nothing changed, or a directory of its own. -/
theorem createDirectory {image : KernelImage} (heap : HeapInv s.heap l)
    (bound : AtBoundaries l (.entries :: requests)) (done : pagingCreateDirectory image s = .ok (s', d)) :
    (d = 0 ∧ s' = s) ∨ ∃ l', Spans d (inUse l) s' l' ∧ AtBoundaries l' requests ∧
      Untouched (inUse l) l l' s.mem s'.mem ∧ s'.current = s.current ∧
      ∀ i, 2 ≤ i → i < pageEntries → entry s'.mem d i = 0 := by
  obtain ⟨⟨h, p⟩, taken, rest⟩ := Outcome.bind_eq_ok.mp done
  rcases kmallocAligned_exact heap bound taken with
    ⟨rfl, rfl⟩ | ⟨l', next, more, holds, aligned, nonzero, later, same⟩
  · cases rest
    exact .inl ⟨rfl, rfl⟩
  · simp only at rest
    rw [if_neg nonzero] at rest
    cases rest
    obtain ⟨spans, untouched⟩ := @ofFresh l l' (s.withHeap h) d next more holds aligned _ _
    exact .inr ⟨l', spans, later, same.trans untouched, rfl, fun i low index =>
      entry_freshDirectory h.mem aligned low index⟩

/-- `paging_map_page_in_directory`, up to the table. -/
theorem ensureTable (spans : Spans d rest s l) (user : UserIndex virt) (small : flags < pageSize)
    (bound : AtBoundaries l (linkRequests s.mem d virt ++ requests))
    (done : Paging.ensureTable s d virt flags = .ok s') :
    ∃ l', Spans d rest s' l' ∧ Untouched rest l l' s.mem s'.mem ∧ s'.current = s.current ∧
      AtBoundaries l' requests ∧ LinkedAt d virt s.mem s'.mem ∧
      ∀ w, UserIndex w → Maps s'.mem d w → Maps s.mem d w := by
  unfold linkRequests at bound
  rcases ensureTable_cases done with ⟨here, rfl⟩ | ⟨here, s₁, t, taken, nonnull, rfl⟩
  · rw [here, if_pos rfl] at bound
    refine ⟨l, spans, .refl _ _ _, rfl, bound, fun k _ => ⟨.inl, ?_⟩, fun _ _ => id⟩
    rintro (old | rfl)
    · exact old
    · exact here
  · rw [here, if_neg (by decide)] at bound
    rcases allocTable_exact spans.heap bound taken with
      ⟨rfl, rfl⟩ | ⟨l', heap, more, holds, aligned, -, later, same, empty, current⟩
    · exact absurd rfl nonnull
    · have spans₁ := spans.take heap more same
      have noPages : pageFrees s₁.mem t = 0 := pageFrees_empty fun j index => by
        rw [empty j index]
        decide
      have rows : ∀ k < pageEntries, entry s₁.mem d k = entry s.mem d k := fun k index =>
        same.entry (Multiset.mem_of_le spans.frees_le self_mem_frees) (spans.room d self_mem_frees) index
      have bounds := holds.bounds heap
      have bound : t ||| pagePresent ||| pageWrite ||| flags < 2 ^ 32 := by
        refine or_lt (or_lt (or_lt ?_ (by decide)) (by decide)) small
        simp only [heapEnd, heapStart, heapSize] at bounds
        omega
      have seen : present (t ||| pagePresent ||| pageWrite ||| flags) = true := by
        rw [present_or, present_or, present_or, show present pagePresent = true by decide]
        simp
      have framed := frame_tableEntry aligned small
      have apart : t ≠ d := fun equal => spans₁.notMem_frees (equal ▸ self_mem_frees)
      have pending : Spans d ((t ::ₘ pageFrees s₁.mem t) + rest) s₁ l' := by
        rw [noPages, Multiset.cons_zero, Multiset.singleton_add]
        exact spans₁
      obtain ⟨linked, untouched⟩ := pending.linkTable (fun a member => by
        rw [noPages, Multiset.cons_zero, Multiset.mem_singleton] at member
        rw [member]
        exact holds.le (by decide)) user.1 user.2 ((rows _ user.2).symm ▸ here) bound seen framed
      refine ⟨l', linked, (same.mono spans.rest_le).trans untouched, current, later, fun k inside => ?_,
        fun w user' maps => ?_⟩
      · rw [PagingState.mem_write, entry_setEntry spans.aligned spans.aligned user.2 inside, rows k inside,
          Nat.mod_eq_of_lt bound]
        by_cases equal : k = dirIndex virt
        · rw [if_pos ⟨rfl, equal⟩, seen]
          exact iff_of_true rfl (.inr equal)
        · rw [if_neg fun both => equal both.2]
          exact (or_iff_left equal).symm
      · have before := spans₁.maps_setTable user.2 bound (framed.symm ▸ apart) (framed.symm ▸ empty)
          user' maps
        exact (spans.maps_congr (same.mono spans.frees_le) user').mp before

/-- **`paging_map_page_in_directory`** of a block just taken, at a page that is not mapped. -/
theorem mapPageInDirectory (spans : Spans d (z ::ₘ rest) s l) (holds : Holds l z pageSize)
    (aligned : pageSize ∣ z) (user : UserIndex virt) (small : flags < pageSize)
    (new : ¬ Maps s.mem d virt) (bound : AtBoundaries l (linkRequests s.mem d virt ++ requests))
    (done : pagingMapPageInDirectory s d virt z flags = .ok s') :
    ∃ l', Spans d rest s' l' ∧ Untouched rest l l' s.mem s'.mem ∧ s'.current = s.current ∧
      AtBoundaries l' requests ∧ LinkedAt d virt s.mem s'.mem ∧
      ∀ w, UserIndex w → Maps s'.mem d w → Maps s.mem d w ∨ w / pageSize = virt / pageSize := by
  unfold pagingMapPageInDirectory at done
  rw [if_neg spans.directory_ne_zero] at done
  obtain ⟨s₁, ensured, last⟩ := Outcome.bind_eq_ok.mp done
  cases last
  obtain ⟨l', spans₁, same, current, later, linked, fewer⟩ := spans.ensureTable user small bound ensured
  have holds' : Holds l' z pageSize := same.holds z (Multiset.mem_cons_self z rest) _ holds
  have bounds := holds'.bounds spans₁.heap
  have table : present (entry s₁.mem d (dirIndex virt)) = true := (linked _ user.2).mpr (.inr rfl)
  have bound' : frame z ||| flagBits flags ||| pagePresent < 2 ^ 32 := by
    refine or_lt (or_lt ?_ flagBits_lt) (by decide)
    rw [frame_of_dvd aligned]
    simp only [heapEnd, heapStart, heapSize] at bounds
    omega
  have seen : present (frame z ||| flagBits flags ||| pagePresent) = true := by
    rw [present_or, show present pagePresent = true by decide, Bool.or_true]
  have framed : frame (frame z ||| flagBits flags ||| pagePresent) = z := by
    rw [frame_or (by decide), frame_or flagBits_lt, frame_of_dvd dvd_frame, frame_of_dvd aligned]
  have absent : present (entry s₁.mem (frame (entry s₁.mem d (dirIndex virt))) (tableIndex virt)) =
      false := by
    by_contra mapped
    exact new (fewer virt user ⟨table, by simpa using mapped⟩)
  obtain ⟨mapped, untouched⟩ := spans₁.mapPage holds' user.1 user.2 table rfl tableIndex_lt absent bound'
    seen framed
  refine ⟨l', mapped.note _ _ _, (same.mono (Multiset.le_cons_self _ _)).trans untouched, current, later,
    fun k inside => ?_, fun w user' maps => ?_⟩
  · have apart := table_ne_directory spans₁.nodup user.1 user.2 table
    rw [PagingState.mem_note, PagingState.mem_write,
      entry_setEntry dvd_frame spans.aligned tableIndex_lt inside, if_neg fun both => apart both.1.symm]
    exact linked k inside
  · rw [PagingState.mem_note, PagingState.mem_write] at maps
    rcases spans₁.maps_setPage user.1 user.2 table rfl tableIndex_lt user' maps with old | page
    · exact .inl (fewer w user' old)
    · exact .inr (page_eq_iff.mpr page)

end Spans

end Kfs.Paging
