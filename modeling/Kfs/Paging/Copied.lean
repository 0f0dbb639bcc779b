/-
**Cloning a directory whose blocks are known.**

`paging_clone_directory` builds one table at a time. A table that is filled but not linked yet is
`Pending`: the directory does not lead to it or to its pages. When a page cannot be had, the table is freed
without its pages, and then the directory; the pages of that table are lost (`Pending.abandon`). The copy
of a directory whose blocks all start at page boundaries spans blocks of its own (`cloneDirectory_exact`).
-/

import Kfs.Paging.Destroyed

namespace Kfs.Paging

open Kfs.Heap Memory

/-- A table that is not linked yet: it and its pages are part of the rest. -/
structure Pending (d y : Nat) (rest : Multiset Nat) (s : PagingState) (l : List Segment) : Prop where
  spans : Spans d ((y ::ₘ pageFrees s.mem y) + rest) s l
  room : ∀ a ∈ y ::ₘ pageFrees s.mem y, Holds l a pageSize
  aligned : pageSize ∣ y

section Clone

variable {rest lost : Multiset Nat} {requests : List Request} {l l' : List Segment} {s s' : PagingState}
  {h' : HeapState} {m' : Memory} {a d e i j k n src t v w x y z : Nat}

/-- Clearing an entry that leads nowhere. -/
theorem pageFrees_clear {m : Memory} (aligned : pageSize ∣ y) (inside : j < pageEntries)
    (absent : present (entry m y j) = false) : pageFrees (setEntry m y j 0) y = pageFrees m y := by
  rw [pageFrees, pageFrees]
  refine Finset.sum_congr rfl fun k member => ?_
  have set := @entry_setEntry m j k y y 0 aligned aligned inside (Finset.mem_range.mp member)
  rw [pageFree, pageFree, set]
  by_cases equal : k = j
  · subst equal
    simp [absent, show present 0 = false by decide]
  · simp [equal]

namespace Pending

/-- A change of the heap that leaves the directory and the table alone. -/
theorem transport {more : Multiset Nat} (pending : Pending d y rest s l) (heap : HeapInv s'.heap l')
    (balance : inUse l' = (y ::ₘ pageFrees s.mem y) + more + frees s.mem d)
    (same : Untouched ((y ::ₘ pageFrees s.mem y) + frees s.mem d) l l' s.mem s'.mem) :
    Pending d y more s' l' := by
  have mine : y ∈ y ::ₘ pageFrees s.mem y := Multiset.mem_cons_self _ _
  have pages : pageFrees s'.mem y = pageFrees s.mem y := pageFrees_congr fun j index =>
    same.entry (Multiset.mem_add.mpr (.inl mine)) (pending.room y mine) index
  refine ⟨?_, fun a member => ?_, pending.aligned⟩
  · rw [pages]
    exact pending.spans.transport heap balance (same.mono (Multiset.le_add_left _ _))
  · rw [pages] at member
    exact same.holds a (Multiset.mem_add.mpr (.inl member)) _ (pending.room a member)

/-- Taking a block. -/
theorem take (pending : Pending d y rest s l) (heap : HeapInv s'.heap l') (taken : inUse l' = x ::ₘ inUse l)
    (same : Untouched (inUse l) l l' s.mem s'.mem) : Pending d y (x ::ₘ rest) s' l' := by
  refine pending.transport heap ?_ (same.mono ?_)
  · rw [taken, pending.spans.balance, Multiset.add_cons, Multiset.cons_add x]
  · rw [pending.spans.balance, add_right_comm]
    exact Multiset.le_add_right _ _

theorem reorder (pending : Pending d y (z ::ₘ rest) s l) :
    Spans d (z ::ₘ ((y ::ₘ pageFrees s.mem y) + rest)) s l := by
  rw [← Multiset.add_cons]
  exact pending.spans

/-- Writing into a block of the rest. -/
theorem scribble (pending : Pending d y (z ::ₘ rest) s l) (holds : Holds l z n)
    (same : Set.EqOn m' s.mem {y | y < z ∨ z + n ≤ y}) :
    Pending d y (z ::ₘ rest) (s.write m') l ∧
      Untouched ((y ::ₘ pageFrees s.mem y) + rest + frees s.mem d) l l s.mem m' := by
  obtain ⟨spans, untouched⟩ := pending.reorder.scribble holds same
  refine ⟨pending.transport spans.heap pending.spans.balance (untouched.mono ?_), untouched⟩
  rw [add_right_comm]
  exact Multiset.le_add_right _ _

/-- Setting an entry of the table leaves everything else alone. -/
theorem setEntry (pending : Pending d y rest s l) (index : j < pageEntries) (v : Nat) :
    Spans d ((y ::ₘ pageFrees s.mem y) + rest) (s.write (Paging.setEntry s.mem y j v)) l ∧
      Untouched (pageFrees s.mem y + rest + frees s.mem d) l l s.mem (Paging.setEntry s.mem y j v) := by
  have spans := pending.spans
  rw [Multiset.cons_add] at spans ⊢
  refine spans.scribble (pending.room y (Multiset.mem_cons_self _ _))
    ((store32_eqOn s.mem _ v).mono fun x outside => ?_)
  simp only [Set.mem_ofPred_eq, pageSize, pageEntries] at *
  omega

/-- **A page for the table.** -/
theorem addPage (pending : Pending d y (z ::ₘ rest) s l) (holds : Holds l z pageSize)
    (inside : j < pageEntries) (absent : present (entry s.mem y j) = false) (small : e < 2 ^ 32)
    (here : present e = true) (framed : frame e = z) :
    Pending d y rest (s.write (Paging.setEntry s.mem y j e)) l ∧
      Untouched (rest + frees s.mem d) l l s.mem (Paging.setEntry s.mem y j e) := by
  obtain ⟨spans, untouched⟩ := pending.setEntry inside e
  have added := pageFrees_setEntry pending.aligned inside absent small here
  rw [framed] at added
  refine ⟨⟨?_, fun a member => ?_, pending.aligned⟩, untouched.mono ?_⟩
  · rw [PagingState.mem_write, added, Multiset.cons_swap, Multiset.cons_add, ← Multiset.add_cons]
    exact spans
  · rw [PagingState.mem_write, added, Multiset.cons_swap, Multiset.mem_cons] at member
    rcases member with rfl | old
    · exact holds
    · exact pending.room a old
  · rw [Multiset.add_cons, Multiset.cons_add, add_assoc]
    exact le_trans (Multiset.le_add_left _ _) (Multiset.le_cons_self _ _)

/-- Clearing an entry that leads nowhere. -/
theorem clearPage (pending : Pending d y rest s l) (inside : j < pageEntries)
    (absent : present (entry s.mem y j) = false) :
    Pending d y rest (s.write (Paging.setEntry s.mem y j 0)) l ∧
      Untouched (rest + frees s.mem d) l l s.mem (Paging.setEntry s.mem y j 0) := by
  obtain ⟨spans, untouched⟩ := pending.setEntry inside 0
  have same := pageFrees_clear pending.aligned inside absent
  refine ⟨⟨?_, fun a member => ?_, pending.aligned⟩, untouched.mono ?_⟩
  · rw [PagingState.mem_write, same]
    exact spans
  · rw [PagingState.mem_write, same] at member
    exact pending.room a member
  · rw [add_assoc]
    exact Multiset.le_add_left _ _

/-- The rows of the directory, where it is left alone. -/
theorem row {more : Multiset Nat} (pending : Pending d y rest s l)
    (same : Untouched (more + frees s.mem d) l l' s.mem m') (index : k < pageEntries) :
    entry m' d k = entry s.mem d k :=
  same.entry (Multiset.mem_add.mpr (.inr self_mem_frees)) (pending.spans.room d self_mem_frees) index

/-- **Giving the copy up**: the pages of the table are lost. -/
theorem abandon (pending : Pending d y rest s l) (freed : kfree s.heap y = .ok h')
    (destroyed : pagingDestroyDirectory (s.withHeap h') d = .ok s') :
    ∃ l' lost, HeapInv s'.heap l' ∧ inUse l' = lost + rest ∧ Untouched rest l l' s.mem s'.mem ∧
      s'.current = s.current := by
  have balance := pending.spans.balance
  rw [Multiset.cons_add, Multiset.cons_add] at balance
  obtain ⟨l₁, heap, left, same⟩ := gaveBack pending.spans.heap balance freed
  have spans : Spans d (pageFrees s.mem y + rest) (s.withHeap h') l₁ :=
    pending.spans.transport heap left (same.mono (Multiset.le_add_left _ _))
  obtain ⟨l₂, last, gone, untouched, current⟩ := spans.destroyed destroyed
  refine ⟨l₂, pageFrees s.mem y, last, gone, (same.mono ?_).trans (untouched.mono ?_), current⟩
  · rw [add_assoc]
    exact le_trans (Multiset.le_add_right _ _) (Multiset.le_add_left _ _)
  · exact Multiset.le_add_left _ _

/-- **Copying a page** into a block just taken. -/
theorem copyPage (pending : Pending d y rest s l) (heap : HeapInv h' l') (taken : inUse l' = z ::ₘ inUse l)
    (same : Untouched (inUse l) l l' s.mem h'.mem) (holds : Holds l' z pageSize) (aligned : pageSize ∣ z)
    (here : present e = true) (inside : j < pageEntries) (absent : present (entry s.mem y j) = false)
    {m : Memory} (copied : Set.EqOn m h'.mem {x | x < z ∨ z + pageSize ≤ x}) :
    Pending d y rest ((s.withHeap h').write (Paging.setEntry m y j (z ||| flagBits e))) l' ∧
      Untouched rest l l' s.mem (Paging.setEntry m y j (z ||| flagBits e)) ∧
      (∀ k < pageEntries, entry (Paging.setEntry m y j (z ||| flagBits e)) d k = entry s.mem d k) ∧
      (∀ k < pageEntries, k ≠ j →
        entry (Paging.setEntry m y j (z ||| flagBits e)) y k = entry s.mem y k) ∧
      pageFrees (Paging.setEntry m y j (z ||| flagBits e)) y = z ::ₘ pageFrees s.mem y := by
  have restLe : rest ≤ inUse l := le_trans (Multiset.le_add_left _ _) pending.spans.rest_le
  have mine : y ∈ y ::ₘ pageFrees s.mem y := Multiset.mem_cons_self _ _
  have taking : Pending d y (z ::ₘ rest) (s.withHeap h') l' := pending.take heap taken same
  obtain ⟨copying, kept⟩ := taking.scribble holds copied
  -- what the copy reads and keeps is as it was before the block was taken
  have before : ∀ a k, a ∈ (y ::ₘ pageFrees h'.mem y) + rest + frees h'.mem d → a ∈ inUse l →
      Holds l a pageSize → k < pageEntries → entry m a k = entry s.mem a k := by
    intro a k inCopy inHeap room index
    rw [kept.entry inCopy (same.holds a inHeap _ room) index]
    exact same.entry inHeap room index
  have column : ∀ k < pageEntries, entry m y k = entry s.mem y k := fun k index =>
    before y k (Multiset.mem_add.mpr (.inl (Multiset.mem_add.mpr (.inl (Multiset.mem_cons_self _ _)))))
      (Multiset.mem_of_le pending.spans.rest_le (Multiset.mem_add.mpr (.inl mine))) (pending.room y mine)
      index
  have row : ∀ k < pageEntries, entry m d k = entry s.mem d k := fun k index =>
    before d k (Multiset.mem_add.mpr (.inr self_mem_frees))
      (Multiset.mem_of_le pending.spans.frees_le self_mem_frees) (pending.spans.room d self_mem_frees) index
  have bounds := holds.bounds heap
  have small : z ||| flagBits e < 2 ^ 32 := by
    refine or_lt ?_ flagBits_lt
    simp only [heapEnd, heapStart, heapSize] at bounds
    omega
  have seen : present (z ||| flagBits e) = true := by
    rw [present_or, present_flagBits, here, Bool.or_true]
  have framed : frame (z ||| flagBits e) = z := by
    rw [frame_or flagBits_lt, frame_of_dvd aligned]
  have still : present (entry m y j) = false := (column j inside).symm ▸ absent
  obtain ⟨next, untouched⟩ := copying.addPage holds inside still small seen framed
  refine ⟨next, (same.mono restLe).trans ((kept.mono ?_).trans (untouched.mono ?_)), fun k index => ?_,
    fun k index other => ?_, ?_⟩
  · exact le_trans (Multiset.le_add_left _ _) (Multiset.le_add_right _ _)
  · exact Multiset.le_add_right _ _
  · exact (copying.row untouched index).trans (row k index)
  · rw [entry_setEntry pending.aligned pending.aligned inside index, if_neg fun both => other both.2]
    exact column k index
  · rw [pageFrees_setEntry pending.aligned inside still small seen, framed, pageFrees_congr column]

end Pending

/-- What a loop still asks for. -/
theorem remaining_succ {f : Nat → List Request} (inside : j < n) :
    (List.range' j (n - j)).flatMap f = f j ++ (List.range' (j + 1) (n - (j + 1))).flatMap f := by
  obtain ⟨k, rfl⟩ := Nat.exists_eq_add_of_lt inside
  rw [show j + k + 1 - j = k + 1 by omega, show j + k + 1 - (j + 1) = k by omega, List.range'_succ,
    List.flatMap_cons]

/-- The inner loop of `paging_clone_directory` has copied the entries below `j` of the table at `t` to the one
at `y`: the others are empty there, and what it still asks for is placed at page boundaries. -/
structure PagesCopied (d y t : Nat) (rest : Multiset Nat) (s : PagingState) (l : List Segment)
    (requests : List Request) (j : Nat) (p : PagingState) (l' : List Segment) : Prop where
  pending : Pending d y rest p l'
  same : Untouched rest l l' s.mem p.mem
  rows : ∀ k < pageEntries, entry p.mem d k = entry s.mem d k
  current : p.current = s.current
  absent : ∀ k, j ≤ k → k < pageEntries → present (entry p.mem y k) = false
  bound : AtBoundaries l' ((List.range' j (pageEntries - j)).flatMap
    (fun j => if present (entry s.mem t j) then [.page] else []) ++ requests)

/-- A copy that is given up: what is in use is what was, and the pages that were lost. -/
def GivenUp (rest : Multiset Nat) (s : PagingState) (l : List Segment) (p : PagingState) : Prop :=
  ∃ l' lost, HeapInv p.heap l' ∧ inUse l' = lost + rest ∧ Untouched rest l l' s.mem p.mem ∧ p.current = s.current

/-- The entry of an absent page is cleared. -/
theorem PagesCopied.clearEntry {p : PagingState} {l' : List Segment}
    (copied : PagesCopied d y t rest s l requests j p l') (inside : j < pageEntries)
    (found : present (entry s.mem t j) = false) :
    PagesCopied d y t rest s l requests (j + 1) (p.write (setEntry p.mem y j 0)) l' := by
  have here := copied.pending
  obtain ⟨next, untouched⟩ := here.clearPage inside (copied.absent j le_rfl inside)
  refine ⟨next, copied.same.trans (untouched.mono (Multiset.le_add_right _ _)), fun k index => ?_,
    copied.current, fun k low index => ?_, ?_⟩
  · exact (here.row untouched index).trans (copied.rows k index)
  · rw [PagingState.mem_write, entry_setEntry here.aligned here.aligned inside index, if_neg (by omega)]
    exact copied.absent k (by omega) index
  · have bound := copied.bound
    rw [remaining_succ inside, found, if_neg (by decide)] at bound
    exact bound

/-- Copying bytes to a block that was just taken leaves the table that is read. -/
theorem PagesCopied.entry_source {p : PagingState} {l' l₁ : List Segment} {h : HeapState} {z q : Nat}
    (copied : PagesCopied d y t rest s l requests j p l') (member : t ∈ rest) (holds : Holds l t pageSize)
    (inside : j < pageEntries) (heap : HeapInv h l₁) (more : inUse l₁ = z ::ₘ inUse l')
    (moved : Untouched (inUse l') l' l₁ p.mem h.mem) (room : Holds l₁ z pageSize) :
    entry (h.mem.copy z q pageSize) t j = entry s.mem t j := by
  have inRest : t ∈ inUse l' :=
    Multiset.mem_of_le copied.pending.spans.rest_le (Multiset.mem_add.mpr (.inr member))
  have roomT := copied.same.holds t member _ holds
  have apart : t ≠ z := fun equal => by
    have nodup := inUse_nodup heap.tiles
    rw [more] at nodup
    exact (Multiset.nodup_cons.mp nodup).1 (equal ▸ inRest)
  obtain ⟨-, kept⟩ := @write_exact {t} l₁ _ _ pageSize z heap room (by simpa using apart.symm)
    (copy_eqOn h.mem z q pageSize)
  exact (kept.entry (Multiset.mem_singleton_self t) (moved.holds t inRest _ roomT) inside).trans
    ((moved.entry inRest roomT inside).trans (copied.same.entry member holds inside))

/-- One round of the inner loop of `paging_clone_directory`. -/
theorem PagesCopied.round {p : PagingState} {l' : List Segment} (copied : PagesCopied d y t rest s l requests j p l')
    (member : t ∈ rest) (holds : Holds l t pageSize) (inside : j < pageEntries)
    {round : Round PagingState PagingState} (body : clonePage d i t y j p = .ok round) :
    round.Ends (fun p' => ∃ l'', PagesCopied d y t rest s l requests (j + 1) p' l'') (GivenUp rest s l) := by
  have here := copied.pending
  have seen := copied.same.entry member holds inside
  unfold Paging.clonePage at body
  rw [seen] at body
  cases found : present (entry s.mem t j) with
  | false =>
      rw [found, if_neg (by decide)] at body
      cases body
      exact ⟨l', copied.clearEntry inside found⟩
  | true =>
      rw [found, if_pos rfl] at body
      obtain ⟨⟨h, z⟩, taken, last⟩ := Outcome.bind_eq_ok.mp body
      simp only at last
      rcases kmalloc_exact here.spans.heap (by decide) taken with
        ⟨rfl, rfl⟩ | ⟨l₁, placed, heap, more, room, moved⟩
      · rw [if_pos rfl] at last
        obtain ⟨h, freed, rest⟩ := Outcome.bind_eq_ok.mp last
        obtain ⟨p₁, destroyed, final⟩ := Outcome.bind_eq_ok.mp rest
        cases final
        obtain ⟨l₂, lost, next, gone, untouched, same'⟩ := here.abandon freed destroyed
        exact ⟨l₂, lost, next, gone, copied.same.trans untouched, same'.trans copied.current⟩
      · have bound := copied.bound
        rw [remaining_succ inside, found, if_pos rfl] at bound
        obtain ⟨which, later⟩ := bound.first placed
        have aligned : pageSize ∣ z := which.resolve_left (by decide)
        rw [if_neg (place_ne_null placed)] at last
        cases last
        rw [PagingState.mem_withHeap, copied.entry_source member holds inside heap more moved room]
        obtain ⟨next, untouched, row, column, -⟩ := here.copyPage heap more moved room aligned found
          inside (copied.absent j le_rfl inside) (copy_eqOn h.mem z (frame (entry h.mem t j)) pageSize)
        refine ⟨l₁, ⟨next.spans.note _ _ _, next.room, next.aligned⟩, copied.same.trans untouched,
          fun k index => ?_, copied.current, fun k low index => ?_, later⟩
        · exact (row k index).trans (copied.rows k index)
        · refine (congrArg present (column k index (by omega))).trans ?_
          exact copied.absent k (by omega) index

/-- The inner loop of `paging_clone_directory`: the table gets its pages, or is given up with the whole
copy; the pages it had by then are lost. -/
theorem clonePages_exact (pending : Pending d y rest s l) (empty : ∀ j < pageEntries, entry s.mem y j = 0)
    (member : t ∈ rest) (holds : Holds l t pageSize)
    (bound : AtBoundaries l (tableRequests s.mem t pageEntries ++ requests))
    {round : Round PagingState PagingState}
    (done : forLoop (clonePage d i t y) 0 pageEntries s = .ok round) :
    round.Ends
      (fun s' => ∃ l', Pending d y rest s' l' ∧ Untouched rest l l' s.mem s'.mem ∧
        (∀ k < pageEntries, entry s'.mem d k = entry s.mem d k) ∧ s'.current = s.current ∧
        AtBoundaries l' requests)
      (GivenUp rest s l) := by
  rw [tableRequests, List.range_eq_range'] at bound
  have start : PagesCopied d y t rest s l requests 0 s l := by
    refine ⟨pending, .refl _ _ _, fun _ _ => rfl, rfl, fun k _ index => ?_, by rwa [Nat.sub_zero]⟩
    rw [empty k index]
    decide
  have invariant := @forLoop_inv _ _ (clonePage d i t y) (fun j p => ∃ l', PagesCopied d y t rest s l requests j p l')
    (GivenUp rest s l) 0 pageEntries s ⟨l, start⟩
    (by
      rintro j p round - inside ⟨l', copied⟩ body
      rw [Nat.zero_add] at inside
      exact copied.round member holds inside body) _ done
  cases round with
  | exit p => exact invariant
  | next p =>
      obtain ⟨l', here, same, rows, current, _, bound⟩ := invariant
      rw [Nat.zero_add, Nat.sub_self, List.range'_zero, List.flatMap_nil, List.nil_append] at bound
      exact ⟨l', here, same, rows, current, bound⟩

/-- One round of the outer loop of `paging_clone_directory`. -/
theorem cloneTable_exact (spans : Spans d rest s l) (member : src ∈ rest) (holds : Holds l src pageSize)
    (tables : present (entry s.mem src i) = true →
      frame (entry s.mem src i) ∈ rest ∧ Holds l (frame (entry s.mem src i)) pageSize)
    (low : 2 ≤ i) (index : i < pageEntries)
    (absent : ∀ k, i ≤ k → k < pageEntries → present (entry s.mem d k) = false)
    (bound : AtBoundaries l (entryRequests s.mem src i ++ requests))
    {round : Round PagingState PagingState} (done : cloneTable src d i s = .ok round) :
    round.Ends
      (fun s' => ∃ l', Spans d rest s' l' ∧ Untouched rest l l' s.mem s'.mem ∧
        (∀ k, i + 1 ≤ k → k < pageEntries → present (entry s'.mem d k) = false) ∧
        s'.current = s.current ∧ AtBoundaries l' requests)
      (GivenUp rest s l) := by
  unfold Paging.cloneTable at done
  unfold entryRequests at bound
  cases here : present (entry s.mem src i) with
  | false =>
      rw [here, if_neg (by decide)] at done
      rw [here, if_neg (by simp)] at bound
      cases done
      exact ⟨l, spans, .refl _ _ _, fun k low' => absent k (by omega), rfl, bound⟩
  | true =>
      rw [here, if_pos rfl] at done
      rw [here, if_pos ⟨low, rfl⟩, List.cons_append] at bound
      obtain ⟨inRest, room⟩ := tables here
      obtain ⟨⟨s₁, y⟩, taken, last⟩ := Outcome.bind_eq_ok.mp done
      simp only at last
      rcases allocTable_exact spans.heap bound taken with
        ⟨rfl, rfl⟩ | ⟨l₁, heap, more, holdsY, aligned, nonzero, later, same, empty, current⟩
      · rw [if_pos rfl] at last
        obtain ⟨s₂, destroyed, final⟩ := Outcome.bind_eq_ok.mp last
        cases final
        obtain ⟨l₂, next, left, untouched, current⟩ := spans.destroyed destroyed
        exact ⟨l₂, 0, next, by rw [left, zero_add], untouched, current⟩
      · rw [if_neg nonzero] at last
        obtain ⟨inner, loop, final⟩ := Outcome.bind_eq_ok.mp last
        have noPages : pageFrees s₁.mem y = 0 := pageFrees_empty fun j inside => by
          rw [empty j inside]
          decide
        have pending : Pending d y rest s₁ l₁ := by
          refine ⟨?_, fun a member => ?_, aligned⟩
          · rw [noPages, Multiset.cons_zero, Multiset.singleton_add]
            exact spans.take heap more same
          · rw [noPages, Multiset.cons_zero, Multiset.mem_singleton] at member
            rw [member]
            exact holdsY.le (by decide)
        have kept := same.mono spans.rest_le
        have asked : tableRequests s₁.mem (frame (entry s.mem src i)) pageEntries =
            tableRequests s.mem (frame (entry s.mem src i)) pageEntries :=
          List.flatMap_congr fun j inside => by
            rw [kept.entry inRest room (List.mem_range.mp inside)]
        rw [← asked] at later
        have ends := clonePages_exact pending empty inRest (kept.holds _ inRest _ room) later loop
        cases inner with
        | exit s₂ =>
            cases final
            obtain ⟨l₂, lost, next, left, untouched, current'⟩ := ends
            exact ⟨l₂, lost, next, left, kept.trans untouched, current'.trans current⟩
        | next s₂ =>
            cases final
            obtain ⟨l₂, full, untouched, rows, current', bound'⟩ := ends
            have all := kept.trans untouched
            have source : entry s₂.mem src i = entry s.mem src i := all.entry member holds index
            have rows' : ∀ k < pageEntries, entry s₂.mem d k = entry s.mem d k := fun k inside =>
              (rows k inside).trans (same.entry (Multiset.mem_of_le spans.frees_le self_mem_frees)
                (spans.room d self_mem_frees) inside)
            have bounds := holdsY.bounds heap
            have small : y ||| flagBits (entry s₂.mem src i) < 2 ^ 32 := by
              refine or_lt ?_ flagBits_lt
              simp only [heapEnd, heapStart, heapSize] at bounds
              omega
            have seen : present (y ||| flagBits (entry s₂.mem src i)) = true := by
              rw [present_or, present_flagBits, source, here, Bool.or_true]
            have framed : frame (y ||| flagBits (entry s₂.mem src i)) = y := by
              rw [frame_or flagBits_lt, frame_of_dvd aligned]
            obtain ⟨linked, last⟩ := full.spans.linkTable full.room low index
              ((rows' i index).symm ▸ absent i le_rfl index) small seen framed
            refine ⟨l₂, linked, all.trans last, fun k low' inside => ?_, current'.trans current, bound'⟩
            rw [PagingState.mem_write, entry_setEntry spans.aligned spans.aligned index inside,
              if_neg (by omega), rows' k inside]
            exact absent k (by omega) inside

theorem cloneRequests_from_two (m : Memory) :
    cloneRequests m src pageEntries = (List.range' 2 (pageEntries - 2)).flatMap (entryRequests m src) := by
  have first : entryRequests m src 0 = [] := if_neg (by simp)
  have second : entryRequests m src 1 = [] := if_neg (by simp)
  rw [cloneRequests, List.range_eq_range', show pageEntries = pageEntries - 2 + 1 + 1 by decide,
    List.range'_succ, List.range'_succ, List.flatMap_cons, List.flatMap_cons, first, second,
    List.nil_append, List.nil_append]
  rfl

/-- **`paging_clone_directory`** of a directory among the blocks in use: NULL, with what was lost, or a
directory of its own. -/
theorem cloneDirectory_exact (heap : HeapInv s.heap l) (source : frees s.mem src ≤ inUse l)
    (room : ∀ a ∈ frees s.mem src, Holds l a pageSize)
    (bound : AtBoundaries l (.entries :: (cloneRequests s.mem src pageEntries ++ requests)))
    (done : pagingCloneDirectory s src = .ok (s', d)) :
    ∃ l', Untouched (inUse l) l l' s.mem s'.mem ∧ s'.current = s.current ∧
      ((d = 0 ∧ HeapInv s'.heap l' ∧ ∃ lost, inUse l' = lost + inUse l) ∨
        (d ≠ 0 ∧ Spans d (inUse l) s' l' ∧ AtBoundaries l' requests)) := by
  have bounds := (room src self_mem_frees).bounds heap
  unfold pagingCloneDirectory at done
  rw [if_neg (by omega)] at done
  obtain ⟨⟨h, dst⟩, taken, rest⟩ := Outcome.bind_eq_ok.mp done
  simp only at rest
  rcases kmallocAligned_exact heap bound taken with
    ⟨rfl, rfl⟩ | ⟨l₁, next, more, holds, aligned, nonzero, later, same⟩
  · cases rest
    exact ⟨l, .refl _ _ _, rfl, .inl ⟨rfl, heap, 0, (zero_add _).symm⟩⟩
  · rw [if_neg nonzero] at rest
    obtain ⟨outer, loop, last⟩ := Outcome.bind_eq_ok.mp rest
    generalize firstEq : entry (h.mem.fill dst 0 pageSize) src 0 = v at loop
    generalize secondEq : entry (setEntry (h.mem.fill dst 0 pageSize) dst 0 v) src 1 = w at loop
    obtain ⟨spans, untouched⟩ := @Spans.ofFresh l l₁ (s.withHeap h) dst next more holds aligned v w
    have begun := same.trans untouched
    rw [cloneRequests_from_two] at later
    have invariant := @forLoop_inv _ _ (cloneTable src dst)
      (fun i p => ∃ l', Spans dst (inUse l) p l' ∧ Untouched (inUse l) l l' s.mem p.mem ∧
        (∀ k, i ≤ k → k < pageEntries → present (entry p.mem dst k) = false) ∧ p.current = s.current ∧
        AtBoundaries l' ((List.range' i (pageEntries - i)).flatMap (entryRequests s.mem src) ++ requests))
      (GivenUp (inUse l) s l) 2 (pageEntries - 2) _
      ⟨l₁, spans, begun, fun k low index => by
        rw [PagingState.mem_write, Spans.entry_freshDirectory _ aligned low index]
        decide, rfl, later⟩
      (by
        rintro i p round low high ⟨l', here, same, absent, current, bound⟩ body
        have index : i < pageEntries := by
          simp only [pageEntries] at *
          omega
        have inUse_src : ∀ a ∈ frees s.mem src, a ∈ inUse l := fun a => Multiset.mem_of_le source
        have row : entry p.mem src i = entry s.mem src i :=
          same.entry (inUse_src src self_mem_frees) (room src self_mem_frees) index
        have tables : present (entry s.mem src i) = true → frame (entry s.mem src i) ∈ frees s.mem src :=
          fun found => mem_frees_of_table low index (table_mem_tableFrees found)
        have asked : entryRequests p.mem src i = entryRequests s.mem src i := by
          unfold entryRequests
          rw [row]
          split
          · rename_i found
            refine congrArg _ (List.flatMap_congr fun j inside => ?_)
            have table := tables found.2
            rw [same.entry (inUse_src _ table) (room _ table) (List.mem_range.mp inside)]
          · rfl
        rw [remaining_succ index, List.append_assoc, ← asked] at bound
        have step := cloneTable_exact here (inUse_src src self_mem_frees)
          (same.holds _ (inUse_src src self_mem_frees) _ (room src self_mem_frees)) (fun found => by
            rw [row] at found ⊢
            have table := tables found
            exact ⟨inUse_src _ table, same.holds _ (inUse_src _ table) _ (room _ table)⟩) low index absent
          bound body
        cases round with
        | next p' =>
            obtain ⟨l'', next, untouched, absent', current', bound'⟩ := step
            exact ⟨l'', next, same.trans untouched, absent', current'.trans current, bound'⟩
        | exit p' =>
            obtain ⟨l'', lost, next, left, untouched, current'⟩ := step
            exact ⟨l'', lost, next, left, same.trans untouched, current'.trans current⟩) _ loop
    cases outer with
    | next s₁ =>
        cases last
        obtain ⟨l₂, copied, untouched, _, current, bound'⟩ := invariant
        rw [show 2 + (pageEntries - 2) = pageEntries by decide, Nat.sub_self, List.range'_zero,
          List.flatMap_nil, List.nil_append] at bound'
        exact ⟨l₂, untouched, current, .inr ⟨nonzero, copied, bound'⟩⟩
    | exit s₁ =>
        cases last
        obtain ⟨l₂, lost, next, left, untouched, current⟩ := invariant
        exact ⟨l₂, untouched, current, .inl ⟨rfl, next, lost, left⟩⟩

end Clone

end Kfs.Paging
