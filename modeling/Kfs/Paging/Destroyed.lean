/-
**Destroying a directory whose blocks are known.**

From a state that spans a directory `paging_destroy_directory` returns, frees nothing but blocks in use,
each once, and leaves the rest (`Spans.destroyDirectory`). The first part runs the function with any way of
freeing a block, so that the same loops can be run with `kfreeLive`, which refuses every address but that
of a block in use.
-/

import Kfs.Paging.Exact

namespace Kfs.Paging

open Kfs.Heap Memory

/-! ### Any way of freeing -/

/-- `destroyPage`, given what frees a block. -/
def destroyPageBy (free : HeapState → Nat → Outcome HeapState) (table j : Nat) (s : PagingState) :
    Outcome (Round PagingState PagingState) :=
  if present (entry s.mem table j) then do
    let h ← free s.heap (frame (entry s.mem table j))
    return .next (s.withHeap h)
  else .ok (.next s)

/-- `destroyTable`, given what frees a block. -/
def destroyTableBy (free : HeapState → Nat → Outcome HeapState) (dir i : Nat) (s : PagingState) :
    Outcome (Round PagingState PagingState) :=
  if present (entry s.mem dir i) then do
    let table := frame (entry s.mem dir i)
    match ← forLoop (destroyPageBy free table) 0 pageEntries s with
    | .exit s => return .exit s
    | .next s => do
        let h ← free s.heap table
        return .next (s.withHeap h)
  else .ok (.next s)

/-- `paging_destroy_directory`, given what frees a block. -/
def destroyDirectoryBy (free : HeapState → Nat → Outcome HeapState) (s : PagingState) (dir : Nat) :
    Outcome PagingState :=
  if dir = 0 then .ok s
  else do
    match ← forLoop (destroyTableBy free dir) 2 (pageEntries - 2) s with
    | .exit s => return s
    | .next s => do
        let h ← free s.heap dir
        return s.withHeap h

theorem destroyDirectoryBy_kfree : destroyDirectoryBy kfree = pagingDestroyDirectory := rfl

section Refine

variable {free free' : HeapState → Nat → Outcome HeapState} {s s' : PagingState} {d i t : Nat}
  {round : Round PagingState PagingState}

/-! What returns when less may be freed returns the same when more may. -/

theorem destroyPageBy_mono (more : ∀ h a h', free h a = .ok h' → free' h a = .ok h')
    (done : destroyPageBy free t i s = .ok round) : destroyPageBy free' t i s = .ok round := by
  unfold destroyPageBy at done ⊢
  split at done
  · rename_i here
    obtain ⟨h, freed, rest⟩ := Outcome.bind_eq_ok.mp done
    rw [if_pos here, more _ _ _ freed]
    exact rest
  · rename_i absent
    rwa [if_neg absent]

theorem destroyTableBy_mono (more : ∀ h a h', free h a = .ok h' → free' h a = .ok h')
    (done : destroyTableBy free d i s = .ok round) : destroyTableBy free' d i s = .ok round := by
  unfold destroyTableBy at done ⊢
  split at done
  · rename_i here
    obtain ⟨inner, loop, rest⟩ := Outcome.bind_eq_ok.mp done
    rw [if_pos here]
    simp only
    rw [forLoop_mono (fun _ _ _ => destroyPageBy_mono more) loop, Outcome.ok_bind]
    cases inner with
    | exit value => exact rest
    | next s₁ =>
        obtain ⟨h, freed, last⟩ := Outcome.bind_eq_ok.mp rest
        simp only
        rw [more _ _ _ freed]
        exact last
  · rename_i absent
    rwa [if_neg absent]

theorem destroyDirectoryBy_mono (more : ∀ h a h', free h a = .ok h' → free' h a = .ok h')
    (done : destroyDirectoryBy free s d = .ok s') : destroyDirectoryBy free' s d = .ok s' := by
  unfold destroyDirectoryBy at done ⊢
  split at done
  · rename_i zero
    rwa [if_pos zero]
  · rename_i nonzero
    obtain ⟨outer, loop, rest⟩ := Outcome.bind_eq_ok.mp done
    rw [if_neg nonzero, forLoop_mono (fun _ _ _ => destroyTableBy_mono more) loop, Outcome.ok_bind]
    cases outer with
    | exit value => exact rest
    | next s₁ =>
        obtain ⟨h, freed, last⟩ := Outcome.bind_eq_ok.mp rest
        simp only
        rw [more _ _ _ freed]
        exact last

end Refine

/-! ### Blocks in use only -/

section Destroy

variable {rest : Multiset Nat} {l : List Segment} {s : PagingState} {d i t : Nat}

/-- The block of an address is given back. -/
theorem giveBack (heap : HeapInv s.heap l) (balance : inUse l = t ::ₘ rest) :
    ∃ h l', kfreeLive s.heap t = .ok h ∧ HeapInv h l' ∧ inUse l' = rest ∧
      Untouched rest l l' s.mem h.mem := by
  obtain ⟨h, l', freed, next, fewer, same⟩ := kfree_exact heap (a := t) (by
    rw [balance]
    exact Multiset.mem_cons_self t rest)
  have left : inUse l' = rest := (Multiset.cons_inj_right t).mp (fewer.symm.trans balance)
  exact ⟨h, l', freed, next, left, left ▸ same⟩

/-- The inner loop of `paging_destroy_directory` frees the pages of a table. -/
theorem destroyPages_exact (heap : HeapInv s.heap l) (balance : inUse l = rest + pageFrees s.mem t)
    (member : t ∈ rest) (holds : Holds l t pageSize) :
    ∃ s' l', forLoop (destroyPageBy kfreeLive t) 0 pageEntries s = .ok (.next s') ∧ HeapInv s'.heap l' ∧
      inUse l' = rest ∧ Untouched rest l l' s.mem s'.mem ∧ s'.current = s.current := by
  rw [pageFrees_eq] at balance
  obtain ⟨s', loop, l', next, left, same, current⟩ := @forLoop_next _ _ (destroyPageBy kfreeLive t)
    (fun j p => ∃ l', HeapInv p.heap l' ∧
      inUse l' = rest + ∑ i ∈ Finset.Ico j pageEntries, pageFree s.mem t i ∧
      Untouched rest l l' s.mem p.mem ∧ p.current = s.current) 0 pageEntries s
    ⟨l, heap, balance, .refl _ _ _, rfl⟩ (by
      rintro j p - inside ⟨l', here, left, same, current⟩
      rw [Nat.zero_add] at inside
      rw [Finset.sum_eq_sum_Ico_succ_bot inside, pageFree] at left
      have seen := same.entry member holds inside
      unfold destroyPageBy
      rw [seen]
      split
      · rename_i found
        rw [if_pos found, Multiset.singleton_add, Multiset.add_cons] at left
        obtain ⟨h, l'', freed, next, less, untouched⟩ := giveBack here left
        rw [freed, Outcome.ok_bind]
        exact ⟨_, rfl, l'', next, less, same.trans (untouched.mono (Multiset.le_add_right _ _)), current⟩
      · rename_i absent
        rw [if_neg absent, zero_add] at left
        exact ⟨p, rfl, l', here, left, same, current⟩)
  rw [Nat.zero_add, Finset.Ico_self, Finset.sum_empty, add_zero] at left
  exact ⟨s', l', loop, next, left, same, current⟩

/-- One round of the outer loop frees a table and its pages. -/
theorem destroyTable_exact (heap : HeapInv s.heap l) (balance : inUse l = rest + tableFrees s.mem d i)
    (room : ∀ a ∈ tableFrees s.mem d i, Holds l a pageSize) :
    ∃ s' l', destroyTableBy kfreeLive d i s = .ok (.next s') ∧ HeapInv s'.heap l' ∧ inUse l' = rest ∧
      Untouched rest l l' s.mem s'.mem ∧ s'.current = s.current := by
  unfold destroyTableBy
  cases here : present (entry s.mem d i) with
  | false =>
      rw [tableFrees, here, if_neg (by decide), add_zero] at balance
      exact ⟨s, l, rfl, heap, balance, .refl _ _ _, rfl⟩
  | true =>
      have holds := room _ (table_mem_tableFrees here)
      rw [tableFrees, here, if_pos rfl, Multiset.add_cons, ← Multiset.cons_add] at balance
      obtain ⟨s₁, l₁, loop, next, left, same, current⟩ := destroyPages_exact heap balance
        (Multiset.mem_cons_self _ _) holds
      obtain ⟨h, l₂, freed, last, less, untouched⟩ := giveBack next left
      rw [if_pos rfl]
      simp only
      rw [loop, Outcome.ok_bind]
      simp only
      rw [freed]
      exact ⟨_, l₂, rfl, last, less, (same.mono (Multiset.le_cons_self _ _)).trans untouched, current⟩

/-- **`paging_destroy_directory`** returns, frees nothing but blocks in use, and leaves the rest. -/
theorem Spans.destroyDirectory (spans : Spans d rest s l) :
    ∃ s' l', destroyDirectoryBy kfreeLive s d = .ok s' ∧ HeapInv s'.heap l' ∧ inUse l' = rest ∧
      Untouched rest l l' s.mem s'.mem ∧ s'.current = s.current := by
  have balance := spans.balance
  rw [frees, Multiset.add_cons, ← Multiset.cons_add] at balance
  obtain ⟨s₁, loop, l₁, next, left, same, current⟩ := @forLoop_next _ _ (destroyTableBy kfreeLive d)
    (fun i p => ∃ l', HeapInv p.heap l' ∧
      inUse l' = (d ::ₘ rest) + ∑ k ∈ Finset.Ico i pageEntries, tableFrees s.mem d k ∧
      Untouched (inUse l') l l' s.mem p.mem ∧ p.current = s.current) 2 (pageEntries - 2) s
    ⟨l, spans.heap, balance, .refl _ _ _, rfl⟩ (by
      rintro i p low high ⟨l', here, left, same, current⟩
      have index : i < pageEntries := by
        simp only [pageEntries] at *
        omega
      rw [Finset.sum_eq_sum_Ico_succ_bot index, add_left_comm, add_comm] at left
      have inside : ∀ a ∈ tableFrees s.mem d i, a ∈ inUse l' ∧ Holds l a pageSize := by
        intro a member
        refine ⟨?_, spans.room a (mem_frees_of_table low index member)⟩
        rw [left]
        exact Multiset.mem_add.mpr (.inr member)
      have mine : d ∈ inUse l' := by
        rw [left]
        exact Multiset.mem_add.mpr (.inl (Multiset.mem_add.mpr (.inl (Multiset.mem_cons_self d rest))))
      have equal : tableFrees p.mem d i = tableFrees s.mem d i := by
        refine tableFrees_congr (same.entry mine (spans.room d self_mem_frees) index) fun found => ?_
        obtain ⟨member, holds⟩ := inside _ (table_mem_tableFrees found)
        exact fun j index' => same.entry member holds index'
      rw [← equal] at left inside
      obtain ⟨p', l'', body, next, less, untouched, current'⟩ := destroyTable_exact here left
        fun a member => same.holds a (inside a member).1 _ (inside a member).2
      refine ⟨p', body, l'', next, less, ?_, current'.trans current⟩
      refine (same.mono ?_).trans (less ▸ untouched)
      rw [left, less]
      exact Multiset.le_add_right _ _)
  rw [show 2 + (pageEntries - 2) = pageEntries by decide, Finset.Ico_self, Finset.sum_empty, add_zero]
    at left
  obtain ⟨h, l₂, freed, last, less, untouched⟩ := giveBack next left
  unfold destroyDirectoryBy
  rw [if_neg spans.directory_ne_zero, loop, Outcome.ok_bind]
  simp only
  rw [freed]
  refine ⟨_, l₂, rfl, last, less, (same.mono ?_).trans untouched, current⟩
  rw [left]
  exact Multiset.le_cons_self _ _

/-- The same, for whoever called it. -/
theorem Spans.destroyed {s' : PagingState} (spans : Spans d rest s l)
    (done : pagingDestroyDirectory s d = .ok s') :
    ∃ l', HeapInv s'.heap l' ∧ inUse l' = rest ∧ Untouched rest l l' s.mem s'.mem ∧
      s'.current = s.current := by
  obtain ⟨s₁, l', returns, found⟩ := spans.destroyDirectory
  have returns' : pagingDestroyDirectory s d = .ok s₁ :=
    destroyDirectoryBy_mono (fun _ _ _ => kfree_of_kfreeLive) returns
  cases returns'.symm.trans done
  exact ⟨l', found⟩

theorem gaveBack {h : HeapState} (heap : HeapInv s.heap l) (balance : inUse l = t ::ₘ rest)
    (done : kfree s.heap t = .ok h) :
    ∃ l', HeapInv h l' ∧ inUse l' = rest ∧ Untouched rest l l' s.mem h.mem := by
  obtain ⟨h₁, l', freed, found⟩ := giveBack heap balance
  cases (kfree_of_kfreeLive freed).symm.trans done
  exact ⟨l', found⟩

end Destroy

end Kfs.Paging
