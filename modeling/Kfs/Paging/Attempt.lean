/-
**What `paging_clone_directory` does, whatever the heap gives.**

A clone asks for its blocks one after the other. Up to the first request that first fit cannot serve, the
source is copied entry by entry (`Filling`, `Copying`). Then the call returns, or gives the copy up:
it frees the table it was filling, if any, and destroys the directory. What is given up is known exactly
when all blocks start at page boundaries: the pages of the table that was not linked yet are lost.
-/

import Kfs.Heap.Restore
import Kfs.Paging.Copied
import Kfs.Paging.Replica

namespace Kfs.Paging

open Kfs.Heap Memory

/-! ### Requests that are served -/

section Requests

variable {l l' : List Segment} {requests more : List Request} {given : List Nat}

theorem Serves.keeps (serves : Serves l requests l' given) : Keeps l l' := by
  induction requests generalizing l given with
  | nil =>
      obtain ⟨rfl, -⟩ := serves
      exact .refl _
  | cons r requests ih =>
      obtain ⟨ptr, l₁, later, placed, rest, -⟩ := serves
      exact (Keeps.place placed).trans (ih rest)

theorem Serves.inUse_le (serves : Serves l requests l' given) : inUse l ≤ inUse l' := by
  induction requests generalizing l given with
  | nil =>
      obtain ⟨rfl, -⟩ := serves
      exact le_rfl
  | cons r requests ih =>
      obtain ⟨ptr, l₁, later, placed, rest, -⟩ := serves
      refine le_trans ?_ (ih rest)
      rw [inUse_place placed]
      exact Multiset.le_cons_self _ _

theorem Serves.spaced (serves : Serves l requests l' given) (spaced : Spaced l) : Spaced l' := by
  induction requests generalizing l given with
  | nil =>
      obtain ⟨rfl, -⟩ := serves
      exact spaced
  | cons r requests ih =>
      obtain ⟨ptr, l₁, later, placed, rest, -⟩ := serves
      exact ih rest (spaced.place (by cases r <;> decide) placed)

theorem Holds.keeps {x n : Nat} (holds : Holds l x n) (keeps : Keeps l l') : Holds l' x n := by
  obtain ⟨b, member, used, here, room⟩ := holds
  exact ⟨b, keeps b used member, used, here, room⟩

/-- **What requests that are served take**: the pages given, and a block for every other request. -/
theorem Serves.takes (serves : Serves l requests l' given) : ∃ others : Multiset Nat,
    inUse l' = ↑given + others + inUse l ∧ others.card = (requests.filter (· ≠ .page)).length := by
  induction requests generalizing l given with
  | nil =>
      obtain ⟨rfl, rfl⟩ := serves
      exact ⟨0, by simp, rfl⟩
  | cons r requests ih =>
      obtain ⟨ptr, l₁, later, placed, rest, rfl⟩ := serves
      obtain ⟨others, all, count⟩ := ih rest
      rw [inUse_place placed] at all
      by_cases page : r = .page
      · refine ⟨others, ?_, ?_⟩
        · rw [if_pos page, all, ← Multiset.cons_coe, Multiset.cons_add, Multiset.cons_add,
            Multiset.add_cons]
        · rw [count, page]
          rfl
      · refine ⟨ptr ::ₘ others, ?_, ?_⟩
        · rw [if_neg page, all, Multiset.add_cons, Multiset.add_cons, Multiset.cons_add]
        · rw [Multiset.card_cons, count, List.filter_cons_of_pos (by simpa using page),
            List.length_cons]

/-- There is a page given for every page asked for. -/
theorem Serves.length (serves : Serves l requests l' given) :
    given.length = requests.countP (· = .page) := by
  induction requests generalizing l given with
  | nil =>
      obtain ⟨-, rfl⟩ := serves
      rfl
  | cons r requests ih =>
      obtain ⟨ptr, l₁, later, placed, rest, rfl⟩ := serves
      rw [List.countP_cons, ← ih rest]
      by_cases page : r = .page
      · simp [page]
      · simp [page]

/-- The pages given are new. -/
theorem Serves.fresh {x : Nat} (serves : Serves l requests l' given) (nodup : (inUse l').Nodup) (member : x ∈ given) :
    x ∉ inUse l := by
  obtain ⟨others, all, -⟩ := serves.takes
  rw [all, Multiset.nodup_add] at nodup
  intro old
  exact Multiset.disjoint_left.mp nodup.2.2 (Multiset.mem_add.mpr (.inl (by simpa using member))) old

/-- Requests one after the other. -/
theorem AtBoundaries.append (serves : Serves l requests l' given) :
    AtBoundaries l (requests ++ more) ↔ AtBoundaries l requests ∧ AtBoundaries l' more := by
  induction requests generalizing l given with
  | nil =>
      obtain ⟨rfl, -⟩ := serves
      rw [List.nil_append, AtBoundaries]
      exact (true_and _).symm.to_iff
  | cons r requests ih =>
      obtain ⟨ptr, l₁, later, placed, rest, -⟩ := serves
      rw [List.cons_append, AtBoundaries, AtBoundaries, placed]
      simp only
      rw [ih rest, and_assoc]

/-- Some block that is not at a page boundary is in use. -/
theorem Serves.astray (serves : Serves l requests l' given) (nodup : (inUse l').Nodup)
    (outside : ¬ AtBoundaries l requests) : ∃ x ∈ inUse l', x ∉ inUse l ∧ ¬ pageSize ∣ x := by
  induction requests generalizing l given with
  | nil =>
      rw [AtBoundaries] at outside
      exact absurd trivial outside
  | cons r requests ih =>
      obtain ⟨ptr, l₁, later, placed, rest, -⟩ := serves
      rw [AtBoundaries, placed] at outside
      simp only at outside
      have grows := inUse_place placed
      by_cases here : r = .stack ∨ pageSize ∣ ptr
      · obtain ⟨x, member, fresh, crooked⟩ := ih rest fun later => outside ⟨here, later⟩
        refine ⟨x, member, fun old => fresh ?_, crooked⟩
        rw [grows]
        exact Multiset.mem_cons_of_mem old
      · have first : ptr ∈ inUse l₁ := by
          rw [grows]
          exact Multiset.mem_cons_self _ _
        refine ⟨ptr, Multiset.mem_of_le rest.inUse_le first, ?_, fun whole => here (.inr whole)⟩
        have unique := Multiset.nodup_of_le rest.inUse_le nodup
        rw [grows] at unique
        exact (Multiset.nodup_cons.mp unique).1

theorem enough_cons {r : Request} {ptr : Nat} (placed : place r.size l = some (ptr, l')) :
    Enough l (r :: requests) ↔ Enough l' requests := by
  constructor
  · rintro ⟨last, all, ptr', l₁, later, placed', rest, -⟩
    cases placed.symm.trans placed'
    exact ⟨last, later, rest⟩
  · rintro ⟨last, later, rest⟩
    exact ⟨last, _, ptr, l', later, placed, rest, rfl⟩

instance decidableEnough : (l : List Segment) → (requests : List Request) → Decidable (Enough l requests)
  | l, [] => .isTrue ⟨l, [], Serves.nil⟩
  | l, r :: rest =>
      match found : place r.size l with
      | none => .isFalse (by
          rintro ⟨_, _, _, _, _, placed, _⟩
          cases found.symm.trans placed)
      | some (_, l') =>
          have := decidableEnough l' rest
          decidable_of_iff (Enough l' rest) (enough_cons found).symm

end Requests

/-! ### The inner loop -/

/-- Giving up while a table is filled: the table is freed, and the directory destroyed. -/
def giveUp (s : PagingState) (table dir : Nat) : Outcome PagingState := do
  let h ← kfree s.heap table
  pagingDestroyDirectory (s.withHeap h) dir

/-- **A table being filled**, in the block `y`, since the list was `begun`, after some earlier requests: the
entries of `t` below `j` are copied. Where all blocks start at page boundaries, the pages of the table are
those given. -/
structure Filling (l₀ : List Segment) (m₀ : Memory) (x y t : Nat) (rest : Multiset Nat)
    (begun : List Segment) (before : Memory) (earlier : List Request) (j : Nat) (s : PagingState)
    (l : List Segment) (requests : List Request) (given : List Nat) : Prop where
  since : Since l₀ m₀ (earlier ++ requests) s l
  spares : Spares {y} begun l before s.mem
  copied : TableCopied l₀ m₀ earlier {x, y} l s.mem t y j given
  asked : tableRequests m₀ t j = requests
  served : Serves begun requests l given
  pending : AtBoundaries l₀ earlier → AtBoundaries begun requests → Pending (home x) (home y) rest s l ∧
    pageFrees s.mem (home y) = given ∧
    ∀ k, j ≤ k → k < pageEntries → present (entry s.mem (home y) k) = false

section Inner

variable {rest : Multiset Nat} {l l' l₀ begun : List Segment} {m₀ before : Memory}
  {s s' : PagingState} {h : HeapState} {asked earlier requests : List Request} {given : List Nat}
  {a d i j n p t x y : Nat}

/-- **One round of the inner loop.** -/
theorem clonePage_outcome (since : Since l₀ m₀ asked s l) (source : Sheltered l₀ t) (inside : j < pageEntries) :
    (present (entry m₀ t j) = false ∧
        clonePage d i t a j s = .ok (.next (s.write (setEntry s.mem a j 0)))) ∨
      (present (entry m₀ t j) = true ∧ place pageSize l = none ∧
        clonePage d i t a j s = (giveUp s a d).leaves) ∨
      (present (entry m₀ t j) = true ∧ ∃ h p l', kmalloc s.heap pageSize = .ok (h, p) ∧
        place pageSize l = some (p, l') ∧
        clonePage d i t a j s = .ok (.next (((s.withHeap h).write
          (setEntry (h.mem.copy p (frame (entry m₀ t j)) pageSize) a j
            (p ||| flagBits (entry m₀ t j)))).note d (pageEntries * i + j) p))) := by
  unfold Paging.clonePage
  rw [since.entry source inside]
  cases here : present (entry m₀ t j) with
  | false => exact .inl ⟨rfl, if_neg (by decide)⟩
  | true =>
      rw [if_pos rfl]
      cases placed : place pageSize l with
      | none =>
          refine .inr (.inl ⟨rfl, rfl, ?_⟩)
          rw [kmalloc_place_none since.heap placed, Outcome.ok_bind]
          simp only
          rw [if_pos trivial, giveUp]
          show (do
            let h ← kfree s.heap a
            let s ← pagingDestroyDirectory (s.withHeap h) d
            pure (Round.exit s)) = _
          cases kfree s.heap a with
          | ok h => rfl
          | panic message => rfl
          | diverge => rfl
      | some found =>
          obtain ⟨p, l'⟩ := found
          obtain ⟨h, taken, -⟩ := kmalloc_place since.heap (by decide) (by decide) placed
          refine .inr (.inr ⟨rfl, h, p, l', taken, rfl, ?_⟩)
          rcases since.take .page taken with ⟨rfl, -⟩ | ⟨l₁, -, next, -, page, filled, -⟩
          · exact absurd rfl (place_ne_null placed)
          · obtain ⟨copying, -⟩ := next.write page le_rfl le_rfl filled
              (copy_eqOn h.mem p (frame (entry m₀ t j)) pageSize)
            have read : entry h.mem t j = entry m₀ t j := next.entry source inside
            have reread : entry (h.mem.copy p (frame (entry m₀ t j)) pageSize) t j = entry m₀ t j :=
              copying.entry source inside
            rw [taken, Outcome.ok_bind]
            simp only
            rw [if_neg (place_ne_null placed)]
            simp only [PagingState.mem_withHeap, read, reread]
            rfl

namespace Filling

/-- An entry that is not present. -/
theorem skip (filling : Filling l₀ m₀ x y t rest begun before earlier j s l requests given)
    (filled : Filled l₀ earlier (home y)) (held : Holds begun y (2 * pageSize))
    (inside : j < pageEntries) (absent : present (entry m₀ t j) = false) :
    Filling l₀ m₀ x y t rest begun before earlier (j + 1) (s.write (setEntry s.mem (home y) j 0)) l
      requests given := by
  obtain ⟨next, spares⟩ := filling.since.setEntry (filling.spares.holds y _ held) filled.append inside 0
  have column : ∀ k < pageEntries, entry (setEntry s.mem (home y) j 0) (home y) k =
      if k = j then 0 else entry s.mem (home y) k := by
    intro k index
    rw [entry_setEntry dvd_home dvd_home inside index]
    simp only [true_and, Nat.zero_mod]
  refine ⟨next, filling.spares.trans spares, ?_, ?_, filling.served, fun all bound => ?_⟩
  · rw [← List.append_nil given]
    refine filling.copied.succ spares (fun k below => ?_) (fun _ => ⟨?_, rfl⟩)
      (fun found => by rw [absent] at found; cases found)
    · exact (column k (by omega)).trans (if_neg (by omega))
    · exact (congrArg present ((column j inside).trans (if_pos rfl))).trans (by decide)
  · rw [tableRequests_succ, absent, if_neg (by decide), List.append_nil]
    exact filling.asked
  · obtain ⟨pending, pages, later⟩ := filling.pending all bound
    refine ⟨(pending.clearPage inside (later j le_rfl inside)).1,
      (pageFrees_clear dvd_home inside (later j le_rfl inside)).trans pages, fun k low index => ?_⟩
    exact (congrArg present ((column k index).trans (if_neg (by omega)))).trans (later k (by omega) index)

/-- A page. -/
theorem fill (filling : Filling l₀ m₀ x y t rest begun before earlier j s l requests given)
    (filled : Filled l₀ earlier (home y)) (held : Holds begun y (2 * pageSize))
    (directory : Holds begun x (2 * pageSize)) (inside : j < pageEntries)
    (here : present (entry m₀ t j) = true) (taken : kmalloc s.heap pageSize = .ok (h, p))
    (placed : place pageSize l = some (p, l')) :
    Filling l₀ m₀ x y t rest begun before earlier (j + 1)
      (((s.withHeap h).write (setEntry (h.mem.copy p (frame (entry m₀ t j)) pageSize) (home y) j
        (p ||| flagBits (entry m₀ t j)))).note d n p) l' (requests ++ [.page]) (given ++ [p]) := by
  have heldY := filling.spares.holds y _ held
  rcases filling.since.take .page taken with
    ⟨rfl, -⟩ | ⟨l₁, placed', next, spares, page, filledPage, absent⟩
  · exact absurd rfl (place_ne_null placed)
  cases placed.symm.trans placed'
  replace page : Holds l' p pageSize := page
  have row : earlier ++ requests ++ [.page] = earlier ++ tableRequests m₀ t (j + 1) := by
    rw [tableRequests_succ, here, if_pos rfl, filling.asked, List.append_assoc]
  have bounds := page.bounds next.heap
  have otherTable : p ≠ y := fun same => absent _ (same ▸ heldY)
  have otherDirectory : p ≠ x := fun same => absent _ (same ▸ filling.spares.holds x _ directory)
  -- the page is copied, then its entry is set
  have copied := copy_eqOn h.mem p (frame (entry m₀ t j)) pageSize
  obtain ⟨copying, spares₁⟩ := next.write page le_rfl le_rfl filledPage copied
  obtain ⟨last, spares₂⟩ := copying.setEntry (spares.holds y _ heldY) filled.append.append inside
    (p ||| flagBits (entry m₀ t j))
  have kept : Spares ∅ l l' s.mem (h.mem.copy p (frame (entry m₀ t j)) pageSize) :=
    ((spares.mono (Set.empty_subset _)).trans spares₁).drop absent
  have all := (kept.mono (Set.empty_subset {y})).trans spares₂
  have bound : p ||| flagBits (entry m₀ t j) < 2 ^ 32 := by
    refine or_lt ?_ flagBits_lt
    simp only [heapEnd, heapStart, heapSize] at bounds
    omega
  rw [List.append_assoc] at last
  refine ⟨⟨last.heap, last.served, last.shrinks, last.within, last.same⟩, filling.spares.trans all,
    filling.copied.succ all (fun k below => ?_) (fun missing => by rw [here] at missing; cases missing)
      fun _ => ⟨p, rfl, ?_, page, row ▸ filledPage, by simp [otherTable, otherDirectory], ?_⟩, ?_,
    filling.served.append (Serves.page placed), fun clear' bound' => ?_⟩
  · rw [PagingState.mem_note, PagingState.mem_write, entry_setEntry dvd_home dvd_home inside (by omega),
      if_neg (by omega)]
    exact kept.entry filling.since.heap heldY (Set.notMem_empty y) (by omega)
  · rw [PagingState.mem_note, PagingState.mem_write, entry_setEntry dvd_home dvd_home inside inside,
      if_pos ⟨rfl, rfl⟩, Nat.mod_eq_of_lt bound]
  · intro unwritten k low
    rw [← row] at unwritten
    refine (spares₂.same p _ page (by simpa using otherTable) ⟨by omega, by omega⟩).trans ?_
    show h.mem.copy p (frame (entry m₀ t j)) pageSize (p + k) = _
    refine (writeBytes_inside _ _ _ _ low).trans ?_
    exact next.same (Set.disjoint_left.mp unwritten ⟨by omega, by omega⟩)
  · rw [tableRequests_succ, here, if_pos rfl, filling.asked]
  · obtain ⟨before, which⟩ := (AtBoundaries.append filling.served).mp bound'
    have aligned : pageSize ∣ p := (which.first placed).1.resolve_left (by decide)
    obtain ⟨pending, pages, later⟩ := filling.pending clear' before
    rcases kmalloc_exact filling.since.heap (by decide) taken with
      ⟨rfl, -⟩ | ⟨l₂, placed₂, -, more, -, moved⟩
    · exact absurd rfl (place_ne_null placed)
    cases placed.symm.trans placed₂
    obtain ⟨pending', -, -, column, added⟩ := pending.copyPage next.heap more moved page aligned here
      inside (later j le_rfl inside) copied
    refine ⟨⟨pending'.spans.note _ _ _, pending'.room, pending'.aligned⟩, ?_, fun k low index => ?_⟩
    · refine added.trans ?_
      rw [pages, Multiset.cons_coe, Multiset.coe_eq_coe]
      exact (List.perm_append_singleton p given).symm
    · exact (congrArg present (column k index (by omega))).trans (later k (by omega) index)

end Filling

/-- **The inner loop**: the table is filled, or given up at the first page that cannot be had. -/
theorem clonePages_outcome (source : Sheltered l₀ t) (filled : Filled l₀ earlier (home y))
    (held : Holds begun y (2 * pageSize)) (directory : Holds begun x (2 * pageSize))
    (filling : Filling l₀ m₀ x y t rest begun before earlier 0 s begun [] []) :
    (∃ s' l' requests given,
      forLoop (clonePage (home x) i t (home y)) 0 pageEntries s = .ok (.next s') ∧
      Filling l₀ m₀ x y t rest begun before earlier pageEntries s' l' requests given) ∨
    ∃ j s₁ l₁ requests given, j < pageEntries ∧ present (entry m₀ t j) = true ∧
      place pageSize l₁ = none ∧
      Filling l₀ m₀ x y t rest begun before earlier j s₁ l₁ requests given ∧
      forLoop (clonePage (home x) i t (home y)) 0 pageEntries s =
        (giveUp s₁ (home y) (home x)).leaves := by
  have loop := @forLoop_leaves _ _ (clonePage (home x) i t (home y))
    (fun j p => ∃ l' requests given,
      Filling l₀ m₀ x y t rest begun before earlier j p l' requests given)
    (fun j last => ∃ s₁ l₁ requests given, present (entry m₀ t j) = true ∧ place pageSize l₁ = none ∧
      Filling l₀ m₀ x y t rest begun before earlier j s₁ l₁ requests given ∧
      last = giveUp s₁ (home y) (home x))
    0 pageEntries s ⟨begun, [], [], filling⟩
    (by
      rintro j p - inside ⟨l', requests, given, here⟩
      rw [Nat.zero_add] at inside
      rcases clonePage_outcome here.since source inside with
        ⟨absent, body⟩ | ⟨found, full, body⟩ | ⟨found, h, p', l'', taken, placed, body⟩
      · exact .inl ⟨_, body, l', requests, given, here.skip filled held inside absent⟩
      · exact .inr ⟨_, body, p, l', requests, given, found, full, here, rfl⟩
      · exact .inl ⟨_, body, l'', _, _, here.fill filled held directory inside found taken placed⟩)
  rcases loop with ⟨s', done, l', requests, given, last⟩ |
    ⟨j, last, -, inside, done, s₁, l₁, requests, given, found, full, here, rfl⟩
  · rw [Nat.zero_add] at last
    exact .inl ⟨s', l', requests, given, done, last⟩
  · rw [Nat.zero_add] at inside
    exact .inr ⟨j, s₁, l₁, requests, given, inside, found, full, here, done⟩

end Inner

/-! ### The outer loop -/

/-- **A directory being copied**: its entries below `i` are. Where all blocks start at page boundaries, the
blocks in use are those the copy leads to, and the ones in use before. -/
structure Copying (l₀ : List Segment) (m₀ : Memory) (x src i : Nat) (s : PagingState)
    (l : List Segment) (given : List Nat) : Prop where
  since : Since l₀ m₀ (.entries :: cloneRequests m₀ src i) s l
  held : Holds l x (2 * pageSize)
  copied : RowsCopied l₀ m₀ x l s.mem src (home x) i given
  served : Serves l₀ (.entries :: cloneRequests m₀ src i) l given
  spans : AtBoundaries l₀ (.entries :: cloneRequests m₀ src i) → Spans (home x) (inUse l₀) s l

/-- **How a copy is given up** at the entry `i`: for want of a table, or of a page. -/
inductive Stops (l₀ : List Segment) (m₀ : Memory) (x src i : Nat) : Outcome PagingState → Prop
  | table {s : PagingState} {l : List Segment} {given : List Nat}
      (copying : Copying l₀ m₀ x src i s l given) (here : present (entry m₀ src i) = true)
      (full : place (2 * pageSize) l = none) : Stops l₀ m₀ x src i (pagingDestroyDirectory s (home x))
  | page {s : PagingState} {l l₁ l₂ : List Segment} {before : Memory} {given ps : List Nat}
      {requests : List Request} {j y : Nat}
      (served : Serves l₀ (.entries :: cloneRequests m₀ src i) l given)
      (here : present (entry m₀ src i) = true) (placed : place (2 * pageSize) l = some (y, l₁))
      (filling : Filling l₀ m₀ x y (frame (entry m₀ src i)) (inUse l₀) l₁ before
        (.entries :: cloneRequests m₀ src i ++ [.entries]) j s l₂ requests ps)
      (inside : j < pageEntries) (found : present (entry m₀ (frame (entry m₀ src i)) j) = true)
      (full : place pageSize l₂ = none) : Stops l₀ m₀ x src i (giveUp s (home y) (home x))

section Outer

variable {l l' l₀ l₁ l₂ : List Segment} {m₀ : Memory} {s s' s₁ : PagingState} {h' : HeapState}
  {asked requests : List Request} {given gs : List Nat} {i src x y : Nat}

/-- **A block for a page of entries**: NULL, or one of memory that was free, cleared. -/
theorem Since.askPage (since : Since l₀ m₀ asked s l) :
    (place (2 * pageSize) l = none ∧ kmallocAligned s.heap pageSize pageSize = .ok (s.heap, 0)) ∨
      ∃ h' y l', place (2 * pageSize) l = some (y, l') ∧
        kmallocAligned s.heap pageSize pageSize = .ok (h', home y) ∧ home y ≠ 0 ∧
        Since l₀ m₀ (asked ++ [.entries]) (s.withHeap { h' with mem := h'.mem.fill (home y) 0 pageSize }) l' ∧
        Spares ∅ l l' s.mem (h'.mem.fill (home y) 0 pageSize) ∧ Holds l' y (2 * pageSize) ∧
        Filled l₀ (asked ++ [.entries]) (home y) ∧ (∀ n, ¬ Holds l y n) ∧
        ∀ j < pageEntries, Paging.entry (h'.mem.fill (home y) 0 pageSize) (home y) j = 0 := by
  cases placed : place (2 * pageSize) l with
  | none =>
      refine .inl ⟨rfl, ?_⟩
      have none := kmalloc_place_none since.heap placed
      unfold kmallocAligned
      rw [show (pageSize + pageSize) % 2 ^ 32 = 2 * pageSize by decide, none]
      rfl
  | some found =>
      obtain ⟨y, l'⟩ := found
      obtain ⟨h', taken, -⟩ := kmalloc_place since.heap (by decide) (by decide) placed
      have asked : kmallocAligned s.heap pageSize pageSize = .ok (h', home y) := by
        unfold kmallocAligned
        rw [show (pageSize + pageSize) % 2 ^ 32 = 2 * pageSize by decide, taken, Outcome.ok_bind]
        exact if_neg (place_ne_null placed)
      rcases since.takePage asked with
        ⟨null, -⟩ | ⟨l₁, z, same, nonzero, placed', next, spares, held, filled, absent, empty⟩
      · rcases since.take .entries taken with ⟨zero, -⟩ | ⟨l₁, placed', next, -, held, -, -⟩
        · exact absurd zero (place_ne_null placed)
        · have bounds := held.bounds next.heap
          have near := home_bounds next.heap held
          omega
      · cases placed.symm.trans placed'
        exact .inr ⟨h', y, l', rfl, asked, nonzero, next, spares, held, filled, absent, empty⟩

/-- **`paging_alloc_table`**, whatever the heap gives. -/
theorem Since.askTable (since : Since l₀ m₀ asked s l) :
    (place (2 * pageSize) l = none ∧ pagingAllocTable s = .ok (s, 0)) ∨
      ∃ s₁ y l', place (2 * pageSize) l = some (y, l') ∧ pagingAllocTable s = .ok (s₁, home y) ∧
        home y ≠ 0 ∧ Since l₀ m₀ (asked ++ [.entries]) s₁ l' ∧ Spares ∅ l l' s.mem s₁.mem ∧
        Holds l' y (2 * pageSize) ∧ Filled l₀ (asked ++ [.entries]) (home y) ∧ (∀ n, ¬ Holds l y n) ∧
        ∀ j < pageEntries, Paging.entry s₁.mem (home y) j = 0 := by
  unfold pagingAllocTable
  rcases since.askPage with ⟨full, asked⟩ | ⟨h', y, l', placed, asked, nonzero, rest⟩
  · rw [asked]
    exact .inl ⟨full, rfl⟩
  · rw [asked, Outcome.ok_bind]
    exact .inr ⟨_, y, l', placed, if_neg nonzero, nonzero, rest⟩

namespace Copying

/-- An entry that is not present. -/
theorem skip (copying : Copying l₀ m₀ x src i s l given) (low : 2 ≤ i) (index : i < pageEntries)
    (absent : present (entry m₀ src i) = false) : Copying l₀ m₀ x src (i + 1) s l given := by
  have same : cloneRequests m₀ src (i + 1) = cloneRequests m₀ src i := by
    rw [cloneRequests_succ, entryRequests, absent, if_neg (by simp), List.append_nil]
  refine ⟨?_, copying.held, ?_, ?_, ?_⟩
  · rw [same]
    exact copying.since
  · rw [← List.append_nil given]
    exact copying.copied.succ copying.since.heap .refl low (fun _ _ _ => rfl) index
      (fun _ => ⟨copying.copied.later i le_rfl index, rfl⟩)
      (fun found => by rw [absent] at found; cases found)
  · rw [same]
    exact copying.served
  · rw [same]
    exact copying.spans

/-- A table is taken. -/
theorem begin (copying : Copying l₀ m₀ x src i s l given)
    (placed : place (2 * pageSize) l = some (y, l₁)) (taken : pagingAllocTable s = .ok (s₁, home y))
    (since : Since l₀ m₀ (.entries :: cloneRequests m₀ src i ++ [.entries]) s₁ l₁)
    (empty : ∀ j < pageEntries, entry s₁.mem (home y) j = 0) :
    Filling l₀ m₀ x y (frame (entry m₀ src i)) (inUse l₀) l₁ s₁.mem
      (.entries :: cloneRequests m₀ src i ++ [.entries]) 0 s₁ l₁ [] [] := by
  have none : ∀ k < pageEntries, present (entry s₁.mem (home y) k) = false := fun k index => by
    rw [empty k index]
    decide
  refine ⟨?_, .refl, ⟨fun _ low => absurd low (Nat.not_lt_zero _),
    fun _ low => absurd low (Nat.not_lt_zero _), fun _ member => absurd member List.not_mem_nil⟩, rfl,
    Serves.nil, fun clear _ => ?_⟩
  · rwa [List.append_nil]
  obtain ⟨before, bound⟩ := (AtBoundaries.append copying.served).mp clear
  have spans := copying.spans before
  rcases allocTable_exact spans.heap bound taken with
    ⟨null, rfl⟩ | ⟨l₂, heap, more, holds, aligned, nonzero, -, same, -, -⟩
  · have grows := inUse_place placed
    rw [since.heap.unique spans.heap] at grows
    exact absurd (congrArg Multiset.card grows) (by simp)
  · cases heap.unique since.heap
    have noPages : pageFrees s₁.mem (home y) = 0 := pageFrees_empty none
    refine ⟨⟨?_, fun a member => ?_, dvd_home⟩, noPages, fun k _ index => none k index⟩
    · rw [noPages, Multiset.cons_zero, Multiset.singleton_add]
      exact spans.take heap more same
    · rw [noPages, Multiset.cons_zero, Multiset.mem_singleton] at member
      rw [member]
      exact holds.le (by decide)

/-- The table is linked. -/
theorem link {before : PagingState} (copying : Copying l₀ m₀ x src i before l given) (low : 2 ≤ i)
    (index : i < pageEntries) (here : present (entry m₀ src i) = true)
    (placed : place (2 * pageSize) l = some (y, l₁))
    (filling : Filling l₀ m₀ x y (frame (entry m₀ src i)) (inUse l₀) l₁ s₁.mem
      (.entries :: cloneRequests m₀ src i ++ [.entries]) pageEntries s l₂ requests gs)
    (spares : Spares ∅ l l₁ before.mem s₁.mem) (held : Holds l₁ y (2 * pageSize))
    (filled : Filled l₀ [.entries] (home x)) (absent : ∀ n, ¬ Holds l y n) :
    Copying l₀ m₀ x src (i + 1)
      (s.write (setEntry s.mem (home x) i (home y ||| flagBits (entry m₀ src i)))) l₂ (given ++ gs) := by
  have other : y ≠ x := fun same => absent _ (same ▸ copying.held)
  have kept : Spares ∅ l l₂ before.mem s.mem :=
    ((spares.mono (Set.empty_subset _)).trans filling.spares).drop absent
  have heldX := kept.holds x _ copying.held
  have heldY := filling.spares.holds y _ held
  have mine : Filled l₀ ([.entries] ++ (cloneRequests m₀ src i ++ .entries :: requests)) (home x) :=
    filled.append
  have asked : cloneRequests m₀ src (i + 1) = cloneRequests m₀ src i ++ .entries :: requests := by
    rw [cloneRequests_succ, entryRequests, if_pos ⟨low, here⟩, filling.asked]
  have order : .entries :: cloneRequests m₀ src i ++ [.entries] ++ requests =
      [.entries] ++ (cloneRequests m₀ src i ++ .entries :: requests) := by
    simp
  have since := filling.since
  rw [order] at since
  obtain ⟨linked, spares'⟩ := since.setEntry heldX mine index (home y ||| flagBits (entry m₀ src i))
  have bounds := heldY.bounds filling.since.heap
  have near := home_bounds filling.since.heap heldY
  have bound : home y ||| flagBits (entry m₀ src i) < 2 ^ 32 := by
    refine or_lt ?_ flagBits_lt
    simp only [heapEnd, heapStart, heapSize, pageSize] at *
    omega
  have row : ∀ k < pageEntries, entry s.mem (home x) k = entry before.mem (home x) k := fun k inside =>
    kept.entry copying.since.heap copying.held (Set.notMem_empty x) inside
  have table : Serves l (.entries :: requests) l₂ gs := (Serves.entries placed).append filling.served
  refine ⟨?_, spares'.holds x _ heldX,
    copying.copied.succ copying.since.heap ((kept.mono (Set.empty_subset _)).trans spares') low
      (fun k inside apart => ?_) index (fun missing => by rw [here] at missing; cases missing)
      (fun _ => ⟨y, ?_, spares'.holds y _ heldY, by simpa using other,
        (filling.copied.weaken (by simp)).spares filling.since.heap heldY (by simpa using other) spares'
          le_rfl⟩), ?_, fun clear => ?_⟩
  · rw [asked]
    exact linked
  · rw [PagingState.mem_write, entry_setEntry dvd_home dvd_home index inside,
      if_neg fun both => apart both.2]
    exact row k inside
  · rw [PagingState.mem_write, entry_setEntry dvd_home dvd_home index index, if_pos ⟨rfl, rfl⟩,
      Nat.mod_eq_of_lt bound]
  · rw [asked, ← List.cons_append]
    exact copying.served.append table
  · rw [asked, ← List.cons_append] at clear
    obtain ⟨first, second⟩ := (AtBoundaries.append copying.served).mp clear
    have both : AtBoundaries l ([.entries] ++ requests) := second
    obtain ⟨one, rest⟩ := (AtBoundaries.append (Serves.entries placed)).mp both
    obtain ⟨pending, -, -⟩ :=
      filling.pending ((AtBoundaries.append copying.served).mpr ⟨first, one⟩) rest
    have seen : present (home y ||| flagBits (entry m₀ src i)) = true := by
      rw [present_or, present_flagBits, here, Bool.or_true]
    have framed : frame (home y ||| flagBits (entry m₀ src i)) = home y := by
      rw [frame_or flagBits_lt, frame_of_dvd dvd_home]
    have none : present (entry s.mem (home x) i) = false := by
      rw [row i index, copying.copied.later i le_rfl index]
      decide
    exact (pending.spans.linkTable pending.room low index none bound seen framed).1

end Copying

/-- **One round of the outer loop.** -/
theorem cloneTable_outcome (copying : Copying l₀ m₀ x src i s l given) (filled : Filled l₀ [.entries] (home x))
    (source : Sheltered l₀ src)
    (tables : present (entry m₀ src i) = true → Sheltered l₀ (frame (entry m₀ src i))) (low : 2 ≤ i)
    (index : i < pageEntries) :
    (∃ s', cloneTable src (home x) i s = .ok (.next s') ∧
      ∃ l' given', Copying l₀ m₀ x src (i + 1) s' l' given') ∨
      ∃ last, cloneTable src (home x) i s = last.leaves ∧ Stops l₀ m₀ x src i last := by
  unfold Paging.cloneTable
  rw [copying.since.entry source index]
  cases here : present (entry m₀ src i) with
  | false =>
      rw [if_neg (by decide)]
      exact .inl ⟨s, rfl, l, given, copying.skip low index here⟩
  | true =>
      rw [if_pos rfl]
      rcases copying.since.askTable with
        ⟨full, none⟩ | ⟨s₁, y, l₁, placed, taken, nonzero, next, spares, held, filledY, absent, empty⟩
      · refine .inr ⟨pagingDestroyDirectory s (home x), ?_, .table copying here full⟩
        simp only
        rw [none, Outcome.ok_bind]
        simp only
        rw [if_pos trivial]
        rfl
      · have filling := copying.begin placed taken next empty
        simp only
        rw [taken, Outcome.ok_bind]
        simp only
        rw [if_neg nonzero]
        rcases @clonePages_outcome _ _ _ _ _ _ _ i _ _ _ (tables here) filledY held
            (spares.holds x _ copying.held) filling with
          ⟨s', l', requests, gs, loop, full⟩ | ⟨j, s₂, l₂, requests, gs, inside, found, full, stopped, loop⟩
        · have read : entry s'.mem src i = entry m₀ src i := full.since.entry source index
          rw [loop, Outcome.ok_bind]
          simp only
          rw [read]
          exact .inl ⟨_, rfl, l', _, copying.link low index here placed full spares held filled absent⟩
        · refine .inr ⟨_, ?_, .page copying.served here placed stopped inside found full⟩
          rw [loop]
          cases giveUp s₂ (home y) (home x) <;> rfl

theorem cloneRequests_two (m : Memory) : cloneRequests m src 2 = [] := by
  simp [cloneRequests, List.range_succ, entryRequests]

/-- A directory that nothing is copied to yet. -/
theorem Copying.start (since : Since l₀ m₀ [.entries] s l) (placed : place (2 * pageSize) l₀ = some (x, l))
    (taken : kmallocAligned s₁.heap pageSize pageSize = .ok (h', home x)) (heap : HeapInv s₁.heap l₀)
    (here : s = s₁.withHeap { h' with mem := h'.mem.fill (home x) 0 pageSize })
    (held : Holds l x (2 * pageSize)) (filled : Filled l₀ [.entries] (home x))
    (empty : ∀ j < pageEntries, entry s.mem (home x) j = 0) (v w : Nat) :
    Copying l₀ m₀ x src 2 (s.write (setEntry (setEntry s.mem (home x) 0 v) (home x) 1 w)) l [] := by
  obtain ⟨first, _⟩ := since.setEntry held filled (by decide : 0 < pageEntries) v
  obtain ⟨second, _⟩ := first.setEntry held filled (by decide : 1 < pageEntries) w
  refine ⟨?_, held, ⟨fun k above below => absurd above (by omega),
    fun k above below => absurd above (by omega), fun _ member => absurd member List.not_mem_nil,
    fun k above below => ?_⟩, ?_, fun clear => ?_⟩
  · rw [cloneRequests_two]
    exact second
  · rw [PagingState.mem_write, entry_setEntry dvd_home dvd_home (by decide) below, if_neg (by omega),
      entry_setEntry dvd_home dvd_home (by decide) below, if_neg (by omega), empty k below]
  · rw [cloneRequests_two]
    exact Serves.entries placed
  · rw [cloneRequests_two] at clear
    rcases kmallocAligned_exact heap clear taken with
      ⟨null, -⟩ | ⟨l', next, more, holds, aligned, nonzero, -, same⟩
    · have bounds := held.bounds since.heap
      have near := home_bounds since.heap held
      omega
    · subst here
      have spans := (@Spans.ofFresh l₀ l' (s₁.withHeap h') (home x) next more holds aligned v w).1
      cases second.heap.unique spans.heap
      exact spans

/-- **`paging_clone_directory`**, whatever the heap gives. -/
theorem cloneDirectory_outcome (heap : HeapInv s.heap l) (nonnull : src ≠ 0) (source : Sheltered l src)
    (tables : ∀ k, 2 ≤ k → k < pageEntries → present (entry s.mem src k) = true →
      Sheltered l (frame (entry s.mem src k))) :
    (place (2 * pageSize) l = none ∧ pagingCloneDirectory s src = .ok (s, 0)) ∨
      (∃ x s' l' given, pagingCloneDirectory s src = .ok (s', home x) ∧ home x ≠ 0 ∧
        Copying l s.mem x src pageEntries s' l' given) ∨
      ∃ x i last, 2 ≤ i ∧ i < pageEntries ∧ Stops l s.mem x src i last ∧
        pagingCloneDirectory s src = (do
          let s' ← last
          return (s', 0)) := by
  unfold pagingCloneDirectory
  rw [if_neg nonnull]
  rcases (Since.refl heap).askPage with
    ⟨full, asked⟩ | ⟨h', x, l₁, placed, asked, nonzero, next, -, held, filled, -, empty⟩
  · refine .inl ⟨full, ?_⟩
    rw [asked]
    rfl
  · rw [asked, Outcome.ok_bind]
    simp only
    rw [if_neg nonzero]
    generalize entry (h'.mem.fill (home x) 0 pageSize) src 0 = v
    generalize entry (setEntry (h'.mem.fill (home x) 0 pageSize) (home x) 0 v) src 1 = w
    have begun := @Copying.start _ _ _ _ s h' src x next placed asked heap rfl held filled empty v w
    have loop := @forLoop_leaves _ _ (cloneTable src (home x))
      (fun i p => ∃ l' given, Copying l s.mem x src i p l' given) (Stops l s.mem x src)
      2 (pageEntries - 2) _ ⟨l₁, [], begun⟩
      (by
        rintro i p low high ⟨l', given, here⟩
        have index : i < pageEntries := by
          simp only [pageEntries] at *
          omega
        exact cloneTable_outcome here filled source (tables i low index) low index)
    rcases loop with ⟨s', done, l', given, last⟩ | ⟨i, last, low, high, done, stops⟩
    · refine .inr (.inl ⟨x, s', l', given, ?_, nonzero, ?_⟩)
      · refine (congrArg (· >>= _) done).trans ?_
        rfl
      · rwa [show 2 + (pageEntries - 2) = pageEntries by decide] at last
    · refine .inr (.inr ⟨x, i, last, low, ?_, stops, ?_⟩)
      · simp only [pageEntries] at *
        omega
      · refine (congrArg (· >>= _) done).trans ?_
        cases last <;> rfl

end Outer

/-! ### What the requests say -/

section Verdict

variable {l l₀ l₁ : List Segment} {m₀ : Memory} {s s' : PagingState} {first more : List Request}
  {given : List Nat} {r : Request} {last : Outcome PagingState} {d i src x : Nat}

/-- The requests for an entry that is present, among those for all. -/
theorem cloneRequests_split (low : 2 ≤ i) (index : i < pageEntries)
    (here : present (entry m₀ src i) = true) : ∃ more, cloneRequests m₀ src pageEntries =
      cloneRequests m₀ src i ++
        .entries :: (tableRequests m₀ (frame (entry m₀ src i)) pageEntries ++ more) := by
  obtain ⟨more, all⟩ := @exists_append_of_le (entryRequests m₀ src) (i + 1) pageEntries index
  refine ⟨more, all.trans ?_⟩
  have next : cloneRequests m₀ src (i + 1) = _ := cloneRequests_succ
  rw [← cloneRequests, next, entryRequests, if_pos ⟨low, here⟩, List.append_assoc, List.cons_append]

/-- The requests for a page, among those for its table. -/
theorem tableRequests_split {t j : Nat} (inside : j < pageEntries)
    (found : present (entry m₀ t j) = true) : ∃ more, tableRequests m₀ t pageEntries =
      tableRequests m₀ t j ++ .page :: more := by
  obtain ⟨more, all⟩ := @exists_append_of_le
    (fun j => if present (entry m₀ t j) then [.page] else []) (j + 1) pageEntries inside
  refine ⟨more, all.trans ?_⟩
  have next : tableRequests m₀ t (j + 1) = _ := tableRequests_succ
  rw [← tableRequests, next, found, if_pos rfl, List.append_assoc, List.singleton_append]

/-- **A copy is given up** at the first request that cannot be served. -/
theorem Stops.request (stops : Stops l₀ m₀ x src i last) (low : 2 ≤ i) (index : i < pageEntries) :
    ∃ first r more l₁ given, cloneRequests m₀ src pageEntries = first ++ r :: more ∧
      Serves l₀ (.entries :: first) l₁ given ∧ place r.size l₁ = none := by
  cases stops with
  | table copying here full =>
      obtain ⟨more, all⟩ := cloneRequests_split low index here
      exact ⟨_, .entries, _, _, _, all, copying.served, full⟩
  | @page _ _ _ _ _ _ _ requests _ _ served here placed filling inside found full =>
      obtain ⟨more, all⟩ := cloneRequests_split low index here
      obtain ⟨rest, table⟩ := tableRequests_split inside found
      rw [filling.asked] at table
      refine ⟨cloneRequests m₀ src i ++ ([Request.entries] ++ requests), .page, rest ++ more, _, _, ?_,
        served.append ((Serves.entries placed).append filling.served), full⟩
      rw [all, table]
      simp

/-- Not all of the requests are served. -/
theorem Serves.not_enough (serves : Serves l first l₁ given) (full : place r.size l₁ = none) :
    ¬ Enough l (first ++ r :: more) := by
  rintro ⟨l', all, served⟩
  obtain ⟨_, ptr, l₂, _, placed, _⟩ := served.rest serves
  cases full.symm.trans placed

/-- **A directory that is returned** is a copy, in the blocks first fit gives. -/
theorem cloneDirectory_copies (heap : HeapInv s.heap l) (source : Sheltered l src)
    (tables : ∀ k, 2 ≤ k → k < pageEntries → present (entry s.mem src k) = true →
      Sheltered l (frame (entry s.mem src k)))
    (done : pagingCloneDirectory s src = .ok (s', d)) (found : d ≠ 0) :
    ∃ x l' given, d = home x ∧ Copying l s.mem x src pageEntries s' l' given := by
  have nonnull : src ≠ 0 := by
    rintro rfl
    cases done
    exact found rfl
  rcases cloneDirectory_outcome heap nonnull source tables with
    ⟨-, none⟩ | ⟨x, s₁, l', given, returned, -, copy⟩ | ⟨x, i, last, -, -, -, stopped⟩
  · cases none.symm.trans done
    exact absurd rfl found
  · cases returned.symm.trans done
    exact ⟨x, l', given, rfl, copy⟩
  · obtain ⟨_, _, rest⟩ := Outcome.bind_eq_ok.mp (stopped.symm.trans done)
    cases rest
    exact absurd rfl found

/-- **When all requests are served**, a directory is returned. -/
theorem cloneDirectory_returns (heap : HeapInv s.heap l) (nonnull : src ≠ 0) (source : Sheltered l src)
    (tables : ∀ k, 2 ≤ k → k < pageEntries → present (entry s.mem src k) = true →
      Sheltered l (frame (entry s.mem src k)))
    (enough : Enough l (.entries :: cloneRequests s.mem src pageEntries)) :
    ∃ s' d, pagingCloneDirectory s src = .ok (s', d) ∧ d ≠ 0 := by
  rcases cloneDirectory_outcome heap nonnull source tables with
    ⟨full, -⟩ | ⟨x, s', l', given, returned, nonzero, -⟩ | ⟨x, i, last, low, index, stops, -⟩
  · obtain ⟨_, _, _, _, _, placed, _⟩ := enough
    cases full.symm.trans placed
  · exact ⟨s', home x, returned, nonzero⟩
  · obtain ⟨first, r, more, l₁, given, asked, served, full⟩ := stops.request low index
    rw [asked, ← List.cons_append] at enough
    exact absurd enough (served.not_enough full)

end Verdict

end Kfs.Paging
