/-
**Clones that fail.**

A clone that cannot be finished is given up: the table it was filling is freed, and the directory is
destroyed with the tables linked so far. Every address freed is the beginning of a page, so a block that
does not start there stays in use; and the pages of the table that was not linked yet are reached by
nothing. `clone_unwinds`: nothing is left behind when all blocks start at page boundaries and the first
request that cannot be served is not the page of a table with pages already (`Unwinds`), and only then.
-/

import Kfs.Paging.Attempt

namespace Kfs.Paging

open Kfs.Heap Memory

/-! ### What must hold of the requests -/

/-- The first request that first fit cannot serve, if there is one, is not a page that follows another
page, which then are pages of one table. -/
def FailsBetween : (filling : Bool) → List Segment → List Request → Prop
  | _, _, [] => True
  | filling, l, r :: rest =>
      match place r.size l with
      | none => r = .page → filling = false
      | some (_, l') => FailsBetween (r == .page) l' rest

/-- **All requests are served, or what was served can be given back.** -/
def Unwinds (l : List Segment) (requests : List Request) : Prop :=
  Enough l requests ∨ (AtBoundaries l requests ∧ FailsBetween false l requests)

instance decidableFailsBetween : (filling : Bool) → (l : List Segment) → (requests : List Request) →
    Decidable (FailsBetween filling l requests)
  | _, _, [] => .isTrue trivial
  | filling, l, r :: rest =>
      match found : place r.size l with
      | none => decidable_of_iff (r = .page → filling = false) (by rw [FailsBetween, found])
      | some (_, l') =>
          have := decidableFailsBetween (r == .page) l' rest
          decidable_of_iff (FailsBetween (r == .page) l' rest) (by rw [FailsBetween, found])

instance {l : List Segment} {requests : List Request} : Decidable (Unwinds l requests) :=
  inferInstanceAs (Decidable (_ ∨ _))

/-- Was the last request a page? -/
def lastPage (filling : Bool) (requests : List Request) : Bool :=
  requests.foldl (fun _ r => r == .page) filling

/-- A call returns, and when it fails the blocks are as they were. -/
def FailsClean {α : Type} (l : List Segment) (heap : α → HeapState) (null : α → Prop) :
    Outcome α → Prop
  | .ok result => null result → blockList (heap result) = some l
  | .panic _ => False
  | .diverge => False

section Requests

variable {l l' l₁ : List Segment} {first more : List Request} {given : List Nat} {r : Request}
  {filling : Bool} {m : Memory} {t n : Nat}

theorem failsBetween_append (serves : Serves l first l₁ given) (full : place r.size l₁ = none) :
    FailsBetween filling l (first ++ r :: more) ↔ (r = .page → lastPage filling first = false) := by
  induction first generalizing l given filling with
  | nil =>
      obtain ⟨rfl, -⟩ := serves
      rw [List.nil_append, FailsBetween, full]
      rfl
  | cons q first ih =>
      obtain ⟨ptr, l₂, later, placed, rest, -⟩ := serves
      rw [List.cons_append, FailsBetween, placed]
      exact ih rest

/-- Nothing is asked after a request that fails. -/
theorem atBoundaries_append (serves : Serves l first l₁ given) (full : place r.size l₁ = none) :
    AtBoundaries l (first ++ r :: more) ↔ AtBoundaries l first := by
  rw [AtBoundaries.append serves, AtBoundaries, full]
  simp

theorem mem_tableRequests (member : r ∈ tableRequests m t n) : r = .page := by
  obtain ⟨j, -, inside⟩ := List.mem_flatMap.mp member
  split at inside
  · exact List.mem_singleton.mp inside
  · cases inside

theorem lastPage_entries : lastPage filling (first ++ [.entries] ++ more) = lastPage false more := by
  rw [lastPage, List.foldl_append, List.foldl_append]
  rfl

theorem lastPage_pages (pages : ∀ r ∈ first, r = .page) :
    lastPage false first = false ↔ first = [] := by
  rcases List.eq_nil_or_concat first with rfl | ⟨front, r, rfl⟩
  · simp [lastPage]
  · simp [lastPage, pages r (by simp)]

theorem Serves.pages (serves : Serves l first l' given) (pages : ∀ r ∈ first, r = .page) :
    given = [] ↔ first = [] := by
  cases first with
  | nil => simp [serves.2]
  | cons r first =>
      obtain ⟨ptr, l₁, later, -, -, rfl⟩ := serves
      simp [pages r (by simp)]

end Requests

/-! ### Destroying a directory -/

section Destroy

variable {rest : Multiset Nat} {free : HeapState → Nat → Outcome HeapState} {Inv : HeapState → Prop}
  {l l' : List Segment} {h : HeapState} {s s' : PagingState} {d i t x y : Nat}

/-- **Whatever every `kfree` of a page keeps**, destroying a directory keeps. -/
theorem destroyDirectoryBy_inv
    (step : ∀ h a h', pageSize ∣ a → a < 2 ^ 32 → Inv h → free h a = .ok h' → Inv h')
    (aligned : pageSize ∣ d) (small : d < 2 ^ 32) (here : Inv s.heap)
    (done : destroyDirectoryBy free s d = .ok s') : Inv s'.heap := by
  have frames : ∀ (m : Memory) t k, pageSize ∣ frame (entry m t k) ∧ frame (entry m t k) < 2 ^ 32 :=
    fun m t k => ⟨dvd_frame, lt_of_le_of_lt frame_le entry_lt⟩
  have pages : ∀ t (p : PagingState) round, Inv p.heap →
      forLoop (destroyPageBy free t) 0 pageEntries p = .ok round →
      round.Ends (fun q => Inv q.heap) fun q => Inv q.heap := by
    intro t p round start loop
    refine @forLoop_inv _ _ (destroyPageBy free t) (fun _ q => Inv q.heap) (fun q => Inv q.heap) 0
      pageEntries p start (fun j q round _ _ inv body => ?_) _ loop
    unfold destroyPageBy at body
    split at body
    · obtain ⟨h, freed, last⟩ := Outcome.bind_eq_ok.mp body
      cases last
      exact step _ _ h (frames q.mem t j).1 (frames q.mem t j).2 inv freed
    · cases body
      exact inv
  have table : ∀ i (p : PagingState) round, Inv p.heap → destroyTableBy free d i p = .ok round →
      round.Ends (fun q => Inv q.heap) fun q => Inv q.heap := by
    intro i p round inv body
    unfold destroyTableBy at body
    split at body
    · obtain ⟨inner, loop, last⟩ := Outcome.bind_eq_ok.mp body
      have kept := pages _ p inner inv loop
      cases inner with
      | exit q =>
          cases last
          exact kept
      | next q =>
          obtain ⟨h, freed, final⟩ := Outcome.bind_eq_ok.mp last
          cases final
          exact step _ _ h (frames p.mem d i).1 (frames p.mem d i).2 kept freed
    · cases body
      exact inv
  unfold destroyDirectoryBy at done
  split at done
  · cases done
    exact here
  · obtain ⟨outer, loop, last⟩ := Outcome.bind_eq_ok.mp done
    have kept := @forLoop_inv _ _ (destroyTableBy free d) (fun _ q => Inv q.heap) (fun q => Inv q.heap) 2
      (pageEntries - 2) s here (fun i q round _ _ inv body => table i q round inv body) _ loop
    cases outer with
    | exit q =>
        cases last
        exact kept
    | next q =>
        obtain ⟨h, freed, final⟩ := Outcome.bind_eq_ok.mp last
        cases final
        exact step _ d h aligned small kept freed

/-- **A directory of its own is given back**, and nothing else. -/
theorem Spans.givenBack (spans : Spans d rest s l) :
    ∃ s' l', pagingDestroyDirectory s d = .ok s' ∧ HeapInv s'.heap l' ∧ inUse l' = rest ∧ Keeps l' l := by
  obtain ⟨s', l', done, heap, left, -, -⟩ := spans.destroyDirectory
  have bounds := (spans.room d self_mem_frees).bounds spans.heap
  have kept := @destroyDirectoryBy_inv kfreeLive (fun h => ∃ l', HeapInv h l' ∧ Keeps l' l) s s' d
    (fun h a h' _ _ ⟨l₁, inv, keeps⟩ freed => by
      obtain ⟨l₂, next, fewer⟩ := kfreeLive_keeps inv freed
      exact ⟨l₂, next, fewer.trans keeps⟩)
    spans.aligned (by simp only [heapEnd, heapStart, heapSize] at bounds; omega)
    ⟨l, spans.heap, .refl l⟩ done
  obtain ⟨l₁, inv, keeps⟩ := kept
  cases inv.unique heap
  exact ⟨s', _, destroyDirectoryBy_mono (fun _ _ _ => kfree_of_kfreeLive) done, heap, left, keeps⟩

/-- **A block that is not at a page boundary** survives. -/
theorem destroyDirectory_spares (heap : HeapInv s.heap l) (spaced : Spaced l) (member : x ∈ inUse l)
    (crooked : ¬ pageSize ∣ x) (aligned : pageSize ∣ d) (small : d < 2 ^ 32)
    (done : pagingDestroyDirectory s d = .ok s') : ∃ l', HeapInv s'.heap l' ∧ x ∈ inUse l' := by
  have kept := @destroyDirectoryBy_inv kfree (fun h => ∃ l', HeapInv h l' ∧ Spaced l' ∧ x ∈ inUse l')
    s s' d (fun h a h' whole low ⟨l₁, inv, apart, inside⟩ freed =>
      kfree_spares inv apart (dvd_trans (by decide) whole) low freed inside fun same =>
        crooked (same ▸ whole))
    aligned small ⟨l, heap, spaced, member⟩ done
  obtain ⟨l', inv, -, inside⟩ := kept
  exact ⟨l', inv, inside⟩

/-- **Giving up a table** with its directory: the pages of the table stay in use. -/
theorem Pending.givenUp (pending : Pending d y rest s l) :
    ∃ s' l', giveUp s y d = .ok s' ∧ HeapInv s'.heap l' ∧ inUse l' = pageFrees s.mem y + rest ∧
      Keeps l' l := by
  have balance := pending.spans.balance
  rw [Multiset.cons_add, Multiset.cons_add] at balance
  obtain ⟨h, l₁, freed, heap, left, same⟩ := giveBack pending.spans.heap balance
  obtain ⟨l₂, heap', fewer⟩ := kfreeLive_keeps pending.spans.heap freed
  cases heap'.unique heap
  have spans : Spans d (pageFrees s.mem y + rest) (s.withHeap h) l₁ :=
    pending.spans.transport heap left (same.mono (Multiset.le_add_left _ _))
  obtain ⟨s', l', done, last, gone, keeps⟩ := spans.givenBack
  refine ⟨s', l', ?_, last, gone, keeps.trans fewer⟩
  rw [giveUp, kfree_of_kfreeLive freed]
  exact done

/-- A block that is not at a page boundary survives. -/
theorem giveUp_spares (heap : HeapInv s.heap l) (spaced : Spaced l) (member : x ∈ inUse l)
    (crooked : ¬ pageSize ∣ x) (table : pageSize ∣ y) (low : y < 2 ^ 32) (aligned : pageSize ∣ d)
    (small : d < 2 ^ 32) (done : giveUp s y d = .ok s') : ∃ l', HeapInv s'.heap l' ∧ x ∈ inUse l' := by
  obtain ⟨h, freed, rest⟩ := Outcome.bind_eq_ok.mp done
  obtain ⟨l₁, next, apart, inside⟩ := kfree_spares heap spaced (dvd_trans (by decide) table) low freed
    member fun same => crooked (same ▸ table)
  exact destroyDirectory_spares (s := s.withHeap h) next apart inside crooked aligned small rest

end Destroy

/-! ### What a failed clone leaves -/

section Stops

variable {l l' l₀ : List Segment} {m₀ : Memory} {s s' : PagingState} {h : HeapState}
  {more : List Request} {last : Outcome PagingState} {i src x : Nat}

theorem home_small : home x < 2 ^ 32 := by
  refine lt_of_le_of_lt (Nat.div_mul_le_self _ _) (Nat.mod_lt _ (by decide))

/-- The requests up to the one that fails for want of a table. -/
theorem cloneRequests_upTo (more : List Request) (low : 2 ≤ i) (index : i < pageEntries)
    (here : present (entry m₀ src i) = true) : ∃ rest,
    .entries :: (cloneRequests m₀ src pageEntries ++ more) =
      (.entries :: cloneRequests m₀ src i) ++ Request.entries :: rest := by
  obtain ⟨rest, all⟩ := cloneRequests_split low index here
  refine ⟨tableRequests m₀ (frame (entry m₀ src i)) pageEntries ++ rest ++ more, ?_⟩
  rw [all]
  simp only [List.append_assoc, List.cons_append]

/-- The requests up to the one that fails for want of a page. -/
theorem Filling.upTo {y j : Nat} {rest : Multiset Nat} {begun : List Segment} {before : Memory}
    {earlier requests : List Request} {given : List Nat} (more : List Request)
    (filling : Filling l₀ m₀ x y (frame (entry m₀ src i)) rest begun before earlier j s l requests given)
    (low : 2 ≤ i) (index : i < pageEntries) (here : present (entry m₀ src i) = true)
    (inside : j < pageEntries) (found : present (entry m₀ (frame (entry m₀ src i)) j) = true) :
    ∃ rest, .entries :: (cloneRequests m₀ src pageEntries ++ more) =
      (.entries :: cloneRequests m₀ src i ++ [.entries] ++ requests) ++ Request.page :: rest := by
  obtain ⟨rest, all⟩ := cloneRequests_split low index here
  obtain ⟨pages, table⟩ := tableRequests_split inside found
  rw [filling.asked] at table
  refine ⟨pages ++ (rest ++ more), ?_⟩
  rw [all, table]
  simp

/-- Where every block starts at a page boundary, what is lost is the pages of an unlinked table. -/
theorem Stops.unwound (stops : Stops l₀ m₀ x src i last) (heap : HeapInv h l₀) (low : 2 ≤ i)
    (index : i < pageEntries)
    (bound : AtBoundaries l₀ (.entries :: (cloneRequests m₀ src pageEntries ++ more))) :
    ∃ s' l' lost, last = .ok s' ∧ HeapInv s'.heap l' ∧ inUse l' = lost + inUse l₀ ∧
      (lost = 0 → l' = l₀) ∧
      (lost = 0 ↔ FailsBetween false l₀ (.entries :: (cloneRequests m₀ src pageEntries ++ more))) := by
  cases stops with
  | table copying here full =>
      replace full : place Request.entries.size _ = none := full
      obtain ⟨rest, asked⟩ := cloneRequests_upTo more low index here
      rw [asked] at bound ⊢
      obtain ⟨s', l', done, last, left, fewer⟩ :=
        (copying.spans ((atBoundaries_append copying.served full).mp bound)).givenBack
      refine ⟨s', l', 0, done, last, by rw [left, zero_add], fun _ => ?_, ?_⟩
      · exact eq_of_inUse heap last copying.since.heap copying.served.keeps fewer left
      · rw [failsBetween_append copying.served full]
        simp
  | @page _ _ _ _ _ _ _ requests _ _ served here placed filling inside found full =>
      replace full : place Request.page.size _ = none := full
      obtain ⟨rest, asked⟩ := filling.upTo more low index here inside found
      have first := served.append (Serves.entries placed)
      have whole := first.append filling.served
      rw [asked] at bound ⊢
      obtain ⟨clear, rest⟩ := (AtBoundaries.append first).mp ((atBoundaries_append whole full).mp bound)
      obtain ⟨pending, same, -⟩ := filling.pending clear rest
      obtain ⟨s', l', done, last, left, fewer⟩ := pending.givenUp
      refine ⟨s', l', _, done, last, left, fun none => ?_, ?_⟩
      · rw [none, zero_add] at left
        exact eq_of_inUse heap last filling.since.heap whole.keeps fewer left
      · have only : ∀ r ∈ requests, r = .page := fun r member =>
          mem_tableRequests (filling.asked ▸ member)
        rw [failsBetween_append whole full, same, Multiset.coe_eq_zero, filling.served.pages only,
          lastPage_entries, lastPage_pages only]
        exact ⟨fun none _ => none, fun all => all rfl⟩

/-- Where some block does not, it stays in use. -/
theorem Stops.leaves (stops : Stops l₀ m₀ x src i last) (spaced : Spaced l₀) (low : 2 ≤ i)
    (index : i < pageEntries)
    (outside : ¬ AtBoundaries l₀ (.entries :: (cloneRequests m₀ src pageEntries ++ more)))
    (done : last = .ok s') : ∃ l', HeapInv s'.heap l' ∧ inUse l' ≠ inUse l₀ := by
  cases stops with
  | table copying here full =>
      replace full : place Request.entries.size _ = none := full
      obtain ⟨rest, asked⟩ := cloneRequests_upTo more low index here
      rw [asked, atBoundaries_append copying.served full] at outside
      obtain ⟨z, member, fresh, crooked⟩ :=
        copying.served.astray (inUse_nodup copying.since.heap.tiles) outside
      obtain ⟨l', heap, stays⟩ := destroyDirectory_spares copying.since.heap (copying.served.spaced spaced)
        member crooked dvd_home home_small done
      exact ⟨l', heap, fun same => fresh (same ▸ stays)⟩
  | page served here placed filling inside found full =>
      replace full : place Request.page.size _ = none := full
      obtain ⟨rest, asked⟩ := filling.upTo more low index here inside found
      have whole := (served.append (Serves.entries placed)).append filling.served
      rw [asked, atBoundaries_append whole full] at outside
      obtain ⟨z, member, fresh, crooked⟩ := whole.astray (inUse_nodup filling.since.heap.tiles) outside
      obtain ⟨l', heap, stays⟩ := giveUp_spares filling.since.heap (whole.spaced spaced) member crooked
        dvd_home home_small dvd_home home_small done
      exact ⟨l', heap, fun same => fresh (same ▸ stays)⟩

end Stops

/-! ### The verdict -/

/-- What a clone asks for, and its caller after it. -/
def cloneAsks (m : Memory) (src : Nat) (after : List Request) : List Request :=
  if src = 0 then [] else .entries :: (cloneRequests m src pageEntries ++ after)

section Verdict

variable {l l' : List Segment} {requests : List Request} {given : List Nat} {s : PagingState}
  {h : HeapState} {d src : Nat}

/-- **A directory is discarded**: the heap is as it was when all blocks start at page boundaries, and, if
its blocks are spaced, only then. -/
theorem discard_verdict (heap : HeapInv h l) (served : Serves l requests l' given)
    (inv : HeapInv s.heap l') (spans : AtBoundaries l requests → Spans d (inUse l) s l')
    (aligned : pageSize ∣ d) (small : d < 2 ^ 32) :
    (AtBoundaries l requests → ∃ q, pagingDestroyDirectory s d = .ok q ∧ HeapInv q.heap l) ∧
      (Spaced l → ∀ q, pagingDestroyDirectory s d = .ok q → blockList q.heap = some l →
        AtBoundaries l requests) := by
  constructor
  · intro bound
    obtain ⟨q, l₁, done, last, left, fewer⟩ := (spans bound).givenBack
    cases eq_of_inUse heap last inv served.keeps fewer left
    exact ⟨q, done, last⟩
  · intro spaced q done same
    by_contra outside
    obtain ⟨x, member, fresh, crooked⟩ := served.astray (inUse_nodup inv.tiles) outside
    obtain ⟨l₁, last, stays⟩ :=
      destroyDirectory_spares inv (served.spaced spaced) member crooked aligned small done
    cases last.blockList_eq.symm.trans same
    exact fresh stays

/-- **A clone is returned, or given up**, which is clean in the cases that the requests tell. -/
theorem cloneDirectory_verdict (heap : HeapInv s.heap l) (nonnull : src ≠ 0)
    (readable : Readable l s.mem src) (more : List Request) :
    (∃ x s' l' given, pagingCloneDirectory s src = .ok (s', home x) ∧ home x ≠ 0 ∧
        Copying l s.mem x src pageEntries s' l' given) ∨
      ∃ last : Outcome PagingState,
        pagingCloneDirectory s src = (do
          let s' ← last
          return (s', 0)) ∧
        ¬ Enough l (cloneAsks s.mem src more) ∧
        (AtBoundaries l (cloneAsks s.mem src more) → FailsBetween false l (cloneAsks s.mem src more) →
          ∃ s', last = .ok s' ∧ HeapInv s'.heap l) ∧
        (Spaced l → ∀ s', last = .ok s' → blockList s'.heap = some l →
          AtBoundaries l (cloneAsks s.mem src more) ∧ FailsBetween false l (cloneAsks s.mem src more)) := by
  rw [cloneAsks, if_neg nonnull]
  rcases cloneDirectory_outcome heap nonnull readable.directory readable.tables with
    ⟨full, null⟩ | ⟨x, s', l', given, returned, nonzero, copy⟩ | ⟨x, i, last, low, index, stops, failed⟩
  · replace full : place Request.entries.size l = none := full
    refine .inr ⟨.ok s, null, ?_, fun _ _ => ⟨s, rfl, heap⟩, fun _ s' same _ => ?_⟩
    · rintro ⟨_, _, _, _, _, placed, _⟩
      cases full.symm.trans placed
    · rw [AtBoundaries, FailsBetween, full]
      exact ⟨trivial, fun page => by cases page⟩
  · exact .inl ⟨x, s', l', given, returned, nonzero, copy⟩
  · refine .inr ⟨last, failed, ?_, fun bound between => ?_, fun spaced s' done same => ?_⟩
    · obtain ⟨first, r, rest, l₁, given, asked, served, full⟩ := stops.request low index
      rw [asked, List.append_assoc, List.cons_append, ← List.cons_append]
      exact served.not_enough full
    · obtain ⟨s', l', lost, done, inv, -, restored, clean⟩ := stops.unwound heap low index bound
      cases restored (clean.mpr between)
      exact ⟨s', done, inv⟩
    · by_cases bound : AtBoundaries l (.entries :: (cloneRequests s.mem src pageEntries ++ more))
      · refine ⟨bound, ?_⟩
        obtain ⟨s₁, l', lost, done', inv, left, -, clean⟩ := stops.unwound heap low index bound
        cases done.symm.trans done'
        cases inv.blockList_eq.symm.trans same
        exact clean.mp (by simpa using left)
      · obtain ⟨l', inv, other⟩ := stops.leaves spaced low index bound done
        cases inv.blockList_eq.symm.trans same
        exact absurd rfl other

/-- **`paging_clone_directory`**: a clone that fails leaves the heap as it was if its requests unwind, and,
on a heap whose blocks are spaced, only then. -/
theorem clone_unwinds (heap : HeapInv s.heap l) (readable : src ≠ 0 → Readable l s.mem src) :
    (Unwinds l (cloneAsks s.mem src []) →
      FailsClean l (fun r => r.1.heap) (fun r => r.2 = 0) (pagingCloneDirectory s src)) ∧
    (Spaced l → FailsClean l (fun r => r.1.heap) (fun r => r.2 = 0) (pagingCloneDirectory s src) →
      Unwinds l (cloneAsks s.mem src [])) := by
  by_cases null : src = 0
  · subst null
    exact ⟨fun _ _ => heap.blockList_eq, fun _ _ => .inl ⟨l, [], Serves.nil⟩⟩
  rcases cloneDirectory_verdict heap null (readable null) [] with
    ⟨x, s', l', given, returned, nonzero, copy⟩ | ⟨last, failed, few, clean, only⟩
  · rw [returned]
    refine ⟨fun _ zero => absurd zero nonzero, fun _ _ => .inl ⟨l', given, ?_⟩⟩
    rw [cloneAsks, if_neg null, List.append_nil]
    exact copy.served
  · rw [failed]
    constructor
    · rintro (enough | ⟨bound, between⟩)
      · exact absurd enough few
      · obtain ⟨s', done, inv⟩ := clean bound between
        rw [done]
        exact fun _ => inv.blockList_eq
    · intro spaced fails
      cases last with
      | ok s' => exact .inr (only spaced s' rfl (fails rfl))
      | panic message => exact fails.elim
      | diverge => exact fails.elim

/-- The requests for a table with a page in each of its first two entries, the first of the user part. -/
theorem cloneAsks_twice {m : Memory} {more : List Request} (nonnull : src ≠ 0)
    (here : present (entry m src 2) = true)
    (first : present (entry m (frame (entry m src 2)) 0) = true)
    (second : present (entry m (frame (entry m src 2)) 1) = true) : ∃ rest,
    cloneAsks m src more = [.entries, .entries, .page] ++ .page :: rest := by
  obtain ⟨rows, all⟩ := cloneRequests_split (le_refl 2) (by decide) here
  obtain ⟨pages, table⟩ := tableRequests_split (by decide : 1 < pageEntries) second
  have one : tableRequests m (frame (entry m src 2)) 1 = [.page] := by
    simp [tableRequests, first]
  refine ⟨pages ++ (rows ++ more), ?_⟩
  rw [cloneAsks, if_neg nonnull, all, table, one, cloneRequests_two]
  simp

theorem Serves.failsBetween {filling : Bool} (serves : Serves l requests l' given) :
    FailsBetween filling l requests := by
  induction requests generalizing l given filling with
  | nil => exact trivial
  | cons r requests ih =>
      obtain ⟨ptr, l₁, later, placed, rest, -⟩ := serves
      rw [FailsBetween, placed]
      exact ih rest

/-- **Pages are lost**, with all blocks at page boundaries, when a later page of a table is not served:
the clone returns NULL, and more blocks are in use than before. -/
theorem clone_loses (heap : HeapInv s.heap l) (nonnull : src ≠ 0) (readable : Readable l s.mem src)
    (bound : AtBoundaries l (cloneAsks s.mem src []))
    (within : ¬ FailsBetween false l (cloneAsks s.mem src [])) :
    ∃ s' l', pagingCloneDirectory s src = .ok (s', 0) ∧ HeapInv s'.heap l' ∧ inUse l < inUse l' := by
  rw [cloneAsks, if_neg nonnull] at bound within
  rcases cloneDirectory_outcome heap nonnull readable.directory readable.tables with
    ⟨full, -⟩ | ⟨x, s', l', given, -, -, copy⟩ | ⟨x, i, last, low, index, stops, failed⟩
  · replace full : place Request.entries.size l = none := full
    refine absurd ?_ within
    rw [FailsBetween, full]
    exact fun page => by cases page
  · rw [List.append_nil] at within
    exact absurd copy.served.failsBetween within
  · obtain ⟨s', l', lost, done, inv, left, -, clean⟩ := stops.unwound heap low index bound
    refine ⟨s', l', ?_, inv, ?_⟩
    · rw [failed, done]
      rfl
    · rw [left]
      exact lt_add_of_pos_left _ (pos_iff_ne_zero.mpr fun none => within (clean.mp none))

end Verdict

end Kfs.Paging
