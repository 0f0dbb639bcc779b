/-
**`kmalloc` and `kfree` refine first-fit allocation and release.**

On a heap that satisfies the invariant with block list `l`, the code over memory does what the
segment operations do on `l`:

* `kmalloc` returns; NULL with nothing changed when no block of `l` fits (`kmalloc_none`), else the
  payload of the first that does (`kmalloc_some`), and the block is carved in the list when the size
  is legal (`afterTake_inv`);
* `kfree` of a live payload returns, with block list `release` of `l` (`kfree_used`).

Both come with their frame: `kmalloc` writes inside the free block it takes, `kfree` inside blocks
that are free afterwards.
-/

import Kfs.Heap.Blocks

namespace Kfs.Heap

open Memory

/-- A request whose rounding to 4 and header addition do not wrap. -/
def NoWrap (size : Nat) : Prop := size + 3 + blockHeaderSize < 2 ^ 32

instance {size : Nat} : Decidable (NoWrap size) := inferInstanceAs (Decidable (_ < _))

theorem round4_eq {size : Nat} (fits : NoWrap size) : round4 size = (size + 3) / 4 * 4 := by
  unfold NoWrap blockHeaderSize at fits
  rw [round4, Nat.mod_eq_of_lt (by omega)]

theorem totalSize_eq {size : Nat} (fits : NoWrap size) :
    totalSize size = (size + 3) / 4 * 4 + 16 := by
  rw [totalSize, round4_eq fits]
  unfold NoWrap at fits
  unfold blockHeaderSize at *
  rw [Nat.mod_eq_of_lt (by omega)]

/-- The least remainder `split_block` gives back: a header and 16 bytes. -/
def splitSlack : Nat := blockHeaderSize + 16

/-! ### The search -/

section Search

variable {m : Memory} {p n fuel : Nat} {l : List Segment}

theorem findFreeBlock_none (linked : Linked m p l) (nonzero : ∀ s ∈ l, s.addr ≠ 0)
    (enough : l.length < fuel) (unfit : ∀ s ∈ l, s.fits n = false) :
    findFreeBlock m n fuel p = .ok 0 := by
  induction l generalizing p fuel with
  | nil =>
      obtain ⟨fuel, rfl⟩ := Nat.exists_eq_succ_of_ne_zero (show fuel ≠ 0 by omega)
      rw [findFreeBlock, if_pos (show p = 0 from linked)]
  | cons s rest ih =>
      obtain ⟨fuel, rfl⟩ := Nat.exists_eq_succ_of_ne_zero (show fuel ≠ 0 by omega)
      obtain ⟨here, size, free, magic, tail⟩ := linked
      subst here
      have no := unfit s List.mem_cons_self
      rw [findFreeBlock, if_neg (nonzero s List.mem_cons_self), size, free,
        if_neg (fun both => by simp [fits_iff.mpr both] at no)]
      refine ih tail (fun t member => nonzero t (List.mem_cons_of_mem _ member)) ?_
        fun t member => unfit t (List.mem_cons_of_mem _ member)
      simp only [List.length_cons] at enough
      omega

theorem findFreeBlock_some {front back : List Segment} {s : Segment}
    (linked : Linked m p (front ++ s :: back)) (nonzero : ∀ t ∈ front ++ s :: back, t.addr ≠ 0)
    (enough : front.length < fuel) (unfit : ∀ t ∈ front, t.fits n = false)
    (fit : s.fits n = true) : findFreeBlock m n fuel p = .ok s.addr := by
  induction front generalizing p fuel with
  | nil =>
      obtain ⟨fuel, rfl⟩ := Nat.exists_eq_succ_of_ne_zero (show fuel ≠ 0 by omega)
      obtain ⟨here, size, free, _⟩ := linked
      subst here
      rw [findFreeBlock, if_neg (nonzero s List.mem_cons_self), size, free,
        if_pos (fits_iff.mp fit)]
  | cons t front ih =>
      obtain ⟨fuel, rfl⟩ := Nat.exists_eq_succ_of_ne_zero (show fuel ≠ 0 by omega)
      obtain ⟨here, size, free, magic, tail⟩ := linked
      subst here
      have no := unfit t List.mem_cons_self
      rw [findFreeBlock, if_neg (nonzero t List.mem_cons_self), size, free,
        if_neg (fun both => by simp [fits_iff.mpr both] at no)]
      refine ih tail (fun u member => nonzero u (List.mem_cons_of_mem _ member)) ?_
        fun u member => unfit u (List.mem_cons_of_mem _ member)
      simp only [List.length_cons] at enough
      omega

end Search

/-! ### Splitting -/

section Split

variable {m : Memory} {n : Nat} {s : Segment} {back : List Segment}

/-- The memory `kmalloc` leaves: the block split and marked as in use. -/
def takeBlock (m : Memory) (block n : Nat) : Memory :=
  Header.setFree (splitBlock m block n) block false

/-- The header `split_block` writes for the rest of the block. -/
def restHeader (m : Memory) (block size next : Nat) : Memory :=
  Header.setMagic (Header.setNext (Header.setFree (Header.setSize m block size) block true)
    block next) block blockMagic

theorem restHeader_eqOn {block size next : Nat} :
    Set.EqOn (restHeader m block size next) m {x | x < block ∨ block + 16 ≤ x} :=
  Header.setMagic_eqOn.trans (Header.setNext_eqOn.trans
    (Header.setFree_eqOn.trans Header.setSize_eqOn))

theorem restHeader_fields {block size next : Nat} :
    Header.size (restHeader m block size next) block = size % 2 ^ 32 ∧
      Header.isFree (restHeader m block size next) block = true ∧
      Header.next (restHeader m block size next) block = next % 2 ^ 32 ∧
      Header.magic (restHeader m block size next) block = blockMagic := by
  simp only [restHeader, Header.size_setMagic, Header.size_setNext, Header.size_setFree,
    Header.size_setSize, Header.isFree_setMagic, Header.isFree_setNext, Header.isFree_setFree,
    Header.next_setMagic, Header.next_setNext, Header.magic_setMagic, true_and]
  rfl

/-- Taking a block that is split: a header for the rest, then the shortened block. -/
theorem takeBlock_split (room : 16 ≤ n) (size : Header.size m s.addr = s.size)
    (low : s.addr + s.size < 2 ^ 31) (enough : n + splitSlack ≤ s.size) :
    takeBlock m s.addr n =
      Header.setFree (Header.setNext (Header.setSize
        (restHeader m (s.addr + n) (s.size - n) (Header.next m s.addr)) s.addr n) s.addr
        (s.addr + n)) s.addr false := by
  unfold splitSlack blockHeaderSize at enough
  have target : (s.addr + n) % 2 ^ 32 = s.addr + n := Nat.mod_eq_of_lt (by omega)
  have wrapped : m.store32 (s.addr + n) (s.size + 2 ^ 32 - n) =
      m.store32 (s.addr + n) (s.size - n) := by
    have same : s.size + 2 ^ 32 - n = (s.size - n) + 2 ^ 32 := by omega
    rw [same]
    exact store32_add_two_pow m _ _
  -- the link is read after two writes to the new header, which is disjoint from the old one
  have link : Header.next (Header.setFree (Header.setSize m (s.addr + n) (s.size - n))
      (s.addr + n) true) s.addr = Header.next m s.addr :=
    (Header.congr_of_apart (Header.setFree_eqOn.trans Header.setSize_eqOn) (by omega)).2.2.1
  unfold takeBlock splitBlock
  rw [if_pos (by rw [size, blockHeaderSize]; omega)]
  simp only [target, size]
  rw [show Header.setSize m (s.addr + n) (s.size + 2 ^ 32 - n) =
    Header.setSize m (s.addr + n) (s.size - n) from wrapped, link]
  rfl

theorem takeBlock_whole (size : Header.size m s.addr = s.size) (fit : n ≤ s.size)
    (low : s.addr + s.size < 2 ^ 31) (short : s.size < n + splitSlack) :
    takeBlock m s.addr n = Header.setFree m s.addr false := by
  unfold splitSlack blockHeaderSize at short
  unfold takeBlock splitBlock
  rw [if_neg (by rw [size, blockHeaderSize]; omega)]

/-- A block is carved off at a legal size, or handed out whole. -/
def Carvable (n : Nat) (s : Segment) : Prop := LegalSize n ∨ s.size < n + splitSlack

/-- Every carvable request acts like a legal one. -/
theorem Carvable.exists_legal (ok : Carvable n s) (fit : n ≤ s.size) (legal : LegalSize s.size)
    (size : Header.size m s.addr = s.size) (low : s.addr + s.size < 2 ^ 31) :
    ∃ n', LegalSize n' ∧ n' ≤ s.size ∧ takeBlock m s.addr n = takeBlock m s.addr n' ∧
      carve n splitSlack s = carve n' splitSlack s := by
  rcases ok with legalN | short
  · exact ⟨n, legalN, fit, rfl, rfl⟩
  · refine ⟨s.size, legal, le_rfl, ?_, carve_whole (by decide) short⟩
    have slack : 0 < splitSlack := by decide
    rw [takeBlock_whole size fit low short, takeBlock_whole size le_rfl low (by omega)]

/-- `kmalloc` writes only headers, those of the parts it carves the block into. -/
theorem takeBlock_headers (room : 16 ≤ n) (size : Header.size m s.addr = s.size) (fit : n ≤ s.size)
    (low : s.addr + s.size < 2 ^ 31) : Set.EqOn (takeBlock m s.addr n) m
      {x | ∀ t ∈ carve n splitSlack s, x < t.addr ∨ t.addr + 16 ≤ x} := by
  unfold carve
  by_cases enough : n + splitSlack ≤ s.size
  · rw [if_pos enough, takeBlock_split room size low enough]
    have first : {x | ∀ t ∈ [⟨s.addr, n, false⟩, ⟨s.addr + n, s.size - n, true⟩],
        x < Segment.addr t ∨ t.addr + 16 ≤ x} ⊆ {x | x < s.addr ∨ s.addr + 16 ≤ x} :=
      fun x outside => outside ⟨s.addr, n, false⟩ List.mem_cons_self
    refine (Header.setFree_eqOn.mono first).trans ?_
    refine (Header.setNext_eqOn.mono first).trans ?_
    refine (Header.setSize_eqOn.mono first).trans ?_
    exact restHeader_eqOn.mono fun x outside => outside ⟨s.addr + n, s.size - n, true⟩
      (List.mem_cons_of_mem _ List.mem_cons_self)
  · rw [if_neg enough, takeBlock_whole size fit low (by omega)]
    exact Header.setFree_eqOn.mono fun x outside => outside ⟨s.addr, s.size, false⟩ List.mem_cons_self

/-- These lie inside the block it takes. -/
theorem takeBlock_eqOn (room : 16 ≤ n) (fit : n ≤ s.size) (size : Header.size m s.addr = s.size)
    (low : s.addr + s.size < 2 ^ 31) : Set.EqOn (takeBlock m s.addr n) m {x | ¬ s.Covers x} := by
  refine (takeBlock_headers room size fit low).mono ?_
  rintro x outside t part
  simp only [Set.mem_ofPred_eq, Segment.Covers] at outside
  rcases mem_carve part with ⟨rfl, enough⟩ | ⟨rfl, enough⟩ | ⟨rfl, -⟩
  · simp only
    omega
  · simp only [splitSlack, blockHeaderSize] at *
    omega
  · simp only
    omega

/-- **Taking a block carves it in the list.** -/
theorem takeBlock_linked {hi : Nat} (linked : Linked m s.addr (s :: back)) (room : 16 ≤ n)
    (fit : n ≤ s.size) (tiles : Tiles (s.addr + s.size) hi back) (low : s.addr + s.size < 2 ^ 31) :
    Linked (takeBlock m s.addr n) s.addr (carve n splitSlack s ++ back) := by
  obtain ⟨_, size, free, magic, tail⟩ := linked
  have kept : Linked (takeBlock m s.addr n) (Header.next m s.addr) back := by
    refine tail.congr fun t member => (takeBlock_eqOn room fit size low).mono fun x inside => ?_
    have above := tiles.bounds member
    simp only [Set.mem_Ico, Set.mem_ofPred_eq, Segment.Covers] at *
    omega
  unfold carve
  by_cases enough : n + splitSlack ≤ s.size
  · rw [if_pos enough]
    rw [takeBlock_split room size low enough] at kept ⊢
    unfold splitSlack blockHeaderSize at enough
    generalize rest : restHeader m (s.addr + n) (s.size - n) (Header.next m s.addr) = middle
      at kept ⊢
    have apart : s.addr + 16 ≤ s.addr + n ∨ s.addr + n + 16 ≤ s.addr := by omega
    have last : Set.EqOn (Header.setFree (Header.setNext (Header.setSize middle s.addr n) s.addr
        (s.addr + n)) s.addr false) middle {x | x < s.addr ∨ s.addr + 16 ≤ x} :=
      Header.setFree_eqOn.trans (Header.setNext_eqOn.trans Header.setSize_eqOn)
    have oldMagic : Header.magic middle s.addr = Header.magic m s.addr := by
      rw [← rest]
      exact (Header.congr_of_apart restHeader_eqOn apart.symm).2.2.2
    obtain ⟨sizeNew, freeNew, nextNew, magicNew⟩ := Header.congr_of_apart last apart
    obtain ⟨sizeRest, freeRest, nextRest, magicRest⟩ :=
      @restHeader_fields m (s.addr + n) (s.size - n) (Header.next m s.addr)
    rw [rest] at sizeRest freeRest nextRest magicRest
    have link : (s.addr + n) % 2 ^ 32 = s.addr + n := Nat.mod_eq_of_lt (by omega)
    refine ⟨rfl, ?_, Header.isFree_setFree, ?_, ?_⟩
    · simp only [Header.size_setFree, Header.size_setNext, Header.size_setSize]
      exact Nat.mod_eq_of_lt (by omega)
    · simp only [Header.magic_setFree, Header.magic_setNext, Header.magic_setSize]
      rw [oldMagic, magic]
    · rw [Header.next_setFree, Header.next_setNext, link]
      refine ⟨rfl, ?_, freeNew.trans freeRest, magicNew.trans magicRest, ?_⟩
      · rw [sizeNew, sizeRest]
        exact Nat.mod_eq_of_lt (by omega)
      · rw [nextNew, nextRest, Nat.mod_eq_of_lt Header.next_lt]
        exact kept
  · rw [if_neg enough]
    rw [takeBlock_whole size fit low (by omega)] at kept ⊢
    refine ⟨rfl, ?_, Header.isFree_setFree, ?_, ?_⟩
    · rw [Header.size_setFree, size]
    · rw [Header.magic_setFree, magic]
    · rw [Header.next_setFree]
      exact kept

end Split

/-! ### Merging -/

section Merge

/-- The addresses outside every free block of a list. -/
def OutsideFree (l : List Segment) : Set Nat := {x | ∀ t ∈ l, t.free = true → ¬ t.Covers x}

/-- One merge in memory: the first block absorbs its free successor. -/
theorem absorb_linked {m : Memory} {s t : Segment} {rest : List Segment} {lo hi : Nat}
    (linked : Linked m s.addr (s :: t :: rest)) (tiles : Tiles lo hi (s :: t :: rest))
    (big : ∀ u ∈ s :: t :: rest, 16 ≤ u.size) (low : hi < 2 ^ 31) :
    Linked (Header.setNext (Header.setSize m s.addr (s.size + t.size)) s.addr
      (Header.next m t.addr)) s.addr ({ s with size := s.size + t.size } :: rest) := by
  obtain ⟨_, size, free, magic, here, size', free', magic', tail⟩ := linked
  obtain ⟨start, positive, start', positive', later⟩ := tiles
  have above := later.le
  have bigS := big s (by simp)
  rw [here] at tail
  refine ⟨rfl, ?_, ?_, ?_, ?_⟩
  · rw [Header.size_setNext, Header.size_setSize]
    exact Nat.mod_eq_of_lt (by omega)
  · rw [Header.isFree_setNext, Header.isFree_setSize, free]
  · rw [Header.magic_setNext, Header.magic_setSize, magic]
  · rw [Header.next_setNext, Nat.mod_eq_of_lt Header.next_lt]
    refine tail.congr fun u member => ?_
    refine (Header.setNext_eqOn.trans Header.setSize_eqOn).mono fun x inside => ?_
    have beyond := later.bounds member
    simp only [Set.mem_Ico, Set.mem_ofPred_eq] at *
    omega

/-- No block gets smaller when the first one absorbs its successor. -/
theorem absorb_big {s t : Segment} {rest : List Segment} (big : ∀ u ∈ s :: t :: rest, 16 ≤ u.size) :
    ∀ u ∈ { s with size := s.size + t.size } :: rest, 16 ≤ u.size := by
  intro u member
  have bigS := big s List.mem_cons_self
  rcases List.mem_cons.mp member with rfl | member
  · show 16 ≤ s.size + t.size
    omega
  · exact big u (by simp [member])

theorem mergeFreeBlocks_nil {m : Memory} {p fuel : Nat} (linked : Linked m p []) :
    mergeFreeBlocks (fuel + 1) m p = .ok m := by
  rw [mergeFreeBlocks, if_pos (show p = 0 from linked)]

theorem mergeFreeBlocks_single {m : Memory} {s : Segment} {fuel : Nat} (linked : Linked m s.addr [s])
    (positive : 0 < s.addr) : mergeFreeBlocks (fuel + 1) m s.addr = .ok m := by
  have last : Header.next m s.addr = 0 := linked.2.2.2.2
  rw [mergeFreeBlocks, if_neg (by omega), if_pos last]

/-- A round that merges two free blocks. -/
theorem mergeFreeBlocks_absorb {m : Memory} {s t : Segment} {rest : List Segment} {lo hi fuel : Nat}
    (linked : Linked m s.addr (s :: t :: rest)) (tiles : Tiles lo hi (s :: t :: rest)) (positive : 0 < lo)
    (big : ∀ u ∈ s :: t :: rest, 16 ≤ u.size) (first : s.free = true) (second : t.free = true) :
    mergeFreeBlocks (fuel + 1) m s.addr = mergeFreeBlocks fuel (Header.setNext
      (Header.setSize m s.addr (s.size + t.size)) s.addr (Header.next m t.addr)) s.addr := by
  have start := tiles.1
  have startT := tiles.2.2.1
  have bigS := big s (by simp)
  obtain ⟨_, size, free, _, seam, size', free', _, _⟩ := linked
  have link : Header.next (Header.setSize m s.addr (s.size + t.size)) s.addr = t.addr := by
    rw [Header.next_setSize, seam]
  have linkT : Header.next (Header.setSize m s.addr (s.size + t.size)) t.addr = Header.next m t.addr :=
    (Header.congr_of_apart Header.setSize_eqOn (by omega)).2.2.1
  rw [seam] at size' free'
  rw [mergeFreeBlocks, if_neg (by omega), seam, if_neg (by omega), if_pos ⟨free.trans first, free'.trans second⟩]
  simp only [size, size', link, linkT]

/-- A round that goes on to the next block. -/
theorem mergeFreeBlocks_step {m : Memory} {s t : Segment} {rest : List Segment} {lo hi fuel : Nat}
    (linked : Linked m s.addr (s :: t :: rest)) (tiles : Tiles lo hi (s :: t :: rest)) (positive : 0 < lo)
    (apart : ¬ (s.free = true ∧ t.free = true)) :
    mergeFreeBlocks (fuel + 1) m s.addr = mergeFreeBlocks fuel m t.addr := by
  have start := tiles.1
  have startT := tiles.2.2.1
  obtain ⟨_, _, free, _, tail⟩ := linked
  have seam := tail.1
  have free' := tail.2.2.1
  rw [seam] at free'
  rw [mergeFreeBlocks, if_neg (by omega), seam, if_neg (by omega), if_neg]
  rw [free, free']
  exact apart

/-- **The rule of the merging sweep**: what holds of a memory and itself, and of a round and the rest, holds
of the memory before the sweep and the memory it leaves. -/
theorem mergeFreeBlocks_rule {hi : Nat} (low : hi < 2 ^ 31) (R : List Segment → Memory → Memory → Prop)
    (refl : ∀ l m, R l m m)
    (absorb : ∀ s t rest m m' lo, Linked m s.addr (s :: t :: rest) → Tiles lo hi (s :: t :: rest) →
      (∀ u ∈ s :: t :: rest, 16 ≤ u.size) →
      R ({ s with size := s.size + t.size } :: rest) (Header.setNext (Header.setSize m s.addr (s.size + t.size))
        s.addr (Header.next m t.addr)) m' → R (s :: t :: rest) m m')
    (step : ∀ s t rest m m', R (t :: rest) m m' → R (s :: t :: rest) m m') {l : List Segment} :
    ∀ {m m' p fuel lo}, Linked m p l → Tiles lo hi l → 0 < lo → (∀ s ∈ l, 16 ≤ s.size) →
      mergeFreeBlocks fuel m p = .ok m' → R l m m' := by
  induction l using coalesce_induction with
  | nil =>
      intro m m' p fuel lo linked _ _ _ done
      cases fuel with
      | zero => cases done
      | succ fuel =>
          rw [mergeFreeBlocks_nil linked] at done
          cases done
          exact refl _ _
  | single s =>
      intro m m' p fuel lo linked tiles positive _ done
      obtain rfl := linked.1
      cases fuel with
      | zero => cases done
      | succ fuel =>
          rw [mergeFreeBlocks_single linked (tiles.1 ▸ positive)] at done
          cases done
          exact refl _ _
  | absorb s t rest first second ih =>
      intro m m' p fuel lo linked tiles positive big done
      obtain rfl := linked.1
      cases fuel with
      | zero => cases done
      | succ fuel =>
          rw [mergeFreeBlocks_absorb linked tiles positive big first second] at done
          exact absorb s t rest m m' lo linked tiles big
            (ih (absorb_linked linked tiles big low) tiles.absorb positive (absorb_big big) done)
  | step s t rest apart ih =>
      intro m m' p fuel lo linked tiles positive big done
      obtain rfl := linked.1
      have sizeS := tiles.2.1
      cases fuel with
      | zero => cases done
      | succ fuel =>
          rw [mergeFreeBlocks_step linked tiles positive apart] at done
          have tail := linked.2.2.2.2
          rw [tail.1] at tail
          exact step s t rest m m' (ih tail tiles.2.2 (by omega)
            (fun u member => big u (List.mem_cons_of_mem _ member)) done)

/-- **`merge_free_blocks` is the merging sweep.** It returns, the list it leaves is the coalesced
one, and it writes only inside blocks that are free in the result. -/
theorem mergeFreeBlocks_linked {l : List Segment} {hi : Nat} (low : hi < 2 ^ 31) :
    ∀ {m : Memory} {p fuel lo : Nat}, Linked m p l → Tiles lo hi l → 0 < lo →
      (∀ s ∈ l, 16 ≤ s.size) → l.length < fuel →
      ∃ m', mergeFreeBlocks fuel m p = .ok m' ∧ Linked m' p (coalesce l) ∧
        Set.EqOn m' m (OutsideFree (coalesce l)) := by
  induction l using coalesce_induction with
  | nil =>
      intro m p fuel lo linked _ _ _ enough
      obtain ⟨fuel, rfl⟩ := Nat.exists_eq_succ_of_ne_zero (show fuel ≠ 0 by omega)
      rw [coalesce_nil]
      exact ⟨m, mergeFreeBlocks_nil linked, linked, Set.eqOn_refl m _⟩
  | single s =>
      intro m p fuel lo linked tiles positive _ enough
      obtain ⟨fuel, rfl⟩ := Nat.exists_eq_succ_of_ne_zero (show fuel ≠ 0 by omega)
      have here := linked.1
      subst here
      rw [coalesce_single]
      exact ⟨m, mergeFreeBlocks_single linked (tiles.1 ▸ positive), linked, Set.eqOn_refl m _⟩
  | absorb s t rest first second ih =>
      intro m p fuel lo linked tiles positive big enough
      obtain ⟨fuel, rfl⟩ := Nat.exists_eq_succ_of_ne_zero (show fuel ≠ 0 by omega)
      have here := linked.1
      subst here
      have bigS := big s (by simp)
      have merged := absorb_linked linked tiles big low
      have short : ({ s with size := s.size + t.size } :: rest).length < fuel := by
        simp only [List.length_cons] at *
        omega
      obtain ⟨m', done, linked', frame⟩ := ih merged tiles.absorb positive (absorb_big big) short
      rw [coalesce_absorb first second]
      refine ⟨m', (mergeFreeBlocks_absorb linked tiles positive big first second).trans done, linked',
        frame.trans fun x outside => ?_⟩
      obtain ⟨grown, tail, more, shape⟩ :=
        coalesce_cons { s with size := s.size + t.size } rest
      have avoid := outside ⟨s.addr, grown, s.free⟩ (by rw [shape]; simp) first
      simp only [Segment.Covers] at avoid more
      refine (Header.setNext_eqOn.trans Header.setSize_eqOn) ?_
      simp only [Set.mem_ofPred_eq]
      omega
  | step s t rest apart ih =>
      intro m p fuel lo linked tiles positive big enough
      obtain ⟨fuel, rfl⟩ := Nat.exists_eq_succ_of_ne_zero (show fuel ≠ 0 by omega)
      have here := linked.1
      subst here
      have start := tiles.1
      have bigS := big s (by simp)
      have round := @mergeFreeBlocks_step m s t rest lo hi fuel linked tiles positive apart
      obtain ⟨_, size, free, magic, tail⟩ := linked
      have seam := tail.1
      have sizeS := tiles.2.1
      have short : (t :: rest).length < fuel := by
        simp only [List.length_cons] at *
        omega
      obtain ⟨m', done, linked', frame⟩ := ih tail tiles.2.2 (by omega)
        (fun u member => big u (List.mem_cons_of_mem _ member)) short
      -- the header of `s` is below every block of the swept tail
      have kept : Set.EqOn m' m (Set.Ico s.addr (s.addr + 16)) := frame.mono fun x inside => by
        intro u member _ covers
        have beyond := (coalesce_tiles tiles.2.2).bounds member
        simp only [Set.mem_Ico, Segment.Covers] at *
        omega
      obtain ⟨keptSize, keptFree, keptNext, keptMagic⟩ := Header.congr kept
      rw [coalesce_step apart]
      rw [seam] at done
      refine ⟨m', round.trans done, ⟨rfl, keptSize.trans size, keptFree.trans free, keptMagic.trans magic, ?_⟩,
        frame.mono fun x outside u member => outside u (List.mem_cons_of_mem _ member)⟩
      rw [keptNext]
      exact linked'

end Merge

/-! ### The operations -/

section Operations

variable {h : HeapState} {l front back : List Segment} {s : Segment} {size : Nat}

theorem kmallocInit_of_ready (ready : h.initialized = true) : kmallocInit h = h := if_pos ready

/-- `kmalloc_init` makes one free block of the whole heap. -/
theorem kmallocInit_inv (fresh : h.initialized = false) :
    HeapInv (kmallocInit h) [⟨heapStart, heapSize, true⟩] := by
  unfold kmallocInit
  rw [if_neg (by simp [fresh])]
  refine ⟨rfl, rfl, ⟨rfl, ?_, ?_, ?_, ?_⟩, ⟨rfl, by decide, rfl⟩, ?_, List.isChain_singleton _⟩
  · simp only [Header.size_setMagic, Header.size_setNext, Header.size_setFree, Header.size_setSize]
    rfl
  · simp only [Header.isFree_setMagic, Header.isFree_setNext, Header.isFree_setFree]
  · simp only [Header.magic_setMagic]
    rfl
  · simp only [Header.next_setMagic, Header.next_setNext]
    rfl
  · intro s member
    rw [List.mem_singleton.mp member]
    exact ⟨by decide, by decide⟩

/-- The state after the block at `block` is handed out. -/
def afterTake (h : HeapState) (size block : Nat) : HeapState :=
  { h with
    mem := takeBlock h.mem block (totalSize size)
    totalAllocated := (h.totalAllocated + round4 size) % 2 ^ 32
    numAllocations := (h.numAllocations + 1) % 2 ^ 32 }

theorem kmalloc_zero (ready : h.initialized = true) : kmalloc h 0 = .ok (h, 0) := by
  unfold kmalloc
  rw [kmallocInit_of_ready ready]
  rfl

theorem kmalloc_of_ready (ready : h.initialized = true) (positive : size ≠ 0) :
    kmalloc h size = (findFreeBlock h.mem (totalSize size) walkFuel h.start >>= fun block =>
      if block = 0 then .ok (h, 0)
      else .ok (afterTake h size block, (block + blockHeaderSize) % 2 ^ 32)) := by
  unfold kmalloc
  rw [kmallocInit_of_ready ready]
  exact if_neg positive

/-- No block fits: NULL, and nothing changes. -/
theorem kmalloc_none (inv : HeapInv h l) (unfit : ∀ s ∈ l, s.fits (totalSize size) = false) :
    kmalloc h size = .ok (h, 0) := by
  by_cases zero : size = 0
  · subst zero
    exact kmalloc_zero inv.ready
  · have search := findFreeBlock_none (n := totalSize size) inv.linked
      (fun s member => inv.addr_ne_zero member) inv.length_lt unfit
    rw [kmalloc_of_ready inv.ready zero, inv.start, search]
    rfl

/-- The first block that fits is handed out. -/
theorem kmalloc_some (inv : HeapInv h (front ++ s :: back)) (positive : size ≠ 0)
    (unfit : ∀ t ∈ front, t.fits (totalSize size) = false) (fit : s.fits (totalSize size) = true) :
    kmalloc h size = .ok (afterTake h size s.addr, s.addr + 16) := by
  have member : s ∈ front ++ s :: back := by simp
  have short := inv.length_lt
  rw [List.length_append] at short
  have search := findFreeBlock_some inv.linked (fun t inside => inv.addr_ne_zero inside)
    (by omega : front.length < walkFuel) unfit fit
  have inside := inv.bounds member
  have address : (s.addr + blockHeaderSize) % 2 ^ 32 = s.addr + 16 := by
    simp only [heapEnd, heapStart, heapSize, blockHeaderSize] at *
    omega
  rw [kmalloc_of_ready inv.ready positive, inv.start, search, Outcome.ok_bind,
    if_neg (inv.addr_ne_zero member), address]

/-- **Handing out a block carves it in the list.** -/
theorem afterTake_inv (inv : HeapInv h (front ++ s :: back)) (ok : Carvable (totalSize size) s)
    (fit : s.fits (totalSize size) = true) :
    HeapInv (afterTake h size s.addr)
      (front ++ carve (totalSize size) splitSlack s ++ back) := by
  have member : s ∈ front ++ s :: back := by simp
  obtain ⟨free, room⟩ := fits_iff.mp fit
  have inside := inv.bounds member
  have legalS := inv.legal s member
  have low : s.addr + s.size < 2 ^ 31 := by
    simp only [heapEnd, heapStart, heapSize] at inside
    omega
  obtain ⟨before, _, after⟩ := inv.tiles.split
  obtain ⟨seam, put⟩ := inv.linked.replace
  have size' : Header.size h.mem s.addr = s.size := (inv.linked.header member).1
  obtain ⟨n, legal, room, taken, carved⟩ := ok.exists_legal room legalS size' low
  rw [carved]
  refine ⟨inv.ready, inv.start, ?_, ?_, ?_, carve_noFreePair inv.apart free⟩
  · show Linked (takeBlock h.mem s.addr (totalSize size)) heapStart _
    rw [taken, List.append_assoc]
    refine put (fun t inFront => ?_) (takeBlock_linked seam legal.2 room after low)
    refine (takeBlock_eqOn legal.2 room size' low).mono fun x inHeader => ?_
    have below := before.bounds inFront
    have bigT := (inv.legal t (by simp [inFront])).2
    simp only [Set.mem_Ico, Set.mem_ofPred_eq, Segment.Covers, blockHeaderSize] at *
    omega
  · exact inv.tiles.carve (lt_of_lt_of_le (by decide) legal.2) (by decide) room
  · intro t member'
    rw [List.mem_append, List.mem_append] at member'
    rcases member' with (inFront | carved) | inBack
    · exact inv.legal t (by simp [inFront])
    · rcases mem_carve carved with ⟨rfl, _⟩ | ⟨rfl, enough⟩ | ⟨rfl, _⟩
      · exact legal
      · refine ⟨Nat.dvd_sub legalS.1 legal.1, ?_⟩
        simp only [splitSlack, blockHeaderSize] at *
        omega
      · exact legalS
    · exact inv.legal t (by simp [inBack])

/-- `kmalloc` writes the headers of the parts. -/
theorem afterTake_headers (inv : HeapInv h l) (member : s ∈ l) (legal : LegalSize (totalSize size))
    (fit : s.fits (totalSize size) = true) : Set.EqOn (afterTake h size s.addr).mem h.mem
      {x | ∀ t ∈ carve (totalSize size) splitSlack s, x < t.addr ∨ t.addr + 16 ≤ x} := by
  have inside := inv.bounds member
  refine takeBlock_headers legal.2 (inv.linked.header member).1 (fits_iff.mp fit).2 ?_
  simp only [heapEnd, heapStart, heapSize] at inside
  omega

/-- `kmalloc` leaves everything outside the block it takes alone. -/
theorem afterTake_eqOn (inv : HeapInv h l) (member : s ∈ l) (legal : LegalSize (totalSize size))
    (fit : s.fits (totalSize size) = true) :
    Set.EqOn (afterTake h size s.addr).mem h.mem {x | ¬ s.Covers x} := by
  have inside := inv.bounds member
  refine takeBlock_eqOn legal.2 (fits_iff.mp fit).2 (inv.linked.header member).1 ?_
  simp only [heapEnd, heapStart, heapSize] at inside
  omega

/-- The state after the block at `block` is freed and the list swept, given the swept memory. -/
def afterFree (h : HeapState) (block : Nat) (m : Memory) : HeapState :=
  { h with
    mem := m
    totalFreed := (h.totalFreed + (Header.size h.mem block + 2 ^ 32 - blockHeaderSize)) % 2 ^ 32 }

/-- The block whose header `kfree` looks at. -/
def blockOf (ptr : Nat) : Nat := (ptr + 2 ^ 32 - blockHeaderSize) % 2 ^ 32

theorem kfree_panic {ptr : Nat} (nonzero : ptr ≠ 0)
    (magic : Header.magic h.mem (blockOf ptr) ≠ blockMagic) :
    kfree h ptr = .panic invalidPointer := by
  unfold kfree
  rw [if_neg nonzero]
  exact if_pos magic

theorem kfree_double {ptr : Nat} (nonzero : ptr ≠ 0)
    (magic : Header.magic h.mem (blockOf ptr) = blockMagic)
    (free : Header.isFree h.mem (blockOf ptr) = true) : kfree h ptr = .ok h := by
  unfold kfree
  rw [if_neg nonzero]
  exact (if_neg (not_not.mpr magic)).trans (if_pos free)

theorem kfree_live {ptr : Nat} (nonzero : ptr ≠ 0)
    (magic : Header.magic h.mem (blockOf ptr) = blockMagic)
    (used : Header.isFree h.mem (blockOf ptr) = false) :
    kfree h ptr = (mergeFreeBlocks walkFuel (Header.setFree h.mem (blockOf ptr) true) h.start >>=
      fun m => .ok (afterFree h (blockOf ptr) m)) := by
  unfold kfree afterFree
  rw [if_neg nonzero]
  refine (if_neg (not_not.mpr magic)).trans ((if_neg (by simpa [blockOf] using used)).trans ?_)
  simp only [Header.size_setFree]
  rfl

theorem blockOf_payload (inv : HeapInv h l) (member : s ∈ l) :
    blockOf (s.addr + 16) = s.addr := by
  have inside := inv.bounds member
  simp only [blockOf]
  simp only [heapEnd, heapStart, heapSize, blockHeaderSize] at *
  omega

/-- The list in memory once a block is marked as free, before it is swept. -/
theorem HeapInv.marked (inv : HeapInv h l) (member : s ∈ l) :
    Linked (Header.setFree h.mem s.addr true) heapStart (markFree s.addr l) ∧
      Tiles heapStart heapEnd (markFree s.addr l) ∧ (∀ t ∈ markFree s.addr l, LegalSize t.size) ∧
      (markFree s.addr l).length < walkFuel := by
  obtain ⟨front, back, rfl⟩ := List.append_of_mem member
  obtain ⟨size, isFree, magic⟩ := inv.linked.header member
  have inside := inv.bounds member
  obtain ⟨before, _, after⟩ := inv.tiles.split
  have tiles : Tiles heapStart heapEnd (markFree s.addr (front ++ s :: back)) := markFree_tiles inv.tiles
  rw [markFree_split inv.tiles] at tiles ⊢
  refine ⟨?_, tiles, fun t member' => ?_, by simpa using inv.length_lt⟩
  · obtain ⟨seam, put⟩ := inv.linked.replace
    obtain ⟨_, _, _, _, tail⟩ := seam
    refine put (fun t inFront => Header.setFree_eqOn.mono fun x inHeader => ?_)
      ⟨rfl, ?_, Header.isFree_setFree, ?_, ?_⟩
    · have below := before.bounds inFront
      have bigT := (inv.legal t (by simp [inFront])).2
      simp only [Set.mem_Ico, Set.mem_ofPred_eq, blockHeaderSize] at *
      omega
    · exact Header.size_setFree.trans size
    · exact Header.magic_setFree.trans magic
    · rw [show headPtr (s :: back) = s.addr from rfl, Header.next_setFree]
      refine tail.congr fun t inBack => Header.setFree_eqOn.mono fun x inHeader => ?_
      have above := after.bounds inBack
      simp only [Set.mem_Ico, Set.mem_ofPred_eq] at *
      omega
  · rcases List.mem_append.mp member' with inFront | inBack
    · exact inv.legal t (by simp [inFront])
    · rcases List.mem_cons.mp inBack with rfl | inBack
      · exact inv.legal s member
      · exact inv.legal t (by simp [inBack])

/-- **`kfree` of a live block returns, and releases it in the list.** It writes only inside blocks
that are free afterwards. -/
theorem kfree_used (inv : HeapInv h l) (member : s ∈ l) (used : s.free = false) :
    ∃ m, kfree h (s.addr + 16) = .ok (afterFree h s.addr m) ∧
      HeapInv (afterFree h s.addr m) (release s.addr l) ∧
      Set.EqOn m h.mem (OutsideFree (release s.addr l)) := by
  obtain ⟨size, isFree, magic⟩ := inv.linked.header member
  have inside := inv.bounds member
  obtain ⟨linked, tiles, legal, short⟩ := inv.marked member
  obtain ⟨m, swept, linked', frame⟩ := mergeFreeBlocks_linked (by decide) linked tiles (by decide)
    (fun t member' => (legal t member').2) short
  refine ⟨m, ?_, ⟨inv.ready, inv.start, linked', release_tiles inv.tiles, ?_, release_noFreePair⟩,
    frame.trans fun x outside => ?_⟩
  · have block := blockOf_payload inv member
    rw [kfree_live (by omega) (by rw [block, magic]) (by rw [block, isFree, used]), block, inv.start,
      swept, Outcome.ok_bind]
  · refine release_sizes (fun x y first second => ⟨dvd_add first.1 second.1, ?_⟩) inv.legal
    have := first.2
    omega
  · -- the marked byte lies in a block that is free in the result
    refine Header.setFree_eqOn ?_
    by_contra inHeader
    simp only [Set.mem_ofPred_eq, not_or, not_lt, not_le] at inHeader
    have here : s.freed ∈ markFree s.addr l := by
      obtain ⟨front, back, rfl⟩ := List.append_of_mem member
      rw [markFree_split inv.tiles]
      simp
    obtain ⟨t, found, freeT, covers⟩ := mem_coalesce_free tiles (x := x) here rfl
      ⟨inHeader.1, by show x < s.addr + s.size; omega⟩
    exact outside t found freeT covers

/-- A heap client may write the payload of a live block: the list does not change. -/
theorem HeapInv.write (inv : HeapInv h l) {m : Memory}
    (payload : Set.EqOn m h.mem {x | ∀ s ∈ l, s.free = false →
      ¬ (s.addr + 16 ≤ x ∧ x < s.addr + s.size)}) : HeapInv { h with mem := m } l := by
  refine ⟨inv.ready, inv.start, ?_, inv.tiles, inv.legal, inv.apart⟩
  refine inv.linked.congr fun s member => payload.mono fun x inside => ?_
  intro t member' _
  simp only [Set.mem_Ico] at inside
  have boundsS := inv.bounds member
  have boundsT := inv.bounds member'
  by_cases same : s.addr = t.addr
  · omega
  · have := inv.tiles.disjoint member member' same
    omega

end Operations

end Kfs.Heap
