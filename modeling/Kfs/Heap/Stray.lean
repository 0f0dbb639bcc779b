/-
**`kfree` of an address the heap may not have handed out.**

The paging code frees frames and tables by the addresses it finds in page-table entries. These are
multiples of the page size, but the payload they were cut from need not be. `kfree_stray` says all that
such a call can do when it returns: release the block in use whose payload starts there, or leave the
block list as it is. In the second case it may have taken stale bytes for a header and marked one byte,
12 below the address, and then the word 4 below the address is a magic number.

A block 20 bytes below the address would have its link in the marked byte (`Unshadowed` excludes it). Blocks
at other residues than 12 modulo 16 are never there (`Spaced`), and the sizes the paging code asks for keep it
so; nor is there one below a payload.
-/

import Kfs.Heap.Aligned

namespace Kfs.Heap

open Memory

/-- No block starts at 12 modulo 16. -/
def Spaced (l : List Segment) : Prop := ∀ s ∈ l, s.addr % 16 ≠ 12

/-- No block starts 20 bytes below the address: its link would be where `kfree` looks for a flag. -/
def Unshadowed (l : List Segment) (ptr : Nat) : Prop := ∀ s ∈ l, s.addr + 20 ≠ ptr

/-- Every block starts where one of the others does. -/
def StartsAmong (l' l : List Segment) : Prop := ∀ s ∈ l', ∃ t ∈ l, t.addr = s.addr

section Shadows

variable {h : HeapState} {l l' l'' : List Segment} {s : Segment} {ptr : Nat}

theorem Spaced.unshadowed (spaced : Spaced l) (grain : 16 ∣ ptr) : Unshadowed l ptr := by
  intro s member here
  have residue := spaced s member
  omega

/-- Nothing casts a shadow on a payload. -/
theorem HeapInv.unshadowed (inv : HeapInv h l) (member : s ∈ l) : Unshadowed l (s.addr + 16) := by
  intro t found here
  have header : blockHeaderSize ≤ t.size := (inv.legal t found).2
  have apart := inv.tiles.disjoint found member (by omega)
  simp only [blockHeaderSize] at header
  omega

theorem StartsAmong.refl (l : List Segment) : StartsAmong l l := fun s member => ⟨s, member, rfl⟩

theorem StartsAmong.trans (second : StartsAmong l'' l') (first : StartsAmong l' l) : StartsAmong l'' l := by
  intro s member
  obtain ⟨t, found, same⟩ := second s member
  obtain ⟨u, there, equal⟩ := first t found
  exact ⟨u, there, equal.trans same⟩

theorem Unshadowed.mono (clear : Unshadowed l ptr) (fewer : StartsAmong l' l) : Unshadowed l' ptr := by
  intro s member
  obtain ⟨t, found, same⟩ := fewer s member
  exact same ▸ clear t found

end Shadows

/-! ### Sweeping -/

section Sweep

variable {h : HeapState} {l : List Segment}

/-- The merging sweep finds nothing to do on a coalesced heap. -/
theorem HeapInv.sweep (inv : HeapInv h l) :
    ∃ m, mergeFreeBlocks walkFuel h.mem h.start = .ok m ∧ HeapInv { h with mem := m } l ∧
      Set.EqOn m h.mem (OutsideFree l) := by
  obtain ⟨m, swept, linked, frame⟩ := mergeFreeBlocks_linked (by decide) inv.linked inv.tiles
    (by decide) (fun t inside => (inv.legal t inside).2) inv.length_lt
  rw [coalesce_of_noFreePair inv.apart] at linked frame
  refine ⟨m, ?_, ⟨inv.ready, inv.start, linked, inv.tiles, inv.legal, inv.apart⟩, frame⟩
  rw [inv.start]
  exact swept

theorem OutsideFree.of_used {s : Segment} {lo hi x : Nat} (tiles : Tiles lo hi l) (member : s ∈ l)
    (used : s.free = false) (inside : s.Covers x) : x ∈ OutsideFree l := by
  intro t found free covers
  rw [tiles.eq_of_covers found member covers inside] at free
  rw [free] at used
  cases used

end Sweep

/-! ### Freeing at a multiple of 16 -/

section Stray

variable {h h' : HeapState} {l : List Segment} {ptr : Nat}

/-- A byte that looks like the `is_free` flag of a forged header is in no real one. -/
theorem forged_apart (inv : HeapInv h l) (clear : Unshadowed l ptr) (grain : 16 ∣ ptr)
    (magic : Header.magic h.mem (ptr - 16) = blockMagic)
    (used : Header.isFree h.mem (ptr - 16) = false) (unlisted : ∀ s ∈ l, s.addr ≠ ptr - 16)
    {s : Segment} (member : s ∈ l) : ¬ (s.addr ≤ ptr - 12 ∧ ptr - 12 < s.addr + 16) := by
  rintro ⟨low, high⟩
  have word := inv.addr_dvd member
  have other := clear s member
  have real := unlisted s member
  obtain ⟨_, _, own⟩ := inv.linked.header member
  by_cases last : s.addr = ptr - 24
  · -- the flag would be the low byte of the block's own magic number
    have byte := toNat_eq_load32_mod h.mem (s.addr + 12)
    rw [show h.mem.load32 (s.addr + 12) = blockMagic from own] at byte
    rw [Header.isFree, show ptr - 16 + 4 = s.addr + 12 by omega] at used
    rw [bne_eq_false_iff_eq.mp used] at byte
    exact absurd byte (by decide)
  · -- the magic number would be the block's link
    have first : s.addr = ptr - 12 := by omega
    have link := next_eq inv.linked inv.tiles member
    rw [Header.next, show s.addr + 8 = ptr - 16 + 12 by omega] at link
    rw [Header.magic] at magic
    rw [magic] at link
    have inside := inv.bounds member
    have high : heapEnd < blockMagic := by decide
    have positive : 0 < blockMagic := by decide
    split_ifs at link <;> omega

/-- A header where there is none, marked as free, is no part of the heap. -/
theorem HeapInv.forged (inv : HeapInv h l) (clear : Unshadowed l ptr) (grain : 16 ∣ ptr) (nonzero : ptr ≠ 0)
    (magic : Header.magic h.mem (ptr - 16) = blockMagic)
    (used : Header.isFree h.mem (ptr - 16) = false) (unlisted : ∀ s ∈ l, s.addr ≠ ptr - 16) :
    HeapInv { h with mem := Header.setFree h.mem (ptr - 16) true } l := by
  refine ⟨inv.ready, inv.start, inv.linked.congr fun s member x inside => ?_, inv.tiles, inv.legal,
    inv.apart⟩
  refine store8_of_ne h.mem _ fun same => ?_
  refine forged_apart inv clear grain magic used unlisted member ?_
  simp only [Set.mem_Ico] at inside
  omega

/-- **What `kfree` can do at a multiple of 16.** -/
theorem kfree_stray (inv : HeapInv h l) (clear : Unshadowed l ptr) (grain : 16 ∣ ptr) (nonzero : ptr ≠ 0)
    (small : ptr < 2 ^ 32) (done : kfree h ptr = .ok h') :
    (∃ s ∈ l, s.free = false ∧ ptr = s.addr + 16 ∧ HeapInv h' (release s.addr l) ∧
      Set.EqOn h'.mem h.mem (OutsideFree (release s.addr l))) ∨
    (HeapInv h' l ∧ ∀ x ∈ OutsideFree l,
      h'.mem x = h.mem x ∨ (x = ptr - 12 ∧ h.mem.load32 (ptr - 4) = blockMagic)) := by
  have below : blockOf ptr = ptr - 16 := by
    simp only [blockOf, blockHeaderSize]
    omega
  by_cases magic : Header.magic h.mem (ptr - 16) = blockMagic
  · cases free : Header.isFree h.mem (ptr - 16) with
    | true =>
        rw [kfree_double nonzero (by rw [below, magic]) (by rw [below, free])] at done
        cases done
        exact Or.inr ⟨inv, fun x _ => Or.inl rfl⟩
    | false =>
        by_cases listed : ∃ s ∈ l, s.addr = ptr - 16
        · obtain ⟨s, member, same⟩ := listed
          have used : s.free = false := by rw [← (inv.linked.header member).2.1, same, free]
          have payload : ptr = s.addr + 16 := by omega
          obtain ⟨m, freed, after, frame⟩ := kfree_used inv member used
          rw [payload, freed] at done
          cases done
          exact Or.inl ⟨s, member, used, payload, after, frame⟩
        · have unlisted : ∀ s ∈ l, s.addr ≠ ptr - 16 := fun s member same =>
            listed ⟨s, member, same⟩
          have marked := inv.forged clear grain nonzero magic free unlisted
          obtain ⟨m, swept, after, frame⟩ := marked.sweep
          rw [kfree_live nonzero (by rw [below, magic]) (by rw [below, free]), below, swept,
            Outcome.ok_bind] at done
          cases done
          refine Or.inr ⟨⟨after.ready, after.start, after.linked, after.tiles, after.legal,
            after.apart⟩, fun x outside => ?_⟩
          by_cases here : x = ptr - 12
          · refine Or.inr ⟨here, ?_⟩
            rw [Header.magic, show ptr - 16 + 12 = ptr - 4 by omega] at magic
            exact magic
          · refine Or.inl ((frame outside).trans (store8_of_ne h.mem _ ?_))
            omega
  · rw [kfree_panic nonzero (by rw [below]; exact magic)] at done
    cases done

end Stray

/-! ### Residues are kept -/

theorem mem_coalesce_addr {l : List Segment} {t : Segment} (member : t ∈ coalesce l) :
    ∃ s ∈ l, s.addr = t.addr := by
  induction l using coalesce_induction with
  | nil =>
      rw [coalesce_nil] at member
      cases member
  | single s =>
      rw [coalesce_single] at member
      exact ⟨t, member, rfl⟩
  | absorb s u rest first second ih =>
      rw [coalesce_absorb first second] at member
      obtain ⟨v, found, same⟩ := ih member
      rcases List.mem_cons.mp found with rfl | inside
      · exact ⟨s, by simp, same⟩
      · exact ⟨v, by simp [inside], same⟩
  | step s u rest apart ih =>
      rw [coalesce_step apart] at member
      rcases List.mem_cons.mp member with rfl | inside
      · exact ⟨t, by simp, rfl⟩
      · obtain ⟨v, found, same⟩ := ih inside
        exact ⟨v, List.mem_cons_of_mem _ found, same⟩

theorem startsAmong_release (a : Nat) (l : List Segment) : StartsAmong (release a l) l := by
  intro t member
  obtain ⟨s, found, same⟩ := mem_coalesce_addr member
  obtain ⟨u, inside, rfl⟩ := List.mem_map.mp found
  refine ⟨u, inside, ?_⟩
  rw [← same]
  split <;> rfl

theorem Spaced.release {l : List Segment} (spaced : Spaced l) (a : Nat) :
    Spaced (release a l) := by
  intro t member
  obtain ⟨u, inside, same⟩ := startsAmong_release a l t member
  exact same ▸ spaced u inside

theorem Spaced.carve {front back : List Segment} {s : Segment} {n slack : Nat}
    (spaced : Spaced (front ++ s :: back)) (grain : 16 ∣ n) :
    Spaced (front ++ carve n slack s ++ back) := by
  intro t member
  have here := spaced s (by simp)
  rcases List.mem_append.mp member with member | inBack
  · rcases List.mem_append.mp member with inFront | carved
    · exact spaced t (by simp [inFront])
    · rcases mem_carve carved with ⟨rfl, _⟩ | ⟨rfl, _⟩ | ⟨rfl, _⟩
      · exact here
      · show (s.addr + n) % 16 ≠ 12
        omega
      · exact here
  · exact spaced t (by simp [inBack])

end Kfs.Heap
