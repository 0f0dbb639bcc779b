/-
**Where the magic numbers are.**

`kfree` decides by one word whether an address is that of a block: the word 4 below it. Freeing at a
multiple of 16 writes sizes, links and one flag, none of which is a magic number before or after, so that
the words that are magic numbers stay the same (`kfree_magic`). What `kfree` accepts can then be read off
before a run of calls to it (`Accepts`).
-/

import Kfs.Heap.Restore

namespace Kfs.Heap

open Memory

/-- The two memories have magic numbers at the same words. -/
def SameMagic (m m' : Memory) : Prop :=
  ∀ a, 4 ∣ a → (m'.load32 a = blockMagic ↔ m.load32 a = blockMagic)

/-- `kfree` takes the address for that of a block: the word 4 below it is a magic number. -/
def Accepts (m : Memory) (ptr : Nat) : Prop := Header.magic m (blockOf ptr) = blockMagic

instance {m : Memory} {ptr : Nat} : Decidable (Accepts m ptr) := inferInstanceAs (Decidable (_ = _))

section Magic

variable {h h' : HeapState} {l : List Segment} {m m' m₁ : Memory} {a b hi lo fuel p ptr v : Nat}

namespace SameMagic

theorem refl (m : Memory) : SameMagic m m := fun _ _ => Iff.rfl

theorem trans (first : SameMagic m m₁) (second : SameMagic m₁ m') : SameMagic m m' :=
  fun a word => (second a word).trans (first a word)

/-- Storing a word over another, neither of them the magic number. -/
theorem store32 (word : 4 ∣ b) (old : m.load32 b ≠ blockMagic) (new : v % 2 ^ 32 ≠ blockMagic) :
    SameMagic m (m.store32 b v) := by
  intro a aligned
  by_cases here : a = b
  · rw [here, load32_store32]
    exact iff_of_false new old
  · rw [load32_store32_of_disjoint m v (by omega)]

/-- Storing the low byte of a word over another, neither of them that of the magic number. -/
theorem store8 {x : UInt8} (word : 4 ∣ b) (old : (m b).toNat ≠ blockMagic % 2 ^ 8)
    (new : x.toNat ≠ blockMagic % 2 ^ 8) : SameMagic m (m.store8 b x) := by
  intro a aligned
  by_cases here : a = b
  · subst here
    have before := toNat_eq_load32_mod m a
    have after := toNat_eq_load32_mod (m.store8 a x) a
    rw [store8_self] at after
    refine iff_of_false (fun magic => new ?_) fun magic => old ?_
    · rw [after, magic]
    · rw [before, magic]
  · rw [load32_store8_of_disjoint m x (by omega)]

end SameMagic

theorem ne_magic_of_lt (small : v < 2 ^ 31) : v ≠ blockMagic := by
  rintro rfl
  exact absurd small (by decide)

/-- A round of the sweep that merges stores a size over a size and a link over a link. -/
theorem absorb_magic {s t : Segment} {rest : List Segment} (low : hi < 2 ^ 31)
    (linked : Linked m s.addr (s :: t :: rest)) (tiles : Tiles lo hi (s :: t :: rest))
    (big : ∀ u ∈ s :: t :: rest, 16 ≤ u.size) (word : 4 ∣ s.addr) :
    SameMagic m (Header.setNext (Header.setSize m s.addr (s.size + t.size)) s.addr (Header.next m t.addr)) := by
  obtain ⟨_, size, _, _, seam, _, _, _, tail⟩ := linked
  obtain ⟨start, sizeS, startT, sizeT, later⟩ := tiles
  have above := later.le
  have bigS := big s (by simp)
  have link : Header.next (Header.setSize m s.addr (s.size + t.size)) s.addr = t.addr := by
    rw [Header.next_setSize, seam]
  have beyond : Header.next m t.addr < 2 ^ 31 := by
    rw [seam] at tail
    rw [tail.headPtr]
    cases rest with
    | nil => decide
    | cons u rest =>
        have := later.bounds (List.mem_cons_self (a := u) (l := rest))
        show u.addr < 2 ^ 31
        omega
  refine SameMagic.trans (SameMagic.store32 word ?_ (ne_magic_of_lt ?_))
    (SameMagic.store32 (by omega) ?_ (ne_magic_of_lt ?_))
  · rw [show m.load32 s.addr = s.size from size]
    exact ne_magic_of_lt (by omega)
  · omega
  · rw [show (m.store32 s.addr (s.size + t.size)).load32 (s.addr + 8) = t.addr from link]
    exact ne_magic_of_lt (by omega)
  · omega

/-- **Merging** moves no magic number. -/
theorem mergeFreeBlocks_magic (low : hi < 2 ^ 31) (linked : Linked m p l) (tiles : Tiles lo hi l)
    (positive : 0 < lo) (big : ∀ s ∈ l, 16 ≤ s.size) (words : ∀ s ∈ l, 4 ∣ s.addr)
    (done : mergeFreeBlocks fuel m p = .ok m') : SameMagic m m' := by
  refine mergeFreeBlocks_rule low (fun l m m' => (∀ s ∈ l, 4 ∣ s.addr) → SameMagic m m') (fun l m _ => .refl m)
    ?_ ?_ linked tiles positive big done words
  · intro s t rest m m' lo linked tiles big later words
    refine (absorb_magic low linked tiles big (words s List.mem_cons_self)).trans (later fun u member => ?_)
    rcases List.mem_cons.mp member with rfl | member
    · exact words s List.mem_cons_self
    · exact words u (by simp [member])
  · intro s t rest m m' later words
    exact later fun u member => words u (List.mem_cons_of_mem _ member)

/-! ### Freeing -/

theorem blockOf_eq (grain : 16 ∣ ptr) (nonzero : ptr ≠ 0) (small : ptr < 2 ^ 32) :
    blockOf ptr = ptr - 16 := by
  simp only [blockOf, blockHeaderSize]
  omega

/-- **What `kfree` accepts, it returns from.** -/
theorem kfree_returns (inv : HeapInv h l) (clear : Unshadowed l ptr) (grain : 16 ∣ ptr) (nonzero : ptr ≠ 0)
    (small : ptr < 2 ^ 32) : (∃ h', kfree h ptr = .ok h') ↔ Accepts h.mem ptr := by
  have below := blockOf_eq grain nonzero small
  constructor
  · rintro ⟨h', done⟩
    by_contra other
    rw [kfree_panic nonzero other] at done
    cases done
  · intro accepts
    have magic := accepts
    rw [Accepts, below] at magic
    cases free : Header.isFree h.mem (ptr - 16) with
    | true => exact ⟨h, kfree_double nonzero accepts (by rw [below, free])⟩
    | false =>
        by_cases listed : ∃ s ∈ l, s.addr = ptr - 16
        · obtain ⟨s, member, same⟩ := listed
          have used : s.free = false := by rw [← (inv.linked.header member).2.1, same, free]
          obtain ⟨m, freed, _⟩ := kfree_used inv member used
          rw [show s.addr + 16 = ptr by omega] at freed
          exact ⟨_, freed⟩
        · have unlisted : ∀ s ∈ l, s.addr ≠ ptr - 16 := fun s member same => listed ⟨s, member, same⟩
          obtain ⟨m, swept, _⟩ := (inv.forged clear grain nonzero magic free unlisted).sweep
          rw [kfree_live nonzero accepts (by rw [below, free]), below, swept, Outcome.ok_bind]
          exact ⟨_, rfl⟩

/-- **Freeing** moves no magic number. -/
theorem kfree_magic (inv : HeapInv h l) (grain : 16 ∣ ptr) (nonzero : ptr ≠ 0) (small : ptr < 2 ^ 32)
    (clear : Unshadowed l ptr) (done : kfree h ptr = .ok h') : SameMagic h.mem h'.mem := by
  have below := blockOf_eq grain nonzero small
  have accepts := (kfree_returns inv clear grain nonzero small).mp ⟨h', done⟩
  have magic := accepts
  rw [Accepts, below] at magic
  cases free : Header.isFree h.mem (ptr - 16) with
  | true =>
      rw [kfree_double nonzero accepts (by rw [below, free])] at done
      cases done
      exact .refl _
  | false =>
      have marked : SameMagic h.mem (Header.setFree h.mem (ptr - 16) true) := by
        refine SameMagic.store8 (by omega) ?_ (by decide)
        rw [Header.isFree, bne_eq_false_iff_eq] at free
        rw [free]
        decide
      rw [kfree_live nonzero accepts (by rw [below, free]), below, inv.start] at done
      obtain ⟨m, swept, last⟩ := Outcome.bind_eq_ok.mp done
      cases last
      refine marked.trans ?_
      by_cases listed : ∃ s ∈ l, s.addr = ptr - 16
      · obtain ⟨s, member, same⟩ := listed
        obtain ⟨linked, tiles, legal, -⟩ := inv.marked member
        rw [same] at linked tiles legal
        exact mergeFreeBlocks_magic (by decide) linked tiles (by decide) (fun t inside => (legal t inside).2)
          (fun t inside => addr_aligned tiles (by decide) legal inside) swept
      · have unlisted : ∀ s ∈ l, s.addr ≠ ptr - 16 := fun s member same => listed ⟨s, member, same⟩
        have forged := inv.forged clear grain nonzero magic free unlisted
        exact mergeFreeBlocks_magic (by decide) forged.linked forged.tiles (by decide)
          (fun t inside => (forged.legal t inside).2) (fun t inside => forged.addr_dvd inside) swept

end Magic

end Kfs.Heap
