/-
**Taking blocks and giving them back.**

Taking blocks keeps those in use (`Keeps`), and giving blocks back adds none. When the same addresses are
in use in the end, the heap is divided as it was before (`eq_of_inUse`). A `kfree` that goes astray leaves
every block in use whose address it was not given (`kfree_spares`).
-/

import Kfs.Heap.InUse
import Kfs.Heap.Stray

namespace Kfs.Heap

open Memory

/-- The blocks in use are in use in another list, as they are. -/
def Keeps (l l' : List Segment) : Prop := ∀ b : Segment, b.free = false → b ∈ l → b ∈ l'

section Restore

variable {l l' l₁ : List Segment} {h h' : HeapState} {a ptr size x : Nat}

theorem Keeps.refl (l : List Segment) : Keeps l l := fun _ _ => id

theorem Keeps.trans (first : Keeps l l₁) (second : Keeps l₁ l') : Keeps l l' :=
  fun b used member => second b used (first b used member)

theorem Keeps.mem_inUse (keeps : Keeps l l') (member : a ∈ inUse l) : a ∈ inUse l' := by
  obtain ⟨b, found, used, here⟩ := Heap.mem_inUse.mp member
  exact Heap.mem_inUse.mpr ⟨b, keeps b used found, used, here⟩

/-- Taking a block. -/
theorem Keeps.place (placed : place size l = some (ptr, l')) : Keeps l l' := by
  induction l generalizing l' with
  | nil => cases placed
  | cons s rest ih =>
      intro b used member
      rw [Heap.place] at placed
      by_cases fit : s.fits (totalSize size) = true
      · rw [if_pos fit] at placed
        cases placed
        rcases List.mem_cons.mp member with rfl | inside
        · rw [(fits_iff.mp fit).1] at used
          cases used
        · exact List.mem_append_right _ inside
      · rw [if_neg fit] at placed
        obtain ⟨⟨ptr', l₁⟩, found, same⟩ := Option.map_eq_some_iff.mp placed
        cases same
        rcases List.mem_cons.mp member with rfl | inside
        · exact List.mem_cons_self
        · exact List.mem_cons_of_mem _ (ih found b used inside)

/-- No block fits. -/
theorem kmalloc_place_none (heap : HeapInv h l) (placed : place size l = none) :
    kmalloc h size = .ok (h, 0) :=
  kmalloc_none heap (place_eq_none.mp placed)

theorem Spaced.place (spaced : Spaced l) (grain : 16 ∣ totalSize size)
    (placed : place size l = some (ptr, l')) : Spaced l' := by
  obtain ⟨front, s, back, rfl, _, _, _, rfl⟩ := place_eq_some placed
  exact spaced.carve grain

/-- Giving a block back. -/
theorem kfreeLive_keeps (heap : HeapInv h l) (done : kfreeLive h a = .ok h') :
    ∃ l', HeapInv h' l' ∧ Keeps l' l := by
  have freed := kfree_of_kfreeLive done
  unfold kfreeLive at done
  rw [heap.blockList_eq] at done
  simp only at done
  split at done
  · rename_i member
    obtain ⟨b, found, used, rfl⟩ := mem_inUse.mp member
    obtain ⟨m, returns, next, -⟩ := kfree_used heap found used
    cases returns.symm.trans freed
    exact ⟨_, next, fun c usedC inside => ((mem_release_used usedC).mp inside).1⟩
  · cases done

/-- **The heap as it was**: blocks were taken, and given back until the same addresses are in use. -/
theorem eq_of_inUse (heap : HeapInv h l) (heap' : HeapInv h' l') {h₁ : HeapState}
    (heap₁ : HeapInv h₁ l₁) (taken : Keeps l l₁) (given : Keeps l' l₁) (same : inUse l' = inUse l) :
    l' = l := by
  have back : ∀ {k k' : List Segment}, Keeps k l₁ → Keeps k' l₁ → inUse k = inUse k' →
      ∀ b : Segment, b.free = false → b ∈ k → b ∈ k' := by
    intro k k' first second equal b used member
    have here : b.addr + 16 ∈ inUse k' := by
      rw [← equal]
      exact mem_inUse.mpr ⟨b, member, used, rfl⟩
    obtain ⟨c, found, usedC, at'⟩ := mem_inUse.mp here
    rwa [heap₁.tiles.eq_of_addr (first b used member) (second c usedC found) (by omega)]
  exact heap'.tiles.eq_of_used heap.tiles heap'.apart heap.apart fun b used =>
    ⟨back given taken same b used, back taken given same.symm b used⟩

/-- **`kfree` of any address** that is a multiple of 16 spares every other block in use. -/
theorem kfree_spares (heap : HeapInv h l) (spaced : Spaced l) (grain : 16 ∣ a) (small : a < 2 ^ 32)
    (done : kfree h a = .ok h') (member : x ∈ inUse l) (other : x ≠ a) :
    ∃ l', HeapInv h' l' ∧ Spaced l' ∧ x ∈ inUse l' := by
  by_cases null : a = 0
  · subst null
    cases done
    exact ⟨l, heap, spaced, member⟩
  · rcases kfree_stray heap (spaced.unshadowed grain) grain null small done with
      ⟨b, found, used, rfl, next, -⟩ | ⟨next, -⟩
    · refine ⟨_, next, spaced.release _, ?_⟩
      have left := inUse_release heap.tiles found used
      rw [left] at member
      exact (Multiset.mem_cons.mp member).resolve_left other
    · exact ⟨l, next, spaced, member⟩

end Restore

end Kfs.Heap
