/-
**The blocks in use.**

`inUse` is the multiset of the payload addresses of a block list: what `kmalloc` returned and `kfree`
did not get back. Taking a block adds one address (`inUse_place`), and giving it back removes it
(`inUse_release`), so that a client that can say which addresses it holds can say that it holds all of
them. `kfreeLive` is `kfree` for such clients: it refuses every other address.
-/

import Kfs.Heap.Runs
import Mathlib.Data.Multiset.AddSub

namespace Kfs.Heap

open Memory

/-- The payloads of the blocks in use. -/
def inUse (l : List Segment) : Multiset Nat :=
  ((l.filter fun s => !s.free).map fun s => s.addr + blockHeaderSize : List Nat)

section Lists

variable {l l' : List Segment} {s : Segment} {lo hi a ptr size : Nat}

theorem inUse_cons_free (free : s.free = true) : inUse (s :: l) = inUse l := by
  simp [inUse, free]

theorem inUse_cons_used (used : s.free = false) : inUse (s :: l) = (s.addr + 16) ::ₘ inUse l := by
  simp [inUse, used, blockHeaderSize]

theorem inUse_append : inUse (l ++ l') = inUse l + inUse l' := by
  simp [inUse]

theorem mem_inUse : a ∈ inUse l ↔ ∃ s ∈ l, s.free = false ∧ s.addr + 16 = a := by
  simp [inUse, blockHeaderSize, and_assoc]

theorem inUse_nodup (tiles : Tiles lo hi l) : (inUse l).Nodup := by
  have names : (l.map fun s => s.addr + blockHeaderSize).Nodup := by
    have nodup := tiles.nodup.map (f := (· + blockHeaderSize)) fun _ _ same => Nat.add_right_cancel same
    rwa [List.map_map] at nodup
  exact Multiset.coe_nodup.mpr (names.sublist (List.Sublist.map _ List.filter_sublist))

theorem inUse_carve {n slack : Nat} : inUse (carve n slack s) = {s.addr + 16} := by
  unfold carve
  split
  · rw [inUse_cons_used rfl, inUse_cons_free rfl]
    rfl
  · rw [inUse_cons_used rfl]
    rfl

/-- **Taking a block** adds its payload. -/
theorem inUse_place (placed : place size l = some (ptr, l')) : inUse l' = ptr ::ₘ inUse l := by
  induction l generalizing l' with
  | nil => cases placed
  | cons s rest ih =>
      rw [place] at placed
      by_cases fit : s.fits (totalSize size) = true
      · rw [if_pos fit] at placed
        cases placed
        rw [inUse_append, inUse_carve, inUse_cons_free (fits_iff.mp fit).1, Multiset.singleton_add]
        rfl
      · rw [if_neg fit] at placed
        obtain ⟨⟨ptr', l₁⟩, found, same⟩ := Option.map_eq_some_iff.mp placed
        cases same
        cases free : s.free with
        | true => rw [inUse_cons_free free, inUse_cons_free free, ih found]
        | false => rw [inUse_cons_used free, inUse_cons_used free, ih found, Multiset.cons_swap]

theorem inUse_coalesce (l : List Segment) : inUse (coalesce l) = inUse l := by
  unfold inUse
  rw [filter_coalesce]

/-- **Giving a block back** removes its payload. -/
theorem inUse_release (tiles : Tiles lo hi l) (member : s ∈ l) (used : s.free = false) :
    inUse l = (s.addr + 16) ::ₘ inUse (release s.addr l) := by
  obtain ⟨front, back, rfl⟩ := List.append_of_mem member
  rw [release, inUse_coalesce, markFree_split tiles, inUse_append, inUse_append, inUse_cons_used used,
    inUse_cons_free rfl, Multiset.add_cons]

end Lists

/-- The message when an address is not that of a block in use. -/
def notInUse : String := "kfree: not the address of a block in use"

/-- `kfree` of nothing but the payload of a block in use. -/
def kfreeLive (h : HeapState) (ptr : Nat) : Outcome HeapState :=
  match blockList h with
  | none => .panic notInUse
  | some l => if ptr ∈ inUse l then kfree h ptr else .panic notInUse

theorem kfree_of_kfreeLive {h h' : HeapState} {ptr : Nat} (done : kfreeLive h ptr = .ok h') :
    kfree h ptr = .ok h' := by
  unfold kfreeLive at done
  split at done
  · cases done
  · split at done
    · exact done
    · cases done

end Kfs.Heap
