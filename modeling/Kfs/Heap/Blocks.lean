/-
**The block list in memory.**

`Linked m p l` says that the headers reached from the pointer `p` spell out the segment list `l`;
`blockList` walks memory and returns that list. `HeapInv h l` is the allocator's invariant: the list
from `HEAP_START` is `l`, it tiles the heap exactly, every block is a multiple of 4 bytes and at least
a header, and no two neighbours are both free.

The lemmas here are about memory only: what a header field write changes, and that a list stays
linked when its headers are left alone (`Linked.congr`) or a middle part is replaced
(`Linked.replace`).
-/

import Kfs.Base.Segments
import Kfs.Heap.Kmalloc

namespace Kfs.Heap

open Memory

/-! ### Header fields -/

namespace Header

variable {m m' : Memory} {b c v : Nat}

/-- A header depends only on its sixteen bytes. -/
theorem congr (same : Set.EqOn m' m (Set.Ico b (b + 16))) :
    size m' b = size m b ∧ isFree m' b = isFree m b ∧ next m' b = next m b ∧
      magic m' b = magic m b := by
  refine ⟨?_, ?_, ?_, ?_⟩
  · exact load32_congr (same.mono fun x inside => by simp only [Set.mem_Ico] at *; omega)
  · rw [isFree, isFree, same (by simp only [Set.mem_Ico]; omega)]
  · exact load32_congr (same.mono fun x inside => by simp only [Set.mem_Ico] at *; omega)
  · exact load32_congr (same.mono fun x inside => by simp only [Set.mem_Ico] at *; omega)

theorem next_lt : next m b < 2 ^ 32 := load32_lt m _

/-! Each field write is read back and leaves the other fields of the header alone. -/

@[simp] theorem size_setSize : size (setSize m b v) b = v % 2 ^ 32 := load32_store32 m b v

@[simp] theorem isFree_setSize : isFree (setSize m b v) b = isFree m b := by
  rw [isFree, setSize, store32_of_disjoint _ _ (by omega), isFree]

@[simp] theorem next_setSize : next (setSize m b v) b = next m b :=
  load32_store32_of_disjoint m v (by omega)

@[simp] theorem magic_setSize : magic (setSize m b v) b = magic m b :=
  load32_store32_of_disjoint m v (by omega)

@[simp] theorem size_setFree {f : Bool} : size (setFree m b f) b = size m b :=
  load32_store8_of_disjoint m _ (by omega)

@[simp] theorem isFree_setFree {f : Bool} : isFree (setFree m b f) b = f := by
  rw [isFree, setFree, store8_self]
  cases f <;> decide

@[simp] theorem next_setFree {f : Bool} : next (setFree m b f) b = next m b :=
  load32_store8_of_disjoint m _ (by omega)

@[simp] theorem magic_setFree {f : Bool} : magic (setFree m b f) b = magic m b :=
  load32_store8_of_disjoint m _ (by omega)

@[simp] theorem size_setNext : size (setNext m b v) b = size m b :=
  load32_store32_of_disjoint m v (by omega)

@[simp] theorem isFree_setNext : isFree (setNext m b v) b = isFree m b := by
  rw [isFree, setNext, store32_of_disjoint _ _ (by omega), isFree]

@[simp] theorem next_setNext : next (setNext m b v) b = v % 2 ^ 32 := load32_store32 m _ v

@[simp] theorem magic_setNext : magic (setNext m b v) b = magic m b :=
  load32_store32_of_disjoint m v (by omega)

@[simp] theorem size_setMagic : size (setMagic m b v) b = size m b :=
  load32_store32_of_disjoint m v (by omega)

@[simp] theorem isFree_setMagic : isFree (setMagic m b v) b = isFree m b := by
  rw [isFree, setMagic, store32_of_disjoint _ _ (by omega), isFree]

@[simp] theorem next_setMagic : next (setMagic m b v) b = next m b :=
  load32_store32_of_disjoint m v (by omega)

@[simp] theorem magic_setMagic : magic (setMagic m b v) b = v % 2 ^ 32 := load32_store32 m _ v

/-! A field write changes nothing outside its header. -/

theorem setSize_eqOn : Set.EqOn (setSize m b v) m {x | x < b ∨ b + 16 ≤ x} :=
  (store32_eqOn m b v).mono fun x outside => by
    simp only [Set.mem_ofPred_eq] at *
    omega

theorem setFree_eqOn {f : Bool} : Set.EqOn (setFree m b f) m {x | x < b ∨ b + 16 ≤ x} :=
  (store8_eqOn m _ _).mono fun x outside => by
    simp only [Set.mem_ofPred_eq] at *
    omega

theorem setNext_eqOn : Set.EqOn (setNext m b v) m {x | x < b ∨ b + 16 ≤ x} :=
  (store32_eqOn m _ v).mono fun x outside => by
    simp only [Set.mem_ofPred_eq] at *
    omega

theorem setMagic_eqOn : Set.EqOn (setMagic m b v) m {x | x < b ∨ b + 16 ≤ x} :=
  (store32_eqOn m _ v).mono fun x outside => by
    simp only [Set.mem_ofPred_eq] at *
    omega

/-- Two headers at least a header apart: one is unchanged by a change outside it. -/
theorem congr_of_apart (same : Set.EqOn m' m {x | x < b ∨ b + 16 ≤ x})
    (apart : b + 16 ≤ c ∨ c + 16 ≤ b) :
    size m' c = size m c ∧ isFree m' c = isFree m c ∧ next m' c = next m c ∧
      magic m' c = magic m c :=
  congr (same.mono fun x inside => by
    simp only [Set.mem_Ico, Set.mem_ofPred_eq] at *
    omega)

end Header

/-! ### Linked lists of headers -/

/-- The headers from `p` on spell out the list. -/
def Linked (m : Memory) : Nat → List Segment → Prop
  | p, [] => p = 0
  | p, s :: rest =>
      p = s.addr ∧ Header.size m p = s.size ∧ Header.isFree m p = s.free ∧
        Header.magic m p = blockMagic ∧ Linked m (Header.next m p) rest

/-- The walk of `kmalloc_stats` and of every search: the blocks from `current` on. -/
def walk (m : Memory) : (fuel current : Nat) → Option (List Segment)
  | 0, _ => none
  | fuel + 1, current =>
      if current = 0 then some []
      else (walk m fuel (Header.next m current)).map
        (⟨current, Header.size m current, Header.isFree m current⟩ :: ·)

/-- The heap's block list, or nothing when the list has no end. -/
def blockList (h : HeapState) : Option (List Segment) := walk h.mem walkFuel h.start

section Linked

variable {m m' : Memory} {p : Nat} {l : List Segment}

/-- A list whose headers are left alone stays linked. -/
theorem Linked.congr (linked : Linked m p l)
    (same : ∀ s ∈ l, Set.EqOn m' m (Set.Ico s.addr (s.addr + 16))) : Linked m' p l := by
  induction l generalizing p with
  | nil => exact linked
  | cons s rest ih =>
      obtain ⟨here, size, free, magic, tail⟩ := linked
      subst here
      obtain ⟨size', free', next', magic'⟩ := Header.congr (same s List.mem_cons_self)
      refine ⟨rfl, size'.trans size, free'.trans free, magic'.trans magic, ?_⟩
      rw [next']
      exact ih tail fun t member => same t (List.mem_cons_of_mem _ member)

/-- The pointer a linked list starts with. -/
def headPtr : List Segment → Nat
  | [] => 0
  | s :: _ => s.addr

theorem Linked.headPtr (linked : Linked m p l) : p = Heap.headPtr l := by
  cases l with
  | nil => exact linked
  | cons s rest => exact linked.1

/-- **Replacing the tail of a linked list.** The front keeps its headers, and whatever is linked at
the old seam may follow it. -/
theorem Linked.replace {front back : List Segment} (linked : Linked m p (front ++ back)) :
    Linked m (Heap.headPtr back) back ∧
      ∀ {m' : Memory} {tail : List Segment},
        (∀ s ∈ front, Set.EqOn m' m (Set.Ico s.addr (s.addr + 16))) →
        Linked m' (Heap.headPtr back) tail → Linked m' p (front ++ tail) := by
  induction front generalizing p with
  | nil =>
      have here := linked.headPtr
      subst here
      exact ⟨linked, fun _ tail => tail⟩
  | cons s front ih =>
      obtain ⟨here, size, free, magic, rest⟩ := linked
      subst here
      obtain ⟨seam, put⟩ := ih rest
      refine ⟨seam, fun same tail => ?_⟩
      obtain ⟨size', free', next', magic'⟩ := Header.congr (same s List.mem_cons_self)
      refine ⟨rfl, size'.trans size, free'.trans free, magic'.trans magic, ?_⟩
      rw [next']
      exact put (fun t member => same t (List.mem_cons_of_mem _ member)) tail

/-- A member of a linked list has its header in memory. -/
theorem Linked.header (linked : Linked m p l) {s : Segment} (member : s ∈ l) :
    Header.size m s.addr = s.size ∧ Header.isFree m s.addr = s.free ∧
      Header.magic m s.addr = blockMagic := by
  induction l generalizing p with
  | nil => cases member
  | cons t rest ih =>
      obtain ⟨here, size, free, magic, tail⟩ := linked
      subst here
      rcases List.mem_cons.mp member with rfl | inside
      · exact ⟨size, free, magic⟩
      · exact ih tail inside

/-- The walk reads a linked list back. -/
theorem walk_of_linked (linked : Linked m p l) (nonzero : ∀ s ∈ l, s.addr ≠ 0) {fuel : Nat}
    (enough : l.length < fuel) : walk m fuel p = some l := by
  induction l generalizing p fuel with
  | nil =>
      obtain ⟨fuel, rfl⟩ := Nat.exists_eq_succ_of_ne_zero (show fuel ≠ 0 by omega)
      rw [walk, if_pos (show p = 0 from linked)]
  | cons s rest ih =>
      obtain ⟨fuel, rfl⟩ := Nat.exists_eq_succ_of_ne_zero (show fuel ≠ 0 by omega)
      obtain ⟨here, size, free, magic, tail⟩ := linked
      subst here
      rw [walk, if_neg (nonzero s List.mem_cons_self),
        ih tail (fun t member => nonzero t (List.mem_cons_of_mem _ member))
          (by simp only [List.length_cons] at enough; omega), size, free]
      rfl

end Linked

/-! ### The invariant -/

/-- A legal block size: a multiple of 4 that holds at least a header. -/
def LegalSize (size : Nat) : Prop := 4 ∣ size ∧ blockHeaderSize ≤ size

/-- **The heap invariant.** -/
structure HeapInv (h : HeapState) (l : List Segment) : Prop where
  ready : h.initialized = true
  start : h.start = heapStart
  linked : Linked h.mem heapStart l
  tiles : Tiles heapStart heapEnd l
  legal : ∀ s ∈ l, LegalSize s.size
  apart : NoFreePair l

namespace HeapInv

variable {h : HeapState} {l : List Segment} {s : Segment}

/-- Every block lies in the heap, at a multiple of 4 away from its start. -/
theorem bounds (inv : HeapInv h l) (member : s ∈ l) :
    heapStart ≤ s.addr ∧ 16 ≤ s.size ∧ s.addr + s.size ≤ heapEnd := by
  have inside := inv.tiles.bounds member
  have legal := (inv.legal s member).2
  exact ⟨inside.1, legal, inside.2.2⟩

theorem length_lt (inv : HeapInv h l) : l.length < walkFuel := by
  have short := inv.tiles.length_le fun s member => (inv.legal s member).2
  simp only [heapEnd, heapSize, heapStart, blockHeaderSize, walkFuel] at *
  omega

theorem addr_ne_zero (inv : HeapInv h l) (member : s ∈ l) : s.addr ≠ 0 := by
  have inside := inv.bounds member
  simp only [heapStart] at inside
  omega

/-- **The invariant's list is the one a walk over memory finds.** -/
theorem blockList_eq (inv : HeapInv h l) : blockList h = some l := by
  rw [blockList, inv.start]
  exact walk_of_linked inv.linked (fun s member => inv.addr_ne_zero member) inv.length_lt

/-- A heap has one block list. -/
theorem unique {l' : List Segment} (inv : HeapInv h l) (inv' : HeapInv h l') : l = l' := by
  have same := inv.blockList_eq.symm.trans inv'.blockList_eq
  exact Option.some.inj same

end HeapInv

/-- Block addresses are multiples of 4. -/
theorem addr_aligned {lo hi : Nat} {l : List Segment} (tiles : Tiles lo hi l) (low : 4 ∣ lo)
    (legal : ∀ s ∈ l, LegalSize s.size) {s : Segment} (member : s ∈ l) : 4 ∣ s.addr := by
  induction l generalizing lo with
  | nil => cases member
  | cons head rest ih =>
      obtain ⟨start, _, later⟩ := tiles
      rcases List.mem_cons.mp member with rfl | inside
      · rwa [start]
      · have head4 := (legal head List.mem_cons_self).1
        exact ih later (dvd_add low head4) (fun t m => legal t (List.mem_cons_of_mem _ m)) inside

theorem HeapInv.addr_dvd {h : HeapState} {l : List Segment} (inv : HeapInv h l) {s : Segment}
    (member : s ∈ l) : 4 ∣ s.addr :=
  addr_aligned inv.tiles (by decide) inv.legal member

end Kfs.Heap
