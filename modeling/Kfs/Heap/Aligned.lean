/-
**Releasing aligned allocations.**

`kmalloc_aligned` moves the address it returns up inside the block, and `kfree` looks for the header
16 bytes below the address it is given. The two agree exactly when the payload of the first block that
fits is aligned already. Otherwise `kfree` reads client bytes as a header: it panics, or takes the
stale bytes for a header and leaves the block allocated (`kfree_inner`).
-/

import Kfs.Heap.Runs

namespace Kfs.Heap

open Memory

/-! ### Alignment -/

section Align

variable {addr align : Nat}

theorem alignUp_eq (fits : addr + align ≤ 2 ^ 32) :
    alignUp addr align = (addr + align - 1) / align * align := by
  rw [alignUp, Nat.mod_eq_of_lt (by omega)]

theorem dvd_alignUp : align ∣ alignUp addr align := Dvd.intro_left _ rfl

theorem alignUp_bounds (positive : 0 < align) (fits : addr + align ≤ 2 ^ 32) :
    addr ≤ alignUp addr align ∧ alignUp addr align < addr + align := by
  rw [alignUp_eq fits]
  have parts := Nat.div_add_mod (addr + align - 1) align
  have small := Nat.mod_lt (addr + align - 1) positive
  rw [Nat.mul_comm] at parts
  omega

/-- An aligned address stays where it is. -/
theorem alignUp_of_dvd (positive : 0 < align) (fits : addr + align ≤ 2 ^ 32)
    (aligned : align ∣ addr) : alignUp addr align = addr := by
  obtain ⟨low, high⟩ := alignUp_bounds positive fits
  obtain ⟨gap, same⟩ := Nat.exists_eq_add_of_le low
  have divides : align ∣ gap := (Nat.dvd_add_right aligned).mp (same ▸ dvd_alignUp)
  have zero := Nat.eq_zero_of_dvd_of_lt divides (by omega)
  omega

/-- A word-aligned address moves by whole words. -/
theorem four_dvd_alignUp {k : Nat} (word : 4 ∣ addr) (fits : addr + 2 ^ k ≤ 2 ^ 32)
    (moved : alignUp addr (2 ^ k) ≠ addr) : 4 ∣ alignUp addr (2 ^ k) := by
  by_cases small : k < 2
  · exfalso
    apply moved
    refine alignUp_of_dvd (by positivity) fits (Dvd.dvd.trans ?_ word)
    exact pow_dvd_pow 2 (show k ≤ 2 by omega)
  · exact Dvd.dvd.trans (pow_dvd_pow 2 (show 2 ≤ k by omega)) dvd_alignUp

end Align

/-! ### Freeing an address inside a live payload -/

/-- The low byte of a word. -/
theorem toNat_eq_load32_mod (m : Memory) (a : Nat) : (m a).toNat = m.load32 a % 2 ^ 8 := by
  have byte := (m a).toNat_lt
  simp only [load32]
  omega

section Inner

variable {h : HeapState} {l : List Segment} {u : Segment} {ptr : Nat}

/-- Marking bytes of a live payload and sweeping leaves the list as it was. -/
theorem mergeFreeBlocks_payload (inv : HeapInv h l) (member : u ∈ l) (used : u.free = false)
    (low : u.addr + 16 ≤ ptr + 4) (high : ptr + 4 < u.addr + u.size) :
    ∃ m, mergeFreeBlocks walkFuel (Header.setFree h.mem ptr true) h.start = .ok m ∧
      HeapInv (afterFree h ptr m) l := by
  have marked : HeapInv { h with mem := Header.setFree h.mem ptr true } l := by
    refine inv.write (fun x outside => store8_of_ne h.mem _ fun same => ?_)
    subst same
    exact outside u member used ⟨low, high⟩
  obtain ⟨m, swept, linked, _⟩ := mergeFreeBlocks_linked (by decide) marked.linked marked.tiles
    (by decide) (fun t inside => (marked.legal t inside).2) marked.length_lt
  rw [coalesce_of_noFreePair inv.apart] at linked
  refine ⟨m, ?_, inv.ready, inv.start, linked, inv.tiles, inv.legal, inv.apart⟩
  rw [inv.start]
  exact swept

/-- **`kfree` of an address inside a live payload never releases the block.** It panics, or it
returns with the block list unchanged. One word into the payload the byte it marks belongs to the
block's own link, so there the word before must not look like a header's magic number. -/
theorem kfree_inner (inv : HeapInv h l) (member : u ∈ l) (used : u.free = false)
    (word : 4 ∣ ptr) (low : u.addr + 16 < ptr) (high : ptr < u.addr + u.size)
    (stale : ¬ (ptr = u.addr + 20 ∧ h.mem.load32 (u.addr + 16) = blockMagic)) :
    kfree h ptr = .panic invalidPointer ∨ ∃ h', kfree h ptr = .ok h' ∧ blockList h' = some l := by
  have inside := inv.bounds member
  have below : blockOf ptr = ptr - 16 := by
    simp only [blockOf]
    simp only [heapEnd, heapStart, heapSize, blockHeaderSize] at *
    omega
  have aligned := inv.addr_dvd member
  by_cases magic : Header.magic h.mem (blockOf ptr) = blockMagic
  · cases free : Header.isFree h.mem (blockOf ptr) with
    | true => exact Or.inr ⟨h, kfree_double (by omega) magic free, inv.blockList_eq⟩
    | false =>
        rw [below] at free magic
        have notFirst : ptr ≠ u.addr + 20 := fun same => by
          refine stale ⟨same, ?_⟩
          rw [Header.magic, show ptr - 16 + 12 = u.addr + 16 by omega] at magic
          exact magic
        have notSecond : ptr ≠ u.addr + 24 := fun same => by
          have byte := toNat_eq_load32_mod h.mem (u.addr + 12)
          have own : h.mem.load32 (u.addr + 12) = blockMagic := (inv.linked.header member).2.2
          rw [own] at byte
          rw [Header.isFree, show ptr - 16 + 4 = u.addr + 12 by omega] at free
          rw [bne_eq_false_iff_eq.mp free] at byte
          exact absurd byte (by decide)
        obtain ⟨m, swept, after⟩ := mergeFreeBlocks_payload inv member used
          (show u.addr + 16 ≤ ptr - 16 + 4 by omega) (by omega)
        rw [← below] at free magic swept after
        refine Or.inr ⟨_, ?_, after.blockList_eq⟩
        rw [kfree_live (by omega) magic free, swept, Outcome.ok_bind]
  · exact Or.inl (kfree_panic (by omega) magic)

end Inner

/-! ### Aligned allocations -/

/-- `kmalloc_aligned(size, align)` followed by `kfree` of its result returns, and the heap has the
block list it had before. -/
def Releases (h : HeapState) (size align : Nat) : Prop :=
  ∃ h₁ ptr h₂, kmallocAligned h size align = .ok (h₁, ptr) ∧ kfree h₁ ptr = .ok h₂ ∧
    blockList h₂ = blockList h

/-- Every first block that fits has an aligned payload and can be carved. -/
def FirstFitAligned (h : HeapState) (size align : Nat) : Prop :=
  ∀ l s, blockList h = some l → firstFit (totalSize (size + align)) l = some s →
    align ∣ s.addr + 16 ∧ Carvable (totalSize (size + align)) s

/-- One word before the aligned address lies a payload word that looks like a magic number. -/
def StaleMagic (h : HeapState) (size align : Nat) : Prop :=
  ∃ l s, blockList h = some l ∧ firstFit (totalSize (size + align)) l = some s ∧
    align ∣ s.addr + 20 ∧ h.mem.load32 (s.addr + 16) = blockMagic

section Aligned

variable {h : HeapState} {l front back : List Segment} {s : Segment} {size align : Nat}

theorem kmallocAligned_null (inv : HeapInv h l) (fits : size + align < 2 ^ 32)
    (none : firstFit (totalSize (size + align)) l = .none) :
    kmallocAligned h size align = .ok (h, 0) := by
  unfold kmallocAligned
  rw [Nat.mod_eq_of_lt fits, kmalloc_none inv (firstFit_eq_none.mp none)]
  rfl

theorem kmallocAligned_some (inv : HeapInv h (front ++ s :: back)) (fits : size + align < 2 ^ 32)
    (positive : 0 < align) (fit : s.fits (totalSize (size + align)) = true)
    (unfit : ∀ t ∈ front, t.fits (totalSize (size + align)) = false) :
    kmallocAligned h size align =
      .ok (afterTake h (size + align) s.addr, alignUp (s.addr + 16) align) := by
  unfold kmallocAligned
  rw [Nat.mod_eq_of_lt fits, kmalloc_some inv (by omega) unfit fit, Outcome.ok_bind]
  exact if_neg (by omega)

/-- The largest 32-bit power of two is `2 ^ 31`. -/
theorem two_pow_le {k : Nat} (fits : size + 2 ^ k < 2 ^ 32) : 2 ^ k ≤ 2 ^ 31 := by
  have small : k < 32 := (Nat.pow_lt_pow_iff_right (by decide)).mp (show 2 ^ k < 2 ^ 32 by omega)
  exact Nat.pow_le_pow_right (by decide) (by omega)

/-- No payload address wraps when it is aligned. -/
theorem payload_align_le {k : Nat} (inv : HeapInv h l) (member : s ∈ l)
    (fits : size + 2 ^ k < 2 ^ 32) : s.addr + 16 + 2 ^ k ≤ 2 ^ 32 := by
  have inside := inv.bounds member
  have small := two_pow_le fits
  simp only [heapEnd, heapStart, heapSize] at inside
  omega

/-- Freeing a block just carved restores the list. -/
theorem release_carved {n : Nat} (inv : HeapInv h (front ++ s :: back)) (ok : Carvable n s)
    (fit : s.fits n = true) :
    release s.addr (front ++ carve n splitSlack s ++ back) = front ++ s :: back := by
  obtain ⟨free, room⟩ := fits_iff.mp fit
  rcases ok with legal | short
  · exact release_carve (lt_of_lt_of_le (by decide) legal.2) (by decide) inv.tiles inv.apart free
      room
  · rw [carve_whole (by decide) short]
    have inside := inv.bounds (s := s) (by simp)
    exact release_carve (by omega) (by decide) inv.tiles inv.apart free le_rfl

/-- An aligned payload is released, and the old list is back. -/
theorem released_of_aligned {k : Nat} (inv : HeapInv h l) (fits : size + 2 ^ k < 2 ^ 32)
    (aligned : FirstFitAligned h size (2 ^ k)) : Releases h size (2 ^ k) := by
  cases found : firstFit (totalSize (size + 2 ^ k)) l with
  | none => exact ⟨h, 0, h, kmallocAligned_null inv fits found, rfl, rfl⟩
  | some s =>
      obtain ⟨divides, ok⟩ := aligned l s inv.blockList_eq found
      obtain ⟨fit, front, back, rfl, unfit⟩ := firstFit_eq_some.mp found
      have member : s ∈ front ++ s :: back := by simp
      have returned := kmallocAligned_some inv fits (by positivity) fit unfit
      rw [alignUp_of_dvd (by positivity) (payload_align_le inv member fits) divides] at returned
      obtain ⟨taken, _, _, inside⟩ := @carve_used _ splitSlack _ (fits_iff.mp fit).2
      obtain ⟨m, freed, after, _⟩ := kfree_used (afterTake_inv inv ok fit)
        (s := ⟨s.addr, taken, false⟩) (by simp [inside]) rfl
      refine ⟨_, _, _, returned, freed, ?_⟩
      rw [after.blockList_eq, inv.blockList_eq, release_carved inv ok fit]

/-- The payload of the block handed out holds what it held before. -/
theorem takeBlock_payload {m : Memory} {n : Nat} (legal : LegalSize n) (fit : n ≤ s.size)
    (size : Header.size m s.addr = s.size) (low : s.addr + s.size < 2 ^ 31) :
    Set.EqOn (takeBlock m s.addr n) m (Set.Ico (s.addr + 16) (s.addr + n)) := by
  have header : Set.Ico (s.addr + 16) (s.addr + n) ⊆ {x | x < s.addr ∨ s.addr + 16 ≤ x} :=
    fun x inside => Or.inr inside.1
  by_cases enough : n + splitSlack ≤ s.size
  · rw [takeBlock_split legal.2 size low enough]
    refine (Header.setFree_eqOn.mono header).trans ?_
    refine (Header.setNext_eqOn.mono header).trans ?_
    refine (Header.setSize_eqOn.mono header).trans ?_
    exact restHeader_eqOn.mono fun x inside => Or.inl inside.2
  · rw [takeBlock_whole size fit low (by omega)]
    exact Header.setFree_eqOn.mono header

/-- A block in use is not the free block that was there. -/
theorem carved_ne {n slack : Nat} (tiles : Tiles heapStart heapEnd (front ++ s :: back))
    (free : s.free = true) (fit : n ≤ s.size) :
    front ++ carve n slack s ++ back ≠ front ++ s :: back := by
  intro same
  obtain ⟨taken, _, _, inside⟩ := @carve_used _ slack _ fit
  have member : (⟨s.addr, taken, false⟩ : Segment) ∈ front ++ s :: back := by
    rw [← same]
    simp [inside]
  have equal := tiles.eq_of_addr member (t := s) (by simp) rfl
  rw [← equal] at free
  cases free

/-- **An address moved up inside the payload is not released.** -/
theorem aligned_of_released {k : Nat} (inv : HeapInv h l) (wraps : NoWrap (size + 2 ^ k))
    (stale : ¬ StaleMagic h size (2 ^ k)) (released : Releases h size (2 ^ k)) :
    FirstFitAligned h size (2 ^ k) := by
  intro l' s walked found
  have legal := legal_totalSize wraps
  obtain rfl : l = l' := Option.some.inj (inv.blockList_eq.symm.trans walked)
  have fits : size + 2 ^ k < 2 ^ 32 := by
    unfold NoWrap at wraps
    omega
  refine ⟨?_, Or.inl legal⟩
  by_contra unaligned
  have noStale : ¬ (2 ^ k ∣ s.addr + 20 ∧ h.mem.load32 (s.addr + 16) = blockMagic) :=
    fun both => stale ⟨l, s, walked, found, both.1, both.2⟩
  obtain ⟨fit, front, back, rfl, unfit⟩ := firstFit_eq_some.mp found
  have member : s ∈ front ++ s :: back := by simp
  have inside := inv.bounds member
  have low : s.addr + s.size < 2 ^ 31 := by
    simp only [heapEnd, heapStart, heapSize] at inside
    omega
  obtain ⟨free, room⟩ := fits_iff.mp fit
  have room16 := payload_align_le inv member fits
  have total := totalSize_eq wraps
  obtain ⟨above, below⟩ := alignUp_bounds (by positivity) room16
  have moved : alignUp (s.addr + 16) (2 ^ k) ≠ s.addr + 16 := fun same =>
    unaligned (same ▸ dvd_alignUp)
  have word := four_dvd_alignUp (dvd_add (inv.addr_dvd member) (by decide)) room16 moved
  have returned := kmallocAligned_some inv fits (by positivity) fit unfit
  have after := afterTake_inv inv (Or.inl legal) fit
  obtain ⟨taken, enough, _, carved⟩ := @carve_used _ splitSlack _ room
  obtain ⟨h₁, ptr, h₂, given, freed, same⟩ := released
  rw [returned] at given
  cases given
  have payload : (afterTake h (size + 2 ^ k) s.addr).mem.load32 (s.addr + 16) =
      h.mem.load32 (s.addr + 16) := by
    have kept := takeBlock_payload legal room (inv.linked.header member).1 low
    refine load32_congr (kept.mono fun x part => ?_)
    simp only [Set.mem_Ico] at *
    have := word
    have := inv.addr_dvd member
    omega
  have legalMagic : ¬ (alignUp (s.addr + 16) (2 ^ k) = s.addr + 20 ∧
      (afterTake h (size + 2 ^ k) s.addr).mem.load32 (s.addr + 16) = blockMagic) := by
    rintro ⟨place, magic⟩
    exact noStale ⟨place ▸ dvd_alignUp, payload ▸ magic⟩
  rcases kfree_inner after (u := ⟨s.addr, taken, false⟩) (by simp [carved]) rfl word
    (by show s.addr + 16 < _; omega) (by show _ < s.addr + taken; omega) legalMagic with
    panics | ⟨h', freed', listed⟩
  · rw [panics] at freed
    cases freed
  · rw [freed'] at freed
    cases freed
    rw [listed, inv.blockList_eq] at same
    exact carved_ne inv.tiles free room (Option.some.inj same)

end Aligned

/-- **When aligned allocations can be released.** On every reachable heap, for every size and power
of two that do not wrap: an aligned first fit is released and the old block list is back; and apart
from requests whose rounding or header wraps, and from a payload whose first word imitates a magic
number, nothing else is. -/
theorem kmallocAligned_released {c : Client} (reach : Reachable c) {size k : Nat}
    (fits : size + 2 ^ k < 2 ^ 32) :
    (FirstFitAligned c.heap size (2 ^ k) → Releases c.heap size (2 ^ k)) ∧
      (NoWrap (size + 2 ^ k) → ¬ StaleMagic c.heap size (2 ^ k) →
        (Releases c.heap size (2 ^ k) ↔ FirstFitAligned c.heap size (2 ^ k))) := by
  obtain ⟨l, inv⟩ := reach.inv
  have enough : FirstFitAligned c.heap size (2 ^ k) → Releases c.heap size (2 ^ k) :=
    released_of_aligned inv.heap fits
  exact ⟨enough, fun wraps stale => ⟨aligned_of_released inv.heap wraps stale, enough⟩⟩

/-- The heap after `kmalloc_init` over zeroed memory. -/
def freshHeap : HeapState := (Client.init fun _ => 0).heap

theorem freshHeap_inv : HeapInv freshHeap [⟨heapStart, heapSize, true⟩] :=
  (clientInv_init fun _ => 0).heap

theorem kmallocAligned_released_16 :
    FirstFitAligned freshHeap 4096 16 ∧ Releases freshHeap 4096 16 := by
  have aligned : FirstFitAligned freshHeap 4096 (2 ^ 4) := by
    intro l s walked found
    obtain rfl := Option.some.inj (freshHeap_inv.blockList_eq.symm.trans walked)
    obtain rfl : (⟨heapStart, heapSize, true⟩ : Segment) = s := Option.some.inj found
    exact ⟨by decide, Or.inl ⟨by decide, by decide⟩⟩
  have reach : Reachable (Client.init fun _ => 0) := ⟨_, [], .nil _⟩
  exact ⟨aligned, (@kmallocAligned_released _ reach 4096 4 (by decide)).1 aligned⟩

/-- The first directory a kernel allocates: the address is moved up, and freeing it panics. -/
theorem kfree_aligned_panics :
    ∃ h, kmallocAligned freshHeap 4096 4096 = .ok (h, 0x501000) ∧
      kfree h 0x501000 = .panic invalidPointer ∧ Reachable (Client.init fun _ => 0) ∧
      ¬ Releases freshHeap 4096 4096 := by
  have returned := @kmallocAligned_some freshHeap [] [] _ 4096 4096 freshHeap_inv (by decide)
    (by decide) (by decide) (by simp)
  rw [show alignUp ((⟨heapStart, heapSize, true⟩ : Segment).addr + 16) 4096 = 0x501000 by decide]
    at returned
  have panics : kfree (afterTake freshHeap (4096 + 4096) heapStart) 0x501000 =
      .panic invalidPointer := by
    refine kfree_panic (by decide) ?_
    have kept : Set.EqOn (takeBlock freshHeap.mem heapStart (totalSize (4096 + 4096)))
        freshHeap.mem (Set.Ico (heapStart + 16) (heapStart + totalSize (4096 + 4096))) :=
      takeBlock_payload (s := ⟨heapStart, heapSize, true⟩) ⟨by decide, by decide⟩ (by decide)
        (freshHeap_inv.linked.header List.mem_cons_self).1 (by decide)
    have word : Header.magic (takeBlock freshHeap.mem heapStart (totalSize (4096 + 4096)))
        0x500ff0 = 0 := by
      refine (load32_congr (kept.mono fun x inside => ?_)).trans (by decide)
      have total : heapStart + totalSize (4096 + 4096) = 0x502010 := by decide
      have first : heapStart + 16 = 0x500010 := by decide
      rw [total, first]
      simp only [Set.mem_Ico] at *
      omega
    rw [show blockOf 0x501000 = 0x500ff0 by decide]
    show Header.magic (takeBlock freshHeap.mem heapStart (totalSize (4096 + 4096))) _ ≠ _
    rw [word]
    decide
  refine ⟨_, returned, panics, ⟨_, [], .nil _⟩, ?_⟩
  rintro ⟨h₁, ptr, h₂, given, freed, _⟩
  rw [returned] at given
  cases given
  rw [panics] at freed
  cases freed

end Kfs.Heap
