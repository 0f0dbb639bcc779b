/-
**Aligned allocations are aligned, and inside their block.**

`kmalloc_aligned` asks for `align` bytes more than the caller, and rounds the address up with a mask. On 32-bit
words the mask of a power of two takes away the remainder (`alignMask_toNat`), so `kmallocAlignedWords`, which
is the function on words, is `kmallocAligned` (`kmallocAlignedWords_eq`). What it returns is a multiple of
`align`, and the bytes asked for lie in the payload of one block that was carved from a free one:
`kmallocAligned_contained`.
-/

import Kfs.Heap.Aligned

namespace Kfs.Heap

/-- `(addr + align - 1) & ~(align - 1)`. -/
def alignMask (addr align : UInt32) : UInt32 := (addr + align - 1) &&& ~~~(align - 1)

/-- `kmalloc_aligned` on words. -/
def kmallocAlignedWords (h : HeapState) (size align : UInt32) : Outcome (HeapState × UInt32) := do
  let (h, ptr) ← kmalloc h (size + align).toNat
  if ptr = 0 then return (h, 0)
  return (h, alignMask (UInt32.ofNat ptr) align)

/-- The bytes `[p, p + size)` are in the payload of a block in use of the list `l'`, which was (part of) a free
block of the list `l`. -/
def Contained (l l' : List Segment) (p size : Nat) : Prop :=
  ∃ s ∈ l, ∃ b ∈ l', s.free = true ∧ b.free = false ∧ b.addr = s.addr ∧ b.size ≤ s.size ∧
    b.addr + blockHeaderSize ≤ p ∧ p + size ≤ b.addr + b.size

section Mask

variable {addr align : UInt32} {k : Nat}

/-- Clearing the low `k` bits of a word takes the remainder away. -/
theorem and_not_low {width : Nat} (x : BitVec width) (k : Nat) :
    (x &&& ~~~BitVec.ofNat width (2 ^ k - 1)).toNat = x.toNat / 2 ^ k * 2 ^ k := by
  apply Nat.eq_of_testBit_eq
  intro i
  rw [BitVec.testBit_toNat, BitVec.getLsbD_and, BitVec.getLsbD_not, BitVec.getLsbD_ofNat,
    Nat.testBit_two_pow_sub_one, Nat.testBit_mul_two_pow, Nat.testBit_div_two_pow]
  by_cases low : k ≤ i
  · rw [Nat.sub_add_cancel low, BitVec.testBit_toNat]
    by_cases inside : i < width
    · simp [low, inside]
    · simp [BitVec.getLsbD_of_ge x i (not_lt.mp inside)]
  · have below : i < k := not_le.mp low
    by_cases inside : i < width
    · simp [low, below, inside]
    · simp [low, inside]

/-- **The mask rounds up**, for a power of two. -/
theorem alignMask_toNat (power : align.toNat = 2 ^ k) :
    (alignMask addr align).toNat = alignUp addr.toNat align.toNat := by
  have positive : 0 < 2 ^ k := Nat.two_pow_pos k
  have small := addr.toNat_lt
  have small' := align.toNat_lt
  have mask : (align - 1).toBitVec = BitVec.ofNat 32 (2 ^ k - 1) := by
    apply BitVec.eq_of_toNat_eq
    rw [UInt32.toNat_toBitVec, UInt32.toNat_sub, BitVec.toNat_ofNat, UInt32.toNat_one]
    omega
  have raised : (addr + align - 1).toNat = (addr.toNat + align.toNat - 1) % 2 ^ 32 := by
    rw [UInt32.toNat_sub, UInt32.toNat_add, UInt32.toNat_one]
    omega
  have cleared : (alignMask addr align).toNat = (addr + align - 1).toNat / 2 ^ k * 2 ^ k := by
    unfold alignMask
    rw [← UInt32.toNat_toBitVec, UInt32.toBitVec_and, UInt32.toBitVec_not, mask, and_not_low,
      UInt32.toNat_toBitVec]
  rw [cleared, raised, alignUp, power]

end Mask

section Contained

variable {h h' : HeapState} {l front back : List Segment} {s : Segment} {size align p : UInt32} {k : Nat}

/-- What `kmalloc` returns is a word. -/
theorem kmalloc_small {size ptr : Nat} (inv : HeapInv h l) (fits : NoWrap size)
    (taken : kmalloc h size = .ok (h', ptr)) : ptr < 2 ^ 31 := by
  rcases kmalloc_cases inv fits taken with ⟨rfl, _⟩ | ⟨front, s, back, rfl, _, _, rfl, _, _⟩
  · decide
  · have bounds := inv.bounds (s := s) (by simp)
    simp only [heapEnd, heapStart, heapSize] at bounds
    omega

/-- **The function on words is `kmallocAligned`**: it returns the same heap, and the address as a word. -/
theorem kmallocAlignedWords_eq (inv : HeapInv h l) (power : align.toNat = 2 ^ k)
    (fits : NoWrap (size.toNat + align.toNat)) :
    kmallocAlignedWords h size align =
      (kmallocAligned h size.toNat align.toNat >>= fun r => .ok (r.1, UInt32.ofNat r.2)) := by
  have sum : (size + align).toNat = (size.toNat + align.toNat) % 2 ^ 32 := UInt32.toNat_add size align
  have whole : (size.toNat + align.toNat) % 2 ^ 32 = size.toNat + align.toNat := by
    unfold NoWrap at fits
    omega
  unfold kmallocAlignedWords kmallocAligned
  rw [sum, whole]
  cases taken : kmalloc h (size.toNat + align.toNat) with
  | panic message => rfl
  | diverge => rfl
  | ok r =>
      obtain ⟨h', ptr⟩ := r
      have small := kmalloc_small inv fits taken
      have word : (UInt32.ofNat ptr).toNat = ptr := by
        rw [UInt32.toNat_ofNat']
        omega
      have masked : alignMask (UInt32.ofNat ptr) align = UInt32.ofNat (alignUp ptr align.toNat) := by
        apply UInt32.toNat_inj.mp
        have rounded := @alignMask_toNat (UInt32.ofNat ptr) align k power
        rw [word] at rounded
        rw [UInt32.toNat_ofNat', ← rounded, Nat.mod_eq_of_lt (UInt32.toNat_lt _)]
      by_cases null : ptr = 0
      · simp only [Outcome.ok_bind, if_pos null]
        rfl
      · simp only [Outcome.ok_bind, if_neg null, masked]
        rfl

/-- What `kmalloc_aligned` returns: NULL, or an address in a block that was carved for it. -/
theorem kmallocAligned_cases {size align p : Nat} (inv : HeapInv h l) (power : align = 2 ^ k)
    (fits : NoWrap (size + align)) (returned : kmallocAligned h size align = .ok (h', p)) :
    (p = 0 ∧ h' = h) ∨ ∃ l', HeapInv h' l' ∧ align ∣ p ∧ p < 2 ^ 32 ∧ Contained l l' p size := by
  have positive : 0 < align := by
    rw [power]
    exact Nat.two_pow_pos k
  have sum : size + align < 2 ^ 32 := by
    unfold NoWrap at fits
    omega
  cases found : firstFit (totalSize (size + align)) l with
  | none =>
      rw [kmallocAligned_null inv sum found] at returned
      cases returned
      exact .inl ⟨rfl, rfl⟩
  | some s =>
      obtain ⟨fit, front, back, rfl, unfit⟩ := firstFit_eq_some.mp found
      have member : s ∈ front ++ s :: back := by simp
      rw [kmallocAligned_some inv sum positive fit unfit] at returned
      cases returned
      have room : s.addr + 16 + align ≤ 2 ^ 32 := by
        rw [power] at sum ⊢
        exact payload_align_le inv member sum
      obtain ⟨low, high⟩ := alignUp_bounds positive room
      obtain ⟨free, large⟩ := fits_iff.mp fit
      obtain ⟨given, enough, most, carved⟩ := @carve_used _ splitSlack _ large
      rw [totalSize_eq fits] at enough
      have after := afterTake_inv inv (.inl (legal_totalSize fits)) fit
      refine .inr ⟨_, after, dvd_alignUp, by omega, s, member, ⟨s.addr, given, false⟩, by simp [carved], free,
        rfl, rfl, most, low, ?_⟩
      show _ ≤ s.addr + given
      omega

end Contained

/-- **Aligned allocations are aligned and contained**: on every reachable heap, for every power of two and every
size that do not wrap, `kmalloc_aligned` returns NULL with the heap as it was, or a multiple of `align` with the
bytes asked for inside the payload of one block in use that was free before. -/
theorem kmallocAligned_contained {c : Client} (reach : Reachable c) (size align : UInt32) (k : Nat)
    (power : align.toNat = 2 ^ k) (fits : size.toNat + align.toNat + 19 < 2 ^ 32)
    (h' : HeapState) (p : UInt32) (returned : kmallocAlignedWords c.heap size align = .ok (h', p)) :
    align.toNat ∣ p.toNat ∧ ((p = 0 ∧ h' = c.heap) ∨ ∃ l l', blockList c.heap = some l ∧
      blockList h' = some l' ∧ Contained l l' p.toNat size.toNat) := by
  obtain ⟨l, inv⟩ := reach.inv
  rw [kmallocAlignedWords_eq inv.heap power fits] at returned
  obtain ⟨⟨h₁, addr⟩, aligned, same⟩ := Outcome.bind_eq_ok.mp returned
  cases same
  rcases kmallocAligned_cases inv.heap power fits aligned with ⟨rfl, rfl⟩ | ⟨l', inv', divides, small, inside⟩
  · exact ⟨Dvd.intro 0 rfl, .inl ⟨rfl, rfl⟩⟩
  · have word : (UInt32.ofNat addr).toNat = addr := by
      rw [UInt32.toNat_ofNat', Nat.mod_eq_of_lt small]
    simp only [word]
    exact ⟨divides, .inr ⟨l, l', inv.heap.blockList_eq, inv'.blockList_eq, inside⟩⟩

/-- The first page that a kernel allocates. -/
theorem kmallocAligned_contained_page : ∃ h', kmallocAlignedWords freshHeap 4096 4096 = .ok (h', 0x501000) ∧
    (4096 : UInt32).toNat ∣ (0x501000 : UInt32).toNat ∧ (((0x501000 : UInt32) = 0 ∧ h' = freshHeap) ∨
      ∃ l l', blockList freshHeap = some l ∧ blockList h' = some l' ∧
        Contained l l' (0x501000 : UInt32).toNat (4096 : UInt32).toNat) := by
  have power : (4096 : UInt32).toNat = 2 ^ 12 := by decide
  have taken := @kmallocAligned_some freshHeap [] [] _ 4096 4096 freshHeap_inv (by decide) (by decide) (by decide)
    (by simp)
  have returned : kmallocAlignedWords freshHeap 4096 4096 =
      .ok (afterTake freshHeap (4096 + 4096) heapStart, 0x501000) := by
    rw [kmallocAlignedWords_eq freshHeap_inv power (by decide)]
    show (kmallocAligned freshHeap 4096 4096 >>= _) = _
    rw [taken]
    rfl
  exact ⟨_, returned, kmallocAligned_contained ⟨_, [], .nil _⟩ 4096 4096 12 power (by decide) _ _ returned⟩

end Kfs.Heap
