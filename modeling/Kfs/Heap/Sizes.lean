/-
**Request sizes up to the top of the 32-bit range.**

`kmalloc` rounds the size up and adds a header in 32-bit arithmetic. From `2^32 - 19` on the sum wraps
and the block it looks for has 0 to 16 bytes (`totalSize_wrapped`): every free block fits. Taking the
first of them leaves a block of that size on the list, or hands it out whole.

`request_sound` settles every size on a heap that satisfies the invariant: what `kmalloc` returns
holds the request, and the list it leaves is a list of proper blocks, exactly when the size does not
wrap or no block is free. `kmalloc_sizes` says it for the runs of clients that ask for any size.
-/

import Kfs.Heap.Runs

namespace Kfs.Heap

open Memory

/-! ### Sizes that wrap -/

/-- A size that wraps becomes a request for less than 20 bytes, the header included. -/
theorem totalSize_wrapped {size : Nat} (word : size < 2 ^ 32) (wraps : ¬ NoWrap size) :
    totalSize size ≤ 16 := by
  unfold NoWrap blockHeaderSize at wraps
  unfold totalSize round4 blockHeaderSize
  omega

/-- The size `kmalloc` writes into the block it takes. -/
theorem size_takeBlock (m : Memory) (block n : Nat) :
    Header.size (takeBlock m block n) block =
      if (n + blockHeaderSize + 16) % 2 ^ 32 ≤ Header.size m block then n % 2 ^ 32
      else Header.size m block := by
  unfold takeBlock splitBlock
  rw [Header.size_setFree]
  split
  · simp only [Header.size_setNext, Header.size_setSize]
  · rfl

/-- Splitting at any offset that leaves room for the new header writes inside the block. -/
theorem takeBlock_small_eqOn {m : Memory} {s : Segment} {n : Nat} (size : Header.size m s.addr = s.size)
    (low : s.addr + s.size < 2 ^ 31) (small : n ≤ 16) (big : 16 ≤ s.size) :
    Set.EqOn (takeBlock m s.addr n) m {x | ¬ s.Covers x} := by
  have header : {x | ¬ s.Covers x} ⊆ {x | x < s.addr ∨ s.addr + 16 ≤ x} := fun x outside => by
    simp only [Set.mem_ofPred_eq, Segment.Covers] at *
    omega
  unfold takeBlock splitBlock
  refine (Header.setFree_eqOn.mono header).trans ?_
  split
  · rename_i room
    rw [size, blockHeaderSize] at room
    have target : (s.addr + n) % 2 ^ 32 = s.addr + n := Nat.mod_eq_of_lt (by omega)
    have second : {x | ¬ s.Covers x} ⊆ {x | x < s.addr + n ∨ s.addr + n + 16 ≤ x} :=
      fun x outside => by
        simp only [Set.mem_ofPred_eq, Segment.Covers] at *
        omega
    simp only [target]
    refine (Header.setNext_eqOn.mono header).trans ?_
    refine (Header.setSize_eqOn.mono header).trans ?_
    refine (Header.setMagic_eqOn.mono second).trans ?_
    refine (Header.setNext_eqOn.mono second).trans ?_
    exact (Header.setFree_eqOn.mono second).trans (Header.setSize_eqOn.mono second)
  · exact Set.eqOn_refl _ _

/-- **A walk that ends passes through a block whose predecessors kept their headers**, and finds
there the size that is in memory now. -/
theorem walk_through {m m' : Memory} {front back l' : List Segment} {s : Segment} {p fuel : Nat}
    (linked : Linked m p (front ++ s :: back)) (nonzero : ∀ t ∈ front ++ s :: back, t.addr ≠ 0)
    (same : ∀ t ∈ front, Set.EqOn m' m (Set.Ico t.addr (t.addr + 16)))
    (walked : walk m' fuel p = some l') : ∃ t ∈ l', t.size = Header.size m' s.addr := by
  induction front generalizing p fuel l' with
  | nil =>
      obtain ⟨here, _⟩ := linked
      subst here
      cases fuel with
      | zero => cases walked
      | succ fuel =>
          rw [walk, if_neg (nonzero s List.mem_cons_self)] at walked
          obtain ⟨rest, _, rfl⟩ := Option.map_eq_some_iff.mp walked
          exact ⟨_, List.mem_cons_self, rfl⟩
  | cons t front ih =>
      obtain ⟨here, _, _, _, tail⟩ := linked
      subst here
      cases fuel with
      | zero => cases walked
      | succ fuel =>
          rw [walk, if_neg (nonzero t List.mem_cons_self)] at walked
          obtain ⟨rest, later, rfl⟩ := Option.map_eq_some_iff.mp walked
          rw [(Header.congr (same t List.mem_cons_self)).2.2.1] at later
          obtain ⟨u, member, size⟩ := ih tail
            (fun v inside => nonzero v (List.mem_cons_of_mem _ inside))
            (fun v inside => same v (List.mem_cons_of_mem _ inside)) later
          exact ⟨u, List.mem_cons_of_mem _ member, size⟩

/-! ### One request -/

/-- What a request must get: enough bytes, on a list that still ends and has no block below a header. -/
def RequestSound (h : HeapState) (size ptr : Nat) : Prop :=
  ptr ≠ 0 → size ≤ ksize h ptr ∧ ∃ l, blockList h = some l ∧ ∀ s ∈ l, blockHeaderSize ≤ s.size

/-- No block is free. -/
def AllInUse (l : List Segment) : Prop := ∀ s ∈ l, s.free = false

section Request

variable {h h' : HeapState} {l : List Segment} {size ptr : Nat}

/-- The size does not wrap: the block handed out holds the request. -/
theorem request_noWrap (inv : HeapInv h l) (fits : NoWrap size)
    (done : kmalloc h size = .ok (h', ptr)) : RequestSound h' size ptr := by
  intro nonnull
  obtain ⟨-, l', b, inv', member, -, rfl, room⟩ := kmalloc_block inv fits done nonnull
  refine ⟨?_, _, inv'.blockList_eq, fun u inside => (inv'.legal u inside).2⟩
  rw [ksize_eq inv' member]
  omega

/-- The size wraps and a block is free: the block handed out is too small, or a block on the list is
smaller than a header. -/
theorem request_wrapped {front back : List Segment} {s : Segment}
    (inv : HeapInv h (front ++ s :: back)) (word : size < 2 ^ 32) (wraps : ¬ NoWrap size) :
    ¬ RequestSound (afterTake h size s.addr) size (s.addr + 16) := by
  intro sound
  have member : s ∈ front ++ s :: back := by simp
  have inside := inv.bounds member
  obtain ⟨sizeS, _, _⟩ := inv.linked.header member
  obtain ⟨before, _, _⟩ := inv.tiles.split
  have small := totalSize_wrapped word wraps
  have low : s.addr + s.size < 2 ^ 31 := by
    simp only [heapEnd, heapStart, heapSize] at inside
    omega
  obtain ⟨enough, l', walked, big⟩ := sound (by omega)
  -- the size in the header of the block handed out
  have written := size_takeBlock h.mem s.addr (totalSize size)
  obtain ⟨t, found, sizeT⟩ := walk_through inv.linked (fun t inside => inv.addr_ne_zero inside)
    (fun t inFront => (takeBlock_small_eqOn sizeS low small inside.2.1).mono fun x inHeader => by
      have below := before.bounds inFront
      have bigT := (inv.legal t (by simp [inFront])).2
      simp only [Set.mem_Ico, Set.mem_ofPred_eq, Segment.Covers, blockHeaderSize] at *
      omega)
    (show walk (takeBlock h.mem s.addr (totalSize size)) walkFuel heapStart = some l' by
      rw [← inv.start]
      exact walked)
  have least := big t found
  have block := blockOf_payload inv member
  unfold blockOf at block
  unfold ksize at enough
  rw [if_neg (by omega)] at enough
  simp only [block] at enough
  rw [sizeT] at least
  have below : Header.size (takeBlock h.mem s.addr (totalSize size)) s.addr ≤ s.addr + s.size := by
    rw [written, sizeS]
    split
    · omega
    · omega
  unfold NoWrap blockHeaderSize at wraps
  split at enough
  · omega
  · change size ≤ (Header.size (takeBlock h.mem s.addr (totalSize size)) s.addr + 2 ^ 32 -
      blockHeaderSize) % 2 ^ 32 at enough
    simp only [blockHeaderSize] at *
    omega

/-- **A request is served soundly exactly when its size does not wrap or no block is free.** -/
theorem request_sound (inv : HeapInv h l) (word : size < 2 ^ 32)
    (done : kmalloc h size = .ok (h', ptr)) :
    RequestSound h' size ptr ↔ NoWrap size ∨ AllInUse l := by
  by_cases fits : NoWrap size
  · exact ⟨fun _ => .inl fits, fun _ => request_noWrap inv fits done⟩
  · rw [or_iff_right fits]
    have positive : size ≠ 0 := fun zero => fits (by rw [zero]; decide)
    have small := totalSize_wrapped word fits
    have fit : ∀ s ∈ l, s.fits (totalSize size) = s.free := fun s member => by
      have big := (inv.bounds member).2.1
      simp only [Segment.fits, show totalSize size ≤ s.size by omega, decide_true, Bool.and_true]
    cases found : firstFit (totalSize size) l with
    | none =>
        have unfit := firstFit_eq_none.mp found
        rw [kmalloc_none inv unfit] at done
        cases done
        exact ⟨fun _ s member => (fit s member).symm.trans (unfit s member),
          fun _ nonnull => absurd rfl nonnull⟩
    | some s =>
        obtain ⟨fits', front, back, rfl, unfit⟩ := firstFit_eq_some.mp found
        rw [kmalloc_some inv positive unfit fits'] at done
        cases done
        have member : s ∈ front ++ s :: back := by simp
        refine ⟨fun sound => absurd sound (request_wrapped inv word fits), fun full => ?_⟩
        rw [fit s member, full s member] at fits'
        cases fits'

end Request

/-! ### Runs of clients that ask for any size -/

/-- A step of a client, whose requests are any 32-bit size. -/
inductive SizedStep : Client → HeapOp → Client → Prop
  | malloc {c : Client} {size ptr : Nat} {h : HeapState} (word : size < 2 ^ 32)
      (done : kmalloc c.heap size = .ok (h, ptr)) :
      SizedStep c (.malloc size) ⟨h, if ptr = 0 then c.live else ptr :: c.live⟩
  | step {c d : Client} {op : HeapOp} (step : HeapStep c op d) : SizedStep c op d

/-- The operation is not a request, or what the request returns is sound. -/
def HeapOp.Sound (c : Client) : HeapOp → Prop
  | .malloc size => ∀ h ptr, kmalloc c.heap size = .ok (h, ptr) → RequestSound h size ptr
  | _ => True

/-- The operation is not a request, its size does not wrap, or no block of the heap is free. -/
def HeapOp.Modest (c : Client) : HeapOp → Prop
  | .malloc size => NoWrap size ∨ ∀ l, blockList c.heap = some l → AllInUse l
  | _ => True

section Runs

variable {c d : Client} {l : List Segment} {op : HeapOp} {ops : List HeapOp}

/-- On a heap that satisfies the invariant the two conditions agree, for every step. -/
theorem SizedStep.sound_iff (step : SizedStep c op d) (inv : ClientInv c l) :
    op.Sound c ↔ op.Modest c := by
  have list : (∀ l', blockList c.heap = some l' → AllInUse l') ↔ AllInUse l := by
    rw [inv.heap.blockList_eq]
    exact ⟨fun all => all l rfl, fun full l' same => Option.some.inj same ▸ full⟩
  have request : ∀ {size ptr h}, size < 2 ^ 32 → kmalloc c.heap size = .ok (h, ptr) →
      ((HeapOp.malloc size).Sound c ↔ (HeapOp.malloc size).Modest c) := by
    intro size ptr h word done
    simp only [HeapOp.Sound, HeapOp.Modest, list]
    rw [← request_sound inv.heap word done]
    refine ⟨fun sound => sound h ptr done, fun sound h' ptr' done' => ?_⟩
    rw [done] at done'
    cases done'
    exact sound
  cases step with
  | malloc word done => exact request word done
  | step step =>
      cases step with
      | malloc fits done => exact request (by unfold NoWrap blockHeaderSize at fits; omega) done
      | freeNull _ => exact Iff.rfl
      | free _ _ => exact Iff.rfl
      | write _ => exact Iff.rfl

/-- A modest step keeps the invariant: a request that wraps finds no block and changes nothing. -/
theorem SizedStep.keeps (step : SizedStep c op d) (modest : op.Modest c) (inv : ClientInv c l) :
    ∃ l', ClientInv d l' := by
  cases step with
  | @malloc size ptr h word done =>
      by_cases fits : NoWrap size
      · exact HeapStep.keeps (.malloc fits done) inv
      · have full := (or_iff_right fits).mp modest l inv.heap.blockList_eq
        rw [kmalloc_none inv.heap fun s member => by simp [Segment.fits, full s member]] at done
        cases done
        exact ⟨l, inv⟩
  | step step => exact step.keeps inv

theorem sized_runs (inv : ClientInv c l) :
    Run (Guarded (fun c op => op.Sound c) SizedStep) c ops d ↔
      Run (Guarded (fun c op => op.Modest c) SizedStep) c ops d := by
  induction ops generalizing c l with
  | nil => exact ⟨fun | .nil _ => .nil _, fun | .nil _ => .nil _⟩
  | cons op ops ih =>
      constructor
      · rintro (_ | ⟨⟨sound, step⟩, rest⟩)
        have modest := (step.sound_iff inv).mp sound
        obtain ⟨l', inv'⟩ := step.keeps modest inv
        exact .cons ⟨modest, step⟩ ((ih inv').mp rest)
      · rintro (_ | ⟨⟨modest, step⟩, rest⟩)
        obtain ⟨l', inv'⟩ := step.keeps modest inv
        exact .cons ⟨(step.sound_iff inv).mpr modest, step⟩ ((ih inv').mpr rest)

end Runs

/-- **Allocation sizes.** In the runs from a fresh heap whose requests are any 32-bit sizes, every
request is served soundly exactly when at each of them the size does not wrap or no block is free. -/
theorem kmalloc_sizes (m : Memory) (ops : List HeapOp) (d : Client) :
    Run (Guarded (fun c op => op.Sound c) SizedStep) (Client.init m) ops d ↔
      Run (Guarded (fun c op => op.Modest c) SizedStep) (Client.init m) ops d :=
  sized_runs (clientInv_init m)

/-- A request for `2^32 - 1` bytes on a fresh heap is granted a block without payload. -/
theorem kmalloc_top : Reachable (Client.init fun _ => 0) ∧ 2 ^ 32 - 1 < 2 ^ 32 ∧
    ∃ h ptr, kmalloc (Client.init fun _ => 0).heap (2 ^ 32 - 1) = .ok (h, ptr) ∧ ptr ≠ 0 ∧
      ksize h ptr = 0 ∧ ¬ 2 ^ 32 - 1 ≤ ksize h ptr := by
  have heap := (clientInv_init fun _ => 0).heap
  have done := @kmalloc_some _ [] [] _ (2 ^ 32 - 1) heap (by decide) (by simp) (by decide)
  refine ⟨⟨_, [], .nil _⟩, by decide, _, _, done, by decide, ?_, ?_⟩
  · decide +kernel
  · decide +kernel

end Kfs.Heap
