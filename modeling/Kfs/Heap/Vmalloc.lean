/-
**The virtual allocator: `vmalloc.c`.**

The list of virtual blocks lives in the kernel heap; it is kept here as the list of its nodes in link
order (the `phys_addr` and `magic` fields are written once and never read). What `kmalloc` answers
during a call is a parameter, so both failure paths are there.

`vmalloc` gives what it leaves of a block the size `VMEM_SIZE - size`, whatever the size of the block
it split. So one allocation at a time is exact, and the second live one already pushes the list past
`VMEM_END`: `vmem_tiled`.
-/

import Kfs.Base.Trace
import Kfs.Heap.Kmalloc
import Kfs.Base.Segments

namespace Kfs.Vmem

open Heap (pageSize alignUp)

/-- `VMEM_START`: 256 MB. -/
def vmemStart : Nat := 0x10000000

/-- `VMEM_SIZE`: 256 MB. -/
def vmemSize : Nat := 0x10000000

/-- `VMEM_END`. -/
def vmemEnd : Nat := vmemStart + vmemSize

/-- Which requests to the kernel heap succeed during one call: the list head of `vmalloc_init`, the
pages by number, and the header of the split. -/
structure HeapAnswers where
  head : Bool
  page : Nat → Bool
  header : Bool

/-- Every request succeeds. -/
def HeapAnswers.granted : HeapAnswers := ⟨true, fun _ => true, true⟩

/-- The static variables: the list, the flag and the statistics. -/
structure VmemState where
  blocks : List Segment
  initialized : Bool
  allocated : Nat
  freed : Nat
  deriving DecidableEq, Repr

/-- The static variables at power-on. -/
def VmemState.boot : VmemState := ⟨[], false, 0, 0⟩

/-- `vmalloc_init`. -/
def vmallocInit (k : HeapAnswers) (v : VmemState) : Outcome VmemState :=
  if v.initialized then .ok v
  else if k.head then .ok { v with blocks := [⟨vmemStart, vmemSize, true⟩], initialized := true }
  else .panic "Failed to initialize virtual memory allocator"

/-- What `vmalloc` makes of the block it found: `size` bytes in use, and a new free block when a
header for it could be had. -/
def splitVmemBlock (header : Bool) (size : Nat) (block : Segment) : List Segment :=
  ⟨block.addr, size, false⟩ ::
    if size < vmemSize ∧ header then
      [⟨(block.addr + size) % 2 ^ 32, (vmemSize + 2 ^ 32 - size) % 2 ^ 32, true⟩]
    else []

/-- The search of `find_free_vmem_block` and the update of the block it finds. -/
def takeVmemBlock (header : Bool) (size : Nat) : List Segment → Option (Nat × List Segment)
  | [] => none
  | block :: rest =>
      if block.free ∧ size ≤ block.size then
        some (block.addr, splitVmemBlock header size block ++ rest)
      else (takeVmemBlock header size rest).map fun taken => (taken.1, block :: taken.2)

/-- `vmalloc`: the virtual address, 0 for NULL. -/
def vmalloc (k : HeapAnswers) (v : VmemState) (size : Nat) : Outcome (VmemState × Nat) := do
  let v ← vmallocInit k v
  if size = 0 then return (v, 0)
  let size := alignUp size pageSize
  match takeVmemBlock k.header size v.blocks with
  | none => return (v, 0)
  | some (virtAddr, blocks) =>
      if (List.range (size / pageSize)).all k.page then
        return ({ v with blocks := blocks, allocated := (v.allocated + size) % 2 ^ 32 }, virtAddr)
      else return (v, 0)

/-- The search of `vfree`: the size of the first block in use at `addr`, and the list with it free. -/
def freeVmemBlock (addr : Nat) : List Segment → Option (Nat × List Segment)
  | [] => none
  | block :: rest =>
      if block.addr = addr ∧ block.free = false then some (block.size, block.freed :: rest)
      else (freeVmemBlock addr rest).map fun freed => (freed.1, block :: freed.2)

/-- The merging loop of `vfree`, at the block `scan`. -/
def mergeVmemFrom (scan : Segment) : List Segment → List Segment
  | [] => [scan]
  | next :: rest =>
      if scan.free && next.free then
        mergeVmemFrom { scan with size := (scan.size + next.size) % 2 ^ 32 } rest
      else scan :: mergeVmemFrom next rest

/-- The merging loop of `vfree`. -/
def mergeVmem : List Segment → List Segment
  | [] => []
  | head :: rest => mergeVmemFrom head rest

/-- `vfree`. An address that no block in use has is ignored (the source warns). -/
def vfree (v : VmemState) (ptr : Nat) : VmemState :=
  if ptr = 0 then v
  else
    match freeVmemBlock ptr v.blocks with
    | none => v
    | some (size, blocks) =>
        { v with blocks := mergeVmem blocks, freed := (v.freed + size) % 2 ^ 32 }

/-- `vsize`: the size of the first block at the address. -/
def vsize (v : VmemState) (ptr : Nat) : Nat :=
  if ptr = 0 then 0
  else
    match v.blocks.find? (·.addr = ptr) with
    | none => 0
    | some block => block.size

/-! ### Runs -/

/-- The allocator and the addresses handed out and not yet freed. -/
structure Client where
  vmem : VmemState
  live : List Nat
  deriving DecidableEq, Repr

inductive VmemOp where
  | malloc (size : Nat)
  | free (ptr : Nat)
  deriving DecidableEq, Repr

/-- One call, the kernel heap granting every request. -/
inductive VmemStep : Client → VmemOp → Client → Prop
  | malloc {c : Client} {size ptr : Nat} {v : VmemState} (small : size ≤ vmemSize)
      (done : vmalloc .granted c.vmem size = .ok (v, ptr)) :
      VmemStep c (.malloc size) ⟨v, if ptr = 0 then c.live else ptr :: c.live⟩
  | free {c : Client} {ptr : Nat} (live : ptr ∈ c.live) :
      VmemStep c (.free ptr) ⟨vfree c.vmem ptr, c.live.erase ptr⟩

/-- The allocator after `vmalloc_init`. -/
def Client.init : Client := ⟨⟨[⟨vmemStart, vmemSize, true⟩], true, 0, 0⟩, []⟩

theorem vmallocInit_boot : vmallocInit .granted .boot = .ok Client.init.vmem := rfl

/-- The blocks tile the region, so live ranges are disjoint and inside it. -/
structure VmemTiled (c : Client) : Prop where
  tiles : Tiles vmemStart vmemEnd c.vmem.blocks
  sum : (c.vmem.blocks.map Segment.size).sum = vmemSize
  distinct : c.live.Nodup
  disjoint : ∀ p ∈ c.live, ∀ q ∈ c.live, p ≠ q →
    p + vsize c.vmem p ≤ q ∨ q + vsize c.vmem q ≤ p
  inside : ∀ p ∈ c.live, vmemStart ≤ p ∧ p + vsize c.vmem p ≤ vmemEnd

/-- A `vmalloc` that fails, or splits a block as large as the whole region. -/
def WholeBlock (c : Client) : VmemOp → Prop
  | .malloc size => size = 0 ∨
      ∀ s, firstFit (alignUp size pageSize) c.vmem.blocks = some s → s.size = vmemSize
  | .free _ => True

/-! ### What each call does to a tiling -/

section Calls

variable {l front back : List Segment} {s : Segment} {n lo hi : Nat} {header : Bool}

theorem takeVmemBlock_none (unfit : ∀ t ∈ l, t.fits n = false) :
    takeVmemBlock header n l = none := by
  induction l with
  | nil => rfl
  | cons head rest ih =>
      have first := unfit head List.mem_cons_self
      rw [takeVmemBlock, if_neg (fun fit => by simp [fits_iff.mpr fit] at first),
        ih fun t member => unfit t (List.mem_cons_of_mem _ member)]
      rfl

theorem takeVmemBlock_some (unfit : ∀ t ∈ front, t.fits n = false) (fit : s.fits n = true) :
    takeVmemBlock header n (front ++ s :: back) =
      some (s.addr, front ++ splitVmemBlock header n s ++ back) := by
  induction front with
  | nil =>
      rw [List.nil_append, takeVmemBlock, if_pos (fits_iff.mp fit)]
      rfl
  | cons head front ih =>
      have first := unfit head List.mem_cons_self
      rw [List.cons_append, takeVmemBlock,
        if_neg (fun fit => by simp [fits_iff.mpr fit] at first),
        ih fun t member => unfit t (List.mem_cons_of_mem _ member)]
      rfl

theorem freeVmemBlock_some (other : ∀ t ∈ front, t.addr ≠ s.addr) (used : s.free = false) :
    freeVmemBlock s.addr (front ++ s :: back) = some (s.size, front ++ s.freed :: back) := by
  induction front with
  | nil => rw [List.nil_append, freeVmemBlock, if_pos ⟨rfl, used⟩, List.nil_append]
  | cons head front ih =>
      rw [List.cons_append, freeVmemBlock,
        if_neg (fun same => other head List.mem_cons_self same.1),
        ih fun t member => other t (List.mem_cons_of_mem _ member)]
      rfl

/-- No size wraps on a tiling, so the loop of `vfree` is the merging sweep. -/
theorem mergeVmemFrom_eq (small : hi < 2 ^ 32) :
    ∀ {rest : List Segment} {s : Segment} {lo : Nat}, Tiles lo hi (s :: rest) →
      mergeVmemFrom s rest = coalesce (s :: rest) := by
  intro rest
  induction rest with
  | nil =>
      intro s lo _
      rw [coalesce_single]
      rfl
  | cons next rest ih =>
      intro s lo tiles
      rw [mergeVmemFrom]
      by_cases both : s.free = true ∧ next.free = true
      · have bound := (tiles.absorb.bounds List.mem_cons_self).2.2
        simp only at bound
        rw [if_pos (by simp [both.1, both.2]), Nat.mod_eq_of_lt (by omega), ih tiles.absorb,
          coalesce_absorb both.1 both.2]
      · rw [if_neg (by simpa using both), ih tiles.2.2, coalesce_step both]

theorem mergeVmem_eq (small : hi < 2 ^ 32) (tiles : Tiles lo hi l) : mergeVmem l = coalesce l := by
  cases l with
  | nil => rw [coalesce_nil, mergeVmem]
  | cons head rest => exact mergeVmemFrom_eq small tiles

variable {v : VmemState}

/-- **`vfree` of a block in use releases it.** -/
theorem vfree_used (positive : 0 < lo) (small : hi < 2 ^ 32) (tiles : Tiles lo hi v.blocks)
    (member : s ∈ v.blocks) (used : s.free = false) :
    (vfree v s.addr).blocks = release s.addr v.blocks := by
  have low := (tiles.bounds member).1
  obtain ⟨front, back, split⟩ := List.append_of_mem member
  rw [split] at tiles
  have marked := markFree_split tiles
  have other : ∀ t ∈ front, t.addr ≠ s.addr := fun t inFront same => by
    have below := tiles.split.1.bounds inFront
    omega
  rw [vfree, if_neg (by omega), split, freeVmemBlock_some other used, release, marked]
  have later : Tiles lo hi (front ++ s.freed :: back) := by
    rw [← marked]
    exact markFree_tiles tiles
  exact mergeVmem_eq small later

theorem vsize_eq (positive : 0 < lo) (tiles : Tiles lo hi v.blocks) (member : s ∈ v.blocks) :
    vsize v s.addr = s.size := by
  have low := (tiles.bounds member).1
  have found : v.blocks.find? (·.addr = s.addr) = some s := by
    rw [List.find?_eq_some_iff_append]
    obtain ⟨front, back, split⟩ := List.append_of_mem member
    rw [split] at tiles
    refine ⟨by simp, front, back, split, fun t inFront => ?_⟩
    have below := tiles.split.1.bounds inFront
    have differ : t.addr ≠ s.addr := by omega
    simp [differ]
  rw [vsize, if_neg (by omega), found]

/-- A segment as long as the interval is the whole tiling. -/
theorem eq_single_of_size (tiles : Tiles lo hi (front ++ s :: back)) (whole : s.size = hi - lo) :
    front = [] ∧ back = [] ∧ s.addr = lo := by
  obtain ⟨before, _, after⟩ := tiles.split
  have low := before.le
  have high := after.le
  have place : s.addr = lo := by omega
  refine ⟨?_, ?_, place⟩
  · rw [place] at before
    cases front with
    | nil => rfl
    | cons t front =>
        have := before.2.2.le
        have := before.2.1
        omega
  · cases back with
    | nil => rfl
    | cons t back =>
        have := after.2.2.le
        have := after.2.1
        omega

end Calls

/-! ### The invariant of a run -/

/-- The live addresses are exactly those of the blocks in use. -/
structure VmemInv (c : Client) : Prop where
  ready : c.vmem.initialized = true
  tiles : Tiles vmemStart vmemEnd c.vmem.blocks
  nodup : c.live.Nodup
  live : ∀ p, p ∈ c.live ↔ ∃ s ∈ c.vmem.blocks, s.free = false ∧ p = s.addr

section Invariant

variable {c d : Client} {op : VmemOp}

theorem vmemInv_init : VmemInv Client.init := by
  refine ⟨rfl, ⟨rfl, by decide, rfl⟩, List.nodup_nil, fun p => ⟨fun member => ?_, ?_⟩⟩
  · cases member
  · rintro ⟨s, member, used, _⟩
    rw [List.mem_singleton.mp member] at used
    cases used

theorem vsize_live (inv : VmemInv c) {s : Segment} (member : s ∈ c.vmem.blocks) :
    vsize c.vmem s.addr = s.size :=
  vsize_eq (by decide) inv.tiles member

/-- The invariant gives the tiling and its consequences. -/
theorem VmemInv.tiled (inv : VmemInv c) : VmemTiled c := by
  refine ⟨inv.tiles, ?_, inv.nodup, ?_, ?_⟩
  · have total := inv.tiles.sum
    unfold vmemEnd at total
    omega
  · intro p first q second different
    obtain ⟨s, memberS, _, rfl⟩ := (inv.live p).mp first
    obtain ⟨t, memberT, _, rfl⟩ := (inv.live q).mp second
    rw [vsize_live inv memberS, vsize_live inv memberT]
    exact inv.tiles.disjoint memberS memberT different
  · intro p live
    obtain ⟨s, member, _, rfl⟩ := (inv.live p).mp live
    have bounds := inv.tiles.bounds member
    rw [vsize_live inv member]
    exact ⟨bounds.1, bounds.2.2⟩

/-- Rounding a size of at most the region up to pages: at least the size, at most the region. -/
theorem alignUp_page {size : Nat} (positive : size ≠ 0) (small : size ≤ vmemSize) :
    0 < alignUp size pageSize ∧ alignUp size pageSize ≤ vmemSize := by
  unfold alignUp pageSize
  unfold vmemSize at *
  rw [Nat.mod_eq_of_lt (by omega)]
  omega

/-- **One `vmalloc`**: NULL and the same state, or the first block that fits is split. -/
theorem vmalloc_cases {v v' : VmemState} {size ptr : Nat} (ready : v.initialized = true)
    (done : vmalloc .granted v size = .ok (v', ptr)) :
    (ptr = 0 ∧ v' = v ∧ (size = 0 ∨ firstFit (alignUp size pageSize) v.blocks = none)) ∨
      ∃ front s back, size ≠ 0 ∧ v.blocks = front ++ s :: back ∧
        firstFit (alignUp size pageSize) v.blocks = some s ∧ ptr = s.addr ∧
        v'.initialized = true ∧
        v'.blocks = front ++ splitVmemBlock true (alignUp size pageSize) s ++ back := by
  unfold vmalloc vmallocInit at done
  rw [if_pos ready, Outcome.ok_bind] at done
  by_cases zero : size = 0
  · rw [if_pos zero] at done
    cases done
    exact Or.inl ⟨rfl, rfl, Or.inl zero⟩
  · rw [if_neg zero] at done
    cases found : firstFit (alignUp size pageSize) v.blocks with
    | none =>
        simp only [takeVmemBlock_none (firstFit_eq_none.mp found)] at done
        cases done
        exact Or.inl ⟨rfl, rfl, Or.inr rfl⟩
    | some s =>
        obtain ⟨fit, front, back, split, unfit⟩ := firstFit_eq_some.mp found
        have pages : (List.range (alignUp size pageSize / pageSize)).all
            HeapAnswers.granted.page = true := List.all_eq_true.mpr fun _ _ => rfl
        simp only [split, takeVmemBlock_some unfit fit, pages, if_true] at done
        cases done
        exact Or.inr ⟨front, s, back, zero, split, rfl, rfl, ready, rfl⟩

/-- Splitting the one block of the whole region keeps the invariant. -/
theorem VmemInv.split_whole (inv : VmemInv c) {n : Nat} {v : VmemState} {s : Segment}
    {front back : List Segment} (split : c.vmem.blocks = front ++ s :: back)
    (free : s.free = true) (whole : s.size = vmemSize) (positive : 0 < n) (fit : n ≤ s.size)
    (ready : v.initialized = true)
    (blocks : v.blocks = front ++ splitVmemBlock true n s ++ back) :
    VmemInv ⟨v, s.addr :: c.live⟩ := by
  have tiles := inv.tiles
  rw [split] at tiles
  obtain ⟨rfl, rfl, place⟩ := eq_single_of_size tiles (by rw [whole]; decide)
  have none : c.live = [] := List.eq_nil_iff_forall_not_mem.mpr fun p live => by
    obtain ⟨t, member, used, _⟩ := (inv.live p).mp live
    rw [split] at member
    rw [List.mem_singleton.mp member, free] at used
    cases used
  rw [List.nil_append, List.append_nil, splitVmemBlock] at blocks
  unfold vmemSize at whole
  unfold vmemStart at place
  by_cases all : n < vmemSize
  · rw [if_pos ⟨all, rfl⟩, Nat.mod_eq_of_lt (show s.addr + n < 2 ^ 32 by omega),
      show (vmemSize + 2 ^ 32 - n) % 2 ^ 32 = vmemSize - n by unfold vmemSize at *; omega] at blocks
    refine ⟨ready, ?_, by simp [none], fun p => ?_⟩
    · rw [blocks]
      unfold vmemEnd vmemStart
      unfold vmemSize at *
      refine ⟨place, positive, ?_, by show 0 < _ - n; omega, ?_⟩
      · show s.addr + n = 0x10000000 + n
        omega
      · show 0x10000000 + n + (0x10000000 - n) = 0x10000000 + 0x10000000
        omega
    · simp [none, blocks]
  · rw [if_neg fun enough => all enough.1] at blocks
    refine ⟨ready, ?_, by simp [none], fun p => ?_⟩
    · rw [blocks]
      unfold vmemEnd vmemStart
      unfold vmemSize at *
      refine ⟨place, positive, ?_⟩
      show 0x10000000 + n = 0x10000000 + 0x10000000
      omega
    · simp [none, blocks]

/-- **A step that meets the condition keeps the invariant.** -/
theorem VmemStep.keeps (step : VmemStep c op d) (whole : WholeBlock c op) (inv : VmemInv c) :
    VmemInv d := by
  cases step with
  | malloc small done =>
      rcases vmalloc_cases inv.ready done with
        ⟨rfl, rfl, _⟩ | ⟨front, s, back, positive, split, found, rfl, ready, blocks⟩
      · exact inv
      · obtain ⟨fit, _⟩ := firstFit_eq_some.mp found
        obtain ⟨free, room⟩ := fits_iff.mp fit
        have sized := (whole.resolve_left positive) s found
        have low := (inv.tiles.bounds (s := s) (by simp [split])).1
        rw [if_neg (by unfold vmemStart at low; omega)]
        exact inv.split_whole split free sized (alignUp_page positive small).1 room ready blocks
  | free live =>
      obtain ⟨s, member, used, rfl⟩ := (inv.live _).mp live
      have freed := vfree_used (by decide) (by decide) inv.tiles member used
      refine ⟨?_, ?_, inv.nodup.erase _, fun p => ?_⟩
      · unfold vfree
        split
        · exact inv.ready
        · split <;> exact inv.ready
      · show Tiles _ _ (vfree c.vmem s.addr).blocks
        rw [freed]
        exact release_tiles inv.tiles
      · show p ∈ c.live.erase s.addr ↔ ∃ t ∈ (vfree c.vmem s.addr).blocks, _
        rw [freed, inv.nodup.mem_erase_iff, inv.live]
        constructor
        · rintro ⟨other, t, inside, usedT, rfl⟩
          exact ⟨t, (mem_release_used usedT).mpr ⟨inside, other⟩, usedT, rfl⟩
        · rintro ⟨t, inside, usedT, rfl⟩
          obtain ⟨inside, other⟩ := (mem_release_used usedT).mp inside
          exact ⟨other, t, inside, usedT, rfl⟩

/-- **A step that does not meet the condition breaks the tiling**: the sizes no longer add up. -/
theorem VmemStep.whole_of_tiled (step : VmemStep c op d) (inv : VmemInv c) (tiled : VmemTiled d) :
    WholeBlock c op := by
  cases step with
  | free live => exact trivial
  | malloc small done =>
      rcases vmalloc_cases inv.ready done with
        ⟨rfl, rfl, zero | none⟩ | ⟨front, s, back, positive, split, found, rfl, ready, blocks⟩
      · exact Or.inl zero
      · refine Or.inr fun s found => ?_
        rw [none] at found
        cases found
      · refine Or.inr fun t found' => ?_
        obtain rfl : s = t := Option.some.inj (found.symm.trans found')
        obtain ⟨fit, _⟩ := firstFit_eq_some.mp found
        have room := (fits_iff.mp fit).2
        have before := inv.tiled.sum
        have after := tiled.sum
        have bounds := inv.tiles.bounds (s := s) (by simp [split])
        simp only [blocks, split, splitVmemBlock, List.map_append, List.map_cons,
          List.sum_append, List.sum_cons] at before after
        have atMost := (alignUp_page positive small).2
        unfold vmemEnd vmemStart at bounds
        generalize alignUp _ pageSize = n at *
        by_cases all : n < vmemSize
        · rw [if_pos ⟨all, trivial⟩] at after
          simp only [List.map_cons, List.map_nil, List.sum_cons, List.sum_nil] at after
          unfold vmemSize at *
          omega
        · unfold vmemSize at *
          omega

end Invariant

/-- **Exactly when the virtual blocks tile the region.** In every run from `vmalloc_init` whose
`vmalloc` calls fail or find a block as large as the whole region, the blocks tile the region in
every state reached; and from every such state one further call keeps it so exactly when it meets
the condition. -/
theorem vmem_tiled {ops : List VmemOp} {c : Client}
    (run : Run (Guarded WholeBlock VmemStep) Client.init ops c) :
    VmemTiled c ∧ ∀ op d, VmemStep c op d → (VmemTiled d ↔ WholeBlock c op) := by
  have inv : VmemInv c := run.invariant VmemInv (fun _ _ _ here step => step.2.keeps step.1 here)
    vmemInv_init
  refine ⟨inv.tiled, fun op d step => ⟨step.whole_of_tiled inv, fun whole => ?_⟩⟩
  exact (step.keeps whole inv).tiled

theorem vmem_tiled_one : ∃ c, c.live = [vmemStart] ∧ VmemTiled c := by
  have done : vmalloc .granted Client.init.vmem 8192 = .ok (⟨[⟨vmemStart, 8192, false⟩,
      ⟨vmemStart + 8192, vmemSize - 8192, true⟩], true, 8192, 0⟩, vmemStart) := by decide
  have whole : WholeBlock Client.init (.malloc 8192) := Or.inr fun s found => by
    obtain rfl : (⟨vmemStart, vmemSize, true⟩ : Segment) = s := Option.some.inj found
    rfl
  exact ⟨_, rfl, (vmem_tiled (.cons ⟨whole, .malloc (by decide) done⟩ (.nil _))).1⟩

/-- Four allocations of a page, the first freed after the second: the last lands on the second. -/
theorem vmalloc_overlaps : ∃ c, Run VmemStep Client.init [.malloc 4096, .malloc 4096,
      .free 0x10000000, .malloc 4096, .malloc 4096] c ∧
    c.live = [0x10001000, 0x10000000, 0x10001000] ∧ ¬ VmemTiled c := by
  have first : vmalloc .granted Client.init.vmem 4096 = .ok (⟨[⟨0x10000000, 4096, false⟩,
      ⟨0x10001000, 0xffff000, true⟩], true, 4096, 0⟩, 0x10000000) := by decide
  have second : vmalloc .granted ⟨[⟨0x10000000, 4096, false⟩, ⟨0x10001000, 0xffff000, true⟩],
      true, 4096, 0⟩ 4096 = .ok (⟨[⟨0x10000000, 4096, false⟩, ⟨0x10001000, 4096, false⟩,
      ⟨0x10002000, 0xffff000, true⟩], true, 8192, 0⟩, 0x10001000) := by decide
  have third : vmalloc .granted (vfree ⟨[⟨0x10000000, 4096, false⟩, ⟨0x10001000, 4096, false⟩,
      ⟨0x10002000, 0xffff000, true⟩], true, 8192, 0⟩ 0x10000000) 4096 =
      .ok (⟨[⟨0x10000000, 4096, false⟩, ⟨0x10001000, 0xffff000, true⟩, ⟨0x10001000, 4096, false⟩,
      ⟨0x10002000, 0xffff000, true⟩], true, 12288, 4096⟩, 0x10000000) := by decide
  have fourth : vmalloc .granted ⟨[⟨0x10000000, 4096, false⟩, ⟨0x10001000, 0xffff000, true⟩,
      ⟨0x10001000, 4096, false⟩, ⟨0x10002000, 0xffff000, true⟩], true, 12288, 4096⟩ 4096 =
      .ok (⟨[⟨0x10000000, 4096, false⟩, ⟨0x10001000, 4096, false⟩, ⟨0x10002000, 0xffff000, true⟩,
      ⟨0x10001000, 4096, false⟩, ⟨0x10002000, 0xffff000, true⟩], true, 16384, 4096⟩,
      0x10001000) := by decide
  refine ⟨_, .cons (.malloc (by decide) first) (.cons (.malloc (by decide) second)
    (.cons (.free (by decide)) (.cons (.malloc (by decide) third)
    (.cons (.malloc (by decide) fourth) (.nil _))))), by decide, fun tiled => ?_⟩
  exact absurd tiled.distinct (by decide)

end Kfs.Vmem
