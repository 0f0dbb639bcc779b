/-
**The memory behind `vmalloc`.**

`vmalloc.c` takes its list nodes and the pages behind a block from the kernel heap, one `kmalloc` after the
other, and gives none back when a later one fails. Here the calls are made on the heap itself, whose answers
`Vmem.vmalloc` has as a parameter (`vmallocBacked_answers`). First fit serves as many page requests as the
free blocks have room for, each on its own (`backPages_spec`), and so a call that returns NULL has left
nothing behind exactly when it had all pages or none: `vmalloc_null_iff`.
-/

import Kfs.Heap.InUse
import Kfs.Heap.Vmalloc

namespace Kfs.Vmem

open Heap

/-- `VMEM_HEADER_SIZE`: `sizeof(vmem_block_t)`. -/
def vmemHeaderSize : Nat := 24

/-- The message of the panic in `vmalloc_init`. -/
def initFailed : String := "Failed to initialize virtual memory allocator"

/-- `vmalloc_init`. -/
def vmallocInitBacked (h : HeapState) (v : VmemState) : Outcome (HeapState × VmemState) :=
  if v.initialized then .ok (h, v)
  else do
    let (h, head) ← kmalloc h vmemHeaderSize
    if head = 0 then .panic initFailed
    else return (h, { v with blocks := [⟨vmemStart, vmemSize, true⟩], initialized := true })

/-- The loop over the pages of a block: the heap, and whether all pages could be had. -/
def backPages : (pages : Nat) → HeapState → Outcome (HeapState × Bool)
  | 0, h => .ok (h, true)
  | n + 1, h => do
      let (h, page) ← kmalloc h pageSize
      if page = 0 then return (h, false)
      backPages n h

/-- The header for what is left of the block, if any is. -/
def splitHeader (size : Nat) (h : HeapState) : Outcome (HeapState × Nat) :=
  if size < vmemSize then kmalloc h vmemHeaderSize else .ok (h, 0)

/-- The list with the first block that fits in use, and split if there is a header. -/
def commitVmemBlock (header : Bool) (size : Nat) : List Segment → List Segment
  | [] => []
  | block :: rest =>
      if block.fits size then splitVmemBlock header size block ++ rest
      else block :: commitVmemBlock header size rest

/-- What `vmalloc` does after `vmalloc_init`. -/
def vmallocReady (h : HeapState) (v : VmemState) (size : Nat) : Outcome (HeapState × VmemState × Nat) := do
  if size = 0 then return (h, v, 0)
  let size := alignUp size pageSize
  match firstFit size v.blocks with
  | none => return (h, v, 0)
  | some block =>
      let (h, backed) ← backPages (size / pageSize) h
      if backed then
        let (h, header) ← splitHeader size h
        return (h, { v with
          blocks := commitVmemBlock (header != 0) size v.blocks
          allocated := (v.allocated + size) % 2 ^ 32 }, block.addr)
      else return (h, v, 0)

/-- `vmalloc`, on the kernel heap. -/
def vmallocBacked (h : HeapState) (v : VmemState) (size : Nat) : Outcome (HeapState × VmemState × Nat) := do
  let (h, v) ← vmallocInitBacked h v
  vmallocReady h v size

/-- How many requests of `n` bytes the free segments of a list have room for. -/
def room (n : Nat) (l : List Segment) : Nat := (l.map fun s => if s.free then s.size / n else 0).sum

/-- How many pages first fit can serve. -/
def pageRoom (l : List Segment) : Nat := room (totalSize pageSize) l

/-- The pages behind a request. -/
def pagesFor (size : Nat) : Nat := alignUp size pageSize / pageSize

/-- Nothing of the request can be left behind: all pages can be had or none, and the block is not at
address 0. Before `vmalloc_init`, its header must be out of reach, or the request be one that is served. -/
def Spared (l : List Segment) (v : VmemState) (size : Nat) : Prop :=
  if v.initialized then
    size = 0 ∨ ∀ block, firstFit (alignUp size pageSize) v.blocks = some block →
      (pageRoom l = 0 ∧ 0 < pagesFor size) ∨ (pagesFor size ≤ pageRoom l ∧ block.addr ≠ 0)
  else ∀ head l', place vmemHeaderSize l = some (head, l') →
    size ≠ 0 ∧ alignUp size pageSize ≤ vmemSize ∧ pagesFor size ≤ pageRoom l'

/-- A call without side effects: on the list of virtual blocks, on `vmem_allocated`, and on what is live in
the kernel heap. -/
structure LeftAlone (l : List Segment) (v : VmemState) (h' : HeapState) (v' : VmemState) : Prop where
  blocks : v'.blocks = v.blocks
  allocated : v'.allocated = v.allocated
  live : ∃ l', HeapInv (kmallocInit h') l' ∧ inUse l' = inUse l

section Room

variable {l l' front back : List Segment} {s : Segment} {n slack size ptr : Nat}

theorem room_append : room n (l ++ l') = room n l + room n l' := by
  simp [room]

theorem room_cons : room n (s :: l) = (if s.free then s.size / n else 0) + room n l := by
  simp [room]

/-- Serving a request from a segment takes the room for one. -/
theorem room_carve (free : s.free = true) (fit : n ≤ s.size) (wide : slack ≤ n) (positive : 0 < n) :
    room n (carve n slack s) + 1 = room n [s] := by
  have served : (s.size - n) / n + 1 = s.size / n := by
    rw [Nat.div_eq_sub_div positive fit]
  unfold carve
  by_cases split : n + slack ≤ s.size
  · rw [if_pos split]
    simp [room, free, served]
  · rw [if_neg split]
    have one : s.size / n = 1 := Nat.div_eq_of_lt_le (by omega) (by omega)
    simp [room, free, one]

/-- No room is left exactly when no segment fits. -/
theorem room_eq_zero (positive : 0 < n) : room n l = 0 ↔ ∀ s ∈ l, s.fits n = false := by
  induction l with
  | nil => simp [room]
  | cons s l ih =>
      rw [room_cons, Nat.add_eq_zero_iff, ih, List.forall_mem_cons]
      refine and_congr_left fun _ => ?_
      cases free : s.free with
      | true => simp [Segment.fits, free, Nat.div_eq_zero_iff, positive.ne']
      | false => simp [Segment.fits, free]

/-- **First fit takes the room for one request.** -/
theorem room_place (placed : place size l = some (ptr, l')) (positive : 0 < totalSize size)
    (wide : splitSlack ≤ totalSize size) : room (totalSize size) l' + 1 = room (totalSize size) l := by
  induction l generalizing l' with
  | nil => cases placed
  | cons s rest ih =>
      rw [place] at placed
      by_cases fit : s.fits (totalSize size) = true
      · rw [if_pos fit] at placed
        cases placed
        obtain ⟨free, large⟩ := fits_iff.mp fit
        have carved := room_carve free large wide positive
        rw [room_append, room_cons]
        rw [room_cons] at carved
        simp only [room, List.map_nil, List.sum_nil, Nat.add_zero] at *
        omega
      · rw [if_neg fit] at placed
        obtain ⟨⟨ptr', l₁⟩, found, same⟩ := Option.map_eq_some_iff.mp placed
        cases same
        rw [room_cons, room_cons, Nat.add_assoc, ih found]

end Room

section Requests

variable {h h' : HeapState} {l l' : List Segment} {v v' : VmemState} {size ptr n : Nat} {block : Segment}
  {all : Bool}

theorem kmalloc_init (h : HeapState) (size : Nat) : kmalloc h size = kmalloc (kmallocInit h) size := by
  have again : kmallocInit (kmallocInit h) = kmallocInit h := by
    unfold kmallocInit
    by_cases ready : h.initialized = true
    · rw [if_pos ready, if_pos ready]
    · rw [if_neg ready]
      exact if_pos rfl
  unfold kmalloc
  rw [again]

/-- A heap with a block list is set up. -/
theorem ready_inv (heap : HeapInv h l) : HeapInv (kmallocInit h) l := by
  rw [kmallocInit_of_ready heap.ready]
  exact heap

theorem kmalloc_refused (heap : HeapInv (kmallocInit h) l) (refused : place size l = none) :
    kmalloc h size = .ok (kmallocInit h, 0) := by
  rw [kmalloc_init]
  exact kmalloc_none heap (place_eq_none.mp refused)

theorem kmalloc_granted (heap : HeapInv (kmallocInit h) l) (fits : NoWrap size) (positive : size ≠ 0)
    (granted : place size l = some (ptr, l')) :
    ∃ h', kmalloc h size = .ok (h', ptr) ∧ HeapInv (kmallocInit h') l' := by
  obtain ⟨h', done, heap'⟩ := kmalloc_place heap fits positive granted
  exact ⟨h', by rw [kmalloc_init, done], ready_inv heap'⟩

theorem page_sizes : NoWrap pageSize ∧ pageSize ≠ 0 ∧ 0 < totalSize pageSize ∧
    splitSlack ≤ totalSize pageSize := by decide

theorem header_sizes : NoWrap vmemHeaderSize ∧ vmemHeaderSize ≠ 0 := by decide

/-- **The pages behind a block**: they are had one by one as long as there is room, and stay in use. -/
theorem backPages_spec (heap : HeapInv (kmallocInit h) l) (n : Nat) :
    ∃ h' l', backPages n h = .ok (h', decide (n ≤ pageRoom l)) ∧ HeapInv (kmallocInit h') l' ∧
      inUse l ≤ inUse l' ∧ (inUse l').card = (inUse l).card + min n (pageRoom l) := by
  obtain ⟨fits, nonzero, positive, wide⟩ := page_sizes
  induction n generalizing h l with
  | zero => exact ⟨h, l, rfl, heap, le_rfl, by rw [Nat.zero_min, Nat.add_zero]⟩
  | succ n ih =>
      cases granted : place pageSize l with
      | none =>
          have empty : pageRoom l = 0 := (room_eq_zero positive).mpr (place_eq_none.mp granted)
          refine ⟨kmallocInit h, l, ?_, ready_inv heap, le_rfl, by rw [empty, Nat.min_zero, Nat.add_zero]⟩
          rw [backPages, kmalloc_refused heap granted, Outcome.ok_bind, empty]
          rfl
      | some placed =>
          obtain ⟨page, l₁⟩ := placed
          obtain ⟨h₁, done, heap₁⟩ := kmalloc_granted heap fits nonzero granted
          obtain ⟨h', l', rest, heap', grows, card⟩ := ih heap₁
          have taken : pageRoom l₁ + 1 = pageRoom l := room_place granted positive wide
          have one := inUse_place granted
          refine ⟨h', l', ?_, heap', ?_, ?_⟩
          · rw [backPages, done, Outcome.ok_bind]
            simp only
            rw [if_neg (place_ne_null granted), rest, ← taken]
            simp
          · rw [one] at grows
            exact (Multiset.le_cons_self _ _).trans grows
          · rw [card, one, Multiset.card_cons, ← taken]
            omega

theorem commit_ne (found : firstFit size v.blocks = some block) (header : Bool) :
    commitVmemBlock header size v.blocks ≠ v.blocks := by
  obtain ⟨fit, front, back, list, unfit⟩ := firstFit_eq_some.mp found
  rw [list]
  have passes : ∀ front : List Segment, (∀ t ∈ front, t.fits size = false) →
      commitVmemBlock header size (front ++ block :: back) ≠ front ++ block :: back := by
    intro front
    induction front with
    | nil =>
        intro _ same
        rw [List.nil_append, commitVmemBlock, if_pos fit] at same
        have free := (fits_iff.mp fit).1
        rw [← (List.cons.inj same).1] at free
        cases free
    | cons t front ih =>
        intro unfit same
        rw [List.cons_append, commitVmemBlock, if_neg (by rw [unfit t List.mem_cons_self]; decide)] at same
        exact ih (fun u member => unfit u (List.mem_cons_of_mem _ member)) (List.cons.inj same).2
  exact passes front unfit

/-- The header request returns, with or without a header. -/
theorem splitHeader_returns (heap : HeapInv (kmallocInit h) l) (size : Nat) :
    ∃ h' header, splitHeader size h = .ok (h', header) := by
  unfold splitHeader
  split
  · cases granted : place vmemHeaderSize l with
    | none => exact ⟨_, _, kmalloc_refused heap granted⟩
    | some placed =>
        obtain ⟨head, l₁⟩ := placed
        obtain ⟨h₁, done, _⟩ := kmalloc_granted heap header_sizes.1 header_sizes.2 granted
        exact ⟨_, _, done⟩
  · exact ⟨_, _, rfl⟩

/-- **What `vmalloc` does after `vmalloc_init`**: NULL at once, NULL after as many pages as there is room
for, or the block. -/
theorem vmallocReady_cases (heap : HeapInv (kmallocInit h) l) (v : VmemState) (size : Nat) :
    ((size = 0 ∨ firstFit (alignUp size pageSize) v.blocks = none) ∧
        vmallocReady h v size = .ok (h, v, 0)) ∨
      (size ≠ 0 ∧ ∃ block, firstFit (alignUp size pageSize) v.blocks = some block ∧
        ((pageRoom l < pagesFor size ∧ ∃ h' l', vmallocReady h v size = .ok (h', v, 0) ∧
            HeapInv (kmallocInit h') l' ∧ inUse l ≤ inUse l' ∧
            (inUse l').card = (inUse l).card + pageRoom l) ∨
          (pagesFor size ≤ pageRoom l ∧ ∃ h' v', vmallocReady h v size = .ok (h', v', block.addr) ∧
            v'.blocks ≠ v.blocks))) := by
  by_cases zero : size = 0
  · exact .inl ⟨.inl zero, by rw [vmallocReady, if_pos zero]; rfl⟩
  cases found : firstFit (alignUp size pageSize) v.blocks with
  | none =>
      refine .inl ⟨.inr rfl, ?_⟩
      rw [vmallocReady, if_neg zero]
      simp only [found]
      rfl
  | some block =>
      refine .inr ⟨zero, block, rfl, ?_⟩
      obtain ⟨h₁, l₁, pages, heap₁, grows, card⟩ := backPages_spec heap (pagesFor size)
      have unfolded : vmallocReady h v size = (backPages (pagesFor size) h >>= fun (h, backed) =>
          if backed then splitHeader (alignUp size pageSize) h >>= fun (h, header) =>
            return (h, { v with
              blocks := commitVmemBlock (header != 0) (alignUp size pageSize) v.blocks
              allocated := (v.allocated + alignUp size pageSize) % 2 ^ 32 }, block.addr)
          else return (h, v, 0)) := by
        rw [vmallocReady, if_neg zero]
        simp only [found]
        rfl
      rw [unfolded, pages, Outcome.ok_bind]
      by_cases all : pagesFor size ≤ pageRoom l
      · obtain ⟨h₂, header, split⟩ := splitHeader_returns heap₁ (alignUp size pageSize)
        refine .inr ⟨all, h₂, { v with
          blocks := commitVmemBlock (header != 0) (alignUp size pageSize) v.blocks
          allocated := (v.allocated + alignUp size pageSize) % 2 ^ 32 }, ?_, commit_ne found _⟩
        simp only [all, decide_true, if_true, split, Outcome.ok_bind]
        rfl
      · have short := not_le.mp all
        refine .inl ⟨short, h₁, l₁, ?_, heap₁, grows, ?_⟩
        · simp only [all, decide_false, Bool.false_eq_true, if_false]
          rfl
        · rw [card, min_eq_right short.le]

/-- A live allocation more is a difference. -/
theorem LeftAlone.card (alone : LeftAlone l v h' v') (heap : HeapInv (kmallocInit h') l') :
    (inUse l').card = (inUse l).card := by
  obtain ⟨l₂, heap₂, same⟩ := alone.live
  rw [heap.unique heap₂, same]

/-- **After `vmalloc_init`**: NULL is returned without side effects exactly when the request is spared. -/
theorem vmallocReady_iff (heap : HeapInv (kmallocInit h) l) (ready : v.initialized = true) (size : Nat) :
    (∀ h' v', vmallocReady h v size = .ok (h', v', 0) → LeftAlone l v h' v') ↔ Spared l v size := by
  rw [Spared, if_pos ready]
  rcases vmallocReady_cases heap v size with ⟨refused, done⟩ | ⟨asked, block, found, ⟨short, h₁, l₁, done, heap₁,
    grows, card⟩ | ⟨all, h₁, v₁, done, changed⟩⟩
  · refine iff_of_true (fun h' v' null => ?_) (refused.imp_right fun none block found => ?_)
    · cases done.symm.trans null
      exact ⟨rfl, rfl, l, heap, rfl⟩
    · rw [none] at found
      cases found
  · constructor
    · intro alone
      have same := (alone h₁ v done).card heap₁
      refine .inr fun other found' => .inl ⟨by omega, by omega⟩
    · rintro (none | spared) h' v' null
      · exact absurd none asked
      · cases done.symm.trans null
        rcases spared block found with ⟨empty, _⟩ | ⟨all, _⟩
        · refine ⟨rfl, rfl, l₁, heap₁, (Multiset.eq_of_le_of_card_le grows ?_).symm⟩
          rw [card, empty, Nat.add_zero]
        · exact absurd all (not_le.mpr short)
  · constructor
    · intro alone
      refine .inr fun other found' => .inr ⟨all, fun null => ?_⟩
      cases found.symm.trans found'
      rw [null] at done
      exact changed (alone h₁ v₁ done).blocks
    · rintro (none | spared) h' v' null
      · exact absurd none asked
      · have address : block.addr = 0 := (Prod.mk.inj (Prod.mk.inj (Outcome.ok.inj (done.symm.trans null))).2).2
        rcases spared block found with ⟨empty, some⟩ | ⟨_, nonzero⟩
        · exact absurd all (by omega)
        · exact absurd address nonzero

/-- The first request finds the whole address space, if it is not larger. -/
theorem firstFit_whole (n : Nat) : firstFit n [⟨vmemStart, vmemSize, true⟩] =
    if n ≤ vmemSize then some ⟨vmemStart, vmemSize, true⟩ else none := by
  by_cases fit : n ≤ vmemSize
  · simp [firstFit, Segment.fits, fit]
  · simp [firstFit, Segment.fits, fit]

/-- **Right after `vmalloc_init`**: its list node is live, and no call that returns NULL gives it back. -/
theorem vmallocReady_first (heap : HeapInv (kmallocInit h) l') (node : (inUse l').card = (inUse l).card + 1)
    (whole : v'.blocks = [⟨vmemStart, vmemSize, true⟩]) (size : Nat) :
    (∀ h'' v'', vmallocReady h v' size = .ok (h'', v'', 0) → LeftAlone l v h'' v'') ↔
      size ≠ 0 ∧ alignUp size pageSize ≤ vmemSize ∧ pagesFor size ≤ pageRoom l' := by
  have cases := vmallocReady_cases heap v' size
  rw [whole, firstFit_whole] at cases
  rcases cases with ⟨refused, done⟩ | ⟨asked, block, found, ⟨short, h₁, l₁, done, heap₁, _, card⟩ |
    ⟨all, h₁, v₁, done, _⟩⟩
  · refine iff_of_false (fun alone => ?_) ?_
    · have same := (alone h v' done).card heap
      omega
    · rintro ⟨asked, fit, _⟩
      rw [if_pos fit] at refused
      exact refused.elim asked fun none => by cases none
  · refine iff_of_false (fun alone => ?_) fun condition => absurd condition.2.2 (not_le.mpr short)
    have same := (alone h₁ v' done).card heap₁
    omega
  · have fit : alignUp size pageSize ≤ vmemSize := by
      by_contra large
      rw [if_neg large] at found
      cases found
    rw [if_pos fit] at found
    cases found
    refine iff_of_true (fun h'' v'' null => ?_) ⟨asked, fit, all⟩
    have address : vmemStart = 0 := (Prod.mk.inj (Prod.mk.inj (Outcome.ok.inj (done.symm.trans null))).2).2
    exact absurd address (by decide)

theorem takeVmemBlock_eq (header : Bool) (size : Nat) (l : List Segment) : takeVmemBlock header size l =
    (firstFit size l).map fun block => (block.addr, commitVmemBlock header size l) := by
  induction l with
  | nil => rfl
  | cons block rest ih =>
      rw [takeVmemBlock, commitVmemBlock, firstFit, List.find?_cons]
      by_cases fit : block.fits size = true
      · rw [if_pos (fits_iff.mp fit), if_pos fit, fit]
        rfl
      · rw [if_neg fun both => fit (fits_iff.mpr both), if_neg fit, ih, Option.map_map]
        rw [Bool.not_eq_true] at fit
        rw [fit]
        rfl

/-- `Vmem.vmalloc` once `vmalloc_init` is done. -/
theorem vmalloc_unfold {k : HeapAnswers} {v₁ : VmemState} (started : vmallocInit k v = .ok v₁)
    (asked : size ≠ 0) :
    vmalloc k v size = match firstFit (alignUp size pageSize) v₁.blocks with
      | none => .ok (v₁, 0)
      | some block =>
          if (List.range (alignUp size pageSize / pageSize)).all k.page then
            .ok ({ v₁ with
              blocks := commitVmemBlock k.header (alignUp size pageSize) v₁.blocks
              allocated := (v₁.allocated + alignUp size pageSize) % 2 ^ 32 }, block.addr)
          else .ok (v₁, 0) := by
  rw [vmalloc, started, Outcome.ok_bind, if_neg asked]
  simp only [takeVmemBlock_eq]
  cases firstFit (alignUp size pageSize) v₁.blocks with
  | none => rfl
  | some block => rfl

theorem backPages_none (backed : backPages 0 h = .ok (h', all)) : all = true := by
  cases backed
  rfl

/-- **The heap answers what `Vmem.vmalloc` is told.** -/
theorem vmallocReady_answers {v₁ : VmemState} (done : vmallocReady h v₁ size = .ok (h', v', ptr)) :
    ∃ pages header, ∀ v, vmallocInit ⟨true, pages, header⟩ v = .ok v₁ →
      vmalloc ⟨true, pages, header⟩ v size = .ok (v', ptr) := by
  by_cases zero : size = 0
  · rw [vmallocReady, if_pos zero] at done
    cases done
    refine ⟨fun _ => true, true, fun v started => ?_⟩
    rw [vmalloc, started, Outcome.ok_bind, if_pos zero]
    rfl
  rw [vmallocReady, if_neg zero] at done
  cases found : firstFit (alignUp size pageSize) v₁.blocks with
  | none =>
      simp only [found] at done
      cases done
      exact ⟨fun _ => true, true, fun v started => by rw [vmalloc_unfold started zero, found]⟩
  | some block =>
      simp only [found] at done
      obtain ⟨⟨h₁, backed⟩, pages, rest⟩ := Outcome.bind_eq_ok.mp done
      cases backed with
      | false =>
          cases rest
          have refuses : (List.range (alignUp size pageSize / pageSize)).all (fun _ => false) = false := by
            rw [List.all_eq_false]
            refine ⟨0, List.mem_range.mpr (Nat.pos_of_ne_zero fun none => ?_), Bool.false_ne_true⟩
            rw [none] at pages
            exact absurd (backPages_none pages) Bool.false_ne_true
          exact ⟨fun _ => false, true, fun v started => by
            rw [vmalloc_unfold started zero, found]
            simp only [refuses]
            rfl⟩
      | true =>
          obtain ⟨⟨h₂, header⟩, split, rest⟩ := Outcome.bind_eq_ok.mp rest
          cases rest
          exact ⟨fun _ => true, header != 0, fun v started => by
            rw [vmalloc_unfold started zero, found]
            simp⟩

end Requests

/-- **What `vmalloc` does on the heap is what `Vmem.vmalloc` does with the answers of the heap.** -/
theorem vmallocBacked_answers {h h' : HeapState} {v v' : VmemState} {size ptr : Nat}
    (done : vmallocBacked h v size = .ok (h', v', ptr)) : ∃ k, vmalloc k v size = .ok (v', ptr) := by
  obtain ⟨⟨h₁, v₁⟩, started, rest⟩ := Outcome.bind_eq_ok.mp done
  obtain ⟨pages, header, answers⟩ := vmallocReady_answers rest
  refine ⟨_, answers v ?_⟩
  unfold vmallocInitBacked at started
  unfold vmallocInit
  split at started
  · rename_i ready
    cases started
    rw [if_pos ready]
  · rename_i fresh
    obtain ⟨⟨h₂, head⟩, node, rest⟩ := Outcome.bind_eq_ok.mp started
    simp only at rest
    split at rest
    · cases rest
    · cases rest
      rw [if_neg fresh]
      rfl

/-- **Exactly when `vmalloc` fails without side effects**: for every heap, every list of virtual blocks and
every request, a call that returns NULL has changed neither the list, nor `vmem_allocated`, nor what is live
in the kernel heap, if and only if the request is spared. -/
theorem vmalloc_null_iff (h : HeapState) (l : List Segment) (v : VmemState) (size : Nat)
    (heap : HeapInv (kmallocInit h) l) :
    (∀ h' v', vmallocBacked h v size = .ok (h', v', 0) → LeftAlone l v h' v') ↔ Spared l v size := by
  cases ready : v.initialized with
  | true =>
      have skipped : vmallocBacked h v size = vmallocReady h v size := by
        unfold vmallocBacked vmallocInitBacked
        rw [if_pos ready]
        rfl
      rw [skipped]
      exact vmallocReady_iff heap ready size
  | false =>
      rw [Spared, if_neg (by rw [ready]; decide)]
      cases granted : place vmemHeaderSize l with
      | none =>
          have panics : vmallocBacked h v size = .panic initFailed := by
            unfold vmallocBacked vmallocInitBacked
            rw [if_neg (by rw [ready]; decide), kmalloc_refused heap granted]
            rfl
          refine iff_of_true (fun h' v' null => ?_) fun head l' found => ?_
          · cases panics.symm.trans null
          · cases found
      | some placed =>
          obtain ⟨head, l₁⟩ := placed
          obtain ⟨h₁, done, heap₁⟩ := kmalloc_granted heap header_sizes.1 header_sizes.2 granted
          have started : vmallocBacked h v size =
              vmallocReady h₁ { v with blocks := [⟨vmemStart, vmemSize, true⟩], initialized := true } size := by
            unfold vmallocBacked vmallocInitBacked
            rw [if_neg (by rw [ready]; decide), done, Outcome.ok_bind]
            simp only
            rw [if_neg (place_ne_null granted)]
            rfl
          have node : (inUse l₁).card = (inUse l).card + 1 := by
            rw [inUse_place granted, Multiset.card_cons]
          rw [started, vmallocReady_first heap₁ node rfl size]
          constructor
          · rintro spared head' l' found
            cases found
            exact spared
          · exact fun spared => spared head l₁ rfl

/-- The heap after the first `vmalloc` of a page: the list node, the page, the node of the rest. -/
def pageTaken : List Segment :=
  [⟨heapStart, 40, false⟩, ⟨heapStart + 40, 4112, false⟩, ⟨heapStart + 4152, 40, false⟩,
    ⟨heapStart + 4192, heapSize - 4192, true⟩]

/-- The virtual blocks after the first `vmalloc` of a page. -/
def pageMapped : VmemState :=
  ⟨[⟨vmemStart, 4096, false⟩, ⟨vmemStart + 4096, vmemSize - 4096, true⟩], true, 4096, 0⟩

/-- The first `vmalloc` of a page. -/
theorem vmalloc_page : ∃ h, vmallocBacked (.boot fun _ => 0) .boot 1 = .ok (h, pageMapped, vmemStart) ∧
    HeapInv (kmallocInit h) pageTaken := by
  have boot : HeapInv (kmallocInit (.boot fun _ => 0)) [⟨heapStart, heapSize, true⟩] := kmallocInit_inv rfl
  obtain ⟨h₁, node, heap₁⟩ := kmalloc_granted boot header_sizes.1 header_sizes.2
    (show place vmemHeaderSize [⟨heapStart, heapSize, true⟩] = some (heapStart + 16,
      [⟨heapStart, 40, false⟩, ⟨heapStart + 40, heapSize - 40, true⟩]) by decide)
  obtain ⟨h₂, page, heap₂⟩ := kmalloc_granted heap₁ page_sizes.1 page_sizes.2.1
    (show place pageSize [⟨heapStart, 40, false⟩, ⟨heapStart + 40, heapSize - 40, true⟩] = some (heapStart + 56,
      [⟨heapStart, 40, false⟩, ⟨heapStart + 40, 4112, false⟩,
        ⟨heapStart + 4152, heapSize - 4152, true⟩]) by decide)
  obtain ⟨h₃, rest, heap₃⟩ := kmalloc_granted heap₂ header_sizes.1 header_sizes.2
    (show place vmemHeaderSize [⟨heapStart, 40, false⟩, ⟨heapStart + 40, 4112, false⟩,
      ⟨heapStart + 4152, heapSize - 4152, true⟩] = some (heapStart + 4168, pageTaken) by decide)
  have started : vmallocInitBacked (.boot fun _ => 0) .boot =
      .ok (h₁, ⟨[⟨vmemStart, vmemSize, true⟩], true, 0, 0⟩) := by
    rw [vmallocInitBacked, if_neg (by decide), node]
    rfl
  have backed : backPages 1 h₁ = .ok (h₂, true) := by
    rw [backPages, page]
    rfl
  have split : splitHeader 4096 h₂ = .ok (h₃, heapStart + 4168) := by
    rw [splitHeader, if_pos (by decide), rest]
  have first : vmallocBacked (.boot fun _ => 0) .boot 1 = .ok (h₃, pageMapped, vmemStart) := by
    rw [vmallocBacked, started, Outcome.ok_bind]
    show (backPages 1 h₁ >>= fun (h, backed) => _) = _
    rw [backed, Outcome.ok_bind]
    show (splitHeader 4096 h₂ >>= fun (h, header) => _) = _
    rw [split]
    rfl
  exact ⟨h₃, first, heap₃⟩

/-- After it, the call for another page. -/
theorem vmalloc_null_iff_page : ∃ h, vmallocBacked (.boot fun _ => 0) .boot 1 = .ok (h, pageMapped, vmemStart) ∧
    ((∀ h' v', vmallocBacked h pageMapped 4096 = .ok (h', v', 0) → LeftAlone pageTaken pageMapped h' v') ↔
      Spared pageTaken pageMapped 4096) ∧ Spared pageTaken pageMapped 4096 := by
  obtain ⟨h, first, heap⟩ := vmalloc_page
  refine ⟨h, first, vmalloc_null_iff h pageTaken pageMapped 4096 heap, .inr fun block found => .inr ⟨by decide, ?_⟩⟩
  cases found
  decide

/-- **The pages of a failed call stay in use**: one byte, then 4 MB. The heap has room for 253 pages more,
and all of them are live when NULL is returned. -/
theorem vmalloc_leaks : ∃ h h' l', vmallocBacked (.boot fun _ => 0) .boot 1 = .ok (h, pageMapped, vmemStart) ∧
    HeapInv (kmallocInit h) pageTaken ∧ vmallocBacked h pageMapped 0x400000 = .ok (h', pageMapped, 0) ∧
    HeapInv (kmallocInit h') l' ∧ (inUse l').card = (inUse pageTaken).card + 253 ∧
    ¬ LeftAlone pageTaken pageMapped h' pageMapped := by
  obtain ⟨h, first, heap⟩ := vmalloc_page
  rcases vmallocReady_cases heap pageMapped 0x400000 with ⟨refused, _⟩ | ⟨_, block, _, ⟨_, h', l', done, heap', _,
    card⟩ | ⟨all, _⟩⟩
  · exact absurd refused (by decide)
  · have grown : (inUse l').card = (inUse pageTaken).card + 253 := card
    refine ⟨h, h', l', first, heap, done, heap', grown, fun alone => ?_⟩
    have same := alone.card heap'
    omega
  · exact absurd all (by decide)

end Kfs.Vmem
