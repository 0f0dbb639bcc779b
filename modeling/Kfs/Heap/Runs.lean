/-
**The kernel heap over whole runs.**

A run interleaves `kmalloc` of sizes that do not wrap, `kfree` of NULL or of live pointers, and client
writes inside live payloads, from a heap set up by `kmalloc_init` over any memory. `Client` pairs the
heap with the pointers handed out and not yet freed; it is a bookkeeping device and no code reads it.

* `heap_tiled` — in every state of every run the block list starts at `HEAP_START`, each block's
  successor is exactly where it ends, the last ends at `HEAP_END`, sizes are legal; so live payloads
  are disjoint, aligned and inside the heap, and a live block keeps its place and size until freed.
* `heap_coalesced` — no two neighbours are free; so `kmalloc` fails exactly when no run of free bytes
  is long enough, and with nothing live the heap is one free block again.
-/

import Kfs.Base.Trace
import Kfs.Heap.Refine

namespace Kfs.Heap

open Memory

/-! ### Runs -/

/-- The heap and the live pointers. -/
structure Client where
  heap : HeapState
  live : List Nat

/-- What can happen to the heap. -/
inductive HeapOp where
  | malloc (size : Nat)
  | free (ptr : Nat)
  | write
  deriving DecidableEq, Repr

/-- The addresses outside every live payload. -/
def Client.outside (c : Client) : Set Nat :=
  {x | ∀ p ∈ c.live, ¬ (p ≤ x ∧ x < p + ksize c.heap p)}

/-- One operation. -/
inductive HeapStep : Client → HeapOp → Client → Prop
  | malloc {c : Client} {size ptr : Nat} {h : HeapState} (fits : NoWrap size)
      (done : kmalloc c.heap size = .ok (h, ptr)) :
      HeapStep c (.malloc size) ⟨h, if ptr = 0 then c.live else ptr :: c.live⟩
  | freeNull {c : Client} {h : HeapState} (done : kfree c.heap 0 = .ok h) :
      HeapStep c (.free 0) ⟨h, c.live⟩
  | free {c : Client} {ptr : Nat} {h : HeapState} (live : ptr ∈ c.live)
      (done : kfree c.heap ptr = .ok h) : HeapStep c (.free ptr) ⟨h, c.live.erase ptr⟩
  | write {c : Client} {m : Memory} (payload : Set.EqOn m c.heap.mem c.outside) :
      HeapStep c .write ⟨{ c.heap with mem := m }, c.live⟩

/-- Run one operation, when a client may make it. -/
def HeapOp.exec (c : Client) : HeapOp → Outcome Client
  | .malloc size =>
      if NoWrap size then do
        let (h, ptr) ← kmalloc c.heap size
        return ⟨h, if ptr = 0 then c.live else ptr :: c.live⟩
      else .diverge
  | .free ptr =>
      if ptr ∈ c.live then do
        let h ← kfree c.heap ptr
        return ⟨h, c.live.erase ptr⟩
      else .diverge
  | .write => .ok c

theorem HeapStep.of_exec {c d : Client} {op : HeapOp} (done : op.exec c = .ok d) : HeapStep c op d := by
  cases op with
  | malloc size =>
      simp only [HeapOp.exec] at done
      split at done
      · rename_i fits
        obtain ⟨⟨h, ptr⟩, taken, last⟩ := Outcome.bind_eq_ok.mp done
        cases last
        exact .malloc fits taken
      · cases done
  | free ptr =>
      simp only [HeapOp.exec] at done
      split at done
      · rename_i live
        obtain ⟨h, freed, last⟩ := Outcome.bind_eq_ok.mp done
        cases last
        exact .free live freed
      · cases done
  | write =>
      cases done
      exact .write (Set.eqOn_refl _ _)

/-- The heap after `kmalloc_init` over the memory `m`. -/
def Client.init (m : Memory) : Client := ⟨kmallocInit (HeapState.boot m), []⟩

/-- The states a run can reach. -/
def Reachable (c : Client) : Prop := ∃ m ops, Run HeapStep (Client.init m) ops c

/-! ### The invariant of a run -/

/-- The live pointers are exactly the payloads of the blocks in use. -/
structure ClientInv (c : Client) (l : List Segment) : Prop where
  heap : HeapInv c.heap l
  nodup : c.live.Nodup
  live : ∀ p, p ∈ c.live ↔ ∃ s ∈ l, s.free = false ∧ p = s.addr + 16

section Invariant

variable {c d : Client} {l : List Segment}

/-- The payload size of a block on the list. -/
theorem ksize_eq {h : HeapState} (inv : HeapInv h l) {s : Segment} (member : s ∈ l) :
    ksize h (s.addr + 16) = s.size - 16 := by
  obtain ⟨size, _, magic⟩ := inv.linked.header member
  have inside := inv.bounds member
  have block := blockOf_payload inv member
  unfold ksize
  unfold blockOf at block
  rw [if_neg (by omega)]
  simp only [block, magic, size, ne_eq, not_true, if_false]
  simp only [heapEnd, heapStart, heapSize, blockHeaderSize] at *
  omega

theorem clientInv_init (m : Memory) :
    ClientInv (Client.init m) [⟨heapStart, heapSize, true⟩] := by
  refine ⟨kmallocInit_inv (h := HeapState.boot m) rfl, List.nodup_nil, fun p => ⟨fun member => ?_, ?_⟩⟩
  · cases member
  · rintro ⟨s, member, used, _⟩
    rw [List.mem_singleton.mp member] at used
    cases used

/-- The size `kmalloc` asks for is legal when nothing wraps. -/
theorem legal_totalSize {size : Nat} (fits : NoWrap size) : LegalSize (totalSize size) := by
  rw [totalSize_eq fits]
  exact ⟨by omega, by simp only [blockHeaderSize]; omega⟩

/-- **One `kmalloc`**: NULL and the same heap, or a block carved from the first that fits. -/
theorem kmalloc_cases {h h' : HeapState} {size ptr : Nat} (inv : HeapInv h l) (fits : NoWrap size)
    (done : kmalloc h size = .ok (h', ptr)) :
    (ptr = 0 ∧ h' = h) ∨ ∃ front s back, l = front ++ s :: back ∧ s.fits (totalSize size) = true ∧
      (∀ t ∈ front, t.fits (totalSize size) = false) ∧ ptr = s.addr + 16 ∧
      h' = afterTake h size s.addr ∧
      HeapInv h' (front ++ carve (totalSize size) splitSlack s ++ back) := by
  by_cases zero : size = 0
  · subst zero
    rw [kmalloc_zero inv.ready] at done
    cases done
    exact Or.inl ⟨rfl, rfl⟩
  · cases found : firstFit (totalSize size) l with
    | none =>
        rw [kmalloc_none inv (firstFit_eq_none.mp found)] at done
        cases done
        exact Or.inl ⟨rfl, rfl⟩
    | some s =>
        obtain ⟨fit, front, back, rfl, unfit⟩ := firstFit_eq_some.mp found
        rw [kmalloc_some inv zero unfit fit] at done
        cases done
        exact Or.inr ⟨front, s, back, rfl, fit, unfit, rfl, rfl,
          afterTake_inv inv (Or.inl (legal_totalSize fits)) fit⟩

/-- **What `kmalloc` gives**: a block in use that has room for what was asked. -/
theorem kmalloc_block {h h' : HeapState} {size ptr : Nat} (inv : HeapInv h l) (fits : NoWrap size)
    (taken : kmalloc h size = .ok (h', ptr)) (given : ptr ≠ 0) :
    0 < size ∧ ∃ l' b, HeapInv h' l' ∧ b ∈ l' ∧ b.free = false ∧ ptr = b.addr + 16 ∧
      ptr + size ≤ b.addr + b.size := by
  rcases kmalloc_cases inv fits taken with ⟨null, _⟩ | ⟨front, s, back, rfl, fit, _, rfl, rfl, after⟩
  · exact absurd null given
  · obtain ⟨room, least, most, carved⟩ := @carve_used _ splitSlack _ (fits_iff.mp fit).2
    rw [totalSize_eq fits] at least
    refine ⟨Nat.pos_of_ne_zero ?_, _, ⟨s.addr, room, false⟩, after, by simp [carved], rfl, rfl, ?_⟩
    · rintro rfl
      rw [kmalloc_zero inv.ready] at taken
      exact given (Prod.mk.inj (Outcome.ok.inj taken)).2.symm
    · simp only
      omega

/-- Where first fit puts a request on a block list, and the list after it. -/
def place (size : Nat) : List Segment → Option (Nat × List Segment)
  | [] => none
  | s :: rest =>
      if s.fits (totalSize size) then
        some (s.addr + blockHeaderSize, carve (totalSize size) splitSlack s ++ rest)
      else (place size rest).map fun (ptr, l) => (ptr, s :: l)

theorem place_append {front back : List Segment} {s : Segment} {size : Nat}
    (unfit : ∀ t ∈ front, t.fits (totalSize size) = false) (fit : s.fits (totalSize size) = true) :
    place size (front ++ s :: back) =
      some (s.addr + 16, front ++ carve (totalSize size) splitSlack s ++ back) := by
  induction front with
  | nil =>
      rw [List.nil_append, place, if_pos fit]
      rfl
  | cons t front ih =>
      rw [List.cons_append, place, if_neg (by rw [unfit t List.mem_cons_self]; decide),
        ih fun u member => unfit u (List.mem_cons_of_mem _ member)]
      rfl

theorem place_none {l : List Segment} {size : Nat}
    (unfit : ∀ s ∈ l, s.fits (totalSize size) = false) : place size l = none := by
  induction l with
  | nil => rfl
  | cons s rest ih =>
      rw [place, if_neg (by rw [unfit s List.mem_cons_self]; decide),
        ih fun t member => unfit t (List.mem_cons_of_mem _ member)]
      rfl

theorem place_ne_null {l l' : List Segment} {size ptr : Nat} (placed : place size l = some (ptr, l')) :
    ptr ≠ 0 := by
  induction l generalizing l' with
  | nil => cases placed
  | cons s rest ih =>
      rw [place] at placed
      split at placed
      · cases placed
        exact Nat.succ_ne_zero _
      · obtain ⟨⟨found, later⟩, here, same⟩ := Option.map_eq_some_iff.mp placed
        cases same
        exact ih here

theorem place_eq_none {l : List Segment} {size : Nat} :
    place size l = none ↔ ∀ s ∈ l, s.fits (totalSize size) = false := by
  constructor
  · intro none
    rw [← firstFit_eq_none]
    cases found : firstFit (totalSize size) l with
    | none => rfl
    | some s =>
        obtain ⟨fit, front, back, rfl, unfit⟩ := firstFit_eq_some.mp found
        rw [place_append unfit fit] at none
        cases none
  · exact place_none

/-- Where `place` finds a block: the first that fits is carved. -/
theorem place_eq_some {l l' : List Segment} {size ptr : Nat} (placed : place size l = some (ptr, l')) :
    ∃ front s back, l = front ++ s :: back ∧ (∀ t ∈ front, t.fits (totalSize size) = false) ∧
      s.fits (totalSize size) = true ∧ ptr = s.addr + blockHeaderSize ∧
      l' = front ++ carve (totalSize size) splitSlack s ++ back := by
  cases found : firstFit (totalSize size) l with
  | none =>
      rw [place_eq_none.mpr (firstFit_eq_none.mp found)] at placed
      cases placed
  | some s =>
      obtain ⟨fit, front, back, rfl, unfit⟩ := firstFit_eq_some.mp found
      rw [place_append unfit fit] at placed
      cases placed
      exact ⟨front, s, back, rfl, unfit, fit, rfl, rfl⟩

/-- **`kmalloc` returns what `place` says.** -/
theorem kmalloc_place {h : HeapState} {l' : List Segment} {size ptr : Nat} (inv : HeapInv h l)
    (fits : NoWrap size) (positive : size ≠ 0) (placed : place size l = some (ptr, l')) :
    ∃ h', kmalloc h size = .ok (h', ptr) ∧ HeapInv h' l' := by
  obtain ⟨front, s, back, rfl, unfit, fit, rfl, rfl⟩ := place_eq_some placed
  exact ⟨_, kmalloc_some inv positive unfit fit, afterTake_inv inv (Or.inl (legal_totalSize fits)) fit⟩

/-- The used segments after carving a free one: the old ones and the carved part. -/
theorem mem_carved_used {front back : List Segment} {s t : Segment} {n slack : Nat}
    (free : s.free = true) (used : t.free = false) :
    t ∈ front ++ carve n slack s ++ back ↔
      t ∈ front ++ s :: back ∨ (t ∈ carve n slack s ∧ t.addr = s.addr) := by
  constructor
  · intro member
    rcases List.mem_append.mp member with member | inBack
    · rcases List.mem_append.mp member with inFront | carved
      · exact Or.inl (by simp [inFront])
      · refine Or.inr ⟨carved, ?_⟩
        rcases mem_carve carved with ⟨rfl, _⟩ | ⟨rfl, _⟩ | ⟨rfl, _⟩
        · rfl
        · cases used
        · rfl
    · exact Or.inl (by simp [inBack])
  · rintro (old | ⟨carved, _⟩)
    · rcases List.mem_append.mp old with inFront | inBack
      · simp [inFront]
      · rcases List.mem_cons.mp inBack with rfl | inBack
        · rw [free] at used
          cases used
        · simp [inBack]
    · simp [carved]

/-- What a client writes leaves the block list alone. -/
theorem ClientInv.written {m : Memory} (inv : ClientInv c l) (payload : Set.EqOn m c.heap.mem c.outside) :
    HeapInv { c.heap with mem := m } l := by
  refine inv.heap.write (payload.mono fun x outside => ?_)
  intro p member inside
  obtain ⟨s, inList, used, rfl⟩ := (inv.live p).mp member
  rw [ksize_eq inv.heap inList] at inside
  have bounds := inv.heap.bounds inList
  exact outside s inList used ⟨inside.1, by omega⟩

/-- **Every operation keeps the invariant.** -/
theorem HeapStep.keeps {op : HeapOp} (step : HeapStep c op d) (inv : ClientInv c l) :
    ∃ l', ClientInv d l' := by
  cases step with
  | malloc fits done =>
      rcases kmalloc_cases inv.heap fits done with
        ⟨rfl, rfl⟩ | ⟨front, s, back, rfl, fit, _, rfl, rfl, heap⟩
      · exact ⟨l, inv⟩
      · obtain ⟨free, room⟩ := fits_iff.mp fit
        obtain ⟨taken, _, _, carved⟩ := @carve_used _ splitSlack _ room
        have fresh : s.addr + 16 ∉ c.live := fun member => by
          obtain ⟨t, inside, used, same⟩ := (inv.live _).mp member
          have := inv.heap.tiles.eq_of_addr (s := t) (t := s) inside (by simp) (by omega)
          rw [this, free] at used
          cases used
        rw [if_neg (by omega)]
        refine ⟨_, heap, List.nodup_cons.mpr ⟨fresh, inv.nodup⟩, fun p => ?_⟩
        rw [List.mem_cons]
        constructor
        · rintro (rfl | old)
          · exact ⟨_, (mem_carved_used free rfl).mpr (Or.inr ⟨carved, rfl⟩), rfl, rfl⟩
          · obtain ⟨t, inside, used, same⟩ := (inv.live p).mp old
            exact ⟨t, (mem_carved_used free used).mpr (Or.inl inside), used, same⟩
        · rintro ⟨t, inside, used, rfl⟩
          rcases (mem_carved_used free used).mp inside with old | ⟨_, same⟩
          · exact Or.inr ((inv.live _).mpr ⟨t, old, used, rfl⟩)
          · exact Or.inl (by rw [same])
  | freeNull done =>
      cases done
      exact ⟨l, inv⟩
  | free live done =>
      obtain ⟨s, member, used, rfl⟩ := (inv.live _).mp live
      obtain ⟨m, freed, heap, _⟩ := kfree_used inv.heap member used
      rw [freed] at done
      cases done
      refine ⟨_, heap, inv.nodup.erase _, fun p => ?_⟩
      rw [inv.nodup.mem_erase_iff, inv.live]
      constructor
      · rintro ⟨other, t, inside, usedT, rfl⟩
        exact ⟨t, (mem_release_used usedT).mpr ⟨inside, by omega⟩, usedT, rfl⟩
      · rintro ⟨t, inside, usedT, rfl⟩
        obtain ⟨inside, other⟩ := (mem_release_used usedT).mp inside
        exact ⟨by omega, t, inside, usedT, rfl⟩
  | write payload =>
      exact ⟨l, inv.written payload, inv.nodup, inv.live⟩

theorem run_keeps {ops : List HeapOp} (run : Run HeapStep c ops d) (inv : ∃ l, ClientInv c l) :
    ∃ l, ClientInv d l :=
  run.invariant (fun x => ∃ l, ClientInv x l) (fun _ _ _ ⟨_, here⟩ step => step.keeps here) inv

theorem Reachable.inv (reach : Reachable c) : ∃ l, ClientInv c l := by
  obtain ⟨m, ops, run⟩ := reach
  exact run_keeps run ⟨_, clientInv_init m⟩

/-- An operation that does not free it leaves a used block on the list. -/
theorem HeapStep.keeps_block {op : HeapOp} (step : HeapStep c op d) (inv : ClientInv c l)
    {s : Segment} (member : s ∈ l) (used : s.free = false) (other : op ≠ .free (s.addr + 16)) :
    ∃ l', ClientInv d l' ∧ s ∈ l' := by
  obtain ⟨l', inv'⟩ := step.keeps inv
  refine ⟨l', inv', ?_⟩
  cases step with
  | malloc fits done =>
      rcases kmalloc_cases inv.heap fits done with
        ⟨rfl, rfl⟩ | ⟨front, t, back, rfl, fit, _, rfl, rfl, heap⟩
      · rwa [inv'.heap.unique inv.heap]
      · rw [inv'.heap.unique heap]
        exact (mem_carved_used (fits_iff.mp fit).1 used).mpr (Or.inl member)
  | freeNull done =>
      cases done
      rwa [inv'.heap.unique inv.heap]
  | free live done =>
      obtain ⟨t, inside, usedT, rfl⟩ := (inv.live _).mp live
      obtain ⟨m, freed, heap, _⟩ := kfree_used inv.heap inside usedT
      rw [freed] at done
      cases done
      rw [inv'.heap.unique heap]
      refine (mem_release_used used).mpr ⟨member, fun same => other ?_⟩
      rw [same]
  | write payload =>
      rwa [inv'.heap.unique (inv.written payload)]

/-- **A used block stays on the list until it is freed.** -/
theorem run_keeps_block {ops : List HeapOp} (run : Run HeapStep c ops d) (inv : ClientInv c l)
    {s : Segment} (member : s ∈ l) (used : s.free = false) (other : .free (s.addr + 16) ∉ ops) :
    ∃ l', ClientInv d l' ∧ s ∈ l' :=
  run.induction (fun x => ∃ l', ClientInv x l' ∧ s ∈ l')
    (fun _ _ _ label ⟨_, here, inside⟩ step =>
      step.keeps_block here inside used fun same => other (same ▸ label))
    ⟨l, inv, member⟩

/-- An operation leaves memory below the heap alone. -/
theorem HeapStep.below {op : HeapOp} (step : HeapStep c op d) (inv : ClientInv c l) :
    Set.EqOn d.heap.mem c.heap.mem {x | x < heapStart} := by
  cases step with
  | malloc fits done =>
      rcases kmalloc_cases inv.heap fits done with
        ⟨rfl, rfl⟩ | ⟨front, s, back, rfl, fit, _, rfl, rfl, _⟩
      · exact Set.eqOn_refl _ _
      · have member : s ∈ front ++ s :: back := by simp
        have inside := inv.heap.bounds member
        refine (afterTake_eqOn inv.heap member (legal_totalSize fits) fit).mono fun x low => ?_
        simp only [Set.mem_ofPred_eq, Segment.Covers] at *
        omega
  | freeNull done =>
      cases done
      exact Set.eqOn_refl _ _
  | free live done =>
      obtain ⟨s, member, used, rfl⟩ := (inv.live _).mp live
      obtain ⟨m, freed, heap, same⟩ := kfree_used inv.heap member used
      rw [freed] at done
      cases done
      refine Set.EqOn.mono (fun x low => ?_) same
      intro t found _ covers
      have inside := heap.tiles.bounds found
      simp only [Set.mem_ofPred_eq, Segment.Covers] at *
      omega
  | write payload =>
      refine Set.EqOn.mono (fun x low => ?_) payload
      intro p live inside
      obtain ⟨s, member, used, rfl⟩ := (inv.live p).mp live
      have := inv.heap.bounds member
      simp only [Set.mem_ofPred_eq] at low
      omega

theorem run_below {ops : List HeapOp} (run : Run HeapStep c ops d) (inv : ClientInv c l) :
    (∃ l', ClientInv d l') ∧ Set.EqOn d.heap.mem c.heap.mem {x | x < heapStart} :=
  run.invariant (fun x => (∃ l', ClientInv x l') ∧
      Set.EqOn x.heap.mem c.heap.mem {y | y < heapStart})
    (fun _ _ _ ⟨⟨_, here⟩, same⟩ step => ⟨step.keeps here, (step.below here).trans same⟩)
    ⟨⟨l, inv⟩, Set.eqOn_refl _ _⟩

/-- `kmalloc_init` writes a header at the start of the heap. -/
theorem init_below (m : Memory) :
    Set.EqOn (Client.init m).heap.mem m {x | x < heapStart} := by
  have apart : {x | x < heapStart} ⊆ {x | x < heapStart ∨ heapStart + 16 ≤ x} := fun x => Or.inl
  exact (Header.setMagic_eqOn.mono apart).trans ((Header.setNext_eqOn.mono apart).trans
    ((Header.setFree_eqOn.mono apart).trans (Header.setSize_eqOn.mono apart)))

end Invariant

/-! ### Planned operations -/

/-- The block list after an operation: first fit serves a request, a pointer in use is released. -/
def HeapOp.plan (l : List Segment) : HeapOp → Option (List Segment)
  | .malloc size => if NoWrap size ∧ size ≠ 0 then (place size l).map Prod.snd else none
  | .free ptr => if ∃ s ∈ l, s.free = false ∧ s.addr + 16 = ptr then some (release (ptr - 16) l) else none
  | .write => some l

section Plan

variable {c : Client} {l l' : List Segment}

/-- **An operation that is planned** can be done. -/
theorem ClientInv.plan {op : HeapOp} (inv : ClientInv c l) (planned : op.plan l = some l') :
    ∃ d, HeapStep c op d ∧ ClientInv d l' := by
  cases op with
  | malloc size =>
      rw [HeapOp.plan, Option.ite_none_right_eq_some] at planned
      obtain ⟨⟨fits, positive⟩, planned⟩ := planned
      obtain ⟨⟨ptr, _⟩, placed, rfl⟩ := Option.map_eq_some_iff.mp planned
      obtain ⟨h, taken, heap⟩ := kmalloc_place inv.heap fits positive placed
      have step := HeapStep.malloc fits taken
      obtain ⟨l', after⟩ := step.keeps inv
      cases after.heap.blockList_eq.symm.trans heap.blockList_eq
      exact ⟨_, step, after⟩
  | free ptr =>
      rw [HeapOp.plan, Option.ite_none_right_eq_some] at planned
      obtain ⟨⟨s, member, used, rfl⟩, same⟩ := planned
      cases same
      obtain ⟨m, freed, heap, -⟩ := kfree_used inv.heap member used
      have step := HeapStep.free ((inv.live _).mpr ⟨s, member, used, rfl⟩) freed
      obtain ⟨l', after⟩ := step.keeps inv
      cases after.heap.blockList_eq.symm.trans heap.blockList_eq
      exact ⟨_, step, after⟩
  | write =>
      cases planned
      exact ⟨c, .write (Set.eqOn_refl _ _), inv⟩

/-- **A run that is planned** can be done. -/
theorem ClientInv.plans {ops : List HeapOp} (inv : ClientInv c l)
    (planned : ops.foldlM HeapOp.plan l = some l') : ∃ d, Run HeapStep c ops d ∧ ClientInv d l' := by
  induction ops generalizing c l with
  | nil =>
      cases planned
      exact ⟨c, .nil c, inv⟩
  | cons op ops ih =>
      rw [List.foldlM_cons] at planned
      obtain ⟨later, first, rest⟩ := Option.bind_eq_some_iff.mp planned
      obtain ⟨d, step, inv'⟩ := inv.plan first
      obtain ⟨last, run, final⟩ := ih inv' rest
      exact ⟨last, .cons step run, final⟩

end Plan

/-! ### Every state of every run -/

/-- The successor pointer of a block on a tiled list is where the block ends. -/
theorem next_eq {m : Memory} {l : List Segment} {p lo hi : Nat} (linked : Linked m p l)
    (tiles : Tiles lo hi l) {s : Segment} (member : s ∈ l) :
    Header.next m s.addr = if s.addr + s.size = hi then 0 else s.addr + s.size := by
  induction l generalizing p lo with
  | nil => cases member
  | cons t rest ih =>
      obtain ⟨here, _, _, _, tail⟩ := linked
      subst here
      obtain ⟨start, _, later⟩ := tiles
      rcases List.mem_cons.mp member with rfl | inside
      · rw [tail.headPtr]
        cases rest with
        | nil =>
            have last : lo + s.size = hi := later
            rw [if_pos (by omega)]
            rfl
        | cons u rest =>
            have seam := later.1
            have := later.2.2.le
            have := later.2.1
            rw [if_neg (by omega)]
            show u.addr = _
            omega
      · exact ih tail later inside

/-- **The heap is tiled by its blocks.** `l` is the block list a walk from `heap_start` finds. -/
structure HeapTiled (c : Client) (l : List Segment) : Prop where
  walked : blockList c.heap = some l
  start : c.heap.start = heapStart
  tiles : Tiles heapStart heapEnd l
  next : ∀ s ∈ l, Header.next c.heap.mem s.addr =
    if s.addr + s.size = heapEnd then 0 else s.addr + s.size
  legal : ∀ s ∈ l, 4 ∣ s.size ∧ blockHeaderSize ≤ s.size
  distinct : c.live.Nodup
  disjoint : ∀ p ∈ c.live, ∀ q ∈ c.live, p ≠ q →
    p + ksize c.heap p ≤ q ∨ q + ksize c.heap q ≤ p
  inside : ∀ p ∈ c.live, 4 ∣ p ∧ heapStart ≤ p ∧ p + ksize c.heap p ≤ heapEnd
  kept : ∀ p ∈ c.live, ∀ ops d, Run HeapStep c ops d → .free p ∉ ops →
    p ∈ d.live ∧ ksize d.heap p = ksize c.heap p ∧
      ∃ l', blockList d.heap = some l' ∧ ⟨p - 16, ksize c.heap p + 16, false⟩ ∈ l'
  mallocReturns : ∀ size, NoWrap size → ∃ result, kmalloc c.heap size = .ok result
  freeReturns : ∀ p, p = 0 ∨ p ∈ c.live → ∃ h, kfree c.heap p = .ok h

/-- `kmalloc` of a size that does not wrap always returns. -/
theorem kmalloc_returns {h : HeapState} {l : List Segment} (inv : HeapInv h l) (size : Nat) :
    ∃ result, kmalloc h size = .ok result := by
  by_cases zero : size = 0
  · subst zero
    exact ⟨_, kmalloc_zero inv.ready⟩
  · cases found : firstFit (totalSize size) l with
    | none => exact ⟨_, kmalloc_none inv (firstFit_eq_none.mp found)⟩
    | some s =>
        obtain ⟨fit, front, back, rfl, unfit⟩ := firstFit_eq_some.mp found
        exact ⟨_, kmalloc_some inv zero unfit fit⟩

/-- `kmalloc` returns NULL exactly when no block fits, and then changes nothing. -/
theorem kmalloc_null {h h' : HeapState} {l : List Segment} {size : Nat} (inv : HeapInv h l)
    (positive : size ≠ 0) : kmalloc h size = .ok (h', 0) ↔
      h' = h ∧ ∀ s ∈ l, s.fits (totalSize size) = false := by
  cases found : firstFit (totalSize size) l with
  | none =>
      have unfit := firstFit_eq_none.mp found
      rw [kmalloc_none inv unfit]
      constructor
      · intro same
        cases same
        exact ⟨rfl, unfit⟩
      · rintro ⟨rfl, _⟩
        rfl
  | some s =>
      obtain ⟨fit, front, back, rfl, unfit⟩ := firstFit_eq_some.mp found
      rw [kmalloc_some inv positive unfit fit]
      constructor
      · intro same
        have null := (Prod.mk.inj (Outcome.ok.inj same)).2
        omega
      · rintro ⟨_, none⟩
        rw [none s (by simp)] at fit
        cases fit

theorem heap_tiled {c : Client} (reach : Reachable c) : ∃ l, HeapTiled c l := by
  obtain ⟨l, inv⟩ := reach.inv
  have heap := inv.heap
  refine ⟨l, heap.blockList_eq, heap.start, heap.tiles, fun s member => next_eq heap.linked heap.tiles
    member, heap.legal, inv.nodup, ?_, ?_, ?_, fun size _ => kmalloc_returns heap size, ?_⟩
  · intro p first q second different
    obtain ⟨s, memberS, _, rfl⟩ := (inv.live p).mp first
    obtain ⟨t, memberT, _, rfl⟩ := (inv.live q).mp second
    rw [ksize_eq heap memberS, ksize_eq heap memberT]
    have boundsS := heap.bounds memberS
    have boundsT := heap.bounds memberT
    have := heap.tiles.disjoint memberS memberT (by omega)
    omega
  · intro p live
    obtain ⟨s, member, _, rfl⟩ := (inv.live p).mp live
    rw [ksize_eq heap member]
    have bounds := heap.bounds member
    exact ⟨dvd_add (heap.addr_dvd member) (by decide), by omega, by omega⟩
  · intro p live ops d run other
    obtain ⟨s, member, used, rfl⟩ := (inv.live p).mp live
    obtain ⟨l', inv', member'⟩ := run_keeps_block run inv member used other
    rw [ksize_eq heap member, ksize_eq inv'.heap member']
    have bounds := heap.bounds member
    refine ⟨(inv'.live _).mpr ⟨s, member', used, rfl⟩, rfl, l', inv'.heap.blockList_eq, ?_⟩
    obtain ⟨addr, size, free⟩ := s
    simp only at used bounds ⊢
    rw [Nat.add_sub_cancel, Nat.sub_add_cancel bounds.2.1, ← used]
    exact member'
  · rintro p (rfl | live)
    · exact ⟨c.heap, rfl⟩
    · obtain ⟨s, member, used, rfl⟩ := (inv.live p).mp live
      obtain ⟨m, freed, _⟩ := kfree_used heap member used
      exact ⟨_, freed⟩

/-- Three blocks are handed out, and the second one is given back. -/
def severalOps : List HeapOp := [.malloc 100, .malloc 200, .malloc 300, .free (heapStart + 132)]

/-- The heap after them, from zeroed memory. -/
def severalLive : Client :=
  (runAll HeapOp.exec (Client.init fun _ => 0) severalOps).getD (Client.init fun _ => 0)

/-- Its blocks: the free one between the two in use, and the rest of the heap. -/
def severalBlocks : List Segment :=
  [⟨heapStart, 116, false⟩, ⟨heapStart + 116, 216, true⟩, ⟨heapStart + 332, 316, false⟩,
    ⟨heapStart + 648, heapSize - 648, true⟩]

theorem severalLive_reachable : Reachable severalLive :=
  ⟨fun _ => 0, severalOps,
    (Run.of_runAll (Outcome.eq_ok_getD (by decide +kernel) _)).mono fun _ _ _ => HeapStep.of_exec⟩

theorem severalLive_blocks : blockList severalLive.heap = some severalBlocks := by decide +kernel

theorem heap_tiled_severalLive : severalLive.live = [heapStart + 348, heapStart + 16] ∧
    HeapTiled severalLive severalBlocks := by
  obtain ⟨l, tiled⟩ := heap_tiled severalLive_reachable
  obtain rfl := Option.some.inj (severalLive_blocks.symm.trans tiled.walked)
  exact ⟨by decide +kernel, tiled⟩

/-- **The heap is fully coalesced**, and what follows from it. -/
structure HeapCoalesced (c : Client) (l : List Segment) : Prop where
  walked : blockList c.heap = some l
  apart : NoFreePair l
  null : ∀ size, 0 < size → NoWrap size →
    ((∃ h, kmalloc c.heap size = .ok (h, 0)) ↔ ¬ FreeRun l (round4 size + blockHeaderSize))
  unchanged : ∀ size h, kmalloc c.heap size = .ok (h, 0) → blockList h = some l
  empty : c.live = [] → l = [⟨heapStart, heapSize, true⟩]

theorem heap_coalesced {c : Client} (reach : Reachable c) : ∃ l, HeapCoalesced c l := by
  obtain ⟨l, inv⟩ := reach.inv
  have heap := inv.heap
  refine ⟨l, heap.blockList_eq, heap.apart, fun size positive fits => ?_, fun size h null => ?_,
    fun none => ?_⟩
  · have total : totalSize size = round4 size + blockHeaderSize := by
      rw [totalSize_eq fits, round4_eq fits]
      rfl
    have some : 0 < round4 size + blockHeaderSize := Nat.add_pos_right _ (by decide)
    rw [freeRun_iff heap.tiles heap.apart some, ← total]
    simp only [kmalloc_null heap (Nat.pos_iff_ne_zero.mp positive), exists_eq_left, not_exists,
      not_and, Bool.not_eq_true]
  · by_cases zero : size = 0
    · subst zero
      rw [kmalloc_zero heap.ready] at null
      cases null
      exact heap.blockList_eq
    · rw [((kmalloc_null heap zero).mp null).1]
      exact heap.blockList_eq
  · rw [show heapSize = heapEnd - heapStart by decide]
    refine eq_single_of_all_free heap.tiles heap.apart (fun s member => ?_) (by decide)
    by_contra used
    have live := (inv.live (s.addr + 16)).mpr ⟨s, member, by simpa using used, rfl⟩
    rw [none] at live
    cases live

theorem heap_coalesced_severalLive : severalLive.live ≠ [] ∧ HeapCoalesced severalLive severalBlocks := by
  obtain ⟨l, coalesced⟩ := heap_coalesced severalLive_reachable
  obtain rfl := Option.some.inj (severalLive_blocks.symm.trans coalesced.walked)
  exact ⟨by decide +kernel, coalesced⟩

end Kfs.Heap
