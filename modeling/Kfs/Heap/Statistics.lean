/-
**The statistics of the heap: `kmalloc_stats`.**

`kmalloc` counts the rounded request and `kfree` counts the block, so the reported use is the sum of the live
payloads only as long as no block is handed out with more in it than was asked for. A block is, when what
would be left of it is too small for a block of its own. The runs in which the statistics are exact after
every call are those in which `kmalloc` never finds such a block: `statistics_exact_iff`.
-/

import Kfs.Heap.InUse

namespace Kfs.Heap

open Memory

/-- What `kmalloc_stats` reports as currently used. -/
def HeapState.currentlyUsed (h : HeapState) : Nat := (h.totalAllocated + 2 ^ 32 - h.totalFreed) % 2 ^ 32

/-- The payload sizes of the live blocks. -/
def Client.payload (c : Client) : Nat := (c.live.map (ksize c.heap)).sum

/-- The statistics are exact. -/
def Client.Exact (c : Client) : Prop := c.heap.currentlyUsed = c.payload % 2 ^ 32

/-- `kmalloc` finds no block, a block of the right size, or one that it splits. -/
def HeapOp.Fitting (c : Client) : HeapOp → Prop
  | .malloc size => size ≠ 0 → ∀ l s, blockList c.heap = some l → firstFit (totalSize size) l = some s →
      s.size = totalSize size ∨ totalSize size + splitSlack ≤ s.size
  | _ => True

/-- The payload sizes of the blocks in use. -/
def usedBytes (l : List Segment) : Nat := (l.map fun s => if s.free then 0 else s.size - blockHeaderSize).sum

/-- The invariant of a run, with the counters in their range. -/
structure Counted (c : Client) (l : List Segment) : Prop where
  inv : ClientInv c l
  freed : c.heap.totalFreed < 2 ^ 32

section Bytes

variable {l l' front back : List Segment} {s : Segment} {lo hi n a : Nat}

theorem usedBytes_append : usedBytes (l ++ l') = usedBytes l + usedBytes l' := by
  simp [usedBytes]

theorem usedBytes_cons :
    usedBytes (s :: l) = (if s.free then 0 else s.size - blockHeaderSize) + usedBytes l := by
  simp [usedBytes]

/-- What a request takes: the bytes it is rounded to, or the whole block. -/
theorem usedBytes_carve (n : Nat) (s : Segment) : usedBytes (carve n splitSlack s) =
    (if n + splitSlack ≤ s.size then n else s.size) - blockHeaderSize := by
  unfold carve
  split
  · simp [usedBytes]
  · simp [usedBytes]

/-- A request adds what it takes. -/
theorem usedBytes_carved (free : s.free = true) (n : Nat) :
    usedBytes (front ++ carve n splitSlack s ++ back) =
      usedBytes (front ++ s :: back) + ((if n + splitSlack ≤ s.size then n else s.size) - blockHeaderSize) := by
  rw [usedBytes_append, usedBytes_append, usedBytes_append, usedBytes_cons, if_pos free, usedBytes_carve,
    Nat.zero_add, Nat.add_right_comm]

theorem usedBytes_filter (l : List Segment) :
    usedBytes l = ((l.filter fun s => !s.free).map fun s => s.size - blockHeaderSize).sum := by
  induction l with
  | nil => rfl
  | cons s rest ih =>
      rw [usedBytes_cons, ih]
      cases free : s.free with
      | true => simp [free]
      | false => simp [free]

theorem usedBytes_coalesce (l : List Segment) : usedBytes (coalesce l) = usedBytes l := by
  rw [usedBytes_filter, usedBytes_filter, filter_coalesce]

/-- A release takes the payload of its block away. -/
theorem usedBytes_release (tiles : Tiles lo hi l) (member : s ∈ l) (used : s.free = false) :
    usedBytes (release s.addr l) + (s.size - blockHeaderSize) = usedBytes l := by
  obtain ⟨front, back, rfl⟩ := List.append_of_mem member
  rw [release, usedBytes_coalesce, markFree_split tiles, usedBytes_append, usedBytes_append, usedBytes_cons,
    usedBytes_cons, used]
  have free : s.freed.free = true := rfl
  rw [if_pos free]
  simp
  omega

/-- The live pointers, in the order of the list. -/
theorem ClientInv.live_perm {c : Client} (inv : ClientInv c l) :
    c.live.Perm ((l.filter fun s => !s.free).map fun s => s.addr + blockHeaderSize) := by
  refine (List.perm_ext_iff_of_nodup inv.nodup (Multiset.coe_nodup.mp (inUse_nodup inv.heap.tiles))).mpr
    fun p => ?_
  rw [inv.live]
  constructor
  · rintro ⟨s, member, used, here⟩
    exact mem_inUse.mpr ⟨s, member, used, here.symm⟩
  · intro member
    obtain ⟨s, inside, used, here⟩ := mem_inUse.mp member
    exact ⟨s, inside, used, here.symm⟩

/-- **The live payloads are the bytes in use.** -/
theorem ClientInv.payload_eq {c : Client} (inv : ClientInv c l) : c.payload = usedBytes l := by
  have sizes : ∀ k : List Segment, (∀ s ∈ k, s ∈ l) →
      (((k.filter fun s => !s.free).map fun s => s.addr + blockHeaderSize).map (ksize c.heap)).sum =
        usedBytes k := by
    intro k
    induction k with
    | nil => exact fun _ => rfl
    | cons s k ih =>
        intro inside
        have rest := ih fun t member => inside t (List.mem_cons_of_mem _ member)
        have size : ksize c.heap (s.addr + blockHeaderSize) = s.size - blockHeaderSize :=
          ksize_eq inv.heap (inside s List.mem_cons_self)
        rw [usedBytes_cons]
        cases free : s.free with
        | true => simpa [free] using rest
        | false => simpa [free, size] using rest
  unfold Client.payload
  rw [(inv.live_perm.map _).sum_eq, sizes l fun _ member => member]

end Bytes

section Steps

variable {c d : Client} {l : List Segment} {op : HeapOp}

theorem Counted.start (m : Memory) : Counted (Client.init m) [⟨heapStart, heapSize, true⟩] :=
  ⟨clientInv_init m, show 0 < 2 ^ 32 by decide⟩

theorem exact_start (m : Memory) : (Client.init m).Exact := by
  unfold Client.Exact
  rw [(clientInv_init m).payload_eq]
  show (0 + 2 ^ 32 - 0) % 2 ^ 32 = _
  decide

theorem Counted.keeps (counted : Counted c l) (step : HeapStep c op d) : ∃ l', Counted d l' := by
  obtain ⟨l', inv⟩ := step.keeps counted.inv
  refine ⟨l', inv, ?_⟩
  cases step with
  | malloc fits done =>
      rcases kmalloc_cases counted.inv.heap fits done with ⟨_, rfl⟩ | ⟨_, _, _, _, _, _, _, rfl, _⟩
      · exact counted.freed
      · exact counted.freed
  | freeNull done =>
      cases done
      exact counted.freed
  | free live done =>
      obtain ⟨s, member, used, rfl⟩ := (counted.inv.live _).mp live
      obtain ⟨m, freed, _, _⟩ := kfree_used counted.inv.heap member used
      rw [freed] at done
      cases done
      exact Nat.mod_lt _ (by decide)
  | write payload => exact counted.freed

/-- The first block that fits says whether a request is fitting. -/
theorem fitting_iff {size : Nat} {s : Segment} (inv : HeapInv c.heap l) (zero : size ≠ 0)
    (found : firstFit (totalSize size) l = some s) :
    HeapOp.Fitting c (.malloc size) ↔ s.size = totalSize size ∨ totalSize size + splitSlack ≤ s.size := by
  refine ⟨fun fitting => fitting zero l s inv.blockList_eq found, fun either _ k t list first => ?_⟩
  cases inv.blockList_eq.symm.trans list
  cases found.symm.trans first
  exact either

theorem fitting_none {size : Nat} (inv : HeapInv c.heap l) (found : firstFit (totalSize size) l = none) :
    HeapOp.Fitting c (.malloc size) := by
  intro _ k s list first
  cases inv.blockList_eq.symm.trans list
  cases found.symm.trans first

/-- A request that is served: exact if and only if the block has what was asked for. -/
theorem taken_exact {allocated freed bytes asked given : Nat} (range : freed < 2 ^ 32)
    (exact : (allocated + 2 ^ 32 - freed) % 2 ^ 32 = bytes % 2 ^ 32) (small : asked < 2 ^ 32)
    (small' : given < 2 ^ 32) :
    ((allocated + asked) % 2 ^ 32 + 2 ^ 32 - freed) % 2 ^ 32 = (bytes + given) % 2 ^ 32 ↔ asked = given := by
  omega

/-- A block that is given back: its size without the header is counted as freed. -/
theorem given_exact {allocated freed bytes left size : Nat} (range : freed < 2 ^ 32)
    (exact : (allocated + 2 ^ 32 - freed) % 2 ^ 32 = bytes % 2 ^ 32) (header : blockHeaderSize ≤ size)
    (small : size < 2 ^ 32) (less : left + (size - blockHeaderSize) = bytes) :
    (allocated + 2 ^ 32 - (freed + (size + 2 ^ 32 - blockHeaderSize)) % 2 ^ 32) % 2 ^ 32 = left % 2 ^ 32 := by
  unfold blockHeaderSize at *
  omega

/-- **One call.** -/
theorem HeapStep.exact_iff (counted : Counted c l) (exact : c.Exact) (step : HeapStep c op d) :
    d.Exact ↔ op.Fitting c := by
  obtain ⟨l', inv'⟩ := step.keeps counted.inv
  have inv := counted.inv
  have freed := counted.freed
  unfold Client.Exact HeapState.currentlyUsed at *
  rw [inv.payload_eq] at exact
  rw [inv'.payload_eq]
  cases step with
  | @malloc size ptr h fits done =>
      by_cases zero : size = 0
      · rw [zero, kmalloc_zero inv.heap.ready] at done
        cases done
        rw [inv'.heap.unique inv.heap]
        exact iff_of_true exact fun asked => absurd zero asked
      cases found : firstFit (totalSize size) l with
      | none =>
          rw [kmalloc_none inv.heap (firstFit_eq_none.mp found)] at done
          cases done
          rw [inv'.heap.unique inv.heap]
          exact iff_of_true exact (fitting_none inv.heap found)
      | some s =>
          rw [fitting_iff inv.heap zero found]
          obtain ⟨fit, front, back, rfl, unfit⟩ := firstFit_eq_some.mp found
          rw [kmalloc_some inv.heap zero unfit fit] at done
          cases done
          have heap := afterTake_inv inv.heap (.inl (legal_totalSize fits)) fit
          obtain ⟨free, large⟩ := fits_iff.mp fit
          have bounds := inv.heap.bounds (s := s) (by simp)
          have total := totalSize_eq fits
          have rounded := round4_eq fits
          have asked : round4 size < 2 ^ 32 := Nat.lt_of_le_of_lt (by omega) fits
          have given : (if totalSize size + splitSlack ≤ s.size then totalSize size else s.size) -
              blockHeaderSize < 2 ^ 32 := by
            unfold heapEnd heapStart heapSize at bounds
            split <;> omega
          rw [inv'.heap.unique heap, usedBytes_carved free]
          refine (taken_exact freed exact asked given).trans ?_
          unfold blockHeaderSize
          split
          · omega
          · omega
  | freeNull done =>
      cases done
      rw [inv'.heap.unique inv.heap]
      exact iff_of_true exact trivial
  | free live done =>
      obtain ⟨s, member, used, rfl⟩ := (inv.live _).mp live
      obtain ⟨m, done', heap, _⟩ := kfree_used inv.heap member used
      rw [done'] at done
      cases done
      rw [inv'.heap.unique heap]
      have bounds := inv.heap.bounds member
      have header : blockHeaderSize ≤ s.size := by
        unfold blockHeaderSize
        omega
      have small : s.size < 2 ^ 32 := by
        unfold heapEnd heapStart heapSize at bounds
        omega
      refine iff_of_true ?_ trivial
      show (c.heap.totalAllocated + 2 ^ 32 -
        (c.heap.totalFreed + (Header.size c.heap.mem s.addr + 2 ^ 32 - blockHeaderSize)) % 2 ^ 32) % 2 ^ 32 = _
      rw [(inv.heap.linked.header member).1]
      exact given_exact freed exact header small (usedBytes_release inv.heap.tiles member used)
  | write payload =>
      rw [inv'.heap.unique (inv.written payload)]
      exact iff_of_true exact trivial

end Steps

/-- **Exactly when the statistics are exact**: the runs in which they are exact after every call are those in
which no block larger than the rounded request is handed out whole. -/
theorem statistics_exact_iff (m : Memory) (ops : List HeapOp) (d : Client) :
    Run (fun x op y => HeapStep x op y ∧ y.Exact) (Client.init m) ops d ↔
      Run (Guarded (fun x op => op.Fitting x) HeapStep) (Client.init m) ops d :=
  Run.good_iff (fun x => ∃ l, Counted x l) Client.Exact (fun _ _ _ ⟨_, here⟩ _ step => here.keeps step)
    (fun _ _ _ ⟨_, here⟩ exact step => step.exact_iff here exact) ⟨_, Counted.start m⟩ (exact_start m)

/-- A hole of 40 bytes, and a request of 16 bytes that gets all of it. -/
def unsplit : List HeapOp :=
  [.malloc 24, .malloc 4, .free (heapStart + 16), .malloc 16]

/-- The heap after it. -/
def drifted : Client := (runAll HeapOp.exec (Client.init fun _ => 0) unsplit).getD (Client.init fun _ => 0)

/-- **A block that is not split**: 24 and 4 bytes, the first freed, and 16 bytes in its place. 20 bytes are
reported, and the live payloads are 28 bytes. -/
theorem statistics_drift : Run HeapStep (Client.init fun _ => 0) unsplit drifted ∧
    drifted.heap.currentlyUsed = 20 ∧ drifted.payload = 28 ∧ ¬ drifted.Exact := by
  have done : runAll HeapOp.exec (Client.init fun _ => 0) unsplit = .ok drifted :=
    Outcome.eq_ok_getD (by decide +kernel) _
  have facts : drifted.heap.currentlyUsed = 20 ∧ drifted.payload = 28 := by decide +kernel
  refine ⟨(Run.of_runAll done).mono fun _ _ _ => HeapStep.of_exec, facts.1, facts.2, fun exact => ?_⟩
  unfold Client.Exact at exact
  rw [facts.1, facts.2] at exact
  exact absurd exact (by decide)

end Kfs.Heap
