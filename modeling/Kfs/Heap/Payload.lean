/-
**What the heap leaves alone.**

`kmalloc` writes inside the free block it takes, and `kfree` writes block headers. So the contents of blocks
in use survive both (`kmalloc_others`, `kfree_headers`), and a block that is freed keeps its contents until
it is handed out again (`kfree_payload`). `Client.take` and `Client.give` are the two functions with the
bookkeeping of live pointers: what is taken is new, and what is given back is live no longer.
-/

import Kfs.Heap.Runs

namespace Kfs.Heap

open Memory

/-- The addresses outside the sizes and the links of a block list. -/
def OutsideLinks (l : List Segment) : Set Nat :=
  {x | ∀ s ∈ l, ¬ (s.addr ≤ x ∧ x < s.addr + 4) ∧ ¬ (s.addr + 8 ≤ x ∧ x < s.addr + 12)}

/-- The addresses outside the headers of a block list. -/
def OutsideHeaders (l : List Segment) : Set Nat := {x | ∀ s ∈ l, ¬ (s.addr ≤ x ∧ x < s.addr + 16)}

section Payload

variable {h h' : HeapState} {l : List Segment} {s b : Segment} {size ptr : Nat}

theorem outsideHeaders_subset (l : List Segment) : OutsideHeaders l ⊆ OutsideLinks l := by
  intro x outside s member
  have apart := outside s member
  exact ⟨by omega, by omega⟩

/-- **The merging sweep** writes sizes and links only. -/
theorem mergeFreeBlocks_links {hi lo fuel p : Nat} {m m' : Memory} (low : hi < 2 ^ 31) (linked : Linked m p l)
    (tiles : Tiles lo hi l) (positive : 0 < lo) (big : ∀ s ∈ l, 16 ≤ s.size)
    (done : mergeFreeBlocks fuel m p = .ok m') : Set.EqOn m' m (OutsideLinks l) := by
  refine mergeFreeBlocks_rule low (fun l m m' => Set.EqOn m' m (OutsideLinks l)) (fun l m => Set.eqOn_refl m _) ?_ ?_
    linked tiles positive big done
  · intro s t rest m m' lo _ _ _ later
    have fewer : OutsideLinks (s :: t :: rest) ⊆
        OutsideLinks ({ s with size := s.size + t.size } :: rest) := by
      intro x outside u member
      rcases List.mem_cons.mp member with rfl | member
      · exact outside s List.mem_cons_self
      · exact outside u (by simp [member])
    refine (later.mono fewer).trans (((store32_eqOn _ _ _).mono fun x outside => ?_).trans
      ((store32_eqOn _ _ _).mono fun x outside => ?_))
    · have apart := (outside s List.mem_cons_self).2
      simp only [Set.mem_ofPred_eq]
      omega
    · have apart := (outside s List.mem_cons_self).1
      simp only [Set.mem_ofPred_eq]
      omega
  · intro s t rest m m' later
    exact later.mono fun x outside u member => outside u (List.mem_cons_of_mem _ member)

/-- **`kfree` of a block in use** writes its mark, sizes and links only. -/
theorem kfree_links (inv : HeapInv h l) (member : s ∈ l) (used : s.free = false)
    (done : kfree h (s.addr + 16) = .ok h') :
    Set.EqOn h'.mem (Header.setFree h.mem s.addr true) (OutsideLinks l) := by
  obtain ⟨size, isFree, magic⟩ := inv.linked.header member
  have inside := inv.bounds member
  have block := blockOf_payload inv member
  obtain ⟨linked, tiles, legal, -⟩ := inv.marked member
  rw [kfree_live (by omega) (by rw [block, magic]) (by rw [block, isFree, used]), block, inv.start] at done
  obtain ⟨m, swept, last⟩ := Outcome.bind_eq_ok.mp done
  cases last
  have places : OutsideLinks (markFree s.addr l) = OutsideLinks l := by
    unfold OutsideLinks markFree
    simp only [List.forall_mem_map]
    ext x
    refine forall₂_congr fun t _ => ?_
    split <;> rfl
  have frame := mergeFreeBlocks_links (by decide) linked tiles (by decide) (fun t member => (legal t member).2) swept
  rwa [places] at frame

/-- **`kfree` of a block in use** writes headers only. -/
theorem kfree_headers (inv : HeapInv h l) (member : s ∈ l) (used : s.free = false)
    (done : kfree h (s.addr + 16) = .ok h') : Set.EqOn h'.mem h.mem (OutsideHeaders l) := by
  refine ((kfree_links inv member used done).mono (outsideHeaders_subset l)).trans
    (Header.setFree_eqOn.mono fun x outside => ?_)
  have apart := outside s member
  simp only [Set.mem_ofPred_eq]
  omega

/-- A payload lies outside the headers. -/
theorem HeapInv.payload_outside (inv : HeapInv h l) (member : s ∈ l) :
    {x | s.addr + 16 ≤ x ∧ x < s.addr + s.size} ⊆ OutsideHeaders l := by
  intro x inside t member'
  simp only [Set.mem_ofPred_eq] at inside
  by_cases same : t.addr = s.addr
  · omega
  · have apart := inv.tiles.disjoint member' member same
    have big := (inv.legal t member').2
    simp only [blockHeaderSize] at big
    omega

/-- **A freed block keeps its contents** until something is written there again. -/
theorem kfree_payload (inv : HeapInv h l) (member : s ∈ l) (used : s.free = false)
    (done : kfree h (s.addr + 16) = .ok h') :
    Set.EqOn h'.mem h.mem {x | s.addr + 16 ≤ x ∧ x < s.addr + s.size} :=
  (kfree_headers inv member used done).mono (inv.payload_outside member)

/-- **What `kmalloc` leaves alone, and what it gives**: blocks in use stay where they are with their bytes,
and the new block is none of them. -/
theorem kmalloc_others (inv : HeapInv h l) (fits : NoWrap size) (taken : kmalloc h size = .ok (h', ptr))
    (given : ptr ≠ 0) :
    ∃ l' b, HeapInv h' l' ∧ b ∈ l' ∧ b.free = false ∧ ptr = b.addr + 16 ∧ ptr + size ≤ b.addr + b.size ∧
      ∀ t ∈ l, t.free = false →
        t ∈ l' ∧ t.addr ≠ b.addr ∧ Set.EqOn h'.mem h.mem {x | t.addr ≤ x ∧ x < t.addr + t.size} := by
  rcases kmalloc_cases inv fits taken with ⟨null, _⟩ | ⟨front, s, back, rfl, fit, _, rfl, rfl, after⟩
  · exact absurd null given
  · obtain ⟨free, room⟩ := fits_iff.mp fit
    obtain ⟨taken', least, most, carved⟩ := @carve_used _ splitSlack _ room
    rw [totalSize_eq fits] at least
    have inside : s ∈ front ++ s :: back := by simp
    refine ⟨_, ⟨s.addr, taken', false⟩, after, by simp [carved], rfl, rfl, by simp only; omega, ?_⟩
    intro t member used
    have other : t.addr ≠ s.addr := by
      intro same
      rw [inv.tiles.eq_of_addr member inside same, free] at used
      cases used
    refine ⟨(mem_carved_used free used).mpr (.inl member), other, ?_⟩
    have apart := inv.tiles.disjoint member inside other
    have beyond : {x | t.addr ≤ x ∧ x < t.addr + t.size} ⊆ {x | ¬ s.Covers x} := by
      intro x covered covers
      simp only [Set.mem_ofPred_eq, Segment.Covers] at covered covers
      omega
    exact (afterTake_eqOn inv inside (legal_totalSize fits) fit).mono beyond

end Payload

namespace Client

/-- `kmalloc`, keeping the books. -/
def take (c : Client) (size : Nat) : Outcome (Client × Nat) := do
  let (h, ptr) ← kmalloc c.heap size
  return (⟨h, if ptr = 0 then c.live else ptr :: c.live⟩, ptr)

/-- `kfree`, keeping the books. -/
def give (c : Client) (ptr : Nat) : Outcome Client := do
  let h ← kfree c.heap ptr
  return ⟨h, c.live.erase ptr⟩

section Books

variable {c d : Client} {size ptr : Nat}

theorem reachable_step {op : HeapOp} (reach : Reachable c) (step : HeapStep c op d) : Reachable d := by
  obtain ⟨m, ops, run⟩ := reach
  exact ⟨m, ops ++ [op], run.append (.cons step (.nil d))⟩

/-- **What `take` does.** A pointer it gives is not NULL, and is not one of those that are live. -/
theorem take_ok (reach : Reachable c) (fits : NoWrap size) (taken : c.take size = .ok (d, ptr)) :
    Reachable d ∧ (ptr = 0 ∧ d.live = c.live ∨ ptr ≠ 0 ∧ ptr ∉ c.live ∧ d.live = ptr :: c.live) := by
  obtain ⟨⟨h, p⟩, done, last⟩ := Outcome.bind_eq_ok.mp taken
  cases last
  have reach' := reachable_step reach (.malloc fits done)
  refine ⟨reach', ?_⟩
  by_cases null : ptr = 0
  · exact .inl ⟨null, if_pos null⟩
  · have live : (if ptr = 0 then c.live else ptr :: c.live) = ptr :: c.live := if_neg null
    obtain ⟨l, inv⟩ := reach'.inv
    have nodup : (if ptr = 0 then c.live else ptr :: c.live).Nodup := inv.nodup
    rw [live] at nodup
    exact .inr ⟨null, (List.nodup_cons.mp nodup).1, live⟩

/-- **What `give` does** with a live pointer. -/
theorem give_ok (reach : Reachable c) (live : ptr ∈ c.live) (given : c.give ptr = .ok d) :
    Reachable d ∧ d.live = c.live.erase ptr := by
  obtain ⟨h, done, last⟩ := Outcome.bind_eq_ok.mp given
  cases last
  exact ⟨reachable_step reach (.free live done), rfl⟩

theorem give_returns (reach : Reachable c) (live : ptr ∈ c.live) : ∃ d, c.give ptr = .ok d := by
  obtain ⟨l, tiled⟩ := heap_tiled reach
  obtain ⟨h, freed⟩ := tiled.freeReturns ptr (.inr live)
  exact ⟨_, by rw [give, freed]; rfl⟩

theorem live_nodup (reach : Reachable c) : c.live.Nodup := by
  obtain ⟨l, inv⟩ := reach.inv
  exact inv.nodup

/-- NULL is never live. -/
theorem live_ne_zero (reach : Reachable c) (live : ptr ∈ c.live) : ptr ≠ 0 := by
  obtain ⟨l, inv⟩ := reach.inv
  obtain ⟨s, -, -, rfl⟩ := (inv.live ptr).mp live
  omega

end Books

end Client

end Kfs.Heap
