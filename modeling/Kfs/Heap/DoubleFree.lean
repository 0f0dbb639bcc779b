/-
**Freeing a pointer again.**

`kfree` finds a double free by the header in front of the pointer, even when the block has been merged into
a neighbour and its header is no longer on the list. Those bytes stay as they are until the memory is handed
out again: the merging sweep writes sizes and links only, and only those of blocks on the list
(`kfree_links`). So the header stays marked as free inside a free block (`FreedAt`), and until the next
`kmalloc` every further `kfree` of the pointer leaves the heap alone: `double_free_harmless`.
-/

import Kfs.Heap.Payload

namespace Kfs.Heap

open Memory

/-- What is done after a block is freed: its pointer is freed again, or the heap is used. -/
inductive AfterOp where
  | again
  | other (op : HeapOp)
  deriving DecidableEq, Repr

/-- One step after `p` is freed, without a `kmalloc`. -/
inductive AfterStep (p : Nat) : Client → AfterOp → Client → Prop
  | again {c : Client} {h : HeapState} (done : kfree c.heap p = .ok h) : AfterStep p c .again ⟨h, c.live⟩
  | other {c d : Client} {op : HeapOp} (noMalloc : ∀ size, op ≠ .malloc size) (step : HeapStep c op d) :
      AfterStep p c (.other op) d

/-- The bytes of a header that say that its block is free: the mark and the magic number. -/
def markBytes (a : Nat) : Set Nat := {x | x = a + 4 ∨ (a + 12 ≤ x ∧ x < a + 16)}

/-- The header at `a` is marked as free, and lies in a free block of the list: it is the header of the
block, or inside its payload. -/
structure FreedAt (c : Client) (l : List Segment) (a : Nat) : Prop where
  inv : ClientInv c l
  magic : Header.magic c.heap.mem a = blockMagic
  free : Header.isFree c.heap.mem a = true
  inside : ∃ t ∈ l, t.free = true ∧ t.addr ≤ a ∧ a + 16 ≤ t.addr + t.size ∧ (t.addr = a ∨ t.addr + 16 ≤ a)

section Freed

variable {c d : Client} {h h' : HeapState} {l l' : List Segment} {s t : Segment} {a p : Nat} {m m' : Memory}

/-- What is marked stays marked while its bytes do. -/
theorem marks_congr (same : Set.EqOn m' m (markBytes a)) :
    Header.magic m' a = Header.magic m a ∧ Header.isFree m' a = Header.isFree m a := by
  constructor
  · refine load32_congr (same.mono fun x inside => ?_)
    obtain ⟨low, high⟩ := inside
    exact .inr ⟨low, by omega⟩
  · unfold Header.isFree
    rw [same (x := a + 4) (.inl rfl)]

/-- The mark and the magic number of a header in a free block are no sizes or links. -/
theorem HeapInv.marks_outside (inv : HeapInv h l) (member : t ∈ l) (low : t.addr ≤ a)
    (high : a + 16 ≤ t.addr + t.size) (place : t.addr = a ∨ t.addr + 16 ≤ a) :
    markBytes a ⊆ OutsideLinks l := by
  intro x inside u memberU
  have bounds := inv.bounds memberU
  have marks : x = a + 4 ∨ (a + 12 ≤ x ∧ x < a + 16) := inside
  by_cases same : u.addr = t.addr
  · omega
  · have apart := inv.tiles.disjoint memberU member same
    omega

/-- A header in a free block is in a free block after a release. -/
theorem HeapInv.release_within (inv : HeapInv h l) (member : s ∈ l) (here : t ∈ markFree s.addr l)
    (free : t.free = true) (low : t.addr ≤ a) (high : a + 16 ≤ t.addr + t.size)
    (place : t.addr = a ∨ t.addr + 16 ≤ a) :
    ∃ u ∈ release s.addr l, u.free = true ∧ u.addr ≤ a ∧ a + 16 ≤ u.addr + u.size ∧
      (u.addr = a ∨ u.addr + 16 ≤ a) := by
  obtain ⟨_, tiles, legal, _⟩ := inv.marked member
  obtain ⟨u, found, isFree, lowU, highU, placeU⟩ :=
    mem_coalesce_within tiles (fun v inside => (legal v inside).2) here free
  unfold blockHeaderSize at placeU
  exact ⟨u, found, isFree, by omega, by omega, by omega⟩

/-- A block that is freed: its header is marked, and lies in a free block. -/
theorem FreedAt.of_kfree (inv : ClientInv c l) (member : s ∈ l) (used : s.free = false)
    (freed : kfree c.heap (s.addr + 16) = .ok h) :
    ∃ l', FreedAt ⟨h, c.live.erase (s.addr + 16)⟩ l' s.addr := by
  have live : s.addr + 16 ∈ c.live := (inv.live _).mpr ⟨s, member, used, rfl⟩
  obtain ⟨l', inv'⟩ := (HeapStep.free live freed).keeps inv
  obtain ⟨_, done, heap, _⟩ := kfree_used inv.heap member used
  have bounds := inv.heap.bounds member
  have links := kfree_links inv.heap member used freed
  rw [freed] at done
  cases done
  have list : l' = release s.addr l := inv'.heap.unique heap
  have same := links.mono (inv.heap.marks_outside member le_rfl (by omega) (.inl rfl))
  obtain ⟨magic, isFree⟩ := marks_congr same
  have marked : s.freed ∈ markFree s.addr l := by
    obtain ⟨front, back, rfl⟩ := List.append_of_mem member
    rw [markFree_split inv.heap.tiles]
    simp
  have room : s.addr + 16 ≤ s.freed.addr + s.freed.size := by
    show s.addr + 16 ≤ s.addr + s.size
    omega
  refine ⟨l', inv', ?_, ?_, ?_⟩
  · rw [magic, ← (inv.heap.linked.header member).2.2]
    exact load32_congr fun x inside => store8_eqOn _ _ _ (by
      have low := inside.1
      simp only [Set.mem_ofPred_eq]
      omega)
  · rw [isFree]
    simp [Header.isFree, Header.setFree, Memory.store8]
  · rw [list]
    exact inv.heap.release_within member marked rfl le_rfl room (.inl rfl)

/-- `kfree` of another block leaves the header marked. -/
theorem FreedAt.other (freedAt : FreedAt c l a) (member : s ∈ l) (used : s.free = false)
    (freed : kfree c.heap (s.addr + 16) = .ok h) :
    ∃ l', FreedAt ⟨h, c.live.erase (s.addr + 16)⟩ l' a := by
  have inv := freedAt.inv
  obtain ⟨t, inList, free, low, high, place⟩ := freedAt.inside
  have live : s.addr + 16 ∈ c.live := (inv.live _).mpr ⟨s, member, used, rfl⟩
  obtain ⟨l', inv'⟩ := (HeapStep.free live freed).keeps inv
  obtain ⟨_, done, heap, _⟩ := kfree_used inv.heap member used
  have links := kfree_links inv.heap member used freed
  rw [freed] at done
  cases done
  have different : s.addr ≠ t.addr := fun same => by
    rw [inv.heap.tiles.eq_of_addr member inList same, free] at used
    cases used
  have apart := inv.heap.tiles.disjoint member inList different
  have bounds := inv.heap.bounds member
  have mark : Set.EqOn (Header.setFree c.heap.mem s.addr true) c.heap.mem (markBytes a) :=
    (store8_eqOn _ _ _).mono fun x inside => by
      have marks : x = a + 4 ∨ (a + 12 ≤ x ∧ x < a + 16) := inside
      simp only [Set.mem_ofPred_eq]
      omega
  have same := (links.mono (inv.heap.marks_outside inList low high place)).trans mark
  obtain ⟨magic, isFree⟩ := marks_congr same
  refine ⟨l', inv', magic.trans freedAt.magic, isFree.trans freedAt.free, ?_⟩
  rw [inv'.heap.unique heap]
  have kept : t ∈ markFree s.addr l :=
    List.mem_map.mpr ⟨t, inList, if_neg different.symm⟩
  exact inv.heap.release_within member kept free low high place

/-- What a client writes is in live payloads, and the header is not. -/
theorem FreedAt.write (freedAt : FreedAt c l a) (payload : Set.EqOn m c.heap.mem c.outside) :
    FreedAt ⟨{ c.heap with mem := m }, c.live⟩ l a := by
  have inv := freedAt.inv
  obtain ⟨t, inList, free, low, high, place⟩ := freedAt.inside
  have same : Set.EqOn m c.heap.mem (markBytes a) := payload.mono fun x inside => by
    intro p live within
    obtain ⟨u, memberU, used, rfl⟩ := (inv.live p).mp live
    rw [ksize_eq inv.heap memberU] at within
    have different : u.addr ≠ t.addr := fun same => by
      rw [inv.heap.tiles.eq_of_addr memberU inList same, free] at used
      cases used
    have apart := inv.heap.tiles.disjoint memberU inList different
    have bounds := inv.heap.bounds memberU
    have marks : x = a + 4 ∨ (a + 12 ≤ x ∧ x < a + 16) := inside
    omega
  obtain ⟨magic, isFree⟩ := marks_congr same
  exact ⟨⟨inv.written payload, inv.nodup, inv.live⟩, magic.trans freedAt.magic, isFree.trans freedAt.free,
    t, inList, free, low, high, place⟩

/-- **The double free is found**, and the heap is left alone. -/
theorem FreedAt.kfree_again (freedAt : FreedAt c l a) (nonzero : p ≠ 0) (header : blockOf p = a) :
    kfree c.heap p = .ok c.heap :=
  kfree_double nonzero (by rw [header, freedAt.magic]) (by rw [header, freedAt.free])

/-- **Nothing but `kmalloc` takes the mark away.** -/
theorem AfterStep.keeps {op : AfterOp} (step : AfterStep p c op d) (nonzero : p ≠ 0) (header : blockOf p = a)
    (freedAt : FreedAt c l a) : ∃ l', FreedAt d l' a := by
  cases step with
  | again done =>
      rw [freedAt.kfree_again nonzero header] at done
      cases done
      exact ⟨l, freedAt⟩
  | other noMalloc step =>
      cases step with
      | malloc fits done => exact absurd rfl (noMalloc _)
      | freeNull done =>
          cases done
          exact ⟨l, freedAt⟩
      | free live done =>
          obtain ⟨s, member, used, rfl⟩ := (freedAt.inv.live _).mp live
          exact freedAt.other member used done
      | write payload => exact ⟨l, freedAt.write payload⟩

end Freed

/-- **A double free is harmless until memory is handed out again**: after a live pointer is freed, through any
frees of live pointers and of the same pointer again, and client writes, a further `kfree` of it returns with
the heap as it is. -/
theorem double_free_harmless {c : Client} (reach : Reachable c) {p : Nat} (live : p ∈ c.live) :
    ∃ h, kfree c.heap p = .ok h ∧
      ∀ ops d, Run (AfterStep p) ⟨h, c.live.erase p⟩ ops d → kfree d.heap p = .ok d.heap := by
  obtain ⟨l, inv⟩ := reach.inv
  obtain ⟨s, member, used, rfl⟩ := (inv.live p).mp live
  obtain ⟨m, freed, _, _⟩ := kfree_used inv.heap member used
  have header := blockOf_payload inv.heap member
  refine ⟨_, freed, fun ops d run => ?_⟩
  have kept : ∀ x o y, (∃ l, FreedAt x l s.addr) → AfterStep (s.addr + blockHeaderSize) x o y →
      ∃ l, FreedAt y l s.addr := by
    rintro x o y ⟨l, here⟩ step
    exact step.keeps (Nat.succ_ne_zero _) header here
  obtain ⟨_, freedAt⟩ := run.invariant (fun x => ∃ l, FreedAt x l s.addr) kept
    (FreedAt.of_kfree inv member used freed)
  exact freedAt.kfree_again (Nat.succ_ne_zero _) header

/-- A new heap with a block of 24 bytes in use. -/
def oneBlock : Client := ⟨afterTake (Client.init fun _ => 0).heap 24 heapStart, [heapStart + 16]⟩

theorem oneBlock_reachable : Reachable oneBlock := by
  have inv := clientInv_init fun _ => 0
  have taken := @kmalloc_some _ [] [] _ 24 inv.heap (by decide) (by simp) (by decide)
  exact ⟨fun _ => 0, [.malloc 24], .cons (.malloc (by decide) taken) (.nil _)⟩

/-- The block is freed, and merged with the rest of the heap. -/
theorem double_free_merged : ∃ h, kfree oneBlock.heap (heapStart + 16) = .ok h ∧
    ∀ ops d, Run (AfterStep (heapStart + 16)) ⟨h, oneBlock.live.erase (heapStart + 16)⟩ ops d →
      kfree d.heap (heapStart + 16) = .ok d.heap :=
  double_free_harmless oneBlock_reachable List.mem_cons_self

end Kfs.Heap
