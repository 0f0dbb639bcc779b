/-
**One heap for several clients.**

`HeapStep` keeps the books of one client. Clients that share the heap know their own pointers only: a step of one leaves
the blocks of the others where they are and with their bytes (`HeapStep.others`), and so does a run (`run_others`). So
each can go on as if the heap were its own. What they share is the room: `live_room`.
-/

import Kfs.Heap.Payload

namespace Kfs.Heap

/-- The bytes of a block behind its header. -/
def payload (s : Segment) : Set Nat := {x | s.addr + 16 ≤ x ∧ x < s.addr + s.size}

/-- The blocks in use of some pointers are kept, with their bytes. -/
def KeepsBlocks (ptrs : List Nat) (l l' : List Segment) (m m' : Memory) : Prop :=
  ∀ s ∈ l, s.free = false → s.addr + 16 ∈ ptrs → s ∈ l' ∧ Set.EqOn m' m (payload s)

/-- The block in use of a pointer has so many bytes. -/
def HasRoom (l : List Segment) (size ptr : Nat) : Prop :=
  ∃ s ∈ l, s.free = false ∧ ptr = s.addr + 16 ∧ size + 16 ≤ s.size

section Others

variable {c d : Client} {op : HeapOp} {ops : List HeapOp} {l l' l'' : List Segment} {m m' m'' : Memory}
  {ptrs rest : List Nat} {s t : Segment} {size ptr : Nat}

theorem KeepsBlocks.refl (ptrs : List Nat) (l : List Segment) (m : Memory) : KeepsBlocks ptrs l l m m :=
  fun _ member _ _ => ⟨member, Set.eqOn_refl _ _⟩

theorem KeepsBlocks.trans (first : KeepsBlocks ptrs l l' m m') (second : KeepsBlocks ptrs l' l'' m' m'') :
    KeepsBlocks ptrs l l'' m m'' := by
  intro s member used mine
  obtain ⟨there, same⟩ := first s member used mine
  obtain ⟨there', same'⟩ := second s there used mine
  exact ⟨there', same'.trans same⟩

theorem KeepsBlocks.mono {fewer : List Nat} (keeps : KeepsBlocks ptrs l l' m m') (subset : fewer ⊆ ptrs) :
    KeepsBlocks fewer l l' m m' :=
  fun s member used mine => keeps s member used (subset mine)

theorem HasRoom.keep (room : HasRoom l size ptr) (keeps : KeepsBlocks ptrs l l' m m') (member : ptr ∈ ptrs) :
    HasRoom l' size ptr := by
  obtain ⟨s, there, used, rfl, big⟩ := room
  exact ⟨s, (keeps s there used member).1, used, rfl, big⟩

/-- The books may be kept in any order. -/
theorem ClientInv.perm {h : HeapState} {live live' : List Nat} (inv : ClientInv ⟨h, live⟩ l)
    (same : live.Perm live') : ClientInv ⟨h, live'⟩ l :=
  ⟨inv.heap, same.nodup_iff.mp inv.nodup, fun p => same.mem_iff.symm.trans (inv.live p)⟩

/-- The block of a live pointer. -/
theorem ClientInv.block (inv : ClientInv c l) (live : ptr ∈ c.live) :
    ∃ s ∈ l, s.free = false ∧ ptr = s.addr + 16 := (inv.live ptr).mp live

/-- Payloads of different live pointers are apart. -/
theorem payload_apart {lo hi : Nat} (tiles : Tiles lo hi l) (first : s ∈ l) (second : t ∈ l)
    (other : s.addr ≠ t.addr) : ∀ x ∈ payload s, x ∉ payload t := by
  have apart := tiles.disjoint first second other
  intro x inside inside'
  simp only [payload, Set.mem_ofPred_eq] at inside inside'
  omega

/-- A client of a shared heap acts on it as a client of all of it. -/
theorem HeapStep.widen (step : HeapStep c op d) (rest : List Nat) :
    HeapStep ⟨c.heap, c.live ++ rest⟩ op ⟨d.heap, d.live ++ rest⟩ := by
  cases step with
  | @malloc size ptr h fits done =>
      have books : (if ptr = 0 then c.live ++ rest else ptr :: (c.live ++ rest)) =
          (if ptr = 0 then c.live else ptr :: c.live) ++ rest := by
        split <;> rfl
      rw [← books]
      exact .malloc fits done
  | freeNull done => exact .freeNull done
  | free live done =>
      have books := List.erase_append_left rest live
      rw [← books]
      exact .free (List.mem_append_left _ live) done
  | write payload =>
      refine .write (payload.mono ?_)
      intro x outside p member
      exact outside p (List.mem_append_left _ member)

/-- **A step of one client leaves the blocks of the others alone.** -/
theorem HeapStep.others (step : HeapStep c op d) (inv : ClientInv ⟨c.heap, c.live ++ rest⟩ l) :
    ∃ l', ClientInv ⟨d.heap, d.live ++ rest⟩ l' ∧ KeepsBlocks rest l l' c.heap.mem d.heap.mem := by
  obtain ⟨l', inv'⟩ := (step.widen rest).keeps inv
  refine ⟨l', inv', fun s member used mine => ?_⟩
  have foreign : ∀ p ∈ c.live, p ≠ s.addr + 16 := fun p own same =>
    (List.nodup_append.mp inv.nodup).2.2 p own _ mine same
  constructor
  · have other : op ≠ .free (s.addr + 16) := by
      rintro rfl
      cases step with
      | free live done => exact foreign _ live rfl
    obtain ⟨l'', inv'', there⟩ := (step.widen rest).keeps_block inv member used other
    rwa [inv'.heap.unique inv''.heap]
  · cases step with
    | @malloc size ptr h fits done =>
        by_cases null : ptr = 0
        · subst null
          rcases kmalloc_cases inv.heap fits done with ⟨-, rfl⟩ | ⟨_, b, _, -, -, -, given, -⟩
          · exact Set.eqOn_refl _ _
          · exact absurd given (by omega)
        · obtain ⟨l'', b, -, -, -, -, -, old⟩ := kmalloc_others inv.heap fits done null
          refine (old s member used).2.2.mono fun x inside => ?_
          simp only [payload, Set.mem_ofPred_eq] at inside ⊢
          omega
    | freeNull done =>
        cases done
        exact Set.eqOn_refl _ _
    | free live done =>
        obtain ⟨t, there, usedT, rfl⟩ := inv.block (List.mem_append_left rest live)
        exact (kfree_headers inv.heap there usedT done).mono (inv.heap.payload_outside member)
    | write written =>
        refine written.mono ?_
        intro x inside p own covered
        obtain ⟨t, there, usedT, rfl⟩ := inv.block (List.mem_append_left rest own)
        have size := ksize_eq inv.heap there
        dsimp only at size
        rw [size] at covered
        have differs : t.addr ≠ s.addr := fun same => foreign _ own (by rw [same])
        have apart := payload_apart inv.heap.tiles there member differs
        have bounds := inv.heap.bounds there
        have here : x ∈ payload t := by
          simp only [payload, Set.mem_ofPred_eq]
          omega
        exact apart x here inside

/-- **A run of one client leaves the blocks of the others alone.** -/
theorem run_others (run : Run HeapStep c ops d) (inv : ClientInv ⟨c.heap, c.live ++ rest⟩ l) :
    ∃ l', ClientInv ⟨d.heap, d.live ++ rest⟩ l' ∧ KeepsBlocks rest l l' c.heap.mem d.heap.mem := by
  refine run.invariant (fun x => ∃ l', ClientInv ⟨x.heap, x.live ++ rest⟩ l' ∧
    KeepsBlocks rest l l' c.heap.mem x.heap.mem) ?_ ⟨l, inv, .refl _ _ _⟩
  intro x op y between step
  obtain ⟨l', here, same⟩ := between
  obtain ⟨l'', there, same'⟩ := step.others here
  exact ⟨l'', there, same.trans same'⟩

/-! ### The operations, with the blocks of everybody else -/

section Operations

variable {h : HeapState} {live : List Nat} {b : Segment}

/-- **`kmalloc`** gives NULL and changes nothing, or a new block; all others are kept. -/
theorem ClientInv.take (inv : ClientInv ⟨h, live⟩ l) (fits : NoWrap size) :
    kmalloc h size = .ok (h, 0) ∨ ∃ h' b l', kmalloc h size = .ok (h', b.addr + 16) ∧ b ∈ l' ∧ b.free = false ∧
      size + 16 ≤ b.size ∧ ClientInv ⟨h', (b.addr + 16) :: live⟩ l' ∧ KeepsBlocks live l l' h.mem h'.mem := by
  obtain ⟨⟨h', ptr⟩, taken⟩ := kmalloc_returns inv.heap size
  by_cases null : ptr = 0
  · subst null
    rcases kmalloc_cases inv.heap fits taken with ⟨-, same⟩ | ⟨_, b, _, -, -, -, given, -⟩
    · rw [same] at taken
      exact .inl taken
    · exact absurd given (by omega)
  · obtain ⟨l', b, heap, member, used, rfl, room, -⟩ := kmalloc_others inv.heap fits taken null
    have step : HeapStep ⟨h, []⟩ (.malloc size) ⟨h', [b.addr + 16]⟩ := by
      have made : HeapStep ⟨h, []⟩ (.malloc size) ⟨h', if b.addr + 16 = 0 then [] else [b.addr + 16]⟩ :=
        .malloc fits taken
      rwa [if_neg null] at made
    obtain ⟨l'', inv', keeps⟩ := step.others inv
    obtain rfl := inv'.heap.unique heap
    exact .inr ⟨h', b, l'', taken, member, used, by omega, inv', keeps⟩

/-- **Bytes of a block** may be replaced; all others are kept. -/
theorem ClientInv.store (inv : ClientInv ⟨h, ptr :: live⟩ l) (member : b ∈ l) (place : ptr = b.addr + 16)
    (inside : Set.EqOn m h.mem {x | x ∉ payload b}) :
    ClientInv ⟨{ h with mem := m }, ptr :: live⟩ l ∧ KeepsBlocks live l l h.mem m := by
  have own : Set.EqOn m h.mem (Client.outside ⟨h, [ptr]⟩) := by
    refine inside.mono ?_
    intro x outside covered
    refine outside ptr List.mem_cons_self ?_
    rw [place, ksize_eq inv.heap member]
    have bounds := inv.heap.bounds member
    simp only [payload, Set.mem_ofPred_eq] at covered
    omega
  have all : HeapInv { h with mem := m } l := by
    refine inv.written (own.mono ?_)
    intro x outside p mine
    rw [List.mem_singleton] at mine
    exact outside p (mine ▸ List.mem_cons_self)
  have step : HeapStep ⟨h, [ptr]⟩ .write ⟨{ h with mem := m }, [ptr]⟩ := .write own
  obtain ⟨l', inv', keeps⟩ := step.others inv
  obtain rfl := inv'.heap.unique all
  exact ⟨inv', keeps⟩

/-- **`kfree`** of a live pointer returns; all others are kept. -/
theorem ClientInv.give (inv : ClientInv ⟨h, ptr :: live⟩ l) :
    ∃ h' l', kfree h ptr = .ok h' ∧ ClientInv ⟨h', live⟩ l' ∧ KeepsBlocks live l l' h.mem h'.mem := by
  obtain ⟨s, member, used, place⟩ := inv.block List.mem_cons_self
  obtain ⟨m', freed, -⟩ := kfree_used inv.heap member used
  rw [← place] at freed
  have step : HeapStep ⟨h, [ptr]⟩ (.free ptr) ⟨afterFree h s.addr m', [ptr].erase ptr⟩ :=
    .free List.mem_cons_self freed
  rw [List.erase_cons_head] at step
  obtain ⟨l', inv', keeps⟩ := step.others inv
  exact ⟨_, l', freed, inv', keeps⟩

theorem Client.take_null (taken : kmalloc c.heap size = .ok (c.heap, 0)) : c.take size = .ok (c, 0) := by
  rw [Client.take, taken]
  rfl

theorem Client.take_given {h' : HeapState} (taken : kmalloc c.heap size = .ok (h', ptr)) (given : ptr ≠ 0) :
    c.take size = .ok (⟨h', ptr :: c.live⟩, ptr) := by
  simp only [Client.take, taken, Outcome.ok_bind, if_neg given, Outcome.pure_eq]

theorem Client.give_first {h' : HeapState} (freed : kfree h ptr = .ok h') :
    Client.give ⟨h, ptr :: live⟩ ptr = .ok ⟨h', live⟩ := by
  rw [Client.give, freed, Outcome.ok_bind, List.erase_cons_head]
  rfl

end Operations

/-! ### Room -/

/-- **What is live has room**: blocks of at least `size` bytes are not more than fit the heap with their headers. -/
theorem live_room (inv : ClientInv c l) (distinct : ptrs.Nodup)
    (big : ∀ p ∈ ptrs, HasRoom l size p) :
    ptrs.length * (size + 16) ≤ heapSize := by
  have tiles := inv.heap.tiles
  have blocks : ptrs.length ≤ (l.filter fun s => decide (s.addr + 16 ∈ ptrs)).length := by
    rw [← List.length_map (fun s : Segment => s.addr + 16)]
    refine (List.subperm_of_subset distinct fun p member => ?_).length_le
    obtain ⟨s, there, -, rfl, -⟩ := big p member
    exact List.mem_map.mpr ⟨s, List.mem_filter.mpr ⟨there, decide_eq_true member⟩, rfl⟩
  have sizes : ∀ s ∈ l.filter (fun s => decide (s.addr + 16 ∈ ptrs)), size + 16 ≤ s.size := by
    intro s member
    obtain ⟨there, mine⟩ := List.mem_filter.mp member
    obtain ⟨t, there', -, same, room⟩ := big _ (of_decide_eq_true mine)
    have whole : t = s := tiles.eq_of_addr there' there (by omega)
    exact whole ▸ room
  have least : (l.filter fun s => decide (s.addr + 16 ∈ ptrs)).length * (size + 16) ≤
      ((l.filter fun s => decide (s.addr + 16 ∈ ptrs)).map Segment.size).sum := by
    have sum := List.card_nsmul_le_sum ((l.filter fun s => decide (s.addr + 16 ∈ ptrs)).map Segment.size) (size + 16)
      (List.forall_mem_map.mpr sizes)
    rwa [List.length_map, smul_eq_mul] at sum
  have part : ((l.filter fun s => decide (s.addr + 16 ∈ ptrs)).map Segment.size).sum ≤ (l.map Segment.size).sum :=
    (List.filter_sublist.map Segment.size).sum_le_sum (fun _ _ => Nat.zero_le _)
  have total := tiles.sum
  unfold heapEnd at total
  have product := Nat.mul_le_mul_right (size + 16) blocks
  omega

end Others

end Kfs.Heap
