/-
**Accounts of the heap: which block belongs to which process.**

The belongings of a process are its kernel stack and what its directory leads to. `Accounts` says that
the blocks in use are the belongings of the live processes, each once, and others that no process has;
that the directories of the processes lead to their blocks by the addresses of these; and that a ledger,
which notes for whom each block was taken, agrees.

Each of `process_create`, `process_fork`, `process_mmap`, `process_brk` and `process_signal_send` keeps
it, on every path on which it returns, under a condition on the state it is called in.
-/

import Kfs.Paging.Copied
import Kfs.Process.Regions
import Kfs.Process.Tree

namespace Kfs.Process

open Kfs.Heap Kfs.Paging Memory

/-! ### Pages of the kernel's own directory -/

section KernelDirectory

variable {image : KernelImage} {p : PagingState} {n virt w : Nat}

/-- The kernel's directory maps no page of the user's part. -/
theorem physicalAddress_user (kernel : KernelMapped image p.mem) (current : p.current = image.directory)
    (user : UserIndex w) : pagingGetPhysicalAddress p w = 0 := by
  unfold pagingGetPhysicalAddress
  rw [current, kernel.rest _ user.1 user.2]
  exact if_neg (by decide)

theorem unmapPage_user (kernel : KernelMapped image p.mem) (current : p.current = image.directory)
    (user : UserIndex w) : pagingUnmapPage p w = p := by
  unfold pagingUnmapPage
  rw [current, kernel.rest _ user.1 user.2]
  exact if_neg (by decide)

/-- The page at 0 is mapped to 0. -/
theorem physicalAddress_null (kernel : KernelMapped image p.mem) (current : p.current = image.directory) :
    pagingGetPhysicalAddress p 0 = 0 := by
  obtain ⟨here, same, _⟩ := kernelEntry image.aligned.2.1
  unfold pagingGetPhysicalAddress
  rw [current, show dirIndex 0 = 0 by decide, show tableIndex 0 = 0 by decide, kernel.first, here,
    if_pos rfl, same]
  simp only
  rw [kernel.table0 0 (by decide)]
  decide

/-- A loop whose rounds change nothing changes nothing. -/
theorem forLoop_idle {body : Nat → PagingState → Outcome (Round PagingState PagingState)}
    (idle : ∀ i < n, body i p = .ok (.next p)) : forLoop body 0 n p = .ok (.next p) := by
  obtain ⟨q, loop, rfl⟩ := @forLoop_next _ _ body (fun _ q => q = p) 0 n p rfl (by
    rintro i q - inside rfl
    exact ⟨q, idle i (by omega), rfl⟩)
  exact loop

/-- **The cleanup of `process_mmap`** looks the pages up in the kernel's directory, and finds none. -/
theorem mmapCleanup_idle (kernel : KernelMapped image p.mem) (current : p.current = image.directory)
    (above : AboveKernel virt n) : forLoop (mmapCleanup virt) 0 n p = .ok (.next p) := by
  refine forLoop_idle fun i inside => ?_
  have user := userIndex_of (above i inside) pageVirt_lt
  unfold mmapCleanup
  simp only [physicalAddress_user kernel current user, ne_eq, not_true, if_false, Outcome.ok_bind,
    Outcome.pure_eq]
  rw [show p.withHeap p.heap = p from rfl, unmapPage_user kernel current user]

/-- So does `process_munmap`. -/
theorem munmapPages_idle (kernel : KernelMapped image p.mem) (current : p.current = image.directory)
    (above : AboveOrNull virt n) : forLoop (munmapPage virt) 0 n p = .ok (.next p) := by
  refine forLoop_idle fun i inside => ?_
  have unmapped : pagingGetPhysicalAddress p (pageVirt virt i) = 0 := by
    rcases above i inside with user | null
    · exact physicalAddress_user kernel current (userIndex_of user pageVirt_lt)
    · rw [null]
      exact physicalAddress_null kernel current
  unfold munmapPage
  simp only [unmapped, ne_eq, not_true, if_false]

end KernelDirectory

/-! ### Mapping a range -/

section Range

variable {image : KernelImage} {rest : Multiset Nat} {l l' : List Segment} {p q : PagingState}
  {d flags i n pageFlags virt : Nat}

/-- What `process_mmap` asks for one page of a range. -/
def rangeRequest (m : Memory) (dir virt i : Nat) : List Request :=
  .page :: if present (entry m dir (dirIndex (pageVirt virt i))) ∨
      ∃ j < i, dirIndex (pageVirt virt j) = dirIndex (pageVirt virt i) then [] else [.entries]

/-- The pages of a range differ. -/
theorem pageVirt_page_inj {j : Nat} (first : i < 2 ^ 20) (second : j < 2 ^ 20)
    (same : pageVirt virt i / pageSize = pageVirt virt j / pageSize) : i = j := by
  simp only [pageVirt, pageSize] at same
  omega

theorem pagesNeeded_lt {length : Nat} : pagesNeeded length < 2 ^ 20 := by
  simp only [pagesNeeded, pageSize]
  omega

/-- `process_mmap` in progress, before page `i` of a range of `n`. -/
structure Ranging (rest : Multiset Nat) (d virt n : Nat) (l : List Segment) (p : PagingState) (i : Nat)
    (q : PagingState) (l' : List Segment) : Prop where
  spans : Spans d rest q l'
  untouched : Untouched rest l l' p.mem q.mem
  current : q.current = p.current
  linked : ∀ k < pageEntries, present (entry q.mem d k) = true ↔
    present (entry p.mem d k) = true ∨ ∃ j < i, dirIndex (pageVirt virt j) = k
  unmapped : ∀ k, i ≤ k → k < n → ¬ Maps q.mem d (pageVirt virt k)
  bound : AtBoundaries l' ((List.range' i (n - i)).flatMap (rangeRequest p.mem d virt))

theorem Ranging.start (spans : Spans d rest p l) (new : ∀ k < n, ¬ Maps p.mem d (pageVirt virt k))
    (bound : AtBoundaries l (mapRequests p.mem d virt n)) : Ranging rest d virt n l p 0 p l := by
  refine ⟨spans, .refl _ _ _, rfl, fun k _ => by simp, fun k _ => new k, ?_⟩
  rw [Nat.sub_zero, ← List.range_eq_range']
  exact bound

/-- A page just taken, zeroed when the flags say so. -/
theorem takePage_exact {h : HeapState} {z : Nat} (flags : Nat) (spans : Spans d rest p l)
    (heap : HeapInv h l') (taken : inUse l' = z ::ₘ inUse l) (holds : Holds l' z pageSize)
    (same : Untouched (inUse l) l l' p.mem h.mem) :
    let q := if flags &&& mapAnonymous ≠ 0 then (p.withHeap h).write ((p.withHeap h).mem.fill z 0 pageSize)
      else p.withHeap h
    Spans d (z ::ₘ rest) q l' ∧ Untouched (rest + frees p.mem d) l l' p.mem q.mem ∧
      q.current = p.current := by
  have spans₁ : Spans d (z ::ₘ rest) (p.withHeap h) l' := spans.take heap taken same
  rw [spans.balance] at same
  by_cases anonymous : flags &&& mapAnonymous ≠ 0
  · simp only [if_pos anonymous]
    obtain ⟨filled, untouched⟩ := spans₁.scribble holds (fill_eqOn (p.withHeap h).mem z 0 pageSize)
    have kept : frees (p.withHeap h).mem d = frees p.mem d :=
      same.frees (Multiset.le_add_left _ _) spans.room
    rw [kept] at untouched
    exact ⟨filled, same.trans untouched, rfl⟩
  · simp only [if_neg anonymous]
    exact ⟨spans₁, same, rfl⟩

/-- **One round of the loop**: one more page mapped, or nothing changed. -/
theorem Ranging.step (ranging : Ranging rest d virt n l p i q l') (kernel : KernelMapped image p.mem)
    (current : p.current = image.directory) (above : AboveKernel virt n) (many : n ≤ 2 ^ 20)
    (small : pageFlags < pageSize) (inside : i < n) {round : Round PagingState PagingState}
    (done : mmapPage d virt pageFlags flags i q = .ok round) :
    round.Ends (fun q' => ∃ l'', Ranging rest d virt n l p (i + 1) q' l'') (fun q' => q' = q) := by
  have user := userIndex_of (above i inside) pageVirt_lt
  have bound := ranging.bound
  have asked : rangeRequest p.mem d virt i = .page :: linkRequests q.mem d (pageVirt virt i) := by
    rw [rangeRequest, linkRequests, if_congr (ranging.linked _ user.2).symm rfl rfl]
  rw [remaining_succ inside, asked, List.cons_append] at bound
  obtain ⟨⟨h, ptr⟩, taken, last⟩ := Outcome.bind_eq_ok.mp done
  simp only at last
  rcases kmalloc_exact ranging.spans.heap (by decide) taken with
    ⟨rfl, rfl⟩ | ⟨l₁, placed, heap, more, holds, same⟩
  · rw [if_pos rfl, show q.withHeap q.heap = q from rfl, mmapCleanup_idle (kernel.below ranging.untouched.below)
      (ranging.current.trans current) fun k less => above k (by omega)] at last
    cases last
    exact rfl
  · rw [if_neg (place_ne_null placed)] at last
    obtain ⟨q₂, mapped, final⟩ := Outcome.bind_eq_ok.mp last
    cases final
    obtain ⟨which, later⟩ := bound.first placed
    have aligned : pageSize ∣ ptr := which.resolve_left (by decide)
    obtain ⟨spans₁, untouched₁, current₁⟩ := takePage_exact flags ranging.spans heap more holds same
    generalize (if flags &&& mapAnonymous ≠ 0 then (q.withHeap h).write
      ((q.withHeap h).mem.fill ptr 0 pageSize) else q.withHeap h) = q₁ at mapped spans₁ untouched₁ current₁
    have mine := untouched₁.mono (Multiset.le_add_left (frees q.mem d) rest)
    have row : ∀ k < pageEntries, entry q₁.mem d k = entry q.mem d k := fun k index =>
      mine.entry self_mem_frees (ranging.spans.room d self_mem_frees) index
    have pages : ∀ k, k < n → (Maps q₁.mem d (pageVirt virt k) ↔ Maps q.mem d (pageVirt virt k)) :=
      fun k less => ranging.spans.maps_congr mine (userIndex_of (above k less) pageVirt_lt)
    rw [show linkRequests q.mem d (pageVirt virt i) = linkRequests q₁.mem d (pageVirt virt i) by
      rw [linkRequests, linkRequests, row _ user.2]] at later
    obtain ⟨l₂, spans₂, untouched₂, current₂, bound₂, linked, maps⟩ := spans₁.mapPageInDirectory holds
      aligned user small (fun mapped => ranging.unmapped i le_rfl inside ((pages i inside).mp mapped))
      later mapped
    refine ⟨l₂, spans₂, ?_, ?_, fun k index => ?_, fun k low high mapped => ?_, bound₂⟩
    · exact (ranging.untouched.trans (untouched₁.mono (Multiset.le_add_right _ _))).trans untouched₂
    · exact current₂.trans (current₁.trans ranging.current)
    · rw [linked k index, row k index, ranging.linked k index, or_assoc]
      refine or_congr_right ⟨?_, ?_⟩
      · rintro (⟨j, less, here⟩ | rfl)
        · exact ⟨j, by omega, here⟩
        · exact ⟨i, by omega, rfl⟩
      · rintro ⟨j, less, rfl⟩
        rcases Nat.lt_succ_iff_lt_or_eq.mp less with earlier | rfl
        · exact .inl ⟨j, earlier, rfl⟩
        · exact .inr rfl
    · rcases maps _ (userIndex_of (above k high) pageVirt_lt) mapped with old | page
      · exact ranging.unmapped k (by omega) high ((pages k high).mp old)
      · have := pageVirt_page_inj (by omega) (by omega) page
        omega

/-- **The loop of `process_mmap`**, for pages that are not mapped: whatever happens, the directory leads to
its blocks. -/
theorem mmapPages_exact (spans : Spans d rest p l) (kernel : KernelMapped image p.mem)
    (current : p.current = image.directory) (above : AboveKernel virt n) (many : n ≤ 2 ^ 20)
    (small : pageFlags < pageSize) (new : ∀ k < n, ¬ Maps p.mem d (pageVirt virt k))
    (bound : AtBoundaries l (mapRequests p.mem d virt n)) {round : Round PagingState PagingState}
    (done : forLoop (mmapPage d virt pageFlags flags) 0 n p = .ok round) :
    ∃ q l', (round = .next q ∨ round = .exit q) ∧ Spans d rest q l' ∧ Untouched rest l l' p.mem q.mem ∧
      q.current = p.current := by
  have ends := @forLoop_inv _ _ (mmapPage d virt pageFlags flags)
    (fun i q => ∃ l', Ranging rest d virt n l p i q l') (fun q => ∃ i l', Ranging rest d virt n l p i q l')
    0 n p ⟨l, .start spans new bound⟩ (by
      rintro i q round - inside ⟨l', ranging⟩ body
      have step := ranging.step kernel current above many small (by omega) body
      cases round with
      | next q' => exact step
      | exit q' =>
          cases step
          exact ⟨i, l', ranging⟩) _ done
  cases round with
  | next q =>
      obtain ⟨l', ranging⟩ := ends
      exact ⟨q, l', .inl rfl, ranging.spans, ranging.untouched, ranging.current⟩
  | exit q =>
      obtain ⟨i, l', ranging⟩ := ends
      exact ⟨q, l', .inr rfl, ranging.spans, ranging.untouched, ranging.current⟩

end Range

/-! ### The ledger -/

/-- The heap as a list of blocks. -/
def blocks (s : Kernel) : List Segment := (blockList s.paging.heap).getD []

/-- An address that the heap gave out and did not get back. -/
def Allocated (s : Kernel) (a : Nat) : Prop := a ∈ inUse (blocks s)

instance {s : Kernel} {a : Nat} : Decidable (Allocated s a) := inferInstanceAs (Decidable (_ ∈ _))

/-- The kernel, and for which process each block in use was taken; `none` for the rest of the kernel. -/
structure Books where
  kernel : Kernel
  holder : Nat → Option Slot

/-- The books after a call: what is new was taken for `who`. -/
def Books.post (b : Books) (s : Kernel) (who : Option Slot) : Books where
  kernel := s
  holder a := if Allocated s a then if Allocated b.kernel a then b.holder a else who else none

/-- The kernel stack of a process and what its directory leads to. -/
def belongings (s : Kernel) (i : Slot) : Multiset Nat :=
  (s.table i).kernelStack ::ₘ frees s.paging.mem (s.table i).pageDirectory

/-- The processes that exist and have not exited. -/
def liveSlots (s : Kernel) : Finset Slot := Finset.univ.filter fun i => (s.table i).live

/-- **The accounts**: the blocks in use are the belongings of the live processes and others. -/
structure Accounts (image : KernelImage) (b : Books) (l : List Segment) (other : Multiset Nat) : Prop where
  heap : HeapInv b.kernel.paging.heap l
  balance : inUse l = other + ∑ i ∈ liveSlots b.kernel, belongings b.kernel i
  room : ∀ i, (b.kernel.table i).live →
    ∀ a ∈ frees b.kernel.paging.mem (b.kernel.table i).pageDirectory, Holds l a pageSize
  aligned : ∀ i, (b.kernel.table i).live → pageSize ∣ (b.kernel.table i).pageDirectory
  kernel : KernelMapped image b.kernel.paging.mem
  current : b.kernel.paging.current = image.directory
  held : ∀ a i, b.holder a = some i → (b.kernel.table i).live ∧ a ∈ belongings b.kernel i
  ends : ∀ head, ∃ c, Threads (Table.next b.kernel.table) head c

/-- What the accounts read of a control block. -/
structure SameRoots (proc' proc : Pcb) : Prop where
  state : proc'.state = proc.state
  directory : proc'.pageDirectory = proc.pageDirectory
  stack : proc'.kernelStack = proc.kernelStack
  sibling : proc'.nextSibling = proc.nextSibling

/-- **What a call does for one process**: the blocks of all others are left alone, and what is in use
besides them are the belongings of this one, or lost if it does not come to be. -/
structure Turn (s s' : Kernel) (i : Slot) (who : Option Slot) (rest lost : Multiset Nat)
    (l l' : List Segment) : Prop where
  heap : HeapInv s'.paging.heap l'
  untouched : Untouched rest l l' s.paging.mem s'.paging.mem
  outcome : (who = some i ∧ (s'.table i).live ∧ lost = 0 ∧ inUse l' = rest + belongings s' i) ∨
    (who = none ∧ ¬ (s.table i).live ∧ ¬ (s'.table i).live ∧ inUse l' = lost + rest)
  room : (s'.table i).live → ∀ a ∈ frees s'.paging.mem (s'.table i).pageDirectory, Holds l' a pageSize
  aligned : (s'.table i).live → pageSize ∣ (s'.table i).pageDirectory
  current : s'.paging.current = s.paging.current
  others : ∀ j, j ≠ i → SameRoots (s'.table j) (s.table j)
  sibling : ∃ c, Threads (Table.next s.table) (s'.table i).nextSibling c ∧ i ∉ c

/-! ### Conditions on calls -/

/-- A range of pages that `process_mmap` may map: above the kernel's part, none of them mapped, and all
that is asked for placed at page boundaries. -/
def Mappable (s : Kernel) (i : Slot) (virt n : Nat) : Prop :=
  AboveKernel virt n ∧ (∀ k < n, ¬ Maps s.paging.mem (s.table i).pageDirectory (pageVirt virt k)) ∧
    AtBoundaries (blocks s) (mapRequests s.paging.mem (s.table i).pageDirectory virt n)

/-- The slot that `process_fork` takes is not on the parent's list of children. -/
def NewSibling (s : Kernel) (parent : Slot) : Prop :=
  ∀ c, processAllocSlot s = some c →
    ∀ l, Threads (Table.next s.table) (s.table parent).children l → c ∉ l

/-- A signal that is refused: out of range, or no room for its entry. -/
def Refused (s : Kernel) (signal : Int) : Prop :=
  signal < 0 ∨ 32 ≤ signal ∨ place entrySize (blocks s) = none

/-! ### One process at a time -/

section Accounts

variable {image : KernelImage} {b : Books} {s s' : Kernel} {l l' : List Segment}
  {lost other rest : Multiset Nat} {who : Option Slot} {i j : Slot} {a : Nat}

namespace SameRoots

variable {proc proc' : Pcb}

theorem refl (proc : Pcb) : SameRoots proc proc := ⟨rfl, rfl, rfl, rfl⟩

theorem live (same : SameRoots proc' proc) : proc'.live ↔ proc.live := by
  rw [Pcb.live, Pcb.live, same.state]

theorem modify {f : Pcb → Pcb} (s : Kernel) (same : SameRoots (f (s.table i)) (s.table i)) (j : Slot) :
    SameRoots ((s.modify i f).table j) (s.table j) := by
  rw [Kernel.modify_table]
  split
  · next mine =>
      rw [mine]
      exact same
  · exact .refl _

end SameRoots

theorem blocks_eq (heap : HeapInv s.paging.heap l) : blocks s = l := by
  rw [blocks, heap.blockList_eq, Option.getD_some]

theorem allocated_iff (heap : HeapInv s.paging.heap l) : Allocated s a ↔ a ∈ inUse l := by
  rw [Allocated, blocks_eq heap]

theorem mem_liveSlots : i ∈ liveSlots s ↔ (s.table i).live := by
  simp [liveSlots]

/-- The belongings of all live processes but one, and what no process has. -/
def besides (s : Kernel) (other : Multiset Nat) (i : Slot) : Multiset Nat :=
  other + ∑ j ∈ (liveSlots s).erase i, belongings s j

theorem belongings_le_besides (live : (s.table j).live) (apart : j ≠ i) :
    belongings s j ≤ besides s other i := by
  refine (Finset.single_le_sum (fun _ _ => Multiset.zero_le _) ?_).trans (Multiset.le_add_left _ other)
  exact Finset.mem_erase.mpr ⟨apart, mem_liveSlots.mpr live⟩

namespace Accounts

theorem balance_live (accounts : Accounts image b l other) (live : (b.kernel.table i).live) :
    inUse l = besides b.kernel other i + belongings b.kernel i := by
  rw [accounts.balance, besides, add_assoc, Finset.sum_erase_add _ _ (mem_liveSlots.mpr live)]

theorem balance_dead (accounts : Accounts image b l other) (dead : ¬ (b.kernel.table i).live) :
    inUse l = besides b.kernel other i := by
  rw [accounts.balance, besides, Finset.erase_eq_of_notMem fun member => dead (mem_liveSlots.mp member)]

theorem besides_le (accounts : Accounts image b l other) : besides b.kernel other i ≤ inUse l := by
  by_cases live : (b.kernel.table i).live
  · rw [accounts.balance_live live]
    exact Multiset.le_add_right _ _
  · rw [accounts.balance_dead live]

/-- A live process and the rest. -/
theorem spans (accounts : Accounts image b l other) (live : (b.kernel.table i).live) :
    Spans (b.kernel.table i).pageDirectory
      ((b.kernel.table i).kernelStack ::ₘ besides b.kernel other i) b.kernel.paging l := by
  refine ⟨accounts.heap, ?_, accounts.room i live, accounts.aligned i live⟩
  rw [accounts.balance_live live, belongings, Multiset.add_cons, Multiset.cons_add]

/-- The siblings after an element of a list. -/
theorem siblings (accounts : Accounts image b l other) (i : Slot) :
    ∃ c, Threads (Table.next b.kernel.table) (b.kernel.table i).nextSibling c ∧ i ∉ c := by
  obtain ⟨_, here⟩ := accounts.ends (some i)
  obtain ⟨c, rfl, rest⟩ := Threads.some_iff.mp here
  exact ⟨c, rest, (List.nodup_cons.mp here.nodup).1⟩

/-- The belongings of the other processes stay. -/
theorem others_keep (accounts : Accounts image b l other)
    (turn : Turn b.kernel s' i who (besides b.kernel other i) lost l l')
    (live : (b.kernel.table j).live) (apart : j ≠ i) :
    frees s'.paging.mem (s'.table j).pageDirectory =
        frees b.kernel.paging.mem (b.kernel.table j).pageDirectory ∧
      belongings s' j = belongings b.kernel j := by
  obtain ⟨_, directory, stack, _⟩ := turn.others j apart
  have part : frees b.kernel.paging.mem (b.kernel.table j).pageDirectory ≤ besides b.kernel other i :=
    (Multiset.le_cons_self _ _).trans (belongings_le_besides live apart)
  have same := turn.untouched.frees part (accounts.room j live)
  rw [belongings, belongings, directory, stack, same]
  exact ⟨rfl, rfl⟩

/-- The ledger after a call. -/
theorem held_next (accounts : Accounts image b l other)
    (turn : Turn b.kernel s' i who (besides b.kernel other i) lost l l')
    (found : (b.post s' who).holder a = some j) : (s'.table j).live ∧ a ∈ belongings s' j := by
  simp only [Books.post] at found
  split at found
  · rename_i after
    rw [allocated_iff turn.heap] at after
    split at found
    · obtain ⟨live, member⟩ := accounts.held a j found
      by_cases mine : j = i
      · subst mine
        have nodup := inUse_nodup accounts.heap.tiles
        rw [accounts.balance_live live] at nodup
        have apart := Multiset.disjoint_right.mp (Multiset.nodup_add.mp nodup).2.2 member
        rcases turn.outcome with ⟨_, live', _, balance⟩ | ⟨_, dead, _⟩
        · rw [balance, Multiset.mem_add] at after
          exact ⟨live', after.resolve_left apart⟩
        · exact absurd live dead
      · rw [(turn.others j mine).live, (accounts.others_keep turn live mine).2]
        exact ⟨live, member⟩
    · rename_i before
      rw [allocated_iff accounts.heap] at before
      rcases turn.outcome with ⟨mine, live, _, balance⟩ | ⟨nobody, _⟩
      · cases mine.symm.trans found
        rw [balance, Multiset.mem_add] at after
        exact ⟨live, after.resolve_left fun inside => before (Multiset.mem_of_le accounts.besides_le inside)⟩
      · cases nobody.symm.trans found
  · cases found

/-- **A call for one process keeps the accounts.** -/
theorem next (accounts : Accounts image b l other)
    (turn : Turn b.kernel s' i who (besides b.kernel other i) lost l l') :
    Accounts image (b.post s' who) l' (lost + other) := by
  have live_iff : ∀ j, j ≠ i → ((s'.table j).live ↔ (b.kernel.table j).live) :=
    fun j apart => (turn.others j apart).live
  have erased : (liveSlots s').erase i = (liveSlots b.kernel).erase i := by
    ext j
    rw [Finset.mem_erase, Finset.mem_erase, mem_liveSlots, mem_liveSlots]
    exact and_congr_right (live_iff j)
  have same : besides s' other i = besides b.kernel other i := by
    rw [besides, besides, erased]
    refine congrArg _ (Finset.sum_congr rfl fun j member => ?_)
    rw [Finset.mem_erase, mem_liveSlots] at member
    exact (accounts.others_keep turn member.2 member.1).2
  refine ⟨turn.heap, ?_, fun j live a member => ?_, fun j live => ?_,
    accounts.kernel.below turn.untouched.below, turn.current.trans accounts.current,
    fun a j found => ?_, fun head => ?_⟩
  · rcases turn.outcome with ⟨_, live, rfl, balance⟩ | ⟨_, _, dead, balance⟩
    · rw [balance, zero_add, ← same, besides, add_assoc, Finset.sum_erase_add _ _ (mem_liveSlots.mpr live)]
      rfl
    · rw [balance, ← same, besides,
        Finset.erase_eq_of_notMem fun member => dead (mem_liveSlots.mp member), add_assoc]
      rfl
  · change (s'.table j).live at live
    change a ∈ frees s'.paging.mem (s'.table j).pageDirectory at member
    by_cases mine : j = i
    · subst mine
      exact turn.room live a member
    · have before := (live_iff j mine).mp live
      rw [(accounts.others_keep turn before mine).1] at member
      exact turn.untouched.holds a (Multiset.mem_of_le (belongings_le_besides before mine)
        (Multiset.mem_cons_of_mem member)) _ (accounts.room j before a member)
  · change (s'.table j).live at live
    change pageSize ∣ (s'.table j).pageDirectory
    by_cases mine : j = i
    · subst mine
      exact turn.aligned live
    · rw [(turn.others j mine).directory]
      exact accounts.aligned j ((live_iff j mine).mp live)
  · exact accounts.held_next turn found
  · have next : Table.next s'.table =
        Function.update (Table.next b.kernel.table) i (s'.table i).nextSibling := by
      funext j
      by_cases mine : j = i
      · rw [mine, Function.update_self, Table.next]
      · rw [Function.update_of_ne mine, Table.next, Table.next, (turn.others j mine).sibling]
    obtain ⟨c, threads, outside⟩ := turn.sibling
    change ∃ c, Threads (Table.next s'.table) head c
    rw [next]
    exact Threads.redirect accounts.ends threads outside head

/-- **A call that takes and frees nothing** keeps them. -/
theorem idle (accounts : Accounts image b l other) (paging : s'.paging = b.kernel.paging)
    (same : ∀ j, SameRoots (s'.table j) (b.kernel.table j)) (who : Option Slot) :
    Accounts image (b.post s' who) l other := by
  have live : ∀ j, (s'.table j).live ↔ (b.kernel.table j).live := fun j => (same j).live
  have slots : liveSlots s' = liveSlots b.kernel := by
    ext j
    rw [mem_liveSlots, mem_liveSlots, live]
  have mine : ∀ j, belongings s' j = belongings b.kernel j := fun j => by
    rw [belongings, belongings, paging, (same j).directory, (same j).stack]
  refine ⟨?_, ?_, fun j alive a member => ?_, fun j alive => ?_, ?_, ?_, fun a j found => ?_, fun head => ?_⟩
  · change HeapInv s'.paging.heap l
    rw [paging]
    exact accounts.heap
  · change inUse l = other + ∑ j ∈ liveSlots s', belongings s' j
    rw [slots, Finset.sum_congr rfl fun j _ => mine j]
    exact accounts.balance
  · change a ∈ frees s'.paging.mem (s'.table j).pageDirectory at member
    rw [paging, (same j).directory] at member
    exact accounts.room j ((live j).mp alive) a member
  · change pageSize ∣ (s'.table j).pageDirectory
    rw [(same j).directory]
    exact accounts.aligned j ((live j).mp alive)
  · change KernelMapped image s'.paging.mem
    rw [paging]
    exact accounts.kernel
  · change s'.paging.current = image.directory
    rw [paging]
    exact accounts.current
  · change (s'.table j).live ∧ a ∈ belongings s' j
    have here : Allocated s' a ↔ Allocated b.kernel a := by
      rw [Allocated, Allocated, blocks, blocks, paging]
    rw [live, mine]
    simp only [Books.post] at found
    split at found
    · rename_i after
      rw [if_pos (here.mp after)] at found
      exact accounts.held a j found
    · cases found
  · obtain ⟨c, threads⟩ := accounts.ends head
    exact ⟨c, threads.congr fun j _ => (same j).sibling⟩

/-! ### `process_mmap` and `process_brk` -/

/-- **Pages for a process**: its directory has more blocks, and everything else what it had. -/
theorem remapped (accounts : Accounts image b l other) (live : (b.kernel.table i).live)
    (spans : Spans (b.kernel.table i).pageDirectory ((b.kernel.table i).kernelStack ::ₘ besides b.kernel other i)
      s'.paging l')
    (untouched : Untouched ((b.kernel.table i).kernelStack ::ₘ besides b.kernel other i) l l' b.kernel.paging.mem
      s'.paging.mem)
    (current : s'.paging.current = b.kernel.paging.current)
    (same : ∀ j, SameRoots (s'.table j) (b.kernel.table j)) : Accounts image (b.post s' (some i)) l' other := by
  obtain ⟨_, directory, stack, sibling⟩ := same i
  rw [← directory] at spans
  have alive : (s'.table i).live := (same i).live.mpr live
  have turn : Turn b.kernel s' i (some i) (besides b.kernel other i) 0 l l' := by
    refine ⟨spans.heap, untouched.mono (Multiset.le_cons_self _ _), .inl ⟨rfl, alive, rfl, ?_⟩,
      fun _ => spans.room, fun _ => spans.aligned, current, fun j _ => same j, ?_⟩
    · rw [spans.balance, belongings, stack, Multiset.add_cons, Multiset.cons_add]
    · rw [sibling]
      exact accounts.siblings i
  have next := accounts.next turn
  rwa [zero_add] at next

/-- **`process_mmap`** of pages that are not mapped. -/
theorem mmap {addr flags length prot result : Nat} (accounts : Accounts image b l other)
    (live : (b.kernel.table i).live)
    (mappable : Mappable b.kernel i (mmapVirt (b.kernel.table i) addr) (pagesNeeded length))
    (done : processMmap b.kernel (some i) addr length prot flags = .ok (s', result)) :
    ∃ l', Accounts image (b.post s' (some i)) l' other := by
  obtain ⟨above, new, bound⟩ := mappable
  rw [blocks_eq accounts.heap] at bound
  have small : (if prot &&& protWrite ≠ 0 then pageUser ||| pageWrite else pageUser) < pageSize := by
    split <;> decide
  cases processMmap_way done with
  | nothing empty => exact ⟨l, accounts.idle rfl (fun _ => .refl _) _⟩
  | failed asked loop =>
      obtain ⟨q, l', which, spans, untouched, current⟩ := mmapPages_exact (accounts.spans live) accounts.kernel
        accounts.current above pagesNeeded_lt.le small new bound loop
      obtain rfl : _ = q := by simpa using which
      exact ⟨l', accounts.remapped live spans untouched current fun j => .refl _⟩
  | done asked loop =>
      obtain ⟨q, l', which, spans, untouched, current⟩ := mmapPages_exact (accounts.spans live) accounts.kernel
        accounts.current above pagesNeeded_lt.le small new bound loop
      obtain rfl : _ = q := by simpa using which
      exact ⟨l', accounts.remapped live spans untouched current (.modify _ ⟨rfl, rfl, rfl, rfl⟩)⟩

/-- `process_munmap` looks the pages up in the kernel's directory, and finds none. -/
theorem munmap_idle {addr length : Nat} {code : Int} (accounts : Accounts image b l other)
    (above : AboveOrNull (munmapped addr length).1 (munmapped addr length).2)
    (done : processMunmap b.kernel (some i) addr length = .ok (s', code)) : s' = b.kernel := by
  cases processMunmap_way done with
  | nothing refused => rfl
  | done asked loop =>
      rw [munmapped, if_pos fun zero => asked (.inr (.inl zero))] at above
      rw [munmapPages_idle accounts.kernel accounts.current above] at loop
      cases loop
      rfl

/-- **`process_brk`** that maps pages that are not mapped. -/
theorem brk {addr result : Nat} (accounts : Accounts image b l other) (live : (b.kernel.table i).live)
    (mappable : Mappable b.kernel i (brkMapped (b.kernel.table i) addr).1
      (brkMapped (b.kernel.table i) addr).2)
    (above : AboveOrNull (brkUnmapped (b.kernel.table i) addr).1 (brkUnmapped (b.kernel.table i) addr).2)
    (done : processBrk b.kernel (some i) addr = .ok (s', result)) :
    ∃ l', Accounts image (b.post s' (some i)) l' other := by
  cases processBrk_way done with
  | query null => exact ⟨l, accounts.idle rfl (fun _ => .refl _) _⟩
  | failed asked grows mmap =>
      rw [brkMapped, if_pos ⟨asked, grows⟩] at mappable
      exact accounts.mmap live mappable mmap
  | grown asked grows mmap found =>
      rw [brkMapped, if_pos ⟨asked, grows⟩] at mappable
      exact accounts.mmap live mappable mmap
  | shrunk asked shrinks munmap =>
      rw [brkUnmapped, if_pos ⟨asked, shrinks⟩] at above
      obtain rfl := accounts.munmap_idle above munmap
      refine ⟨l, accounts.idle ?_ ?_ _⟩
      · rfl
      · exact SameRoots.modify b.kernel ⟨rfl, rfl, rfl, rfl⟩
  | kept asked same => exact ⟨l, accounts.idle rfl (fun _ => .refl _) _⟩

/-! ### `process_signal_send` -/

/-- **`process_signal_send`** that queues nothing. -/
theorem send {signal result : Int} (accounts : Accounts image b l other) (refused : Refused b.kernel signal)
    (done : processSignalSend b.kernel (some i) signal = .ok (s', result)) :
    Accounts image (b.post s' (some i)) l other := by
  unfold processSignalSend at done
  simp only at done
  split at done
  · cases done
    exact accounts.idle rfl (fun _ => .refl _) _
  · rename_i inRange
    have full : place entrySize l = none := by
      rw [← blocks_eq accounts.heap]
      rcases refused with low | high | full
      · exact absurd (.inl low) inRange
      · exact absurd (.inr high) inRange
      · exact full
    obtain ⟨⟨h, entry⟩, taken, last⟩ := Outcome.bind_eq_ok.mp done
    rcases kmalloc_exact accounts.heap (by decide) taken with ⟨rfl, rfl⟩ | ⟨l', placed, _⟩
    · simp only [if_true] at last
      cases last
      exact accounts.idle rfl (fun _ => .refl _) _
    · cases full.symm.trans placed

/-! ### `process_create` and `process_fork` -/

/-- **A call that fails**: the slot is unused again. -/
theorem failed (accounts : Accounts image b l other) (dead : ¬ (b.kernel.table i).live)
    (heap : HeapInv s'.paging.heap l') (balance : inUse l' = lost + inUse l)
    (same : Untouched (inUse l) l l' b.kernel.paging.mem s'.paging.mem)
    (current : s'.paging.current = b.kernel.paging.current) (unused : (s'.table i).state = .unused)
    (others : ∀ j, j ≠ i → SameRoots (s'.table j) (b.kernel.table j))
    (sibling : ∃ c, Threads (Table.next b.kernel.table) (s'.table i).nextSibling c ∧ i ∉ c) :
    Accounts image (b.post s' none) l' (lost + other) := by
  have dead' := not_live_of_unused unused
  rw [accounts.balance_dead dead] at balance same
  exact accounts.next ⟨heap, same, .inr ⟨rfl, dead, dead', balance⟩, fun live => absurd live dead',
    fun live => absurd live dead', current, others, sibling⟩

/-- A call that fails and loses nothing. -/
theorem given_up (accounts : Accounts image b l other) (dead : ¬ (b.kernel.table i).live)
    (heap : HeapInv s'.paging.heap l') (balance : inUse l' = inUse l)
    (same : Untouched (inUse l) l l' b.kernel.paging.mem s'.paging.mem)
    (current : s'.paging.current = b.kernel.paging.current) (unused : (s'.table i).state = .unused)
    (others : ∀ j, j ≠ i → s'.table j = b.kernel.table j)
    (alone : (s'.table i).nextSibling = none) :
    Accounts image (b.post s' none) l' other := by
  have left : inUse l' = 0 + inUse l := balance.trans (zero_add _).symm
  have next := accounts.failed dead heap left same current unused
    (fun j apart => others j apart ▸ .refl _) ⟨[], alone, List.not_mem_nil⟩
  rwa [zero_add] at next

/-- **A new process**: a directory and a kernel stack of its own. -/
theorem born (accounts : Accounts image b l other) (dead : ¬ (b.kernel.table i).live)
    (spans : Spans (s'.table i).pageDirectory ((s'.table i).kernelStack ::ₘ inUse l) s'.paging l')
    (same : Untouched (inUse l) l l' b.kernel.paging.mem s'.paging.mem)
    (current : s'.paging.current = b.kernel.paging.current) (live : (s'.table i).live)
    (others : ∀ j, j ≠ i → SameRoots (s'.table j) (b.kernel.table j))
    (sibling : ∃ c, Threads (Table.next b.kernel.table) (s'.table i).nextSibling c ∧ i ∉ c) :
    Accounts image (b.post s' (some i)) l' other := by
  have balance := spans.balance
  rw [accounts.balance_dead dead] at balance same
  rw [Multiset.cons_add, ← Multiset.add_cons] at balance
  have next := accounts.next ⟨spans.heap, same, .inl ⟨rfl, live, rfl, balance⟩, fun _ => spans.room,
    fun _ => spans.aligned, current, others, sibling⟩
  rwa [zero_add] at next

theorem sameRoots_linked {p j : Slot} (apart : p ≠ i) (other : j ≠ i) :
    SameRoots ((b.kernel.linked p i).table j) (b.kernel.table j) := by
  by_cases parent : j = p
  · rw [parent, Kernel.linked_parent apart]
    exact ⟨rfl, rfl, rfl, rfl⟩
  · rw [Kernel.linked_other parent other]
    exact .refl _

/-- **`process_create`** whose blocks are placed at page boundaries. -/
theorem create {entryPoint uid : Nat} {result : Option Slot} (accounts : Accounts image b l other)
    (bound : AtBoundaries (blocks b.kernel) (createRequests b.kernel))
    (done : processCreate image b.kernel entryPoint uid = .ok (s', result)) :
    ∃ l', Accounts image (b.post s' result) l' other := by
  rw [blocks_eq accounts.heap] at bound
  unfold createRequests at bound
  cases processCreate_way done with
  | noSlot full => exact ⟨l, accounts.idle rfl (fun _ => .refl _) _⟩
  | noDirectory slot created =>
      rw [slot] at bound
      have dead := not_live_of_unused (processAllocSlot_unused slot)
      rcases Spans.createDirectory accounts.heap bound created with ⟨-, rfl⟩ | ⟨l₁, spans₁, _⟩
      · refine ⟨l, accounts.given_up dead accounts.heap rfl (.refl _ _ _) rfl ?_
          (fun j apart => Kernel.filled_other apart) ?_⟩
        · rw [Kernel.filled_self]
        · rw [Kernel.filled_self]
          rfl
      · exact absurd rfl spans₁.directory_ne_zero
  | noStack slot created directory first destroyed =>
      rw [slot] at bound
      have dead := not_live_of_unused (processAllocSlot_unused slot)
      obtain ⟨l₁, spans₁, bound₁, same₁, current₁, empty⟩ :=
        (Spans.createDirectory accounts.heap bound created).resolve_left fun null => directory null.1
      rcases kmalloc_exact spans₁.heap (by decide) first with ⟨-, rfl⟩ | ⟨l₂, placed₂, _⟩
      · obtain ⟨l₂, heap₂, left, same₂, current₂⟩ := spans₁.destroyed destroyed
        refine ⟨l₂, accounts.given_up dead heap₂ left (same₁.trans same₂) (current₂.trans current₁) ?_
          (fun j apart => Kernel.filled_other apart) ?_⟩
        · rw [Kernel.filled_self]
        · rw [Kernel.filled_self]
          rfl
      · exact absurd rfl (place_ne_null placed₂)
  | @noPage _ p _ h h' h'' dir stack slot created directory first found second freed destroyed =>
      rw [slot] at bound
      have dead := not_live_of_unused (processAllocSlot_unused slot)
      obtain ⟨l₁, spans₁, bound₁, same₁, current₁, empty⟩ :=
        (Spans.createDirectory accounts.heap bound created).resolve_left fun null => directory null.1
      obtain ⟨l₂, placed₂, heap₂, more₂, holds₂, same₂⟩ :=
        (kmalloc_exact spans₁.heap (by decide) first).resolve_left fun null => found null.1
      have spans₂ : Spans dir (stack ::ₘ inUse l) (p.withHeap h) l₂ := spans₁.take heap₂ more₂ same₂
      rcases kmalloc_exact heap₂ (by decide) second with ⟨-, rfl⟩ | ⟨l₃, placed₃, _⟩
      · have balance := spans₂.balance
        rw [Multiset.cons_add] at balance
        obtain ⟨l₄, heap₄, left₄, same₄⟩ := gaveBack spans₂.heap balance freed
        have spans₄ : Spans dir (inUse l) ((p.withHeap h').withHeap h'') l₄ :=
          spans₂.transport heap₄ left₄ (same₄.mono (Multiset.le_add_left _ _))
        obtain ⟨l₅, heap₅, left₅, same₅, current₅⟩ := spans₄.destroyed destroyed
        refine ⟨l₅, accounts.given_up dead heap₅ left₅ (((same₁.trans (same₂.mono spans₁.rest_le)).trans
          (same₄.mono (Multiset.le_add_right _ _))).trans same₅) (current₅.trans current₁) ?_
          (fun j apart => Kernel.filled_other apart) ?_⟩
        · rw [Kernel.filled_self]
        · rw [Kernel.filled_self]
          rfl
      · exact absurd rfl (place_ne_null placed₃)
  | @made _ p _ h h' dir stack page slot created directory first found second given mapped =>
      rw [slot] at bound
      have dead := not_live_of_unused (processAllocSlot_unused slot)
      obtain ⟨l₁, spans₁, bound₁, same₁, current₁, empty⟩ :=
        (Spans.createDirectory accounts.heap bound created).resolve_left fun null => directory null.1
      obtain ⟨l₂, placed₂, heap₂, more₂, holds₂, same₂⟩ :=
        (kmalloc_exact spans₁.heap (by decide) first).resolve_left fun null => found null.1
      obtain ⟨l₃, placed₃, heap₃, more₃, holds₃, same₃⟩ :=
        (kmalloc_exact heap₂ (by decide) second).resolve_left fun null => given null.1
      have spans₂ : Spans dir (stack ::ₘ inUse l) (p.withHeap h) l₂ := spans₁.take heap₂ more₂ same₂
      have spans₃ : Spans dir (page ::ₘ stack ::ₘ inUse l) ((p.withHeap h).withHeap h') l₃ :=
        spans₂.take heap₃ more₃ same₃
      obtain ⟨_, bound₂⟩ := bound₁.first placed₂
      obtain ⟨which, bound₃⟩ := bound₂.first placed₃
      have none : entry ((p.withHeap h).withHeap h').mem dir (dirIndex userStackVirt) = 0 := by
        have row₂ := same₂.entry (Multiset.mem_of_le spans₁.frees_le self_mem_frees)
          (spans₁.room dir self_mem_frees) (show dirIndex userStackVirt < pageEntries by decide)
        have row₃ := same₃.entry (Multiset.mem_of_le spans₂.frees_le self_mem_frees)
          (spans₂.room dir self_mem_frees) (show dirIndex userStackVirt < pageEntries by decide)
        exact (row₃.trans row₂).trans (empty _ (by decide) (by decide))
      obtain ⟨l₄, spans₄, same₄, current₄, _⟩ := spans₃.mapPageInDirectory holds₃
        (which.resolve_left (by decide)) (show UserIndex userStackVirt by exact ⟨by decide, by decide⟩)
        (by decide) (fun maps => by rw [Maps, none] at maps; exact absurd maps.1 (by decide))
        (by rw [linkRequests, none, if_neg (by decide)]; exact bound₃) mapped
      have kept := ((same₁.trans (same₂.mono spans₁.rest_le)).trans
        (same₃.mono ((Multiset.le_cons_self _ _).trans spans₂.rest_le))).trans
        (same₄.mono (Multiset.le_cons_self _ _))
      refine ⟨l₄, accounts.born dead ?_ kept (current₄.trans current₁) ?_ (fun j apart => ?_) ?_⟩
      · rw [Kernel.filled_self]
        exact spans₄
      · rw [Kernel.filled_self]
        simp [Pcb.live, Pcb.setUp, Pcb.allocated]
      · rw [Kernel.filled_other apart]
        exact .refl _
      · rw [Kernel.filled_self]
        exact ⟨[], rfl, List.not_mem_nil⟩

/-- **`process_fork`** whose blocks are placed at page boundaries. -/
theorem fork {parent : Slot} {result : Option Slot} (accounts : Accounts image b l other)
    (live : (b.kernel.table parent).live)
    (bound : AtBoundaries (blocks b.kernel) (forkRequests b.kernel parent))
    (new : NewSibling b.kernel parent)
    (done : processFork b.kernel (some parent) = .ok (s', result)) :
    ∃ l' other', Accounts image (b.post s' result) l' other' := by
  rw [blocks_eq accounts.heap] at bound
  unfold forkRequests at bound
  have spans := accounts.spans live
  have unparented : ∀ {i}, processAllocSlot b.kernel = some i → parent ≠ i := by
    rintro i slot rfl
    exact not_live_of_unused (processAllocSlot_unused slot) live
  have sibling : ∀ {i}, processAllocSlot b.kernel = some i → ∃ c,
      Threads (Table.next b.kernel.table) ((b.kernel.linked parent i).table i).nextSibling c ∧ i ∉ c := by
    intro i slot
    obtain ⟨siblings, threads⟩ := accounts.ends (b.kernel.table parent).children
    rw [Kernel.linked_child (unparented slot)]
    exact ⟨siblings, threads, new i slot siblings threads⟩
  cases processFork_way done with
  | noSlot full => exact ⟨l, other, accounts.idle rfl (fun _ => .refl _) _⟩
  | noDirectory slot cloned =>
      rw [slot] at bound
      have dead := not_live_of_unused (processAllocSlot_unused slot)
      obtain ⟨l₁, same₁, current₁, ⟨-, heap₁, lost, balance₁⟩ | ⟨nonzero, _⟩⟩ :=
        cloneDirectory_exact accounts.heap spans.frees_le spans.room bound cloned
      · refine ⟨l₁, lost + other, accounts.failed dead heap₁ balance₁ same₁ current₁ ?_ (fun j apart => ?_) ?_⟩
        · rw [Kernel.filled_self]
        · rw [Kernel.filled_other apart]
          exact sameRoots_linked (unparented slot) apart
        · rw [Kernel.filled_self]
          exact sibling slot
      · exact absurd rfl nonzero
  | noStack slot cloned directory taken destroyed =>
      rw [slot] at bound
      have dead := not_live_of_unused (processAllocSlot_unused slot)
      obtain ⟨l₁, same₁, current₁, ⟨null, _⟩ | ⟨_, spans₁, bound₁⟩⟩ :=
        cloneDirectory_exact accounts.heap spans.frees_le spans.room bound cloned
      · exact absurd null directory
      rcases kmalloc_exact spans₁.heap (by decide) taken with ⟨-, rfl⟩ | ⟨l₂, placed₂, _⟩
      · obtain ⟨l₂, heap₂, left, same₂, current₂⟩ := spans₁.destroyed destroyed
        refine ⟨l₂, 0 + other, accounts.failed dead heap₂ (left.trans (zero_add _).symm)
          (same₁.trans same₂) (current₂.trans current₁) ?_ (fun j apart => ?_) ?_⟩
        · rw [Kernel.filled_self]
        · rw [Kernel.filled_other apart]
          exact sameRoots_linked (unparented slot) apart
        · rw [Kernel.filled_self]
          exact sibling slot
      · exact absurd rfl (place_ne_null placed₂)
  | @made _ p h dir stack source slot cloned directory taken found _ =>
      rw [slot] at bound
      have dead := not_live_of_unused (processAllocSlot_unused slot)
      obtain ⟨l₁, same₁, current₁, ⟨null, _⟩ | ⟨_, spans₁, bound₁⟩⟩ :=
        cloneDirectory_exact accounts.heap spans.frees_le spans.room bound cloned
      · exact absurd null directory
      obtain ⟨l₂, placed₂, heap₂, more₂, holds₂, same₂⟩ :=
        (kmalloc_exact spans₁.heap (by decide) taken).resolve_left fun null => found null.1
      have spans₂ : Spans dir (stack ::ₘ inUse l) (p.withHeap h) l₂ := spans₁.take heap₂ more₂ same₂
      obtain ⟨spans₃, same₃⟩ := spans₂.scribble holds₂ (copy_eqOn (p.withHeap h).mem stack source pageSize)
      refine ⟨l₂, other, accounts.born dead ?_ ?_ current₁ ?_ (fun j apart => ?_) ?_⟩
      · rw [Kernel.filled_self]
        exact spans₃
      · exact (same₁.trans (same₂.mono spans₁.rest_le)).trans (same₃.mono (Multiset.le_add_right _ _))
      · rw [Kernel.filled_self, Kernel.linked_child (unparented slot)]
        simp [Pcb.live]
      · rw [Kernel.filled_other apart]
        exact sameRoots_linked (unparented slot) apart
      · rw [Kernel.filled_self]
        exact sibling slot

end Accounts

end Accounts

end Kfs.Process
