/-
**Processes that cannot be built.**

`process_fork` and `process_create` ask the heap for one block after the other, and give back what they
have when a request fails. `construction_unwinds`: with `paging_clone_directory`, each of them leaves the
heap as it was if its requests unwind, that is, if they are all served, or the blocks before the first
that fails start at page boundaries and that one is not the page of a table with pages already. On a heap
whose blocks are spaced it does so only then.
-/

import Kfs.Paging.Preserved
import Kfs.Paging.Unwound
import Kfs.Process.FailedForks

namespace Kfs.Process

open Kfs.Heap Kfs.Paging Memory

/-- What `process_fork` asks for. -/
def forkAsks (s : Kernel) : Option Slot → List Request
  | none => []
  | some p =>
      match processAllocSlot s with
      | none => []
      | some _ => cloneAsks s.paging.mem (s.table p).pageDirectory [.stack]

/-- What `process_create` asks for, before it maps the user's stack. -/
def createAsks (s : Kernel) : List Request :=
  match processAllocSlot s with
  | none => []
  | some _ => [.entries, .stack, .page]

/-- A call that makes a process returns it, or NULL and the blocks are as they were. -/
def MakesCleanly (l : List Segment) : Outcome (Kernel × Option Slot) → Prop :=
  FailsClean l (fun r => r.1.paging.heap) fun r => r.2 = none

/-- The same, or, when everything was served, the kernel stops for want of a page table. -/
def CreatesCleanly (l : List Segment) (requests : List Request)
    (outcome : Outcome (Kernel × Option Slot)) : Prop :=
  MakesCleanly l outcome ∨ Enough l requests ∧ outcome = .panic noTable

section Fork

variable {s t : Kernel} {l : List Segment} {p c : Slot} {pg : PagingState} {h : HeapState}
  {dir stack : Nat} {parent : Option Slot}

/-- `process_fork`, from where the directory has been cloned. -/
def forkRest (t : Kernel) (p c : Slot) (r : PagingState × Nat) : Outcome (Kernel × Option Slot) := do
  let s := (t.withPaging r.1).modify c fun proc => { proc with pageDirectory := r.2 }
  if r.2 = 0 then return (s.discard c, none)
  let (h, kernelStack) ← kmalloc s.paging.heap pageSize
  let s := (s.withHeap h).modify c fun proc => { proc with kernelStack := kernelStack }
  if kernelStack = 0 then
    let pg ← pagingDestroyDirectory s.paging r.2
    return ((s.withPaging pg).discard c, none)
  let m := s.paging.mem.copy kernelStack (s.table p).kernelStack pageSize
  let s := (s.withPaging (s.paging.write m)).modify c fun proc =>
    { proc with context := { proc.context with eax := 0 } }
  return (s, some c)

theorem processFork_eq (found : processAllocSlot s = some c) : ∃ t : Kernel,
    processFork s (some p) =
      pagingCloneDirectory s.paging (s.table p).pageDirectory >>= forkRest t p c := by
  have directory : ∀ (f g k : Pcb → Pcb), (∀ proc, (f proc).pageDirectory = (s.table p).pageDirectory) →
      (∀ proc, (g proc).pageDirectory = proc.pageDirectory) →
      (∀ proc, (k proc).pageDirectory = proc.pageDirectory) →
      (((((processAllocPid s).1.modify c f).modify c g).modify p k).table p).pageDirectory =
        (s.table p).pageDirectory := by
    intro f g k first second third
    rw [Kernel.modify_self, third]
    by_cases same : p = c
    · subst same
      rw [Kernel.modify_self, second, Kernel.modify_self, first]
    · rw [Kernel.modify_table, if_neg same, Kernel.modify_table, if_neg same]
      rfl
  unfold processFork
  rw [found]
  simp only
  rw [directory]
  · exact ⟨_, rfl⟩
  all_goals exact fun _ => rfl

/-- What is left of a call is to return NULL. -/
def Declines (rest : PagingState → Outcome (Kernel × Option Slot)) : Prop :=
  ∀ q, ∃ u : Kernel, rest q = .ok (u, none) ∧ u.paging = q

/-- A clean-up, which may stop the kernel, and then NULL. -/
theorem makesCleanly_bind {last : Outcome PagingState}
    {rest : PagingState → Outcome (Kernel × Option Slot)} (declines : Declines rest) :
    MakesCleanly l (last >>= rest) ↔ ∃ q, last = .ok q ∧ blockList q.heap = some l := by
  cases last with
  | ok q =>
      obtain ⟨u, returned, same⟩ := declines q
      rw [Outcome.ok_bind, returned, ← same]
      exact ⟨fun clean => ⟨_, rfl, clean rfl⟩, fun ⟨_, here, restored⟩ _ => by cases here; exact restored⟩
  | panic message => exact ⟨False.elim, fun ⟨_, here, _⟩ => by cases here⟩
  | diverge => exact ⟨False.elim, fun ⟨_, here, _⟩ => by cases here⟩

theorem forkRest_null (t : Kernel) (p c : Slot) : Declines fun q => forkRest t p c (q, 0) :=
  fun _ => ⟨_, rfl, rfl⟩

/-- No kernel stack. -/
theorem forkRest_full (nonzero : dir ≠ 0) (full : kmalloc pg.heap pageSize = .ok (pg.heap, 0)) :
    ∃ rest, Declines rest ∧ forkRest t p c (pg, dir) = pagingDestroyDirectory pg dir >>= rest := by
  unfold forkRest
  rw [if_neg nonzero]
  simp only [Kernel.modify_paging, Kernel.withPaging_paging]
  rw [full, Outcome.ok_bind]
  exact ⟨fun q => .ok (Kernel.discard (Kernel.withPaging _ q) c, none), fun q => ⟨_, rfl, rfl⟩, rfl⟩

theorem forkRest_made (nonzero : dir ≠ 0) (taken : kmalloc pg.heap pageSize = .ok (h, stack))
    (found : stack ≠ 0) : ∃ u, forkRest t p c (pg, dir) = .ok (u, some c) := by
  unfold forkRest
  rw [if_neg nonzero]
  simp only [Kernel.modify_paging, Kernel.withPaging_paging]
  rw [taken, Outcome.ok_bind]
  simp only
  rw [if_neg found]
  exact ⟨_, rfl⟩

/-- **`process_fork`.** -/
theorem fork_unwinds (heap : HeapInv s.paging.heap l)
    (readable : ∀ p, parent = some p → (s.table p).pageDirectory ≠ 0 →
      Readable l s.paging.mem (s.table p).pageDirectory) :
    (Unwinds l (forkAsks s parent) → MakesCleanly l (processFork s parent)) ∧
      (Spaced l → MakesCleanly l (processFork s parent) → Unwinds l (forkAsks s parent)) := by
  have nothing : Unwinds l [] := .inl ⟨l, [], Serves.nil⟩
  cases parent with
  | none => exact ⟨fun _ _ => heap.blockList_eq, fun _ _ => nothing⟩
  | some p =>
      cases found : processAllocSlot s with
      | none =>
          have same : processFork s (some p) = .ok (s, none) := by
            unfold processFork
            rw [found]
          rw [same, forkAsks, found]
          exact ⟨fun _ _ => heap.blockList_eq, fun _ _ => nothing⟩
      | some c =>
          obtain ⟨t, run⟩ := @processFork_eq s p c found
          have asked : forkAsks s (some p) =
              cloneAsks s.paging.mem (s.table p).pageDirectory [.stack] := by
            rw [forkAsks, found]
          rw [run, asked]
          by_cases null : (s.table p).pageDirectory = 0
          · rw [null]
            exact ⟨fun _ _ => heap.blockList_eq, fun _ _ => nothing⟩
          rcases cloneDirectory_verdict heap null (readable p rfl null) [.stack] with
            ⟨x, s', l', given, returned, nonzero, copy⟩ | ⟨last, failed, few, clean, only⟩
          · rw [returned, Outcome.ok_bind, cloneAsks, if_neg null, ← List.cons_append]
            cases placed : place Request.stack.size l' with
            | some found =>
                obtain ⟨h, taken, -⟩ := kmalloc_place copy.since.heap (by decide) (by decide) placed
                obtain ⟨u, made⟩ := @forkRest_made t p c s' h _ _ nonzero taken (place_ne_null placed)
                rw [made]
                refine ⟨fun _ missing => ?_, fun _ _ =>
                  .inl ⟨_, _, copy.served.append (Serves.stack placed)⟩⟩
                cases missing
            | none =>
                obtain ⟨rest, declines, full⟩ := @forkRest_full t p c s' _ nonzero
                  (kmalloc_place_none copy.since.heap placed)
                obtain ⟨clean, only⟩ := discard_verdict heap copy.served copy.since.heap copy.spans
                  dvd_home home_small
                rw [full, makesCleanly_bind declines]
                constructor
                · rintro (enough | ⟨bound, -⟩)
                  · exact absurd enough (copy.served.not_enough placed)
                  · obtain ⟨q, done, inv⟩ := clean ((atBoundaries_append copy.served placed).mp bound)
                    exact ⟨q, done, inv.blockList_eq⟩
                · rintro spaced ⟨q, done, same⟩
                  refine .inr ⟨(atBoundaries_append copy.served placed).mpr (only spaced q done same), ?_⟩
                  rw [failsBetween_append copy.served placed]
                  exact fun page => by cases page
          · have finished : pagingCloneDirectory s.paging (s.table p).pageDirectory >>= forkRest t p c =
                last >>= fun q => forkRest t p c (q, 0) := by
              rw [failed]
              cases last <;> rfl
            rw [finished, makesCleanly_bind (forkRest_null t p c)]
            constructor
            · rintro (enough | ⟨bound, between⟩)
              · exact absurd enough few
              · obtain ⟨q, done, inv⟩ := clean bound between
                exact ⟨q, done, inv.blockList_eq⟩
            · rintro spaced ⟨q, done, same⟩
              exact .inr (only spaced q done same)

end Fork

section Create

variable {image : KernelImage} {s : Kernel} {l : List Segment} {p : PagingState} {h : HeapState}
  {d entryPoint flags phys stack uid virt : Nat}

/-- **`paging_create_directory`**, whatever the heap gives. -/
theorem createDirectory_outcome (heap : HeapInv p.heap l) :
    (place Request.entries.size l = none ∧ pagingCreateDirectory image p = .ok (p, 0)) ∨
      ∃ x q l', place Request.entries.size l = some (x, l') ∧
        pagingCreateDirectory image p = .ok (q, home x) ∧ home x ≠ 0 ∧ HeapInv q.heap l' ∧
        (AtBoundaries l [.entries] → Spans (home x) (inUse l) q l') := by
  unfold pagingCreateDirectory
  rcases (Since.refl heap).askPage with
    ⟨full, asked⟩ | ⟨h', x, l', placed, asked, nonzero, next, -, held, filled, -, empty⟩
  · refine .inl ⟨full, ?_⟩
    rw [asked]
    rfl
  · have begun := fun v w => @Copying.start _ _ _ _ p h' 0 x next placed asked heap rfl held filled empty v w
    rw [asked, Outcome.ok_bind]
    simp only
    rw [if_neg nonzero]
    refine .inr ⟨x, _, l', placed, rfl, nonzero, (begun _ _).since.heap, fun bound => ?_⟩
    refine (begun _ _).spans ?_
    rw [cloneRequests_two]
    exact bound

/-- **`paging_map_page_in_directory`** returns, or stops the kernel for want of a table. -/
theorem mapPage_outcome (heap : HeapInv p.heap l) :
    (∃ q, pagingMapPageInDirectory p d virt phys flags = .ok q) ∨
      pagingMapPageInDirectory p d virt phys flags = .panic noTable := by
  unfold pagingMapPageInDirectory
  by_cases null : d = 0
  · rw [if_pos null]
    exact .inl ⟨p, rfl⟩
  rw [if_neg null]
  unfold ensureTable
  cases here : present (entry p.mem d (dirIndex virt)) with
  | true =>
      rw [if_pos rfl]
      exact .inl ⟨_, rfl⟩
  | false =>
      rw [if_neg (by decide)]
      rcases (Since.refl heap).askTable with ⟨-, none⟩ | ⟨q, y, l', -, taken, nonzero, -⟩
      · rw [none]
        exact .inr rfl
      · rw [taken, Outcome.ok_bind]
        simp only
        rw [if_neg nonzero]
        exact .inl ⟨_, rfl⟩

/-- The block last taken is freed: the heap is as it was before. -/
theorem kfree_last {h₁ : HeapState} {l₁ : List Segment} {size : Nat} (heap : HeapInv h₁ l₁)
    (inv : HeapInv h l) (placed : place size l₁ = some (stack, l)) :
    ∃ h', kfree h stack = .ok h' ∧ HeapInv h' l₁ := by
  have grows := inUse_place placed
  obtain ⟨h', l', freed, next, fewer, -⟩ := kfree_exact inv (a := stack) (by
    rw [grows]
    exact Multiset.mem_cons_self _ _)
  obtain ⟨l₂, next', keeps⟩ := kfreeLive_keeps inv freed
  cases next'.unique next
  refine ⟨h', kfree_of_kfreeLive freed, ?_⟩
  have same : inUse l' = inUse l₁ := (Multiset.cons_inj_right stack).mp (fewer.symm.trans grows)
  cases eq_of_inUse heap next inv (Keeps.place placed) keeps same
  exact next

/-- Nothing is left of a kernel stack that was taken and freed again. -/
theorem spans_unstacked {l' l₂ : List Segment} {rest : Multiset Nat} {h₂ h₃ : HeapState}
    (spans : Spans d rest p l') (taken : kmalloc p.heap pageSize = .ok (h₂, stack))
    (placed : place pageSize l' = some (stack, l₂)) (freed : kfree h₂ stack = .ok h₃)
    (inv : HeapInv h₃ l') : Spans d rest ((p.withHeap h₂).withHeap h₃) l' := by
  rcases kmalloc_exact spans.heap (by decide) taken with ⟨rfl, -⟩ | ⟨l₃, placed', next, more, -, same⟩
  · exact absurd rfl (place_ne_null placed)
  cases placed.symm.trans placed'
  have stacked : Spans d (stack ::ₘ rest) (p.withHeap h₂) l₂ := spans.take next more same
  have balance := stacked.balance
  rw [Multiset.cons_add] at balance
  obtain ⟨l₃, last, left, untouched⟩ := @gaveBack _ l₂ (p.withHeap h₂) stack h₃ next balance freed
  cases last.unique inv
  exact stacked.transport inv left (untouched.mono (Multiset.le_add_left _ _))

/-- Discarding a directory that nothing was mapped in, when a later request fails. -/
theorem create_discards {q : PagingState} {l' l'' : List Segment} {x : Nat} {r : Request}
    {between more : List Request} {given : List Nat} (heap : HeapInv h l)
    (placed : place Request.entries.size l = some (x, l')) (inv : HeapInv q.heap l')
    (spans : AtBoundaries l [.entries] → Spans (home x) (inUse l) q l')
    (served : Serves l' between l'' given) (middle : AtBoundaries l' between)
    (full : place r.size l'' = none) (last : r = .page → lastPage false between = false)
    {rest : PagingState → Outcome (Kernel × Option Slot)} (declines : Declines rest) :
    (Unwinds l (.entries :: (between ++ r :: more)) →
        MakesCleanly l (pagingDestroyDirectory q (home x) >>= rest)) ∧
      (Spaced l → MakesCleanly l (pagingDestroyDirectory q (home x) >>= rest) →
        Unwinds l (.entries :: (between ++ r :: more))) := by
  have first : Serves l [.entries] l' [] := Serves.entries placed
  have whole := first.append served
  obtain ⟨clean, only⟩ := discard_verdict heap first inv spans dvd_home home_small
  rw [makesCleanly_bind declines, show Request.entries :: (between ++ r :: more) =
    ([.entries] ++ between) ++ r :: more from rfl, Unwinds, atBoundaries_append whole full,
    AtBoundaries.append first]
  constructor
  · rintro (enough | ⟨⟨bound, -⟩, -⟩)
    · exact absurd enough (whole.not_enough full)
    · obtain ⟨q', done, restored⟩ := clean bound
      exact ⟨q', done, restored.blockList_eq⟩
  · rintro spaced ⟨q', done, same⟩
    refine .inr ⟨⟨only spaced q' done same, middle⟩, ?_⟩
    rw [failsBetween_append whole full]
    exact last

/-- `process_create`, from where it asks for the page of the user's stack. -/
def createPage (t : Kernel) (i : Slot) (dir kernelStack entryPoint : Nat) :
    Outcome (Kernel × Option Slot) := do
  let (h, userStackPhys) ← kmalloc t.paging.heap pageSize
  let s := t.withHeap h
  if userStackPhys = 0 then
    let h ← kfree s.paging.heap kernelStack
    let p ← pagingDestroyDirectory (s.paging.withHeap h) dir
    return ((s.withPaging p).discard i, none)
  let p ← pagingMapPageInDirectory s.paging dir userStackVirt userStackPhys (pageWrite ||| pageUser)
  return ((s.withPaging p).modify i fun proc => proc.setUp entryPoint, some i)

/-- The same, from where it asks for the kernel stack. -/
def createStack (t : Kernel) (i : Slot) (dir entryPoint : Nat) : Outcome (Kernel × Option Slot) := do
  let (h, kernelStack) ← kmalloc t.paging.heap pageSize
  let s := (t.withHeap h).modify i fun proc => { proc with kernelStack := kernelStack }
  if kernelStack = 0 then
    let p ← pagingDestroyDirectory s.paging dir
    return ((s.withPaging p).discard i, none)
  createPage s i dir kernelStack entryPoint

theorem processCreate_eq {i : Slot} (found : processAllocSlot s = some i) :
    ∃ t : PagingState × Nat → Kernel, (∀ r, (t r).paging = r.1) ∧
      processCreate image s entryPoint uid = (do
        let r ← pagingCreateDirectory image s.paging
        if r.2 = 0 then return ((t r).discard i, none)
        createStack (t r) i r.2 entryPoint) := by
  unfold processCreate
  rw [found]
  exact ⟨fun r => Kernel.modify (Kernel.withPaging _ r.1) i fun proc => { proc with pageDirectory := r.2 },
    fun _ => rfl, rfl⟩

theorem createPage_full {t : Kernel} {i : Slot}
    (full : kmalloc t.paging.heap pageSize = .ok (t.paging.heap, 0))
    (freed : kfree t.paging.heap stack = .ok h) : ∃ rest, Declines rest ∧
    createPage t i d stack entryPoint =
      pagingDestroyDirectory (t.paging.withHeap h) d >>= rest := by
  unfold createPage
  rw [full, Outcome.ok_bind]
  show ∃ rest, Declines rest ∧ (kfree t.paging.heap stack >>= _) = _
  rw [freed]
  exact ⟨fun p => .ok (Kernel.discard (Kernel.withPaging _ p) i, none), fun p => ⟨_, rfl, rfl⟩, rfl⟩

theorem createPage_made {t : Kernel} {i : Slot} {page : Nat}
    (taken : kmalloc t.paging.heap pageSize = .ok (h, page)) (found : page ≠ 0) :
    ∃ f : PagingState → Kernel, createPage t i d stack entryPoint =
      pagingMapPageInDirectory (t.paging.withHeap h) d userStackVirt page (pageWrite ||| pageUser) >>=
        fun p => .ok (f p, some i) := by
  unfold createPage
  rw [taken, Outcome.ok_bind]
  simp only
  rw [if_neg found]
  exact ⟨fun p => Kernel.modify (Kernel.withPaging _ p) i fun proc => proc.setUp entryPoint, rfl⟩

theorem createStack_full {t : Kernel} {i : Slot}
    (full : kmalloc t.paging.heap pageSize = .ok (t.paging.heap, 0)) : ∃ rest, Declines rest ∧
    createStack t i d entryPoint = pagingDestroyDirectory t.paging d >>= rest := by
  unfold createStack
  rw [full, Outcome.ok_bind]
  exact ⟨fun p => .ok (Kernel.discard (Kernel.withPaging _ p) i, none), fun p => ⟨_, rfl, rfl⟩, rfl⟩

theorem createStack_made {t : Kernel} {i : Slot}
    (taken : kmalloc t.paging.heap pageSize = .ok (h, stack)) (found : stack ≠ 0) :
    ∃ u : Kernel, u.paging = t.paging.withHeap h ∧
      createStack t i d entryPoint = createPage u i d stack entryPoint := by
  unfold createStack
  rw [taken, Outcome.ok_bind]
  simp only
  rw [if_neg found]
  exact ⟨_, rfl, rfl⟩

theorem createsCleanly_iff {requests : List Request} {outcome : Outcome (Kernel × Option Slot)}
    (few : ¬ Enough l requests) : CreatesCleanly l requests outcome ↔ MakesCleanly l outcome :=
  or_iff_left fun both => few both.1

/-- The directory and the kernel stack are there. -/
theorem createPage_unwinds {q : PagingState} {t : Kernel} {l' l₂ : List Segment} {h₂ : HeapState}
    {x : Nat} {i : Slot} (heap : HeapInv h l) (placed : place Request.entries.size l = some (x, l'))
    (inv : HeapInv q.heap l') (spans : AtBoundaries l [.entries] → Spans (home x) (inUse l) q l')
    (first : place Request.stack.size l' = some (stack, l₂))
    (taken : kmalloc q.heap pageSize = .ok (h₂, stack)) (inv₂ : HeapInv h₂ l₂)
    (here : t.paging = q.withHeap h₂) :
    (Unwinds l [.entries, .stack, .page] →
        CreatesCleanly l [.entries, .stack, .page] (createPage t i (home x) stack entryPoint)) ∧
      (Spaced l → CreatesCleanly l [.entries, .stack, .page] (createPage t i (home x) stack entryPoint) →
        Unwinds l [.entries, .stack, .page]) := by
  have served : Serves l [.entries, .stack] l₂ [] := (Serves.entries placed).append (Serves.stack first)
  have inv' : HeapInv t.paging.heap l₂ := by
    rw [here]
    exact inv₂
  cases second : place Request.page.size l₂ with
  | none =>
      obtain ⟨h₃, freed, inv₃⟩ := kfree_last inv inv' first
      obtain ⟨rest, declines, full⟩ :=
        @createPage_full h₃ (home x) entryPoint stack t i (kmalloc_place_none inv' second) freed
      have middle : AtBoundaries l' [.stack] := by
        rw [AtBoundaries, first]
        exact ⟨.inl rfl, by rw [AtBoundaries]; trivial⟩
      have few : ¬ Enough l [.entries, .stack, .page] := served.not_enough second
      rw [createsCleanly_iff few, full]
      have discarded : AtBoundaries l [.entries] →
          Spans (home x) (inUse l) (t.paging.withHeap h₃) l' := by
        intro bound
        rw [here] at freed ⊢
        exact spans_unstacked (spans bound) taken first freed inv₃
      exact @create_discards _ _ _ _ _ _ _ [.stack] [] _ heap placed inv₃ discarded (Serves.stack first)
        middle second (fun _ => rfl) _ declines
  | some found =>
      obtain ⟨page, l₃⟩ := found
      obtain ⟨h₃, given, inv₃⟩ := kmalloc_place inv' (by decide) (by decide) second
      have enough : Enough l [.entries, .stack, .page] := ⟨_, _, served.append (Serves.page second)⟩
      obtain ⟨f, made⟩ := @createPage_made h₃ (home x) entryPoint stack t i page given (place_ne_null second)
      refine ⟨fun _ => ?_, fun _ _ => .inl enough⟩
      rw [made]
      rcases @mapPage_outcome l₃ (t.paging.withHeap h₃) (home x) (pageWrite ||| pageUser) page userStackVirt
          inv₃ with ⟨p, mapped⟩ | stopped
      · rw [mapped]
        exact .inl fun missing => by cases missing
      · rw [stopped]
        exact .inr ⟨enough, rfl⟩

/-- **`process_create`.** It may also stop the kernel, when everything was served but there is no table
for the user's stack. -/
theorem create_unwinds (heap : HeapInv s.paging.heap l) :
    (Unwinds l (createAsks s) →
        CreatesCleanly l (createAsks s) (processCreate image s entryPoint uid)) ∧
      (Spaced l → CreatesCleanly l (createAsks s) (processCreate image s entryPoint uid) →
        Unwinds l (createAsks s)) := by
  have nothing : Unwinds l [] := .inl ⟨l, [], Serves.nil⟩
  unfold createAsks
  cases found : processAllocSlot s with
  | none =>
      have same : processCreate image s entryPoint uid = .ok (s, none) := by
        unfold processCreate
        rw [found]
      rw [same]
      exact ⟨fun _ => .inl fun _ => heap.blockList_eq, fun _ _ => nothing⟩
  | some i =>
      obtain ⟨t, same, run⟩ := @processCreate_eq image s entryPoint uid i found
      rw [run]
      rcases @createDirectory_outcome image l s.paging heap with
        ⟨full, none⟩ | ⟨x, q, l', placed, created, nonzero, inv, spans⟩
      · rw [none]
        refine ⟨fun _ => .inl fun _ => ?_, fun _ _ => .inr ⟨?_, ?_⟩⟩
        · show blockList (t (s.paging, 0)).paging.heap = some l
          rw [same]
          exact heap.blockList_eq
        · rw [AtBoundaries, full]
          trivial
        · rw [FailsBetween, full]
          exact fun page => by cases page
      · rw [created, Outcome.ok_bind]
        simp only
        rw [if_neg nonzero]
        have inv' : HeapInv (t (q, home x)).paging.heap l' := by
          rw [same]
          exact inv
        cases first : place Request.stack.size l' with
        | none =>
            have served : Serves l [.entries] l' [] := Serves.entries placed
            obtain ⟨rest, declines, full⟩ := @createStack_full (home x) entryPoint (t (q, home x)) i
              (kmalloc_place_none inv' first)
            have few : ¬ Enough l [.entries, .stack, .page] := served.not_enough first
            rw [createsCleanly_iff few, full, same]
            exact @create_discards _ _ _ _ _ _ _ [] [.page] _ heap placed inv spans Serves.nil
              (by rw [AtBoundaries]; trivial) first (fun page => by cases page) _ declines
        | some found =>
            obtain ⟨stack, l₂⟩ := found
            obtain ⟨h₂, taken, inv₂⟩ := kmalloc_place inv (by decide) (by decide) first
            obtain ⟨u, here, made⟩ := @createStack_made h₂ (home x) entryPoint stack (t (q, home x)) i
              (by rw [same]; exact taken) (place_ne_null first)
            rw [made]
            rw [same] at here
            exact createPage_unwinds heap placed inv spans first taken inv₂ here

end Create

section Constructions

variable {s : Kernel} {l : List Segment}

/-- **Failed constructions.** `paging_clone_directory`, `process_fork` and `process_create` leave the heap
as it was if their requests unwind, and, on a heap whose blocks are spaced, only then. -/
theorem construction_unwinds (heap : HeapInv s.paging.heap l) :
    (∀ src, (src ≠ 0 → Readable l s.paging.mem src) →
      (Unwinds l (cloneAsks s.paging.mem src []) →
        FailsClean l (fun r => r.1.heap) (fun r => r.2 = 0) (pagingCloneDirectory s.paging src)) ∧
      (Spaced l →
        FailsClean l (fun r => r.1.heap) (fun r => r.2 = 0) (pagingCloneDirectory s.paging src) →
        Unwinds l (cloneAsks s.paging.mem src []))) ∧
    (∀ parent : Option Slot, (∀ p, parent = some p → (s.table p).pageDirectory ≠ 0 →
        Readable l s.paging.mem (s.table p).pageDirectory) →
      (Unwinds l (forkAsks s parent) → MakesCleanly l (processFork s parent)) ∧
      (Spaced l → MakesCleanly l (processFork s parent) → Unwinds l (forkAsks s parent))) ∧
    ∀ (image : KernelImage) (entryPoint uid : Nat),
      (Unwinds l (createAsks s) →
        CreatesCleanly l (createAsks s) (processCreate image s entryPoint uid)) ∧
      (Spaced l → CreatesCleanly l (createAsks s) (processCreate image s entryPoint uid) →
        Unwinds l (createAsks s)) :=
  ⟨fun _ readable => clone_unwinds heap readable, fun _ readable => fork_unwinds heap readable,
    fun _ _ _ => create_unwinds heap⟩

end Constructions

/-- A kernel that has room for a directory, at a page boundary, and a kernel stack, but for no page. -/
def tightOps : List HeapOp :=
  [.malloc 4064, .malloc 8192, .malloc 16, .free 0x501000, .malloc 1030000]

def tightKernel : Kernel :=
  processInit sampleImage ((runAll HeapOp.exec (Client.init (pagingInit sampleImage fun _ => 0))
    tightOps).getD (Client.init fun _ => 0)).heap

theorem tightKernel_booted : Booted sampleImage tightKernel :=
  ⟨fun _ => 0, tightOps, _,
    (Run.of_runAll (Outcome.eq_ok_getD (by decide +kernel) _)).mono fun _ _ _ => HeapStep.of_exec, rfl⟩

theorem construction_unwinds_create : ∃ l, blockList tightKernel.paging.heap = some l ∧
    ¬ Enough l (createAsks tightKernel) ∧
    MakesCleanly l (processCreate sampleImage tightKernel 0 0) := by
  obtain ⟨l, heap, -⟩ := tightKernel_booted.mapped
  have blocks : l = (blockList tightKernel.paging.heap).getD [] := by
    rw [heap.blockList_eq]
    rfl
  obtain ⟨few, unwinds⟩ : ¬ Enough l (createAsks tightKernel) ∧ Unwinds l (createAsks tightKernel) := by
    rw [blocks]
    decide +kernel
  have clean := ((@construction_unwinds tightKernel l heap).2.2 sampleImage 0 0).1 unwinds
  rw [createsCleanly_iff few] at clean
  refine ⟨l, heap.blockList_eq, few, ?_⟩
  with_reducible exact clean

/-- The heap after the rest of the kernel has taken all of it, and given back four blocks: one for a
directory with its table, and three at page boundaries, of which the last has room for one page only. -/
def packedOps : List HeapOp :=
  [.malloc 16400, .malloc 4032, .malloc 8192, .malloc 4064, .malloc 8192, .malloc 4064, .malloc 4096,
    .malloc 999408, .free 0x500010, .free 0x505000, .free 0x508000, .free 0x50b000]

def packedHeap : HeapState :=
  ((runAll HeapOp.exec (Client.init (pagingInit lowImage fun _ => 0)) packedOps).getD
    (Client.init fun _ => 0)).heap

theorem packedHeap_inv : ∃ l, HeapInv packedHeap l := by
  have run : Run HeapStep (Client.init (pagingInit lowImage fun _ => 0)) packedOps
      ((runAll HeapOp.exec (Client.init (pagingInit lowImage fun _ => 0)) packedOps).getD
        (Client.init fun _ => 0)) :=
    (Run.of_runAll (Outcome.eq_ok_getD (by decide +kernel) _)).mono fun _ _ _ => HeapStep.of_exec
  obtain ⟨l, inv⟩ := Reachable.inv ⟨_, packedOps, run⟩
  exact ⟨l, inv.heap⟩

/-- The directory created then, with a frame at its first user address. -/
def packedFirst : PagingState :=
  (pagingMapPageInDirectory (createdOn packedHeap).1 (createdOn packedHeap).2 0x800000 0x600000
    (pageWrite ||| pageUser)).getD (createdOn packedHeap).1

/-- And with another on the next page. -/
def packedSecond : PagingState :=
  (pagingMapPageInDirectory packedFirst (createdOn packedHeap).2 0x801000 0x601000
    (pageWrite ||| pageUser)).getD packedFirst

theorem packedSecond_built : Built lowImage (createdOn packedHeap).2 packedSecond := by
  obtain ⟨l, heap⟩ := packedHeap_inv
  have created := @Built.create lowImage _ (startOn packedHeap) _ l heap
    ⟨by decide +kernel, by decide +kernel⟩
    (Outcome.eq_ok_getD (by decide +kernel) (startOn packedHeap, 0)) (by decide +kernel)
  exact .map (.map created (by decide) (fun _ => by decide)
    (Outcome.eq_ok_getD (by decide +kernel) (createdOn packedHeap).1)) (by decide) (fun _ => by decide)
    (Outcome.eq_ok_getD (by decide +kernel) packedFirst)

/-- **A clone that returns NULL and loses a page**: of the two pages of a table, only the first is served. -/
theorem clone_loses_page : ∃ s' l l',
    Built lowImage (createdOn packedHeap).2 packedSecond ∧ HeapInv packedSecond.heap l ∧
      pagingCloneDirectory packedSecond (createdOn packedHeap).2 = .ok (s', 0) ∧
      HeapInv s'.heap l' ∧ inUse l < inUse l' := by
  obtain ⟨l, x, rooted⟩ := packedSecond_built.rooted
  have blocks : l = (blockList packedSecond.heap).getD [] := by
    rw [rooted.heap.blockList_eq]
    rfl
  obtain ⟨nonnull, here, first, second, enough, few, bound⟩ : (createdOn packedHeap).2 ≠ 0 ∧
      present (entry packedSecond.mem (createdOn packedHeap).2 2) = true ∧
      present (entry packedSecond.mem (frame (entry packedSecond.mem (createdOn packedHeap).2 2)) 0) = true ∧
      present (entry packedSecond.mem (frame (entry packedSecond.mem (createdOn packedHeap).2 2)) 1) = true ∧
      Enough l [.entries, .entries, .page] ∧ ¬ Enough l ([.entries, .entries, .page] ++ [.page]) ∧
      AtBoundaries l [.entries, .entries, .page] := by
    rw [blocks]
    decide +kernel
  obtain ⟨rest, asked⟩ := @cloneAsks_twice (createdOn packedHeap).2 packedSecond.mem [] nonnull here first second
  obtain ⟨l₁, given, served⟩ := enough
  have full : place Request.page.size l₁ = none := by
    cases placed : place Request.page.size l₁ with
    | none => rfl
    | some found => exact absurd ⟨_, _, served.append (Serves.page placed)⟩ few
  obtain ⟨s', l', returned, heap, more⟩ := clone_loses rooted.heap nonnull rooted.readable
    (by rw [asked]; exact (atBoundaries_append served full).mpr bound)
    (by rw [asked, failsBetween_append served full]; decide)
  exact ⟨s', l, l', packedSecond_built, rooted.heap, returned, heap, more⟩

end Kfs.Process
