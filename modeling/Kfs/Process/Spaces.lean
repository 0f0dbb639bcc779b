/-
**Process memory management keeps the layout.**

`KernelInv` extends the paging layout to the process table: every live process has a directory of its
own, the current directory is the kernel's or an owned one, and heaps end at page boundaries. Each
operation of `process.c` keeps it whenever it returns, whatever path it takes, as long as the pages it
maps and unmaps lie above the kernel's 8 MB (`KernelInv.exec`). Where something may be freed, this needs the
blocks to be spaced (`grid`).
-/

import Kfs.Base.Trace
import Kfs.Paging.Clone
import Kfs.Process.Calls

namespace Kfs.Process

open Kfs.Heap Kfs.Paging Memory

/-- The end of the kernel's part of every address space: 8 MB. -/
def kernelEnd : Nat := 0x800000

/-- **The invariant of process memory.** -/
structure KernelInv (grid : Prop) (image : KernelImage) (s : Kernel) (l : List Segment) (own : Owner → Option Nat) :
    Prop where
  layout : Layout grid image s.paging l own ∅
  current : CurrentOwned image s.paging own
  directories : ∀ i, (s.table i).live → ∃ x, own (.directory (s.table i).pageDirectory) = some x
  distinct : ∀ i j, (s.table i).live → (s.table j).live →
    (s.table i).pageDirectory = (s.table j).pageDirectory → i = j
  heapEnd : ∀ i, pageSize ∣ (s.table i).heapEnd
  running : ∀ i, s.currentProcess = some i → (s.table i).live

/-- Laid out, with given directories, a given current one and given notes. -/
def Steady (grid : Prop) (image : KernelImage) (own : Owner → Option Nat) (current : Nat) (made : List Made)
    (p : PagingState) : Prop :=
  ∃ l own', Layout grid image p l own' ∅ ∧ SameDirs own own' ∧ p.current = current ∧ p.made = made

section Pages

variable {grid : Prop} {image : KernelImage} {own : Owner → Option Nat} {current d flags i length virt x : Nat}
  {made : List Made} {p p' : PagingState}

/-! ### Page ranges -/

theorem dirIndex_bounds (above : kernelEnd ≤ virt) (small : virt < 2 ^ 32) :
    2 ≤ dirIndex virt ∧ dirIndex virt < pageEntries := by
  simp only [kernelEnd, dirIndex, pageEntries] at *
  omega

theorem pageVirt_lt : pageVirt virt i < 2 ^ 32 := Nat.mod_lt _ (by decide)

theorem dvd_pageVirt (aligned : pageSize ∣ virt) : pageSize ∣ pageVirt virt i := by
  simp only [pageVirt, pageSize] at *
  omega

/-- The current directory of a steady state is owned. -/
theorem currentOwned_of (known : current = image.directory ∨ ∃ x, own (.directory current) = some x)
    {own' : Owner → Option Nat} (dirs : SameDirs own own') (same : p.current = current) :
    CurrentOwned image p own' := by
  subst same
  rcases known with kernel | ⟨x, owned⟩
  · exact Or.inl kernel
  · exact Or.inr ⟨x, (dirs _).trans owned⟩

/-- Freeing a mapped page and unmapping it is steady. -/
theorem freeMapped_steady (on : grid) (known : current = image.directory ∨ ∃ x, own (.directory current) = some x)
    (aligned : pageSize ∣ virt) (above : kernelEnd ≤ pageVirt virt i)
    (steady : Steady grid image own current made p) (mapped : pagingGetPhysicalAddress p (pageVirt virt i) ≠ 0)
    {h : HeapState} (freed : kfree p.heap (pagingGetPhysicalAddress p (pageVirt virt i)) = .ok h) :
    Steady grid image own current made (pagingUnmapPage (p.withHeap h) (pageVirt virt i)) := by
  obtain ⟨l, own', layout, dirs, same, noted⟩ := steady
  obtain ⟨low, index⟩ := dirIndex_bounds above pageVirt_lt
  have whole := dvd_pageVirt (i := i) aligned
  obtain ⟨l', own'', next, dirs'⟩ := layout.freeMapped (currentOwned_of known dirs same) low index whole
    mapped (layout.unshadowed on (dvd_physicalAddress whole)) freed
  refine ⟨l', own'', next, dirs.trans dirs', ?_, ?_⟩
  · rw [current_unmapPage]
    exact same
  · rw [made_unmapPage]
    exact noted

/-- A loop whose rounds are steady is steady, however it ends. -/
theorem forLoop_steady {body : Nat → PagingState → Outcome (Round PagingState PagingState)} {n : Nat}
    (steady : Steady grid image own current made p)
    (step : ∀ i p round, i < n → Steady grid image own current made p → body i p = .ok round →
      round.Ends (Steady grid image own current made) (Steady grid image own current made))
    {round : Round PagingState PagingState} (done : forLoop body 0 n p = .ok round) :
    round.Ends (Steady grid image own current made) (Steady grid image own current made) :=
  @forLoop_inv _ _ body (fun _ => Steady grid image own current made) (Steady grid image own current made) 0 n p
    steady (fun i q r _ inside here body => step i q r (by omega) here body) _ done

/-! ### `process_munmap` -/

/-- One page of `process_munmap`: of the user's part, or the page at 0, which is left alone. -/
theorem munmapPage_steady (on : grid) (known : current = image.directory ∨ ∃ x, own (.directory current) = some x)
    (aligned : pageSize ∣ virt) (above : kernelEnd ≤ pageVirt virt i ∨ pageVirt virt i = 0)
    (steady : Steady grid image own current made p) {round : Round PagingState PagingState}
    (done : munmapPage virt i p = .ok round) :
    round.Ends (Steady grid image own current made) (Steady grid image own current made) := by
  unfold munmapPage at done
  by_cases mapped : pagingGetPhysicalAddress p (pageVirt virt i) = 0
  · rw [if_neg (not_not.mpr mapped)] at done
    cases done
    exact steady
  · rw [if_pos mapped] at done
    obtain ⟨h, freed, rest⟩ := Outcome.bind_eq_ok.mp done
    cases rest
    refine freeMapped_steady on known aligned (above.resolve_right fun zero => mapped ?_) steady mapped freed
    obtain ⟨l, own', layout, dirs, same, _⟩ := steady
    rw [zero]
    exact layout.physicalAddress_zero (currentOwned_of known dirs same)

/-! ### `process_mmap` -/

/-- One page of the cleanup of `process_mmap`. -/
theorem mmapCleanup_steady (on : grid) (known : current = image.directory ∨ ∃ x, own (.directory current) = some x)
    (aligned : pageSize ∣ virt) (above : kernelEnd ≤ pageVirt virt i)
    (steady : Steady grid image own current made p) {round : Round PagingState PagingState}
    (done : mmapCleanup virt i p = .ok round) :
    round.Ends (Steady grid image own current made) (Steady grid image own current made) := by
  unfold mmapCleanup at done
  by_cases mapped : pagingGetPhysicalAddress p (pageVirt virt i) = 0
  · rw [if_neg (not_not.mpr mapped)] at done
    cases done
    obtain ⟨l, own', layout, dirs, same, noted⟩ := steady
    obtain ⟨low, index⟩ := dirIndex_bounds above pageVirt_lt
    refine ⟨l, own', layout.unmapPage (currentOwned_of known dirs same) low index, dirs, ?_, ?_⟩
    · rw [current_unmapPage]
      exact same
    · rw [made_unmapPage]
      exact noted
  · rw [if_pos mapped] at done
    obtain ⟨h, freed, rest⟩ := Outcome.bind_eq_ok.mp done
    cases rest
    exact freeMapped_steady on known aligned above steady mapped freed

/-- The two ways of a round: without a page, what is mapped so far is taken back; else a page that nothing
owns is cleared, if asked, and mapped. -/
theorem mmapPage_cases {l : List Segment} {own' : Owner → Option Nat} {pageFlags : Nat}
    (layout : Layout grid image p l own' ∅) {round : Round PagingState PagingState}
    (done : mmapPage d virt pageFlags flags i p = .ok round) :
    (∃ q, round = .exit q ∧ (forLoop (mmapCleanup virt) 0 i p = .ok (.next q) ∨
      forLoop (mmapCleanup virt) 0 i p = .ok (.exit q))) ∨
    ∃ ptr l' p₁ q, round = .next q ∧ place pageSize l = some (ptr, l') ∧ Holds l' ptr pageSize ∧
      (∀ a, own' a ≠ some ptr) ∧ Layout grid image p₁ l' own' ∅ ∧ p₁.current = p.current ∧ p₁.made = p.made ∧
      (∀ t, Tracked image own' t → ∀ k < pageEntries, entry p₁.mem t k = entry p.mem t k) ∧
      pagingMapPageInDirectory p₁ d (pageVirt virt i) ptr pageFlags = .ok q := by
  obtain ⟨⟨h, ptr⟩, taken, rest⟩ := Outcome.bind_eq_ok.mp done
  simp only at rest
  rcases layout.take (by decide) (by decide) taken with
    ⟨rfl, rfl⟩ | ⟨l', placed, next, holds, fresh, kept⟩
  · rw [if_pos rfl] at rest
    obtain ⟨inner, loop, last⟩ := Outcome.bind_eq_ok.mp rest
    cases inner with
    | next q =>
        cases last
        exact .inl ⟨q, rfl, .inl loop⟩
    | exit q =>
        cases last
        exact .inl ⟨q, rfl, .inr loop⟩
  · have bounds := holds.bounds next.heap
    rw [if_neg (by omega)] at rest
    obtain ⟨q, mapped, last⟩ := Outcome.bind_eq_ok.mp rest
    cases last
    have plain : ∀ a, own' a = some ptr → a.structural = false := fun a found => absurd found (fresh a)
    refine .inr ⟨ptr, l', _, q, rfl, placed, holds, fresh, ?_, ?_, ?_, ?_, mapped⟩
    · split
      · exact next.scribble holds plain (fill_eqOn _ _ _ _)
      · exact next
    · split <;> rfl
    · split <;> rfl
    · split
      · intro t tracked k inside
        rw [PagingState.mem_write, next.entry_scribble holds plain (fill_eqOn _ _ _ _) tracked inside,
          PagingState.mem_withHeap, kept t tracked k inside]
      · exact kept

/-- One page of `process_mmap`: it is served and mapped, or everything is cleaned up. -/
theorem mmapPage_steady {l : List Segment} {own' : Owner → Option Nat}
    (known : current = image.directory ∨ ∃ x, own (.directory current) = some x)
    (owned : own (.directory d) = some x) (aligned : pageSize ∣ virt) {pageFlags : Nat}
    (small : pageFlags < pageSize) (above : ∀ j ≤ i, kernelEnd ≤ pageVirt virt j)
    (layout : Layout grid image p l own' ∅) (dirs : SameDirs own own') (same : p.current = current)
    {round : Round PagingState PagingState}
    (done : mmapPage d virt pageFlags flags i p = .ok round) :
    round.Ends (fun p' => ∃ l' own'', Layout grid image p' l' own'' ∅ ∧ SameDirs own own'' ∧
      p'.current = current ∧ Served l (.page :: linkRequests p.mem d (pageVirt virt i)) l' p p' ∧
      LinkedAt d (pageVirt virt i) p.mem p'.mem) (fun p' => grid → Steady grid image own current p.made p') := by
  rcases mmapPage_cases layout done with
    ⟨q, rfl, loop⟩ | ⟨ptr, l', p₁, q, rfl, placed, holds, fresh, laid, current₁, made₁, kept, mapped⟩
  · intro on
    have start : Steady grid image own current p.made p := ⟨l, own', layout, dirs, same, rfl⟩
    have step : ∀ j q r, j < i → Steady grid image own current p.made q → mmapCleanup virt j q = .ok r →
        r.Ends (Steady grid image own current p.made) (Steady grid image own current p.made) :=
      fun j q r less here body => mmapCleanup_steady on known aligned (above j (by omega)) here body
    rcases loop with loop | loop
    · exact forLoop_steady start step loop
    · exact forLoop_steady start step loop
  · obtain ⟨low, index⟩ := dirIndex_bounds (above i le_rfl) pageVirt_lt
    have owned' : own' (.directory d) = some x := (dirs d).trans owned
    have entries := kept d (Tracked.directory layout owned')
    have claimed := laid.claim holds fresh
    obtain ⟨l'', own'', last, dirs', current', serves, made', linked, _⟩ := claimed.mapPageInDirectory
      ((Function.update_of_ne (by simp) _ _).trans owned') low index small
      (Function.update_self _ _ _) mapped
    refine ⟨l'', own'', last, fun d' => ?_, current'.trans (current₁.trans same), Served.page placed ?_ rfl
      (made'.trans (by rw [made₁])), fun k inside => ?_⟩
    · rw [dirs' d', Function.update_of_ne (by simp), dirs]
    · rw [linkRequests, ← entries _ index]
      exact serves
    · rw [← entries k inside]
      exact linked k inside

/-- What `process_mmap` asks for: each page, and a table for the first page that needs it. -/
def mapRequests (m : Memory) (dir virt n : Nat) : List Request :=
  (List.range n).flatMap fun i =>
    .page :: if present (entry m dir (dirIndex (pageVirt virt i))) ∨
        ∃ j < i, dirIndex (pageVirt virt j) = dirIndex (pageVirt virt i) then [] else [.entries]

/-- Each page is asked for first. -/
theorem mapRequests_succ (m : Memory) (d virt i : Nat) : ∃ more,
    mapRequests m d virt (i + 1) = mapRequests m d virt i ++ .page :: more := by
  simp only [mapRequests, List.range_succ, List.flatMap_append, List.flatMap_singleton]
  exact ⟨_, rfl⟩

theorem mapRequests_le (m : Memory) (d virt : Nat) {j n : Nat} (le : j ≤ n) :
    ∃ more, mapRequests m d virt n = mapRequests m d virt j ++ more :=
  exists_append_of_le le

/-- `process_mmap` in progress: the first `n` pages are served and mapped. -/
structure Mapping (grid : Prop) (image : KernelImage) (own : Owner → Option Nat) (current d virt : Nat)
    (l : List Segment) (p : PagingState) (n : Nat) (p' : PagingState) (l' : List Segment)
    (own' : Owner → Option Nat) : Prop where
  layout : Layout grid image p' l' own' ∅
  dirs : SameDirs own own'
  current : p'.current = current
  served : Served l (mapRequests p.mem d virt n) l' p p'
  linked : ∀ k < pageEntries, present (entry p'.mem d k) = true ↔
    present (entry p.mem d k) = true ∨ ∃ j < n, dirIndex (pageVirt virt j) = k

/-- What the next round asks for: a page, and a table if none of the pages before it has brought it. -/
theorem Mapping.asked {l l' : List Segment} {own' : Owner → Option Nat} {p q : PagingState}
    (mapping : Mapping grid image own current d virt l p i q l' own')
    (index : dirIndex (pageVirt virt i) < pageEntries) :
    mapRequests p.mem d virt (i + 1) = mapRequests p.mem d virt i ++
      .page :: linkRequests q.mem d (pageVirt virt i) := by
  simp only [mapRequests, List.range_succ, List.flatMap_append, List.flatMap_singleton,
    linkRequests, mapping.linked _ index]

/-- One round of the loop: one more page is served and mapped, or everything is cleaned up. -/
theorem Mapping.step {l l' : List Segment} {own' : Owner → Option Nat} {p q : PagingState} {pageFlags : Nat}
    (mapping : Mapping grid image own current d virt l p i q l' own')
    (known : current = image.directory ∨ ∃ x, own (.directory current) = some x)
    (owned : own (.directory d) = some x) (aligned : pageSize ∣ virt) (small : pageFlags < pageSize)
    (above : ∀ j ≤ i, kernelEnd ≤ pageVirt virt j) {round : Round PagingState PagingState}
    (done : mmapPage d virt pageFlags flags i q = .ok round) :
    round.Ends (fun q' => ∃ l'' own'', Mapping grid image own current d virt l p (i + 1) q' l'' own'')
      (fun q' => grid → Steady grid image own current q.made q') := by
  obtain ⟨low, index⟩ := dirIndex_bounds (above i le_rfl) pageVirt_lt
  have step := mmapPage_steady known owned aligned small above mapping.layout mapping.dirs
    mapping.current done
  cases round with
  | exit q' => exact step
  | next q' =>
      obtain ⟨l'', own'', next, dirs, current', served, linked⟩ := step
      refine ⟨l'', own'', next, dirs, current', ?_, fun k high => ?_⟩
      · rw [mapping.asked index]
        exact mapping.served.trans served
      · rw [linked k high, mapping.linked k high, or_assoc]
        refine or_congr_right ⟨?_, ?_⟩
        · rintro (⟨j, less, here⟩ | rfl)
          · exact ⟨j, by omega, here⟩
          · exact ⟨i, by omega, rfl⟩
        · rintro ⟨j, less, rfl⟩
          rcases Nat.lt_succ_iff_lt_or_eq.mp less with earlier | rfl
          · exact Or.inl ⟨j, earlier, rfl⟩
          · exact Or.inr rfl

theorem Mapping.start {l : List Segment} (layout : Layout grid image p l own ∅) (same : p.current = current) :
    Mapping grid image own current d virt l p 0 p l own :=
  ⟨layout, fun _ => rfl, same, Serves.nil.served rfl, fun k _ => by simp⟩

/-- **The loop of `process_mmap`**: all pages mapped, or everything cleaned up. -/
theorem mmapPages_mapping {l : List Segment} {n pageFlags : Nat}
    (known : current = image.directory ∨ ∃ x, own (.directory current) = some x)
    (owned : own (.directory d) = some x) (aligned : pageSize ∣ virt) (small : pageFlags < pageSize)
    (above : ∀ j < n, kernelEnd ≤ pageVirt virt j) (layout : Layout grid image p l own ∅)
    (same : p.current = current) {round : Round PagingState PagingState}
    (done : forLoop (mmapPage d virt pageFlags flags) 0 n p = .ok round) :
    round.Ends (fun p' => ∃ l' own', Mapping grid image own current d virt l p n p' l' own')
      (fun p' => grid → (∃ made, Steady grid image own current made p') ∧
        Noted (userPages l (mapRequests p.mem d virt n)) p p') := by
  have invariant := @forLoop_inv _ _ (mmapPage d virt pageFlags flags)
    (fun i p' => ∃ l' own', Mapping grid image own current d virt l p i p' l' own')
    (fun p' => grid → (∃ made, Steady grid image own current made p') ∧
      Noted (userPages l (mapRequests p.mem d virt n)) p p') 0 n p
    ⟨l, own, .start layout same⟩
    (by
      rintro i q round - inside ⟨l', own', mapping⟩ body
      rw [Nat.zero_add] at inside
      have step := mapping.step known owned aligned small (fun j le => above j (by omega)) body
      cases round with
      | next q' => exact step
      | exit q' =>
          intro on
          refine ⟨⟨_, step on⟩, ?_⟩
          obtain ⟨_, _, _, _, _, made⟩ := step on
          obtain ⟨more, split⟩ := mapRequests_le p.mem d virt (Nat.le_of_lt inside)
          rw [split]
          exact mapping.served.noted (Noted.of_eq made)) _ done
  rwa [Nat.zero_add] at invariant

end Pages

section Kernel

variable {grid : Prop} {image : KernelImage} {s s' : Kernel} {l : List Segment} {own : Owner → Option Nat}
  {addr entryPoint flags length prot uid : Nat} {i j : Slot}

namespace KernelInv

/-- The current directory, as the loops need it. -/
theorem known (inv : KernelInv grid image s l own) :
    s.paging.current = image.directory ∨ ∃ x, own (.directory s.paging.current) = some x :=
  inv.current

theorem steady (inv : KernelInv grid image s l own) :
    Steady grid image own s.paging.current s.paging.made s.paging :=
  ⟨l, own, inv.layout, fun _ => rfl, rfl, rfl⟩

/-- **A change with the same directories**: live processes keep theirs. -/
theorem of_steady (inv : KernelInv grid image s l own) {made : List Made}
    (steady : Steady grid image own s.paging.current made s'.paging)
    (table : ∀ j, (s'.table j).live →
      (s.table j).live ∧ (s'.table j).pageDirectory = (s.table j).pageDirectory)
    (ends : ∀ j, pageSize ∣ (s'.table j).heapEnd)
    (running : ∀ j, s'.currentProcess = some j → (s'.table j).live) :
    ∃ l' own', KernelInv grid image s' l' own' := by
  obtain ⟨l', own', layout, dirs, same, _⟩ := steady
  refine ⟨l', own', layout, currentOwned_of inv.known dirs same, fun j live => ?_,
    fun j k liveJ liveK equal => ?_, ends, running⟩
  · obtain ⟨before, kept⟩ := table j live
    rw [kept, dirs]
    exact inv.directories j before
  · obtain ⟨beforeJ, keptJ⟩ := table j liveJ
    obtain ⟨beforeK, keptK⟩ := table k liveK
    rw [keptJ, keptK] at equal
    exact inv.distinct j k beforeJ beforeK equal

/-- A change of one control block that keeps its state and directory. -/
theorem modify_steady (inv : KernelInv grid image s l own) {p : PagingState} {made : List Made}
    (steady : Steady grid image own s.paging.current made p) {f : Pcb → Pcb}
    (state : (f (s.table i)).state = (s.table i).state)
    (directory : (f (s.table i)).pageDirectory = (s.table i).pageDirectory)
    (ends : pageSize ∣ (f (s.table i)).heapEnd) :
    ∃ l' own', KernelInv grid image ((s.withPaging p).modify i f) l' own' := by
  have slot := fun j => (s.withPaging p).modify_table i j f
  simp only [Kernel.withPaging_table] at slot
  refine inv.of_steady steady (fun j => ?_) (fun j => ?_) fun j current => ?_
  · rw [slot]
    split
    · next same =>
        rw [same, Pcb.live, state, directory]
        exact fun live => ⟨live, rfl⟩
    · exact fun live => ⟨live, rfl⟩
  · rw [slot]
    split
    · exact ends
    · exact inv.heapEnd j
  · have live := inv.running j current
    rw [slot]
    split
    · next same =>
        rw [Pcb.live, state, ← same]
        exact live
    · exact live

end KernelInv

/-! ### `process_mmap`, `process_munmap`, `process_brk` -/

/-- A range of pages lies above the kernel's part. -/
def AboveKernel (virt n : Nat) : Prop := ∀ k < n, kernelEnd ≤ pageVirt virt k

/-- A range of pages lies above the kernel's part, but perhaps for the page at 0. -/
def AboveOrNull (virt n : Nat) : Prop := ∀ k < n, kernelEnd ≤ pageVirt virt k ∨ pageVirt virt k = 0

theorem dvd_mmapVirt (inv : KernelInv grid image s l own) : pageSize ∣ mmapVirt (s.table i) addr := by
  unfold mmapVirt
  split
  · exact dvd_frame
  · exact inv.heapEnd i

/-- **`process_mmap`** above the kernel's part. If it fails, it has freed what it took. -/
theorem KernelInv.mmap (inv : KernelInv grid image s l own) (live : (s.table i).live)
    (above : AboveKernel (mmapVirt (s.table i) addr) (pagesNeeded length)) {result : Nat}
    (on : result = mapFailed → grid)
    (done : processMmap s (some i) addr length prot flags = .ok (s', result)) :
    (∃ l' own', KernelInv grid image s' l' own') ∧
      Noted (userPages l (mapRequests s.paging.mem (s.table i).pageDirectory
        (mmapVirt (s.table i) addr) (pagesNeeded length))) s.paging s'.paging := by
  obtain ⟨x, owned⟩ := inv.directories i live
  have aligned : pageSize ∣ mmapVirt (s.table i) addr := dvd_mmapVirt inv
  have small : (if prot &&& protWrite ≠ 0 then pageUser ||| pageWrite else pageUser) < pageSize := by
    split <;> decide
  cases processMmap_way done with
  | nothing empty => exact ⟨⟨l, own, inv⟩, Noted.of_eq rfl⟩
  | failed asked loop =>
      obtain ⟨⟨made, steady⟩, noted⟩ :=
        mmapPages_mapping inv.known owned aligned small above inv.layout rfl loop (on rfl)
      exact ⟨inv.of_steady steady (fun j liveJ => ⟨liveJ, rfl⟩) inv.heapEnd inv.running, noted⟩
  | @done p asked loop =>
      obtain ⟨l', own', mapping⟩ := mmapPages_mapping inv.known owned aligned small above inv.layout rfl loop
      have steady : Steady grid image own s.paging.current p.made p :=
        ⟨l', own', mapping.layout, mapping.dirs, mapping.current, rfl⟩
      refine ⟨inv.modify_steady steady rfl rfl ?_, mapping.served.noted_all rfl⟩
      have ends : pageSize ∣ mmapEnd (s.table i) addr length := by
        simp only [mmapEnd, pageSize] at *
        omega
      rcases max_cases (s.table i).heapEnd (mmapEnd (s.table i) addr length) with ⟨same, _⟩ | ⟨same, _⟩
      · rw [same]
        exact inv.heapEnd i
      · rw [same]
        exact ends

/-- `process_munmap` above the kernel's part changes the paging state only. -/
theorem KernelInv.munmap (inv : KernelInv grid image s l own) (on : grid) {proc : Option Slot}
    (above : addr ≠ 0 → AboveOrNull (frame addr) (pagesNeeded length)) {result : Int}
    (done : processMunmap s proc addr length = .ok (s', result)) :
    ∃ p, s' = s.withPaging p ∧ Steady grid image own s.paging.current s.paging.made p := by
  cases processMunmap_way done with
  | nothing refused => exact ⟨s.paging, rfl, inv.steady⟩
  | @done p asked loop =>
      have nonzero : addr ≠ 0 := fun zero => asked (Or.inr (Or.inl zero))
      have steady := forLoop_steady inv.steady (fun k p round less here body =>
        munmapPage_steady on inv.known dvd_frame (above nonzero k less) here body) loop
      exact ⟨p, rfl, steady⟩

theorem Steady.noted {p p' : PagingState} {current : Nat} {given : List Nat}
    (steady : Steady grid image own current p.made p') : Noted given p p' := by
  obtain ⟨_, _, _, _, _, same⟩ := steady
  exact Noted.of_eq same

/-- The pages `process_brk` maps: the first and how many. -/
def brkMapped (proc : Pcb) (addr : Nat) : Nat × Nat :=
  if addr ≠ 0 ∧ proc.heapEnd < newBrk addr then
    (mmapVirt proc proc.heapEnd, pagesNeeded (newBrk addr - proc.heapEnd))
  else (0, 0)

/-- The pages `process_munmap` unmaps: the first and how many. -/
def munmapped (addr length : Nat) : Nat × Nat :=
  if addr ≠ 0 then (frame addr, pagesNeeded length) else (0, 0)

/-- The pages `process_brk` unmaps: the first and how many. -/
def brkUnmapped (proc : Pcb) (addr : Nat) : Nat × Nat :=
  if addr ≠ 0 ∧ newBrk addr < proc.heapEnd then munmapped (newBrk addr) (proc.heapEnd - newBrk addr)
  else (0, 0)

/-- **`process_brk`** above the kernel's part. -/
theorem KernelInv.brk (inv : KernelInv grid image s l own) (on : grid) (live : (s.table i).live)
    (maps : AboveKernel (brkMapped (s.table i) addr).1 (brkMapped (s.table i) addr).2)
    (unmaps : AboveOrNull (brkUnmapped (s.table i) addr).1 (brkUnmapped (s.table i) addr).2)
    {result : Nat} (done : processBrk s (some i) addr = .ok (s', result)) :
    (∃ l' own', KernelInv grid image s' l' own') ∧
      Noted (userPages l (mapRequests s.paging.mem (s.table i).pageDirectory
        (brkMapped (s.table i) addr).1 (brkMapped (s.table i) addr).2)) s.paging s'.paging := by
  cases processBrk_way done with
  | query null => exact ⟨⟨l, own, inv⟩, Noted.of_eq rfl⟩
  | failed asked grows mmap =>
      rw [brkMapped, if_pos ⟨asked, grows⟩] at maps ⊢
      exact inv.mmap live maps (fun _ => on) mmap
  | grown asked grows mmap found =>
      rw [brkMapped, if_pos ⟨asked, grows⟩] at maps ⊢
      exact inv.mmap live maps (fun _ => on) mmap
  | shrunk asked shrinks munmap =>
      rw [brkUnmapped, if_pos ⟨asked, shrinks⟩, munmapped] at unmaps
      obtain ⟨p, rfl, steady⟩ := inv.munmap on (fun nonzero => by rwa [if_pos nonzero] at unmaps) munmap
      exact ⟨inv.modify_steady steady rfl rfl dvd_frame, steady.noted⟩
  | kept asked same => exact ⟨⟨l, own, inv⟩, Noted.of_eq rfl⟩

/-! ### `process_set_current` -/

/-- A live process changes its state and stays live. -/
theorem KernelInv.setState (inv : KernelInv grid image s l own) (live : (s.table i).live)
    {state : ProcessState} (alive : state ≠ .unused ∧ state ≠ .zombie) :
    KernelInv grid image (s.modify i fun proc => { proc with state := state }) l own := by
  generalize target : (s.modify i fun proc => { proc with state := state }) = s'
  have slot : ∀ j, s'.table j = if j = i then { s.table i with state := state } else s.table j :=
    fun j => by rw [← target, Kernel.modify_table]
  have directory : ∀ j, (s'.table j).pageDirectory = (s.table j).pageDirectory := fun j => by
    rw [slot]
    split
    · next same => rw [same]
    · rfl
  have before : ∀ j, (s'.table j).live → (s.table j).live := fun j => by
    rw [slot]
    split
    · next same => exact fun _ => same ▸ live
    · exact id
  have paging : s'.paging = s.paging := by rw [← target, Kernel.modify]
  refine ⟨paging ▸ inv.layout, paging ▸ inv.current, fun j liveJ => ?_, fun j k liveJ liveK equal => ?_,
    fun j => ?_, fun j current => ?_⟩
  · rw [directory]
    exact inv.directories j (before j liveJ)
  · rw [directory, directory] at equal
    exact inv.distinct j k (before j liveJ) (before k liveK) equal
  · rw [slot]
    split
    · exact inv.heapEnd i
    · exact inv.heapEnd j
  · rw [slot]
    split
    · exact alive
    · refine inv.running j ?_
      rw [← current, ← target, Kernel.modify]

/-- The processor switches to the directory of a live process. -/
theorem KernelInv.switch (inv : KernelInv grid image s l own) (live : (s.table i).live) :
    KernelInv grid image { s with
      currentProcess := some i
      paging := pagingSwitchDirectory s.paging (s.table i).pageDirectory } l own := by
  obtain ⟨x, owned⟩ := inv.directories i live
  have positive := directory_pos inv.layout owned
  have switched : pagingSwitchDirectory s.paging (s.table i).pageDirectory =
      { s.paging with current := (s.table i).pageDirectory } := if_neg (by omega)
  rw [switched]
  refine ⟨?_, Or.inr ⟨x, owned⟩, inv.directories, inv.distinct, inv.heapEnd, fun j current => ?_⟩
  · have layout := inv.layout
    exact ⟨layout.heap, layout.spaced, layout.kernel, layout.inj, layout.held, layout.placed,
      layout.shared, layout.tables, layout.pages⟩
  · obtain rfl := Option.some.inj current
    exact live

/-- **`process_set_current`** of a live process. -/
theorem KernelInv.setCurrent (inv : KernelInv grid image s l own) (live : (s.table i).live) :
    KernelInv grid image (processSetCurrent s i) l own := by
  have ready : ProcessState.ready ≠ .unused ∧ ProcessState.ready ≠ .zombie := by decide
  have running : ProcessState.running ≠ .unused ∧ ProcessState.running ≠ .zombie := by decide
  -- the process that stops running, if there is another one
  have preempted : ∀ s', KernelInv grid image s' l own → (s'.table i).live →
      KernelInv grid image (let s' := { s' with currentProcess := some i }
        let s' := s'.modify i fun proc => { proc with state := .running }
        s'.withPaging (pagingSwitchDirectory s'.paging (s'.table i).pageDirectory)) l own := by
    intro s' inv' live'
    refine (inv'.setState live' running).switch ?_
    rw [Kernel.modify_self]
    exact running
  unfold processSetCurrent
  cases current : s.currentProcess with
  | none => exact preempted s inv live
  | some j =>
      by_cases other : j = i
      · simp only [other, ne_eq, not_true, if_false]
        exact preempted s inv live
      · simp only [ne_eq, other, not_false_iff, if_true]
        refine preempted _ (inv.setState (inv.running j current) ready) ?_
        rw [Kernel.modify_table, if_neg (Ne.symm other)]
        exact live

theorem made_setCurrent : (processSetCurrent s i).paging.made = s.paging.made := by
  have switched : ∀ (p : PagingState) (d : Nat), (pagingSwitchDirectory p d).made = p.made := by
    intro p d
    unfold pagingSwitchDirectory
    split <;> rfl
  unfold processSetCurrent
  cases current : s.currentProcess with
  | none => exact switched _ _
  | some j =>
      refine (switched _ _).trans ?_
      simp only
      split <;> rfl

/-! ### `process_create` and `process_fork` -/

theorem processAllocSlot_unused (found : processAllocSlot s = some i) :
    (s.table i).state = .unused := by
  have test := List.find?_some found
  simpa using test

theorem not_live_of_unused {proc : Pcb} (unused : proc.state = .unused) : ¬ proc.live :=
  fun live => live.1 unused

/-- All control blocks but one keep their state, directory and heap. -/
def KeepsOthers (s s' : Kernel) (i : Slot) : Prop :=
  s'.currentProcess = s.currentProcess ∧ ∀ j, j ≠ i → (s'.table j).state = (s.table j).state ∧
    (s'.table j).pageDirectory = (s.table j).pageDirectory ∧
    (s'.table j).heapEnd = (s.table j).heapEnd

theorem KeepsOthers.live (others : KeepsOthers s s' i) (other : j ≠ i) :
    (s'.table j).live ↔ (s.table j).live := by
  unfold Pcb.live
  rw [(others.2 j other).1]

/-- The current process is live, so it is not the one whose slot was unused. -/
theorem KeepsOthers.running (others : KeepsOthers s s' i) (inv : KernelInv grid image s l own)
    (unused : (s.table i).state = .unused) (current : s'.currentProcess = some j) :
    (s'.table j).live := by
  rw [others.1] at current
  have live := inv.running j current
  have other : j ≠ i := by
    rintro rfl
    exact not_live_of_unused unused live
  exact (others.live other).mpr live

/-- **A failed call**: the slot is unused again, and the directories are the same. -/
theorem KernelInv.of_failed (inv : KernelInv grid image s l own) (unused : (s.table i).state = .unused)
    {made : List Made} (steady : Steady grid image own s.paging.current made s'.paging)
    (others : KeepsOthers s s' i)
    (discarded : (s'.table i).state = .unused) (ends : pageSize ∣ (s'.table i).heapEnd) :
    ∃ l' own', KernelInv grid image s' l' own' := by
  refine inv.of_steady steady (fun j live => ?_) (fun j => ?_) fun j => others.running inv unused
  · by_cases new : j = i
    · rw [new] at live
      exact absurd live (not_live_of_unused discarded)
    · exact ⟨(others.live new).mp live, (others.2 j new).2.1⟩
  · by_cases new : j = i
    · rwa [new]
    · rw [(others.2 j new).2.2]
      exact inv.heapEnd j

/-- **A new process** with one more directory. -/
theorem KernelInv.of_new (inv : KernelInv grid image s l own) (unused : (s.table i).state = .unused)
    {l' : List Segment} {own' : Owner → Option Nat} {d x : Nat}
    (layout : Layout grid image s'.paging l' own' ∅) (fresh : own (.directory d) = none)
    (owned : own' (.directory d) = some x) (dirs : SameDirsBut d own own')
    (same : s'.paging.current = s.paging.current) (others : KeepsOthers s s' i)
    (mine : (s'.table i).pageDirectory = d) (ends : pageSize ∣ (s'.table i).heapEnd) :
    KernelInv grid image s' l' own' := by
  -- an owned directory is another one than the new one, and is still owned
  have old : ∀ d' y, own (.directory d') = some y → d' ≠ d ∧ own' (.directory d') = some y := by
    intro d' y found
    have other : d' ≠ d := by
      rintro rfl
      rw [fresh] at found
      cases found
    exact ⟨other, (dirs d' other).trans found⟩
  have kept : ∀ j, j ≠ i → (s'.table j).live →
      (s.table j).live ∧ (s'.table j).pageDirectory = (s.table j).pageDirectory := fun j other live =>
    ⟨(others.live other).mp live, (others.2 j other).2.1⟩
  have apart : ∀ j, j ≠ i → (s'.table j).live → (s'.table j).pageDirectory ≠ d := by
    intro j other live
    obtain ⟨before, directory⟩ := kept j other live
    obtain ⟨y, found⟩ := inv.directories j before
    rw [directory]
    exact (old _ y found).1
  refine ⟨layout, ?_, fun j live => ?_, fun j k liveJ liveK equal => ?_, fun j => ?_,
    fun j => others.running inv unused⟩
  · rcases inv.current with kernel | ⟨y, found⟩
    · exact Or.inl (same.trans kernel)
    · exact Or.inr ⟨y, by rw [same]; exact (old _ y found).2⟩
  · by_cases new : j = i
    · rw [new, mine]
      exact ⟨x, owned⟩
    · obtain ⟨before, directory⟩ := kept j new live
      obtain ⟨y, found⟩ := inv.directories j before
      rw [directory]
      exact ⟨y, (old _ y found).2⟩
  · by_cases newJ : j = i
    · by_cases newK : k = i
      · rw [newJ, newK]
      · rw [newJ, mine] at equal
        exact absurd equal.symm (apart k newK liveK)
    · by_cases newK : k = i
      · rw [newK, mine] at equal
        exact absurd equal (apart j newJ liveJ)
      · obtain ⟨beforeJ, keptJ⟩ := kept j newJ liveJ
        obtain ⟨beforeK, keptK⟩ := kept k newK liveK
        rw [keptJ, keptK] at equal
        exact inv.distinct j k beforeJ beforeK equal
  · by_cases new : j = i
    · rwa [new]
    · rw [(others.2 j new).2.2]
      exact inv.heapEnd j

/-- A directory made and destroyed again leaves the old ones. -/
theorem sameDirs_of_but {d : Nat} {own₁ own₂ : Owner → Option Nat} (fresh : own (.directory d) = none)
    (made : SameDirsBut d own own₁) (lost : own₂ (.directory d) = none)
    (others : SameDirsBut d own₁ own₂) : SameDirs own own₂ := by
  intro d'
  by_cases same : d' = d
  · rw [same, lost, fresh]
  · rw [others d' same, made d' same]

/-- What `process_create` asks for: the directory, both stacks, a table for the user's. -/
def createRequests (s : Kernel) : List Request :=
  match processAllocSlot s with
  | none => []
  | some _ => [.entries, .stack, .page, .entries]

theorem KeepsOthers.filled {u : Kernel} {proc : Pcb} {q : PagingState} (others : KeepsOthers s u i) :
    KeepsOthers s (u.filled i proc q) i := by
  refine ⟨others.1, fun j other => ?_⟩
  rw [Kernel.filled_other other]
  exact others.2 j other

theorem keepsOthers_allocPid (s : Kernel) (i : Slot) : KeepsOthers s (processAllocPid s).1 i :=
  ⟨rfl, fun _ _ => ⟨rfl, rfl, rfl⟩⟩

/-- The parent gets another first child. -/
theorem keepsOthers_linked {p : Slot} (apart : p ≠ i) : KeepsOthers s (s.linked p i) i := by
  refine ⟨rfl, fun j other => ?_⟩
  by_cases parent : j = p
  · rw [parent, Kernel.linked_parent apart]
    exact ⟨rfl, rfl, rfl⟩
  · rw [Kernel.linked_other parent other]
    exact ⟨rfl, rfl, rfl⟩

/-- The slot that was filled is given back. -/
theorem KernelInv.given_back {u : Kernel} {proc : Pcb} {q : PagingState} (inv : KernelInv grid image s l own)
    (unused : (s.table i).state = .unused) (others : KeepsOthers s u i) {made : List Made}
    (steady : Steady grid image own s.paging.current made q) (discarded : proc.state = .unused)
    (ends : pageSize ∣ proc.heapEnd) : ∃ l' own', KernelInv grid image (u.filled i proc q) l' own' := by
  refine inv.of_failed unused steady others.filled ?_ ?_
  · rwa [Kernel.filled_self]
  · rwa [Kernel.filled_self]

/-- **`process_create`**. If it fails, it has freed what it took. -/
theorem KernelInv.create (inv : KernelInv grid image s l own) {result : Option Slot}
    (on : result = none → grid)
    (done : processCreate image s entryPoint uid = .ok (s', result)) :
    (∃ l' own', KernelInv grid image s' l' own') ∧
      Noted (userPages l (createRequests s)) s.paging s'.paging := by
  unfold createRequests
  cases processCreate_way done with
  | noSlot full =>
      rw [full]
      exact ⟨⟨l, own, inv⟩, Noted.of_eq rfl⟩
  | noDirectory slot created =>
      rw [slot]
      have unused := processAllocSlot_unused slot
      rcases inv.layout.createDirectory created with ⟨-, rfl⟩ | ⟨_, _, _, _, layout, _, owned, _⟩
      · exact ⟨inv.given_back unused (keepsOthers_allocPid s _) inv.steady rfl (dvd_zero _), Noted.of_eq rfl⟩
      · exact absurd rfl (directory_pos layout owned).ne
  | noStack slot created directory first destroyed =>
      rw [slot]
      have unused := processAllocSlot_unused slot
      obtain ⟨l₁, own₁, x, placed₁, layout, fresh, owned, others, current, made₁, _⟩ :=
        (inv.layout.createDirectory created).resolve_left fun null => directory null.1
      have served := (Serves.entries placed₁).served made₁
      rcases layout.take (by decide) (by decide) first with ⟨-, rfl⟩ | ⟨l₂, placed, _⟩
      · obtain ⟨l₂, own₂, layout₂, lost, dirs, current₂⟩ := layout.destroyDirectory (on rfl) owned destroyed
        exact ⟨inv.given_back unused (keepsOthers_allocPid s _) ⟨l₂, own₂, layout₂,
          sameDirs_of_but fresh others lost dirs, current₂.trans current, rfl⟩ rfl (dvd_zero _),
          served.noted (Noted.of_eq (made_destroyDirectory destroyed))⟩
      · exact absurd rfl (place_ne_null placed)
  | noPage slot created directory first found second freed destroyed =>
      rw [slot]
      have unused := processAllocSlot_unused slot
      obtain ⟨l₁, own₁, x, placed₁, layout, fresh, owned, others, current, made₁, _⟩ :=
        (inv.layout.createDirectory created).resolve_left fun null => directory null.1
      obtain ⟨l₂, placed, layout₂, holds, freshStack, _⟩ :=
        (layout.take (by decide) (by decide) first).resolve_left fun null => found null.1
      have served := ((Serves.entries placed₁).served made₁).trans ((Serves.stack placed).served rfl)
      rcases layout₂.take (by decide) (by decide) second with ⟨-, rfl⟩ | ⟨l₃, placed₃, _⟩
      · obtain ⟨l₄, layout₄⟩ := layout₂.freeExact holds freshStack freed
        obtain ⟨l₅, own₅, layout₅, lost, dirs, current₅⟩ := layout₄.destroyDirectory (on rfl) owned destroyed
        exact ⟨inv.given_back unused (keepsOthers_allocPid s _) ⟨l₅, own₅, layout₅,
          sameDirs_of_but fresh others lost dirs, current₅.trans current, rfl⟩ rfl (dvd_zero _),
          served.noted (Noted.of_eq (made_destroyDirectory destroyed :))⟩
      · exact absurd rfl (place_ne_null placed₃)
  | made slot created directory first found second given mapped =>
      rw [slot]
      have unused := processAllocSlot_unused slot
      obtain ⟨l₁, own₁, x, placed₁, layout, fresh, owned, others, current, made₁, _⟩ :=
        (inv.layout.createDirectory created).resolve_left fun null => directory null.1
      obtain ⟨l₂, placed, layout₂, _, _, _⟩ :=
        (layout.take (by decide) (by decide) first).resolve_left fun null => found null.1
      obtain ⟨l₃, placed₃, layout₃, holdsPage, freshPage, _⟩ :=
        (layout₂.take (by decide) (by decide) second).resolve_left fun null => given null.1
      have served := ((Serves.entries placed₁).served made₁).trans ((Serves.stack placed).served rfl)
      obtain ⟨l₄, own₄, layout₄, dirs, current₄, _, made, _⟩ := (layout₃.claim holdsPage freshPage).mapPageInDirectory
        ((Function.update_of_ne (by simp) _ _).trans owned) (by decide) (by decide) (by decide)
        (Function.update_self _ _ _) mapped
      have dirs' : ∀ d, own₄ (.directory d) = own₁ (.directory d) := fun d => by
        rw [dirs, Function.update_of_ne (by simp)]
      refine ⟨⟨l₄, own₄, inv.of_new unused layout₄ fresh ((dirs' _).trans owned)
        (fun d other => (dirs' d).trans (others d other)) (current₄.trans current)
        (keepsOthers_allocPid s _).filled ?_ ?_⟩,
        (served.trans (Served.page placed₃ Serves.nil rfl made)).noted (Noted.of_eq rfl)⟩
      · rw [Kernel.filled_self]
        rfl
      · rw [Kernel.filled_self]
        show pageSize ∣ 0x08080000
        decide

/-- What `process_fork` asks for: the copy of the parent's directory, then the kernel stack. -/
def forkRequests (s : Kernel) (parent : Slot) : List Request :=
  match processAllocSlot s with
  | none => []
  | some _ =>
      .entries :: (cloneRequests s.paging.mem (s.table parent).pageDirectory pageEntries ++ [.stack])

/-- **`process_fork`** of a live process. -/
theorem KernelInv.fork (inv : KernelInv grid image s l own) (on : grid) (live : (s.table j).live) {result : Option Slot}
    (done : processFork s (some j) = .ok (s', result)) :
    (∃ l' own', KernelInv grid image s' l' own') ∧
      Noted (userPages l (forkRequests s j)) s.paging s'.paging := by
  have apart : ∀ {i}, processAllocSlot s = some i → j ≠ i := by
    rintro i slot rfl
    exact not_live_of_unused (processAllocSlot_unused slot) live
  have ends : ∀ {i}, j ≠ i → pageSize ∣ ((s.linked j i).table i).heapEnd := by
    intro i other
    rw [Kernel.linked_child other]
    exact inv.heapEnd j
  obtain ⟨x, source⟩ := inv.directories j live
  unfold forkRequests
  cases processFork_way done with
  | noSlot full =>
      rw [full]
      exact ⟨⟨l, own, inv⟩, Noted.of_eq rfl⟩
  | noDirectory slot cloned =>
      rw [slot]
      have other := apart slot
      obtain ⟨l₁, own₁, layout, current, ⟨-, dirs, noted⟩ | ⟨nonzero, _⟩⟩ := inv.layout.cloneDirectory on source cloned
      · exact ⟨inv.given_back (processAllocSlot_unused slot) (keepsOthers_linked other)
          ⟨l₁, own₁, layout, dirs, current, rfl⟩ rfl (ends other), noted _⟩
      · exact absurd rfl nonzero
  | noStack slot cloned directory taken destroyed =>
      rw [slot]
      have other := apart slot
      obtain ⟨l₁, own₁, layout, current, ⟨null, _⟩ | ⟨_, fresh, ⟨y, owned⟩, dirs, served⟩⟩ :=
        inv.layout.cloneDirectory on source cloned
      · exact absurd null directory
      rcases layout.take (by decide) (by decide) taken with ⟨-, rfl⟩ | ⟨l₂, placed, _⟩
      · obtain ⟨l₂, own₂, layout₂, lost, dirs₂, current₂⟩ := layout.destroyDirectory on owned destroyed
        refine ⟨inv.given_back (processAllocSlot_unused slot) (keepsOthers_linked other) ⟨l₂, own₂, layout₂,
          sameDirs_of_but fresh dirs lost dirs₂, current₂.trans current, rfl⟩ rfl (ends other), ?_⟩
        rw [← List.cons_append]
        exact served.noted (Noted.of_eq (made_destroyDirectory destroyed))
      · exact absurd rfl (place_ne_null placed)
  | @made _ p h _ stack origin slot cloned directory taken found _ =>
      rw [slot]
      have other := apart slot
      obtain ⟨l₁, own₁, layout, current, ⟨null, _⟩ | ⟨_, fresh, ⟨y, owned⟩, dirs, served⟩⟩ :=
        inv.layout.cloneDirectory on source cloned
      · exact absurd null directory
      obtain ⟨l₂, placed, layout₂, holds, freshStack, _⟩ :=
        (layout.take (by decide) (by decide) taken).resolve_left fun null => found null.1
      have copied := layout₂.scribble holds (fun a found => absurd found (freshStack a))
        (copy_eqOn (p.withHeap h).mem stack origin pageSize)
      refine ⟨⟨l₂, own₁, inv.of_new (processAllocSlot_unused slot) copied fresh owned dirs current
        (keepsOthers_linked other).filled ?_ ?_⟩, ?_⟩
      · rw [Kernel.filled_self]
      · rw [Kernel.filled_self]
        exact ends other
      · rw [← List.cons_append]
        exact served.noted (Noted.of_eq rfl)

/-! ### Every operation -/

/-- The processes an operation is called for are live. -/
def Called (s : Kernel) : MemOp → Prop
  | .create _ _ => True
  | .fork parent => (s.table parent).live
  | .mmap proc _ _ _ _ => (s.table proc).live
  | .munmap proc _ _ => (s.table proc).live
  | .brk proc _ => (s.table proc).live
  | .sysMmap _ _ _ _ => True
  | .sysBrk _ => True
  | .setCurrent proc => (s.table proc).live

/-- The call a system call makes for the current process, if there is one. -/
def resolve (s : Kernel) : MemOp → Option MemOp
  | .sysMmap addr length prot flags =>
      s.currentProcess.map fun proc => .mmap proc addr length prot flags
  | .sysBrk addr => s.currentProcess.map fun proc => .brk proc addr
  | op => some op

/-- The pages a call maps: the directory, the first page and how many. -/
def mapped (s : Kernel) : MemOp → Nat × Nat × Nat
  | .mmap proc addr length _ _ =>
      ((s.table proc).pageDirectory, mmapVirt (s.table proc) addr, pagesNeeded length)
  | .brk proc addr => ((s.table proc).pageDirectory, brkMapped (s.table proc) addr)
  | _ => (0, 0, 0)

/-- The pages a call unmaps: the first and how many. -/
def unmapped (s : Kernel) : MemOp → Nat × Nat
  | .munmap _ addr length => munmapped addr length
  | .brk proc addr => brkUnmapped (s.table proc) addr
  | _ => (0, 0)

/-- **An operation leaves the kernel's part alone**: the pages it maps lie above, and so do those it
unmaps, but for the page at 0. -/
def TouchesUser (s : Kernel) (op : MemOp) : Prop :=
  ∀ call, resolve s op = some call →
    AboveKernel (mapped s call).2.1 (mapped s call).2.2 ∧
      AboveOrNull (unmapped s call).1 (unmapped s call).2

/-- What an operation asks of the heap. -/
def requests (s : Kernel) (op : MemOp) : List Request :=
  match resolve s op with
  | none => []
  | some (.create _ _) => createRequests s
  | some (.fork parent) => forkRequests s parent
  | some call => mapRequests s.paging.mem (mapped s call).1 (mapped s call).2.1 (mapped s call).2.2

/-- **Every operation keeps the invariant** when it returns, and the pages it notes are among those
first fit gives. -/
theorem KernelInv.exec (inv : KernelInv grid image s l own) (on : grid) {op : MemOp} (called : Called s op)
    (above : TouchesUser s op) (done : exec image s op = .ok s') :
    (∃ l' own', KernelInv grid image s' l' own') ∧
      Noted (userPages l (requests s op)) s.paging s'.paging := by
  cases op with
  | create entryPoint uid =>
      obtain ⟨⟨s₁, result⟩, call, rest⟩ := Outcome.bind_eq_ok.mp done
      cases rest
      exact inv.create (fun _ => on) call
  | fork parent =>
      obtain ⟨⟨s₁, result⟩, call, rest⟩ := Outcome.bind_eq_ok.mp done
      cases rest
      exact inv.fork on called call
  | mmap proc addr length prot flags =>
      obtain ⟨⟨s₁, result⟩, call, rest⟩ := Outcome.bind_eq_ok.mp done
      cases rest
      exact inv.mmap called (above _ rfl).1 (fun _ => on) call
  | munmap proc addr length =>
      obtain ⟨⟨s₁, result⟩, call, rest⟩ := Outcome.bind_eq_ok.mp done
      cases rest
      obtain ⟨p, rfl, steady⟩ := inv.munmap on (fun nonzero => by
        have unmaps := (above _ rfl).2
        rwa [unmapped, munmapped, if_pos nonzero] at unmaps) call
      exact ⟨inv.of_steady steady (fun _ live => ⟨live, rfl⟩) inv.heapEnd inv.running, steady.noted⟩
  | brk proc addr =>
      obtain ⟨⟨s₁, result⟩, call, rest⟩ := Outcome.bind_eq_ok.mp done
      cases rest
      exact inv.brk on called (above _ rfl).1 (above _ rfl).2 call
  | sysMmap addr length prot flags =>
      obtain ⟨⟨s₁, result⟩, call, rest⟩ := Outcome.bind_eq_ok.mp done
      cases rest
      unfold sysMmap at call
      cases current : s.currentProcess with
      | none =>
          rw [current] at call
          cases call
          exact ⟨⟨l, own, inv⟩, Noted.of_eq rfl⟩
      | some proc =>
          rw [current] at call
          have resolved : resolve s (.sysMmap addr length prot flags) =
              some (.mmap proc addr length prot flags) := by rw [resolve, current, Option.map_some]
          rw [requests, resolved]
          exact inv.mmap (inv.running proc current) (above _ resolved).1 (fun _ => on) call
  | sysBrk addr =>
      obtain ⟨⟨s₁, result⟩, call, rest⟩ := Outcome.bind_eq_ok.mp done
      cases rest
      unfold sysBrk at call
      cases current : s.currentProcess with
      | none =>
          rw [current] at call
          cases call
          exact ⟨⟨l, own, inv⟩, Noted.of_eq rfl⟩
      | some proc =>
          rw [current] at call
          have resolved : resolve s (.sysBrk addr) = some (.brk proc addr) := by
            rw [resolve, current, Option.map_some]
          rw [requests, resolved]
          exact inv.brk on (inv.running proc current) (above _ resolved).1 (above _ resolved).2 call
  | setCurrent proc =>
      cases done
      refine ⟨⟨l, own, inv.setCurrent called⟩, Noted.of_eq ?_⟩
      rw [made_setCurrent]

end Kernel

end Kfs.Process
