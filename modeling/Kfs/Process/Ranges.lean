/-
**What mapping and unmapping a range do to every address space.**

`process_mmap` maps through the directory of the process it is called for, `process_munmap` and the
cleanup of `process_mmap` unmap through the directory that is loaded. After some rounds of the first loop
(`Lent`), that one directory translates the pages of the range to the frames of the blocks first fit gave.
The rounds of the others (`Cleared`) leave nothing mapped in the range under the loaded directory. All
other translations stay, if no block starts 20 bytes below a frame (`ClearBelow`), where `kfree` would write
into its header. A round of these panics where `kfree` does not accept the frame it finds, which can be read
off before the loop (`Freeable`), as no round moves a magic number.
-/

import Kfs.Paging.Views
import Kfs.Process.Asked

namespace Kfs.Process

open Kfs.Heap Kfs.Paging Memory

/-- The address lies in one of the first `n` pages of a range. -/
def InPages (virt n w : Nat) : Prop := ∃ k < n, w / pageSize = pageVirt virt k / pageSize

instance {virt n w : Nat} : Decidable (InPages virt n w) := inferInstanceAs (Decidable (∃ k < n, _))

section Pages

variable {i k length n virt w : Nat}

theorem inPages_succ :
    InPages virt (n + 1) w ↔ InPages virt n w ∨ w / pageSize = pageVirt virt n / pageSize := by
  constructor
  · rintro ⟨k, less, same⟩
    rcases Nat.lt_succ_iff_lt_or_eq.mp less with earlier | rfl
    · exact .inl ⟨k, earlier, same⟩
    · exact .inr same
  · rintro (⟨k, less, same⟩ | same)
    · exact ⟨k, Nat.lt_succ_of_lt less, same⟩
    · exact ⟨n, Nat.lt_succ_self n, same⟩

theorem not_inPages_zero : ¬ InPages virt 0 w := fun ⟨_, less, _⟩ => absurd less (Nat.not_lt_zero _)

/-- The pages of a range are different. -/
theorem pageVirt_ne (aligned : pageSize ∣ virt) (few : n ≤ 2 ^ 20) (less : k < i) (inside : i < n) :
    pageVirt virt i / pageSize ≠ pageVirt virt k / pageSize := by
  obtain ⟨v, rfl⟩ := aligned
  simp only [pageVirt, pageSize]
  omega

theorem pageVirt_mod (aligned : pageSize ∣ virt) : pageVirt virt i % pageSize = 0 :=
  Nat.mod_eq_zero_of_dvd (dvd_pageVirt aligned)

end Pages

/-! ### The loop of `process_mmap` -/

/-- **After `n` rounds of `process_mmap`**: the blocks given are those of the pages of the range, under the
directory it maps in. -/
structure Lent (image : KernelImage) (own : Owner → Option Nat) (d virt : Nat) (l : List Segment)
    (p : PagingState) (n : Nat) (q : PagingState) (l' : List Segment) (given : List Nat) : Prop where
  served : Serves l (mapRequests p.mem d virt n) l' given
  length : given.length = n
  held : ∀ ptr ∈ given, Holds l' ptr pageSize
  inside : ∀ k ptr, given[k]? = some ptr → translate q.mem d (pageVirt virt k) = frame ptr
  outside : ∀ e, IsDirectory image own e → ∀ w < 2 ^ 32, ¬ (e = d ∧ InPages virt n w) →
    translate q.mem e w = translate p.mem e w

section Map

variable {grid : Prop} {image : KernelImage} {own own' : Owner → Option Nat} {l l' : List Segment} {given : List Nat}
  {p q q' : PagingState} {d flags i n pageFlags virt x : Nat}

/-- **One page of `process_mmap`**, seen from every directory. -/
theorem mmapPage_view (layout : Layout grid image q l own ∅) (owned : own (.directory d) = some x)
    (small : pageFlags < pageSize) (above : kernelEnd ≤ pageVirt virt i)
    (done : mmapPage d virt pageFlags flags i q = .ok (.next q')) :
    ∃ ptr l₁, place pageSize l = some (ptr, l₁) ∧ Holds l₁ ptr pageSize ∧
      ∀ e, IsDirectory image own e → ∀ w < 2 ^ 32, translate q'.mem e w =
        if e = d ∧ w / pageSize = pageVirt virt i / pageSize then frame ptr ||| w % pageSize
        else translate q.mem e w := by
  rcases mmapPage_cases layout done with
    ⟨_, left, -⟩ | ⟨ptr, l₁, q₁, _, next, placed, holds, -, laid, -, -, entries, mapped⟩
  · cases left
  · cases next
    have bounds := holds.bounds laid.heap
    have below : ptr < 2 ^ 32 := by
      simp only [heapEnd, heapStart, heapSize] at bounds
      omega
    refine ⟨ptr, l₁, placed, holds, fun e directory w less => ?_⟩
    rw [laid.mapPage_view owned (userIndex_of above pageVirt_lt) pageVirt_lt below small mapped directory
      less, layout.translate_congr directory
        (fun t reads => entries t (reads.tracked layout directory)) less]

theorem mapRequests_pages (m : Memory) (d virt n : Nat) :
    (mapRequests m d virt n).countP (· = .page) = n := by
  induction n with
  | zero => rfl
  | succ n ih =>
      rw [mapRequests, List.range_succ, List.flatMap_append, List.countP_append, ← mapRequests, ih,
        List.flatMap_singleton, List.countP_cons]
      split <;> rfl

theorem Lent.start : Lent image own d virt l p 0 p l [] :=
  ⟨Serves.nil, rfl, fun _ member => absurd member List.not_mem_nil,
    fun k ptr found => absurd found (by simp), fun _ _ _ _ _ => rfl⟩

/-- **One round.** -/
theorem Lent.step (lent : Lent image own d virt l p i q l' given)
    (mapping : Mapping grid image own p.current d virt l p i q l' own')
    (known : p.current = image.directory ∨ ∃ x, own (.directory p.current) = some x)
    (owned : own (.directory d) = some x) (aligned : pageSize ∣ virt) (small : pageFlags < pageSize)
    (above : ∀ j ≤ i, kernelEnd ≤ pageVirt virt j) (few : i < 2 ^ 20)
    (done : mmapPage d virt pageFlags flags i q = .ok (.next q')) :
    ∃ l'' own'' given', Mapping grid image own p.current d virt l p (i + 1) q' l'' own'' ∧
      Lent image own d virt l p (i + 1) q' l'' given' := by
  obtain ⟨l'', own'', next⟩ := mapping.step known owned aligned small above done
  obtain ⟨ptr, l₁, placed, holds, view⟩ := mmapPage_view mapping.layout ((mapping.dirs d).trans owned)
    small (above i le_rfl) done
  obtain ⟨all, serves, -⟩ := next.served
  have count := serves.length
  rw [mapRequests_pages] at count
  obtain ⟨more, asked⟩ := mapRequests_succ p.mem d virt i
  rw [asked] at serves
  obtain ⟨given', serves'⟩ := serves.rest lent.served
  have whole := lent.served.append serves'
  obtain ⟨ptr', l₁', later, placed', tail, rfl⟩ := serves'
  cases placed.symm.trans placed'
  rw [if_pos rfl] at whole
  have alone : later = [] := by
    have total := whole.length
    rw [← asked, mapRequests_pages] at total
    have before := lent.length
    simp only [List.length_append, List.length_cons] at total
    exact List.eq_nil_of_length_eq_zero (by omega)
  subst alone
  rw [← asked] at whole
  have keeps : Keeps l' l'' := (Keeps.place placed).trans tail.keeps
  refine ⟨l'', own'', given ++ [ptr], next, whole, by simp [lent.length], fun z member => ?_,
    fun k z found => ?_, fun e directory w less other => ?_⟩
  · rcases List.mem_append.mp member with old | new
    · exact (lent.held z old).keeps keeps
    · rw [List.mem_singleton.mp new]
      exact holds.keeps tail.keeps
  · rw [view d (.inr ⟨x, (mapping.dirs d).trans owned⟩) _ pageVirt_lt]
    by_cases here : k = i
    · subst here
      rw [if_pos ⟨rfl, rfl⟩, pageVirt_mod aligned, Nat.or_zero]
      rw [List.getElem?_append_right (le_of_eq lent.length), lent.length, Nat.sub_self] at found
      cases found
      rfl
    · have before : k < i := by
        have := List.getElem?_eq_some_iff.mp found
        obtain ⟨less, -⟩ := this
        rw [List.length_append, lent.length, List.length_singleton] at less
        omega
      rw [if_neg fun both => pageVirt_ne aligned few before (Nat.lt_succ_self i) both.2.symm]
      rw [List.getElem?_append_left (by rw [lent.length]; exact before)] at found
      exact lent.inside k z found
  · rw [inPages_succ] at other
    rw [view e (directory.congr mapping.dirs) w less, if_neg fun both => other ⟨both.1, .inr both.2⟩]
    exact lent.outside e directory w less fun both => other ⟨both.1, .inl both.2⟩

/-- **The loop of `process_mmap`**, when its first rounds all map. -/
theorem mmapPages_lent (layout : Layout grid image p l own ∅)
    (known : p.current = image.directory ∨ ∃ x, own (.directory p.current) = some x)
    (owned : own (.directory d) = some x) (aligned : pageSize ∣ virt) (small : pageFlags < pageSize)
    (above : ∀ j < n, kernelEnd ≤ pageVirt virt j) (few : n ≤ 2 ^ 20)
    (done : forLoop (mmapPage d virt pageFlags flags) 0 n p = .ok (.next q)) :
    ∃ l' own' given, Mapping grid image own p.current d virt l p n q l' own' ∧
      Lent image own d virt l p n q l' given := by
  have invariant := @forLoop_inv _ _ (mmapPage d virt pageFlags flags)
    (fun i q => ∃ l' own' given, Mapping grid image own p.current d virt l p i q l' own' ∧
      Lent image own d virt l p i q l' given) (fun _ => True) 0 n p
    ⟨l, own, [], .start layout rfl, .start⟩
    (by
      rintro i q round - inside ⟨l', own', given, mapping, lent⟩ body
      cases round with
      | exit _ => trivial
      | next q' =>
          exact lent.step mapping known owned aligned small (fun j le => above j (by omega)) (by omega)
            body) _ done
  rwa [Nat.zero_add] at invariant

end Map

/-! ### The loops that unmap -/

/-- `kfree` accepts the frame of the page, if the page is mapped in the loaded directory. -/
def FreeableAt (p : PagingState) (v : Nat) : Prop :=
  pagingGetPhysicalAddress p v = 0 ∨ Accepts p.mem (pagingGetPhysicalAddress p v)

/-- `kfree` accepts the frames of a range. -/
def Freeable (p : PagingState) (virt n : Nat) : Prop := ∀ k < n, FreeableAt p (pageVirt virt k)

/-- No block starts 20 bytes below a frame of the range. -/
def ClearBelow (p : PagingState) (virt n : Nat) : Prop :=
  ∀ k < n, ∀ l, blockList p.heap = some l → Unshadowed l (pagingGetPhysicalAddress p (pageVirt virt k))

/-- The frames of a range under the loaded directory. -/
def frames (p : PagingState) (virt n : Nat) : List Nat :=
  (List.range n).map fun k => pagingGetPhysicalAddress p (pageVirt virt k)

/-- **After `n` rounds of a loop that unmaps** the pages of a range from the loaded directory. -/
structure Cleared (grid : Prop) (image : KernelImage) (own : Owner → Option Nat) (virt : Nat) (l : List Segment)
    (p : PagingState) (n : Nat) (q : PagingState) (l' : List Segment) (own' : Owner → Option Nat) :
    Prop where
  base : Layout grid image p l own ∅
  layout : Layout grid image q l' own' ∅
  fewer : ∀ a x, own' a = some x → own a = some x
  dirs : SameDirs own own'
  current : q.current = p.current
  magic : SameMagic p.mem q.mem
  starts : StartsAmong l' l
  view : ∀ e, IsDirectory image own e → ∀ w < 2 ^ 32, translate q.mem e w =
    if e = p.current ∧ InPages virt n w then 0 else translate p.mem e w
  stays : ∀ x, Holds l x pageSize → (pageSize ∣ x → ∀ i j, own (.page p.current i j) ≠ some x) →
    Holds l' x pageSize
  count : (inUse l).card ≤ (inUse l').card + n
  gives : (∀ k < n, Holds l (pagingGetPhysicalAddress p (pageVirt virt k)) pageSize) →
    inUse l = ↑(frames p virt n) + inUse l'

section Clear

variable {grid : Prop} {image : KernelImage} {own own' : Owner → Option Nat} {l l' : List Segment}
  {p q q' : PagingState} {h : HeapState} {e i n v virt w x : Nat}

theorem frames_succ : frames p virt (n + 1) =
    frames p virt n ++ [pagingGetPhysicalAddress p (pageVirt virt n)] := by
  simp [frames, List.range_succ]

/-- A page that is not mapped in the loaded directory translates to 0. -/
theorem translate_unmapped (layout : Layout grid image q l own ∅) (current : CurrentOwned image q own)
    (user : UserIndex v) (zero : pagingGetPhysicalAddress q v = 0) (same : w / pageSize = v / pageSize) :
    translate q.mem q.current w = 0 := by
  by_contra mapped
  have maps : Maps q.mem q.current w := by
    unfold Paging.translate at mapped
    by_cases here : present (entry q.mem q.current (dirIndex w)) = true
    · rw [if_pos here] at mapped
      by_cases found : present (entry q.mem (frame (entry q.mem q.current (dirIndex w)))
          (tableIndex w)) = true
      · exact ⟨here, found⟩
      · rw [if_neg found] at mapped
        exact absurd rfl mapped
    · rw [if_neg here] at mapped
      exact absurd rfl mapped
  have there := (Maps.congr_page same).mp maps
  obtain ⟨x, owned⟩ := current.owned layout.kernel user.1 user.2 there.1
  exact layout.physicalAddress_maps owned user there zero

namespace Cleared

theorem start (layout : Layout grid image p l own ∅) : Cleared grid image own virt l p 0 p l own := by
  refine ⟨layout, layout, fun _ _ => id, fun _ => rfl, rfl, .refl _, .refl l, fun e _ w _ => ?_,
    fun _ holds _ => holds, le_rfl, fun _ => ?_⟩
  · rw [if_neg fun both => not_inPages_zero both.2]
  · simp [frames]

theorem owned (cleared : Cleared grid image own virt l p n q l' own') (known : CurrentOwned image p own) :
    CurrentOwned image q own' := by
  rw [CurrentOwned, cleared.current]
  rcases known with kernel | ⟨x, owned⟩
  · exact .inl kernel
  · exact .inr ⟨x, (cleared.dirs _).trans owned⟩

/-- A page that is still to come is mapped as it was. -/
theorem phys (cleared : Cleared grid image own virt l p n q l' own') (known : CurrentOwned image p own)
    (aligned : pageSize ∣ virt) (few : n < 2 ^ 20) :
    pagingGetPhysicalAddress q (pageVirt virt n) = pagingGetPhysicalAddress p (pageVirt virt n) := by
  rw [physicalAddress_translate, physicalAddress_translate, cleared.current,
    cleared.view _ known _ pageVirt_lt, if_neg]
  rintro ⟨-, k, less, same⟩
  exact pageVirt_ne aligned few less (Nat.lt_succ_self n) same

theorem clear_succ {a : Nat} : (if e = x ∧ w / pageSize = pageVirt virt n / pageSize then 0
    else if e = x ∧ InPages virt n w then 0 else a) = if e = x ∧ InPages virt (n + 1) w then 0 else a := by
  simp only [inPages_succ]
  split_ifs <;> first | rfl | (exfalso; tauto)

/-- Nothing is freed in a round that finds nothing mapped. -/
theorem skip (cleared : Cleared grid image own virt l p n q l' own') (layout : Layout grid image q' l' own' ∅)
    (current : q'.current = q.current) (magic : SameMagic q.mem q'.mem)
    (zero : pagingGetPhysicalAddress p (pageVirt virt n) = 0)
    (view : ∀ e, IsDirectory image own e → ∀ w < 2 ^ 32, translate q'.mem e w =
      if e = p.current ∧ w / pageSize = pageVirt virt n / pageSize then 0 else translate q.mem e w) :
    Cleared grid image own virt l p (n + 1) q' l' own' := by
  refine ⟨cleared.base, layout, cleared.fewer, cleared.dirs, current.trans cleared.current,
    cleared.magic.trans magic, cleared.starts, fun e directory w less => ?_, cleared.stays,
    cleared.count.trans (Nat.le_succ _), fun all => ?_⟩
  · rw [view e directory w less, cleared.view e directory w less]
    exact clear_succ
  · have none := (all n (Nat.lt_succ_self n)).bounds cleared.base.heap
    rw [zero] at none
    exact absurd none.1 (by decide)

/-- Nothing is in the way of `kfree` that was not before. -/
theorem unshadowed (cleared : Cleared grid image own virt l p n q l' own') (known : CurrentOwned image p own)
    (aligned : pageSize ∣ virt) (few : n < 2 ^ 20)
    (clear : Unshadowed l (pagingGetPhysicalAddress p (pageVirt virt n))) :
    Unshadowed l' (pagingGetPhysicalAddress q (pageVirt virt n)) := by
  rw [cleared.phys known aligned few]
  exact clear.mono cleared.starts

/-- **A round that frees the frame of a page.** -/
theorem free (cleared : Cleared grid image own virt l p n q l' own') (known : CurrentOwned image p own)
    (aligned : pageSize ∣ virt) (few : n < 2 ^ 20) (above : kernelEnd ≤ pageVirt virt n)
    (mapped : pagingGetPhysicalAddress p (pageVirt virt n) ≠ 0)
    (clear : Unshadowed l (pagingGetPhysicalAddress p (pageVirt virt n)))
    (done : kfree q.heap (pagingGetPhysicalAddress q (pageVirt virt n)) = .ok h) :
    ∃ l'' own'', Cleared grid image own virt l p (n + 1) (pagingUnmapPage (q.withHeap h) (pageVirt virt n))
      l'' own'' := by
  have same := cleared.phys known aligned few
  have mapped' : pagingGetPhysicalAddress q (pageVirt virt n) ≠ 0 := by rw [same]; exact mapped
  have current := cleared.owned known
  have user := userIndex_of above pageVirt_lt
  have whole := dvd_pageVirt (i := n) aligned
  have apart := cleared.unshadowed known aligned few clear
  obtain ⟨l'', laid, starts, stays, count, gives⟩ :=
    cleared.layout.freeMapped_blocks current user whole mapped' apart done
  obtain ⟨magic, entries⟩ := cleared.layout.freeFrame_entries current user whole mapped' apart done
  refine ⟨l'', _, cleared.base, laid, fun a x found => ?_, fun d => ?_, ?_, ?_, starts.trans cleared.starts,
    fun e directory w less => ?_, fun x holds other => ?_, ?_, fun all => ?_⟩
  · exact cleared.fewer a x (Layout.update_none found).2
  · rw [Function.update_of_ne (by simp)]
    exact cleared.dirs d
  · rw [← cleared.current]
    unfold pagingUnmapPage
    split <;> rfl
  · exact (cleared.magic.trans magic).trans (cleared.layout.unmapPage_magic current user entries)
  · rw [cleared.layout.freeMapped_view current user pageVirt_lt whole mapped' apart done
      (directory.congr cleared.dirs) less, cleared.view e directory w less, cleared.current]
    exact clear_succ
  · refine stays x (cleared.stays x holds other) fun start i j found => ?_
    rw [cleared.current] at found
    exact other start i j (cleared.fewer _ _ found)
  · have before := cleared.count
    omega
  · have before := cleared.gives fun k less => all k (Nat.lt_succ_of_lt less)
    obtain ⟨z, page, phys⟩ := cleared.layout.mappedPage current user whole mapped'
    have mine := all n (Nat.lt_succ_self n)
    rw [← same, phys] at mine
    have owned := cleared.fewer _ _ page
    have equal := holds_near cleared.base.heap (cleared.base.held _ z owned) mine (.inl rfl)
    rw [before, gives ?_, frames_succ, same, ← Multiset.coe_add, add_assoc, Multiset.coe_singleton,
      Multiset.singleton_add]
    rw [phys, ← equal]
    exact cleared.layout.held _ z page

/-- What `kfree` makes of the frame it finds. -/
theorem freed (cleared : Cleared grid image own virt l p n q l' own') (known : CurrentOwned image p own)
    (aligned : pageSize ∣ virt) (few : n < 2 ^ 20) (above : kernelEnd ≤ pageVirt virt n)
    (mapped : pagingGetPhysicalAddress p (pageVirt virt n) ≠ 0)
    (clear : Unshadowed l (pagingGetPhysicalAddress p (pageVirt virt n))) :
    (FreeableAt p (pageVirt virt n) ∧
        ∃ h, kfree q.heap (pagingGetPhysicalAddress q (pageVirt virt n)) = .ok h) ∨
      (¬ FreeableAt p (pageVirt virt n) ∧
        kfree q.heap (pagingGetPhysicalAddress q (pageVirt virt n)) = .panic invalidPointer) := by
  have same := cleared.phys known aligned few
  have current := cleared.owned known
  have user := userIndex_of above pageVirt_lt
  have whole := dvd_pageVirt (i := n) aligned
  obtain ⟨z, page, phys⟩ :=
    cleared.layout.mappedPage current user whole (by rw [same]; exact mapped)
  obtain ⟨grain, nonzero, small⟩ := cleared.layout.frame_bounds page
  have apart := cleared.unshadowed known aligned few clear
  rw [phys] at apart
  have returns := kfree_returns cleared.layout.heap apart grain nonzero small
  have moved : Accepts q.mem (frame z) ↔ Accepts p.mem (frame z) := by
    refine cleared.magic _ ?_
    rw [blockOf_eq grain nonzero small]
    omega
  have freeable : FreeableAt p (pageVirt virt n) ↔ Accepts p.mem (frame z) := by
    rw [FreeableAt, ← same, phys]
    exact or_iff_right nonzero
  rw [phys, freeable]
  by_cases accepts : Accepts p.mem (frame z)
  · exact .inl ⟨accepts, returns.mpr (moved.mpr accepts)⟩
  · exact .inr ⟨accepts, kfree_panic nonzero fun magic => accepts (moved.mp magic)⟩

end Cleared

/-- **A loop whose rounds free and unmap a page each**: it panics exactly if some frame is not accepted. -/
theorem clearLoop {body : Nat → PagingState → Outcome (Round PagingState PagingState)}
    (layout : Layout grid image p l own ∅)
    (step : ∀ i q l' own', i < n → Cleared grid image own virt l p i q l' own' →
      (∃ q', body i q = .ok (.next q') ∧ FreeableAt p (pageVirt virt i) ∧
        ∃ l'' own'', Cleared grid image own virt l p (i + 1) q' l'' own'') ∨
      (body i q = .panic invalidPointer ∧ ¬ FreeableAt p (pageVirt virt i))) :
    (Freeable p virt n ∧ ∃ q, forLoop body 0 n p = .ok (.next q) ∧
        ∃ l' own', Cleared grid image own virt l p n q l' own') ∨
      (¬ Freeable p virt n ∧ forLoop body 0 n p = .panic invalidPointer) := by
  have rule := @forLoop_leaves _ _ body
    (fun i q => Freeable p virt i ∧ ∃ l' own', Cleared grid image own virt l p i q l' own')
    (fun i last => last = .panic invalidPointer ∧ ¬ FreeableAt p (pageVirt virt i)) 0 n p
    ⟨fun k less => absurd less (Nat.not_lt_zero k), l, own, .start layout⟩
    (by
      rintro i q - inside ⟨before, l', own', cleared⟩
      rw [Nat.zero_add] at inside
      rcases step i q l' own' inside cleared with ⟨q', ran, accepted, next⟩ | ⟨ran, refused⟩
      · refine .inl ⟨q', ran, fun k less => ?_, next⟩
        rcases Nat.lt_succ_iff_lt_or_eq.mp less with earlier | rfl
        · exact before k earlier
        · exact accepted
      · exact .inr ⟨.panic invalidPointer, ran, rfl, refused⟩)
  rcases rule with ⟨q, loop, done⟩ | ⟨i, last, -, inside, loop, rfl, refused⟩
  · rw [Nat.zero_add] at done
    exact .inl ⟨done.1, q, loop, done.2⟩
  · rw [Nat.zero_add] at inside
    exact .inr ⟨fun all => refused (all i inside), loop⟩

/-- **The loop of `process_munmap`.** -/
theorem munmapPages_cleared (layout : Layout grid image p l own ∅) (known : CurrentOwned image p own)
    (aligned : pageSize ∣ virt) (few : n ≤ 2 ^ 20) (above : AboveKernel virt n) (clear : ClearBelow p virt n) :
    (Freeable p virt n ∧ ∃ q, forLoop (munmapPage virt) 0 n p = .ok (.next q) ∧
        ∃ l' own', Cleared grid image own virt l p n q l' own') ∨
      (¬ Freeable p virt n ∧ forLoop (munmapPage virt) 0 n p = .panic invalidPointer) := by
  refine clearLoop layout fun i q l' own' inside cleared => ?_
  have same := cleared.phys known aligned (by omega)
  have apart := clear i inside l layout.heap.blockList_eq
  unfold munmapPage
  by_cases mapped : pagingGetPhysicalAddress p (pageVirt virt i) = 0
  · rw [if_neg (by rw [same]; exact not_not.mpr mapped)]
    refine .inl ⟨q, rfl, .inl mapped, l', own', cleared.skip cleared.layout rfl (.refl _) mapped
      fun e directory w less => ?_⟩
    split
    · rename_i here
      rw [here.1, ← cleared.current]
      exact translate_unmapped cleared.layout (cleared.owned known)
        (userIndex_of (above i inside) pageVirt_lt) (same.trans mapped) here.2
    · rfl
  · rw [if_pos (by rw [same]; exact mapped)]
    rcases cleared.freed known aligned (by omega) (above i inside) mapped apart with
      ⟨accepted, h, freed⟩ | ⟨refused, freed⟩
    · rw [freed]
      exact .inl ⟨_, rfl, accepted,
        cleared.free known aligned (by omega) (above i inside) mapped apart freed⟩
    · rw [freed]
      exact .inr ⟨rfl, refused⟩

/-- **The cleanup of `process_mmap`.** -/
theorem mmapCleanups_cleared (layout : Layout grid image p l own ∅) (known : CurrentOwned image p own)
    (aligned : pageSize ∣ virt) (few : n ≤ 2 ^ 20) (above : AboveKernel virt n) (clear : ClearBelow p virt n) :
    (Freeable p virt n ∧ ∃ q, forLoop (mmapCleanup virt) 0 n p = .ok (.next q) ∧
        ∃ l' own', Cleared grid image own virt l p n q l' own') ∨
      (¬ Freeable p virt n ∧ forLoop (mmapCleanup virt) 0 n p = .panic invalidPointer) := by
  refine clearLoop layout fun i q l' own' inside cleared => ?_
  have same := cleared.phys known aligned (by omega)
  have apart := clear i inside l layout.heap.blockList_eq
  have current := cleared.owned known
  have user := userIndex_of (above i inside) pageVirt_lt
  unfold mmapCleanup
  by_cases mapped : pagingGetPhysicalAddress p (pageVirt virt i) = 0
  · simp only [same, mapped, ne_eq, not_true_eq_false, if_false, Outcome.ok_bind]
    refine .inl ⟨_, rfl, .inl mapped, l', own', cleared.skip
      (cleared.layout.unmapPage current user.1 user.2) ?_
      (cleared.layout.unmapPage_magic current user fun _ _ _ _ => rfl) mapped
      fun e directory w less => ?_⟩
    · unfold pagingUnmapPage
      split <;> rfl
    · rw [← cleared.current]
      exact cleared.layout.unmapPage_view current user pageVirt_lt (directory.congr cleared.dirs) less
  · simp only [same, mapped, ne_eq, not_false_eq_true, if_true]
    rw [← same]
    rcases cleared.freed known aligned (by omega) (above i inside) mapped apart with
      ⟨accepted, h, freed⟩ | ⟨refused, freed⟩
    · rw [freed]
      exact .inl ⟨_, rfl, accepted,
        cleared.free known aligned (by omega) (above i inside) mapped apart freed⟩
    · rw [freed]
      exact .inr ⟨rfl, refused⟩

end Clear

end Kfs.Process
