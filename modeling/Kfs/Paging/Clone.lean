/-
**`paging_clone_directory` keeps the layout.**

The copy gets a table for every table of the source and a page for every page, with all failure paths.
The loops carry the invariant with what is still empty in the copy (`Cloning`); meanwhile every other
directory and table keeps its entries (`KeepsEntries`), so that the blocks asked for are those that the
source had pages and tables for at the start.
-/

import Kfs.Paging.Spaces

namespace Kfs.Paging

open Kfs.Heap Memory

section Clone

variable {grid : Prop} {image : KernelImage} {s s' : PagingState} {l : List Segment} {own : Owner → Option Nat}
  {d i j x y z : Nat}

/-- The directory that an owner of entries belongs to. -/
def Owner.dir : Owner → Option Nat
  | directory d => some d
  | table d _ => some d
  | _ => none

theorem Owner.structural_of_dir {a : Owner} (of : a.dir = some d) : a.structural = true := by
  cases a with
  | loose ptr => cases of
  | directory d => rfl
  | table d i => rfl
  | page d i j => cases of

/-- All other directories and tables are where they were, with the entries they had. -/
def KeepsEntries (dst : Nat) (own own' : Owner → Option Nat) (m m' : Memory) : Prop :=
  ∀ a d x, a.dir = some d → d ≠ dst → own a = some x →
    own' a = some x ∧ ∀ k < pageEntries, entry m' (home x) k = entry m (home x) k

theorem KeepsEntries.trans {dst : Nat} {own own' own'' : Owner → Option Nat} {m m' m'' : Memory}
    (first : KeepsEntries dst own own' m m') (second : KeepsEntries dst own' own'' m' m'') :
    KeepsEntries dst own own'' m m'' := by
  intro a d x of other owned
  obtain ⟨owned', same⟩ := first a d x of other owned
  obtain ⟨owned'', same'⟩ := second a d x of other owned'
  exact ⟨owned'', fun k index => (same' k index).trans (same k index)⟩

/-- The copy asks for the same blocks as long as the source keeps its entries. -/
theorem KeepsEntries.entryRequests {own' : Owner → Option Nat} {dst src w : Nat} {m : Memory}
    (keeps : KeepsEntries dst own own' s.mem m) (layout : Layout grid image s l own ∅) (other : src ≠ dst)
    (source : own (.directory src) = some w) (low : 2 ≤ i) (index : i < pageEntries) :
    entryRequests m src i = entryRequests s.mem src i := by
  have row := (keeps _ src w rfl other source).2 i index
  rw [← layout.placed src w source] at row
  unfold Paging.entryRequests
  rw [row]
  cases here : present (entry s.mem src i) with
  | false => rw [if_neg (by simp), if_neg (by simp)]
  | true =>
      obtain ⟨z, table, same⟩ := layout.tableOf source low index here
      have column := (keeps _ src z rfl other table).2
      rw [same, if_pos ⟨low, rfl⟩, if_pos ⟨low, rfl⟩, tableRequests, tableRequests]
      refine congrArg _ (List.flatMap_congr fun j member => ?_)
      rw [column j (List.mem_range.mp member)]

theorem KeepsEntries.cloneRequests {own' : Owner → Option Nat} {dst src w n : Nat} {m : Memory}
    (keeps : KeepsEntries dst own own' s.mem m) (layout : Layout grid image s l own ∅) (other : src ≠ dst)
    (source : own (.directory src) = some w) (most : n ≤ pageEntries) :
    cloneRequests m src n = cloneRequests s.mem src n := by
  refine List.flatMap_congr fun i member => ?_
  have index : i < pageEntries := lt_of_lt_of_le (List.mem_range.mp member) most
  by_cases low : 2 ≤ i
  · exact keeps.entryRequests layout other source low index
  · rw [Paging.entryRequests, Paging.entryRequests, if_neg fun both => low both.1,
      if_neg fun both => low both.1]

/-- A clone in progress: laid out, with the directories it started with, and no table at `i` or
above in the copy. -/
structure Cloning (grid : Prop) (image : KernelImage) (own : Owner → Option Nat) (current dst i : Nat)
    (s : PagingState) (l : List Segment) (own' : Owner → Option Nat) : Prop where
  layout : Layout grid image s l own' ∅
  dirs : SameDirs own own'
  current : s.current = current
  empty : ∀ k, i ≤ k → k < pageEntries → present (entry s.mem dst k) = false

/-- A clone given up: the copy is gone, the other directories are there. -/
def CloneFailed (grid : Prop) (image : KernelImage) (own : Owner → Option Nat) (current dst : Nat)
    (s : PagingState) : Prop :=
  ∃ l own', Layout grid image s l own' ∅ ∧ own' (.directory dst) = none ∧ SameDirsBut dst own own' ∧
    s.current = current

/-- A laid-out copy is destroyed. -/
theorem CloneFailed.of_destroy {own' : Owner → Option Nat} {current dst : Nat}
    (layout : Layout grid image s l own' ∅) (on : grid) (dirs : SameDirs own own') (same : s.current = current)
    (owned : own (.directory dst) = some x) (done : pagingDestroyDirectory s dst = .ok s') :
    CloneFailed grid image own current dst s' := by
  obtain ⟨l', own'', next, lost, others, kept⟩ :=
    layout.destroyDirectory on ((dirs dst).trans owned) done
  exact ⟨l', own'', next, lost, fun d' other => (others d' other).trans (dirs d'), kept.trans same⟩

theorem Owner.ne_table {a : Owner} {dst : Nat} (of : a.dir = some d) (other : d ≠ dst) : a ≠ .table dst i := by
  rintro rfl
  exact other (Option.some.inj of).symm

/-- The entry of an absent page is cleared in the copy. -/
theorem Cloning.clearEntry {own' : Owner → Option Nat} {current dst : Nat}
    (cloning : Cloning grid image own current dst i s l own') (owned : own' (.directory dst) = some x)
    (table : own' (.table dst i) = some y) (inside : j < pageEntries) :
    Cloning grid image own current dst i (s.write (setEntry s.mem (home y) j 0)) l own' ∧
      KeepsEntries dst own' own' s.mem (setEntry s.mem (home y) j 0) := by
  have layout := cloning.layout
  have place := layout.placed dst x owned
  have more := layout.forget (fun _ _ => id) (fun _ _ => Or.inl) (Set.empty_subset (insert (.page dst i j) ∅))
  refine ⟨⟨more.clearPage table inside, cloning.dirs, cloning.current, fun k low high => ?_⟩,
    fun a d u of other found => ⟨found, fun k high => ?_⟩⟩
  · rw [PagingState.mem_write, place, layout.entry_setEntry_other rfl table rfl owned (by simp)
      inside high, ← place]
    exact cloning.empty k low high
  · exact layout.entry_setEntry_other rfl table (Owner.structural_of_dir of) found
      (Owner.ne_table of other) inside high

/-- No memory for a page: the table, which is not linked yet, is freed, and then the copy. -/
theorem Cloning.dropTable {own' : Owner → Option Nat} {current dst : Nat} {h : HeapState}
    (cloning : Cloning grid image own current dst i s l own') (on : grid)
    (owned : own (.directory dst) = some x)
    (index : i < pageEntries) (table : own' (.table dst i) = some y)
    (freed : kfree s.heap (home y) = .ok h) (lost : pagingDestroyDirectory (s.withHeap h) dst = .ok s') :
    CloneFailed grid image own current dst s' := by
  have layout := cloning.layout
  have near := layout.home_bounds table
  have close : y < home y + pageSize ∧ home y < y + pageSize := ⟨by omega, near.2⟩
  obtain ⟨l₁, struck, -, entries⟩ := layout.free table close dvd_home (layout.unshadowed on dvd_home) freed
  have keeps : Function.update own' (.table dst i) none (.directory dst) = some x := by
    rw [Function.update_of_ne (by simp), (cloning.dirs dst).trans owned]
  -- nothing leads to the table
  have settled : Layout grid image (s.withHeap h) l₁ (Function.update own' (.table dst i) none) ∅ := by
    refine struck.settle (fun d' i' member _ => ?_) fun d' i' j' member _ => ?_
    · rcases member with equal | impossible
      · cases equal
        refine Or.inr ?_
        rw [PagingState.mem_withHeap, entries _ (Tracked.directory struck keeps) _ index]
        exact cloning.empty i le_rfl index
      · cases impossible
    · rcases member with equal | impossible
      · cases equal
      · cases impossible
  refine CloneFailed.of_destroy settled on (fun d' => ?_) cloning.current owned lost
  rw [Function.update_of_ne (by simp), cloning.dirs]

/-- A new page for the copy, filled from the page at `q` and entered with its flags. -/
theorem Layout.copyPage {dst p q flags : Nat} (layout : Layout grid image s l own ∅) (holds : Holds l p pageSize)
    (fresh : ∀ a, own a ≠ some p) (table : own (.table dst i) = some y) (inside : j < pageEntries)
    (small : flags < pageSize) :
    let m := setEntry (s.mem.copy p q pageSize) (home y) j (p ||| flags)
    Layout grid image ((s.write m).note dst (pageEntries * i + j) p) l
        (Function.update (Function.update own (.loose p) none) (.page dst i j) (some p)) ∅ ∧
      ∀ a u, a.structural = true → own a = some u → a ≠ .table dst i →
        ∀ k < pageEntries, entry m (home u) k = entry s.mem (home u) k := by
  have bounds := holds.bounds layout.heap
  have plain : ∀ a, own a = some p → a.structural = false := fun a found => absurd found (fresh a)
  have copied : Set.EqOn (s.mem.copy p q pageSize) s.mem {x | x < p ∨ p + pageSize ≤ x} := copy_eqOn _ _ _ _
  have scribbled := layout.scribble holds plain copied
  have word : p < 2 ^ 32 := by
    simp only [heapEnd, heapStart, heapSize] at bounds
    omega
  refine ⟨scribbled.mapPage table inside holds (fun a found => absurd found (fresh a)) (or_lt word small)
    (frame_or small), fun a u entries found other k high => ?_⟩
  have tracked : Tracked image own (home u) := Tracked.home entries found
  exact (scribbled.entry_setEntry_other rfl table entries found other inside high).trans
    (layout.entry_scribble holds plain copied tracked high)

/-- One round of the inner loop of `paging_clone_directory`. -/
theorem Cloning.clonePage {own' : Owner → Option Nat} {current dst src : Nat}
    (cloning : Cloning grid image own current dst i s l own') (on : grid)
    (owned : own (.directory dst) = some x)
    (index : i < pageEntries) (source : own' (.table src i) = some z)
    (table : own' (.table dst i) = some y) (inside : j < pageEntries)
    {round : Round PagingState PagingState}
    (done : clonePage dst i (home z) (home y) j s = .ok round) :
    round.Ends (fun s' => ∃ l' own'', Cloning grid image own current dst i s' l' own'' ∧
      own'' (.table src i) = some z ∧ own'' (.table dst i) = some y ∧
      KeepsEntries dst own' own'' s.mem s'.mem ∧
      Served l (if present (entry s.mem (home z) j) then [.page] else []) l' s s')
      (fun s' => CloneFailed grid image own current dst s' ∧ s'.made = s.made) := by
  have layout := cloning.layout
  have owned' : own' (.directory dst) = some x := (cloning.dirs dst).trans owned
  have place := layout.placed dst x owned'
  unfold Paging.clonePage at done
  cases here : present (entry s.mem (home z) j) with
  | false =>
      rw [here, if_neg (by decide)] at done
      cases done
      obtain ⟨next, keeps⟩ := cloning.clearEntry owned' table inside
      exact ⟨l, own', next, source, table, keeps, Serves.nil.served rfl⟩
  | true =>
      rw [here, if_pos rfl] at done
      obtain ⟨⟨h, p⟩, taken, rest⟩ := Outcome.bind_eq_ok.mp done
      simp only at rest
      rcases layout.take (by decide) (by decide) taken with
        ⟨rfl, rfl⟩ | ⟨l₁, placed, next, holds, fresh, same⟩
      · rw [if_pos rfl] at rest
        obtain ⟨h, freed, destroyed⟩ := Outcome.bind_eq_ok.mp rest
        obtain ⟨s₁, lost, last⟩ := Outcome.bind_eq_ok.mp destroyed
        cases last
        exact ⟨cloning.dropTable on owned index table freed lost, (made_destroyDirectory lost : _)⟩
      · have bounds := holds.bounds next.heap
        rw [if_neg (by omega)] at rest
        cases rest
        obtain ⟨mapped, others⟩ := @Layout.copyPage _ _ _ _ _ i j y dst p (frame (entry h.mem (home z) j))
          (flagBits (entry (h.mem.copy p (frame (entry h.mem (home z) j)) pageSize) (home z) j))
          next holds fresh table inside flagBits_lt
        have untouched : ∀ a u, a.structural = true → own' a = some u → a ≠ .table dst i →
            ∀ k < pageEntries, entry _ (home u) k = entry s.mem (home u) k :=
          fun a u entries found other k high => (others a u entries found other k high).trans
            (same _ (Tracked.home entries found) k high)
        have kept : ∀ a, a.structural = true → Function.update (Function.update own' (.loose p) none)
            (.page dst i j) (some p) a = own' a := by
          intro a entries
          rw [Function.update_of_ne, Function.update_of_ne]
          · rintro rfl
            cases entries
          · rintro rfl
            cases entries
        refine ⟨l₁, _, ⟨mapped, fun d' => ?_, cloning.current, fun k low high => ?_⟩,
          (kept _ rfl).trans source, (kept _ rfl).trans table, fun a d u of other found => ?_,
          Served.page placed Serves.nil rfl rfl⟩
        · exact (kept _ rfl).trans (cloning.dirs d')
        · rw [place]
          refine Eq.trans (congrArg present (untouched _ x rfl owned' (by simp) k high)) ?_
          rw [← place]
          exact cloning.empty k low high
        · have entries := Owner.structural_of_dir of
          exact ⟨(kept a entries).trans found, untouched a u entries found (Owner.ne_table of other)⟩

/-- An empty table for the copy. -/
theorem Cloning.addTable {own' : Owner → Option Nat} {current dst : Nat} {l' : List Segment}
    (cloning : Cloning grid image own current dst i s l own') (owned : own' (.directory dst) = some x)
    (index : i < pageEntries) (next : Layout grid image s' l' own' ∅) (holds : Holds l' y (2 * pageSize))
    (fresh : ∀ a, own' a ≠ some y) (kept : s'.current = s.current)
    (empty : ∀ j < pageEntries, entry s'.mem (home y) j = 0)
    (entries : ∀ t, Tracked image own' t → ∀ i < pageEntries, entry s'.mem t i = entry s.mem t i) :
    Cloning grid image own current dst i s' l' (Function.update own' (.table dst i) (some y)) ∧
      KeepsEntries dst own' (Function.update own' (.table dst i) (some y)) s.mem s'.mem := by
  have absent : ∀ k, i ≤ k → k < pageEntries → present (entry s'.mem dst k) = false := by
    intro k low high
    rw [entries dst (Tracked.directory cloning.layout owned) k high]
    exact cloning.empty k low high
  refine ⟨⟨next.adoptTable holds fresh empty fun _ _ => absent i le_rfl index,
    fun d' => (Function.update_of_ne (by simp) _ _).trans (cloning.dirs d'), kept.trans cloning.current,
    absent⟩, fun a d u of away found => ?_⟩
  exact ⟨(Function.update_of_ne (Owner.ne_table of away) _ _).trans found, fun k high =>
    entries _ (Tracked.home (Owner.structural_of_dir of) found) k high⟩

/-- **The inner loop of `paging_clone_directory`.** -/
theorem Cloning.clonePages {own' : Owner → Option Nat} {current dst src : Nat}
    (cloning : Cloning grid image own current dst i s l own') (on : grid)
    (owned : own (.directory dst) = some x)
    (index : i < pageEntries) (other : src ≠ dst) (source : own' (.table src i) = some z)
    (table : own' (.table dst i) = some y) {inner : Round PagingState PagingState}
    (loop : forLoop (Paging.clonePage dst i (home z) (home y)) 0 pageEntries s = .ok inner) :
    inner.Ends (fun s' => ∃ l' own'', Cloning grid image own current dst i s' l' own'' ∧
      own'' (.table dst i) = some y ∧ KeepsEntries dst own' own'' s.mem s'.mem ∧
      Served l (tableRequests s.mem (home z) pageEntries) l' s s')
      (fun s' => CloneFailed grid image own current dst s' ∧
        ∀ rest, Noted (userPages l (tableRequests s.mem (home z) pageEntries ++ rest)) s s') := by
  have invariant := @forLoop_inv _ _ (Paging.clonePage dst i (home z) (home y))
    (fun j p => ∃ l' own'', Cloning grid image own current dst i p l' own'' ∧
      own'' (.table src i) = some z ∧ own'' (.table dst i) = some y ∧
      KeepsEntries dst own' own'' s.mem p.mem ∧ Served l (tableRequests s.mem (home z) j) l' s p)
    (fun p => CloneFailed grid image own current dst p ∧
      ∀ rest, Noted (userPages l (tableRequests s.mem (home z) pageEntries ++ rest)) s p)
    0 pageEntries s
    ⟨l, own', cloning, source, table, fun a d u _ _ found => ⟨found, fun _ _ => rfl⟩, Serves.nil.served rfl⟩
    (by
      rintro j p round - inside ⟨l', own'', here, first, second, keeps, served⟩ body
      rw [Nat.zero_add] at inside
      have step := here.clonePage on owned index first second inside body
      have seen := (keeps _ src z rfl other source).2 j inside
      cases round with
      | next p' =>
          obtain ⟨l'', own₃, next', first', second', keeps', served'⟩ := step
          refine ⟨l'', own₃, next', first', second', keeps.trans keeps', ?_⟩
          rw [tableRequests_succ, ← seen]
          exact served.trans served'
      | exit p' =>
          obtain ⟨failed, same⟩ := step
          refine ⟨failed, fun rest => ?_⟩
          obtain ⟨more, split⟩ := exists_append_of_le (Nat.le_of_lt inside)
          rw [tableRequests, split, List.append_assoc]
          exact served.noted (Noted.of_eq same)) _ loop
  rw [Nat.zero_add] at invariant
  cases inner with
  | exit s' => exact invariant
  | next s' =>
      obtain ⟨l', own'', copied, _, linked, keeps, served⟩ := invariant
      exact ⟨l', own'', copied, linked, keeps, served⟩

/-- The filled table is linked, with the flags of the entry that it is a copy of. -/
theorem Cloning.linkTable {own' : Owner → Option Nat} {current dst flags : Nat}
    (cloning : Cloning grid image own current dst i s l own') (owned : own' (.directory dst) = some x)
    (low : 2 ≤ i) (index : i < pageEntries) (table : own' (.table dst i) = some y) (less : flags < pageSize) :
    Cloning grid image own current dst (i + 1) (s.write (setEntry s.mem dst i (home y ||| flags))) l own' ∧
      KeepsEntries dst own' own' s.mem (setEntry s.mem dst i (home y ||| flags)) := by
  have layout := cloning.layout
  have small : home y ||| flags < 2 ^ 32 := or_lt (home_lt layout (layout.held _ y table)) less
  have framed : frame (home y ||| flags) = home y := by
    rw [frame_or less, frame_of_dvd dvd_home]
  have aligned := Layout.tracked_dvd (Tracked.directory layout owned)
  refine ⟨⟨layout.linkTable owned low index table small framed, cloning.dirs, cloning.current,
    fun k above high => ?_⟩, fun a d u of away found => ⟨found, fun k high => ?_⟩⟩
  · rw [PagingState.mem_write, entry_setEntry aligned aligned index high, if_neg (by omega)]
    exact cloning.empty k (by omega) high
  · rw [layout.placed dst x owned]
    refine layout.entry_setEntry_other rfl owned (Owner.structural_of_dir of) found ?_ index high
    rintro rfl
    exact away (Option.some.inj of).symm

/-- One round of the outer loop of `paging_clone_directory`. -/
theorem Cloning.cloneTable {own' : Owner → Option Nat} {current dst src w : Nat}
    (cloning : Cloning grid image own current dst i s l own') (on : grid)
    (owned : own (.directory dst) = some x)
    (source : own (.directory src) = some w) (low : 2 ≤ i) (index : i < pageEntries)
    {round : Round PagingState PagingState} (done : cloneTable src dst i s = .ok round) :
    round.Ends (fun s' => ∃ l' own'', Cloning grid image own current dst (i + 1) s' l' own'' ∧
      KeepsEntries dst own' own'' s.mem s'.mem ∧ Served l (entryRequests s.mem src i) l' s s')
      (fun s' => CloneFailed grid image own current dst s' ∧
        ∀ rest, Noted (userPages l (entryRequests s.mem src i ++ rest)) s s') := by
  have layout := cloning.layout
  have owned' : own' (.directory dst) = some x := (cloning.dirs dst).trans owned
  have source' : own' (.directory src) = some w := (cloning.dirs src).trans source
  unfold Paging.cloneTable at done
  unfold entryRequests
  cases here : present (entry s.mem src i) with
  | false =>
      rw [here, if_neg (by decide)] at done
      cases done
      rw [if_neg (by simp)]
      exact ⟨l, own', ⟨layout, cloning.dirs, cloning.current, fun k low' =>
        cloning.empty k (by omega)⟩, fun a d u _ _ found => ⟨found, fun _ _ => rfl⟩, Serves.nil.served rfl⟩
  | true =>
      rw [here, if_pos rfl] at done
      rw [if_pos ⟨low, rfl⟩]
      obtain ⟨z, table, same⟩ := layout.tableOf source' low index here
      simp only [same] at done ⊢
      obtain ⟨⟨s₁, t⟩, taken, rest⟩ := Outcome.bind_eq_ok.mp done
      simp only at rest
      rcases layout.allocTable taken with
        ⟨rfl, rfl⟩ | ⟨l₁, y, rfl, serves, made, next, holds, fresh, kept, empty, entries⟩
      · rw [if_pos rfl] at rest
        obtain ⟨s₂, destroyed, last⟩ := Outcome.bind_eq_ok.mp rest
        cases last
        exact ⟨CloneFailed.of_destroy layout on cloning.dirs cloning.current owned destroyed,
          fun _ => Noted.of_eq (made_destroyDirectory destroyed)⟩
      · have positive := home_pos next holds
        rw [if_neg (by omega)] at rest
        obtain ⟨inner, loop, last⟩ := Outcome.bind_eq_ok.mp rest
        have other : src ≠ dst := by
          -- the copy has no table here yet, the source does
          rintro rfl
          rw [cloning.empty i le_rfl index] at here
          cases here
        obtain ⟨start, begun⟩ := cloning.addTable owned' index next holds fresh kept empty entries
        obtain ⟨there, column⟩ := begun _ src z rfl other table
        have rows : tableRequests s₁.mem (home z) pageEntries = tableRequests s.mem (home z) pageEntries :=
          List.flatMap_congr fun j member => by rw [column j (List.mem_range.mp member)]
        have filled := start.clonePages on owned index other there (Function.update_self _ _ _) loop
        rw [rows] at filled
        cases inner with
        | exit s₂ =>
            cases last
            refine ⟨filled.1, fun rest => ?_⟩
            rw [List.cons_append, ← List.singleton_append]
            exact (serves.served made).noted (filled.2 rest)
        | next s₂ =>
            cases last
            obtain ⟨l₂, own₂, copied, linked, keeps, served⟩ := filled
            obtain ⟨done, still⟩ :=
              copied.linkTable ((copied.dirs dst).trans owned) low index linked flagBits_lt
            refine ⟨l₂, own₂, done, (begun.trans keeps).trans still, ?_⟩
            rw [← List.singleton_append]
            exact (serves.served made).trans served

/-- **The outer loop of `paging_clone_directory`.** -/
theorem Cloning.cloneTables {current dst src w : Nat} (cloning : Cloning grid image own current dst 2 s l own)
    (on : grid) (owned : own (.directory dst) = some x) (source : own (.directory src) = some w) (other : src ≠ dst)
    {outer : Round PagingState PagingState}
    (loop : forLoop (Paging.cloneTable src dst) 2 (pageEntries - 2) s = .ok outer) :
    outer.Ends (fun s' => ∃ l' own', Cloning grid image own current dst pageEntries s' l' own' ∧
      Served l (cloneRequests s.mem src pageEntries) l' s s')
      (fun s' => CloneFailed grid image own current dst s' ∧
        ∀ rest, Noted (userPages l (cloneRequests s.mem src pageEntries ++ rest)) s s') := by
  have invariant := @forLoop_inv _ _ (Paging.cloneTable src dst)
    (fun i p => ∃ l' own', Cloning grid image own current dst i p l' own' ∧
      KeepsEntries dst own own' s.mem p.mem ∧ Served l (cloneRequests s.mem src i) l' s p)
    (fun p => CloneFailed grid image own current dst p ∧
      ∀ rest, Noted (userPages l (cloneRequests s.mem src pageEntries ++ rest)) s p)
    2 (pageEntries - 2) s
    ⟨l, own, cloning, fun a d u _ _ found => ⟨found, fun _ _ => rfl⟩, Serves.nil.served rfl⟩
    (by
      rintro i p round low high ⟨l', own', here, keeps, served⟩ body
      have index : i < pageEntries := by
        simp only [pageEntries] at *
        omega
      have step := here.cloneTable on owned source low index body
      rw [keeps.entryRequests cloning.layout other source low index] at step
      cases round with
      | next p' =>
          obtain ⟨l'', own'', next', keeps', served'⟩ := step
          refine ⟨l'', own'', next', keeps.trans keeps', ?_⟩
          rw [cloneRequests_succ]
          exact served.trans served'
      | exit p' =>
          obtain ⟨failed, noted⟩ := step
          refine ⟨failed, fun rest => ?_⟩
          obtain ⟨more, split⟩ := exists_append_of_le (Nat.succ_le_of_lt index)
          rw [cloneRequests, split, ← cloneRequests, cloneRequests_succ, List.append_assoc,
            List.append_assoc]
          exact served.noted (noted _)) _ loop
  cases outer with
  | exit s' => exact invariant
  | next s' =>
      obtain ⟨l', own', copied, _, served⟩ := invariant
      exact ⟨l', own', copied, served⟩

/-- **`paging_clone_directory`**: NULL and the same directories, or one more directory. -/
theorem Layout.cloneDirectory {src w : Nat} (layout : Layout grid image s l own ∅) (on : grid)
    (source : own (.directory src) = some w) (done : pagingCloneDirectory s src = .ok (s', d)) :
    ∃ l' own', Layout grid image s' l' own' ∅ ∧ s'.current = s.current ∧
      ((d = 0 ∧ SameDirs own own' ∧ ∀ rest,
        Noted (userPages l (.entries :: (cloneRequests s.mem src pageEntries ++ rest))) s s') ∨
      (d ≠ 0 ∧ own (.directory d) = none ∧ (∃ x, own' (.directory d) = some x) ∧
        SameDirsBut d own own' ∧
        Served l (.entries :: cloneRequests s.mem src pageEntries) l' s s')) := by
  have nonzero := directory_pos layout source
  unfold pagingCloneDirectory at done
  rw [if_neg (by omega)] at done
  obtain ⟨⟨h, dst⟩, taken, rest⟩ := Outcome.bind_eq_ok.mp done
  simp only at rest
  rcases layout.takeAligned taken with ⟨rfl, rfl⟩ | ⟨l₁, x, rfl, placed, next, holds, fresh, same⟩
  · cases rest
    exact ⟨l, own, layout, rfl, Or.inl ⟨rfl, fun _ => rfl, fun _ => Noted.of_eq rfl⟩⟩
  · have positive := home_pos next holds
    rw [if_neg (by omega)] at rest
    have none := next.directory_fresh holds fresh
    have tracked := Tracked.directory next source
    have reads := freshDirectory_reads next holds fresh tracked
    obtain ⟨first, second⟩ := next.shared src w source
    rw [first, second] at reads
    simp only [PagingState.mem_withHeap] at reads
    rw [reads] at rest
    obtain ⟨created, empty, others⟩ := next.newDirectory holds fresh
    obtain ⟨outer, loop, last⟩ := Outcome.bind_eq_ok.mp rest
    have other : src ≠ home x := by
      rintro rfl
      rw [none] at source
      cases source
    have kept : Function.update own (.directory (home x)) (some x) (.directory src) = some w := by
      rw [Function.update_of_ne (by simpa using other), source]
    have mine : Function.update own (.directory (home x)) (some x) (.directory (home x)) = some x :=
      Function.update_self _ _ _
    have dirs : SameDirsBut (home x) own (Function.update own (.directory (home x)) (some x)) :=
      fun d' other => Function.update_of_ne (by simpa using other) _ _
    have begun : KeepsEntries (home x) own (Function.update own (.directory (home x)) (some x)) s.mem
        (freshDirectory h.mem (home x) (entry h.mem image.directory 0)
          (entry h.mem image.directory 1)) := by
      intro a d u of away found
      have page : Tracked image own (home u) := Tracked.home (Owner.structural_of_dir of) found
      refine ⟨(Function.update_of_ne ?_ _ _).trans found, fun k high => ?_⟩
      · rintro rfl
        exact away (Option.some.inj of).symm
      · exact (others _ page k high).trans (same _ page k high)
    have start : Cloning grid image (Function.update own (.directory (home x)) (some x)) s.current (home x) 2
        ((s.withHeap h).write (freshDirectory h.mem (home x) (entry h.mem image.directory 0)
          (entry h.mem image.directory 1))) l₁ (Function.update own (.directory (home x)) (some x)) := by
      refine ⟨created, fun _ => rfl, rfl, fun k low high => ?_⟩
      have zero := empty k low high
      rw [PagingState.mem_withHeap] at zero
      rw [PagingState.mem_write, zero]
      decide
    have copied := start.cloneTables on mine kept other loop
    rw [PagingState.mem_write, begun.cloneRequests layout other source le_rfl] at copied
    have asked : Served l [.entries] l₁ s ((s.withHeap h).write (freshDirectory h.mem (home x)
        (entry h.mem image.directory 0) (entry h.mem image.directory 1))) :=
      (Serves.entries placed).served rfl
    cases outer with
    | next s₁ =>
        cases last
        obtain ⟨l₂, own₂, copied, served⟩ := copied
        have all := asked.trans served
        rw [List.singleton_append] at all
        exact ⟨l₂, own₂, copied.layout, copied.current, Or.inr ⟨by omega, none,
          ⟨x, (copied.dirs _).trans mine⟩, fun d' away => (copied.dirs d').trans (dirs d' away), all⟩⟩
    | exit s₁ =>
        cases last
        obtain ⟨⟨l₂, own₂, laid, lost, dirs', current⟩, noted⟩ := copied
        refine ⟨l₂, own₂, laid, current, Or.inl ⟨rfl, fun d' => ?_, fun rest => ?_⟩⟩
        · by_cases equal : d' = home x
          · rw [equal, lost, none]
          · rw [dirs' d' equal, dirs d' equal]
        · rw [← List.singleton_append]
          exact asked.noted (noted rest)

end Clone

end Kfs.Paging
