/-
**What `paging_destroy_directory` frees.**

`frees m d` is the multiset of the addresses that the entries of a directory lead to: every page of every
table, every table, and the directory itself. It is a function of the memory alone, so that a change of
one entry is a change of one summand: mapping a page adds the page (`frees_setPage`), linking a table adds
the table with its pages (`frees_setTable`), and what happens outside the pages of entries adds nothing
(`frees_congr`).
-/

import Kfs.Paging.Tables
import Mathlib.Algebra.BigOperators.Group.Finset.Basic
import Mathlib.Algebra.Order.Group.Multiset

namespace Kfs.Paging

open Kfs.Heap Memory

/-- The page an entry of a table leads to. -/
def pageFree (m : Memory) (table j : Nat) : Multiset Nat :=
  if present (entry m table j) then {frame (entry m table j)} else 0

/-- The pages of a table. -/
def pageFrees (m : Memory) (table : Nat) : Multiset Nat :=
  ∑ j ∈ Finset.range pageEntries, pageFree m table j

/-- The table an entry of a directory leads to, and its pages. -/
def tableFrees (m : Memory) (dir i : Nat) : Multiset Nat :=
  if present (entry m dir i) then frame (entry m dir i) ::ₘ pageFrees m (frame (entry m dir i)) else 0

/-- A directory, its tables above the kernel's part, and their pages. -/
def frees (m : Memory) (dir : Nat) : Multiset Nat :=
  dir ::ₘ ∑ i ∈ Finset.Ico 2 pageEntries, tableFrees m dir i

/-! ### Sums of multisets -/

section Sums

variable {ι α : Type} [DecidableEq ι] {s : Finset ι} {f g : ι → Multiset α} {i k : ι} {a b : α}

/-- The parts of a sum without duplicates are apart. -/
theorem ne_of_mem_sum (nodup : (∑ i ∈ s, f i).Nodup) (first : i ∈ s) (second : k ∈ s) (other : i ≠ k)
    (inFirst : a ∈ f i) (inSecond : b ∈ f k) : a ≠ b := by
  rw [← Finset.add_sum_erase s f first] at nodup
  rintro rfl
  refine (Multiset.disjoint_left.mp (Multiset.nodup_add.mp nodup).2.2) inFirst ?_
  exact Multiset.mem_sum.mpr ⟨k, Finset.mem_erase.mpr ⟨other.symm, second⟩, inSecond⟩

/-- A sum in which one part grows. -/
theorem sum_grows {more : Multiset α} (member : k ∈ s) (here : g k = more + f k)
    (others : ∀ i ∈ s, i ≠ k → g i = f i) : ∑ i ∈ s, g i = more + ∑ i ∈ s, f i := by
  rw [← Finset.add_sum_erase s g member, ← Finset.add_sum_erase s f member, here, add_assoc]
  congr 2
  refine Finset.sum_congr rfl fun i inside => ?_
  obtain ⟨other, member⟩ := Finset.mem_erase.mp inside
  exact others i member other

end Sums

section Frees

variable {m m' : Memory} {a d e i j k t w : Nat}

/-! ### Reading -/

theorem pageFrees_eq (m : Memory) (t : Nat) :
    pageFrees m t = ∑ j ∈ Finset.Ico 0 pageEntries, pageFree m t j := by
  rw [pageFrees, Finset.range_eq_Ico]

theorem self_mem_frees : d ∈ frees m d := by
  rw [frees]
  exact Multiset.mem_cons_self _ _

/-- A table of a directory. -/
theorem table_mem_tableFrees (here : present (entry m d i) = true) :
    frame (entry m d i) ∈ tableFrees m d i := by
  rw [tableFrees, if_pos here, Multiset.mem_cons]
  exact .inl rfl

theorem mem_frees_of_table (low : 2 ≤ i) (index : i < pageEntries) (member : a ∈ tableFrees m d i) :
    a ∈ frees m d := by
  rw [frees]
  exact Multiset.mem_cons_of_mem (Multiset.mem_sum.mpr ⟨i, Finset.mem_Ico.mpr ⟨low, index⟩, member⟩)

/-- The tables of a directory are other pages than the directory. -/
theorem table_ne_directory (nodup : (frees m d).Nodup) (low : 2 ≤ i) (index : i < pageEntries)
    (here : present (entry m d i) = true) : frame (entry m d i) ≠ d := by
  intro same
  refine (Multiset.nodup_cons.mp nodup).1 ?_
  refine Multiset.mem_sum.mpr ⟨i, Finset.mem_Ico.mpr ⟨low, index⟩, ?_⟩
  have member := table_mem_tableFrees here
  rwa [same] at member

/-- Different entries lead to different tables. -/
theorem table_ne_table (nodup : (frees m d).Nodup) (low : 2 ≤ i) (index : i < pageEntries)
    (low' : 2 ≤ k) (index' : k < pageEntries) (other : i ≠ k) (here : present (entry m d i) = true)
    (here' : present (entry m d k) = true) : frame (entry m d i) ≠ frame (entry m d k) :=
  ne_of_mem_sum (Multiset.nodup_cons.mp nodup).2 (Finset.mem_Ico.mpr ⟨low, index⟩)
    (Finset.mem_Ico.mpr ⟨low', index'⟩) other (table_mem_tableFrees here) (table_mem_tableFrees here')

/-! ### Changes elsewhere -/

theorem pageFrees_congr (same : ∀ j < pageEntries, entry m' t j = entry m t j) :
    pageFrees m' t = pageFrees m t := by
  refine Finset.sum_congr rfl fun j inside => ?_
  rw [pageFree, pageFree, same j (Finset.mem_range.mp inside)]

theorem tableFrees_congr (row : entry m' d i = entry m d i)
    (column : present (entry m d i) = true → ∀ j < pageEntries,
      entry m' (frame (entry m d i)) j = entry m (frame (entry m d i)) j) :
    tableFrees m' d i = tableFrees m d i := by
  rw [tableFrees, tableFrees, row]
  split
  · rename_i here
    rw [pageFrees_congr (column here)]
  · rfl

/-- **What leaves the pages of entries alone** changes nothing. -/
theorem frees_congr (same : ∀ a ∈ frees m d, ∀ j < pageEntries, entry m' a j = entry m a j) :
    frees m' d = frees m d := by
  rw [frees, frees]
  refine congrArg _ (Finset.sum_congr rfl fun i inside => ?_)
  obtain ⟨low, index⟩ := Finset.mem_Ico.mp inside
  refine tableFrees_congr (same d self_mem_frees i index) fun here => same _ ?_
  exact mem_frees_of_table low index (table_mem_tableFrees here)

/-! ### Changing one entry -/

/-- A directory without tables. -/
theorem frees_empty (empty : ∀ i, 2 ≤ i → i < pageEntries → present (entry m d i) = false) :
    frees m d = {d} := by
  rw [frees, Finset.sum_eq_zero fun i inside => ?_]
  · rfl
  · obtain ⟨low, index⟩ := Finset.mem_Ico.mp inside
    rw [tableFrees, empty i low index, if_neg (by decide)]

/-- An empty table leads nowhere. -/
theorem pageFrees_empty (empty : ∀ j < pageEntries, present (entry m t j) = false) : pageFrees m t = 0 := by
  refine Finset.sum_eq_zero fun j inside => ?_
  rw [pageFree, empty j (Finset.mem_range.mp inside), if_neg (by decide)]

theorem pageFrees_setEntry (aligned : pageSize ∣ t) (index : j < pageEntries)
    (absent : present (entry m t j) = false) (small : e < 2 ^ 32) (here : present e = true) :
    pageFrees (setEntry m t j e) t = frame e ::ₘ pageFrees m t := by
  have entries : ∀ k < pageEntries, entry (setEntry m t j e) t k = if k = j then e else entry m t k := by
    intro k inside
    rw [entry_setEntry aligned aligned index inside, Nat.mod_eq_of_lt small]
    simp
  rw [← Multiset.singleton_add]
  refine sum_grows (Finset.mem_range.mpr index) ?_ fun i inside other => ?_
  · rw [pageFree, entries j index, if_pos rfl, if_pos here, pageFree, absent, if_neg (by decide), add_zero]
  · rw [pageFree, entries i (Finset.mem_range.mp inside), if_neg other, pageFree]

/-- **Mapping a page** in a table of the directory. -/
theorem frees_setPage (nodup : (frees m d).Nodup) (aligned : pageSize ∣ d) (low : 2 ≤ k)
    (index : k < pageEntries) (table : present (entry m d k) = true) (same : frame (entry m d k) = t)
    (inside : j < pageEntries) (absent : present (entry m t j) = false) (small : e < 2 ^ 32)
    (here : present e = true) : frees (setEntry m t j e) d = frame e ::ₘ frees m d := by
  subst same
  have apart := table_ne_directory nodup low index table
  have row : ∀ i < pageEntries, entry (setEntry m (frame (entry m d k)) j e) d i = entry m d i := by
    intro i index'
    rw [entry_setEntry dvd_frame aligned inside index', if_neg fun both => apart both.1.symm]
  rw [frees, frees, Multiset.cons_swap, ← Multiset.singleton_add (frame e)]
  refine congrArg _ ?_
  refine sum_grows (Finset.mem_Ico.mpr ⟨low, index⟩) ?_ fun i member other => ?_
  · rw [tableFrees, row k index, if_pos table, pageFrees_setEntry dvd_frame inside absent small here,
      tableFrees, if_pos table, Multiset.cons_swap, Multiset.singleton_add]
  · obtain ⟨low', index'⟩ := Finset.mem_Ico.mp member
    refine tableFrees_congr (row i index') fun present' j' inside' => ?_
    rw [entry_setEntry dvd_frame dvd_frame inside inside', if_neg]
    exact fun both => table_ne_table nodup low' index' low index other present' table both.1

/-- **Linking a table** with its pages. -/
theorem frees_setTable (nodup : (frees m d).Nodup) (aligned : pageSize ∣ d) (low : 2 ≤ k)
    (index : k < pageEntries) (absent : present (entry m d k) = false) (small : e < 2 ^ 32)
    (here : present e = true) (apart : frame e ≠ d) :
    frees (setEntry m d k e) d = (frame e ::ₘ pageFrees m (frame e)) + frees m d := by
  have row : ∀ i < pageEntries, entry (setEntry m d k e) d i = if i = k then e else entry m d i := by
    intro i inside
    rw [entry_setEntry aligned aligned index inside, Nat.mod_eq_of_lt small]
    simp
  have column : ∀ a, pageSize ∣ a → a ≠ d → ∀ j < pageEntries,
      entry (setEntry m d k e) a j = entry m a j := by
    intro a aligned' other j inside
    rw [entry_setEntry aligned aligned' index inside, if_neg fun both => other both.1]
  rw [frees, frees, Multiset.add_cons]
  refine congrArg _ ?_
  refine sum_grows (Finset.mem_Ico.mpr ⟨low, index⟩) ?_ fun i member other => ?_
  · rw [tableFrees, row k index, if_pos rfl, if_pos here, tableFrees, absent, if_neg (by decide), add_zero,
      pageFrees_congr (column _ dvd_frame apart)]
  · obtain ⟨low', index'⟩ := Finset.mem_Ico.mp member
    refine tableFrees_congr (by rw [row i index', if_neg other]) fun present' => ?_
    exact column _ dvd_frame (table_ne_directory nodup low' index' present')

end Frees

attribute [irreducible] pageFrees frees

end Kfs.Paging
