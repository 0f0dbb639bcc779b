/-
**Page entries under a directory with blocks of its own.**

A directory is `Furnished` when it has a block for itself and one for each table of its user part, and all
its tables are distinct. It stays so, with the same page entries, when free memory is taken
(`Furnished.since`), and a page mapped at any address, be it of the kernel's part, changes the entry of
that page only (`Furnished.mapPage`). The directories of all processes are furnished
(`Layout.furnished`).
-/

import Kfs.Paging.Preserved

namespace Kfs.Paging

open Kfs.Heap Memory

/-- A directory with blocks of its own for itself and its tables, which are distinct. -/
structure Furnished (image : KernelImage) (d : Nat) (s : PagingState) (l : List Segment) (x : Nat) :
    Prop where
  rooted : Rooted image d s l x
  tabled : Tabled s.mem d

section Furnished

variable {grid : Prop} {image : KernelImage} {l l' : List Segment} {own : Owner → Option Nat} {m : Memory}
  {s s' : PagingState} {d flags k phys t virt w x : Nat}

/-- The tables for the kernel's part are the kernel's. -/
theorem Rooted.frame_kernel (rooted : Rooted image d s l x) (kernel : ¬ 2 ≤ k) :
    frame (entry s.mem d k) + pageSize ≤ heapStart := by
  obtain zero | one : k = 0 ∨ k = 1 := by omega
  · rw [zero, rooted.kernel.1, frame_or (by decide), frame_or (by decide), frame_of_dvd image.aligned.2.1]
    exact image.low.2.1
  · rw [one, rooted.kernel.2, frame_or (by decide), frame_or (by decide), frame_of_dvd image.aligned.2.2]
    exact image.low.2.2

/-- No table lies in free memory. -/
theorem Rooted.sheltered_frame (rooted : Rooted image d s l x) (index : k < pageEntries)
    (here : present (entry s.mem d k) = true) : Sheltered l (frame (entry s.mem d k)) := by
  by_cases user : 2 ≤ k
  · exact rooted.sheltered_table k user index here
  · exact sheltered_below rooted.heap (rooted.frame_kernel user)

theorem Rooted.ne_zero (rooted : Rooted image d s l x) : d ≠ 0 := by
  have bounds := rooted.held.bounds rooted.heap
  have near := home_bounds rooted.heap rooted.held
  rw [rooted.place]
  omega

namespace Furnished

/-- **Taking free memory** changes no page entry. -/
theorem since {asked : List Request} (furnished : Furnished image d s l x) (taken : Since l s.mem asked s' l')
    (spares : Spares ∅ l l' s.mem s'.mem) : Furnished image d s' l' x ∧
      (∀ k < pageEntries, entry s'.mem d k = entry s.mem d k) ∧
      ∀ w < 2 ^ 32, pageWord s'.mem d w = pageWord s.mem d w := by
  obtain ⟨rooted, tabled⟩ := furnished
  have rows : ∀ k < pageEntries, entry s'.mem d k = entry s.mem d k := fun k index =>
    taken.entry rooted.sheltered index
  refine ⟨⟨⟨taken.heap, rooted.place, spares.holds x _ rooted.held, ⟨?_, ?_⟩, fun k low index here => ?_⟩,
    tabled.congr rows⟩, rows, fun w small => ?_⟩
  · exact (rows 0 (by decide)).trans rooted.kernel.1
  · exact (rows 1 (by decide)).trans rooted.kernel.2
  · rw [rows k index] at here ⊢
    obtain ⟨y, framed, held, other⟩ := rooted.tables k low index here
    exact ⟨y, framed, spares.holds y _ held, other⟩
  · have row := dirIndex_lt small
    unfold pageWord
    rw [rows _ row]
    split
    · rename_i here
      exact taken.entry (rooted.sheltered_frame row here) tableIndex_lt
    · rfl

/-- **A table from the allocator is fresh.** -/
theorem freshTable (furnished : Furnished image d s l x) (done : pagingAllocTable s = .ok (s', t))
    (found : t ≠ 0) : FreshTable s.mem s'.mem d t := by
  obtain ⟨rooted, tabled⟩ := furnished
  rcases (Since.refl rooted.heap).askTable with
    ⟨-, none⟩ | ⟨s₁, y, l', -, taken, nonzero, next, spares, held, -, absent, -⟩
  · cases none.symm.trans done
    exact absurd rfl found
  · cases taken.symm.trans done
    have apart : ∀ {z}, Holds l z (2 * pageSize) → home z ≠ home y := fun {z} mine same =>
      absent _ (home_inj next.heap (spares.holds z _ mine) held same ▸ mine)
    refine ⟨found, ?_, fun k index here => ?_, fun k index => next.entry rooted.sheltered index,
      fun k index here j column => next.entry (rooted.sheltered_frame index here) column⟩
    · rw [rooted.place]
      exact pageApart_of_ne dvd_home dvd_home (apart rooted.held)
    · by_cases user : 2 ≤ k
      · obtain ⟨z, framed, mine, -⟩ := rooted.tables k user index here
        rw [framed]
        exact apart mine
      · have low := rooted.frame_kernel user
        have bounds := held.bounds next.heap
        have near := home_bounds next.heap held
        omega

/-- **A page** at any address, with any flags. -/
theorem mapPage (furnished : Furnished image d s l x) (small : virt < 2 ^ 32) (fits : phys < 2 ^ 32)
    (low : flags < pageSize) (done : pagingMapPageInDirectory s d virt phys flags = .ok s') :
    ∃ l', Furnished image d s' l' x ∧ RowsKept flags s.mem s'.mem d virt ∧
      ∀ w < 2 ^ 32, pageWord s'.mem d w =
        if w / pageSize = virt / pageSize then frame phys ||| flagBits flags ||| pagePresent
        else pageWord s.mem d w := by
  have nonzero := furnished.rooted.ne_zero
  have ready := tableReady_of_mapPage nonzero (fun _ _ taken found => furnished.freshTable taken found) done
  obtain ⟨l', rooted, -⟩ := furnished.rooted.mapPage small (fun _ => low) done
  obtain ⟨s'', done', tabled, rows, words⟩ :=
    mapPage_words nonzero furnished.tabled small fits low ready
  cases done.symm.trans done'
  exact ⟨l', ⟨rooted, tabled⟩, rows, words⟩

end Furnished

/-- **The directories of processes are furnished.** -/
theorem Layout.furnished (layout : Layout grid image s l own ∅) (owned : own (.directory d) = some x) :
    Furnished image d s l x := by
  obtain ⟨first, second⟩ := layout.shared d x owned
  refine ⟨⟨layout.heap, layout.placed d x owned, layout.holds_structural rfl owned,
    ⟨first.trans layout.kernel.first, second.trans layout.kernel.second⟩, fun k low index here => ?_⟩,
    layout.tabled (.inr ⟨x, owned⟩)⟩
  obtain ⟨y, table, framed⟩ := layout.tableOf owned low index here
  refine ⟨y, framed, layout.holds_structural rfl table, fun same => ?_⟩
  cases layout.inj _ _ x owned (same ▸ table)

/-- A page entry that is present is in a table that is. -/
theorem present_pageWord (here : present (pageWord m d w) = true) :
    present (entry m d (dirIndex w)) = true ∧ pageEntry m d w = pageWord m d w := by
  unfold pageWord at here ⊢
  split at here
  · rename_i table
    exact ⟨table, (if_pos table).symm⟩
  · cases here

end Furnished

end Kfs.Paging
