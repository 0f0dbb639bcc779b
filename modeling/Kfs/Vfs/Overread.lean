/-
**Scans against malformed directories.**

The loops of `ext2_lookup` and `ext2_read_dir` check that a record starts inside the directory, and that
`rec_len` is not 0. They do not check that its header and its name end there. So the scans of a directory
that `kmalloc` has room for always end, and they read inside it exactly when every record they come to has
its header inside, and its name if it is in use: `scans_inside_iff`.
-/

import Kfs.Vfs.Listing

namespace Kfs.Vfs

open Kfs.Heap Kfs.Disk Strings

/-- `finddir_callback` on the entry at a place. -/
def finddirAt (data : Memory) (name : List UInt8) (ctx : FinddirCtx) (place : Nat) : FinddirCtx :=
  finddirCallback name ctx (entryAt data place)

/-- What it reads of the buffer, besides the header: the bytes `memcpy` takes. -/
def finddirReads (data : Memory) (ctx : FinddirCtx) (place : Nat) : List Span :=
  if ctx.found then []
  else
    let length := (entryAt data place).name.length
    [nameSpan place (if length < 255 then length else 255)]

/-- `readdir_callback` reads nothing of the entry. -/
def readdirReads (_ : ReaddirCtx) (_ : Nat) : List Span := []

/-- `kmalloc` can satisfy a request for so many bytes: one that does not wrap, on some heap. -/
def Satisfiable (size : Nat) : Prop :=
  Heap.NoWrap size ∧ ∃ c h ptr, Reachable c ∧ kmalloc c.heap size = .ok (h, ptr) ∧ ptr ≠ 0

/-- **The scans of a directory stay inside it**: for every name and every index, the loops end, and what
they and their callbacks read lies inside. -/
structure ScansInside (data : Memory) (size : Nat) : Prop where
  lookupEnds : ∀ name, ∃ result, lookupLoop data size name (size + 1) 0 = .ok result
  readDirEnds : ∀ {σ : Type} (callback : σ → Nat → σ) (ctx : σ),
    ∃ ctx', scanDirAt callback data size (size + 1) 0 ctx = .ok ctx'
  lookup : ∀ name, ∀ s ∈ (lookupLogged data size name (size + 1) 0).2, s.Inside size
  finddir : ∀ name, ∀ s ∈ (scanLogged (finddirAt data name) (finddirReads data) data size (size + 1) 0
    ⟨0, false⟩).2, s.Inside size
  readdir : ∀ index, ∀ s ∈ (scanLogged (readdirCallback index) readdirReads data size (size + 1) 0
    ⟨0, none⟩).2, s.Inside size

section Scans

variable {data : Memory} {size : Nat}

/-- A directory that the heap has room for is far from `2 ^ 32` bytes long. -/
theorem Satisfiable.short (satisfiable : Satisfiable size) : size + 2 ^ 16 ≤ 2 ^ 32 := by
  obtain ⟨fits, c, h, ptr, reach, taken, given⟩ := satisfiable
  obtain ⟨l, inv⟩ := reach.inv
  have bounded := kmalloc_bounded inv.heap fits taken given
  unfold heapSize at bounded
  omega

theorem finddirReads_named (ctx : FinddirCtx) (place : Nat) :
    ∀ s ∈ finddirReads data ctx place, ∃ n ≤ (entryAt data place).name.length, s = nameSpan place n := by
  intro s member
  unfold finddirReads at member
  split at member
  · cases member
  · refine ⟨_, ?_, List.mem_singleton.mp member⟩
    split <;> omega

/-- **The logged scans are the scans of the lookups**, with the entry by its place. -/
theorem finddir_scan {name : List UInt8} {fuel offset : Nat} {ctx : FinddirCtx} :
    (scanLogged (finddirAt data name) (finddirReads data) data size fuel offset ctx).1 =
      scanDir (finddirCallback name) data size fuel offset ctx :=
  scanLogged_fst.trans scanDir_eq_at.symm

/-- No entry has a name of 256 bytes. -/
def longName : List UInt8 := List.replicate 256 97

theorem finddirAt_longName (ctx : FinddirCtx) (place : Nat) (missing : ctx.found = false) :
    (finddirAt data longName ctx place).found = false := by
  have ended : 0 ∉ longName := by
    intro member
    exact absurd (List.eq_of_mem_replicate member) (by decide)
  have short := entryAt_name_length data place
  have other : strcmp ((entryAt data place).name.take
      (if (entryAt data place).name.length < 255 then (entryAt data place).name.length else 255)) longName ≠ 0 := by
    intro equal
    have length := strcmp_length ended equal
    rw [List.length_take, longName, List.length_replicate] at length
    omega
  simp only [finddirAt, finddirCallback, missing, Bool.false_eq_true, if_false, if_neg other]

/-- **From scans to records**: the scan for a name that no entry has comes to every record, and reads every
name in use. -/
theorem ScansInside.entries (short : size + 2 ^ 16 ≤ 2 ^ 32) (scans : ScansInside data size) :
    EntriesInside data size := by
  intro place visited
  obtain ⟨header, names⟩ := @scanLogged_covers _ (finddirAt data longName) (finddirReads data) data size
    ⟨0, false⟩ short (fun ctx => ctx.found = false) rfl finddirAt_longName place visited
  refine ⟨scans.finddir longName _ header, fun used => ?_⟩
  obtain ⟨ctx, missing, read⟩ := names used
  have length := entryAt_name_length data place
  have whole : (if (entryAt data place).name.length < 255 then (entryAt data place).name.length else 255) =
      (entryAt data place).name.length := by
    split <;> omega
  have inside := scans.finddir longName (nameSpan place (entryAt data place).name.length) (read _ (by
    rw [finddirReads, missing]
    simp [whole]))
  exact inside

/-- **From records to scans**: what is read belongs to records the scans come to. -/
theorem scansInside_of_entries (short : size + 2 ^ 16 ≤ 2 ^ 32) (inside : EntriesInside data size) :
    ScansInside data size := by
  refine ⟨fun name => lookupLoop_ends short stops_first (by omega) (by omega),
    fun callback ctx => scanDirAt_ends short stops_first (by omega) (by omega), fun name s read => ?_,
    fun name s read => ?_, fun index s read => ?_⟩
  · obtain ⟨place, visited, record⟩ := lookupLogged_reads short stops_first s read
    exact inside.span visited record
  · obtain ⟨place, visited, record⟩ := scanLogged_reads short stops_first finddirReads_named s read
    exact inside.span visited record
  · obtain ⟨place, visited, record⟩ :=
      scanLogged_reads short stops_first (fun _ _ _ member => by cases member) s read
    exact inside.span visited record

end Scans

/-- **The scans stay inside the directory** exactly when every record they come to has its header inside,
and its name if it is in use. -/
theorem scans_inside_iff {data : Memory} {size : Nat} (satisfiable : Satisfiable size) :
    ScansInside data size ↔ EntriesInside data size :=
  ⟨fun scans => scans.entries satisfiable.short, fun inside => scansInside_of_entries satisfiable.short inside⟩

/-- A directory of one record whose name is longer than the directory. -/
def overlong : Memory := fun x => [11, 0, 0, 0, 12, 0, 200, 1].getD x 97

theorem satisfiable_twelve : Satisfiable 12 := by
  have taken := Outcome.eq_ok_getD (show (kmalloc (Client.init fun _ => 0).heap 12).isOk = true by decide +kernel)
    ((Client.init fun _ => 0).heap, 0)
  exact ⟨by decide, _, _, _, ⟨_, [], .nil _⟩, taken, by decide +kernel⟩

theorem scans_inside_docs : ScansInside docsData 40 := by
  have taken := Outcome.eq_ok_getD (show (kmalloc (Client.init fun _ => 0).heap 40).isOk = true by decide +kernel)
    ((Client.init fun _ => 0).heap, 0)
  exact (scans_inside_iff ⟨by decide, _, _, _, ⟨_, [], .nil _⟩, taken, by decide +kernel⟩).mpr docs_formed.inside

/-- **A name past the end.** A lookup of `a` copies 200 bytes of name out of a directory of 12 bytes. -/
theorem overlong_read : Satisfiable 12 ∧
    ⟨8, 200⟩ ∈ (scanLogged (finddirAt overlong [97]) (finddirReads overlong) overlong 12 13 0 ⟨0, false⟩).2 ∧
    ¬ ScansInside overlong 12 := by
  have read : ⟨8, 200⟩ ∈
      (scanLogged (finddirAt overlong [97]) (finddirReads overlong) overlong 12 13 0 ⟨0, false⟩).2 := by
    decide +kernel
  refine ⟨satisfiable_twelve, read, fun scans => ?_⟩
  exact absurd (scans.finddir [97] _ read) (by unfold Span.Inside; decide)

end Kfs.Vfs
