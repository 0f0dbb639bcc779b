/-
**Two ways to look a name up.**

`ext2_lookup` compares lengths and then bytes, and stops at the first match. `vfs_ext2_finddir` passes
`finddir_callback` to `ext2_read_dir`: the callback copies a name into a buffer of 256 bytes, compares C
strings, and does nothing once it has found one. On a directory with well-placed entries both give the
first entry in use of that name: `lookups_agree`.
-/

import Kfs.Disk.Directory

namespace Kfs.Vfs

open Kfs.Disk Strings

/-- `finddir_ctx_t` besides the name. -/
structure FinddirCtx where
  inode : Nat
  found : Bool
  deriving DecidableEq, Repr

/-- `finddir_callback`. -/
def finddirCallback (name : List UInt8) (ctx : FinddirCtx) (entry : Ext2DirEntry) : FinddirCtx :=
  if ctx.found then ctx
  else
    let nameLen := if entry.name.length < 255 then entry.name.length else 255
    if strcmp (entry.name.take nameLen) name = 0 then ⟨entry.inode, true⟩ else ctx

/-- The scan of `vfs_ext2_finddir`: the inode it goes on with, `none` when it returns NULL. -/
def finddirScan (v : Volume) (fs : Filesystem) (g : DirGrants) (fresh : Memory) (inodeNum : Nat)
    (name : List UInt8) : Outcome (Option Nat) := do
  let (ctx, _) ← ext2ReadDir v fs g fresh inodeNum (finddirCallback name) ⟨0, false⟩
  return if ctx.found then some ctx.inode else none

section Agree

variable {v : Volume} {fs : Filesystem} {g : DirGrants} {fresh : Memory} {dir : Nat} {name : List UInt8}
  {entries : List Ext2DirEntry}

/-- Once found, nothing changes any more. -/
theorem foldl_found {ctx : FinddirCtx} (found : ctx.found = true) :
    entries.foldl (finddirCallback name) ctx = ctx := by
  induction entries with
  | nil => rfl
  | cons entry entries ih => rw [List.foldl_cons, finddirCallback, if_pos found, ih]

/-- **The callback keeps the first match.** -/
theorem foldl_finddir (ended : 0 ∉ name)
    (stored : ∀ entry ∈ entries, entry.name.length ≤ 255 ∧ 0 ∉ entry.name) :
    entries.foldl (finddirCallback name) ⟨0, false⟩ =
      match entries.find? fun entry => entry.name = name with
      | some entry => ⟨entry.inode, true⟩
      | none => ⟨0, false⟩ := by
  induction entries with
  | nil => rfl
  | cons entry entries ih =>
      obtain ⟨length, clean⟩ := stored entry List.mem_cons_self
      have whole : entry.name.take (if entry.name.length < 255 then entry.name.length else 255) =
          entry.name := List.take_of_length_le (by split <;> omega)
      have compare : strcmp entry.name name = 0 ↔ entry.name = name := strcmp_eq_zero clean ended
      rw [List.foldl_cons, finddirCallback, if_neg (by decide)]
      simp only [whole, compare]
      by_cases same : entry.name = name
      · rw [if_pos same, foldl_found rfl, List.find?_cons_of_pos (by simpa using same)]
      · rw [if_neg same, ih fun entry member => stored entry (List.mem_cons_of_mem _ member),
          List.find?_cons_of_neg (by simpa using same)]

/-- The first entry in use of a name, by inode. -/
def firstNamed (data : Memory) (size : Nat) (name : List UInt8) : Option Nat :=
  ((inUse (dirEntries data size)).find? fun entry => entry.name = name).map Ext2DirEntry.inode

theorem ext2Lookup_eq {data : Memory} {size : Nat} (ended : 0 ∉ name)
    (read : readDirectory v fs g fresh dir = .ok (some (data, size))) (within : DirWithin data size) :
    ext2Lookup v fs g fresh dir name = .ok (firstNamed data size name) := by
  rw [ext2Lookup, read, Outcome.ok_bind]
  exact lookupLoop_eq within ended stops_first (Nat.zero_le _) (by omega)

theorem finddirScan_eq {data : Memory} {size : Nat} (ended : 0 ∉ name)
    (read : readDirectory v fs g fresh dir = .ok (some (data, size))) (within : DirWithin data size) :
    finddirScan v fs g fresh dir name = .ok (firstNamed data size name) := by
  have stored : ∀ entry ∈ inUse (dirEntries data size), entry.name.length ≤ 255 ∧ 0 ∉ entry.name := by
    intro entry member
    obtain ⟨listed, used⟩ := List.mem_filter.mp member
    obtain ⟨place, visited, rfl⟩ := entriesFrom_mem within stops_first listed
    exact ⟨entryAt_name_length data place, within.names place visited (by simpa using used)⟩
  have scanned : scanDir (finddirCallback name) data size (size + 1) 0 ⟨0, false⟩ =
      .ok ((inUse (dirEntries data size)).foldl (finddirCallback name) ⟨0, false⟩) :=
    scanDir_eq within stops_first (Nat.zero_le _) (by omega)
  simp only [finddirScan, ext2ReadDir, read, Outcome.ok_bind, scanned, Outcome.pure_eq,
    foldl_finddir ended stored, firstNamed]
  cases (inUse (dirEntries data size)).find? fun entry => entry.name = name <;> rfl

/-- **The two lookups agree**, and both give the first entry in use of that name. -/
theorem lookups_agree (v : Volume) (fs : Filesystem) (g : DirGrants) (fresh : Memory) (dir : Nat)
    (ended : 0 ∉ name)
    (within : ∀ data size, readDirectory v fs g fresh dir = .ok (some (data, size)) → DirWithin data size) :
    finddirScan v fs g fresh dir name = ext2Lookup v fs g fresh dir name ∧
      ∀ data size, readDirectory v fs g fresh dir = .ok (some (data, size)) →
        ext2Lookup v fs g fresh dir name = .ok (firstNamed data size name) := by
  refine ⟨?_, fun data size read => ext2Lookup_eq ended read (within data size read)⟩
  cases read : readDirectory v fs g fresh dir with
  | panic message => simp [finddirScan, ext2ReadDir, ext2Lookup, read]
  | diverge => simp [finddirScan, ext2ReadDir, ext2Lookup, read]
  | ok result =>
      cases result with
      | none => simp [finddirScan, ext2ReadDir, ext2Lookup, read]
      | some directory =>
          obtain ⟨data, size⟩ := directory
          rw [finddirScan_eq ended read (within data size read), ext2Lookup_eq ended read (within data size read)]

end Agree

/-- The bytes of a directory: `a`, a deleted `b`, and `b`. -/
def docsBytes : List UInt8 :=
  [11, 0, 0, 0, 12, 0, 1, 1, 97, 0, 0, 0,
    0, 0, 0, 0, 12, 0, 1, 1, 98, 0, 0, 0,
    12, 0, 0, 0, 16, 0, 1, 1, 98, 0, 0, 0, 0, 0, 0, 0]

/-- A disk on which inode 2 is that directory, in block 20. -/
def docsDisk : Volume :=
  { blankVolume with
    byte := fun b x =>
      if b = 5 then if x = 257 then 0x40 else if x = 260 then 40 else if x = 296 then 20 else 0
      else if b = 20 then docsBytes.getD x 0
      else 0 }

def allGranted : DirGrants := ⟨true, true, true⟩

/-- What `readDirectory` gives for it. -/
def docs : Option (Memory × Nat) :=
  (readDirectory docsDisk twoGroups allGranted (fun _ => 0) 2).getD none

theorem docs_read : readDirectory docsDisk twoGroups allGranted (fun _ => 0) 2 = .ok docs :=
  Outcome.eq_ok_getD (by decide +kernel) none

theorem docs_size : docs.map Prod.snd = some 40 := by decide +kernel

theorem docs_entries : docs.map (fun d => (entryAt d.1 0, entryAt d.1 12, entryAt d.1 24)) =
    some (⟨11, 12, [97]⟩, ⟨0, 12, [98]⟩, ⟨12, 16, [98]⟩) := by decide +kernel

/-- What the scans of that directory see. -/
theorem docs_records {data : Memory} {size : Nat} (read : docs = some (data, size)) :
    size = 40 ∧ entryAt data 0 = ⟨11, 12, [97]⟩ ∧ entryAt data 12 = ⟨0, 12, [98]⟩ ∧
      entryAt data 24 = ⟨12, 16, [98]⟩ ∧
      ∀ offset, Visits data 40 offset → offset = 0 ∨ offset = 12 ∨ offset = 24 := by
  have whole := docs_size
  have entries := docs_entries
  rw [read] at whole entries
  simp only [Option.map_some, Option.some.injEq, Prod.mk.injEq] at whole entries
  obtain ⟨first, second, third⟩ := entries
  refine ⟨whole, first, second, third, fun offset visits => ?_⟩
  induction visits with
  | first _ => exact .inl rfl
  | next _ _ inside ih =>
      rcases ih with rfl | rfl | rfl
      · simp [first]
      · simp [second]
      · rw [third] at inside
        exact absurd inside (by decide)

theorem docs_within {data : Memory} {size : Nat} (read : docs = some (data, size)) : DirWithin data size := by
  obtain ⟨rfl, first, second, third, visited⟩ := docs_records read
  refine ⟨by decide, fun offset visits => ?_, fun offset visits => ?_⟩
  · rcases visited offset visits with rfl | rfl | rfl
    · simp [first]
    · simp [second]
    · simp [third]
  · rcases visited offset visits with rfl | rfl | rfl
    · simp [first]
    · simp [second]
    · simp [third]

theorem lookups_agree_docs : ext2Lookup docsDisk twoGroups allGranted (fun _ => 0) 2 [98] = .ok (some 12) ∧
    finddirScan docsDisk twoGroups allGranted (fun _ => 0) 2 [98] = .ok (some 12) := by
  have found : ext2Lookup docsDisk twoGroups allGranted (fun _ => 0) 2 [98] = .ok (some 12) := by
    decide +kernel
  refine ⟨found, (lookups_agree docsDisk twoGroups allGranted _ 2 (by decide) fun data size read => ?_).1.trans
    found⟩
  exact docs_within (Outcome.ok.inj (docs_read.symm.trans read))

end Kfs.Vfs
