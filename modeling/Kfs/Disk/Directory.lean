/-
**Directories: `ext2_lookup` and `ext2_read_dir`.**

Both read the whole directory into a buffer and go from entry to entry by `rec_len`. What the buffer held
before (`fresh`) is arbitrary. A loop that visits more offsets than the directory has bytes has come back
to one of them, and never ends.

On a directory whose entries lie inside it (`DirWithin`) the loops end, and both are functions of its
entries (`dirEntries`): `scanDir_eq` is a fold over those in use, `lookupLoop_eq` finds the first in use
that matches.
-/

import Kfs.Disk.Data
import Kfs.Strings.Compare

namespace Kfs.Disk

open Strings

/-- `ext2_dir_entry_t`, with the `name_len` bytes of its name. -/
structure Ext2DirEntry where
  inode : Nat
  recLen : Nat
  name : List UInt8
  deriving DecidableEq, Repr

/-- The entry at an offset of the buffer. -/
def entryAt (data : Memory) (offset : Nat) : Ext2DirEntry where
  inode := data.load32 offset
  recLen := data.load32 (offset + 4) % 2 ^ 16
  name := (List.range (data (offset + 6)).toNat).map fun k => data (offset + 8 + k)

/-- Whether the buffers for the inode's block, the directory and the data blocks could be allocated. -/
structure DirGrants where
  inodeBlock : Bool
  directory : Bool
  dataBlock : Bool
  deriving DecidableEq, Repr

section Functions

variable (v : Volume) (fs : Filesystem) (g : DirGrants) (fresh : Memory)

/-- The part that `ext2_lookup` and `ext2_read_dir` have in common: the directory in its buffer and
`i_size`, `none` for -1. -/
def readDirectory (dirInodeNum : Nat) : Outcome (Option (Memory × Nat)) := do
  match ← ext2ReadInode v fs g.inodeBlock dirInodeNum with
  | none => return none
  | some inode =>
      if inode.mode / 2 ^ 12 ≠ 0x4 then return none
      if g.directory = false then return none
      let (data, result) ← ext2ReadInodeData v fs inode ⟨0, inode.size, 0⟩ g.dataBlock fresh
      if result < 0 then return none
      return some (data, inode.size)

/-- The loop of `ext2_lookup`, `none` for not found. -/
def lookupLoop (data : Memory) (size : Nat) (name : List UInt8) :
    (fuel offset : Nat) → Outcome (Option Nat)
  | 0, _ => .diverge
  | fuel + 1, offset =>
      if offset < size then
        let entry := entryAt data offset
        if entry.inode ≠ 0 ∧ entry.name.length = strlen name ∧
            strncmp entry.name.length entry.name name = 0 then .ok (some entry.inode)
        else if entry.recLen = 0 then .ok none
        else lookupLoop data size name fuel ((offset + entry.recLen) % 2 ^ 32)
      else .ok none

/-- `ext2_lookup`, `none` for -1. -/
def ext2Lookup (dirInodeNum : Nat) (name : List UInt8) : Outcome (Option Nat) := do
  match ← readDirectory v fs g fresh dirInodeNum with
  | none => return none
  | some (data, size) => lookupLoop data size name (size + 1) 0

/-- The loop of `ext2_read_dir`. -/
def scanDir {σ : Type} (callback : σ → Ext2DirEntry → σ) (data : Memory) (size : Nat) :
    (fuel offset : Nat) → σ → Outcome σ
  | 0, _, _ => .diverge
  | fuel + 1, offset, ctx =>
      if offset < size then
        let entry := entryAt data offset
        let ctx := if entry.inode ≠ 0 then callback ctx entry else ctx
        if entry.recLen = 0 then .ok ctx
        else scanDir callback data size fuel ((offset + entry.recLen) % 2 ^ 32) ctx
      else .ok ctx

/-- `ext2_read_dir`. -/
def ext2ReadDir {σ : Type} (dirInodeNum : Nat) (callback : σ → Ext2DirEntry → σ) (ctx : σ) :
    Outcome (σ × Int) := do
  match ← readDirectory v fs g fresh dirInodeNum with
  | none => return (ctx, -1)
  | some (data, size) =>
      let ctx ← scanDir callback data size (size + 1) 0 ctx
      return (ctx, 0)

end Functions

/-! ### The entries of a directory -/

/-- The entries from an offset on. -/
def entriesFrom (data : Memory) (size : Nat) : (fuel offset : Nat) → List Ext2DirEntry
  | 0, _ => []
  | fuel + 1, offset =>
      if offset < size then
        entryAt data offset ::
          if (entryAt data offset).recLen = 0 then []
          else entriesFrom data size fuel (offset + (entryAt data offset).recLen)
      else []

/-- The entries of a directory, in order. -/
def dirEntries (data : Memory) (size : Nat) : List Ext2DirEntry := entriesFrom data size (size + 1) 0

/-- Those in use. -/
def inUse (entries : List Ext2DirEntry) : List Ext2DirEntry := entries.filter fun entry => entry.inode ≠ 0

/-- Where the entries are. -/
inductive Visits (data : Memory) (size : Nat) : Nat → Prop
  | first (some : 0 < size) : Visits data size 0
  | next {offset : Nat} (here : Visits data size offset) (goes : (entryAt data offset).recLen ≠ 0)
      (inside : offset + (entryAt data offset).recLen < size) :
      Visits data size (offset + (entryAt data offset).recLen)

/-- **Every record lies inside the directory**, and names in use have no NUL. -/
structure DirWithin (data : Memory) (size : Nat) : Prop where
  word : size < 2 ^ 32
  record : ∀ offset, Visits data size offset → offset + (entryAt data offset).recLen ≤ size
  names : ∀ offset, Visits data size offset → (entryAt data offset).inode ≠ 0 →
    0 ∉ (entryAt data offset).name

section Entries

variable {data : Memory} {size fuel offset : Nat} {name : List UInt8}

/-- An offset of the loop: that of an entry, or the end. -/
def Stops (data : Memory) (size offset : Nat) : Prop := offset < size → Visits data size offset

theorem stops_first : Stops data size 0 := Visits.first

theorem inUse_cons {entry : Ext2DirEntry} {entries : List Ext2DirEntry} : inUse (entry :: entries) =
    if entry.inode ≠ 0 then entry :: inUse entries else inUse entries := by
  unfold inUse
  rw [List.filter_cons]
  simp

theorem foldl_used {σ : Type} {callback : σ → Ext2DirEntry → σ} {ctx : σ} {entry : Ext2DirEntry}
    {entries : List Ext2DirEntry} :
    (if entry.inode ≠ 0 then entry :: entries else entries).foldl callback ctx =
      entries.foldl callback (if entry.inode ≠ 0 then callback ctx entry else ctx) := by
  split <;> rfl

/-- An entry that is not in use or has another name is passed over. -/
theorem find_skip {entry : Ext2DirEntry} {entries : List Ext2DirEntry}
    (other : ¬ (entry.inode ≠ 0 ∧ entry.name = name)) :
    (inUse (entry :: entries)).find? (fun entry => entry.name = name) =
      (inUse entries).find? fun entry => entry.name = name := by
  rw [inUse_cons]
  split
  · rename_i used
    exact List.find?_cons_of_neg (by simpa using fun same => other ⟨used, same⟩)
  · rfl

/-- The comparison of `ext2_lookup` is equality of names. -/
theorem matches_iff {entry : Ext2DirEntry} (stored : entry.inode ≠ 0 → 0 ∉ entry.name) (ended : 0 ∉ name) :
    (entry.inode ≠ 0 ∧ entry.name.length = strlen name ∧
      strncmp entry.name.length entry.name name = 0) ↔ entry.inode ≠ 0 ∧ entry.name = name := by
  rw [strlen_eq ended]
  constructor
  · rintro ⟨used, length, zero⟩
    exact ⟨used, (strncmp_eq_zero (stored used) length).mp zero⟩
  · rintro ⟨used, same⟩
    have length : entry.name.length = name.length := congrArg List.length same
    exact ⟨used, length, (strncmp_eq_zero (stored used) length).mpr same⟩

/-- **The step from one entry to the next** does not wrap and goes on. -/
theorem DirWithin.next (within : DirWithin data size) (stops : Stops data size offset) (here : offset < size)
    (goes : (entryAt data offset).recLen ≠ 0) :
    (offset + (entryAt data offset).recLen) % 2 ^ 32 = offset + (entryAt data offset).recLen ∧
      Stops data size (offset + (entryAt data offset).recLen) := by
  have record := within.record offset (stops here)
  have word := within.word
  refine ⟨Nat.mod_eq_of_lt (by omega), fun inside => ?_⟩
  exact .next (stops here) goes inside

theorem entriesFrom_mem {entry : Ext2DirEntry} (within : DirWithin data size)
    (stops : Stops data size offset) (member : entry ∈ entriesFrom data size fuel offset) :
    ∃ place, Visits data size place ∧ entry = entryAt data place := by
  induction fuel generalizing offset with
  | zero => cases member
  | succ fuel ih =>
      rw [entriesFrom] at member
      split at member
      · rename_i here
        rcases List.mem_cons.mp member with rfl | later
        · exact ⟨offset, stops here, rfl⟩
        · split at later
          · cases later
          · rename_i goes
            exact ih (within.next stops here goes).2 later
      · cases member

theorem entryAt_name_length (data : Memory) (offset : Nat) : (entryAt data offset).name.length ≤ 255 := by
  have small := (data (offset + 6)).toNat_lt
  rw [entryAt, List.length_map, List.length_range]
  omega

/-- **`ext2_read_dir` folds its callback over the entries in use.** -/
theorem scanDir_eq {σ : Type} {callback : σ → Ext2DirEntry → σ} {ctx : σ} (within : DirWithin data size)
    (stops : Stops data size offset) (most : offset ≤ size) (enough : size < fuel + offset) :
    scanDir callback data size fuel offset ctx =
      .ok ((inUse (entriesFrom data size fuel offset)).foldl callback ctx) := by
  induction fuel generalizing offset ctx with
  | zero => omega
  | succ fuel ih =>
      rw [scanDir, entriesFrom]
      by_cases here : offset < size
      · rw [if_pos here, if_pos here, inUse_cons]
        by_cases last : (entryAt data offset).recLen = 0
        · simp only [if_pos last, foldl_used]
          rfl
        · obtain ⟨step, stops'⟩ := within.next stops here last
          have record := within.record offset (stops here)
          simp only [if_neg last, step, foldl_used]
          exact ih stops' record (by omega)
      · rw [if_neg here, if_neg here]
        rfl

/-- **`ext2_lookup` finds the first entry in use of that name.** -/
theorem lookupLoop_eq (within : DirWithin data size) (ended : 0 ∉ name) (stops : Stops data size offset)
    (most : offset ≤ size) (enough : size < fuel + offset) :
    lookupLoop data size name fuel offset =
      .ok (((inUse (entriesFrom data size fuel offset)).find? fun entry => entry.name = name).map
        Ext2DirEntry.inode) := by
  induction fuel generalizing offset with
  | zero => omega
  | succ fuel ih =>
      rw [lookupLoop, entriesFrom]
      by_cases here : offset < size
      · have match_iff := matches_iff (within.names offset (stops here)) ended
        simp only [if_pos here, match_iff]
        by_cases found : (entryAt data offset).inode ≠ 0 ∧ (entryAt data offset).name = name
        · rw [if_pos found, inUse_cons, if_pos found.1, List.find?_cons_of_pos (by simpa using found.2)]
          rfl
        · rw [if_neg found, find_skip found]
          by_cases last : (entryAt data offset).recLen = 0
          · simp only [if_pos last]
            rfl
          · obtain ⟨step, stops'⟩ := within.next stops here last
            have record := within.record offset (stops here)
            simp only [if_neg last, step]
            exact ih stops' record (by omega)
      · simp only [if_neg here]
        rfl

end Entries

end Kfs.Disk
