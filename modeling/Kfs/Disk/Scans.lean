/-
**What the scans of a directory read.**

The two loops go from record to record by fields of the records themselves. `scanDirAt` is the loop of
`ext2_read_dir` with pointers: its callback gets the place of an entry. The loops with a log
(`lookupLogged`, `scanLogged`) do the same and note every span of the buffer they or their callbacks read.

As long as offsets cannot wrap, both loops end whatever the directory holds (`lookupLoop_ends`,
`scanDirAt_ends`), and a log has spans of visited records only (`lookupLogged_reads`, `scanLogged_reads`).
-/

import Kfs.Disk.Directory

namespace Kfs.Disk

open Strings

/-- The loop of `ext2_read_dir`; the callback gets the place of the entry. -/
def scanDirAt {σ : Type} (callback : σ → Nat → σ) (data : Memory) (size : Nat) :
    (fuel offset : Nat) → σ → Outcome σ
  | 0, _, _ => .diverge
  | fuel + 1, offset, ctx =>
      if offset < size then
        let ctx := if (entryAt data offset).inode ≠ 0 then callback ctx offset else ctx
        if (entryAt data offset).recLen = 0 then .ok ctx
        else scanDirAt callback data size fuel ((offset + (entryAt data offset).recLen) % 2 ^ 32) ctx
      else .ok ctx

/-- The places of the entries in use, from an offset on. -/
def placesFrom (data : Memory) (size : Nat) : (fuel offset : Nat) → List Nat
  | 0, _ => []
  | fuel + 1, offset =>
      if offset < size then
        let rest :=
          if (entryAt data offset).recLen = 0 then []
          else placesFrom data size fuel (offset + (entryAt data offset).recLen)
        if (entryAt data offset).inode ≠ 0 then offset :: rest else rest
      else []

/-- The places of the entries in use, in order. -/
def usedPlaces (data : Memory) (size : Nat) : List Nat := placesFrom data size (size + 1) 0

/-! ### Spans -/

/-- Bytes of the buffer. -/
structure Span where
  offset : Nat
  length : Nat
  deriving DecidableEq, Repr

/-- A span lies inside the directory. -/
def Span.Inside (size : Nat) (s : Span) : Prop := s.offset + s.length ≤ size

/-- The header of the entry at a place. -/
def headerSpan (place : Nat) : Span := ⟨place, 8⟩

/-- The first bytes of its name. -/
def nameSpan (place length : Nat) : Span := ⟨place + 8, length⟩

/-- The number of bytes of its first string that `strncmp` reads. -/
def strncmpReads : Nat → List UInt8 → List UInt8 → Nat
  | 0, _, _ => 0
  | n + 1, s, t => if at0 s ≠ 0 ∧ at0 s = at0 t then strncmpReads n s.tail t.tail + 1 else 1

/-- The loop of `ext2_lookup` with what it reads. -/
def lookupLogged (data : Memory) (size : Nat) (name : List UInt8) :
    (fuel offset : Nat) → Outcome (Option Nat) × List Span
  | 0, _ => (.diverge, [])
  | fuel + 1, offset =>
      if offset < size then
        let entry := entryAt data offset
        let compared :=
          if entry.inode ≠ 0 ∧ entry.name.length = strlen name then
            [nameSpan offset (strncmpReads entry.name.length entry.name name)]
          else []
        if entry.inode ≠ 0 ∧ entry.name.length = strlen name ∧
            strncmp entry.name.length entry.name name = 0 then
          (.ok (some entry.inode), headerSpan offset :: compared)
        else if entry.recLen = 0 then (.ok none, headerSpan offset :: compared)
        else
          let rest := lookupLogged data size name fuel ((offset + entry.recLen) % 2 ^ 32)
          (rest.1, headerSpan offset :: compared ++ rest.2)
      else (.ok none, [])

/-- The loop of `ext2_read_dir` with what it and its callback read. -/
def scanLogged {σ : Type} (callback : σ → Nat → σ) (reads : σ → Nat → List Span) (data : Memory)
    (size : Nat) : (fuel offset : Nat) → σ → Outcome σ × List Span
  | 0, _, _ => (.diverge, [])
  | fuel + 1, offset, ctx =>
      if offset < size then
        let used := (entryAt data offset).inode ≠ 0
        let seen := if used then reads ctx offset else []
        let ctx := if used then callback ctx offset else ctx
        if (entryAt data offset).recLen = 0 then (.ok ctx, headerSpan offset :: seen)
        else
          let rest := scanLogged callback reads data size fuel
            ((offset + (entryAt data offset).recLen) % 2 ^ 32) ctx
          (rest.1, headerSpan offset :: seen ++ rest.2)
      else (.ok ctx, [])

/-- **Every record is inside the directory as far as it is read**: its header, and its name if it is in
use. -/
def EntriesInside (data : Memory) (size : Nat) : Prop :=
  ∀ offset, Visits data size offset → offset + 8 ≤ size ∧
    ((entryAt data offset).inode ≠ 0 → offset + 8 + (entryAt data offset).name.length ≤ size)

section Loops

variable {σ : Type} {callback : σ → Nat → σ} {reads : σ → Nat → List Span} {data data' : Memory}
  {size fuel offset : Nat} {name : List UInt8} {ctx : σ}

/-- A callback that gets the entry gets it by its place. -/
theorem scanDir_eq_at {callback : σ → Ext2DirEntry → σ} :
    scanDir callback data size fuel offset ctx =
      scanDirAt (fun ctx place => callback ctx (entryAt data place)) data size fuel offset ctx := by
  induction fuel generalizing offset ctx with
  | zero => rfl
  | succ fuel ih =>
      rw [scanDir, scanDirAt]
      by_cases here : offset < size
      · rw [if_pos here, if_pos here]
        by_cases last : (entryAt data offset).recLen = 0
        · simp only [if_pos last]
        · simp only [if_neg last]
          exact ih
      · rw [if_neg here, if_neg here]

/-- The log changes nothing. -/
theorem lookupLogged_fst :
    (lookupLogged data size name fuel offset).1 = lookupLoop data size name fuel offset := by
  induction fuel generalizing offset with
  | zero => rfl
  | succ fuel ih =>
      rw [lookupLogged, lookupLoop]
      by_cases here : offset < size
      · simp only [if_pos here]
        split
        · rfl
        · split
          · rfl
          · exact ih
      · simp only [if_neg here]

theorem scanLogged_fst :
    (scanLogged callback reads data size fuel offset ctx).1 =
      scanDirAt callback data size fuel offset ctx := by
  induction fuel generalizing offset ctx with
  | zero => rfl
  | succ fuel ih =>
      rw [scanLogged, scanDirAt]
      by_cases here : offset < size
      · simp only [if_pos here]
        split
        · rfl
        · exact ih
      · simp only [if_neg here]

theorem strncmpReads_le {n : Nat} {s t : List UInt8} : strncmpReads n s t ≤ n := by
  induction n generalizing s t with
  | zero => exact le_refl 0
  | succ n ih =>
      rw [strncmpReads]
      split
      · exact Nat.succ_le_succ ih
      · omega

/-! ### The walk over the records -/

/-- **One step of a scan**: in a directory that is far from `2 ^ 32` bytes long, the next offset does not
wrap. -/
theorem short_next (short : size + 2 ^ 16 ≤ 2 ^ 32) (stops : Stops data size offset) (here : offset < size)
    (goes : (entryAt data offset).recLen ≠ 0) :
    (offset + (entryAt data offset).recLen) % 2 ^ 32 = offset + (entryAt data offset).recLen ∧
      Stops data size (offset + (entryAt data offset).recLen) := by
  have word : (entryAt data offset).recLen < 2 ^ 16 := Nat.mod_lt _ (by decide)
  exact ⟨Nat.mod_eq_of_lt (by omega), fun inside => .next (stops here) goes inside⟩

/-- **The loop of `ext2_lookup` ends.** -/
theorem lookupLoop_ends (short : size + 2 ^ 16 ≤ 2 ^ 32) (stops : Stops data size offset) (some' : 0 < fuel)
    (enough : size < fuel + offset) : ∃ result, lookupLoop data size name fuel offset = .ok result := by
  induction fuel generalizing offset with
  | zero => omega
  | succ fuel ih =>
      rw [lookupLoop]
      by_cases here : offset < size
      · simp only [if_pos here]
        split
        · exact ⟨_, rfl⟩
        · split
          · exact ⟨_, rfl⟩
          · rename_i goes
            obtain ⟨step, stops'⟩ := short_next short stops here goes
            rw [step]
            exact ih stops' (by omega) (by omega)
      · exact ⟨none, if_neg here⟩

/-- **The loop of `ext2_read_dir` ends**, whatever the callback. -/
theorem scanDirAt_ends (short : size + 2 ^ 16 ≤ 2 ^ 32) (stops : Stops data size offset) (some' : 0 < fuel)
    (enough : size < fuel + offset) :
    ∃ ctx', scanDirAt callback data size fuel offset ctx = .ok ctx' := by
  induction fuel generalizing offset ctx with
  | zero => omega
  | succ fuel ih =>
      rw [scanDirAt]
      by_cases here : offset < size
      · simp only [if_pos here]
        split
        · exact ⟨_, rfl⟩
        · rename_i goes
          obtain ⟨step, stops'⟩ := short_next short stops here goes
          rw [step]
          exact ih stops' (by omega) (by omega)
      · exact ⟨ctx, if_neg here⟩

/-- What may be read of the record at a place: its header, and bytes of its name if it is in use. -/
def OfRecord (data : Memory) (place : Nat) (s : Span) : Prop :=
  s = headerSpan place ∨
    (entryAt data place).inode ≠ 0 ∧ ∃ n ≤ (entryAt data place).name.length, s = nameSpan place n

/-- What is read of a record that is inside the directory is inside the directory. -/
theorem EntriesInside.span (inside : EntriesInside data size) {place : Nat} (visited : Visits data size place)
    {s : Span} (read : OfRecord data place s) : s.Inside size := by
  obtain ⟨header, whole⟩ := inside place visited
  rcases read with rfl | ⟨used, n, most, rfl⟩
  · exact header
  · have name := whole used
    simp only [Span.Inside, nameSpan]
    omega

/-- **`ext2_lookup` reads visited records only.** -/
theorem lookupLogged_reads (short : size + 2 ^ 16 ≤ 2 ^ 32) (stops : Stops data size offset) :
    ∀ s ∈ (lookupLogged data size name fuel offset).2,
      ∃ place, Visits data size place ∧ OfRecord data place s := by
  induction fuel generalizing offset with
  | zero => intro s member; cases member
  | succ fuel ih =>
      rw [lookupLogged]
      by_cases here : offset < size
      · have mine : ∀ s ∈ headerSpan offset ::
            (if (entryAt data offset).inode ≠ 0 ∧ (entryAt data offset).name.length = strlen name then
              [nameSpan offset (strncmpReads (entryAt data offset).name.length (entryAt data offset).name name)]
            else []), ∃ place, Visits data size place ∧ OfRecord data place s := by
          intro s member
          refine ⟨offset, stops here, ?_⟩
          rcases List.mem_cons.mp member with rfl | compared
          · exact .inl rfl
          · split at compared
            · rename_i same
              exact .inr ⟨same.1, _, strncmpReads_le, List.mem_singleton.mp compared⟩
            · cases compared
        simp only [if_pos here]
        split
        · exact mine
        · split
          · exact mine
          · rename_i goes
            obtain ⟨step, stops'⟩ := short_next short stops here goes
            refine List.forall_mem_append.mpr ⟨mine, ?_⟩
            rw [step]
            exact ih stops'
      · simp only [if_neg here]
        intro s member
        cases member

/-- **`ext2_read_dir` reads visited records only**, if its callback reads names only. -/
theorem scanLogged_reads (short : size + 2 ^ 16 ≤ 2 ^ 32) (stops : Stops data size offset)
    (named : ∀ ctx place, ∀ s ∈ reads ctx place, ∃ n ≤ (entryAt data place).name.length, s = nameSpan place n) :
    ∀ s ∈ (scanLogged callback reads data size fuel offset ctx).2,
      ∃ place, Visits data size place ∧ OfRecord data place s := by
  induction fuel generalizing offset ctx with
  | zero => intro s member; cases member
  | succ fuel ih =>
      rw [scanLogged]
      by_cases here : offset < size
      · have mine : ∀ s ∈ headerSpan offset ::
            (if (entryAt data offset).inode ≠ 0 then reads ctx offset else []),
            ∃ place, Visits data size place ∧ OfRecord data place s := by
          intro s member
          refine ⟨offset, stops here, ?_⟩
          rcases List.mem_cons.mp member with rfl | seen
          · exact .inl rfl
          · split at seen
            · rename_i used
              exact .inr ⟨used, named ctx offset s seen⟩
            · cases seen
        simp only [if_pos here]
        split
        · exact mine
        · rename_i goes
          obtain ⟨step, stops'⟩ := short_next short stops here goes
          refine List.forall_mem_append.mpr ⟨mine, ?_⟩
          rw [step]
          exact ih stops'
      · simp only [if_neg here]
        intro s member
        cases member

/-- **`ext2_read_dir` comes to every visited record**, with what its callback keeps true. -/
theorem scanLogged_visits (short : size + 2 ^ 16 ≤ 2 ^ 32) {Inv : σ → Prop} (start : Inv ctx)
    (keeps : ∀ ctx place, Inv ctx → Inv (callback ctx place)) {place : Nat} (visited : Visits data size place) :
    ∃ fuel ctx', Inv ctx' ∧ size < fuel + place ∧
      (scanLogged callback reads data size fuel place ctx').2 ⊆
        (scanLogged callback reads data size (size + 1) 0 ctx).2 := by
  induction visited with
  | first _ => exact ⟨size + 1, ctx, start, by omega, fun _ member => member⟩
  | @next offset here goes inside ih =>
      obtain ⟨fuel, ctx', inv, enough, sub⟩ := ih
      obtain ⟨fuel, rfl⟩ : ∃ k, fuel = k + 1 := ⟨fuel - 1, by omega⟩
      have below : offset < size := by omega
      obtain ⟨step, -⟩ := short_next short (fun _ => here) below goes
      refine ⟨fuel, if (entryAt data offset).inode ≠ 0 then callback ctx' offset else ctx', ?_, by omega,
        fun s member => sub ?_⟩
      · split
        · exact keeps ctx' offset inv
        · exact inv
      · rw [scanLogged]
        simp only [if_pos below, if_neg goes, step]
        exact List.mem_append_right _ member

/-- So the log has the header of every visited record, and what the callback reads of those in use. -/
theorem scanLogged_covers (short : size + 2 ^ 16 ≤ 2 ^ 32) {Inv : σ → Prop} (start : Inv ctx)
    (keeps : ∀ ctx place, Inv ctx → Inv (callback ctx place)) {place : Nat} (visited : Visits data size place) :
    headerSpan place ∈ (scanLogged callback reads data size (size + 1) 0 ctx).2 ∧
      ((entryAt data place).inode ≠ 0 → ∃ ctx', Inv ctx' ∧
        ∀ s ∈ reads ctx' place, s ∈ (scanLogged callback reads data size (size + 1) 0 ctx).2) := by
  obtain ⟨fuel, ctx', inv, enough, sub⟩ :=
    @scanLogged_visits σ callback reads data size ctx short Inv start keeps place visited
  have below : place < size := by
    cases visited <;> assumption
  obtain ⟨fuel, rfl⟩ : ∃ k, fuel = k + 1 := ⟨fuel - 1, by omega⟩
  have here : ∀ s ∈ headerSpan place :: (if (entryAt data place).inode ≠ 0 then reads ctx' place else []),
      s ∈ (scanLogged callback reads data size (fuel + 1) place ctx').2 := by
    intro s member
    rw [scanLogged]
    simp only [if_pos below]
    split
    · exact member
    · exact List.mem_append_left _ member
  refine ⟨sub (here _ List.mem_cons_self), fun used => ⟨ctx', inv, fun s member => sub (here s ?_)⟩⟩
  rw [if_pos used]
  exact List.mem_cons_of_mem _ member

end Loops

/-! ### The entries by their places -/

section Places

variable {σ : Type} {callback : σ → Nat → σ} {data data' : Memory} {size fuel offset : Nat} {ctx : σ}

/-- An entry is what its header and its name hold. -/
theorem entryAt_congr (same : Set.EqOn data' data {x | x < size}) (header : offset + 8 ≤ size) :
    (entryAt data' offset).inode = (entryAt data offset).inode ∧
      (entryAt data' offset).recLen = (entryAt data offset).recLen ∧
      (offset + 8 + (entryAt data offset).name.length ≤ size → entryAt data' offset = entryAt data offset) := by
  have low : data'.load32 offset = data.load32 offset := Memory.load32_congr (same.mono fun x inside => by
    simp only [Set.mem_Ico, Set.mem_ofPred_eq] at *
    omega)
  have high : data'.load32 (offset + 4) = data.load32 (offset + 4) :=
    Memory.load32_congr (same.mono fun x inside => by
      simp only [Set.mem_Ico, Set.mem_ofPred_eq] at *
      omega)
  have length : data' (offset + 6) = data (offset + 6) := same (show offset + 6 < size by omega)
  refine ⟨low, congrArg (· % 2 ^ 16) high, fun whole => ?_⟩
  rw [entryAt, List.length_map, List.length_range] at whole
  simp only [entryAt, low, high, length, Ext2DirEntry.mk.injEq, true_and]
  refine List.map_congr_left fun k member => same ?_
  have below := List.mem_range.mp member
  show offset + 8 + k < size
  omega

theorem placesFrom_map : (placesFrom data size fuel offset).map (entryAt data) =
    inUse (entriesFrom data size fuel offset) := by
  induction fuel generalizing offset with
  | zero => rfl
  | succ fuel ih =>
      rw [placesFrom, entriesFrom]
      by_cases here : offset < size
      · rw [if_pos here, if_pos here, inUse_cons]
        by_cases last : (entryAt data offset).recLen = 0
        · simp only [if_pos last]
          split <;> rfl
        · simp only [if_neg last]
          split
          · rw [List.map_cons, ih]
          · exact ih
      · rw [if_neg here, if_neg here]
        rfl

theorem usedPlaces_map : (usedPlaces data size).map (entryAt data) = inUse (dirEntries data size) :=
  placesFrom_map

/-- There are no more entries than bytes. -/
theorem placesFrom_length : (placesFrom data size fuel offset).length ≤ size - offset := by
  induction fuel generalizing offset with
  | zero => exact Nat.zero_le _
  | succ fuel ih =>
      rw [placesFrom]
      by_cases here : offset < size
      · have rest : (if (entryAt data offset).recLen = 0 then []
            else placesFrom data size fuel (offset + (entryAt data offset).recLen)).length + 1 ≤
              size - offset := by
          split
          · rw [List.length_nil]
            omega
          · have later := @ih (offset + (entryAt data offset).recLen)
            omega
        simp only [if_pos here]
        split
        · exact rest
        · omega
      · rw [if_neg here]
        exact Nat.zero_le _

theorem placesFrom_mem {place : Nat} (within : DirWithin data size) (stops : Stops data size offset)
    (member : place ∈ placesFrom data size fuel offset) :
    Visits data size place ∧ (entryAt data place).inode ≠ 0 := by
  induction fuel generalizing offset with
  | zero => cases member
  | succ fuel ih =>
      rw [placesFrom] at member
      by_cases here : offset < size
      · simp only [if_pos here] at member
        have rest : place ∈ (if (entryAt data offset).recLen = 0 then []
            else placesFrom data size fuel (offset + (entryAt data offset).recLen)) →
              Visits data size place ∧ (entryAt data place).inode ≠ 0 := by
          intro later
          split at later
          · cases later
          · rename_i goes
            exact ih (within.next stops here goes).2 later
        split at member
        · rename_i used
          rcases List.mem_cons.mp member with rfl | later
          · exact ⟨stops here, used⟩
          · exact rest later
        · exact rest member
      · rw [if_neg here] at member
        cases member

/-- **`ext2_read_dir` hands the places of the entries in use to its callback**, one after the other. -/
theorem scanDirAt_eq (within : DirWithin data size) (stops : Stops data size offset) (most : offset ≤ size)
    (enough : size < fuel + offset) :
    scanDirAt callback data size fuel offset ctx =
      .ok ((placesFrom data size fuel offset).foldl callback ctx) := by
  induction fuel generalizing offset ctx with
  | zero => omega
  | succ fuel ih =>
      rw [scanDirAt, placesFrom]
      by_cases here : offset < size
      · simp only [if_pos here]
        by_cases last : (entryAt data offset).recLen = 0
        · simp only [if_pos last]
          split <;> rfl
        · obtain ⟨step, stops'⟩ := within.next stops here last
          have record := within.record offset (stops here)
          simp only [if_neg last, step]
          rw [ih stops' record (by omega)]
          split <;> rfl
      · rw [if_neg here, if_neg here]
        rfl

/-- **The records depend on the bytes of the directory only.** -/
theorem EntriesInside.visits (inside : EntriesInside data size) (same : Set.EqOn data' data {x | x < size})
    {place : Nat} (visited : Visits data' size place) : Visits data size place := by
  induction visited with
  | first some' => exact .first some'
  | @next offset _ goes within ih =>
      have recLen := (entryAt_congr same (inside offset ih).1).2.1
      rw [recLen] at goes within ⊢
      exact .next ih goes within

theorem EntriesInside.congr (inside : EntriesInside data size) (same : Set.EqOn data' data {x | x < size}) :
    EntriesInside data' size := by
  intro place visited
  obtain ⟨header, whole⟩ := inside place (inside.visits same visited)
  obtain ⟨inode, -, entry⟩ := entryAt_congr same header
  refine ⟨header, fun used => ?_⟩
  rw [inode] at used
  rw [entry (whole used)]
  exact whole used

theorem DirWithin.congr (within : DirWithin data size) (inside : EntriesInside data size)
    (same : Set.EqOn data' data {x | x < size}) : DirWithin data' size := by
  refine ⟨within.word, fun place visited => ?_, fun place visited used => ?_⟩
  · have visited' := inside.visits same visited
    rw [(entryAt_congr same (inside place visited').1).2.1]
    exact within.record place visited'
  · have visited' := inside.visits same visited
    obtain ⟨header, whole⟩ := inside place visited'
    obtain ⟨inode, -, entry⟩ := entryAt_congr same header
    rw [inode] at used
    rw [entry (whole used)]
    exact within.names place visited' used

/-- The places of the entries in use, too. -/
theorem placesFrom_congr (within : DirWithin data size) (inside : EntriesInside data size)
    (same : Set.EqOn data' data {x | x < size}) (stops : Stops data size offset) :
    placesFrom data' size fuel offset = placesFrom data size fuel offset := by
  induction fuel generalizing offset with
  | zero => rfl
  | succ fuel ih =>
      rw [placesFrom, placesFrom]
      by_cases here : offset < size
      · obtain ⟨inode, recLen, -⟩ := entryAt_congr same (inside offset (stops here)).1
        simp only [if_pos here, inode, recLen]
        by_cases last : (entryAt data offset).recLen = 0
        · simp only [if_pos last]
        · simp only [if_neg last, ih (within.next stops here last).2]
      · rw [if_neg here, if_neg here]

/-- **And so do the entries in use.** -/
theorem inUse_congr (within : DirWithin data size) (inside : EntriesInside data size)
    (same : Set.EqOn data' data {x | x < size}) :
    inUse (dirEntries data' size) = inUse (dirEntries data size) := by
  rw [← usedPlaces_map, ← usedPlaces_map, usedPlaces, placesFrom_congr within inside same stops_first]
  refine List.map_congr_left fun place member => ?_
  obtain ⟨visited, used⟩ := placesFrom_mem within stops_first member
  obtain ⟨header, whole⟩ := inside place visited
  exact (entryAt_congr same header).2.2 (whole used)

end Places

end Kfs.Disk
