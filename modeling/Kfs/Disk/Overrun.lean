/-
**How far the group descriptors reach.**

`ext2_read_group_descriptors` asks `kmalloc` for the bytes of the table and reads whole blocks there. The
sectors that are stored are those the drive gives, up to the first one that it does not, so the load stays
inside its buffer if and only if the table ends with a block, or the drive fails before the sector in which
the table ends: `load_stays_inside`.
-/

import Kfs.Disk.Blocks

namespace Kfs.Disk

open Heap

/-! ### What a read stores -/

/-- How many sectors a read stores before the drive fails. -/
def Drive.fetched (d : Drive) (lba : Nat) : (sector count : Nat) → Nat
  | _, 0 => 0
  | sector, count + 1 => if d.drq lba sector then d.fetched lba (sector + 1) count + 1 else 0

/-- The same for a whole request. -/
def Drive.answer (d : Drive) (lba count : Nat) : Nat :=
  if d.present = false then 0
  else if count % 2 ^ 8 = 0 then 0
  else if d.ready lba = false then 0
  else d.fetched (lbaRegisters lba) 0 (count % 2 ^ 8)

section Reads

variable {d : Drive} {m : Memory} {buffer count k lba sector : Nat}

/-- The sectors stored are those before the first one that is not given. -/
theorem lt_fetched : k < d.fetched lba sector count ↔
    k < count ∧ ∀ j ≤ k, d.drq lba (sector + j) = true := by
  induction count generalizing sector k with
  | zero => simp [Drive.fetched]
  | succ count ih =>
      rw [Drive.fetched]
      by_cases first : d.drq lba sector = true
      · rw [if_pos first]
        cases k with
        | zero => simp [first]
        | succ k =>
            rw [Nat.succ_lt_succ_iff, ih, Nat.succ_lt_succ_iff]
            refine and_congr_right fun _ => ⟨fun later j most => ?_, fun all j most => ?_⟩
            · cases j with
              | zero => exact first
              | succ j =>
                  rw [show sector + (j + 1) = sector + 1 + j by omega]
                  exact later j (by omega)
            · rw [show sector + 1 + j = sector + (j + 1) by omega]
              exact all (j + 1) (by omega)
      · rw [if_neg first]
        refine iff_of_false (Nat.not_lt_zero k) fun both => first ?_
        exact both.2 0 (Nat.zero_le k)

/-- **What the sector loop stores.** -/
theorem readSectorLoop_eq (d : Drive) (lba buffer sector count : Nat) (m : Memory) :
    readSectorLoop d lba buffer sector count m =
      (m.writeBytes (buffer + sectorSize * sector) (sectorSize * d.fetched lba sector count)
          fun x => d.bytes (sectorSize * (lba + sector) + x),
        if d.fetched lba sector count = count then 0 else -1) := by
  induction count generalizing sector m with
  | zero =>
      refine Prod.ext ?_ rfl
      funext x
      exact (if_neg (by simp only [Drive.fetched]; omega)).symm
  | succ count ih =>
      rw [readSectorLoop, Drive.fetched]
      by_cases first : d.drq lba sector = true
      · rw [if_pos first, if_pos first, ih]
        have join := writeBytes_append m (buffer + sectorSize * sector) sectorSize
          (sectorSize * d.fetched lba (sector + 1) count) fun x => d.bytes (sectorSize * (lba + sector) + x)
        refine Prod.ext ?_ ?_
        · simp only
          rw [Nat.mul_succ sectorSize (d.fetched lba (sector + 1) count),
            Nat.add_comm (sectorSize * d.fetched lba (sector + 1) count), ← join, Nat.mul_succ,
            Nat.add_assoc buffer]
          congr 1
          funext x
          rw [show sectorSize * (lba + (sector + 1)) + x = sectorSize * (lba + sector) + (sectorSize + x) by
            ring]
        · simp only [Nat.succ_inj]
      · rw [if_neg first, if_neg first]
        refine Prod.ext ?_ ?_
        · funext x
          exact (if_neg (by omega)).symm
        · simp

/-- **What a read stores.** -/
theorem ideReadSectors_eq (d : Drive) (m : Memory) (lba count buffer : Nat) :
    ideReadSectors d m lba count buffer =
      (m.writeBytes buffer (sectorSize * d.answer lba count) fun x =>
          d.bytes (sectorSize * (lba % 2 ^ 28) + x),
        if d.answer lba count = count % 2 ^ 8 ∧ count % 2 ^ 8 ≠ 0 then 0 else -1) := by
  have nothing : ∀ f, m.writeBytes buffer (sectorSize * 0) f = m := by
    intro f
    funext x
    exact if_neg (by omega)
  unfold ideReadSectors Drive.answer
  split
  · rw [nothing, if_neg (by omega)]
  · split
    · rename_i zero
      rw [nothing, if_neg (by omega)]
    · rename_i some
      split
      · rw [nothing, if_neg (by omega)]
      · rw [readSectorLoop_eq, lbaRegisters_eq]
        simp only [Nat.mul_zero, Nat.add_zero, and_iff_left some]

end Reads

/-! ### What the load stores -/

/-- The sectors of a block. -/
def Ext2Fs.sectors (fs : Ext2Fs) : Nat := fs.blockSize / sectorSize

/-- The sector address that a block of the table is read from. -/
def tableLba (fs : Ext2Fs) (i : Nat) : Nat := (gdBlock fs + i) * fs.sectors % 2 ^ 32

/-- The drive gives the sector `k` of the table: it is ready for the block, and has data for the sector. -/
structure Drive.GivesSector (d : Drive) (fs : Ext2Fs) (k : Nat) : Prop where
  present : d.present = true
  counted : fs.sectors % 2 ^ 8 ≠ 0
  ready : d.ready (tableLba fs (k / fs.sectors)) = true
  data : d.drq (lbaRegisters (tableLba fs (k / fs.sectors))) (k % fs.sectors) = true

/-- How many sectors the load stores, from the block `i` of the table on. -/
def tableSectors (d : Drive) (fs : Ext2Fs) : (i count : Nat) → Nat
  | _, 0 => 0
  | i, count + 1 =>
      if d.answer (tableLba fs i) fs.sectors = fs.sectors then
        fs.sectors + tableSectors d fs (i + 1) count
      else d.answer (tableLba fs i) fs.sectors

/-- The memory at the end of the loop. -/
def stored : Round Memory Memory → Memory
  | .next m => m
  | .exit m => m

/-- **The load writes nothing outside the bytes it asked for**, whatever memory holds. -/
def StaysInside (d : Drive) (fs : Ext2Fs) (buffer : Nat) : Prop :=
  ∀ m round, forLoop (readGdBlock d fs buffer) 0 (gdBlocks fs) m = .ok round →
    Set.EqOn (stored round) m {x | x < buffer ∨ buffer + gdSize fs ≤ x}

section Loads

variable {d : Drive} {fs : Ext2Fs} {buffer count i k : Nat}

/-- The sectors that a request stores. -/
theorem lt_answer (few : fs.sectors < 2 ^ 8) : k < d.answer (tableLba fs i) fs.sectors ↔
    k < fs.sectors ∧ ∀ j ≤ k, d.GivesSector fs (i * fs.sectors + j) := by
  have gives : ∀ j < fs.sectors, d.GivesSector fs (i * fs.sectors + j) ↔ d.present = true ∧
      fs.sectors % 2 ^ 8 ≠ 0 ∧ d.ready (tableLba fs i) = true ∧
        d.drq (lbaRegisters (tableLba fs i)) j = true := by
    intro j less
    have row : (i * fs.sectors + j) / fs.sectors = i := row_of_lt less
    have column : (i * fs.sectors + j) % fs.sectors = j := column_of_lt less
    constructor
    · rintro ⟨present, counted, ready, data⟩
      rw [row] at ready data
      rw [column] at data
      exact ⟨present, counted, ready, data⟩
    · rintro ⟨present, counted, ready, data⟩
      refine ⟨present, counted, ?_, ?_⟩
      · rw [row]
        exact ready
      · rw [row, column]
        exact data
  have small : fs.sectors % 2 ^ 8 = fs.sectors := Nat.mod_eq_of_lt few
  unfold Drive.answer
  by_cases present : d.present = true
  · rw [if_neg (by simp [present])]
    by_cases none : fs.sectors % 2 ^ 8 = 0
    · rw [if_pos none]
      omega
    · rw [if_neg none]
      by_cases ready : d.ready (tableLba fs i) = true
      · rw [if_neg (by simp [ready]), small, lt_fetched]
        refine and_congr_right fun less => forall₂_congr fun j most => ?_
        rw [gives j (by omega), Nat.zero_add]
        exact ⟨fun data => ⟨present, none, ready, data⟩, fun all => all.2.2.2⟩
      · rw [if_pos (by simpa using ready)]
        refine iff_of_false (Nat.not_lt_zero k) fun both => ready ?_
        exact ((gives 0 (by omega)).mp (both.2 0 (Nat.zero_le k))).2.2.1
  · rw [if_pos (by simpa using present)]
    refine iff_of_false (Nat.not_lt_zero k) fun both => present ?_
    exact ((gives 0 (by omega)).mp (both.2 0 (Nat.zero_le k))).1

/-- **The sectors stored are those before the first one that is not given.** -/
theorem lt_tableSectors (few : fs.sectors < 2 ^ 8) : k < tableSectors d fs i count ↔
    k < count * fs.sectors ∧ ∀ j ≤ k, d.GivesSector fs (i * fs.sectors + j) := by
  induction count generalizing i k with
  | zero => simp [tableSectors]
  | succ count ih =>
      have block := @lt_answer d fs i
      rw [tableSectors, Nat.succ_mul]
      by_cases full : d.answer (tableLba fs i) fs.sectors = fs.sectors
      · rw [if_pos full]
        have all : ∀ j < fs.sectors, d.GivesSector fs (i * fs.sectors + j) := fun j less =>
          ((block few).mp (by omega : j < _)).2 j le_rfl
        by_cases here : k < fs.sectors
        · exact iff_of_true (by omega) ⟨by omega, fun j most => all j (by omega)⟩
        · obtain ⟨rest, rfl⟩ := Nat.exists_eq_add_of_le (not_lt.mp here)
          rw [Nat.add_lt_add_iff_left, ih, Nat.succ_mul]
          refine and_congr (by omega) ⟨fun later j most => ?_, fun every j most => ?_⟩
          · by_cases early : j < fs.sectors
            · exact all j early
            · obtain ⟨more, rfl⟩ := Nat.exists_eq_add_of_le (not_lt.mp early)
              rw [← Nat.add_assoc]
              exact later more (by omega)
          · rw [Nat.add_assoc]
            exact every (fs.sectors + j) (by omega)
      · rw [if_neg full, block few]
        refine ⟨fun both => ⟨by omega, both.2⟩, fun both => ⟨?_, both.2⟩⟩
        by_contra beyond
        refine full (le_antisymm ?_ ?_)
        · by_contra more
          have := ((block few).mp (not_le.mp more)).1
          omega
        · by_contra fewer
          have last := (block few).mpr ⟨show d.answer (tableLba fs i) fs.sectors < fs.sectors by omega,
            fun j most => both.2 j (by omega)⟩
          omega

theorem answer_large (counted : fs.sectors % 2 ^ 8 = 0) : d.answer (tableLba fs i) fs.sectors = 0 := by
  unfold Drive.answer
  rw [if_pos counted]
  split <;> rfl

/-- Nothing is stored when the sectors of a block do not fit into the count register. -/
theorem tableSectors_large (counted : fs.sectors % 2 ^ 8 = 0) (i count : Nat) :
    tableSectors d fs i count = 0 := by
  induction count generalizing i with
  | zero => rfl
  | succ count ih =>
      rw [tableSectors, answer_large counted, ih]
      split
      · rename_i none
        rw [← none]
      · rfl

/-- One round of the loop. -/
theorem readGdBlock_eq (m : Memory) : readGdBlock d fs buffer i m =
    if d.answer (tableLba fs i) fs.sectors = fs.sectors % 2 ^ 8 ∧ fs.sectors % 2 ^ 8 ≠ 0 then
      .ok (.next (m.writeBytes (buffer + i * fs.blockSize) (sectorSize * d.answer (tableLba fs i) fs.sectors)
        fun x => d.bytes (sectorSize * (tableLba fs i % 2 ^ 28) + x)))
    else
      .ok (.exit (m.writeBytes (buffer + i * fs.blockSize) (sectorSize * d.answer (tableLba fs i) fs.sectors)
        fun x => d.bytes (sectorSize * (tableLba fs i % 2 ^ 28) + x))) := by
  unfold readGdBlock ext2ReadBlock
  rw [ideReadSectors_eq]
  simp only [tableLba, Ext2Fs.sectors]
  split <;> simp_all

theorem writeBytes_nothing (m : Memory) (a : Nat) (f : Nat → UInt8) : m.writeBytes a 0 f = m := by
  funext x
  exact if_neg (by omega)

theorem writeBytes_congr {m : Memory} {a n : Nat} {f g : Nat → UInt8} (same : ∀ x < n, f x = g x) :
    m.writeBytes a n f = m.writeBytes a n g := by
  funext x
  unfold Memory.writeBytes
  split
  · exact same _ (by omega)
  · rfl

/-- **What the loop stores** does not depend on memory. -/
theorem readTable_eq (geometry : fs.sectors % 2 ^ 8 ≠ 0 → FewSectors fs) (buffer i count : Nat) :
    ∃ f, ∀ m, ∃ round, forLoop (readGdBlock d fs buffer) i count m = .ok round ∧
      stored round = m.writeBytes (buffer + i * fs.blockSize) (sectorSize * tableSectors d fs i count) f := by
  induction count generalizing i with
  | zero =>
      refine ⟨fun _ => 0, fun m => ⟨.next m, rfl, ?_⟩⟩
      rw [tableSectors, Nat.mul_zero, writeBytes_nothing]
      rfl
  | succ count ih =>
      obtain ⟨f, rest⟩ := ih (i + 1)
      rw [tableSectors]
      by_cases full : d.answer (tableLba fs i) fs.sectors = fs.sectors % 2 ^ 8 ∧ fs.sectors % 2 ^ 8 ≠ 0
      · obtain ⟨whole, byte⟩ := geometry full.2
        have small : fs.sectors % 2 ^ 8 = fs.sectors := Nat.mod_eq_of_lt byte
        have length : sectorSize * fs.sectors = fs.blockSize := whole.symm
        have all := full.1.trans small
        rw [if_pos all, Nat.mul_add, length]
        refine ⟨fun x => if x < fs.blockSize then d.bytes (sectorSize * (tableLba fs i % 2 ^ 28) + x)
          else f (x - fs.blockSize), fun m => ?_⟩
        obtain ⟨round, loop, last⟩ := rest (m.writeBytes (buffer + i * fs.blockSize) fs.blockSize
          fun x => d.bytes (sectorSize * (tableLba fs i % 2 ^ 28) + x))
        refine ⟨round, ?_, ?_⟩
        · rw [forLoop, readGdBlock_eq, if_pos full, all, length]
          exact loop
        · rw [last, ← writeBytes_append, Nat.succ_mul, ← Nat.add_assoc]
          congr 1
          · exact writeBytes_congr fun x less => (if_pos less).symm
          · funext x
            rw [if_neg (by omega), Nat.add_sub_cancel_left]
      · have part : (if d.answer (tableLba fs i) fs.sectors = fs.sectors then
            fs.sectors + tableSectors d fs (i + 1) count else d.answer (tableLba fs i) fs.sectors) =
              d.answer (tableLba fs i) fs.sectors := by
          by_cases none : fs.sectors % 2 ^ 8 = 0
          · exact (tableSectors_large none i (count + 1)).trans (answer_large none).symm
          · refine if_neg fun all => full ⟨?_, none⟩
            exact all.trans (Nat.mod_eq_of_lt (geometry none).byte).symm
        rw [part]
        refine ⟨fun x => d.bytes (sectorSize * (tableLba fs i % 2 ^ 28) + x), fun m =>
          ⟨.exit (m.writeBytes (buffer + i * fs.blockSize)
            (sectorSize * d.answer (tableLba fs i) fs.sectors)
            fun x => d.bytes (sectorSize * (tableLba fs i % 2 ^ 28) + x)), ?_, rfl⟩⟩
        rw [forLoop, readGdBlock_eq, if_neg full]
        rfl

/-- The load stays inside its buffer if the sectors it stores do. -/
theorem staysInside_iff (geometry : fs.sectors % 2 ^ 8 ≠ 0 → FewSectors fs) :
    StaysInside d fs buffer ↔ sectorSize * tableSectors d fs 0 (gdBlocks fs) ≤ gdSize fs := by
  obtain ⟨f, loops⟩ := @readTable_eq d fs geometry buffer 0 (gdBlocks fs)
  rw [Nat.zero_mul, Nat.add_zero] at loops
  constructor
  · intro inside
    by_contra beyond
    obtain ⟨round, loop, last⟩ := loops fun _ => f (gdSize fs) + 1
    have kept := inside _ round loop (show buffer + gdSize fs < buffer ∨ _ from .inr le_rfl)
    rw [last, Memory.writeBytes_inside _ _ _ _ (not_le.mp beyond)] at kept
    exact absurd kept (by simp)
  · intro short m round loop x outside
    obtain ⟨round', loop', last⟩ := loops m
    cases loop.symm.trans loop'
    rw [last]
    simp only [Set.mem_ofPred_eq] at outside
    exact Memory.writeBytes_eqOn _ _ _ _ (show _ ∨ _ by omega)

theorem gdBlocks_lt (positive : fs.blockSize ≠ 0) : gdBlocks fs * fs.blockSize < gdSize fs + fs.blockSize := by
  have rounded : gdBlocks fs * fs.blockSize ≤ (gdSize fs + fs.blockSize + (2 ^ 32 - 1)) % 2 ^ 32 :=
    Nat.div_mul_le_self _ _
  have fits : gdSize fs < 2 ^ 32 := Nat.mod_lt _ (by decide)
  omega

variable {c : Client} {h : HeapState}

/-- **The load of the group descriptors stays inside its buffer** if and only if the table ends with a
block, or the drive does not give all sectors up to the one in which the table ends. Then the heap has the
same blocks as before the load. -/
theorem load_stays_inside (accepted : ext2ReadSuperblock d = .ok (some fs)) (reach : Reachable c)
    (taken : kmalloc c.heap (gdSize fs) = .ok (h, buffer)) (given : buffer ≠ 0) :
    (StaysInside d fs buffer ↔
      fs.blockSize ∣ gdSize fs ∨ ∃ k ≤ gdSize fs / sectorSize, ¬ d.GivesSector fs k) ∧
    (StaysInside d fs buffer → ∀ h', ext2ReadGroupDescriptors d c.heap fs = .ok (h', some buffer) →
      Set.EqOn h'.mem h.mem {x | x < buffer ∨ buffer + gdSize fs ≤ x} ∧ blockList h' = blockList h) := by
  obtain ⟨l, inv⟩ := reach.inv
  obtain ⟨geometry, -⟩ := ext2ReadSuperblock_ok accepted
  obtain ⟨some, l', b, heap, member, used, place, room⟩ :=
    kmalloc_block inv.heap (gdSize_noWrap fs) taken given
  have bounds := heap.bounds member
  have sectors : fs.sectors % 2 ^ 8 ≠ 0 → FewSectors fs := fewSectors geometry
  constructor
  · rw [staysInside_iff sectors]
    have sector : ∀ n, sectorSize * n ≤ gdSize fs ↔ ¬ gdSize fs / sectorSize < n := by
      intro n
      simp only [sectorSize]
      omega
    rw [sector]
    by_cases counted : fs.sectors % 2 ^ 8 = 0
    · rw [tableSectors_large counted]
      refine iff_of_true (Nat.not_lt_zero _) (.inr ⟨0, Nat.zero_le _, fun gives => gives.counted counted⟩)
    · obtain ⟨whole, byte⟩ := sectors counted
      have length : fs.blockSize = sectorSize * fs.sectors := whole
      have positive : fs.blockSize ≠ 0 := by
        intro zero
        rw [zero] at length
        simp only [sectorSize] at length
        omega
      obtain ⟨large, fits⟩ := blockSize_bounds fs.superblock (geometry ▸ positive)
      rw [← geometry] at large fits
      obtain ⟨-, -, enough⟩ := blocks_bounds (n := gdBlocks fs) some
        (by simp only [heapEnd, heapStart, heapSize] at bounds; omega) large fits rfl
      have beyond : gdSize fs / sectorSize < gdBlocks fs * fs.sectors ↔ ¬ fs.blockSize ∣ gdSize fs := by
        have less := @gdBlocks_lt fs positive
        have total : gdBlocks fs * fs.blockSize = sectorSize * (gdBlocks fs * fs.sectors) := by
          rw [length, Nat.mul_left_comm]
        have apart : gdSize fs / sectorSize < gdBlocks fs * fs.sectors ↔
            gdSize fs < gdBlocks fs * fs.blockSize := by
          rw [total]
          simp only [sectorSize]
          omega
        rw [apart]
        constructor
        · rintro more ⟨m, exact⟩
          rw [exact, Nat.mul_comm fs.blockSize m] at more less
          have up := Nat.lt_of_mul_lt_mul_right more
          have down : gdBlocks fs < m + 1 := Nat.lt_of_mul_lt_mul_right (by rw [Nat.succ_mul]; exact less)
          omega
        · intro rest
          refine lt_of_le_of_ne enough fun exact => rest ⟨gdBlocks fs, ?_⟩
          rw [exact, Nat.mul_comm]
      rw [lt_tableSectors byte, beyond]
      simp only [Nat.zero_mul, Nat.zero_add, not_and_or, not_not, not_forall, exists_prop]
  · intro inside h' loaded
    obtain ⟨-, h₁, m, taken', -, loop, rfl⟩ := ext2ReadGroupDescriptors_split loaded
    cases taken.symm.trans taken'
    have same := inside h.mem (.next m) loop
    refine ⟨same, ?_⟩
    have after := heap.write (m := m) (same.mono fun x outside => ?_)
    · rw [after.blockList_eq, heap.blockList_eq]
    · have := outside b member used
      simp only [Set.mem_ofPred_eq]
      omega

end Loads

/-- A disk of 32 groups: their descriptors fill a block. -/
def groupedDisk : Drive :=
  { smallDisk 0 with
    bytes := fun x => if x = 1056 then 2 else if x = 1057 then 0 else (smallDisk 0).bytes x }

def groupedFs : Ext2Fs where
  superblock := ⟨64, 1, 0, 2, 16, 0xef53⟩
  blockSize := 1024
  blocksPerGroup := 2
  inodesPerGroup := 16
  groupsCount := 32
  rootInode := 2

theorem groupedDisk_accepted : ext2ReadSuperblock groupedDisk = .ok (some groupedFs) := by
  obtain ⟨m, read⟩ : ∃ m, ideReadSectors groupedDisk (fun _ => 0) 2 2 0 = (m, 0) := ⟨_, rfl⟩
  obtain ⟨_, loaded, _⟩ := ideReadSectors_ok read
  have byte : ∀ x < 1024, m x = groupedDisk.bytes (1024 + x) := fun x small => by
    have := loaded x small
    rwa [Nat.zero_add] at this
  have parsed : Superblock.parse m 0 = groupedFs.superblock := by
    simp [Superblock.parse, Memory.load32, byte, groupedDisk, smallDisk, groupedFs]
  simp only [ext2ReadSuperblock, read, parsed]
  rfl

/-- The first allocation of a heap. -/
theorem kmalloc_first {size : Nat} (positive : size ≠ 0)
    (room : (⟨heapStart, heapSize, true⟩ : Segment).fits (totalSize size) = true) :
    ∃ h, kmalloc (Client.init fun _ => 0).heap size = .ok (h, heapStart + 16) :=
  ⟨_, @kmalloc_some _ [] [] _ size (clientInv_init fun _ => 0).heap positive (by simp) room⟩

theorem load_stays_inside_grouped : StaysInside groupedDisk groupedFs (heapStart + 16) := by
  obtain ⟨h, taken⟩ := @kmalloc_first (gdSize groupedFs) (by decide) (by decide)
  exact (load_stays_inside groupedDisk_accepted ⟨_, [], .nil _⟩ taken (by decide)).1.mpr
    (.inl (by decide))

/-- **One group**: 32 bytes are asked for and 1024 are stored, over the header of the block behind. -/
theorem descriptors_overrun : ∃ h h', ext2ReadSuperblock (smallDisk 0) = .ok (some smallFs) ∧
    kmalloc (Client.init fun _ => 0).heap (gdSize smallFs) = .ok (h, heapStart + 16) ∧
    ext2ReadGroupDescriptors (smallDisk 0) (Client.init fun _ => 0).heap smallFs =
      .ok (h', some (heapStart + 16)) ∧
    Header.magic h.mem (heapStart + 48) = blockMagic ∧ Header.magic h'.mem (heapStart + 48) = 0 ∧
    ¬ StaysInside (smallDisk 0) smallFs (heapStart + 16) := by
  have start := (clientInv_init fun _ => 0).heap
  obtain ⟨h, taken⟩ := @kmalloc_first (gdSize smallFs) (by decide) (by decide)
  obtain ⟨h', loaded⟩ := smallDisk_loaded 0
  have behind : Header.magic h.mem (heapStart + 48) = blockMagic := by
    rcases kmalloc_cases start (gdSize_noWrap smallFs) taken with
      ⟨null, -⟩ | ⟨front, s, back, blocks, -, -, -, -, after⟩
    · exact absurd null (by decide)
    · obtain ⟨rfl, rfl, rfl⟩ : front = [] ∧ s = ⟨heapStart, heapSize, true⟩ ∧ back = [] := by
        cases front with
        | nil => simpa [eq_comm] using blocks
        | cons b front => simp at blocks
      exact (after.linked.header (s := ⟨heapStart + 48, heapSize - 48, true⟩) (by decide)).2.2
  obtain ⟨-, h₁, m, taken', -, loop, rfl⟩ := ext2ReadGroupDescriptors_split loaded
  cases taken.symm.trans taken'
  have lost : Header.magic m (heapStart + 48) = 0 := by
    obtain ⟨bytes, -⟩ := readTable_ok (⟨by decide, by decide⟩ : FewSectors smallFs) (fun i less => by
      rw [show gdBlocks smallFs = 1 by decide] at less
      rw [show i = 0 by omega]
      decide) loop
    have word : ∀ k < 4, m (heapStart + 48 + 12 + k) = 0 := fun k less => by
      rw [show heapStart + 48 + 12 + k = heapStart + 16 + (44 + k) by omega,
        bytes _ (by rw [show gdBlocks smallFs * smallFs.blockSize = 1024 by decide]; omega)]
      interval_cases k <;> decide
    have first := word 0 (by decide)
    rw [Nat.add_zero] at first
    simp [Header.magic, Memory.load32, first, word 1 (by decide), word 2 (by decide), word 3 (by decide)]
  refine ⟨h, _, smallDisk_accepted 0, taken, loaded, behind, lost, fun inside => ?_⟩
  have same : Header.magic m (heapStart + 48) = Header.magic h.mem (heapStart + 48) :=
    Memory.load32_congr ((inside h.mem (.next m) loop).mono fun x here => by
      simp only [Set.mem_Ico, Set.mem_ofPred_eq, show gdSize smallFs = 32 by decide] at *
      omega)
  rw [lost, behind] at same
  exact absurd same (by decide)

end Kfs.Disk
