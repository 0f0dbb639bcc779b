/-
**Blocks on a drive: `ide_write_sectors`, `ext2_read_block`, `ext2_write_block`.**

The inode and data functions use the disk as a store of blocks (`Volume`). A drive holds such a store
(`Device.volume`): for every block within the 28 bits of a sector address, `ext2_read_block` is
`Volume.readBlock` and `ext2_write_block` is `Volume.writeBlock`, also when a request fails after some of
its sectors (`ext2ReadBlock_refines`, `ext2WriteBlock_refines`).
-/

import Kfs.Disk.Inodes

namespace Kfs.Disk

/-- A drive with what its status register answers to a write: to the wait before a sector, and to the one
after it. -/
structure Device extends Drive where
  takes : Nat → Nat → Bool
  stored : Nat → Nat → Bool

/-- Bytes that reach the drive. -/
def Device.put (d : Device) (start count : Nat) (f : Nat → UInt8) : Device :=
  { d with bytes := Memory.writeBytes d.bytes start count f }

/-- The sector loop of `ide_write_sectors`. -/
def writeSectorLoop (m : Memory) (lba buffer : Nat) : (sector count : Nat) → Device → Device × Int
  | _, 0, d => (d, 0)
  | sector, count + 1, d =>
      if d.takes lba sector then
        let d := d.put (sectorSize * (lba + sector)) sectorSize fun i =>
          m (buffer + sectorSize * sector + i)
        if d.stored lba sector then writeSectorLoop m lba buffer (sector + 1) count d else (d, -1)
      else (d, -1)

/-- `ide_write_sectors`. -/
def ideWriteSectors (d : Device) (m : Memory) (lba count buffer : Nat) : Device × Int :=
  if d.present = false then (d, -1)
  else if count % 2 ^ 8 = 0 then (d, -1)
  else if d.ready lba = false then (d, -1)
  else writeSectorLoop m (lbaRegisters lba) buffer 0 (count % 2 ^ 8) d

/-- `ext2_write_block`. -/
def ext2WriteBlock (d : Device) (fs : Ext2Fs) (m : Memory) (blockNum buffer : Nat) : Device × Int :=
  ideWriteSectors d m (blockNum * (fs.blockSize / sectorSize) % 2 ^ 32) (fs.blockSize / sectorSize) buffer

/-! ### What the drive answers -/

/-- Every sector of a read is served. -/
def Drive.serves (d : Drive) (lba count : Nat) : Bool :=
  d.present && decide (count % 2 ^ 8 ≠ 0) && d.ready lba &&
    (List.range' 0 (count % 2 ^ 8)).all (d.drq (lbaRegisters lba))

/-- How many sectors of a write reach the drive, and what the loop returns. -/
def Device.reach (d : Device) (lba : Nat) : (sector count : Nat) → Nat × Int
  | _, 0 => (0, 0)
  | sector, count + 1 =>
      if d.takes lba sector then
        if d.stored lba sector then
          ((d.reach lba (sector + 1) count).1 + 1, (d.reach lba (sector + 1) count).2)
        else (1, -1)
      else (0, -1)

/-- The same for a whole request. -/
def Device.request (d : Device) (lba count : Nat) : Nat × Int :=
  if d.present = false then (0, -1)
  else if count % 2 ^ 8 = 0 then (0, -1)
  else if d.ready lba = false then (0, -1)
  else d.reach (lbaRegisters lba) 0 (count % 2 ^ 8)

/-- The store of blocks that a drive holds. -/
def Device.volume (d : Device) (fs : Ext2Fs) : Volume where
  readable b := d.serves (b * (fs.blockSize / sectorSize) % 2 ^ 32) (fs.blockSize / sectorSize)
  writable b :=
    decide ((d.request (b * (fs.blockSize / sectorSize) % 2 ^ 32) (fs.blockSize / sectorSize)).2 = 0)
  torn b :=
    sectorSize * (d.request (b * (fs.blockSize / sectorSize) % 2 ^ 32) (fs.blockSize / sectorSize)).1
  byte b x := d.bytes (b * fs.blockSize + x)

section Requests

variable {d : Device} {m : Memory} {lba buffer : Nat}

/-- Two writes side by side are one. -/
theorem writeBytes_append (m : Memory) (a n k : Nat) (f : Nat → UInt8) :
    (m.writeBytes a n f).writeBytes (a + n) k (fun i => f (n + i)) = m.writeBytes a (n + k) f := by
  funext x
  simp only [Memory.writeBytes]
  by_cases second : a + n ≤ x ∧ x < a + n + k
  · rw [if_pos second, if_pos (by omega)]
    exact congrArg f (by omega)
  · rw [if_neg second]
    by_cases first : a ≤ x ∧ x < a + n
    · rw [if_pos first, if_pos (by omega)]
    · rw [if_neg first, if_neg (by omega)]

theorem put_append (d : Device) (a n k : Nat) (f : Nat → UInt8) :
    (d.put a n f).put (a + n) k (fun i => f (n + i)) = d.put a (n + k) f :=
  congrArg (fun bytes => { d with bytes := bytes }) (writeBytes_append d.bytes a n k f)

theorem put_nothing (d : Device) (a : Nat) (f : Nat → UInt8) : d.put a 0 f = d := by
  have same : Memory.writeBytes d.bytes a 0 f = d.bytes := by
    funext x
    simp only [Memory.writeBytes]
    rw [if_neg (by omega)]
  simp only [Device.put, same]

theorem reach_put (d : Device) (start n : Nat) (f : Nat → UInt8) (lba sector count : Nat) :
    (d.put start n f).reach lba sector count = d.reach lba sector count := by
  induction count generalizing sector with
  | zero => rfl
  | succ count ih =>
      simp only [Device.reach, ih]
      rfl

theorem request_put (d : Device) (start n : Nat) (f : Nat → UInt8) (lba count : Nat) :
    (d.put start n f).request lba count = d.request lba count := by
  simp only [Device.request, reach_put]
  rfl

/-- **What the sector loop writes**: the sectors that reach the drive. -/
theorem writeSectorLoop_eq (m : Memory) (lba buffer sector count : Nat) (d : Device) :
    writeSectorLoop m lba buffer sector count d =
      (d.put (sectorSize * (lba + sector)) (sectorSize * (d.reach lba sector count).1) fun i =>
        m (buffer + sectorSize * sector + i), (d.reach lba sector count).2) := by
  induction count generalizing sector d with
  | zero => exact congrArg (fun d => (d, 0)) (put_nothing d _ _).symm
  | succ count ih =>
      by_cases took : d.takes lba sector = true
      · by_cases done : d.stored lba sector = true
        · have written : (d.put (sectorSize * (lba + sector)) sectorSize fun i =>
              m (buffer + sectorSize * sector + i)).stored lba sector = true := done
          simp only [writeSectorLoop, Device.reach, if_pos took, if_pos done, if_pos written, ih,
            reach_put]
          refine congrArg (fun d => (d, _)) ?_
          rw [show sectorSize * (lba + (sector + 1)) = sectorSize * (lba + sector) + sectorSize by ring,
            show sectorSize * ((d.reach lba (sector + 1) count).1 + 1) =
              sectorSize + sectorSize * (d.reach lba (sector + 1) count).1 by ring, ← put_append]
          refine congrArg (Device.put _ _ _) ?_
          funext i
          exact congrArg m (by ring)
        · have failed : ¬ (d.put (sectorSize * (lba + sector)) sectorSize fun i =>
              m (buffer + sectorSize * sector + i)).stored lba sector = true := done
          simp only [writeSectorLoop, Device.reach, if_pos took, if_neg done, if_neg failed, Nat.mul_one]
      · simp only [writeSectorLoop, Device.reach, if_neg took, Nat.mul_zero, put_nothing]

/-- **What a request writes.** -/
theorem ideWriteSectors_eq (d : Device) (m : Memory) (lba count buffer : Nat) :
    ideWriteSectors d m lba count buffer =
      (d.put (sectorSize * (lba % 2 ^ 28)) (sectorSize * (d.request lba count).1) fun i => m (buffer + i),
        (d.request lba count).2) := by
  unfold ideWriteSectors Device.request
  split
  · rw [Nat.mul_zero, put_nothing]
  · split
    · rw [Nat.mul_zero, put_nothing]
    · split
      · rw [Nat.mul_zero, put_nothing]
      · rw [writeSectorLoop_eq, lbaRegisters_eq]
        rfl

theorem reach_bounds (d : Device) (lba sector count : Nat) :
    (d.reach lba sector count).1 ≤ count ∧
      ((d.reach lba sector count).2 = 0 ∧ (d.reach lba sector count).1 = count ∨
        (d.reach lba sector count).2 = -1) := by
  induction count generalizing sector with
  | zero => exact ⟨le_rfl, .inl ⟨rfl, rfl⟩⟩
  | succ count ih =>
      obtain ⟨most, result⟩ := ih (sector + 1)
      simp only [Device.reach]
      split
      · split
        · refine ⟨Nat.succ_le_succ most, ?_⟩
          rcases result with ⟨zero, whole⟩ | failed
          · exact .inl ⟨zero, congrArg (· + 1) whole⟩
          · exact .inr failed
        · exact ⟨Nat.succ_le_succ (Nat.zero_le count), .inr rfl⟩
      · exact ⟨Nat.zero_le _, .inr rfl⟩

/-- A request that returns 0 was written whole, and no request writes more than it asks for. -/
theorem request_bounds (d : Device) (lba count : Nat) :
    (d.request lba count).1 ≤ count % 2 ^ 8 ∧
      ((d.request lba count).2 = 0 ∧ (d.request lba count).1 = count % 2 ^ 8 ∨
        (d.request lba count).2 = -1) := by
  unfold Device.request
  split
  · exact ⟨Nat.zero_le _, .inr rfl⟩
  · split
    · exact ⟨Nat.zero_le _, .inr rfl⟩
    · split
      · exact ⟨Nat.zero_le _, .inr rfl⟩
      · exact reach_bounds d _ _ _

theorem readSectorLoop_result (d : Drive) (lba buffer sector count : Nat) (m : Memory) :
    (readSectorLoop d lba buffer sector count m).2 =
      if (List.range' sector count).all (d.drq lba) then 0 else -1 := by
  induction count generalizing sector m with
  | zero => rfl
  | succ count ih =>
      rw [List.range'_succ, List.all_cons]
      unfold readSectorLoop
      by_cases served : d.drq lba sector = true
      · rw [if_pos served, ih, served, Bool.true_and]
      · rw [if_neg served, eq_false_of_ne_true served]
        rfl

/-- **When a read succeeds.** -/
theorem ideReadSectors_result (d : Drive) (m : Memory) (lba count buffer : Nat) :
    (ideReadSectors d m lba count buffer).2 = if d.serves lba count then 0 else -1 := by
  unfold ideReadSectors Drive.serves
  by_cases absent : d.present = false
  · rw [if_pos absent, absent]
    rfl
  · by_cases none : count % 2 ^ 8 = 0
    · rw [if_neg absent, if_pos none, decide_eq_false (not_not.mpr none), Bool.and_false]
      rfl
    · by_cases busy : d.ready lba = false
      · rw [if_neg absent, if_neg none, if_pos busy, busy, Bool.and_false]
        rfl
      · rw [if_neg absent, if_neg none, if_neg busy, readSectorLoop_result,
          eq_true_of_ne_false absent, eq_true_of_ne_false busy, decide_eq_true none]
        rfl

end Requests

section Blocks

variable {d : Device} {fs : Ext2Fs} {m : Memory} {b buffer : Nat}

/-- **A block read is a read of the store.** -/
theorem ext2ReadBlock_refines (few : FewSectors fs) (near : b * (fs.blockSize / sectorSize) < 2 ^ 28) :
    match (d.volume fs).readBlock b with
    | none => (ext2ReadBlock d.toDrive fs m b buffer).2 = -1
    | some bytes => (ext2ReadBlock d.toDrive fs m b buffer).2 = 0 ∧
        (∀ x < fs.blockSize, (ext2ReadBlock d.toDrive fs m b buffer).1 (buffer + x) = bytes x) ∧
        Set.EqOn (ext2ReadBlock d.toDrive fs m b buffer).1 m
          {x | x < buffer ∨ buffer + fs.blockSize ≤ x} := by
  have result : (ext2ReadBlock d.toDrive fs m b buffer).2 =
      if (d.volume fs).readable b then 0 else -1 := ideReadSectors_result _ _ _ _ _
  unfold Volume.readBlock
  by_cases readable : (d.volume fs).readable b = true
  · rw [if_pos readable] at result ⊢
    obtain ⟨inside, outside⟩ := ext2ReadBlock_ok few near (Prod.ext rfl result)
    exact ⟨result, inside, outside⟩
  · rw [if_neg readable] at result ⊢
    exact result

/-- The first bytes of a block are replaced, and blocks are apart. -/
theorem put_block {n x : Nat} (fits : n ≤ fs.blockSize) (inside : x < fs.blockSize) (f : Nat → UInt8)
    (c : Nat) : ((d.put (b * fs.blockSize) n f).volume fs).byte c x =
      if c = b ∧ x < n then f x else (d.volume fs).byte c x := by
  show (if b * fs.blockSize ≤ c * fs.blockSize + x ∧ c * fs.blockSize + x < b * fs.blockSize + n then
    f (c * fs.blockSize + x - b * fs.blockSize) else d.bytes (c * fs.blockSize + x)) = _
  rcases Nat.lt_trichotomy c b with below | rfl | above
  · have apart : (c + 1) * fs.blockSize ≤ b * fs.blockSize := Nat.mul_le_mul_right _ below
    rw [Nat.add_mul, Nat.one_mul] at apart
    rw [if_neg (by omega), if_neg fun here => below.ne here.1]
    rfl
  · by_cases early : x < n
    · rw [if_pos ⟨Nat.le_add_right _ _, by omega⟩, if_pos ⟨rfl, early⟩, Nat.add_sub_cancel_left]
    · rw [if_neg (by omega), if_neg fun here => early here.2]
      rfl
  · have apart : (b + 1) * fs.blockSize ≤ c * fs.blockSize := Nat.mul_le_mul_right _ above
    rw [Nat.add_mul, Nat.one_mul] at apart
    rw [if_neg (by omega), if_neg fun here => above.ne' here.1]
    rfl

/-- The bytes of a block write that reach the drive. -/
theorem torn_bounds (few : FewSectors fs) :
    (d.volume fs).torn b ≤ fs.blockSize ∧
      ((d.volume fs).writable b = true → (d.volume fs).torn b = fs.blockSize) := by
  obtain ⟨most, result⟩ :=
    request_bounds d (b * (fs.blockSize / sectorSize) % 2 ^ 32) (fs.blockSize / sectorSize)
  rw [Nat.mod_eq_of_lt few.byte] at most result
  refine ⟨?_, fun writable => ?_⟩
  · calc (d.volume fs).torn b ≤ sectorSize * (fs.blockSize / sectorSize) := Nat.mul_le_mul_left _ most
      _ = fs.blockSize := few.whole.symm
  · rcases result with ⟨_, whole⟩ | failed
    · exact (congrArg (sectorSize * ·) whole).trans few.whole.symm
    · have zero := of_decide_eq_true writable
      rw [failed] at zero
      cases zero

/-- A write of the store replaces the bytes that reach the drive, and returns what the request does. -/
theorem volume_writeBlock (few : FewSectors fs) (f : Memory) :
    (d.volume fs).writeBlock fs.blockSize b f = ((d.volume fs).store b ((d.volume fs).torn b) f,
      (d.request (b * (fs.blockSize / sectorSize) % 2 ^ 32) (fs.blockSize / sectorSize)).2) := by
  obtain ⟨most, whole⟩ := @torn_bounds d fs b few
  unfold Volume.writeBlock
  by_cases writable : (d.volume fs).writable b = true
  · rw [if_pos writable, whole writable]
    exact Prod.ext rfl (of_decide_eq_true writable).symm
  · rw [if_neg writable, min_eq_left most]
    refine Prod.ext rfl ?_
    rcases (request_bounds d (b * (fs.blockSize / sectorSize) % 2 ^ 32)
      (fs.blockSize / sectorSize)).2 with ⟨zero, _⟩ | failed
    · exact absurd (decide_eq_true zero) writable
    · exact failed.symm

/-- **A block write is a write of the store**, and the drive answers later requests as before. -/
theorem ext2WriteBlock_refines (few : FewSectors fs) (near : b * (fs.blockSize / sectorSize) < 2 ^ 28) :
    (ext2WriteBlock d fs m b buffer).2 =
      ((d.volume fs).writeBlock fs.blockSize b fun i => m (buffer + i)).2 ∧
    (∀ c, ∀ x < fs.blockSize, ((ext2WriteBlock d fs m b buffer).1.volume fs).byte c x =
      ((d.volume fs).writeBlock fs.blockSize b fun i => m (buffer + i)).1.byte c x) ∧
    ((ext2WriteBlock d fs m b buffer).1.volume fs).readable = (d.volume fs).readable ∧
    ((ext2WriteBlock d fs m b buffer).1.volume fs).writable = (d.volume fs).writable := by
  have written : ext2WriteBlock d fs m b buffer =
      (d.put (b * fs.blockSize) ((d.volume fs).torn b) fun i => m (buffer + i),
        (d.request (b * (fs.blockSize / sectorSize) % 2 ^ 32) (fs.blockSize / sectorSize)).2) := by
    rw [ext2WriteBlock, ideWriteSectors_eq, few.start near]
    rfl
  rw [written, volume_writeBlock few]
  refine ⟨rfl, fun c x inside => put_block (torn_bounds few).1 inside _ c, rfl, ?_⟩
  funext c
  simp only [Device.volume, request_put]

end Blocks

end Kfs.Disk
