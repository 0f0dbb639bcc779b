/-
**Block numbers and sectors: `ext2_read_block` and `ext2_write_block`.**

The number of the first sector of a block is a 32-bit product, and the registers of the drive hold 28 bits
of it. A block whose sectors have numbers of 28 bits is read and written exactly. The number of any other
block wraps onto a sector near the start of the disk, and unless the drive refuses to serve that one, the
call returns 0 for the wrong sectors: `block_addressing_iff`.
-/

import Kfs.Disk.Overrun

namespace Kfs.Disk

/-- The little-endian word at an address. -/
def word (m : Memory) (a : Nat) : Nat := (m a).toNat + 2 ^ 8 * (m (a + 1)).toNat

/-- Words of a sector. -/
def sectorWords : Nat := 256

/-- A word of a sector. -/
def Drive.word (d : Drive) (sector i : Nat) : Nat := Disk.word d.bytes (sectorSize * sector + 2 * i)

/-- Every sector of a write is taken and stored. -/
def Device.accepts (d : Device) (lba count : Nat) : Bool :=
  d.present && decide (count % 2 ^ 8 ≠ 0) && d.ready lba &&
    (List.range' 0 (count % 2 ^ 8)).all fun sector =>
      d.takes (lbaRegisters lba) sector && d.stored (lbaRegisters lba) sector

/-- The first sector of a block, as the driver computes it. -/
def Ext2Fs.startSector (fs : Ext2Fs) (b : Nat) : Nat := b * fs.sectors % 2 ^ 32

/-- The sectors of a block have numbers of 28 bits. -/
def Ext2Fs.Addressable (fs : Ext2Fs) (b : Nat) : Prop := b * fs.sectors + fs.sectors ≤ 2 ^ 28

/-- A block was written: its sectors hold the words of the buffer, in order, and no other sector of the
drive has changed. -/
structure BlockWritten (d d' : Drive) (fs : Ext2Fs) (m : Memory) (b buffer : Nat) : Prop where
  words : ∀ k < fs.sectors, ∀ i < sectorWords,
    d'.word (b * fs.sectors + k) i = word m (buffer + sectorSize * k + 2 * i)
  others : ∀ sector, sector < b * fs.sectors ∨ b * fs.sectors + fs.sectors ≤ sector →
    ∀ i < sectorWords, d'.word sector i = d.word sector i

/-- A block was read: the buffer holds the words of its sectors, in order, and nothing else in memory has
changed. -/
structure BlockRead (d : Drive) (fs : Ext2Fs) (m m' : Memory) (b buffer : Nat) : Prop where
  words : ∀ k < fs.sectors, ∀ i < sectorWords,
    word m' (buffer + sectorSize * k + 2 * i) = d.word (b * fs.sectors + k) i
  others : Set.EqOn m' m {x | x < buffer ∨ buffer + fs.blockSize ≤ x}

/-- **Writes of a block are exact**: when one returns 0 the block was written, and it returns 0 for
addressable blocks only. -/
structure WritesExactly (d : Device) (fs : Ext2Fs) (b : Nat) : Prop where
  exact : ∀ m buffer, (ext2WriteBlock d fs m b buffer).2 = 0 →
    BlockWritten d.toDrive (ext2WriteBlock d fs m b buffer).1.toDrive fs m b buffer
  refuses : ∀ m buffer, ¬ fs.Addressable b → (ext2WriteBlock d fs m b buffer).2 ≠ 0

/-- **Reads of a block are exact**, whatever the drive holds. -/
structure ReadsExactly (d : Drive) (fs : Ext2Fs) (b : Nat) : Prop where
  exact : ∀ bytes m buffer, (ext2ReadBlock { d with bytes := bytes } fs m b buffer).2 = 0 →
    BlockRead { d with bytes := bytes } fs m (ext2ReadBlock { d with bytes := bytes } fs m b buffer).1 b
      buffer
  refuses : ∀ m buffer, ¬ fs.Addressable b → (ext2ReadBlock d fs m b buffer).2 ≠ 0

section Words

variable {m m' : Memory} {a c : Nat}

theorem word_congr (low : m a = m' c) (high : m (a + 1) = m' (c + 1)) : word m a = word m' c := by
  unfold word
  rw [low, high]

theorem low_of_word (same : word m a = word m' c) : m a = m' c := by
  have first := (m a).toNat_lt
  have second := (m' c).toNat_lt
  unfold word at same
  exact UInt8.toNat_inj.mp (by omega)

/-- The bytes of a sector are those of its words. -/
theorem words_congr {f g : Nat → UInt8} {a c : Nat} (same : ∀ x < sectorSize, f (a + x) = g (c + x)) :
    ∀ i < sectorWords, word f (a + 2 * i) = word g (c + 2 * i) := by
  intro i less
  simp only [sectorWords] at less
  refine word_congr (same _ ?_) ?_
  · simp only [sectorSize]
    omega
  · rw [Nat.add_assoc, Nat.add_assoc]
    exact same _ (by simp only [sectorSize]; omega)

end Words

section Addressing

variable {d : Device} {fs : Ext2Fs} {b : Nat}

theorem put_bytes (d : Device) (a n : Nat) (f : Nat → UInt8) :
    (d.put a n f).bytes = Memory.writeBytes d.bytes a n f := rfl

theorem reach_accepts (d : Device) (lba sector count : Nat) : (d.reach lba sector count).2 = 0 ↔
    (List.range' sector count).all (fun k => d.takes lba k && d.stored lba k) = true := by
  induction count generalizing sector with
  | zero => exact iff_of_true rfl rfl
  | succ count ih =>
      rw [List.range'_succ, List.all_cons, Device.reach]
      by_cases took : d.takes lba sector = true
      · by_cases done : d.stored lba sector = true
        · rw [if_pos took, if_pos done, ih, took, done, Bool.and_self, Bool.true_and]
        · rw [if_pos took, if_neg done, eq_false_of_ne_true done, Bool.and_false, Bool.false_and]
          exact iff_of_false (by decide) (by decide)
      · rw [if_neg took, eq_false_of_ne_true took, Bool.false_and, Bool.false_and]
        exact iff_of_false (by decide) (by decide)

/-- **When a write succeeds.** -/
theorem request_accepts (d : Device) (lba count : Nat) :
    (d.request lba count).2 = 0 ↔ d.accepts lba count = true := by
  unfold Device.request Device.accepts
  by_cases absent : d.present = false
  · rw [if_pos absent, absent]
    exact iff_of_false (by decide) (by simp)
  · by_cases none : count % 2 ^ 8 = 0
    · rw [if_neg absent, if_pos none, decide_eq_false (not_not.mpr none)]
      exact iff_of_false (by decide) (by simp)
    · by_cases busy : d.ready lba = false
      · rw [if_neg absent, if_neg none, if_pos busy, busy]
        exact iff_of_false (by decide) (by simp)
      · rw [if_neg absent, if_neg none, if_neg busy, reach_accepts, eq_true_of_ne_false absent,
          eq_true_of_ne_false busy, decide_eq_true none]
        simp

/-- The blocks of a filesystem are 2, 4 or 8 sectors long. -/
theorem blockSize_sectors (size : fs.blockSize = 1024 ∨ fs.blockSize = 2048 ∨ fs.blockSize = 4096) :
    FewSectors fs ∧ fs.sectors ∣ 2 ^ 28 ∧ 0 < fs.sectors := by
  unfold Ext2Fs.sectors
  rcases size with size | size | size
  · exact ⟨⟨by rw [size]; decide, by rw [size]; decide⟩, by rw [size]; decide, by rw [size]; decide⟩
  · exact ⟨⟨by rw [size]; decide, by rw [size]; decide⟩, by rw [size]; decide, by rw [size]; decide⟩
  · exact ⟨⟨by rw [size]; decide, by rw [size]; decide⟩, by rw [size]; decide, by rw [size]; decide⟩

/-- A block whose first sector has a number of 28 bits is addressable. -/
theorem addressable_iff (divides : fs.sectors ∣ 2 ^ 28) (positive : 0 < fs.sectors) :
    fs.Addressable b ↔ b * fs.sectors < 2 ^ 28 := by
  unfold Ext2Fs.Addressable
  refine ⟨fun fits => by omega, fun near => ?_⟩
  obtain ⟨n, total⟩ := divides
  rw [total, Nat.mul_comm fs.sectors] at near ⊢
  have below : b + 1 ≤ n := Nat.lt_of_mul_lt_mul_right near
  calc b * fs.sectors + fs.sectors = (b + 1) * fs.sectors := by ring
    _ ≤ n * fs.sectors := Nat.mul_le_mul_right _ below

/-- When a write of a block returns 0. -/
theorem ext2WriteBlock_result (d : Device) (fs : Ext2Fs) (m : Memory) (b buffer : Nat) :
    (ext2WriteBlock d fs m b buffer).2 = 0 ↔ d.accepts (fs.startSector b) fs.sectors = true := by
  rw [ext2WriteBlock, ideWriteSectors_eq]
  exact request_accepts _ _ _

/-- When a read of a block returns 0. -/
theorem ext2ReadBlock_result (d : Drive) (fs : Ext2Fs) (m : Memory) (b buffer : Nat) :
    (ext2ReadBlock d fs m b buffer).2 = 0 ↔ d.serves (fs.startSector b) fs.sectors = true := by
  rw [ext2ReadBlock, ideReadSectors_result]
  unfold Ext2Fs.startSector Ext2Fs.sectors
  split
  · rename_i served
    exact iff_of_true rfl served
  · rename_i refused
    exact iff_of_false (by decide) refused

/-- A write that returns 0 has stored the buffer at the sectors of that number. -/
theorem ext2WriteBlock_stores (few : FewSectors fs) {m : Memory} {buffer : Nat}
    (done : (ext2WriteBlock d fs m b buffer).2 = 0) : (ext2WriteBlock d fs m b buffer).1 =
      d.put (sectorSize * (b * fs.sectors % 2 ^ 28)) fs.blockSize fun i => m (buffer + i) := by
  have wrap : b * fs.sectors % 2 ^ 32 % 2 ^ 28 = b * fs.sectors % 2 ^ 28 :=
    Nat.mod_mod_of_dvd _ (by decide)
  rw [ext2WriteBlock, ideWriteSectors_eq] at done ⊢
  rcases (request_bounds d (b * (fs.blockSize / sectorSize) % 2 ^ 32) (fs.blockSize / sectorSize)).2 with
    ⟨-, whole⟩ | failed
  · rw [whole, Nat.mod_eq_of_lt few.byte, ← few.whole]
    exact congrArg (fun start => d.put (sectorSize * start) _ _) wrap
  · rw [failed] at done
    cases done

/-- A read that returns 0 has stored the sectors of that number in the buffer. -/
theorem ext2ReadBlock_loads (few : FewSectors fs) {d : Drive} {m : Memory} {buffer : Nat}
    (done : (ext2ReadBlock d fs m b buffer).2 = 0) :
    (∀ x < fs.blockSize, (ext2ReadBlock d fs m b buffer).1 (buffer + x) =
      d.bytes (sectorSize * (b * fs.sectors % 2 ^ 28) + x)) ∧
    Set.EqOn (ext2ReadBlock d fs m b buffer).1 m {x | x < buffer ∨ buffer + fs.blockSize ≤ x} := by
  have wrap : b * fs.sectors % 2 ^ 32 % 2 ^ 28 = b * fs.sectors % 2 ^ 28 :=
    Nat.mod_mod_of_dvd _ (by decide)
  obtain ⟨-, inside, outside⟩ := ideReadSectors_ok (Prod.ext rfl done)
  rw [Nat.mod_eq_of_lt few.byte, ← few.whole] at inside outside
  refine ⟨fun x less => ?_, outside⟩
  rw [← wrap]
  exact inside x less

/-- The bytes of a sector of a block. -/
theorem sector_bytes (few : FewSectors fs) {k x : Nat} (inside : k < fs.sectors) (less : x < sectorSize) :
    sectorSize * k + x < fs.blockSize := by
  have whole : fs.blockSize = sectorSize * fs.sectors := few.whole
  have next : sectorSize * (k + 1) ≤ sectorSize * fs.sectors := Nat.mul_le_mul_left _ inside
  rw [Nat.mul_succ] at next
  omega

/-- **An addressable block is written exactly.** -/
theorem BlockWritten.of_near (few : FewSectors fs) (near : b * fs.sectors < 2 ^ 28) {m : Memory}
    {buffer : Nat} (done : (ext2WriteBlock d fs m b buffer).2 = 0) :
    BlockWritten d.toDrive (ext2WriteBlock d fs m b buffer).1.toDrive fs m b buffer := by
  rw [ext2WriteBlock_stores few done, Nat.mod_eq_of_lt near]
  have whole : fs.blockSize = sectorSize * fs.sectors := few.whole
  refine ⟨fun k inside => words_congr fun x less => ?_, fun sector outside => words_congr fun x less => ?_⟩
  · have room := sector_bytes few inside less
    rw [put_bytes, Nat.mul_add, Nat.add_assoc, Memory.writeBytes_inside _ _ _ _ room, Nat.add_assoc]
  · rw [put_bytes]
    refine Memory.writeBytes_eqOn _ _ _ _ ?_
    simp only [Set.mem_ofPred_eq]
    rcases outside with before | behind
    · left
      have : sectorSize * (sector + 1) ≤ sectorSize * (b * fs.sectors) := Nat.mul_le_mul_left _ before
      rw [Nat.mul_succ] at this
      omega
    · right
      have : sectorSize * (b * fs.sectors + fs.sectors) ≤ sectorSize * sector :=
        Nat.mul_le_mul_left _ behind
      rw [Nat.mul_add] at this
      omega

/-- **An addressable block is read exactly.** -/
theorem BlockRead.of_near (few : FewSectors fs) (near : b * fs.sectors < 2 ^ 28) {d : Drive} {m : Memory}
    {buffer : Nat} (done : (ext2ReadBlock d fs m b buffer).2 = 0) :
    BlockRead d fs m (ext2ReadBlock d fs m b buffer).1 b buffer := by
  obtain ⟨inside, outside⟩ := ext2ReadBlock_loads few done
  rw [Nat.mod_eq_of_lt near] at inside
  refine ⟨fun k within => words_congr fun x less => ?_, outside⟩
  have room := sector_bytes few within less
  rw [Nat.add_assoc, inside _ room, Nat.mul_add, Nat.add_assoc]

/-- The wrapped number of a block that is not addressable is another one. -/
theorem wrapped_lt (far : ¬ b * fs.sectors < 2 ^ 28) : b * fs.sectors % 2 ^ 28 < b * fs.sectors := by
  have := Nat.mod_lt (b * fs.sectors) (show 0 < 2 ^ 28 by decide)
  omega

/-- **A wrapped write that the drive accepts replaces another sector.** -/
theorem wrapped_write_misses (few : FewSectors fs) (positive : 0 < fs.sectors)
    (far : ¬ b * fs.sectors < 2 ^ 28) (accepted : d.accepts (fs.startSector b) fs.sectors = true) :
    ∃ m, (ext2WriteBlock d fs m b 0).2 = 0 ∧
      ¬ BlockWritten d.toDrive (ext2WriteBlock d fs m b 0).1.toDrive fs m b 0 := by
  let start := b * fs.sectors % 2 ^ 28
  let m : Memory := fun _ => d.bytes (sectorSize * start) + 1
  have done := (ext2WriteBlock_result d fs m b 0).mpr accepted
  refine ⟨m, done, fun written => ?_⟩
  have kept := written.others start (.inl (wrapped_lt far)) 0 (by decide)
  rw [ext2WriteBlock_stores few done] at kept
  have same := low_of_word kept
  have whole : fs.blockSize = sectorSize * fs.sectors := few.whole
  rw [put_bytes, Nat.mul_zero, Memory.writeBytes_inside _ _ _ _ (by simp only [whole, sectorSize]; omega)] at same
  exact absurd same (by simp [m, start])

/-- **A wrapped read that the drive serves returns another sector.** -/
theorem wrapped_read_misses (few : FewSectors fs) (positive : 0 < fs.sectors) {d : Drive}
    (far : ¬ b * fs.sectors < 2 ^ 28) (served : d.serves (fs.startSector b) fs.sectors = true) :
    ∃ bytes, (ext2ReadBlock { d with bytes := bytes } fs (fun _ => 0) b 0).2 = 0 ∧
      ¬ BlockRead { d with bytes := bytes } fs (fun _ => 0)
        (ext2ReadBlock { d with bytes := bytes } fs (fun _ => 0) b 0).1 b 0 := by
  let bytes : Nat → UInt8 := fun x => if x < sectorSize * (b * fs.sectors) then 0 else 1
  have done := (ext2ReadBlock_result { d with bytes := bytes } fs (fun _ => 0) b 0).mpr served
  refine ⟨bytes, done, fun read => ?_⟩
  have first := low_of_word (read.words 0 positive 0 (by decide))
  have whole : fs.blockSize = sectorSize * fs.sectors := few.whole
  have loaded := (ext2ReadBlock_loads few done).1 0 (by simp only [whole, sectorSize]; omega)
  rw [Nat.mul_zero, Nat.mul_zero] at first
  rw [first] at loaded
  have less : sectorSize * (b * fs.sectors % 2 ^ 28) < sectorSize * (b * fs.sectors) :=
    Nat.mul_lt_mul_of_pos_left (wrapped_lt far) (by decide)
  have right : bytes (sectorSize * (b * fs.sectors)) = 1 := if_neg (lt_irrefl _)
  have wrong : bytes (sectorSize * (b * fs.sectors % 2 ^ 28)) = 0 := if_pos less
  exact absurd (right.symm.trans (loaded.trans wrong)) (by decide)

/-- **Writes are exact for addressable blocks**, and for those whose wrapped number the drive refuses. -/
theorem writesExactly_iff (size : fs.blockSize = 1024 ∨ fs.blockSize = 2048 ∨ fs.blockSize = 4096) :
    WritesExactly d fs b ↔
      fs.Addressable b ∨ d.accepts (fs.startSector b) fs.sectors = false := by
  obtain ⟨few, divides, positive⟩ := blockSize_sectors size
  constructor
  · intro exactly
    by_contra neither
    obtain ⟨far, accepted⟩ := not_or.mp neither
    rw [addressable_iff divides positive] at far
    obtain ⟨m, done, misses⟩ := wrapped_write_misses few positive far (eq_true_of_ne_false accepted)
    exact misses (exactly.exact m 0 done)
  · rintro (near | refused)
    · exact ⟨fun m buffer => BlockWritten.of_near few ((addressable_iff divides positive).mp near),
        fun _ _ far => absurd near far⟩
    · have failed : ∀ m buffer, (ext2WriteBlock d fs m b buffer).2 ≠ 0 := fun m buffer done => by
        rw [ext2WriteBlock_result, refused] at done
        cases done
      exact ⟨fun m buffer done => absurd done (failed m buffer), fun m buffer _ => failed m buffer⟩

/-- **Reads are exact for addressable blocks**, and for those whose wrapped number the drive refuses. -/
theorem readsExactly_iff {d : Drive}
    (size : fs.blockSize = 1024 ∨ fs.blockSize = 2048 ∨ fs.blockSize = 4096) :
    ReadsExactly d fs b ↔ fs.Addressable b ∨ d.serves (fs.startSector b) fs.sectors = false := by
  obtain ⟨few, divides, positive⟩ := blockSize_sectors size
  constructor
  · intro exactly
    by_contra neither
    obtain ⟨far, served⟩ := not_or.mp neither
    rw [addressable_iff divides positive] at far
    obtain ⟨bytes, done, misses⟩ := wrapped_read_misses few positive far (eq_true_of_ne_false served)
    exact misses (exactly.exact bytes (fun _ => 0) 0 done)
  · rintro (near | refused)
    · exact ⟨fun bytes m buffer => BlockRead.of_near few ((addressable_iff divides positive).mp near),
        fun _ _ far => absurd near far⟩
    · have failed : ∀ bytes m buffer, (ext2ReadBlock { d with bytes := bytes } fs m b buffer).2 ≠ 0 :=
        fun bytes m buffer done => by
          have served := (ext2ReadBlock_result _ fs m b buffer).mp done
          exact absurd (refused.symm.trans served) (by decide)
      exact ⟨fun bytes m buffer done => absurd done (failed bytes m buffer),
        fun m buffer _ => failed d.bytes m buffer⟩

end Addressing

/-- **Exactly when block addressing is exact**, for writes and for reads of every 32-bit block number. -/
theorem block_addressing_iff {fs : Ext2Fs}
    (size : fs.blockSize = 1024 ∨ fs.blockSize = 2048 ∨ fs.blockSize = 4096) (d : Device) (b : Nat) :
    (WritesExactly d fs b ↔ fs.Addressable b ∨ d.accepts (fs.startSector b) fs.sectors = false) ∧
    (ReadsExactly d.toDrive fs b ↔ fs.Addressable b ∨ d.serves (fs.startSector b) fs.sectors = false) :=
  ⟨writesExactly_iff size, readsExactly_iff size⟩

/-- A drive of 128 sectors, which refuses all others. -/
def smallDevice : Device where
  toDrive := { smallDisk 0 with drq := fun lba sector => decide (lba + sector < 128) }
  takes := fun lba sector => decide (lba + sector < 128)
  stored := fun _ _ => true

theorem block_addressing_small : WritesExactly smallDevice smallFs 63 ∧
    ReadsExactly smallDevice.toDrive smallFs 64 := by
  have size : smallFs.blockSize = 1024 ∨ smallFs.blockSize = 2048 ∨ smallFs.blockSize = 4096 := .inl rfl
  exact ⟨(block_addressing_iff size smallDevice 63).1.mpr (.inl (by unfold Ext2Fs.Addressable; decide)),
    (block_addressing_iff size smallDevice 64).2.mpr (.inr (by decide))⟩

/-- **The block 2 ^ 27 of that drive is its first one**: a write of it returns 0 and replaces the boot
sector. -/
theorem write_wraps : ext2ReadSuperblock smallDevice.toDrive = .ok (some smallFs) ∧
    (ext2WriteBlock smallDevice smallFs (fun _ => 7) (2 ^ 27) 0).2 = 0 ∧
    smallDevice.toDrive.word 0 0 = 0 ∧
    (ext2WriteBlock smallDevice smallFs (fun _ => 7) (2 ^ 27) 0).1.toDrive.word 0 0 = 0x707 ∧
    ¬ WritesExactly smallDevice smallFs (2 ^ 27) ∧ ¬ ReadsExactly smallDevice.toDrive smallFs (2 ^ 27) := by
  have few : FewSectors smallFs := ⟨by decide, by decide⟩
  have done : (ext2WriteBlock smallDevice smallFs (fun _ => 7) (2 ^ 27) 0).2 = 0 :=
    (ext2WriteBlock_result _ _ _ _ _).mpr (by decide)
  have far : ¬ smallFs.Addressable (2 ^ 27) := by
    unfold Ext2Fs.Addressable
    decide
  refine ⟨?_, done, by decide, ?_, fun exactly => exactly.refuses (fun _ => 7) 0 far done,
    fun exactly => exactly.refuses (fun _ => 7) 0 far ?_⟩
  · rw [← smallDisk_accepted 0]
    rfl
  · rw [ext2WriteBlock_stores few done]
    decide
  · exact (ext2ReadBlock_result _ _ _ _ _).mpr (by decide)

end Kfs.Disk
