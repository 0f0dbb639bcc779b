/-
**Reading sectors: `ide.c`.**

A drive is its bytes, whether it was identified, and what its status register answers: `ready` to the
wait before a request, `drq` to the wait before each sector of it. Both are arbitrary, so every pattern
of timeouts and errors is covered. A request addresses the drive through the 28 bits its registers
hold.
-/

import Kfs.Base.Memory
import Mathlib.Data.UInt

namespace Kfs.Disk

/-- Bytes of a sector. -/
def sectorSize : Nat := 512

/-- One IDE device, by LBA of the request and number of the sector in it. -/
structure Drive where
  present : Bool
  ready : Nat → Bool
  drq : Nat → Nat → Bool
  bytes : Nat → UInt8

/-- The sector address the LBA registers and the low four bits of the drive register hold. -/
def lbaRegisters (lba : Nat) : Nat :=
  lba % 2 ^ 8 + 2 ^ 8 * (lba / 2 ^ 8 % 2 ^ 8) + 2 ^ 16 * (lba / 2 ^ 16 % 2 ^ 8) +
    2 ^ 24 * (lba / 2 ^ 24 % 2 ^ 4)

/-- The sector loop of `ide_read_sectors`: 256 words from the data register for each sector. -/
def readSectorLoop (d : Drive) (lba buffer : Nat) :
    (sector count : Nat) → Memory → Memory × Int
  | _, 0, m => (m, 0)
  | sector, count + 1, m =>
      if d.drq lba sector then
        readSectorLoop d lba buffer (sector + 1) count
          (m.writeBytes (buffer + sectorSize * sector) sectorSize fun i =>
            d.bytes (sectorSize * (lba + sector) + i))
      else (m, -1)

/-- `ide_read_sectors`. The count is one byte. -/
def ideReadSectors (d : Drive) (m : Memory) (lba count buffer : Nat) : Memory × Int :=
  if d.present = false then (m, -1)
  else if count % 2 ^ 8 = 0 then (m, -1)
  else if d.ready lba = false then (m, -1)
  else readSectorLoop d (lbaRegisters lba) buffer 0 (count % 2 ^ 8) m

theorem lbaRegisters_eq (lba : Nat) : lbaRegisters lba = lba % 2 ^ 28 := by
  unfold lbaRegisters
  omega

/-- The loop fills the buffer from the drive and leaves everything else alone. -/
theorem readSectorLoop_ok {d : Drive} {lba buffer : Nat} :
    ∀ {count sector : Nat} {m m' : Memory},
      readSectorLoop d lba buffer sector count m = (m', 0) →
      (∀ x, sectorSize * sector ≤ x → x < sectorSize * (sector + count) →
        m' (buffer + x) = d.bytes (sectorSize * lba + x)) ∧
      Set.EqOn m' m {x | x < buffer + sectorSize * sector ∨
        buffer + sectorSize * (sector + count) ≤ x} := by
  intro count
  induction count with
  | zero =>
      intro sector m m' done
      cases done
      refine ⟨fun x low high => ?_, Set.eqOn_refl m _⟩
      rw [Nat.add_zero] at high
      omega
  | succ count ih =>
      intro sector m m' done
      unfold readSectorLoop at done
      split at done
      · obtain ⟨inside, outside⟩ := ih done
        simp only [Nat.mul_add, Nat.mul_one] at inside outside ⊢
        refine ⟨fun x low high => ?_, fun x away => ?_⟩
        · by_cases later : sectorSize * sector + sectorSize ≤ x
          · exact inside x later (by omega)
          · obtain ⟨i, rfl⟩ := Nat.exists_eq_add_of_le low
            have small : i < sectorSize := by omega
            rw [outside (Or.inl (by omega)), ← Nat.add_assoc, ← Nat.add_assoc,
              ← Nat.mul_add sectorSize lba sector]
            exact Memory.writeBytes_inside m (buffer + sectorSize * sector) sectorSize _ small
        · simp only [Set.mem_ofPred_eq] at away
          rw [outside (by simp only [Set.mem_ofPred_eq]; omega)]
          have beyond : x < buffer + sectorSize * sector ∨
              buffer + sectorSize * sector + sectorSize ≤ x := by omega
          exact Memory.writeBytes_eqOn m (buffer + sectorSize * sector) sectorSize _ beyond
      · cases done

/-- **A read that returns 0 stored the requested sectors.** -/
theorem ideReadSectors_ok {d : Drive} {m m' : Memory} {lba count buffer : Nat}
    (done : ideReadSectors d m lba count buffer = (m', 0)) :
    count % 2 ^ 8 ≠ 0 ∧
    (∀ x < sectorSize * (count % 2 ^ 8),
      m' (buffer + x) = d.bytes (sectorSize * (lba % 2 ^ 28) + x)) ∧
    Set.EqOn m' m {x | x < buffer ∨ buffer + sectorSize * (count % 2 ^ 8) ≤ x} := by
  unfold ideReadSectors at done
  split at done
  · cases done
  · split at done
    · cases done
    · rename_i some
      split at done
      · cases done
      · obtain ⟨inside, outside⟩ := readSectorLoop_ok done
        rw [lbaRegisters_eq] at inside
        simp only [Nat.mul_zero, Nat.add_zero, Nat.zero_add] at inside outside
        exact ⟨some, fun x high => inside x (Nat.zero_le x) high, outside⟩

end Kfs.Disk
