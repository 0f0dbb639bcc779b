/-
**The record of a drive: `ide_identify`.**

A drive identifies itself by 256 words. `ide_identify` keeps the number of its sectors, its size and its name:
`identify_record`. The name is the bytes of 20 words, the high byte of each first, without trailing spaces. The
size in megabytes is computed with 32 bits from the number of bytes, so it is right for a drive of less than 2^23
sectors and for no other.
-/

import Kfs.Base.Text
import Kfs.Disk.Channels
import Mathlib.Data.List.DropRight
import Mathlib.Data.Nat.Bitwise

namespace Kfs.Disk.Ata

/-! ### The name -/

/-- The bytes of the name, as the drive gives them. -/
def nameBytes (data : Nat → UInt16) (i : Nat) : UInt8 :=
  if i % 2 = 0 then (data (27 + i / 2) >>> 8).toUInt8 else (data (27 + i / 2) &&& 0xFF).toUInt8

/-- **The name of a drive**: no space stands at its end, and nothing behind a zero. -/
def modelName (data : Nat → UInt16) : List UInt8 :=
  (((List.range 40).map (nameBytes data)).rdropWhile fun b => decide (b = 0x20)).takeWhile fun b => decide (b ≠ 0)

section Name

variable {data : Nat → UInt16} {m : Memory}

/-- The loop over the words stores the bytes of the name. -/
theorem swapModel_eq (count x : Nat) : ∀ (i : Nat) (m : Memory), swapModel data i count m x =
    if i * 2 ≤ x ∧ x < (i + count) * 2 then nameBytes data x else m x := by
  induction count with
  | zero =>
      intro i m
      rw [swapModel, if_neg (by omega)]
  | succ count ih =>
      intro i m
      rw [swapModel, ih]
      by_cases later : (i + 1) * 2 ≤ x ∧ x < (i + 1 + count) * 2
      · rw [if_pos later, if_pos (by omega)]
      · rw [if_neg later]
        unfold Memory.store8
        by_cases low : x = i * 2 + 1
        · rw [if_pos low, if_pos (by omega), nameBytes, if_neg (by omega), show x / 2 = i by omega]
        · rw [if_neg low]
          by_cases high : x = i * 2
          · rw [if_pos high, if_pos (by omega), nameBytes, if_pos (by omega), show x / 2 = i by omega]
          · rw [if_neg high, if_neg (by omega)]

/-- The cells that are left of `n` when the spaces at their end are gone. -/
def trimmed (m : Memory) (n : Nat) : List UInt8 := ((List.range n).map m).rdropWhile fun b => decide (b = 0x20)

theorem trimmed_succ (m : Memory) (n : Nat) :
    trimmed m (n + 1) = if m n = 0x20 then trimmed m n else (List.range (n + 1)).map m := by
  unfold trimmed
  rw [List.range_succ, List.map_append, List.map_singleton, List.rdropWhile_concat]
  exact if_congr decide_eq_true_iff rfl rfl

theorem trimmed_length (m : Memory) (n : Nat) : (trimmed m n).length ≤ n := by
  have prefixed := (List.rdropWhile_prefix (fun b : UInt8 => decide (b = 0x20)) ((List.range n).map m)).length_le
  rwa [List.length_map, List.length_range] at prefixed

/-- **The loop over the spaces** clears them. -/
theorem trimModel_eq (n x : Nat) : ∀ m, trimModel n m x =
    if (trimmed m n).length ≤ x ∧ x < n then 0 else m x := by
  induction n with
  | zero =>
      intro m
      rw [trimModel, if_neg (by omega)]
  | succ n ih =>
      intro m
      rw [trimModel, trimmed_succ]
      by_cases space : m n = 0x20
      · have same : trimmed (m.store8 n 0) n = trimmed m n := by
          have cells : (List.range n).map (m.store8 n 0) = (List.range n).map m :=
            List.map_congr_left fun i member => if_neg (List.mem_range.mp member).ne
          rw [trimmed, cells, trimmed]
        have short := trimmed_length m n
        rw [if_pos space, if_pos space, ih, same]
        by_cases last : x = n
        · rw [last, if_neg (by omega), if_pos ⟨short, by omega⟩]
          exact if_pos rfl
        · have kept : m.store8 n 0 x = m x := if_neg last
          rw [kept]
          exact if_congr (by omega) rfl rfl
      · rw [if_neg space, if_neg space, List.length_map, List.length_range, if_neg (by omega)]

/-- **The name is a string** in its field. -/
theorem modelName_string (data : Nat → UInt16) (m : Memory) :
    StringAt 0 (trimModel 40 ((swapModel data 0 20 m).store8 40 0)) 0 (modelName data) := by
  have bytes : trimmed ((swapModel data 0 20 m).store8 40 0) 40 =
      ((List.range 40).map (nameBytes data)).rdropWhile fun b => decide (b = 0x20) := by
    have cells : (List.range 40).map ((swapModel data 0 20 m).store8 40 0) = (List.range 40).map (nameBytes data) := by
      refine List.map_congr_left fun i member => ?_
      have inside := List.mem_range.mp member
      refine (if_neg inside.ne).trans ?_
      rw [swapModel_eq, if_pos (by omega)]
    rw [trimmed, cells]
  have short := trimmed_length ((swapModel data 0 20 m).store8 40 0) 40
  generalize stored : (swapModel data 0 20 m).store8 40 0 = field at bytes short
  have last : field 40 = 0 := by
    rw [← stored]
    exact if_pos rfl
  have spells : Spells (trimModel 40 field) 0 (trimmed field 40) := by
    intro k inside
    have prefixed : trimmed field 40 <+: (List.range 40).map field := List.rdropWhile_prefix _ _
    have here : (trimmed field 40)[k] = field k := by
      rw [prefixed.getElem inside, List.getElem_map, List.getElem_range]
    rw [List.getElem?_eq_getElem inside, here, Nat.zero_add, trimModel_eq, if_neg (by omega)]
  have ends : trimModel 40 field (0 + (trimmed field 40).length) = 0 := by
    rw [Nat.zero_add, trimModel_eq]
    by_cases inside : (trimmed field 40).length < 40
    · rw [if_pos ⟨le_rfl, inside⟩]
    · rw [if_neg (by omega), le_antisymm short (Nat.not_lt.mp inside), last]
  rw [modelName, ← bytes]
  exact spells.upTo ends

end Name

/-! ### The record -/

/-- The drive can be addressed by sectors: bit 9 of word 49. -/
def AtaDrive.hasLba (d : AtaDrive) : Bool := (d.identity 49).toBitVec.getLsbD 9

section Record

variable {data : Nat → UInt16} {device : IdeDevice}

theorem lba_bit (w : UInt16) : decide (w &&& ((1 : UInt16) <<< 9) ≠ 0) = w.toBitVec.getLsbD 9 := by
  have one : ((1 : UInt16) <<< 9) = 0x200 := by decide
  have same : w &&& 0x200 = 0 ↔ w.toBitVec.getLsbD 9 = false := by
    rw [← UInt16.toNat_inj, UInt16.toNat_and]
    show w.toNat &&& 2 ^ 9 = 0 ↔ w.toNat.testBit 9 = false
    rw [Nat.and_comm, Nat.two_pow_and]
    cases w.toNat.testBit 9 <;> simp
  rw [one]
  cases bit : w.toBitVec.getLsbD 9 with
  | false => exact decide_eq_false (not_not.mpr (same.mpr bit))
  | true => exact decide_eq_true (fun zero => by rw [same.mp zero] at bit; cases bit)

/-- The number of sectors, from its two words. -/
theorem sectors_toNat (low high : UInt16) :
    ((high.toUInt32 <<< 16) ||| low.toUInt32).toNat = low.toNat + 2 ^ 16 * high.toNat := by
  have small := low.toNat_lt
  have large := high.toNat_lt
  rw [UInt32.toNat_or, UInt32.toNat_shiftLeft, UInt16.toNat_toUInt32, UInt16.toNat_toUInt32]
  show (high.toNat <<< 16) % 2 ^ 32 ||| low.toNat = _
  rw [Nat.shiftLeft_eq, Nat.mod_eq_of_lt (by omega), Nat.mul_comm, ← Nat.two_pow_add_eq_or_of_lt small]
  omega

/-- **The size in megabytes** is right for less than 2^23 sectors only. -/
theorem sizeMb_iff (sectors : UInt32) :
    (sectors * 512 / (1024 * 1024)).toNat = sectors.toNat * 512 / (1024 * 1024) ↔ sectors.toNat < 2 ^ 23 := by
  have size : (sectors * 512 / (1024 * 1024)).toNat = sectors.toNat * 512 % 2 ^ 32 / (1024 * 1024) := by
    rw [UInt32.toNat_div, UInt32.toNat_mul]
    rfl
  have word := sectors.toNat_lt
  rw [size]
  omega

theorem modelName_words (d : AtaDrive) : modelName d.words = modelName d.identity := by
  have same : (List.range 40).map (nameBytes d.words) = (List.range 40).map (nameBytes d.identity) := by
    refine List.map_congr_left fun i member => ?_
    have inside := List.mem_range.mp member
    have word : d.words (27 + i / 2) = d.identity (27 + i / 2) := if_pos (by omega)
    rw [nameBytes, nameBytes, word]
  rw [modelName, same, modelName]

/-- What is kept of a drive. -/
structure Recorded (d : AtaDrive) (record : IdeDevice) : Prop where
  sectors : record.sectors.toNat = (d.identity 60).toNat + 2 ^ 16 * (d.identity 61).toNat
  size : record.sizeMb.toNat = record.sectors.toNat * 512 / (1024 * 1024) ↔ record.sectors.toNat < 2 ^ 23
  name : StringAt 0 record.model 0 (modelName d.identity)

/-- The record of a drive that gave its words. -/
theorem ideRecord_cases (d : AtaDrive) (device : IdeDevice) (fresh : device.present = false) :
    ((ideRecord device d.words).2 = 0 ↔ d.hasLba = true) ∧
      ((ideRecord device d.words).1.present = true ↔ (ideRecord device d.words).2 = 0) ∧
      ((ideRecord device d.words).2 = 0 → Recorded d (ideRecord device d.words).1) := by
  have failed : ¬ (-1 : Int) = 0 := by decide
  have lba : decide (d.words 49 &&& ((1 : UInt16) <<< 9) ≠ 0) = d.hasLba := lba_bit _
  unfold ideRecord
  dsimp only
  rw [lba]
  cases d.hasLba with
  | false =>
      rw [if_pos rfl]
      refine ⟨iff_of_false failed Bool.false_ne_true, iff_of_false ?_ failed, fun none => absurd none failed⟩
      rw [fresh]
      decide
  | true =>
      rw [if_neg (by decide)]
      refine ⟨iff_of_true rfl rfl, iff_of_true rfl rfl, fun _ => ⟨sectors_toNat _ _, sizeMb_iff _, ?_⟩⟩
      rw [← modelName_words]
      exact modelName_string d.words device.model

end Record

/-- **`ide_identify` records a drive.** Asked on its cable at rest, whatever record there was before: the call
returns 0 exactly when a drive is there, answers in time and without an error, and can be addressed by sectors. Then
and only then the record counts as present, and it holds the number of the sectors, the name as a string without
spaces at its end, and the size in megabytes if there are less than 2^23 sectors. No sector changes. -/
theorem identify_record {c : Cable} {slot : IdeDrive} (rest : ∀ d ∈ c.drives slot, d.Rest) (channel : IdeChannel)
    (device : IdeDevice) : ∃ record returned c',
      (ideIdentify channel slot device).run (cable (ioBase channel)) c = ((record, returned), c') ∧
      (returned = 0 ↔ ∃ d, c.drives slot = some d ∧ d.identifies = true ∧ d.hasLba = true) ∧
      (record.present = true ↔ returned = 0) ∧
      (∀ d, c.drives slot = some d → returned = 0 → Recorded d record) ∧
      ∀ other, c'.contents other = c.contents other := by
  obtain ⟨c', ran, -, -, contents, -⟩ := @run_ideIdentify c slot device channel rest
  have failed : ¬ (-1 : Int) = 0 := by decide
  refine ⟨(identified (c.drives slot) (device.placed channel slot)).1,
    (identified (c.drives slot) (device.placed channel slot)).2, c', ran, ?_⟩
  cases found : c.drives slot with
  | none =>
      refine ⟨iff_of_false failed ?_, iff_of_false ?_ failed, fun d here => ?_, contents⟩
      · rintro ⟨d, here, -⟩
        cases here
      · exact Bool.false_ne_true
      · cases here
  | some d =>
      have fresh : (device.placed channel slot).present = false := rfl
      obtain ⟨zero, present, recorded⟩ := ideRecord_cases d (device.placed channel slot) fresh
      by_cases answers : d.identifies = true
      · have kept : identified (some d) (device.placed channel slot) =
            ideRecord (device.placed channel slot) d.words := if_pos answers
        rw [kept]
        refine ⟨zero.trans ⟨fun lba => ⟨d, rfl, answers, lba⟩, ?_⟩, present, fun e same => ?_, contents⟩
        · rintro ⟨e, same, -, lba⟩
          cases same
          exact lba
        · cases same
          exact recorded
      · have lost : identified (some d) (device.placed channel slot) = (device.placed channel slot, -1) :=
          if_neg answers
        rw [lost]
        refine ⟨iff_of_false failed ?_, iff_of_false ?_ failed, fun _ _ none => absurd none failed, contents⟩
        · rintro ⟨e, same, both, -⟩
          cases same
          exact answers both
        · exact Bool.false_ne_true

theorem identify_record_quick : ∃ record c',
    (ideIdentify .primary .master clearedDevice).run (cable 0x1F0) loneCable = ((record, 0), c') ∧
      record.present = true ∧ record.sectors.toNat = 0 := by
  have rest : ∀ d ∈ loneCable.drives .master, d.Rest := by
    intro d there
    obtain rfl : quickDrive = d := Option.some.inj there
    exact ⟨rfl, .inl rfl⟩
  obtain ⟨record, returned, c', ran, zero, present, recorded, -⟩ := identify_record rest .primary clearedDevice
  have found : returned = 0 := zero.mpr ⟨quickDrive, rfl, by decide, by decide⟩
  rw [found] at ran
  exact ⟨record, c', ran, present.mpr found, (recorded quickDrive rfl found).sectors.trans rfl⟩

end Kfs.Disk.Ata
