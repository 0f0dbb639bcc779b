/-
**Requests on a cable: `ide_read_sectors` and `ide_write_sectors`.**

`ata_requests_refine`: a request to a drive that is there and at rest does what `Disk.ideReadSectors` and
`Disk.ideWriteSectors` say, for a drive that is ready, has data, takes data and has stored it exactly when its
replies come in time and without an error, and leaves a drive that answers in time ready for the next request.
The word-by-word transfers are the byte ranges of the store (`run_sector`, `run_writeSector`), the loops follow
the loops of the store sector by sector.
-/

import Kfs.Disk.Ata

namespace Kfs.Disk.Ata

/-! ### Sectors -/

/-- A reply that lets the driver go on. -/
def Reply.serves (r : Reply) : Bool := decide (r.polls < ideTimeout) && !r.error

/-- A drive comes to the next sector of a read, or to the end. -/
def AtaDrive.nextRead (d : AtaDrive) (sector left : Nat) : AtaDrive :=
  if left = 0 then { d with phase := .idle, busy := 0 } else d.proceed (.reading sector left 0)

/-- What comes before a sector of a write, or at the end. -/
def writePhase (sector left : Nat) : Phase := if left = 0 then .idle else .writing sector left 0

/-- The drive after another request: its replies went on, and it waits if all replies come in time. -/
structure Later (d d' : AtaDrive) : Prop where
  identity : d'.identity = d.identity
  replies : ∃ k, ∀ n, d'.replies n = d.replies (k + n)
  calm : (∀ n p, (d.replies n p).polls < ideTimeout) → d.busy = 0 → d'.busy = 0

section Loops

variable {ioBase buffer : Nat} {c : Cable} {d : AtaDrive} {m : Memory}

/-- The data register gives the words of the sector one by one. -/
theorem dataOut_reading {sector left word : Nat} (calm : d.busy = 0) (phase : d.phase = .reading sector left word) :
    d.dataOut = (wordAt d.bytes (sectorSize * sector + 2 * word),
      if word < 255 then { d with phase := .reading sector left (word + 1) }
      else if left = 1 then { d with phase := .idle } else d.proceed (.reading (sector + 1) (left - 1) 0)) := by
  rw [AtaDrive.dataOut, if_neg (not_not.mpr calm), phase]

/-- **The rest of a sector.** -/
theorem run_readWords {sector left : Nat} (some : 0 < left) (k : Nat) : ∀ (i : Nat) (m : Memory) (c : Cable)
    (d : AtaDrive), c.selected = .some d → d.busy = 0 → d.phase = .reading sector left (255 - k) → k ≤ 255 →
    (readWords ioBase buffer i (k + 1) m).run (cable ioBase) c =
      (m.writeBytes (buffer + 2 * i) (2 * (k + 1)) fun x => d.bytes (sectorSize * sector + 2 * (255 - k) + x),
        c.put (d.nextRead (sector + 1) (left - 1))) := by
  induction k with
  | zero =>
      intro i m c d here calm phase _
      have last : (if left = 1 then { d with phase := .idle } else d.proceed (.reading (sector + 1) (left - 1) 0)) =
          d.nextRead (sector + 1) (left - 1) := by
        unfold AtaDrive.nextRead
        by_cases one : left = 1
        · rw [if_pos one, if_pos (by omega)]
          exact congrArg (fun busy => { d with phase := .idle, busy := busy }) calm
        · rw [if_neg one, if_neg (by omega)]
      simp only [readWords, Prog.run_bind, run_inw, dataOut_some here, dataOut_reading calm phase, Prog.run_pure,
        Nat.sub_zero, if_neg (Nat.lt_irrefl 255), last, store16_wordAt]
  | succ k ih =>
      intro i m c d here calm phase small
      rw [readWords]
      simp only [Prog.run_bind, run_inw, dataOut_some here, dataOut_reading calm phase,
        if_pos (show 255 - (k + 1) < 255 by omega)]
      rw [ih (i + 1) _ _ { d with phase := .reading sector left (255 - (k + 1) + 1) } selected_put calm
        (congrArg (Phase.reading sector left) (by omega)) (by omega)]
      rw [put_put, store16_wordAt]
      refine Prod.ext ?_ rfl
      have joined := writeBytes_append m (buffer + 2 * i) 2 (2 * (k + 1)) fun x =>
        d.bytes (sectorSize * sector + 2 * (255 - (k + 1)) + x)
      rw [show 2 + 2 * (k + 1) = 2 * (k + 1 + 1) by ring] at joined
      rw [← joined]
      dsimp only
      rw [show buffer + 2 * (i + 1) = buffer + 2 * i + 2 by ring]
      refine writeBytes_congr fun x _ => ?_
      exact congrArg d.bytes (by omega)

/-- **A whole sector.** -/
theorem run_sector {sector left : Nat} (some : 0 < left) (here : c.selected = .some d) (calm : d.busy = 0)
    (phase : d.phase = .reading sector left 0) (k : Nat) (m : Memory) :
    (readWords ioBase buffer (k * 256) 256 m).run (cable ioBase) c =
      (m.writeBytes (buffer + sectorSize * k) sectorSize fun x => d.bytes (sectorSize * sector + x),
        c.put (d.nextRead (sector + 1) (left - 1))) := by
  have words := @run_readWords ioBase buffer sector left some 255 (k * 256) m c d here calm phase le_rfl
  simp only [Nat.reduceAdd, Nat.sub_self, Nat.mul_zero, Nat.add_zero] at words
  rw [words, show buffer + 2 * (k * 256) = buffer + sectorSize * k by unfold sectorSize; ring]
  rfl

/-- A drive whose reply was awaited. -/
def AtaDrive.served (d : AtaDrive) (p : Phase) : AtaDrive :=
  { d with phase := p, busy := 0, replies := fun n => d.replies (n + 1) }

/-- A drive that came to a part of its work, and will be found busy by some polls. -/
def AtaDrive.waiting (d : AtaDrive) (p : Phase) (busy : Nat) : AtaDrive := { d.proceed p with busy := busy }

theorem proceed_polled (p : Phase) (n : Nat) :
    (d.proceed p).polled n = d.waiting p ((d.replies 0 p).polls - n) := rfl

/-- **Waiting for the data of a part** succeeds if the reply serves it. -/
theorem run_ideWaitDrq {p : Phase} {busy : Nat} (data : p.data = true)
    (same : busy < ideTimeout ↔ (d.replies 0 p).polls < ideTimeout) :
    (ideWaitDrq ioBase).run (cable ioBase) (c.put (d.waiting p busy)) =
      (if (d.replies 0 p).serves = true then 0 else -1, c.put ((d.waiting p busy).polled ideTimeout)) := by
  have phase : (d.waiting p busy).phase = if (d.replies 0 p).error then .aborted else p := rfl
  have working : (d.waiting p busy).phase ≠ .idle := by
    rw [phase]
    split
    · exact fun same => by cases same
    · rintro rfl
      cases data
  have serves : (d.waiting p busy).busy < ideTimeout ∧ (d.waiting p busy).phase.data = true ↔
      (d.replies 0 p).serves = true := by
    rw [phase, Reply.serves, Bool.and_eq_true, decide_eq_true_eq]
    refine and_congr same ?_
    cases error : (d.replies 0 p).error with
    | true => exact ⟨(fun no => by cases no), fun no => by cases no⟩
    | false => exact ⟨fun _ => rfl, fun _ => data⟩
  rw [ideWaitDrq, run_pollDrq selected_put working, put_put, if_congr serves rfl rfl]

theorem waiting_served {p : Phase} {busy : Nat} (same : busy < ideTimeout ↔ (d.replies 0 p).polls < ideTimeout)
    (serves : (d.replies 0 p).serves = true) : (d.waiting p busy).polled ideTimeout = d.served p := by
  rw [Reply.serves, Bool.and_eq_true, decide_eq_true_eq, Bool.not_eq_true'] at serves
  have none : busy - ideTimeout = 0 := Nat.sub_eq_zero_of_le (le_of_lt (same.mpr serves.1))
  simp only [AtaDrive.polled, AtaDrive.waiting, AtaDrive.proceed, AtaDrive.served, serves.2, none]
  rfl

/-- One reply later. -/
theorem Later.waiting {p : Phase} {busy : Nat}
    (same : busy < ideTimeout ↔ (d.replies 0 p).polls < ideTimeout) :
    Later d ((d.waiting p busy).polled ideTimeout) :=
  ⟨rfl, ⟨1, fun n => congrArg d.replies (Nat.add_comm n 1)⟩,
    fun intime _ => Nat.sub_eq_zero_of_le (le_of_lt (same.mpr (intime 0 p)))⟩

theorem Later.trans {d' d'' : AtaDrive} (first : Later d d') (second : Later d' d'') : Later d d'' := by
  obtain ⟨j, early⟩ := first.replies
  obtain ⟨k, late⟩ := second.replies
  refine ⟨second.identity.trans first.identity, ⟨j + k, fun n => ?_⟩, fun intime small => ?_⟩
  · rw [late, early, Nat.add_assoc]
  · refine second.calm (fun n p => ?_) (first.calm intime small)
    rw [early]
    exact intime (j + n) p

theorem Later.refl (d : AtaDrive) : Later d d := ⟨rfl, ⟨0, fun n => by rw [Nat.zero_add]⟩, fun _ => id⟩

theorem Later.served {d' : AtaDrive} {p : Phase} (later : Later (d.served p) d') : Later d d' := by
  obtain ⟨k, again⟩ := later.replies
  refine ⟨later.identity, ⟨k + 1, fun n => ?_⟩, fun intime _ => ?_⟩
  · rw [again]
    exact congrArg d.replies (by omega)
  · exact later.calm (fun n p => intime (n + 1) p) rfl

/-- **The sectors of a read** are stored as long as the replies serve them. -/
theorem run_readSectors {drive : Drive} {lba : Nat} (count : Nat) : ∀ (k : Nat) (m : Memory) (d : AtaDrive),
    drive.bytes = d.bytes →
    (∀ j < count, drive.drq lba (k + j) = (d.replies j (.reading (lba + (k + j)) (count - j) 0)).serves) →
    ∃ d', (readSectors ioBase buffer k count m).run (cable ioBase) (c.put (d.nextRead (lba + k) count)) =
        (readSectorLoop drive lba buffer k count m, c.put d') ∧ d'.bytes = d.bytes ∧ Later d d' := by
  induction count with
  | zero =>
      intro k m d _ _
      exact ⟨_, rfl, rfl, rfl, ⟨0, fun n => by rw [Nat.zero_add]; rfl⟩, fun _ _ => rfl⟩
  | succ count ih =>
      intro k m d bytes serves
      have first := serves 0 (Nat.succ_pos count)
      simp only [Nat.add_zero, Nat.sub_zero] at first
      have next : d.nextRead (lba + k) (count + 1) = d.waiting (.reading (lba + k) (count + 1) 0)
          (d.replies 0 (.reading (lba + k) (count + 1) 0)).polls := if_neg (Nat.succ_ne_zero count)
      rw [next, readSectors, readSectorLoop, first, Prog.run_bind, run_ideWaitDrq rfl Iff.rfl]
      by_cases served : (d.replies 0 (.reading (lba + k) (count + 1) 0)).serves = true
      · simp only [served, if_true, ne_eq, not_true, if_false, Prog.run_bind]
        rw [waiting_served Iff.rfl served, run_sector (Nat.succ_pos count) selected_put rfl rfl, put_put]
        obtain ⟨d', ran, same, later⟩ := ih (k + 1)
          (m.writeBytes (buffer + sectorSize * k) sectorSize fun x => d.bytes (sectorSize * (lba + k) + x))
          (d.served (.reading (lba + k) (count + 1) 0)) bytes fun j inside => by
            have later := serves (j + 1) (Nat.succ_lt_succ inside)
            rw [Nat.succ_sub_succ, ← Nat.add_assoc k j 1, Nat.add_right_comm k j 1] at later
            exact later
        rw [bytes]
        exact ⟨d', ran, same, later.served⟩
      · rw [Bool.not_eq_true] at served
        simp only [served, Bool.false_eq_true, if_false, ne_eq]
        rw [if_pos (by decide)]
        exact ⟨_, rfl, rfl, .waiting Iff.rfl⟩

/-- The data register takes the words of the sector one by one. -/
theorem dataIn_writing {sector left word : Nat} (some : 0 < left) (calm : d.busy = 0)
    (phase : d.phase = .writing sector left word) (value : UInt16) : d.dataIn value =
      if word < 255 then
        { d with
          bytes := store16 d.bytes (sectorSize * sector + 2 * word) value
          phase := .writing sector left (word + 1) }
      else ({ d with bytes := store16 d.bytes (sectorSize * sector + 2 * word) value } : AtaDrive).proceed
        (writePhase (sector + 1) (left - 1)) := by
  rw [AtaDrive.dataIn, if_neg (not_not.mpr calm), phase]
  unfold writePhase
  by_cases one : left = 1
  · simp only [if_pos one, if_pos (show left - 1 = 0 by omega)]
  · simp only [if_neg one, if_neg (show ¬ left - 1 = 0 by omega)]

/-- Bytes that reach the drive. -/
def AtaDrive.stores (d : AtaDrive) (a n : Nat) (f : Nat → UInt8) : AtaDrive :=
  { d with bytes := Memory.writeBytes d.bytes a n f }

theorem run_writeWords {sector left : Nat} (some : 0 < left) (k : Nat) : ∀ (i : Nat) (c : Cable) (d : AtaDrive),
    c.selected = .some d → d.busy = 0 → d.phase = .writing sector left (255 - k) → k ≤ 255 →
    (writeWords ioBase buffer m i (k + 1)).run (cable ioBase) c =
      ((), c.put ((d.stores (sectorSize * sector + 2 * (255 - k)) (2 * (k + 1)) fun x =>
        m (buffer + 2 * i + x)).proceed (writePhase (sector + 1) (left - 1)))) := by
  induction k with
  | zero =>
      intro i c d here calm phase _
      simp only [writeWords, Prog.run_bind, run_outw, dataIn_some here, dataIn_writing some calm phase,
        Prog.run_pure, Nat.sub_zero, if_neg (Nat.lt_irrefl 255), store16_wordAt]
      rfl
  | succ k ih =>
      intro i c d here calm phase small
      rw [writeWords]
      simp only [Prog.run_bind, run_outw, dataIn_some here, dataIn_writing some calm phase,
        if_pos (show 255 - (k + 1) < 255 by omega), store16_wordAt]
      rw [ih (i + 1) _ { d with
        bytes := Memory.writeBytes d.bytes (sectorSize * sector + 2 * (255 - (k + 1))) 2 fun x =>
          m (buffer + 2 * i + x)
        phase := .writing sector left (255 - (k + 1) + 1) } selected_put calm
        (congrArg (Phase.writing sector left) (by omega)) (by omega)]
      rw [put_put]
      refine Prod.ext rfl (congrArg (fun bytes => c.put (AtaDrive.proceed { d with bytes := bytes } _)) ?_)
      have joined := writeBytes_append d.bytes (sectorSize * sector + 2 * (255 - (k + 1))) 2 (2 * (k + 1))
        fun x => m (buffer + 2 * i + x)
      rw [show 2 + 2 * (k + 1) = 2 * (k + 1 + 1) by ring] at joined
      rw [← joined]
      rw [show sectorSize * sector + 2 * (255 - k) = sectorSize * sector + 2 * (255 - (k + 1)) + 2 by omega]
      refine writeBytes_congr fun x _ => ?_
      exact congrArg m (by omega)

/-- **A whole sector is written.** -/
theorem run_writeSector {sector left : Nat} (some : 0 < left) (here : c.selected = .some d) (calm : d.busy = 0)
    (phase : d.phase = .writing sector left 0) (k : Nat) :
    (writeWords ioBase buffer m (k * 256) 256).run (cable ioBase) c =
      ((), c.put ((d.stores (sectorSize * sector) sectorSize fun x => m (buffer + sectorSize * k + x)).proceed
        (writePhase (sector + 1) (left - 1)))) := by
  have words := @run_writeWords ioBase buffer m sector left some 255 (k * 256) c d here calm phase le_rfl
  simp only [Nat.reduceAdd, Nat.sub_self, Nat.mul_zero, Nat.add_zero] at words
  rw [words, show buffer + 2 * (k * 256) = buffer + sectorSize * k by unfold sectorSize; ring]
  rfl

/-- **The sectors of a write** reach the drive as long as the replies serve them. -/
theorem run_writeSectors {lba : Nat} (count : Nat) : ∀ (k busy : Nat) (device : Device) (d : AtaDrive),
    device.bytes = d.bytes → (count = 0 → busy = 0) →
    (busy < ideTimeout ↔ (d.replies 0 (writePhase (lba + k) count)).polls < ideTimeout) →
    (∀ j < count, device.takes lba (k + j) = (d.replies j (writePhase (lba + (k + j)) (count - j))).serves) →
    (∀ j < count, device.stored lba (k + j) =
      decide ((d.replies (j + 1) (writePhase (lba + (k + j) + 1) (count - j - 1))).polls < ideTimeout)) →
    ∃ d', (writeSectors ioBase buffer m k count).run (cable ioBase)
          (c.put (d.waiting (writePhase (lba + k) count) busy)) =
        ((writeSectorLoop m lba buffer k count device).2, c.put d') ∧
      d'.bytes = (writeSectorLoop m lba buffer k count device).1.bytes ∧ Later d d' := by
  induction count with
  | zero =>
      intro k busy device d bytes none _ _ _
      refine ⟨_, rfl, bytes.symm, rfl, ⟨1, fun n => congrArg d.replies (Nat.add_comm n 1)⟩, fun _ _ => none rfl⟩
  | succ count ih =>
      intro k busy device d bytes _ same takes stored
      have first := takes 0 (Nat.succ_pos count)
      have next := stored 0 (Nat.succ_pos count)
      have phase : writePhase (lba + k) (count + 1) = .writing (lba + k) (count + 1) 0 :=
        if_neg (Nat.succ_ne_zero count)
      simp only [Nat.add_zero, Nat.sub_zero, Nat.zero_add, Nat.add_sub_cancel] at first next
      rw [phase] at same first ⊢
      rw [writeSectors, writeSectorLoop, first, Prog.run_bind, run_ideWaitDrq rfl same]
      by_cases served : (d.replies 0 (.writing (lba + k) (count + 1) 0)).serves = true
      · simp only [served, if_true, ne_eq, not_true, if_false, Prog.run_bind]
        rw [waiting_served same served, run_writeSector (Nat.succ_pos count) selected_put rfl rfl, put_put]
        generalize written : (d.served (.writing (lba + k) (count + 1) 0)).stores (sectorSize * (lba + k))
          sectorSize (fun x => m (buffer + sectorSize * k + x)) = e
        have replies : e.replies = fun n => d.replies (n + 1) := written ▸ rfl
        have put : (device.put (sectorSize * (lba + k)) sectorSize fun i =>
            m (buffer + sectorSize * k + i)).bytes = e.bytes := by
          rw [← written]
          exact congrArg (fun bytes => Memory.writeBytes bytes (sectorSize * (lba + k)) sectorSize fun x =>
            m (buffer + sectorSize * k + x)) bytes
        have since : Later d e := by
          rw [← written]
          exact ⟨rfl, ⟨1, fun n => congrArg d.replies (Nat.add_comm n 1)⟩, fun _ _ => rfl⟩
        have last : (ideWaitReady ioBase).run (cable ioBase) (c.put (e.proceed (writePhase (lba + k + 1) count))) =
            (if (e.replies 0 (writePhase (lba + k + 1) count)).polls < ideTimeout then 0 else -1,
              c.put (e.waiting (writePhase (lba + k + 1) count)
                ((e.replies 0 (writePhase (lba + k + 1) count)).polls - ideTimeout))) := by
          rw [ideWaitReady, run_pollReady selected_put, put_put, proceed_polled]
          rfl
        have kept : (device.put (sectorSize * (lba + k)) sectorSize fun i =>
            m (buffer + sectorSize * k + i)).stored lba k =
              decide ((e.replies 0 (writePhase (lba + k + 1) count)).polls < ideTimeout) := by
          rw [replies]
          exact next
        rw [Nat.succ_eq_add_one, Nat.add_sub_cancel, last, kept]
        by_cases intime : (e.replies 0 (writePhase (lba + k + 1) count)).polls < ideTimeout
        · have none : (e.replies 0 (writePhase (lba + k + 1) count)).polls - ideTimeout = 0 :=
            Nat.sub_eq_zero_of_le (le_of_lt intime)
          obtain ⟨d', ran, reached, later⟩ := ih (k + 1) 0
            (device.put (sectorSize * (lba + k)) sectorSize fun i => m (buffer + sectorSize * k + i)) e put
            (fun _ => rfl) (iff_of_true (by decide) intime)
            (fun j inside => by
              have later := takes (j + 1) (Nat.succ_lt_succ inside)
              rw [Nat.succ_sub_succ, ← Nat.add_assoc k j 1, Nat.add_right_comm k j 1] at later
              rw [replies]
              exact later)
            fun j inside => by
              have later := stored (j + 1) (Nat.succ_lt_succ inside)
              rw [Nat.succ_sub_succ, ← Nat.add_assoc k j 1, Nat.add_right_comm k j 1] at later
              rw [replies]
              exact later
          simp only [if_pos intime, decide_eq_true intime, not_true, if_false, if_true, none]
          exact ⟨d', ran, reached, since.trans later⟩
        · simp only [if_neg intime, decide_eq_false intime, Bool.false_eq_true, if_false]
          rw [if_pos (by decide)]
          exact ⟨_, rfl, put.symm, since.trans (.waiting Iff.rfl)⟩
      · rw [Bool.not_eq_true] at served
        simp only [served, Bool.false_eq_true, if_false, ne_eq]
        rw [if_pos (by decide)]
        exact ⟨_, rfl, bytes.symm, .waiting same⟩

end Loops

/-! ### Requests -/

/-- The value of the drive register for a drive. -/
def driveSelect : IdeDrive → UInt8
  | .master => 0xE0
  | .slave => 0xF0

/-- The drive that was selected before answers in time. -/
def Cable.responds (c : Cable) : Bool :=
  match c.selected with
  | some e => decide (e.busy < ideTimeout)
  | none => false

/-- What the status register answers to a read of `count` sectors. -/
def AtaDrive.asDrive (d : AtaDrive) (present responds : Bool) (count : Nat) : Drive where
  present := present
  ready _ := responds
  drq lba k := (d.replies k (.reading (lba + k) (count - k) 0)).serves
  bytes := d.bytes

/-- What it answers to a write. -/
def AtaDrive.asDevice (d : AtaDrive) (present responds : Bool) (count : Nat) : Device where
  present := present
  ready _ := responds
  drq lba k := (d.replies k (.reading (lba + k) (count - k) 0)).serves
  bytes := d.bytes
  takes lba k := (d.replies k (.writing (lba + k) (count - k) 0)).serves
  stored lba k := decide ((d.replies (k + 1) (writePhase (lba + k + 1) (count - k - 1))).polls < ideTimeout)

/-- The sectors of a drive that is there. -/
def Cable.contents (c : Cable) (slot : IdeDrive) : Option (Nat → UInt8) := (c.drives slot).map AtaDrive.bytes

/-- The cable after another request: each drive is still there, or still not. -/
def Cable.Later (c c' : Cable) : Prop := ∀ slot, Option.Rel Ata.Later (c.drives slot) (c'.drives slot)

section Requests

variable {c : Cable} {d : AtaDrive} {device : IdeDevice} {slot : IdeDrive} {lba : UInt32} {count : UInt8}

/-- The registers of a request. -/
def Cable.addressed (c : Cable) (drive : UInt8) (lba : UInt32) (count : UInt8) : Cable :=
  { c with
    drive := drive ||| ((lba >>> 24) &&& 0x0F).toUInt8
    seccount := count
    lbalo := (lba &&& 0xFF).toUInt8
    lbamid := ((lba >>> 8) &&& 0xFF).toUInt8
    lbahi := ((lba >>> 16) &&& 0xFF).toUInt8 }

theorem run_ideAddress : (ideAddress device lba count).run (cable device.ioBase) c =
    ((), c.addressed device.drive lba count) := by
  simp only [ideAddress, Prog.run_bind, run_outb (show 6 < 8 by decide), run_outb (show 2 < 8 by decide),
    run_outb (show 3 < 8 by decide), run_outb (show 4 < 8 by decide), run_outb (show 5 < 8 by decide)]
  rfl

theorem selects_addressed : selects (c.addressed (driveSelect slot) lba count).drive = slot := by
  have bit : ((lba >>> 24) &&& 0x0F).toUInt8.toBitVec.getLsbD 4 = false := by
    simp
  have high : (driveSelect slot ||| ((lba >>> 24) &&& 0x0F).toUInt8).toBitVec.getLsbD 4 =
      (driveSelect slot).toBitVec.getLsbD 4 := by
    rw [UInt8.toBitVec_or, BitVec.getLsbD_or, bit, Bool.or_false]
  show selects (driveSelect slot ||| ((lba >>> 24) &&& 0x0F).toUInt8) = slot
  rw [selects, high]
  cases slot with
  | master => rfl
  | slave => rfl

/-- **The registers hold the 28 bits of a sector address.** -/
theorem lba_addressed : (c.addressed (driveSelect slot) lba count).lba = lbaRegisters lba.toNat := by
  have bits : (driveSelect slot ||| ((lba >>> 24) &&& 0x0F).toUInt8) &&& (0x0F : UInt8) =
      ((lba >>> 24) &&& 0x0F).toUInt8 := by
    apply UInt8.eq_of_toBitVec_eq
    ext i inside
    cases slot <;> interval_cases i <;> simp [driveSelect]
  have low : (lba &&& 0xFF).toUInt8.toNat = lba.toNat % 2 ^ 8 := by
    simp [Nat.and_two_pow_sub_one_eq_mod _ 8]
  have mid : ((lba >>> 8) &&& 0xFF).toUInt8.toNat = lba.toNat / 2 ^ 8 % 2 ^ 8 := by
    simp [Nat.and_two_pow_sub_one_eq_mod _ 8, Nat.shiftRight_eq_div_pow]
  have high : ((lba >>> 16) &&& 0xFF).toUInt8.toNat = lba.toNat / 2 ^ 16 % 2 ^ 8 := by
    simp [Nat.and_two_pow_sub_one_eq_mod _ 8, Nat.shiftRight_eq_div_pow]
  have top : ((lba >>> 24) &&& 0x0F).toUInt8.toNat = lba.toNat / 2 ^ 24 % 2 ^ 4 := by
    simp [Nat.and_two_pow_sub_one_eq_mod _ 4, Nat.shiftRight_eq_div_pow]
  simp only [Cable.lba, Cable.addressed, bits, low, mid, high, top, lbaRegisters]

theorem count_addressed (some : count ≠ 0) : (c.addressed (driveSelect slot) lba count).count = count.toNat :=
  if_neg some

/-- The cable after the wait for the drive that was selected. -/
def Cable.awaited (c : Cable) : Cable :=
  match c.selected with
  | some e => c.put (e.polled ideTimeout)
  | none => c

theorem run_ideWaitReady {ioBase : Nat} : (ideWaitReady ioBase).run (cable ioBase) c =
    (if c.responds = true then 0 else -1, c.awaited) := by
  unfold Cable.responds Cable.awaited ideWaitReady
  cases here : c.selected with
  | none => exact run_pollReady_none here _
  | some e =>
      rw [run_pollReady here]
      refine Prod.ext (if_congr ?_ rfl rfl) rfl
      exact decide_eq_true_iff.symm

theorem awaited_drives (slot : IdeDrive) :
    c.awaited.drives slot = c.drives slot ∨
      ∃ e, c.drives slot = some e ∧ c.awaited.drives slot = some (e.polled ideTimeout) := by
  unfold Cable.awaited
  cases here : c.selected with
  | none => exact .inl rfl
  | some e =>
      by_cases mine : slot = selects c.drive
      · subst mine
        exact .inr ⟨e, here, Function.update_self _ _ _⟩
      · exact .inl (Function.update_of_ne mine _ _)

theorem awaited_calm (there : c.drives slot = some d) (calm : d.busy = 0) : c.awaited.drives slot = some d := by
  rcases awaited_drives (c := c) slot with same | ⟨e, here, after⟩
  · exact same.trans there
  · obtain rfl : e = d := Option.some.inj (here.symm.trans there)
    rw [after, polled_calm calm]

theorem Later.of_polled (d : AtaDrive) (n : Nat) : Later d (d.polled n) :=
  ⟨rfl, ⟨0, fun n => by rw [Nat.zero_add]; rfl⟩, fun _ calm => (congrArg (· - n) calm).trans (Nat.zero_sub n)⟩

theorem Cable.Later.refl (c : Cable) : c.Later c := by
  intro slot
  cases c.drives slot with
  | none => exact .none
  | some d => exact .some (.refl d)

theorem Cable.Later.trans {c' c'' : Cable} (first : c.Later c') (second : c'.Later c'') : c.Later c'' := by
  intro slot
  have one := first slot
  have two := second slot
  cases here : c.drives slot with
  | none =>
      rw [here] at one
      cases next : c'.drives slot with
      | none =>
          rw [next] at two
          exact two
      | some d => rw [next] at one; cases one
  | some d =>
      rw [here] at one
      cases next : c'.drives slot with
      | none => rw [next] at one; cases one
      | some d' =>
          rw [next] at one two
          cases last : c''.drives slot with
          | none => rw [last] at two; cases two
          | some d'' =>
              rw [last] at two
              cases one with
              | some early =>
                  cases two with
                  | some late => exact .some (early.trans late)

/-- Waiting changes no sector. -/
theorem awaited_later : c.Later c.awaited ∧ ∀ slot, c.awaited.contents slot = c.contents slot := by
  refine ⟨fun slot => ?_, fun slot => ?_⟩
  · rcases awaited_drives (c := c) slot with same | ⟨e, here, after⟩
    · rw [same]
      exact Cable.Later.refl c slot
    · rw [here, after]
      exact .some (.of_polled e _)
  · unfold Cable.contents
    rcases awaited_drives (c := c) slot with same | ⟨e, here, after⟩
    · rw [same]
    · rw [here, after, Option.map_some, Option.map_some, polled_bytes]

/-- One drive goes on. -/
theorem Cable.Later.put {c' : Cable} {d' : AtaDrive} (later : c.Later c') (there : c.drives (selects c'.drive) = some d)
    (goes : Ata.Later d d') : c.Later (c'.put d') := by
  intro slot
  by_cases mine : slot = selects c'.drive
  · subst mine
    have here : (c'.put d').drives (selects c'.drive) = some d' := Function.update_self _ _ _
    rw [there, here]
    exact .some goes
  · have other : (c'.put d').drives slot = c'.drives slot := Function.update_of_ne mine _ _
    rw [other]
    exact later slot

/-- A drive that is selected takes a command. -/
theorem run_command {ioBase : Nat} {value : UInt8} (here : c.selected = some d) :
    (outb (ioBase + 7) value).run (cable ioBase) c = ((), c.put (d.command c.lba c.count value)) := by
  rw [run_outb (by decide)]
  refine Prod.ext rfl ?_
  show (match c.selected with | some d => c.put (d.command c.lba c.count value) | none => c) = _
  rw [here]

/-- What a request does to a cable: its drive may be selected, and every drive goes on. -/
structure Requested (c c' : Cable) (slot : IdeDrive) : Prop where
  later : c.Later c'
  register : selects c'.drive = selects c.drive ∨ selects c'.drive = slot

/-- The drive is there and waits for a request, and it answers every one in time. -/
def Cable.Prompt (c : Cable) (slot : IdeDrive) : Prop :=
  ∃ d, c.drives slot = some d ∧ d.busy = 0 ∧ ∀ n p, (d.replies n p).polls < ideTimeout

/-- **A request leaves the drives ready for the next one.** -/
theorem Requested.prompt {c' : Cable} {slot : IdeDrive} (done : Requested c c' slot) (other : IdeDrive)
    (prompt : c.Prompt other) : c'.Prompt other := by
  obtain ⟨d, there, calm, timely⟩ := prompt
  have goes := done.later other
  rw [there] at goes
  cases after : c'.drives other with
  | none =>
      rw [after] at goes
      cases goes
  | some d' =>
      rw [after] at goes
      cases goes with
      | some later =>
          obtain ⟨k, replies⟩ := later.replies
          refine ⟨d', after, later.calm timely calm, fun n p => ?_⟩
          rw [replies]
          exact timely (k + n) p

/-- The cable with the registers of a request, after the wait. -/
def Cable.asked (c : Cable) (slot : IdeDrive) (lba : UInt32) (count : UInt8) : Cable :=
  c.awaited.addressed (driveSelect slot) lba count

theorem asked_selected (there : c.drives slot = some d) (calm : d.busy = 0) :
    (c.asked slot lba count).selected = some d := by
  rw [Cable.selected, Cable.asked, selects_addressed]
  exact awaited_calm there calm

/-- **A request goes on with one drive.** -/
theorem asked_put {d' : AtaDrive} (there : c.drives slot = some d) (goes : Ata.Later d d') (lba : UInt32)
    (count : UInt8) : Requested c ((c.asked slot lba count).put d') slot ∧
      ∀ other, ((c.asked slot lba count).put d').contents other =
        if other = slot then some d'.bytes else c.contents other := by
  obtain ⟨later, contents⟩ := awaited_later (c := c)
  have register : selects (c.asked slot lba count).drive = slot := selects_addressed
  have onward : c.Later (c.asked slot lba count) := later
  refine ⟨⟨onward.put (register.symm ▸ there) goes, .inr register⟩, fun other => ?_⟩
  by_cases mine : other = slot
  · have here : ((c.asked slot lba count).put d').drives (selects (c.asked slot lba count).drive) = some d' :=
      Function.update_self _ _ _
    rw [register] at here
    rw [mine, if_pos rfl, Cable.contents, here]
    rfl
  · have same : ((c.asked slot lba count).put d').drives other = c.awaited.drives other := by
      show Function.update (c.asked slot lba count).drives _ _ other = _
      rw [Function.update_of_ne fun same => mine (same.trans register)]
      rfl
    rw [if_neg mine, Cable.contents, same]
    exact contents other

/-- A request that is given up before its command. -/
theorem awaited_requested (slot : IdeDrive) : Requested c c.awaited slot := by
  refine ⟨awaited_later.1, .inl ?_⟩
  unfold Cable.awaited
  cases c.selected <;> rfl

theorem toNat_eq_zero : count.toNat = 0 ↔ count = 0 := @UInt8.toNat_inj count 0

/-- **A read** of a drive that is there, and at rest. -/
theorem run_ideReadSectors (wired : device.drive = driveSelect slot) (there : c.drives slot = some d)
    (calm : d.busy = 0) (m : Memory) (lba : UInt32) (count : UInt8) (buffer : Nat) :
    ∃ c', (ideReadSectors device m lba count buffer).run (cable device.ioBase) c =
        (Disk.ideReadSectors (d.asDrive device.present c.responds count.toNat) m lba.toNat count.toNat buffer, c') ∧
      (∀ other, c'.contents other = c.contents other) ∧ Requested c c' slot := by
  have byte : count.toNat % 2 ^ 8 = count.toNat := Nat.mod_eq_of_lt count.toNat_lt
  have failed : ¬ (-1 : Int) = 0 := by decide
  have still : Requested c c slot := ⟨.refl c, .inl rfl⟩
  have shown : (d.asDrive device.present c.responds count.toNat).present = device.present := rfl
  have answer : (d.asDrive device.present c.responds count.toNat).ready lba.toNat = c.responds := rfl
  unfold ideReadSectors Disk.ideReadSectors
  rw [byte, shown, answer]
  by_cases present : device.present = false
  · rw [if_pos present, if_pos present]
    exact ⟨c, rfl, fun _ => rfl, still⟩
  by_cases none : count = 0
  · rw [if_neg present, if_pos none, if_neg present, if_pos (toNat_eq_zero.mpr none)]
    exact ⟨c, rfl, fun _ => rfl, still⟩
  rw [if_neg present, if_neg none, if_neg present, if_neg (mt toNat_eq_zero.mp none), Prog.run_bind,
    run_ideWaitReady]
  by_cases responds : c.responds = true
  · simp only [responds, if_true, ne_eq, not_true, if_false, Bool.true_eq_false]
    rw [Prog.run_bind, run_ideAddress, Prog.run_bind, wired]
    have mine := @asked_selected c d slot lba count there calm
    have start : d.command (c.asked slot lba count).lba (c.asked slot lba count).count 0x20 =
        d.nextRead (lbaRegisters lba.toNat + 0) count.toNat := by
      rw [Cable.asked, lba_addressed, count_addressed none, AtaDrive.command, if_neg (not_not.mpr calm), if_pos rfl]
      exact (if_neg (mt toNat_eq_zero.mp none)).symm
    obtain ⟨d', ran, bytes, goes⟩ := @run_readSectors device.ioBase buffer (c.asked slot lba count)
      (d.asDrive device.present true count.toNat) (lbaRegisters lba.toNat) count.toNat 0 m d rfl fun j _ => by
        rw [Nat.zero_add]
        rfl
    obtain ⟨requested, contents⟩ := asked_put there goes lba count
    have command := @run_command (c.asked slot lba count) d device.ioBase 0x20 mine
    rw [start] at command
    refine ⟨_, ?_, fun other => ?_, requested⟩
    · rw [← ran]
      exact congrArg (fun s => Prog.run _ _ (Prod.snd s)) command
    · rw [contents]
      by_cases this : other = slot
      · rw [if_pos this, bytes, this, Cable.contents, there]
        rfl
      · rw [if_neg this]
  · rw [Bool.not_eq_true] at responds
    simp only [responds, Bool.false_eq_true, if_false, if_true, ne_eq, failed]
    exact ⟨c.awaited, rfl, awaited_later.2, awaited_requested slot⟩

/-- The end of a write: the flush, which the drive may ignore, and a wait on which nothing depends. -/
theorem run_flush {ioBase : Nat} : ∃ d', ((do
      outb (ioBase + 7) 0xE7
      let _ ← ideWaitReady ioBase
      return (0 : Int)) : PortProg Empty Int).run (cable ioBase) (c.put d) = (0, c.put d') ∧
    d'.bytes = d.bytes ∧ Ata.Later d d' := by
  have command := @run_command (c.put d) d ioBase 0xE7 selected_put
  simp only [Prog.run_bind, command, Prog.run_pure, ideWaitReady, run_pollReady selected_put, put_put]
  refine ⟨_, rfl, ?_⟩
  unfold AtaDrive.command
  by_cases busy : d.busy ≠ 0
  · rw [if_pos busy]
    exact ⟨polled_bytes _, .of_polled d _⟩
  · rw [if_neg busy, if_neg (by decide), if_neg (by decide), if_pos rfl]
    have kept : (d.proceed .idle).bytes = d.bytes := rfl
    refine ⟨(polled_bytes _).trans kept, ?_⟩
    exact @Ata.Later.waiting d .idle (d.replies 0 .idle).polls Iff.rfl

/-- **A write** to a drive that is there, and at rest. -/
theorem run_ideWriteSectors (wired : device.drive = driveSelect slot) (there : c.drives slot = some d)
    (calm : d.busy = 0) (m : Memory) (lba : UInt32) (count : UInt8) (buffer : Nat) :
    ∃ c' dev', Disk.ideWriteSectors (d.asDevice device.present c.responds count.toNat) m lba.toNat count.toNat
          buffer = (dev', ((ideWriteSectors device m lba count buffer).run (cable device.ioBase) c).1) ∧
      ((ideWriteSectors device m lba count buffer).run (cable device.ioBase) c).2 = c' ∧
      (∀ other, c'.contents other = if other = slot then some dev'.bytes else c.contents other) ∧
      Requested c c' slot := by
  have byte : count.toNat % 2 ^ 8 = count.toNat := Nat.mod_eq_of_lt count.toNat_lt
  have failed : ¬ (-1 : Int) = 0 := by decide
  have still : Requested c c slot := ⟨.refl c, .inl rfl⟩
  have unchanged : ∀ other, c.contents other = if other = slot then some d.bytes else c.contents other := by
    intro other
    by_cases mine : other = slot
    · rw [if_pos mine, mine, Cable.contents, there]
      rfl
    · rw [if_neg mine]
  have shown : (d.asDevice device.present c.responds count.toNat).present = device.present := rfl
  have answer : (d.asDevice device.present c.responds count.toNat).ready lba.toNat = c.responds := rfl
  unfold ideWriteSectors Disk.ideWriteSectors
  rw [byte, shown, answer]
  by_cases present : device.present = false
  · rw [if_pos present, if_pos present]
    exact ⟨c, _, rfl, rfl, unchanged, still⟩
  by_cases none : count = 0
  · rw [if_neg present, if_pos none, if_neg present, if_pos (toNat_eq_zero.mpr none)]
    exact ⟨c, _, rfl, rfl, unchanged, still⟩
  rw [if_neg present, if_neg none, if_neg present, if_neg (mt toNat_eq_zero.mp none), Prog.run_bind,
    run_ideWaitReady]
  by_cases responds : c.responds = true
  · simp only [responds, if_true, ne_eq, not_true, if_false, Bool.true_eq_false]
    have mine := @asked_selected c d slot lba count there calm
    have start : d.command (c.asked slot lba count).lba (c.asked slot lba count).count 0x30 =
        d.proceed (writePhase (lbaRegisters lba.toNat + 0) count.toNat) := by
      rw [Cable.asked, lba_addressed, count_addressed none, AtaDrive.command, if_neg (not_not.mpr calm),
        if_neg (by decide), if_pos rfl, writePhase, if_neg (mt toNat_eq_zero.mp none), Nat.add_zero]
    obtain ⟨d', ran, bytes, goes⟩ := @run_writeSectors device.ioBase buffer (c.asked slot lba count) m
      (lbaRegisters lba.toNat) count.toNat 0 (d.replies 0 (writePhase (lbaRegisters lba.toNat + 0) count.toNat)).polls
      (d.asDevice device.present true count.toNat) d rfl (fun zero => absurd zero (mt toNat_eq_zero.mp none))
      Iff.rfl (fun j inside => by rw [Nat.zero_add, writePhase, if_neg (Nat.sub_ne_zero_of_lt inside)]; rfl)
      fun j _ => by rw [Nat.zero_add]; rfl
    have command := @run_command (c.asked slot lba count) d device.ioBase 0x30 mine
    rw [start] at command
    have begun : (ideAddress device lba count).run (cable device.ioBase) c.awaited =
        ((), c.asked slot lba count) := by
      rw [run_ideAddress, wired]
      rfl
    have waiting : d.proceed (writePhase (lbaRegisters lba.toNat + 0) count.toNat) =
        d.waiting (writePhase (lbaRegisters lba.toNat + 0) count.toNat)
          (d.replies 0 (writePhase (lbaRegisters lba.toNat + 0) count.toNat)).polls := rfl
    rw [waiting] at command
    simp only [Prog.run_bind, begun, command, ran]
    by_cases wrote : (writeSectorLoop m (lbaRegisters lba.toNat) buffer 0 count.toNat
        (d.asDevice device.present true count.toNat)).2 = 0
    · obtain ⟨d'', flushed, same, flush⟩ := @run_flush (c.asked slot lba count) d' device.ioBase
      obtain ⟨requested, contents⟩ := asked_put there (goes.trans flush) lba count
      simp only [wrote, not_true, if_false, flushed]
      refine ⟨_, _, Prod.ext rfl wrote, rfl, fun other => ?_, requested⟩
      rw [contents, same, bytes]
    · obtain ⟨requested, contents⟩ := asked_put there goes lba count
      simp only [wrote, not_false_iff, if_true, Prog.run_pure]
      have lost : (writeSectorLoop m (lbaRegisters lba.toNat) buffer 0 count.toNat
          (d.asDevice device.present true count.toNat)).2 = -1 := by
        rw [writeSectorLoop_eq] at wrote ⊢
        exact ((reach_bounds _ _ _ _).2.resolve_left fun both => wrote both.1)
      refine ⟨_, _, Prod.ext rfl lost, rfl, fun other => ?_, requested⟩
      rw [contents, bytes]
  · rw [Bool.not_eq_true] at responds
    simp only [responds, Bool.false_eq_true, if_false, if_true, ne_eq, failed]
    refine ⟨c.awaited, _, rfl, rfl, fun other => ?_, awaited_requested slot⟩
    rw [awaited_later.2]
    exact unchanged other

end Requests

/-- **A request does what the store of sectors says**: a read and a write of a drive that is there and at rest
return and store what `Disk.ideReadSectors` and `Disk.ideWriteSectors` say of a drive that is ready when the
drive selected before answers within 10000 polls, and that has data, takes data and has stored it when its
replies come in time and without an error. A read changes no sector, and a write only those of its drive. After
either, also one that failed, every drive that answers in time is ready for the next request. -/
theorem ata_requests_refine {c : Cable} {d : AtaDrive} {device : IdeDevice} {slot : IdeDrive}
    (wired : device.drive = driveSelect slot) (there : c.drives slot = some d) (calm : d.busy = 0) (m : Memory)
    (lba : UInt32) (count : UInt8) (buffer : Nat) :
    (∃ c', (ideReadSectors device m lba count buffer).run (cable device.ioBase) c =
        (Disk.ideReadSectors (d.asDrive device.present c.responds count.toNat) m lba.toNat count.toNat buffer, c') ∧
      (∀ other, c'.contents other = c.contents other) ∧ Requested c c' slot ∧
      ∀ other, c.Prompt other → c'.Prompt other) ∧
    ∃ c' dev' returned, (ideWriteSectors device m lba count buffer).run (cable device.ioBase) c = (returned, c') ∧
      Disk.ideWriteSectors (d.asDevice device.present c.responds count.toNat) m lba.toNat count.toNat buffer =
        (dev', returned) ∧
      (∀ other, c'.contents other = if other = slot then some dev'.bytes else c.contents other) ∧
      Requested c c' slot ∧ ∀ other, c.Prompt other → c'.Prompt other := by
  refine ⟨?_, ?_⟩
  · obtain ⟨c', ran, contents, done⟩ := run_ideReadSectors wired there calm m lba count buffer
    exact ⟨c', ran, contents, done, done.prompt⟩
  · obtain ⟨c', dev', wrote, rfl, contents, done⟩ := run_ideWriteSectors wired there calm m lba count buffer
    exact ⟨_, dev', _, rfl, wrote, contents, done, done.prompt⟩

/-- A drive that answers at once, of sectors with zeros. -/
def quickDrive : AtaDrive where
  bytes := fun _ => 0
  identity := fun i => if i = 49 then 0x200 else 0
  phase := .idle
  busy := 0
  replies := fun _ _ => ⟨0, false⟩

/-- A cable with that drive as master. -/
def loneCable : Cable where
  seccount := 0
  lbalo := 0
  lbamid := 0
  lbahi := 0
  drive := 0xE0
  drives := fun slot => if slot = .master then some quickDrive else none

/-- Its record. -/
def quickRecord : IdeDevice := ⟨true, 0x1F0, 0x3F6, 0xE0, 0, 0, fun _ => 0, true⟩

theorem ata_requests_refine_quick : ∃ c',
    (ideReadSectors quickRecord (fun _ => 7) 2 1 4096).run (cable 0x1F0) loneCable =
        (Disk.ideReadSectors (quickDrive.asDrive true true 1) (fun _ => 7) 2 1 4096, c') ∧
      (Disk.ideReadSectors (quickDrive.asDrive true true 1) (fun _ => 7) 2 1 4096).2 = 0 ∧
      c'.contents .master = some (fun _ => 0) ∧ c'.Prompt .master := by
  obtain ⟨c', ran, contents, -, prompt⟩ := (@ata_requests_refine loneCable quickDrive quickRecord .master rfl rfl
    rfl (fun _ => 7) 2 1 4096).1
  exact ⟨c', ran, rfl, (contents .master).trans rfl,
    prompt .master ⟨quickDrive, rfl, rfl, fun _ _ => (by decide : 0 < ideTimeout)⟩⟩

end Kfs.Disk.Ata
