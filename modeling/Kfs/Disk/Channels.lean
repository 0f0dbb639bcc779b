/-
**Two channels: `ide_identify` and `ide_init`.**

`ide_init` asks every drive of both channels for its identification, and keeps a record of each
(`run_ideInit`). A program on the ports of one channel runs on its cable as if it were alone (`run_on`). The last
drive selected on each channel is the slave.
-/

import Kfs.Disk.Transfers

namespace Kfs.Disk.Ata

/-! ### The functions of the source -/

/-- `IDE_PRIMARY_IO_BASE` and `IDE_SECONDARY_IO_BASE`. -/
def ioBase : IdeChannel → Nat
  | .primary => 0x1F0
  | .secondary => 0x170

/-- `IDE_PRIMARY_CTRL_BASE` and `IDE_SECONDARY_CTRL_BASE`. -/
def ctrlBase : IdeChannel → Nat
  | .primary => 0x3F6
  | .secondary => 0x376

/-- The wait after a selection: reads of the register with number 0. -/
def altReads (ioBase : Nat) : (count : Nat) → PortProg Empty Unit
  | 0 => return
  | count + 1 => do
      let _ ← inb (ioBase + 0)
      altReads ioBase count

/-- `ide_select_drive`. -/
def ideSelectDrive (ioBase : Nat) (drive : UInt8) : PortProg Empty Unit := do
  outb (ioBase + 6) drive
  altReads ioBase 4

/-- `ide_read_status`. -/
def ideReadStatus (ioBase : Nat) : PortProg Empty UInt8 := inb (ioBase + 7)

/-- The words of the identification. -/
def readIdentify (ioBase : Nat) : (i count : Nat) → (Nat → UInt16) → PortProg Empty (Nat → UInt16)
  | _, 0, data => return data
  | i, count + 1, data => do
      let word ← inw ioBase
      readIdentify ioBase (i + 1) count (Function.update data i word)

/-- The bytes of the model string, two in each word. -/
def swapModel (data : Nat → UInt16) : (i count : Nat) → Memory → Memory
  | _, 0, model => model
  | i, count + 1, model =>
      swapModel data (i + 1) count
        ((model.store8 (i * 2) (data (27 + i) >>> 8).toUInt8).store8 (i * 2 + 1) (data (27 + i) &&& 0xFF).toUInt8)

/-- The loop over trailing spaces, below `n`. -/
def trimModel : (n : Nat) → Memory → Memory
  | 0, model => model
  | i + 1, model => if model i = 0x20 then trimModel i (model.store8 i 0) else model

/-- What `ide_identify` keeps of an identification. -/
def ideRecord (device : IdeDevice) (data : Nat → UInt16) : IdeDevice × Int :=
  let device := { device with lbaSupported := decide (data 49 &&& ((1 : UInt16) <<< 9) ≠ 0) }
  if device.lbaSupported = false then (device, -1)
  else
    let sectors := ((data 61).toUInt32 <<< 16) ||| (data 60).toUInt32
    ({ device with
        sectors := sectors
        sizeMb := sectors * 512 / (1024 * 1024)
        model := trimModel 40 ((swapModel data 0 20 device.model).store8 40 0)
        present := true }, 0)

/-- `ide_identify`, for the record that was there before. -/
def ideIdentify (channel : IdeChannel) (drive : IdeDrive) (device : IdeDevice) :
    PortProg Empty (IdeDevice × Int) := do
  let device := { device with
    ioBase := ioBase channel
    ctrlBase := ctrlBase channel
    drive := driveSelect drive
    present := false }
  ideSelectDrive (ioBase channel) (driveSelect drive)
  outb (ioBase channel + 7) 0xEC
  let status ← ideReadStatus (ioBase channel)
  if status = 0 then return (device, -1)
  else
    let ready ← ideWaitReady (ioBase channel)
    if ready ≠ 0 then return (device, -1)
    else
      let data ← ideWaitDrq (ioBase channel)
      if data ≠ 0 then return (device, -1)
      else
        let words ← readIdentify (ioBase channel) 0 256 fun _ => 0
        return ideRecord device words

/-- `ide_controller_t`. -/
abbrev IdeController : Type := IdeChannel → IdeDrive → IdeDevice

/-- A record changes. -/
def IdeController.set (t : IdeController) (channel : IdeChannel) (drive : IdeDrive) (device : IdeDevice) :
    IdeController := Function.update t channel (Function.update (t channel) drive device)

/-- `ide_identify` for one record of the table. -/
def identifyInto (channel : IdeChannel) (drive : IdeDrive) (t : IdeController) : PortProg Empty IdeController := do
  let found ← ideIdentify channel drive (t channel drive)
  return t.set channel drive found.1

/-- The bytes of a record that were cleared. -/
def clearedDevice : IdeDevice := ⟨false, 0, 0, 0, 0, 0, fun _ => 0, false⟩

/-- The table after `memset`. -/
def clearedController : IdeController := fun _ _ => clearedDevice

/-- `ide_init`. -/
def ideInit : PortProg Empty IdeController := do
  let t ← identifyInto .primary .master clearedController
  let t ← identifyInto .primary .slave t
  let t ← identifyInto .secondary .master t
  identifyInto .secondary .slave t

/-! ### Two channels behind the ports -/

/-- The cables of both channels. -/
abbrev Cables : Type := IdeChannel → Cable

/-- An access to the registers of a channel. -/
def On (channel : IdeChannel) : Access Empty → Prop
  | .outb port _ | .inb port => ioBase channel ≤ port ∧ port < ioBase channel + 8
  | .outw port _ | .inw port => port = ioBase channel
  | .store _ => False

instance (channel : IdeChannel) (r : Access Empty) : Decidable (On channel r) := by
  cases r <;> unfold On <;> infer_instance

/-- Both channels. -/
def ide : PortDevice Empty Cables := fun r s =>
  if On .secondary r then
    ((cable (ioBase .secondary) r (s .secondary)).1,
      Function.update s .secondary (cable (ioBase .secondary) r (s .secondary)).2)
  else
    ((cable (ioBase .primary) r (s .primary)).1,
      Function.update s .primary (cable (ioBase .primary) r (s .primary)).2)

section Parts

variable {channel : IdeChannel} {α : Type} {p : PortProg Empty α}

/-- An access to one channel is none to the other. -/
theorem ide_on {r : Access Empty} (on : On channel r) (s : Cables) : ide r s =
    ((cable (ioBase channel) r (s channel)).1, Function.update s channel (cable (ioBase channel) r (s channel)).2) := by
  cases channel with
  | secondary => exact if_pos on
  | primary =>
      have off : ¬ On .secondary r := by
        cases r with
        | store what => exact id
        | _ => simp only [On, ioBase] at on ⊢; omega
      exact if_neg off

/-- **A program on the ports of one channel** runs on its cable. -/
theorem run_on (made : p.Makes (On channel)) (s : Cables) : p.run ide s =
    ((p.run (cable (ioBase channel)) (s channel)).1,
      Function.update s channel (p.run (cable (ioBase channel)) (s channel)).2) :=
  @Prog.Makes.run_part _ _ _ _ _ ide (cable (ioBase channel)) (On channel) p (fun s => s channel)
    (fun s c => Function.update s channel c) made (fun s => Function.update_eq_self channel s)
    (fun s c => Function.update_self channel c s) (fun s c c' => Function.update_idem c c' s)
    (fun _ on s => ide_on on s) s

theorem makes_reg_out {reg : Nat} (inside : reg < 8) (value : UInt8) :
    (outb (ioBase channel + reg) value : PortProg Empty Unit).Makes (On channel) :=
  .ask ⟨Nat.le_add_right _ _, Nat.add_lt_add_left inside _⟩ fun _ => .done _

theorem makes_reg_in {reg : Nat} (inside : reg < 8) :
    (inb (ioBase channel + reg) : PortProg Empty UInt8).Makes (On channel) :=
  .ask ⟨Nat.le_add_right _ _, Nat.add_lt_add_left inside _⟩ fun _ => .done _

theorem makes_pollReady (n : Nat) : (pollReady (ioBase channel) n).Makes (On channel) := by
  induction n with
  | zero => exact .done _
  | succ n ih =>
      refine .bind (makes_reg_in (by decide)) fun status => ?_
      split
      · exact .done _
      · exact ih

theorem makes_pollDrq (n : Nat) : (pollDrq (ioBase channel) n).Makes (On channel) := by
  induction n with
  | zero => exact .done _
  | succ n ih =>
      refine .bind (makes_reg_in (by decide)) fun status => ?_
      split
      · exact .done _
      · split
        · exact .done _
        · exact ih

theorem makes_readWords (buffer count : Nat) (i : Nat) (m : Memory) :
    (readWords (ioBase channel) buffer i count m).Makes (On channel) := by
  induction count generalizing i m with
  | zero => exact .done _
  | succ count ih => exact .ask rfl fun word => ih _ _

theorem makes_writeWords (buffer count : Nat) (i : Nat) (m : Memory) :
    (writeWords (ioBase channel) buffer m i count).Makes (On channel) := by
  induction count generalizing i with
  | zero => exact .done _
  | succ count ih => exact .ask rfl fun _ => ih _

theorem makes_readSectors (buffer count k : Nat) (m : Memory) :
    (readSectors (ioBase channel) buffer k count m).Makes (On channel) := by
  induction count generalizing k m with
  | zero => exact .done _
  | succ count ih =>
      refine .bind (makes_pollDrq _) fun ready => ?_
      split
      · exact .done _
      · exact .bind (makes_readWords _ _ _ _) fun m => ih _ _

theorem makes_writeSectors (buffer count k : Nat) (m : Memory) :
    (writeSectors (ioBase channel) buffer m k count).Makes (On channel) := by
  induction count generalizing k with
  | zero => exact .done _
  | succ count ih =>
      refine .bind (makes_pollDrq _) fun ready => ?_
      split
      · exact .done _
      · refine .bind (makes_writeWords _ _ _ _) fun _ => .bind (makes_pollReady _) fun written => ?_
        split
        · exact .done _
        · exact ih _

variable {device : IdeDevice}

theorem makes_ideAddress (place : device.ioBase = ioBase channel) (lba : UInt32) (count : UInt8) :
    (ideAddress device lba count).Makes (On channel) := by
  unfold ideAddress
  rw [place]
  exact .bind (makes_reg_out (by decide) _) fun _ => .bind (makes_reg_out (by decide) _) fun _ =>
    .bind (makes_reg_out (by decide) _) fun _ => .bind (makes_reg_out (by decide) _) fun _ =>
    makes_reg_out (by decide) _

theorem makes_ideReadSectors (place : device.ioBase = ioBase channel) (m : Memory) (lba : UInt32) (count : UInt8)
    (buffer : Nat) : (ideReadSectors device m lba count buffer).Makes (On channel) := by
  unfold ideReadSectors
  split
  · exact .done _
  · split
    · exact .done _
    · rw [place]
      refine .bind (makes_pollReady _) fun ready => ?_
      split
      · exact .done _
      · exact .bind (makes_ideAddress place _ _) fun _ => .bind (makes_reg_out (by decide) _) fun _ =>
          makes_readSectors _ _ _ _

theorem makes_ideWriteSectors (place : device.ioBase = ioBase channel) (m : Memory) (lba : UInt32) (count : UInt8)
    (buffer : Nat) : (ideWriteSectors device m lba count buffer).Makes (On channel) := by
  unfold ideWriteSectors
  split
  · exact .done _
  · split
    · exact .done _
    · rw [place]
      refine .bind (makes_pollReady _) fun ready => ?_
      split
      · exact .done _
      · refine .bind (makes_ideAddress place _ _) fun _ => .bind (makes_reg_out (by decide) _) fun _ =>
          .bind (makes_writeSectors _ _ _ _) fun written => ?_
        split
        · exact .done _
        · exact .bind (makes_reg_out (by decide) _) fun _ => .bind (makes_pollReady _) fun _ => .done _

theorem makes_readIdentify (i count : Nat) (data : Nat → UInt16) :
    (readIdentify (ioBase channel) i count data).Makes (On channel) := by
  induction count generalizing i data with
  | zero => exact .done _
  | succ count ih => exact .ask rfl fun word => ih _ _

theorem makes_altReads (count : Nat) : (altReads (ioBase channel) count).Makes (On channel) := by
  induction count with
  | zero => exact .done _
  | succ count ih => exact .bind (makes_reg_in (by decide)) fun _ => ih

theorem makes_ideIdentify (drive : IdeDrive) (device : IdeDevice) :
    (ideIdentify channel drive device).Makes (On channel) := by
  unfold ideIdentify
  refine .bind (.bind (makes_reg_out (by decide) _) fun _ => makes_altReads 4) fun _ =>
    .bind (makes_reg_out (by decide) _) fun _ => .bind (makes_reg_in (by decide)) fun status => ?_
  split
  · exact .done _
  · refine .bind (makes_pollReady _) fun ready => ?_
    split
    · exact .done _
    · refine .bind (makes_pollDrq _) fun data => ?_
      split
      · exact .done _
      · exact .bind (makes_readIdentify _ _ _) fun words => .done _

end Parts

/-! ### Identification -/

/-- A drive with nothing to do. -/
structure AtaDrive.Rest (d : AtaDrive) : Prop where
  calm : d.busy = 0
  idle : d.phase = .idle ∨ d.phase = .aborted

/-- The words of the identification, as an array of 256. -/
def AtaDrive.words (d : AtaDrive) (i : Nat) : UInt16 := if i < 256 then d.identity i else 0

/-- The first poll is the look at the status, and the wait has the others. -/
def AtaDrive.identifies (d : AtaDrive) : Bool :=
  decide ((d.replies 0 (.identify 0)).polls ≤ ideTimeout) && !(d.replies 0 (.identify 0)).error

/-- The record with the place of a drive. -/
def IdeDevice.placed (device : IdeDevice) (channel : IdeChannel) (drive : IdeDrive) : IdeDevice :=
  { device with
    ioBase := Ata.ioBase channel
    ctrlBase := Ata.ctrlBase channel
    drive := driveSelect drive
    present := false }

/-- The record of a drive, and what `ide_identify` returns. -/
def identified (found : Option AtaDrive) (device : IdeDevice) : IdeDevice × Int :=
  match found with
  | some d => if d.identifies = true then ideRecord device d.words else (device, -1)
  | none => (device, -1)

/-- A cable after a selection. -/
def Cable.turned (c : Cable) (slot : IdeDrive) : Cable := { c with drive := driveSelect slot }

section Identify

variable {base : Nat} {c : Cable} {d : AtaDrive} {slot : IdeDrive} {device : IdeDevice} {channel : IdeChannel}

theorem selects_driveSelect (slot : IdeDrive) : selects (driveSelect slot) = slot := by
  cases slot <;> rfl

theorem turned_selected : (c.turned slot).selected = c.drives slot := by
  rw [Cable.selected, Cable.turned, selects_driveSelect]

/-- A drive at rest gives no data. -/
theorem dataOut_rest (rest : d.Rest) : d.dataOut = (0, d) := by
  rw [AtaDrive.dataOut, if_neg (not_not.mpr rest.calm)]
  rcases rest.idle with idle | aborted
  · rw [idle]
  · rw [aborted]

theorem run_altReads (rest : ∀ d ∈ c.selected, d.Rest) (n : Nat) :
    (altReads base n).run (cable base) c = ((), c) := by
  induction n with
  | zero => rfl
  | succ n ih =>
      have still : c.read 0 = (0, c) := by
        show (c.dataOut.1.toUInt8, c.dataOut.2) = (0, c)
        cases here : c.selected with
        | none =>
            rw [Cable.dataOut, here]
            rfl
        | some d =>
            rw [dataOut_some here, dataOut_rest (rest d here), put_same here]
            rfl
      rw [altReads, Prog.run_bind, run_inb (by decide), still]
      exact ih

theorem run_ideSelectDrive (rest : ∀ d ∈ c.drives slot, d.Rest) :
    (ideSelectDrive base (driveSelect slot)).run (cable base) c = ((), c.turned slot) := by
  have turned : (outb (base + 6) (driveSelect slot)).run (cable base) c = ((), c.turned slot) :=
    run_outb (by decide) _
  rw [ideSelectDrive, Prog.run_bind, turned]
  exact run_altReads (turned_selected.symm ▸ rest) 4

/-- **The words come in order.** -/
theorem run_readIdentify (k : Nat) : ∀ (i : Nat) (data : Nat → UInt16) (c : Cable) (d : AtaDrive),
    c.selected = some d → d.busy = 0 → d.phase = .identify i → i + k = 255 →
    ((readIdentify base i (k + 1) data).run (cable base) c) =
      ((fun j => if i ≤ j ∧ j < 256 then d.identity j else data j), c.put { d with phase := .idle }) := by
  have word : ∀ (i : Nat) (d : AtaDrive), d.busy = 0 → d.phase = .identify i →
      d.dataOut = (d.identity i, { d with phase := if i < 255 then .identify (i + 1) else .idle }) := by
    intro i d calm phase
    rw [AtaDrive.dataOut, if_neg (not_not.mpr calm), phase]
  induction k with
  | zero =>
      intro i data c d here calm phase last
      have last : i = 255 := last
      rw [readIdentify, Prog.run_bind, run_inw, dataOut_some here, word i d calm phase, if_neg (by omega)]
      refine Prod.ext ?_ rfl
      funext j
      show Function.update data i (d.identity i) j = if i ≤ j ∧ j < 256 then d.identity j else data j
      by_cases same : j = i
      · rw [same, Function.update_self, if_pos (by omega)]
      · rw [Function.update_of_ne same, if_neg (by omega)]
  | succ k ih =>
      intro i data c d here calm phase last
      rw [readIdentify, Prog.run_bind, run_inw, dataOut_some here, word i d calm phase, if_pos (by omega)]
      rw [ih (i + 1) _ _ { d with phase := .identify (i + 1) } selected_put calm rfl (by omega), put_put]
      refine Prod.ext ?_ rfl
      funext j
      show (if i + 1 ≤ j ∧ j < 256 then d.identity j else Function.update data i (d.identity i) j) =
        if i ≤ j ∧ j < 256 then d.identity j else data j
      by_cases same : j = i
      · rw [same, Function.update_self, if_neg (by omega), if_pos (by omega)]
      · rw [Function.update_of_ne same]
        exact if_congr (by omega) rfl rfl

theorem run_words (here : c.selected = some d) (calm : d.busy = 0) (phase : d.phase = .identify 0) :
    (readIdentify base 0 256 fun _ => 0).run (cable base) c = (d.words, c.put { d with phase := .idle }) := by
  rw [show (256 : Nat) = 255 + 1 from rfl, run_readIdentify 255 0 _ c d here calm phase rfl]
  refine Prod.ext ?_ rfl
  funext j
  exact if_congr (by omega) rfl rfl

theorem run_command_none {value : UInt8} (nobody : c.selected = none) :
    (outb (base + 7) value).run (cable base) c = ((), c) := by
  rw [run_outb (by decide)]
  simp only [Cable.out, nobody]

theorem status_ne_zero (d : AtaDrive) : d.status ≠ 0 := by
  by_cases busy : d.busy = 0
  · cases phase : d.phase with
    | idle => rw [status_idle busy phase]; decide
    | aborted => rw [status_aborted busy phase]; decide
    | _ => rw [status_data busy (by rw [phase]; rfl)]; decide
  · rw [status_busy busy]
    decide

/-- A drive that was asked for its identification, after some polls. -/
theorem Later.identifying (d : AtaDrive) (p : Phase) (n : Nat) :
    Later d ((d.proceed p).polled (n + ideTimeout)) := by
  refine ⟨rfl, ⟨1, fun n => congrArg d.replies (Nat.add_comm n 1)⟩, fun intime _ => ?_⟩
  exact Nat.sub_eq_zero_of_le ((le_of_lt (intime 0 p)).trans (Nat.le_add_left _ n))

/-- **A drive is asked for its identification.** -/
theorem run_ideIdentify (rest : ∀ d ∈ c.drives slot, d.Rest) :
    ∃ c', (ideIdentify channel slot device).run (cable (ioBase channel)) c =
        (identified (c.drives slot) (device.placed channel slot), c') ∧
      c'.drive = driveSelect slot ∧ c.Later c' ∧ (∀ other, c'.contents other = c.contents other) ∧
      ∀ other, other ≠ slot → c'.drives other = c.drives other := by
  have failed : ¬ (-1 : Int) = 0 := by decide
  unfold ideIdentify
  rw [Prog.run_bind, run_ideSelectDrive rest, Prog.run_bind]
  cases found : c.drives slot with
  | none =>
      have nobody : (c.turned slot).selected = none := turned_selected.trans found
      have silent : (ideReadStatus (ioBase channel)).run (cable (ioBase channel)) (c.turned slot) =
          (0, c.turned slot) := by
        rw [ideReadStatus, run_poll, Cable.poll, nobody]
      rw [run_command_none nobody, Prog.run_bind, silent, if_pos rfl]
      exact ⟨c.turned slot, rfl, rfl, Cable.Later.refl c, fun _ => rfl, fun _ _ => rfl⟩
  | some d =>
      have here : (c.turned slot).selected = some d := turned_selected.trans found
      have calm := (rest d found).calm
      have asked : d.command (c.turned slot).lba (c.turned slot).count 0xEC = d.proceed (.identify 0) := by
        rw [AtaDrive.command, if_neg (not_not.mpr calm), if_neg (by decide), if_neg (by decide),
          if_neg (by decide), if_pos rfl]
      -- Whatever comes, the drive has only been asked and polled, and it may have given its words.
      have done : ∀ d', Ata.Later d d' → d'.bytes = d.bytes →
          ((c.turned slot).put d').drive = driveSelect slot ∧ c.Later ((c.turned slot).put d') ∧
            (∀ other, ((c.turned slot).put d').contents other = c.contents other) ∧
            ∀ other, other ≠ slot → ((c.turned slot).put d').drives other = c.drives other := by
        intro d' goes bytes
        have later : c.Later (c.turned slot) := Cable.Later.refl c
        have elsewhere : ∀ other, other ≠ slot → ((c.turned slot).put d').drives other = c.drives other := by
          intro other apart
          show Function.update c.drives (selects (driveSelect slot)) (some d') other = c.drives other
          rw [selects_driveSelect, Function.update_of_ne apart]
        refine ⟨rfl, later.put ?_ goes, fun other => ?_, elsewhere⟩
        · rw [Cable.turned, selects_driveSelect]
          exact found
        · unfold Cable.contents
          by_cases mine : other = slot
          · have at_slot : ((c.turned slot).put d').drives other = some d' := by
              show Function.update c.drives (selects (driveSelect slot)) (some d') other = some d'
              rw [selects_driveSelect, mine, Function.update_self]
            rw [at_slot, mine, found, Option.map_some, Option.map_some, bytes]
          · rw [elsewhere other mine]
      rw [run_command here, asked, Prog.run_bind, ideReadStatus, run_poll, poll_some selected_put, put_put,
        if_neg (status_ne_zero _), Prog.run_bind, ideWaitReady, run_pollReady selected_put, put_put]
      have first : ({ d.proceed (.identify 0) with busy := (d.proceed (.identify 0)).busy - 1 } : AtaDrive) =
          (d.proceed (.identify 0)).polled 1 := rfl
      have polls : ((d.proceed (.identify 0)).polled 1).busy < ideTimeout ↔
          (d.replies 0 (.identify 0)).polls ≤ ideTimeout := by
        show (d.replies 0 (.identify 0)).polls - 1 < ideTimeout ↔ _
        have positive : 0 < ideTimeout := by decide
        omega
      rw [first, polled_polled]
      by_cases intime : (d.replies 0 (.identify 0)).polls ≤ ideTimeout
      · rw [if_pos (polls.mpr intime)]
        generalize entered : (d.proceed (.identify 0)).polled (1 + ideTimeout) = e
        have still : e.busy = 0 := by
          rw [← entered]
          exact Nat.sub_eq_zero_of_le (intime.trans (Nat.le_add_left _ 1))
        have phase : e.phase = if (d.replies 0 (.identify 0)).error then .aborted else .identify 0 := by
          rw [← entered]
          rfl
        have working : e.phase ≠ .idle := by
          rw [phase]
          split <;> exact fun same => by cases same
        have goes : Ata.Later d e := by
          rw [← entered]
          exact .identifying d _ 1
        have bytes : e.bytes = d.bytes := by
          rw [← entered, polled_bytes]
          rfl
        rw [if_neg (not_not.mpr rfl), Prog.run_bind, ideWaitDrq, run_pollDrq selected_put working, put_put,
          polled_calm still, still]
        cases error : (d.replies 0 (.identify 0)).error with
        | true =>
            rw [error] at phase
            have lost : identified (some d) (device.placed channel slot) = (device.placed channel slot, -1) := by
              refine if_neg ?_
              rw [AtaDrive.identifies, error, Bool.and_eq_true]
              exact fun both => by cases both.2
            have nothing : ¬ ((0 : Nat) < ideTimeout ∧ e.phase.data = true) := by
              rw [phase]
              exact fun both => by cases both.2
            rw [if_neg nothing, if_pos failed, lost]
            exact ⟨_, rfl, done e goes bytes⟩
        | false =>
            rw [error] at phase
            have kept : identified (some d) (device.placed channel slot) =
                ideRecord (device.placed channel slot) d.words := by
              refine if_pos ?_
              rw [AtaDrive.identifies, error, decide_eq_true intime]
              rfl
            have ready : (0 : Nat) < ideTimeout ∧ e.phase.data = true := by
              rw [phase]
              exact ⟨by decide, rfl⟩
            have identity : e.words = d.words := by
              rw [← entered]
              rfl
            rw [if_pos ready, if_neg (not_not.mpr rfl), Prog.run_bind, run_words selected_put still phase, put_put,
              identity, kept]
            exact ⟨_, rfl, done { e with phase := .idle } ⟨goes.identity, goes.replies, goes.calm⟩ bytes⟩
      · have lost : identified (some d) (device.placed channel slot) = (device.placed channel slot, -1) := by
          refine if_neg ?_
          rw [AtaDrive.identifies, decide_eq_false intime, Bool.and_eq_true]
          exact fun both => by cases both.1
        rw [if_neg (mt polls.mp intime), if_pos failed, lost]
        exact ⟨_, rfl, done _ (.identifying d _ 1) (polled_bytes _)⟩

end Identify

/-! ### After `ide_init` -/

/-- The records that `ide_init` leaves. -/
def Cables.table (s : Cables) : IdeController :=
  fun channel drive => (identified ((s channel).drives drive) (clearedDevice.placed channel drive)).1

/-- A table with the records of both drives of a channel. -/
def IdeController.found (t : IdeController) (channel : IdeChannel) (c : Cable) : IdeController :=
  (t.set channel .master (identified (c.drives .master) ((t channel .master).placed channel .master)).1).set channel
    .slave (identified (c.drives .slave) ((t channel .slave).placed channel .slave)).1

/-- Every drive has nothing to do. -/
def Cables.Rest (s : Cables) : Prop := ∀ channel slot, ∀ d ∈ (s channel).drives slot, d.Rest

section Init

variable {s : Cables} {channel : IdeChannel} {slot : IdeDrive} {t : IdeController} {device : IdeDevice}
  {found : Option AtaDrive}

theorem run_identifyInto (rest : ∀ d ∈ (s channel).drives slot, d.Rest) :
    ∃ c', (identifyInto channel slot t).run ide s =
        (t.set channel slot (identified ((s channel).drives slot) ((t channel slot).placed channel slot)).1,
          Function.update s channel c') ∧
      c'.drive = driveSelect slot ∧ (s channel).Later c' ∧
      (∀ other, c'.contents other = (s channel).contents other) ∧
      ∀ other, other ≠ slot → c'.drives other = (s channel).drives other := by
  obtain ⟨c', ran, facts⟩ := @run_ideIdentify (s channel) slot (t channel slot) channel rest
  refine ⟨c', ?_, facts⟩
  rw [identifyInto, Prog.run_bind, run_on (makes_ideIdentify slot _), ran]
  rfl

/-- Both drives of a channel are asked. -/
theorem run_identifyBoth (rest : ∀ slot, ∀ d ∈ (s channel).drives slot, d.Rest) :
    ∃ c', ((identifyInto channel .master t >>= identifyInto channel .slave).run ide s) =
        (t.found channel (s channel), Function.update s channel c') ∧
      c'.drive = driveSelect .slave ∧ (s channel).Later c' ∧
      ∀ other, c'.contents other = (s channel).contents other := by
  obtain ⟨c1, first, -, later1, contents1, others⟩ := @run_identifyInto s channel .master t (rest .master)
  have same : (Function.update s channel c1 channel).drives .slave = (s channel).drives .slave := by
    rw [Function.update_self]
    exact others .slave (by decide)
  obtain ⟨c2, second, turned, later2, contents2, -⟩ := @run_identifyInto (Function.update s channel c1) channel
    .slave (t.set channel .master (identified ((s channel).drives .master)
      ((t channel .master).placed channel .master)).1) (same.symm ▸ rest .slave)
  rw [Function.update_self] at later2 contents2
  refine ⟨c2, ?_, turned, later1.trans later2, fun other => (contents2 other).trans (contents1 other)⟩
  have kept : ∀ device, (t.set channel .master device) channel .slave = t channel .slave := by
    intro device
    rw [IdeController.set, Function.update_self, Function.update_of_ne (by decide)]
  rw [Prog.run_bind, first, second, same, kept, Function.update_idem, IdeController.found]

/-- **`ide_init`**: the records of all four drives, and every channel left with its slave selected. -/
theorem run_ideInit (rest : s.Rest) : ∃ s', ideInit.run ide s = (s.table, s') ∧
    ∀ channel, (s' channel).drive = driveSelect .slave ∧ (s channel).Later (s' channel) ∧
      ∀ slot, (s' channel).contents slot = (s channel).contents slot := by
  obtain ⟨c1, first, facts1⟩ := @run_identifyBoth s .primary clearedController (rest .primary)
  have apart : Function.update s .primary c1 .secondary = s .secondary := Function.update_of_ne (by decide) _ _
  obtain ⟨c2, second, facts2⟩ := @run_identifyBoth (Function.update s .primary c1) .secondary
    (clearedController.found .primary (s .primary)) (apart.symm ▸ rest .secondary)
  rw [apart] at facts2 second
  refine ⟨Function.update (Function.update s .primary c1) .secondary c2, ?_, fun channel => ?_⟩
  · have split : ideInit = (identifyInto .primary .master clearedController >>=
        identifyInto .primary .slave) >>= fun t => identifyInto .secondary .master t >>=
          identifyInto .secondary .slave := by
      rw [bind_assoc]
      rfl
    rw [split, Prog.run_bind, first, second]
    refine Prod.ext ?_ rfl
    funext channel slot
    cases channel <;> cases slot <;> rfl
  · cases channel with
    | primary => exact facts1
    | secondary => exact facts2

theorem ideRecord_place (device : IdeDevice) (data : Nat → UInt16) :
    (ideRecord device data).1.ioBase = device.ioBase ∧ (ideRecord device data).1.drive = device.drive := by
  unfold ideRecord
  dsimp only
  split <;> exact ⟨rfl, rfl⟩

theorem identified_place : (identified found device).1.ioBase = device.ioBase ∧
    (identified found device).1.drive = device.drive := by
  cases found with
  | none => exact ⟨rfl, rfl⟩
  | some d =>
      rw [identified]
      split
      · exact ideRecord_place device _
      · exact ⟨rfl, rfl⟩

/-- A record of the table is wired to its drive. -/
theorem table_place : (s.table channel slot).ioBase = ioBase channel ∧
    (s.table channel slot).drive = driveSelect slot := identified_place

/-- **A drive that is not there has no record.** -/
theorem table_absent (absent : (s channel).drives slot = none) : (s.table channel slot).present = false := by
  rw [Cables.table, absent]
  rfl

end Init

end Kfs.Disk.Ata
