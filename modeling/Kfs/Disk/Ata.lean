/-
**The driver on its ports: `ide.c`.**

The driver is a program on the eight registers of a channel. On the cable behind them are up to two drives, and
the drive register selects the one that answers. A drive works on one command at a time; before each part of it
(a sector, or the end) it is busy for some polls, and it may give up with an error. How long and whether is
arbitrary: `replies`.

The waits of the driver are `run_pollReady` and `run_pollDrq`: they take one poll more than the drive is busy,
and the drive that is polled is the one selected before.
-/

import Kfs.Base.Ports
import Kfs.Disk.Overrun

namespace Kfs.Disk.Ata

/-! ### The drives -/

/-- What a drive works on: nothing, an error, a word of its identification, or a word of a sector with the
sectors left. -/
inductive Phase where
  | idle
  | aborted
  | identify (word : Nat)
  | reading (sector left word : Nat)
  | writing (sector left word : Nat)
  deriving DecidableEq, Repr

/-- How a drive answers the next part of its work: the polls that find it busy, and whether it gives up. -/
structure Reply where
  polls : Nat
  error : Bool
  deriving DecidableEq, Repr

/-- A drive: its sectors, its identification, what it works on, the polls that will find it busy, and its
replies to come. -/
structure AtaDrive where
  bytes : Nat → UInt8
  identity : Nat → UInt16
  phase : Phase
  busy : Nat
  replies : Nat → Phase → Reply

/-- The word at a byte address. -/
def wordAt (bytes : Nat → UInt8) (a : Nat) : UInt16 := (bytes a).toUInt16 ||| ((bytes (a + 1)).toUInt16 <<< 8)

/-- The bytes of a word. -/
def byteOf (w : UInt16) (i : Nat) : UInt8 := if i = 0 then w.toUInt8 else (w >>> 8).toUInt8

/-- A word is stored. -/
def store16 (m : Memory) (a : Nat) (w : UInt16) : Memory := m.writeBytes a 2 (byteOf w)

namespace AtaDrive

/-- The next part of the work. -/
def proceed (d : AtaDrive) (p : Phase) : AtaDrive :=
  { d with
    phase := if (d.replies 0 p).error then .aborted else p
    busy := (d.replies 0 p).polls
    replies := fun n => d.replies (n + 1) }

/-- The status register: busy, or ready, with data or an error. -/
def status (d : AtaDrive) : UInt8 :=
  if d.busy ≠ 0 then 0x80
  else match d.phase with
    | .idle => 0x50
    | .aborted => 0x51
    | .identify _ | .reading _ _ _ | .writing _ _ _ => 0x58

/-- A command, for the sectors in the registers. A drive that is busy takes none. -/
def command (d : AtaDrive) (lba count : Nat) (value : UInt8) : AtaDrive :=
  if d.busy ≠ 0 then d
  else if value = 0x20 then d.proceed (.reading lba count 0)
  else if value = 0x30 then d.proceed (.writing lba count 0)
  else if value = 0xE7 then d.proceed .idle
  else if value = 0xEC then d.proceed (.identify 0)
  else { d with phase := .aborted }

/-- A read of the data register. -/
def dataOut (d : AtaDrive) : UInt16 × AtaDrive :=
  if d.busy ≠ 0 then (0, d)
  else match d.phase with
    | .identify word =>
        (d.identity word, { d with phase := if word < 255 then .identify (word + 1) else .idle })
    | .reading sector left word =>
        (wordAt d.bytes (sectorSize * sector + 2 * word),
          if word < 255 then { d with phase := .reading sector left (word + 1) }
          else if left = 1 then { d with phase := .idle }
          else d.proceed (.reading (sector + 1) (left - 1) 0))
    | .idle | .aborted | .writing _ _ _ => (0, d)

/-- A write of the data register. -/
def dataIn (d : AtaDrive) (value : UInt16) : AtaDrive :=
  if d.busy ≠ 0 then d
  else match d.phase with
    | .writing sector left word =>
        let d := { d with bytes := store16 d.bytes (sectorSize * sector + 2 * word) value }
        if word < 255 then { d with phase := .writing sector left (word + 1) }
        else if left = 1 then d.proceed .idle
        else d.proceed (.writing (sector + 1) (left - 1) 0)
    | .idle | .aborted | .identify _ | .reading _ _ _ => d

end AtaDrive

/-- `ide_channel_t`. -/
inductive IdeChannel where
  | primary
  | secondary
  deriving DecidableEq, Repr

/-- `ide_drive_t`. -/
inductive IdeDrive where
  | master
  | slave
  deriving DecidableEq, Repr

/-- A cable: the registers that both drives see, and the drives. -/
structure Cable where
  seccount : UInt8
  lbalo : UInt8
  lbamid : UInt8
  lbahi : UInt8
  drive : UInt8
  drives : IdeDrive → Option AtaDrive

/-- The drive that a value of the drive register selects. -/
def selects (drive : UInt8) : IdeDrive := if drive.toBitVec.getLsbD 4 then .slave else .master

namespace Cable

/-- The drive that answers. -/
def selected (c : Cable) : Option AtaDrive := c.drives (selects c.drive)

/-- That drive changes. -/
def put (c : Cable) (d : AtaDrive) : Cable :=
  { c with drives := Function.update c.drives (selects c.drive) (some d) }

/-- The sector in the registers. -/
def lba (c : Cable) : Nat :=
  c.lbalo.toNat + 2 ^ 8 * c.lbamid.toNat + 2 ^ 16 * c.lbahi.toNat + 2 ^ 24 * (c.drive &&& 0x0F).toNat

/-- The number of sectors in the registers, where 0 stands for 256. -/
def count (c : Cable) : Nat := if c.seccount = 0 then 256 else c.seccount.toNat

/-- A write of a register. -/
def out (c : Cable) (reg : Nat) (value : UInt8) : Cable :=
  match reg with
  | 2 => { c with seccount := value }
  | 3 => { c with lbalo := value }
  | 4 => { c with lbamid := value }
  | 5 => { c with lbahi := value }
  | 6 => { c with drive := value }
  | 7 =>
      match c.selected with
      | some d => c.put (d.command c.lba c.count value)
      | none => c
  | _ => c

/-- A read of the data register. A drive that is not there has no data. -/
def dataOut (c : Cable) : UInt16 × Cable :=
  match c.selected with
  | some d => (d.dataOut.1, c.put d.dataOut.2)
  | none => (0, c)

/-- A write of the data register. -/
def dataIn (c : Cable) (value : UInt16) : Cable :=
  match c.selected with
  | some d => c.put (d.dataIn value)
  | none => c

/-- A read of the status register: a poll. For a drive that is not there it is 0. -/
def poll (c : Cable) : UInt8 × Cable :=
  match c.selected with
  | some d => (d.status, c.put { d with busy := d.busy - 1 })
  | none => (0, c)

/-- A read of a register. -/
def read (c : Cable) (reg : Nat) : UInt8 × Cable :=
  match reg with
  | 0 => (c.dataOut.1.toUInt8, c.dataOut.2)
  | 7 => c.poll
  | _ => (0, c)

end Cable

/-- The registers of a channel at their ports. -/
def cable (ioBase : Nat) : PortDevice Empty Cable
  | .outb port value, c => ((), if ioBase ≤ port ∧ port < ioBase + 8 then c.out (port - ioBase) value else c)
  | .inb port, c => if ioBase ≤ port ∧ port < ioBase + 8 then c.read (port - ioBase) else ((0xFF : UInt8), c)
  | .outw port value, c => ((), if port = ioBase then c.dataIn value else c)
  | .inw port, c => if port = ioBase then c.dataOut else ((0xFFFF : UInt16), c)
  | .store _, c => ((), c)

/-! ### The functions of the source -/

/-- `ide_device_t`; `present` is its field `exists`. -/
structure IdeDevice where
  present : Bool
  ioBase : Nat
  ctrlBase : Nat
  drive : UInt8
  sectors : UInt32
  sizeMb : UInt32
  model : Nat → UInt8
  lbaSupported : Bool

/-- `IDE_STATUS_ERR`. -/
def ideStatusErr : UInt8 := 0x01

/-- `IDE_STATUS_DRQ`. -/
def ideStatusDrq : UInt8 := 0x08

/-- `IDE_STATUS_RDY`. -/
def ideStatusRdy : UInt8 := 0x40

/-- `IDE_STATUS_BSY`. -/
def ideStatusBsy : UInt8 := 0x80

/-- The loop of `ide_wait_ready`. -/
def pollReady (ioBase : Nat) : (timeout : Nat) → PortProg Empty Int
  | 0 => return -1
  | timeout + 1 => do
      let status ← inb (ioBase + 7)
      if status &&& ideStatusBsy = 0 ∧ status &&& ideStatusRdy ≠ 0 then return 0 else pollReady ioBase timeout

/-- The loop of `ide_wait_drq`. -/
def pollDrq (ioBase : Nat) : (timeout : Nat) → PortProg Empty Int
  | 0 => return -1
  | timeout + 1 => do
      let status ← inb (ioBase + 7)
      if status &&& ideStatusDrq ≠ 0 then return 0
      else if status &&& ideStatusErr ≠ 0 then return -1
      else pollDrq ioBase timeout

/-- The number of polls. -/
def ideTimeout : Nat := 10000

/-- `ide_wait_ready`. -/
def ideWaitReady (ioBase : Nat) : PortProg Empty Int := pollReady ioBase ideTimeout

/-- `ide_wait_drq`. -/
def ideWaitDrq (ioBase : Nat) : PortProg Empty Int := pollDrq ioBase ideTimeout

/-- The registers of a request: drive, count and sector. -/
def ideAddress (device : IdeDevice) (lba : UInt32) (count : UInt8) : PortProg Empty Unit := do
  outb (device.ioBase + 6) (device.drive ||| ((lba >>> 24) &&& 0x0F).toUInt8)
  outb (device.ioBase + 2) count
  outb (device.ioBase + 3) (lba &&& 0xFF).toUInt8
  outb (device.ioBase + 4) ((lba >>> 8) &&& 0xFF).toUInt8
  outb (device.ioBase + 5) ((lba >>> 16) &&& 0xFF).toUInt8

/-- Words from the data register into memory. -/
def readWords (ioBase buffer : Nat) : (i count : Nat) → Memory → PortProg Empty Memory
  | _, 0, m => return m
  | i, count + 1, m => do
      let word ← inw ioBase
      readWords ioBase buffer (i + 1) count (store16 m (buffer + 2 * i) word)

/-- Words from memory to the data register. -/
def writeWords (ioBase buffer : Nat) (m : Memory) : (i count : Nat) → PortProg Empty Unit
  | _, 0 => return
  | i, count + 1 => do
      outw ioBase (wordAt m (buffer + 2 * i))
      writeWords ioBase buffer m (i + 1) count

/-- The sectors of `ide_read_sectors`. -/
def readSectors (ioBase buffer : Nat) : (sector count : Nat) → Memory → PortProg Empty (Memory × Int)
  | _, 0, m => return (m, 0)
  | sector, count + 1, m => do
      let ready ← ideWaitDrq ioBase
      if ready ≠ 0 then return (m, -1)
      else
        let m ← readWords ioBase buffer (sector * 256) 256 m
        readSectors ioBase buffer (sector + 1) count m

/-- `ide_read_sectors`, for a record of `ide_controller.devices`. -/
def ideReadSectors (device : IdeDevice) (m : Memory) (lba : UInt32) (count : UInt8) (buffer : Nat) :
    PortProg Empty (Memory × Int) := do
  if device.present = false then return (m, -1)
  else if count = 0 then return (m, -1)
  else
    let ready ← ideWaitReady device.ioBase
    if ready ≠ 0 then return (m, -1)
    else
      ideAddress device lba count
      outb (device.ioBase + 7) 0x20
      readSectors device.ioBase buffer 0 count.toNat m

/-- The sectors of `ide_write_sectors`. -/
def writeSectors (ioBase buffer : Nat) (m : Memory) : (sector count : Nat) → PortProg Empty Int
  | _, 0 => return 0
  | sector, count + 1 => do
      let ready ← ideWaitDrq ioBase
      if ready ≠ 0 then return -1
      else
        writeWords ioBase buffer m (sector * 256) 256
        let written ← ideWaitReady ioBase
        if written ≠ 0 then return -1 else writeSectors ioBase buffer m (sector + 1) count

/-- `ide_write_sectors`. -/
def ideWriteSectors (device : IdeDevice) (m : Memory) (lba : UInt32) (count : UInt8) (buffer : Nat) :
    PortProg Empty Int := do
  if device.present = false then return -1
  else if count = 0 then return -1
  else
    let ready ← ideWaitReady device.ioBase
    if ready ≠ 0 then return -1
    else
      ideAddress device lba count
      outb (device.ioBase + 7) 0x30
      let written ← writeSectors device.ioBase buffer m 0 count.toNat
      if written ≠ 0 then return -1
      else
        outb (device.ioBase + 7) 0xE7
        let _ ← ideWaitReady device.ioBase
        return 0

/-! ### Bytes and words -/

section Words

variable {m : Memory} {a : Nat} {f : Nat → UInt8}

theorem byteOf_wordAt (i : Nat) (inside : i < 2) : byteOf (wordAt f a) i = f (a + i) := by
  have low : ∀ x y : UInt8, (x.toUInt16 ||| (y.toUInt16 <<< 8)).toUInt8 = x := by
    intro x y
    apply UInt8.eq_of_toBitVec_eq
    ext i inside
    simp
  have high : ∀ x y : UInt8, ((x.toUInt16 ||| (y.toUInt16 <<< 8)) >>> 8).toUInt8 = y := by
    intro x y
    apply UInt8.eq_of_toBitVec_eq
    ext i inside
    simp [show 8 + i < 16 by omega, show i < 16 by omega, BitVec.getLsbD_eq_getElem inside]
  unfold byteOf wordAt
  split
  · rename_i zero
    rw [low, zero, Nat.add_zero]
  · rw [high, show i = 1 by omega]

/-- A word that is read and stored is its two bytes. -/
theorem store16_wordAt (m : Memory) (a : Nat) (f : Nat → UInt8) (b : Nat) :
    store16 m a (wordAt f b) = m.writeBytes a 2 fun i => f (b + i) :=
  writeBytes_congr fun i inside => byteOf_wordAt i inside

end Words

/-! ### Polls -/

section Cables

variable {ioBase : Nat} {c : Cable} {d d' : AtaDrive}

@[simp] theorem selected_put : (c.put d).selected = some d := Function.update_self _ _ _

@[simp] theorem put_put : (c.put d).put d' = c.put d' :=
  congrArg (fun drives => { c with drives := drives }) (Function.update_idem _ _ _)

theorem put_same (here : c.selected = some d) : c.put d = c :=
  congrArg (fun drives => { c with drives := drives }) (Function.update_eq_self_iff.mpr here.symm)

theorem run_outb {reg : Nat} (inside : reg < 8) (value : UInt8) :
    (outb (ioBase + reg) value).run (cable ioBase) c = ((), c.out reg value) := by
  show ((), if ioBase ≤ ioBase + reg ∧ ioBase + reg < ioBase + 8 then c.out (ioBase + reg - ioBase) value else c) =
    ((), c.out reg value)
  rw [if_pos (by omega), Nat.add_sub_cancel_left]

theorem run_inb {reg : Nat} (inside : reg < 8) : (inb (ioBase + reg)).run (cable ioBase) c = c.read reg := by
  show (if ioBase ≤ ioBase + reg ∧ ioBase + reg < ioBase + 8 then c.read (ioBase + reg - ioBase)
    else ((0xFF : UInt8), c)) = c.read reg
  rw [if_pos (by omega), Nat.add_sub_cancel_left]

theorem run_inw : (inw ioBase).run (cable ioBase) c = c.dataOut := if_pos rfl

theorem run_outw (value : UInt16) : (outw ioBase value).run (cable ioBase) c = ((), c.dataIn value) :=
  congrArg (fun c => ((), c)) (if_pos rfl)

/-- A poll. -/
theorem run_poll : (inb (ioBase + 7)).run (cable ioBase) c = c.poll := run_inb (by decide)

theorem poll_some (here : c.selected = some d) : c.poll = (d.status, c.put { d with busy := d.busy - 1 }) := by
  rw [Cable.poll, here]

theorem dataOut_some (here : c.selected = some d) : c.dataOut = (d.dataOut.1, c.put d.dataOut.2) := by
  rw [Cable.dataOut, here]

theorem dataIn_some (here : c.selected = some d) (value : UInt16) : c.dataIn value = c.put (d.dataIn value) := by
  rw [Cable.dataIn, here]

/-- The drive has data to give or to take. -/
def Phase.data : Phase → Bool
  | .identify _ | .reading _ _ _ | .writing _ _ _ => true
  | .idle | .aborted => false

theorem status_busy (busy : d.busy ≠ 0) : d.status = 0x80 := if_pos busy

theorem status_idle (calm : d.busy = 0) (idle : d.phase = .idle) : d.status = 0x50 := by
  rw [AtaDrive.status, if_neg (not_not.mpr calm), idle]

theorem status_aborted (calm : d.busy = 0) (aborted : d.phase = .aborted) : d.status = 0x51 := by
  rw [AtaDrive.status, if_neg (not_not.mpr calm), aborted]

theorem status_data (calm : d.busy = 0) (data : d.phase.data = true) : d.status = 0x58 := by
  rw [AtaDrive.status, if_neg (not_not.mpr calm)]
  cases same : d.phase with
  | idle => rw [same] at data; cases data
  | aborted => rw [same] at data; cases data
  | _ => rfl

/-- The drive after some polls. -/
def AtaDrive.polled (d : AtaDrive) (n : Nat) : AtaDrive := { d with busy := d.busy - n }

@[simp] theorem polled_bytes (n : Nat) : (d.polled n).bytes = d.bytes := rfl

theorem polled_polled (n k : Nat) : (d.polled n).polled k = d.polled (n + k) :=
  congrArg (fun busy => { d with busy := busy }) (Nat.sub_sub _ _ _)

theorem polled_calm (calm : d.busy = 0) (n : Nat) : d.polled n = d := by
  obtain ⟨bytes, identity, phase, busy, replies⟩ := d
  have calm : busy = 0 := calm
  subst calm
  exact congrArg (fun busy => AtaDrive.mk bytes identity phase busy replies) (Nat.zero_sub n)

/-- **Waiting for a drive** takes one poll more than it is busy, and fails when there are not enough. -/
theorem run_pollReady (here : c.selected = some d) (n : Nat) : (pollReady ioBase n).run (cable ioBase) c =
    (if d.busy < n then 0 else -1, c.put (d.polled n)) := by
  induction n generalizing c d with
  | zero => exact Prod.ext rfl (put_same here).symm
  | succ n ih =>
      have polled := poll_some here
      simp only [pollReady, Prog.run_bind, run_poll, polled]
      by_cases busy : d.busy = 0
      · have ready : d.status &&& ideStatusBsy = 0 ∧ d.status &&& ideStatusRdy ≠ 0 := by
          by_cases data : d.phase.data = true
          · rw [status_data busy data]
            decide
          · cases same : d.phase with
            | idle => rw [status_idle busy same]; decide
            | aborted => rw [status_aborted busy same]; decide
            | _ => exact absurd (by rw [same]; rfl) data
        rw [if_pos ready, if_pos (by omega)]
        refine Prod.ext rfl (congrArg c.put ?_)
        exact (polled_calm busy 1).trans (polled_calm busy (n + 1)).symm
      · have waits : ¬ (d.status &&& ideStatusBsy = 0 ∧ d.status &&& ideStatusRdy ≠ 0) := by
          rw [status_busy busy]
          decide
        rw [if_neg waits]
        show (pollReady ioBase n).run (cable ioBase) (c.put (d.polled 1)) = _
        rw [ih selected_put, put_put, polled_polled, Nat.add_comm 1 n]
        have fewer : (d.polled 1).busy < n ↔ d.busy < n + 1 := by
          show d.busy - 1 < n ↔ _
          omega
        rw [if_congr fewer rfl rfl]

/-- Nobody answers for a drive that is not there. -/
theorem run_pollReady_none (none : c.selected = none) (n : Nat) :
    (pollReady ioBase n).run (cable ioBase) c = (-1, c) := by
  induction n with
  | zero => rfl
  | succ n ih =>
      have silent : c.poll = (0, c) := by rw [Cable.poll, none]
      simp only [pollReady, Prog.run_bind, run_poll, silent]
      rw [if_neg (by decide)]
      exact ih

/-- **Waiting for data.** -/
theorem run_pollDrq (here : c.selected = some d) (working : d.phase ≠ .idle) (n : Nat) :
    (pollDrq ioBase n).run (cable ioBase) c =
      (if d.busy < n ∧ d.phase.data = true then 0 else -1, c.put (d.polled n)) := by
  induction n generalizing c d with
  | zero => exact Prod.ext rfl (put_same here).symm
  | succ n ih =>
      have polled := poll_some here
      simp only [pollDrq, Prog.run_bind, run_poll, polled]
      by_cases busy : d.busy = 0
      · have last : c.put { d with busy := d.busy - 1 } = c.put (d.polled (n + 1)) :=
          congrArg c.put ((polled_calm busy 1).trans (polled_calm busy (n + 1)).symm)
        by_cases data : d.phase.data = true
        · rw [status_data busy data, if_pos (by decide), if_pos ⟨by omega, data⟩]
          exact Prod.ext rfl last
        · have aborted : d.phase = .aborted := by
            cases same : d.phase with
            | idle => exact absurd same working
            | aborted => rfl
            | _ => exact absurd (by rw [same]; rfl) data
          rw [status_aborted busy aborted, if_neg (by decide), if_pos (by decide),
            if_neg fun both => data both.2]
          exact Prod.ext rfl last
      · rw [status_busy busy, if_neg (by decide), if_neg (by decide)]
        show (pollDrq ioBase n).run (cable ioBase) (c.put (d.polled 1)) = _
        have phase : (d.polled 1).phase = d.phase := rfl
        rw [ih selected_put (phase ▸ working), put_put, polled_polled, Nat.add_comm 1 n, phase]
        have fewer : (d.polled 1).busy < n ↔ d.busy < n + 1 := by
          show d.busy - 1 < n ↔ _
          omega
        rw [if_congr (and_congr_left fun _ => fewer) rfl rfl]

end Cables

end Kfs.Disk.Ata
