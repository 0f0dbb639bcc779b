/-
**The keyboard and the mouse: `keyboard.c`, `mouse.c`.**

The parts that run inside an interrupt. `inb` is what the ports return during it. The keyboard handler
turns a scancode into a character of the current layout and puts it into a ring of 256 cells; one cell
stays free, so that equal positions mean an empty ring. The mouse handler collects packets of four bytes;
it leaves at once when the status byte does not announce mouse data. What it hands to
`scrollback_scroll` is reported.
-/

import Mathlib.Tactic

namespace Kfs.Interrupt

/-! ### The keyboard -/

/-- `KEYBOARD_DATA_PORT`, which is also `PS2_DATA_PORT`. -/
def ps2DataPort : Nat := 0x60

/-- `PS2_STATUS_PORT`. -/
def ps2StatusPort : Nat := 0x64

/-- `KEYBOARD_BUFFER_SIZE`. -/
def keyboardBufferSize : Nat := 256

/-- `KEY_F1`. -/
def keyF1 : Nat := 0x80

/-- `keyboard_layout_t`. -/
inductive KeyboardLayout where
  | qwerty
  | azerty
  | qwertz
  deriving DecidableEq, Repr

/-- The entries of every map behind the space key. -/
def keypad : String :=
  "\x00\x00\x00\x00\x00\x00\x00\x00\x00\x00\x00\x00\x00\x00\x00\x00-\x00\x00\x00+"

/-- `scancode_to_ascii_qwerty`. -/
def scancodeToAsciiQwerty : String :=
  "\x00\x1b1234567890-=\x08\tqwertyuiop[]\n\x00asdfghjkl;'`\x00\\zxcvbnm,./\x00*\x00 "

/-- `scancode_to_ascii_qwerty_shift`. -/
def scancodeToAsciiQwertyShift : String :=
  "\x00\x1b!@#$%^&*()_+\x08\tQWERTYUIOP\x7b\x7d\n\x00ASDFGHJKL:\"~\x00|ZXCVBNM<>?\x00*\x00 "

/-- `scancode_to_ascii_azerty`. -/
def scancodeToAsciiAzerty : String :=
  "\x00\x1b&e\"'(-e_ca)=\x08\tazertyuiop^$\n\x00qsdfghjklmu`\x00*wxcvbn,;:!\x00*\x00 "

/-- `scancode_to_ascii_azerty_shift`. -/
def scancodeToAsciiAzertyShift : String :=
  "\x00\x1b1234567890o+\x08\tAZERTYUIOP\"L\n\x00QSDFGHJKLM%P\x00uWXCVBN?./S\x00*\x00 "

/-- `scancode_to_ascii_qwertz`. -/
def scancodeToAsciiQwertz : String :=
  "\x00\x1b1234567890s'\x08\tqwertzuiopu+\n\x00asdfghjkloa^\x00#yxcvbnm,.-\x00*\x00 "

/-- `scancode_to_ascii_qwertz_shift`. -/
def scancodeToAsciiQwertzShift : String :=
  "\x00\x1b!\"P$%&/()=?`\x08\tQWERTZUIOPU*\n\x00ASDFGHJKLOAo\x00'YXCVBNM;:_\x00*\x00 "

/-- `get_scancode_map`. -/
def getScancodeMap (layout : KeyboardLayout) (shifted : Bool) : String :=
  match layout with
  | .azerty => if shifted then scancodeToAsciiAzertyShift else scancodeToAsciiAzerty
  | .qwertz => if shifted then scancodeToAsciiQwertzShift else scancodeToAsciiQwertz
  | .qwerty => if shifted then scancodeToAsciiQwertyShift else scancodeToAsciiQwerty

/-- `map[scancode]`; the entries that are not written out are 0. -/
def lookupScancode (map : String) (scancode : Nat) : Nat :=
  ((map ++ keypad).toList[scancode]?).elim 0 Char.toNat

/-- The static variables of `keyboard.c`. -/
structure Keyboard where
  shiftPressed : Bool
  ctrlPressed : Bool
  altPressed : Bool
  currentLayout : KeyboardLayout
  keyboardBuffer : Nat → Nat
  bufferReadPos : Nat
  bufferWritePos : Nat

namespace Keyboard

/-- `buffer_is_full`. -/
def bufferIsFull (k : Keyboard) : Bool := (k.bufferWritePos + 1) % keyboardBufferSize = k.bufferReadPos

/-- `buffer_put`. -/
def bufferPut (k : Keyboard) (c : Nat) : Keyboard :=
  if k.bufferIsFull then k
  else
    { k with
      keyboardBuffer := Function.update k.keyboardBuffer k.bufferWritePos c
      bufferWritePos := (k.bufferWritePos + 1) % keyboardBufferSize }

/-- `keyboard_interrupt_handler`. -/
def keyboardInterruptHandler (inb : Nat → UInt8) (k : Keyboard) : Keyboard :=
  let scancode := (inb ps2DataPort).toNat
  if 0x80 ≤ scancode then
    let scancode := scancode - 0x80
    if scancode = 0x2A ∨ scancode = 0x36 then { k with shiftPressed := false }
    else if scancode = 0x1D then { k with ctrlPressed := false }
    else if scancode = 0x38 then { k with altPressed := false }
    else k
  else if scancode = 0x2A ∨ scancode = 0x36 then { k with shiftPressed := true }
  else if scancode = 0x1D then { k with ctrlPressed := true }
  else if scancode = 0x38 then { k with altPressed := true }
  else if k.altPressed ∧ 0x3B ≤ scancode ∧ scancode ≤ 0x44 then k.bufferPut (keyF1 + (scancode - 0x3B))
  else
    let ascii := lookupScancode (getScancodeMap k.currentLayout k.shiftPressed) scancode
    if ascii ≠ 0 then k.bufferPut ascii else k

end Keyboard

/-! ### The mouse -/

/-- `mouse_cycle` and `mouse_byte`. -/
structure Mouse where
  mouseCycle : Nat
  mouseByte : Nat → UInt8

namespace Mouse

/-- A byte of the packet, and the number of the next one. -/
def take (mouse : Mouse) (data : UInt8) (cycle : Nat) : Mouse :=
  ⟨cycle, Function.update mouse.mouseByte mouse.mouseCycle data⟩

/-- `(int8_t)data`. -/
def toInt8 (data : UInt8) : Int := if data.toNat < 2 ^ 7 then data.toNat else (data.toNat : Int) - 2 ^ 8

/-- `mouse_handler`, with what it hands to `scrollback_scroll`. -/
def mouseHandler (inb : Nat → UInt8) (mouse : Mouse) : Mouse × Option Int :=
  let status := inb ps2StatusPort
  if status.toNat.testBit 5 = false then (mouse, none)
  else
    let data := inb ps2DataPort
    match mouse.mouseCycle with
    | 0 => (mouse.take data (if data.toNat.testBit 3 then 1 else 0), none)
    | 1 => (mouse.take data 2, none)
    | 2 => (mouse.take data 3, none)
    | 3 => (mouse.take data 0, if toInt8 data ≠ 0 then some (-toInt8 data) else none)
    | _ => (mouse, none)

end Mouse

end Kfs.Interrupt
