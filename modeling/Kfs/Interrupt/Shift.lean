/-
**The shift state: `keyboard.c`.**

Two keys drive `shift_pressed`: pressing either sets it, releasing either clears it. A desk is the keyboard
with the keys that are down, and each key alternates between press and release. The flag says whether a
shift key is down, and so which character a key gives, as long as no shift key is released while the other
is down: `shift_follows_iff`.
-/

import Kfs.Base.Trace
import Kfs.Interrupt.Keys

namespace Kfs.Interrupt

/-- The scancode of the left shift key. -/
def leftShift : Nat := 0x2A

/-- The scancode of the right shift key. -/
def rightShift : Nat := 0x36

/-- The keyboard driver, and the keys that are down. -/
structure Desk where
  keyboard : Keyboard
  down : Nat → Bool

namespace Desk

/-- No key is down after `keyboard_init`. -/
def start (k : Keyboard) : Desk := ⟨k.keyboardInit, fun _ => false⟩

/-- A shift key is down. -/
def shiftDown (d : Desk) : Bool := d.down leftShift || d.down rightShift

end Desk

/-- A key with a character in both maps of a layout. -/
def IsCharacterKey (layout : KeyboardLayout) (scancode : Nat) : Prop :=
  scancode < 0x80 ∧ ∀ shifted, lookupScancode (getScancodeMap layout shifted) scancode ≠ 0

/-- A key goes down or up, a code is taken, or the layout changes. A make code comes when the key is up, a
break code when it is down. -/
inductive DeskStep : Desk → KeyOp → Desk → Prop
  | press {d : Desk} {inb : Nat → UInt8} (make : (inb ps2DataPort).toNat < 0x80)
      (up : d.down (inb ps2DataPort).toNat = false) :
      DeskStep d (.interrupt inb)
        ⟨d.keyboard.keyboardInterruptHandler inb, Function.update d.down (inb ps2DataPort).toNat true⟩
  | release {d : Desk} {inb : Nat → UInt8} (break' : 0x80 ≤ (inb ps2DataPort).toNat)
      (held : d.down ((inb ps2DataPort).toNat - 0x80) = true) :
      DeskStep d (.interrupt inb)
        ⟨d.keyboard.keyboardInterruptHandler inb,
          Function.update d.down ((inb ps2DataPort).toNat - 0x80) false⟩
  | getchar {d : Desk} : DeskStep d .getchar ⟨d.keyboard.keyboardGetchar.1, d.down⟩
  | setLayout {d : Desk} (layout : KeyboardLayout) :
      DeskStep d (.setLayout layout) ⟨d.keyboard.keyboardSetLayout layout, d.down⟩

/-- **The shift state follows the keys**: the flag says whether a shift key is down, and a character key
gives the shifted character of the current layout exactly then. -/
structure FollowsKeys (d : Desk) : Prop where
  flag : d.keyboard.shiftPressed = true ↔ d.down leftShift = true ∨ d.down rightShift = true
  types : ∀ inb, IsCharacterKey d.keyboard.currentLayout (inb ps2DataPort).toNat →
    d.keyboard.keyCode inb =
      some (lookupScancode (getScancodeMap d.keyboard.currentLayout d.shiftDown) (inb ps2DataPort).toNat)

/-- No shift key is released while the other is down. -/
def OneShift (d : Desk) : KeyOp → Prop
  | .interrupt inb =>
      ((inb ps2DataPort).toNat = 0x80 + leftShift → d.down rightShift = false) ∧
        ((inb ps2DataPort).toNat = 0x80 + rightShift → d.down leftShift = false)
  | _ => True

section Shift

variable {d e : Desk} {k : Keyboard} {inb : Nat → UInt8} {layout : KeyboardLayout} {op : KeyOp} {c : Nat}

open Keyboard

theorem Keyboard.bufferPut_shift (k : Keyboard) (c : Nat) :
    (k.bufferPut c).shiftPressed = k.shiftPressed := by
  unfold bufferPut
  split <;> rfl

/-- What the handler does to the flag. -/
theorem Keyboard.handler_shift (inb : Nat → UInt8) (k : Keyboard) :
    (k.keyboardInterruptHandler inb).shiftPressed =
      if (inb ps2DataPort).toNat = leftShift ∨ (inb ps2DataPort).toNat = rightShift then true
      else if (inb ps2DataPort).toNat = 0x80 + leftShift ∨ (inb ps2DataPort).toNat = 0x80 + rightShift then false
      else k.shiftPressed := by
  unfold keyboardInterruptHandler leftShift rightShift
  generalize (inb ps2DataPort).toNat = scancode
  dsimp only
  by_cases released : 0x80 ≤ scancode
  · have noMake : ¬ (scancode = 0x2A ∨ scancode = 0x36) := by omega
    rw [if_pos released]
    by_cases shift : scancode - 0x80 = 0x2A ∨ scancode - 0x80 = 0x36
    · have byte : scancode = 0x80 + 0x2A ∨ scancode = 0x80 + 0x36 := by omega
      rw [if_pos shift, if_neg noMake, if_pos byte]
    · have byte : ¬ (scancode = 0x80 + 0x2A ∨ scancode = 0x80 + 0x36) := by omega
      rw [if_neg shift, if_neg noMake, if_neg byte]
      split
      · rfl
      · split <;> rfl
  · have noBreak : ¬ (scancode = 0x80 + 0x2A ∨ scancode = 0x80 + 0x36) := by omega
    rw [if_neg released]
    by_cases shift : scancode = 0x2A ∨ scancode = 0x36
    · rw [if_pos shift, if_pos shift]
    · rw [if_neg shift, if_neg shift, if_neg noBreak]
      split
      · rfl
      · split
        · rfl
        · split
          · exact bufferPut_shift _ _
          · split
            · exact bufferPut_shift _ _
            · rfl

/-- The modifier keys and the function keys have no character. -/
theorem IsCharacterKey.plain (character : IsCharacterKey layout c) :
    isModifier c = false ∧ ¬ (0x3B ≤ c ∧ c ≤ 0x44) := by
  have none : ∀ layout, ∀ c < 0x80, isModifier c = true ∨ (0x3B ≤ c ∧ c ≤ 0x44) →
      lookupScancode (getScancodeMap layout false) c = 0 := by
    intro layout
    cases layout <;> decide +kernel
  refine ⟨?_, fun function => character.2 false (none layout c character.1 (.inr function))⟩
  by_contra modifier
  exact character.2 false (none layout c character.1 (.inl (by simpa using modifier)))

/-- A character key gives the character of the map that the flag selects. -/
theorem Keyboard.keyCode_character (character : IsCharacterKey k.currentLayout (inb ps2DataPort).toNat) :
    k.keyCode inb =
      some (lookupScancode (getScancodeMap k.currentLayout k.shiftPressed) (inb ps2DataPort).toNat) := by
  obtain ⟨plain, noFunction⟩ := character.plain
  have made := character.1
  unfold keyCode
  simp only
  rw [if_neg (by simp [plain, made]), if_neg (fun both => noFunction both.2),
    if_pos (character.2 k.shiftPressed)]

/-- The flag decides the characters. -/
theorem follows_iff_flag (k : Keyboard) (down : Nat → Bool) :
    FollowsKeys ⟨k, down⟩ ↔ (k.shiftPressed = true ↔ down leftShift = true ∨ down rightShift = true) := by
  refine ⟨FollowsKeys.flag, fun flag => ⟨flag, fun inb character => ?_⟩⟩
  have same : k.shiftPressed = Desk.shiftDown ⟨k, down⟩ := by
    rw [Bool.eq_iff_iff, flag, Desk.shiftDown, Bool.or_eq_true]
  rw [keyCode_character character, same]

theorem FollowsKeys.start (k : Keyboard) : FollowsKeys (.start k) :=
  (follows_iff_flag _ _).mpr (by simp [keyboardInit])

theorem shifts_differ : leftShift ≠ rightShift := by decide

/-- A key is the left shift key, the right one or another. -/
theorem shift_key_cases (n : Nat) : n = leftShift ∨ n = rightShift ∨ (n ≠ leftShift ∧ n ≠ rightShift) := by
  omega

theorem handler_pressed (make : (inb ps2DataPort).toNat = leftShift ∨ (inb ps2DataPort).toNat = rightShift) :
    (k.keyboardInterruptHandler inb).shiftPressed = true := by
  rw [handler_shift, if_pos make]

theorem handler_released
    (break' : (inb ps2DataPort).toNat = 0x80 + leftShift ∨ (inb ps2DataPort).toNat = 0x80 + rightShift) :
    (k.keyboardInterruptHandler inb).shiftPressed = false := by
  have noMake : ¬ ((inb ps2DataPort).toNat = leftShift ∨ (inb ps2DataPort).toNat = rightShift) := by
    unfold leftShift rightShift at *
    omega
  rw [handler_shift, if_neg noMake, if_pos break']

theorem handler_other (noMake : ¬ ((inb ps2DataPort).toNat = leftShift ∨ (inb ps2DataPort).toNat = rightShift))
    (noBreak : ¬ ((inb ps2DataPort).toNat = 0x80 + leftShift ∨
      (inb ps2DataPort).toNat = 0x80 + rightShift)) :
    (k.keyboardInterruptHandler inb).shiftPressed = k.shiftPressed := by
  rw [handler_shift, if_neg noMake, if_neg noBreak]

/-- A make code: the flag is right afterwards, whatever the key. -/
theorem follows_press (here : FollowsKeys d) (make : (inb ps2DataPort).toNat < 0x80) :
    FollowsKeys ⟨d.keyboard.keyboardInterruptHandler inb,
      Function.update d.down (inb ps2DataPort).toNat true⟩ := by
  rw [follows_iff_flag]
  rcases shift_key_cases (inb ps2DataPort).toNat with left | right | ⟨noLeft, noRight⟩
  · rw [handler_pressed (.inl left), left, Function.update_self]
    exact iff_of_true rfl (.inl rfl)
  · rw [handler_pressed (.inr right), right, Function.update_self]
    exact iff_of_true rfl (.inr rfl)
  · rw [handler_other (not_or.mpr ⟨noLeft, noRight⟩) (by omega), Function.update_of_ne noLeft.symm,
      Function.update_of_ne noRight.symm]
    exact here.flag

/-- A break code: the flag is right exactly when the other shift key is up. -/
theorem follows_release (here : FollowsKeys d) (break' : 0x80 ≤ (inb ps2DataPort).toNat) :
    FollowsKeys ⟨d.keyboard.keyboardInterruptHandler inb,
      Function.update d.down ((inb ps2DataPort).toNat - 0x80) false⟩ ↔ OneShift d (.interrupt inb) := by
  rw [follows_iff_flag]
  rcases shift_key_cases ((inb ps2DataPort).toNat - 0x80) with left | right | ⟨noLeft, noRight⟩
  · have byte : (inb ps2DataPort).toNat = 0x80 + leftShift := by omega
    rw [handler_released (.inl byte), left, Function.update_self, Function.update_of_ne shifts_differ.symm]
    simp [OneShift, byte, shifts_differ]
  · have byte : (inb ps2DataPort).toNat = 0x80 + rightShift := by omega
    rw [handler_released (.inr byte), right, Function.update_self, Function.update_of_ne shifts_differ]
    simp [OneShift, byte, shifts_differ.symm]
  · have noMake : ¬ ((inb ps2DataPort).toNat = leftShift ∨ (inb ps2DataPort).toNat = rightShift) := by
      unfold leftShift rightShift
      omega
    rw [handler_other noMake (by omega), Function.update_of_ne noLeft.symm, Function.update_of_ne noRight.symm]
    exact iff_of_true here.flag ⟨by omega, by omega⟩

/-- **One step from a state that follows the keys.** -/
theorem DeskStep.follows_iff (step : DeskStep d op e) (here : FollowsKeys d) :
    FollowsKeys e ↔ OneShift d op := by
  cases step with
  | press make up =>
      refine iff_of_true (follows_press here make) ⟨fun same => ?_, fun same => ?_⟩
      · omega
      · omega
  | release break' held => exact follows_release here break'
  | getchar =>
      refine iff_of_true ((follows_iff_flag _ _).mpr ?_) trivial
      have same : d.keyboard.keyboardGetchar.1.shiftPressed = d.keyboard.shiftPressed := by
        unfold keyboardGetchar bufferGet
        split <;> rfl
      rw [same]
      exact here.flag
  | setLayout layout => exact iff_of_true ((follows_iff_flag _ _).mpr here.flag) trivial

end Shift

/-- **Exactly when the shift state follows the keys**: the runs from `keyboard_init` in which it does after
every event are those in which no shift key is released while the other is down. -/
theorem shift_follows_iff (k : Keyboard) (ops : List KeyOp) (d : Desk) :
    Run (fun x op y => DeskStep x op y ∧ FollowsKeys y) (.start k) ops d ↔
      Run (Guarded OneShift DeskStep) (.start k) ops d :=
  Run.good_iff (fun _ => True) FollowsKeys (fun _ _ _ _ _ _ => trivial)
    (fun _ _ _ _ here step => step.follows_iff here) trivial (.start k)

/-- A byte at the data port. -/
def portByte (byte : UInt8) : Nat → UInt8 := fun _ => byte

/-- A keyboard as it is switched on. -/
def coldKeyboard : Keyboard := ⟨false, false, false, .qwerty, fun _ => 0, 0, 0⟩

/-- **The other shift key**: left down, right down, left up. The right one is still down, and the letter
key 0x1E gives `a`. -/
theorem shift_lost : ∃ d, Run DeskStep (.start coldKeyboard)
      [.interrupt (portByte 0x2A), .interrupt (portByte 0x36), .interrupt (portByte 0xAA)] d ∧
    d.down rightShift = true ∧ d.keyboard.shiftPressed = false ∧
    d.keyboard.keyCode (portByte 0x1E) = some 'a'.toNat ∧ ¬ FollowsKeys d := by
  refine ⟨_, .cons (.press (by decide) (by decide)) (.cons (.press (by decide) (by decide))
    (.cons (.release (by decide) (by decide)) (.nil _))), by decide, by decide, by decide +kernel, fun follows => ?_⟩
  exact absurd (follows.flag.mpr (.inr (by decide))) (by decide)

end Kfs.Interrupt
