/-
**The keyboard ring as a queue: `keyboard.c`.**

The handler stores key codes, `keyboard_getchar` takes them, and the two share only the two positions of
the ring. In every interleaving the codes taken are the codes stored, in order and each once, and a code
is lost only while 255 are pending: `keyboard_fifo`.
-/

import Kfs.Base.Ring
import Kfs.Interrupt.Devices

namespace Kfs.Interrupt

namespace Keyboard

/-- `buffer_is_empty`. -/
def bufferIsEmpty (k : Keyboard) : Bool := k.bufferReadPos = k.bufferWritePos

/-- `buffer_get`. -/
def bufferGet (k : Keyboard) : Keyboard × Nat :=
  if k.bufferIsEmpty then (k, 0)
  else
    ({ k with bufferReadPos := (k.bufferReadPos + 1) % keyboardBufferSize }, k.keyboardBuffer k.bufferReadPos)

/-- `keyboard_init`. -/
def keyboardInit (k : Keyboard) : Keyboard :=
  { k with
    shiftPressed := false
    ctrlPressed := false
    altPressed := false
    currentLayout := .qwerty
    bufferReadPos := 0
    bufferWritePos := 0 }

/-- `keyboard_haskey`. -/
def keyboardHaskey (k : Keyboard) : Bool := !k.bufferIsEmpty

/-- `keyboard_getchar`. -/
def keyboardGetchar (k : Keyboard) : Keyboard × Nat := k.bufferGet

/-- `keyboard_set_layout`. -/
def keyboardSetLayout (k : Keyboard) (layout : KeyboardLayout) : Keyboard := { k with currentLayout := layout }

/-- The scancodes of the shift, control and alt keys. -/
def isModifier (scancode : Nat) : Bool :=
  scancode = 0x2A ∨ scancode = 0x36 ∨ scancode = 0x1D ∨ scancode = 0x38

/-- The key code a call of the handler produces: that of a key pressed which is not a modifier and has
one. -/
def keyCode (inb : Nat → UInt8) (k : Keyboard) : Option Nat :=
  let scancode := (inb ps2DataPort).toNat
  if 0x80 ≤ scancode ∨ isModifier scancode then none
  else if k.altPressed ∧ 0x3B ≤ scancode ∧ scancode ≤ 0x44 then some (keyF1 + (scancode - 0x3B))
  else
    let ascii := lookupScancode (getScancodeMap k.currentLayout k.shiftPressed) scancode
    if ascii ≠ 0 then some ascii else none

/-- The ring of a keyboard holds these codes. -/
def Holds (k : Keyboard) (pending : List Nat) : Prop :=
  RingQueue k.keyboardBuffer keyboardBufferSize k.bufferReadPos k.bufferWritePos pending

end Keyboard

/-! ### Histories -/

/-- What happens to the keyboard. -/
inductive KeyOp where
  | interrupt (inb : Nat → UInt8)
  | getchar
  | setLayout (layout : KeyboardLayout)

/-- What it shows: a code the handler produced, or the answer of `keyboard_getchar`. -/
inductive KeyEvent where
  | key (code : Nat)
  | got (code : Nat)
  deriving DecidableEq, Repr

/-- One call. -/
def KeyOp.exec (k : Keyboard) : KeyOp → Keyboard × List KeyEvent
  | .interrupt inb => (k.keyboardInterruptHandler inb, ((k.keyCode inb).map KeyEvent.key).toList)
  | .getchar => (k.keyboardGetchar.1, [.got k.keyboardGetchar.2])
  | .setLayout layout => (k.keyboardSetLayout layout, [])

/-- One call after the other. -/
def runKeys (k : Keyboard) : List KeyOp → Keyboard × List KeyEvent
  | [] => (k, [])
  | op :: ops =>
      let (k, events) := op.exec k
      let (k, later) := runKeys k ops
      (k, events ++ later)

/-- The codes that `keyboard_getchar` returned, without the zeros. -/
def returned : List KeyEvent → List Nat
  | [] => []
  | .key _ :: events => returned events
  | .got c :: events => if c = 0 then returned events else c :: returned events

/-- The codes produced while fewer than 255 are pending, when `count` are pending at first. -/
def keptFrom : (count : Nat) → List KeyEvent → List Nat
  | _, [] => []
  | count, .key c :: events => if count = 255 then keptFrom count events else c :: keptFrom (count + 1) events
  | count, .got c :: events => if c = 0 then keptFrom count events else keptFrom (count - 1) events

/-- The codes kept since `keyboard_init`. -/
def kept (events : List KeyEvent) : List Nat := keptFrom 0 events

/-- Those not yet returned. -/
def pending (events : List KeyEvent) : List Nat := (kept events).drop (returned events).length

/-- **A bounded queue**: what was returned is what was kept, in order; the ring holds the rest. -/
structure KeyFifo (k : Keyboard) (events : List KeyEvent) : Prop where
  order : kept events = returned events ++ pending events
  bound : (pending events).length ≤ 255
  getchar : k.keyboardGetchar.2 = (pending events).headD 0
  null : k.keyboardGetchar.2 = 0 ↔ pending events = []
  haskey : k.keyboardHaskey = true ↔ pending events ≠ []
  readPos : k.bufferReadPos < 256
  writePos : k.bufferWritePos < 256

section Fifo

variable {k : Keyboard} {codes : List Nat} {inb : Nat → UInt8} {c : Nat}

open Keyboard

theorem Keyboard.keyCode_ne_zero (produced : k.keyCode inb = some c) : c ≠ 0 := by
  unfold keyCode at produced
  simp only at produced
  split at produced
  · cases produced
  · split at produced
    · cases produced
      unfold keyF1
      omega
    · split at produced
      · rename_i visible
        cases produced
        exact visible
      · cases produced

/-- **The handler** records the modifiers and puts the key code it produces. -/
theorem Keyboard.handler_cases (k : Keyboard) (inb : Nat → UInt8) :
    (∃ c, k.keyCode inb = some c ∧ k.keyboardInterruptHandler inb = k.bufferPut c) ∨
      k.keyCode inb = none ∧ ∃ shift ctrl alt, k.keyboardInterruptHandler inb =
        { k with shiftPressed := shift, ctrlPressed := ctrl, altPressed := alt } := by
  unfold keyCode keyboardInterruptHandler isModifier
  simp only
  generalize (inb ps2DataPort).toNat = scancode
  by_cases released : 0x80 ≤ scancode
  · refine .inr ⟨if_pos (.inl released), ?_⟩
    rw [if_pos released]
    split
    · exact ⟨false, k.ctrlPressed, k.altPressed, rfl⟩
    · split
      · exact ⟨k.shiftPressed, false, k.altPressed, rfl⟩
      · split
        · exact ⟨k.shiftPressed, k.ctrlPressed, false, rfl⟩
        · exact ⟨_, _, _, rfl⟩
  · rw [if_neg released]
    by_cases shift : scancode = 0x2A ∨ scancode = 0x36
    · exact .inr ⟨if_pos (.inr (by simp; omega)), true, _, _, if_pos shift⟩
    · rw [if_neg shift]
      by_cases ctrl : scancode = 0x1D
      · exact .inr ⟨if_pos (.inr (by simp [ctrl])), _, true, _, if_pos ctrl⟩
      · rw [if_neg ctrl]
        by_cases alt : scancode = 0x38
        · exact .inr ⟨if_pos (.inr (by simp [alt])), _, _, true, if_pos alt⟩
        · have plain : ¬ (0x80 ≤ scancode ∨ decide (scancode = 0x2A ∨ scancode = 0x36 ∨ scancode = 0x1D ∨
              scancode = 0x38) = true) := by
            rw [decide_eq_true_iff]
            omega
          rw [if_neg alt, if_neg plain]
          split
          · exact .inl ⟨_, rfl, rfl⟩
          · split
            · exact .inl ⟨_, rfl, rfl⟩
            · exact .inr ⟨rfl, _, _, _, rfl⟩

theorem Keyboard.Holds.init (k : Keyboard) : k.keyboardInit.Holds [] :=
  RingQueue.nil (show 0 < keyboardBufferSize by decide)

/-- **Putting a code**: it is lost while 255 are pending. -/
theorem Keyboard.Holds.put (holds : k.Holds codes) (c : Nat) :
    (k.bufferPut c).Holds (if codes.length = 255 then codes else codes ++ [c]) := by
  have full := holds.full_iff
  have room := holds.room
  unfold keyboardBufferSize at room
  unfold bufferPut bufferIsFull
  by_cases level : codes.length = 255
  · have filled : (k.bufferWritePos + 1) % keyboardBufferSize = k.bufferReadPos :=
      full.mpr (by rw [level]; rfl)
    rw [if_pos level, if_pos (by simpa using filled)]
    exact holds
  · have open' : ¬ (k.bufferWritePos + 1) % keyboardBufferSize = k.bufferReadPos := fun filled => by
      have := full.mp filled
      unfold keyboardBufferSize at this
      omega
    rw [if_neg level, if_neg (by simpa using open')]
    exact holds.push (by unfold keyboardBufferSize; omega) c

theorem Keyboard.Holds.haskey (holds : k.Holds codes) : k.keyboardHaskey = true ↔ codes ≠ [] := by
  have empty := holds.empty_iff
  unfold keyboardHaskey bufferIsEmpty
  rw [Bool.not_eq_true', decide_eq_false_iff_not, not_congr empty]

/-- **Taking a code**: the first one, or 0 from an empty ring. -/
theorem Keyboard.Holds.get (holds : k.Holds codes) :
    k.keyboardGetchar.2 = codes.headD 0 ∧ k.keyboardGetchar.1.Holds codes.tail := by
  have empty := holds.empty_iff
  unfold keyboardGetchar bufferGet bufferIsEmpty
  cases codes with
  | nil =>
      rw [if_pos (by simpa using empty.mpr rfl)]
      exact ⟨rfl, holds⟩
  | cons c codes =>
      rw [if_neg (by simpa using fun same => absurd (empty.mp same) (List.cons_ne_nil _ _))]
      exact holds.pop

/-- **A run of the keyboard is a run of the queue.** -/
theorem runKeys_holds {ops : List KeyOp} (holds : k.Holds codes) (clean : 0 ∉ codes) :
    ∃ left, (runKeys k ops).1.Holds left ∧ 0 ∉ left ∧
      codes ++ keptFrom codes.length (runKeys k ops).2 = returned (runKeys k ops).2 ++ left := by
  induction ops generalizing k codes with
  | nil => exact ⟨codes, holds, clean, by simp [runKeys, keptFrom, returned]⟩
  | cons op ops ih =>
      cases op with
      | setLayout layout => exact @ih (k.keyboardSetLayout layout) codes holds clean
      | interrupt inb =>
          rcases k.handler_cases inb with ⟨c, produced, put⟩ | ⟨nothing, shift, ctrl, alt, same⟩
          · have after := holds.put c
            have visible := keyCode_ne_zero produced
            simp only [runKeys, KeyOp.exec, produced, put, Option.map_some, Option.toList_some,
              List.singleton_append, keptFrom, returned]
            by_cases level : codes.length = 255
            · rw [if_pos level] at after ⊢
              exact ih after clean
            · rw [if_neg level] at after ⊢
              obtain ⟨left, last, rest, equal⟩ := ih after (by simpa using ⟨clean, visible.symm⟩)
              refine ⟨left, last, rest, ?_⟩
              rw [← equal, List.length_append, List.append_assoc]
              rfl
          · have after : (k.keyboardInterruptHandler inb).Holds codes := by
              rw [same]
              exact holds
            simp only [runKeys, KeyOp.exec, nothing, Option.map_none, Option.toList_none, List.nil_append]
            exact ih after clean
      | getchar =>
          obtain ⟨answer, after⟩ := holds.get
          simp only [runKeys, KeyOp.exec, answer, List.singleton_append, keptFrom, returned]
          cases codes with
          | nil =>
              rw [List.headD_nil, if_pos rfl, if_pos rfl]
              exact ih after clean
          | cons c codes =>
              have visible : c ≠ 0 := fun zero => clean (by simp [zero])
              have ⟨left, last, rest, equal⟩ := ih after fun member => clean (List.mem_cons_of_mem _ member)
              refine ⟨left, last, rest, ?_⟩
              rw [List.headD_cons, if_neg visible, if_neg visible, List.length_cons, Nat.add_sub_cancel,
                List.cons_append, List.cons_append, ← equal]
              rfl

/-- **The keyboard ring is a bounded queue**, from `keyboard_init` on, in whatever order interrupts and
readers come. -/
theorem keyboard_fifo (k : Keyboard) (ops : List KeyOp) :
    KeyFifo (runKeys k.keyboardInit ops).1 (runKeys k.keyboardInit ops).2 := by
  obtain ⟨left, holds, clean, equal⟩ := @runKeys_holds _ [] ops (Holds.init k) List.not_mem_nil
  generalize (runKeys k.keyboardInit ops).1 = last at holds ⊢
  generalize (runKeys k.keyboardInit ops).2 = events at equal ⊢
  have order : kept events = returned events ++ left := equal
  have rest : pending events = left := by
    rw [pending, order, List.drop_left]
  have room := holds.room
  unfold keyboardBufferSize at room
  refine ⟨by rw [rest, order], by rw [rest]; omega, by rw [rest, holds.get.1], ?_, by rw [rest, holds.haskey],
    holds.inside, holds.tail_lt⟩
  rw [rest, holds.get.1]
  cases left with
  | nil => simp
  | cons c left =>
      have visible : c ≠ 0 := fun zero => clean (by simp [zero])
      simp [visible]

end Fifo

end Kfs.Interrupt
