/-
**The two line editors: `shell_handle_input` and `keyboard_getline`.**

Both collect a line in an array of 256 cells, one call for each key and one loop. The shell ends its line
after every key, `keyboard_getline` only at Enter. What they show on the screen is left out. For any keys
both give the lines of the reference editor, and no store falls outside an array: `editors_agree`.
-/

import Kfs.Base.Text

namespace Kfs.Shell

/-- `SHELL_BUFFER_SIZE`. -/
def shellBufferSize : Nat := 256

/-- `KEY_BACKSPACE`, which is `'\b'`. -/
def keyBackspace : Int := 0x08

/-- `'\n'`. -/
def newline : Int := 0x0A

/-- `'\r'`. -/
def carriageReturn : Int := 0x0D

/-- The code of the delete key. -/
def keyDelete : Int := 0x7F

/-- `(char)c`. -/
def toChar (c : Int) : Char := Char.ofNat c.toNat

/-- The buffer of the shell and its position. -/
structure ShellInput where
  shellBuffer : Nat → Char
  shellBufferPos : Nat

/-- `shell_handle_input`, with the line passed to `shell_process_command` if any. It is `none` when a store
falls outside the buffer. -/
def shellHandleInput (s : ShellInput) (c : Int) : Option (ShellInput × Option (List Char)) :=
  if c = keyBackspace then
    if s.shellBufferPos > 0 then do
      let buffer ← storeCell shellBufferSize s.shellBuffer (s.shellBufferPos - 1) nul
      return (⟨buffer, s.shellBufferPos - 1⟩, none)
    else some (s, none)
  else if c = newline then do
    let buffer ← storeCell shellBufferSize s.shellBuffer s.shellBufferPos nul
    let line := readString nul buffer shellBufferSize 0
    let buffer ← storeCell shellBufferSize buffer 0 nul
    return (⟨buffer, 0⟩, some line)
  else if 32 ≤ c ∧ c ≤ 126 ∧ s.shellBufferPos < shellBufferSize - 1 then do
    let buffer ← storeCell shellBufferSize s.shellBuffer s.shellBufferPos (toChar c)
    let buffer ← storeCell shellBufferSize buffer (s.shellBufferPos + 1) nul
    return (⟨buffer, s.shellBufferPos + 1⟩, none)
  else some (s, none)

/-- What a call of `keyboard_getline` comes to with the keys at hand: it returns a value, with the buffer and
the keys left, or it waits for more. -/
inductive GetLine where
  | returned (value : Int) (buffer : Nat → Char) (codes : List Int)
  | waiting

/-- The loop of `keyboard_getline`, on a buffer of `size` cells. -/
def getlineLoop (size : Nat) : (codes : List Int) → (buffer : Nat → Char) → (pos : Nat) → Option GetLine
  | [], _, _ => some .waiting
  | c :: codes, buffer, pos =>
      if c = newline ∨ c = carriageReturn then do
        let buffer ← storeCell size buffer pos nul
        return .returned pos buffer codes
      else if c = keyBackspace ∨ c = keyDelete then
        getlineLoop size codes buffer (if pos > 0 then pos - 1 else pos)
      else if 32 ≤ c ∧ c < 127 then
        if pos < size - 1 then do
          let buffer ← storeCell size buffer pos (toChar c)
          getlineLoop size codes buffer (pos + 1)
        else getlineLoop size codes buffer pos
      else getlineLoop size codes buffer pos

/-- `keyboard_getline` into a buffer that has `max_len` cells. -/
def keyboardGetline (buffer : Nat → Char) (maxLen : Int) (codes : List Int) : Option GetLine :=
  if maxLen ≤ 0 then some (.returned (-1) buffer codes) else getlineLoop maxLen.toNat codes buffer 0

/-! ### Lines -/

/-- What a key does to a line of at most `limit` characters. -/
def editKey (limit : Nat) (line : List Char) (c : Int) : List Char :=
  if c = keyBackspace then line.dropLast
  else if 32 ≤ c ∧ c ≤ 126 ∧ line.length < limit then line ++ [toChar c]
  else line

/-- **The reference edit** of some keys. -/
def edit (limit : Nat) (codes : List Int) : List Char := codes.foldl (editKey limit) []

/-- The lines that keys spell when each Enter begins a new one. -/
def editLines (limit : Nat) : List Int → (line : List Char) → List (List Char)
  | [], _ => []
  | c :: codes, line =>
      if c = newline then line :: editLines limit codes [] else editLines limit codes (editKey limit line c)

/-- The lines that the shell passes on, key by key. -/
def shellLines (s : ShellInput) : List Int → Option (List (List Char))
  | [] => some []
  | c :: codes => do
      let (s, line) ← shellHandleInput s c
      let lines ← shellLines s codes
      return line.toList ++ lines

/-- The lines that calls of `keyboard_getline` store, one call after the other. -/
def getlineLines (buffer : Nat → Char) : (calls : Nat) → List Int → Option (List (List Char))
  | 0, _ => some []
  | calls + 1, codes => do
      match ← keyboardGetline buffer shellBufferSize codes with
      | .waiting => return []
      | .returned _ buffer codes => do
          let lines ← getlineLines buffer calls codes
          return readString nul buffer shellBufferSize 0 :: lines

section Editing

variable {limit : Nat} {line : List Char} {c : Int} {codes : List Int} {cells : Nat → Char} {pos : Nat}
  {s : ShellInput}

theorem toChar_ne_nul (low : 32 ≤ c) (high : c ≤ 126) : toChar c ≠ nul := by
  intro same
  have valid : c.toNat.isValidChar := .inl (by omega)
  have number : (toChar c).toNat = c.toNat := by
    rw [toChar, Char.ofNat, dif_pos valid]
    rfl
  rw [same] at number
  have zero : nul.toNat = 0 := rfl
  omega

theorem editKey_length (short : line.length ≤ limit) : (editKey limit line c).length ≤ limit := by
  unfold editKey
  split
  · rw [List.length_dropLast]
    omega
  · split
    · rw [List.length_append, List.length_singleton]
      omega
    · exact short

theorem editKey_clean (clean : nul ∉ line) : nul ∉ editKey limit line c := by
  unfold editKey
  split
  · exact fun member => clean (List.dropLast_subset _ member)
  · split
    · rename_i printable
      have visible := toChar_ne_nul printable.1 printable.2.1
      simpa using ⟨clean, visible.symm⟩
    · exact clean

/-- **What a key does to a line that is held**: backspace takes the last character, a printable one goes
behind the line while there is room, and any other key does nothing. -/
theorem held_key (held : Held cells pos line) (limit : Nat) (c : Int) :
    (c = keyBackspace ∧ Held cells (pos - 1) (editKey limit line c)) ∨
      (c ≠ keyBackspace ∧ (32 ≤ c ∧ c ≤ 126 ∧ pos < limit) ∧
        Held (Function.update cells pos (toChar c)) (pos + 1) (editKey limit line c)) ∨
      (c ≠ keyBackspace ∧ ¬ (32 ≤ c ∧ c ≤ 126 ∧ pos < limit) ∧ Held cells pos (editKey limit line c)) := by
  rw [editKey, ← held.length]
  by_cases back : c = keyBackspace
  · rw [if_pos back]
    exact .inl ⟨back, held.erase⟩
  · rw [if_neg back]
    by_cases taken : 32 ≤ c ∧ c ≤ 126 ∧ pos < limit
    · rw [if_pos taken]
      exact .inr (.inl ⟨back, taken, held.push (toChar c)⟩)
    · rw [if_neg taken]
      exact .inr (.inr ⟨back, taken, held⟩)

/-- A buffer of 256 cells holds a line of the shell. -/
structure Editing (cells : Nat → Char) (pos : Nat) (line : List Char) : Prop where
  held : Held cells pos line
  short : line.length ≤ 255
  clean : nul ∉ line

theorem Editing.nil (cells : Nat → Char) : Editing cells 0 [] :=
  ⟨Held.nil cells, Nat.zero_le _, List.not_mem_nil⟩

/-- **A key other than Enter**: the shell edits its line and passes nothing on. -/
theorem Editing.shellKey (editing : Editing s.shellBuffer s.shellBufferPos line) (other : c ≠ newline) :
    ∃ s', shellHandleInput s c = some (s', none) ∧
      Editing s'.shellBuffer s'.shellBufferPos (editKey 255 line c) := by
  have shorter : (editKey 255 line c).length ≤ 255 := editKey_length editing.short
  have cleaner : nul ∉ editKey 255 line c := editKey_clean editing.clean
  have length := editing.held.length
  have short := editing.short
  rcases held_key editing.held (shellBufferSize - 1) c with
    ⟨back, after⟩ | ⟨char, room, after⟩ | ⟨char, full, after⟩
  · rw [shellHandleInput, if_pos back]
    by_cases some : s.shellBufferPos > 0
    · rw [if_pos some, storeCell_of_lt (by unfold shellBufferSize; omega)]
      exact ⟨_, rfl, after.update le_rfl nul, shorter, cleaner⟩
    · have start : s.shellBufferPos - 1 = s.shellBufferPos := by omega
      rw [start] at after
      rw [if_neg some]
      exact ⟨s, rfl, after, shorter, cleaner⟩
  · rw [shellHandleInput, if_neg char, if_neg other, if_pos room,
      storeCell_of_lt (by omega), Option.bind_eq_bind, Option.bind_some, storeCell_of_lt (by omega)]
    exact ⟨_, rfl, after.update le_rfl nul, shorter, cleaner⟩
  · rw [shellHandleInput, if_neg char, if_neg other, if_neg full]
    exact ⟨s, rfl, after, shorter, cleaner⟩

/-- **Enter**: the shell passes its line on and begins a new one. -/
theorem Editing.shellEnter (editing : Editing s.shellBuffer s.shellBufferPos line) :
    ∃ s', shellHandleInput s newline = some (s', some line) ∧
      Editing s'.shellBuffer s'.shellBufferPos [] := by
  have length := editing.held.length
  have short := editing.short
  have inside : s.shellBufferPos < shellBufferSize := by
    unfold shellBufferSize
    omega
  have read := (editing.held.ended editing.clean).read (show line.length < shellBufferSize by
    unfold shellBufferSize
    omega)
  unfold shellHandleInput
  rw [if_neg (by decide), if_pos rfl, storeCell_of_lt inside, Option.bind_eq_bind, Option.bind_some, read,
    storeCell_of_lt (by decide)]
  exact ⟨_, rfl, Editing.nil _⟩

/-- **The shell passes on the lines of the reference.** -/
theorem Editing.shellLines (editing : Editing s.shellBuffer s.shellBufferPos line) :
    shellLines s codes = some (editLines 255 codes line) := by
  induction codes generalizing s line with
  | nil => rfl
  | cons c codes ih =>
      rw [Shell.shellLines, editLines]
      by_cases enter : c = newline
      · subst enter
        obtain ⟨s', passed, after⟩ := editing.shellEnter
        simp only [if_pos, passed, Option.bind_eq_bind, Option.bind_some, ih after]
        rfl
      · obtain ⟨s', edited, after⟩ := editing.shellKey enter
        simp only [if_neg enter, edited, Option.bind_eq_bind, Option.bind_some, ih after]
        rfl

/-- **One call of `keyboard_getline`** stores the first line of the reference and returns its length. -/
theorem Editing.getline (editing : Editing cells pos line) (noReturn : carriageReturn ∉ codes)
    (noDelete : keyDelete ∉ codes) :
    (getlineLoop 256 codes cells pos = some .waiting ∧ editLines 255 codes line = []) ∨
      ∃ stored buffer rest, getlineLoop 256 codes cells pos = some (.returned stored.length buffer rest) ∧
        editLines 255 codes line = stored :: editLines 255 rest [] ∧
        readString nul buffer 256 0 = stored ∧ rest.length < codes.length ∧ ∀ c ∈ rest, c ∈ codes := by
  induction codes generalizing cells pos line with
  | nil => exact .inl ⟨rfl, rfl⟩
  | cons c codes ih =>
      obtain ⟨notReturn, noReturn⟩ := not_or.mp (mt List.mem_cons.mpr noReturn)
      obtain ⟨notDelete, noDelete⟩ := not_or.mp (mt List.mem_cons.mpr noDelete)
      have length := editing.held.length
      have short := editing.short
      rw [getlineLoop, editLines]
      by_cases enter : c = newline
      · refine .inr ⟨line, _, codes, ?_, if_pos enter,
          (editing.held.ended editing.clean).read (by omega), by simp, fun c => List.mem_cons_of_mem _⟩
        rw [if_pos (.inl enter), storeCell_of_lt (by omega), ← length]
        rfl
      · have more : ∀ {cells' : Nat → Char} {pos' : Nat}, Editing cells' pos' (editKey 255 line c) →
            (getlineLoop 256 codes cells' pos' = some .waiting ∧
                editLines 255 codes (editKey 255 line c) = []) ∨
              ∃ stored buffer rest,
                getlineLoop 256 codes cells' pos' = some (.returned stored.length buffer rest) ∧
                editLines 255 codes (editKey 255 line c) = stored :: editLines 255 rest [] ∧
                readString nul buffer 256 0 = stored ∧ rest.length < (c :: codes).length ∧
                  ∀ d ∈ rest, d ∈ c :: codes := by
          intro cells' pos' after
          rcases ih after noReturn noDelete with waits | ⟨stored, buffer, rest, done, lines, read, less, inside⟩
          · exact .inl waits
          · exact .inr ⟨stored, buffer, rest, done, lines, read, Nat.lt_succ_of_lt less,
              fun d member => List.mem_cons_of_mem _ (inside d member)⟩
        have shorter : (editKey 255 line c).length ≤ 255 := editKey_length short
        have cleaner : nul ∉ editKey 255 line c := editKey_clean editing.clean
        rw [if_neg (not_or.mpr ⟨enter, fun same => notReturn same.symm⟩), if_neg enter]
        rcases held_key editing.held 255 c with ⟨back, after⟩ | ⟨char, room, after⟩ | ⟨char, full, after⟩
        · have erased : (if pos > 0 then pos - 1 else pos) = pos - 1 := by
            split <;> omega
          rw [if_pos (.inl back), erased]
          exact more ⟨after, shorter, cleaner⟩
        · rw [if_neg (not_or.mpr ⟨char, fun same => notDelete same.symm⟩), if_pos ⟨room.1, by omega⟩,
            if_pos (show pos < 256 - 1 from room.2.2), storeCell_of_lt (by omega)]
          exact more ⟨after, shorter, cleaner⟩
        · rw [if_neg (not_or.mpr ⟨char, fun same => notDelete same.symm⟩)]
          by_cases printable : 32 ≤ c ∧ c < 127
          · have least : ¬ pos < 256 - 1 := fun room => full ⟨printable.1, by omega, room⟩
            rw [if_pos printable, if_neg least]
            exact more ⟨after, shorter, cleaner⟩
          · rw [if_neg printable]
            exact more ⟨after, shorter, cleaner⟩

/-- **Calls of `keyboard_getline` store the lines of the reference.** -/
theorem getlineLines_eq {calls : Nat} (enough : codes.length ≤ calls) (noReturn : carriageReturn ∉ codes)
    (noDelete : keyDelete ∉ codes) : getlineLines cells calls codes = some (editLines 255 codes []) := by
  induction calls generalizing cells codes with
  | zero =>
      obtain rfl : codes = [] := List.length_eq_zero_iff.mp (Nat.le_zero.mp enough)
      rfl
  | succ calls ih =>
      have call : keyboardGetline cells shellBufferSize codes = getlineLoop 256 codes cells 0 := rfl
      rw [getlineLines, call]
      rcases (Editing.nil cells).getline noReturn noDelete with
        ⟨waits, none⟩ | ⟨stored, buffer, rest, done, lines, read, less, inside⟩
      · rw [waits, none]
        rfl
      · have later : getlineLines buffer calls rest = some (editLines 255 rest []) :=
          ih (by omega) (fun member => noReturn (inside _ member)) fun member => noDelete (inside _ member)
        rw [done, lines]
        simp only [Option.bind_eq_bind, Option.bind_some, later, Option.pure_def]
        rw [show shellBufferSize = 256 from rfl, read]

/-- Keys with one Enter, at the end, spell one line. -/
theorem editLines_single (one : newline ∉ codes) (line : List Char) :
    editLines limit (codes ++ [newline]) line = [codes.foldl (editKey limit) line] := by
  induction codes generalizing line with
  | nil => rfl
  | cons c codes ih =>
      obtain ⟨other, one⟩ := not_or.mp (mt List.mem_cons.mpr one)
      rw [List.cons_append, editLines, if_neg (fun same => other same.symm), ih one]
      rfl

/-- **The two editors agree**: both give the lines of the reference, so the one line that the keys before an
Enter spell, and every store falls inside its buffer. -/
theorem editors_agree (empty : s.shellBufferPos = 0) (noReturn : carriageReturn ∉ codes)
    (noDelete : keyDelete ∉ codes) (buffer : Nat → Char) :
    shellLines s codes = some (editLines 255 codes []) ∧
      getlineLines buffer codes.length codes = some (editLines 255 codes []) ∧
      ∀ keys, codes = keys ++ [newline] → newline ∉ keys → editLines 255 codes [] = [edit 255 keys] := by
  have start : Editing s.shellBuffer s.shellBufferPos [] := by
    rw [empty]
    exact Editing.nil _
  refine ⟨start.shellLines, getlineLines_eq le_rfl noReturn noDelete, ?_⟩
  rintro keys rfl one
  exact editLines_single one []

/-- `l`, `d`, backspace, `s` and Enter give `ls`. -/
theorem editors_agree_ls : shellLines ⟨fun _ => nul, 0⟩ [108, 100, 8, 115, 10] = some [['l', 's']] ∧
    getlineLines (fun _ => nul) 5 [108, 100, 8, 115, 10] = some [['l', 's']] :=
  have both := @editors_agree [108, 100, 8, 115, 10] ⟨fun _ => nul, 0⟩ rfl (by decide) (by decide) fun _ => nul
  ⟨both.1, both.2.1⟩

end Editing

end Kfs.Shell
