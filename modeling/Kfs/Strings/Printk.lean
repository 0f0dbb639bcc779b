/-
**`printk`: `printf.c`, and what it has in common with `snprintf`.**

`printk` sends characters to the screen where `snprintf` stores them. Both turn numbers into digits on their
own: `print_int` hands the negated number on as unsigned, `snprintf` goes on with it as an `int`, and the
least `int` is its own negation. For formats of ordinary characters, strings, numbers and percent signs the
two agree exactly when no number is that one: `formatters_agree_iff`.
-/

import Kfs.Strings.Buffer

namespace Kfs.Strings

/-- The loop of `print_string`; no string of a 32-bit memory is longer than `fuel`. -/
def printString (memory : Nat → Char) : (fuel str : Nat) → Option (List Char)
  | 0, _ => none
  | fuel + 1, str =>
      if memory str ≠ '\x00' then (printString memory fuel (str + 1)).map (memory str :: ·) else some []

/-- `print_string`. -/
def printPointer (memory : Nat → Char) (w : UInt32) : Option (List Char) :=
  if w = 0 then some "(null)".toList else printString memory (2 ^ 32) w.toNat

/-- `digits[i]`. -/
def digitOf (i : Nat) : Char := "0123456789abcdef".toList.getD i '\x00'

/-- `print_uint`. -/
def printUint (num base : Nat) : List Char := if num = 0 then ['0'] else pushDigits digitOf base num num []

/-- `print_int`. -/
def printInt (w : UInt32) : List Char :=
  if toInt w < 0 then '-' :: printUint (negate (toInt w) % 2 ^ 32).toNat 10 else printUint w.toNat 10

/-- `printk`: the characters that are sent to the screen. It reads past the format when its last character is
a lone percent sign. -/
def printk (memory : Nat → Char) : (format : List Char) → (args : Nat → UInt32) → Option (List Char)
  | [], _ => some []
  | [c], _ => if c = '%' then none else some [c]
  | c :: d :: rest, args =>
      if c = '%' then
        if d = 's' then
          (printPointer memory (args 0)).bind fun str => (printk memory rest fun i => args (i + 1)).map (str ++ ·)
        else if d = 'c' then
          (printk memory rest fun i => args (i + 1)).map (Char.ofNat ((args 0).toNat % 256) :: ·)
        else if d = 'd' ∨ d = 'i' then (printk memory rest fun i => args (i + 1)).map (printInt (args 0) ++ ·)
        else if d = 'u' then (printk memory rest fun i => args (i + 1)).map (printUint (args 0).toNat 10 ++ ·)
        else if d = 'x' ∨ d = 'X' then
          (printk memory rest fun i => args (i + 1)).map ('0' :: 'x' :: printUint (args 0).toNat 16 ++ ·)
        else if d = '%' then (printk memory rest args).map ('%' :: ·)
        else (printk memory rest args).map ('%' :: d :: ·)
      else (printk memory (d :: rest) args).map (c :: ·)

/-- A piece of a format: an ordinary character, `%s` with its string, `%d`, or `%%`. -/
inductive Piece where
  | ordinary (c : Char)
  | string (chars : List Char)
  | number
  | percent
  deriving DecidableEq, Repr

/-- The characters of a piece. -/
def Piece.chars : Piece → List Char
  | ordinary c => [c]
  | string _ => ['%', 's']
  | number => ['%', 'd']
  | percent => ['%', '%']

/-- The format of some pieces. -/
def formatOf (ps : List Piece) : List Char := ps.flatMap Piece.chars

/-- The words are arguments for the pieces: each string is there at its address, and no ordinary character
is a percent sign or a NUL. -/
def Suits (memory : Nat → Char) : List Piece → (args : Nat → UInt32) → Prop
  | [], _ => True
  | .ordinary c :: ps, args => c ≠ '%' ∧ c ≠ '\x00' ∧ Suits memory ps args
  | .string chars :: ps, args =>
      (args 0 ≠ 0 ∧ chars.length < 2 ^ 32 ∧ HoldsString memory (args 0).toNat chars) ∧
        Suits memory ps fun i => args (i + 1)
  | .number :: ps, args => Suits memory ps fun i => args (i + 1)
  | .percent :: ps, args => Suits memory ps args

/-- No number is the least `int`. -/
def NoLeast : List Piece → (args : Nat → UInt32) → Prop
  | [], _ => True
  | .string _ :: ps, args => NoLeast ps fun i => args (i + 1)
  | .number :: ps, args => args 0 ≠ 0x80000000 ∧ NoLeast ps fun i => args (i + 1)
  | .ordinary _ :: ps, args => NoLeast ps args
  | .percent :: ps, args => NoLeast ps args

/-- The text of some pieces, for a way to write numbers. -/
def pieceText (decimal : UInt32 → List Char) : List Piece → (args : Nat → UInt32) → List Char
  | [], _ => []
  | .ordinary c :: ps, args => c :: pieceText decimal ps args
  | .string chars :: ps, args => chars ++ pieceText decimal ps fun i => args (i + 1)
  | .number :: ps, args => decimal (args 0) ++ pieceText decimal ps fun i => args (i + 1)
  | .percent :: ps, args => '%' :: pieceText decimal ps args

/-- The two functions make the same of a format: with room for all of it, `snprintf` stores what `printk`
sends to the screen. -/
def Agree (memory : Nat → Char) (format : List Char) (args : Nat → UInt32) : Prop :=
  ∃ sent, printk memory format args = some sent ∧ ∀ str size, sent.length < size →
    ∃ o, Output.snprintf memory str false size format args = some o ∧ o.text = sent

section Numbers

variable {w : UInt32}

theorem printUint_eq (num : Nat) : printUint num 10 = Nat.toDigits 10 num := by
  unfold printUint
  by_cases zero : num = 0
  · rw [zero, Nat.toDigits_zero]
    rfl
  · rw [if_neg zero, pushDigits_eq (by decide) (by decide) (Nat.pos_of_ne_zero zero) le_rfl, List.append_nil]

/-- **The two ways to write a number** differ in the least one only. -/
theorem printInt_eq (other : w ≠ 0x80000000) : printInt w = decimalText w := by
  have bound := w.toNat_lt
  have notLeast : w.toNat ≠ 2 ^ 31 := fun same => other (UInt32.toNat_inj.mp same)
  rw [decimalText_eq]
  unfold printInt Arg.decimal toInt
  by_cases small : w.toNat < 2 ^ 31
  · simp only [if_pos small]
    rw [if_neg (by omega), printUint_eq]
  · simp only [if_neg small]
    have magnitude : (negate ((w.toNat : Int) - 2 ^ 32) % 2 ^ 32).toNat = 2 ^ 32 - w.toNat := by
      unfold negate
      rw [if_neg (by omega)]
      omega
    rw [if_pos (by omega), if_neg notLeast, magnitude, printUint_eq]

theorem least_texts : decimalText 0x80000000 = ['-'] ∧ printInt 0x80000000 = "-2147483648".toList := by
  decide +kernel

theorem decimalText_length_le (w : UInt32) : (decimalText w).length ≤ (printInt w).length := by
  by_cases least : w = 0x80000000
  · rw [least, least_texts.1, least_texts.2]
    decide
  · rw [printInt_eq least]

theorem decimalText_eq_iff : decimalText w = printInt w ↔ w ≠ 0x80000000 := by
  refine ⟨fun same least => ?_, fun other => (printInt_eq other).symm⟩
  rw [least, least_texts.1, least_texts.2] at same
  exact absurd same (by decide)

end Numbers

section Pieces

variable {memory : Nat → Char} {ps : List Piece} {args : Nat → UInt32} {c : Char} {room : Nat}

theorem printString_of_holds {s : Nat} {chars : List Char} (holds : HoldsString memory s chars) {fuel : Nat}
    (enough : chars.length < fuel) : printString memory fuel s = some chars := by
  induction chars generalizing s fuel with
  | nil =>
      obtain ⟨fuel, rfl⟩ := Nat.exists_eq_succ_of_ne_zero (Nat.ne_of_gt enough)
      have ends : memory s = '\x00' := holds
      rw [printString, if_neg (not_not.mpr ends)]
  | cons c chars ih =>
      obtain ⟨fuel, rfl⟩ := Nat.exists_eq_succ_of_ne_zero (Nat.ne_of_gt (Nat.zero_lt_of_lt enough))
      obtain ⟨here, seen, rest⟩ := holds
      rw [printString, here, if_pos seen, ih rest (Nat.lt_of_succ_lt_succ enough)]
      rfl

theorem printk_ordinary (ordinary : c ≠ '%') (format : List Char) (args : Nat → UInt32) :
    printk memory (c :: format) args = (printk memory format args).map (c :: ·) := by
  cases format with
  | nil =>
      show (if c = '%' then none else some [c]) = _
      rw [if_neg ordinary]
      rfl
  | cons d rest => rw [printk, if_neg ordinary]

theorem finished_ordinary (ordinary : c ≠ '%') {format : List Char} (finished : Finished format) :
    Finished (c :: format) := by
  cases format with
  | nil => exact ordinary
  | cons d rest =>
      rw [Finished, if_neg ordinary]
      exact finished

/-- **What `printk` sends**: the texts of the pieces. -/
theorem printk_pieces (suits : Suits memory ps args) :
    printk memory (formatOf ps) args = some (pieceText printInt ps args) := by
  induction ps generalizing args with
  | nil => rfl
  | cons p ps ih =>
      cases p with
      | ordinary c =>
          obtain ⟨ordinary, _, rest⟩ := suits
          show printk memory (c :: formatOf ps) args = _
          rw [printk_ordinary ordinary, ih rest]
          rfl
      | string chars =>
          obtain ⟨⟨pointer, short, holds⟩, rest⟩ := suits
          show printk memory ('%' :: 's' :: formatOf ps) args = _
          rw [printk, if_pos rfl, if_pos rfl, ih rest, printPointer, if_neg pointer,
            printString_of_holds holds short]
          rfl
      | number =>
          show printk memory ('%' :: 'd' :: formatOf ps) args = _
          rw [printk, if_pos rfl, if_neg (by decide), if_neg (by decide), if_pos (.inl rfl), ih suits]
          rfl
      | percent =>
          show printk memory ('%' :: '%' :: formatOf ps) args = _
          rw [printk, if_pos rfl, if_neg (by decide), if_neg (by decide), if_neg (by decide), if_neg (by decide),
            if_neg (by decide), if_pos rfl, ih suits]
          rfl

theorem finished_pieces (suits : Suits memory ps args) : Finished (formatOf ps) := by
  induction ps generalizing args with
  | nil => trivial
  | cons p ps ih =>
      cases p with
      | ordinary c => exact finished_ordinary suits.1 (ih suits.2.2)
      | string chars => exact ih suits.2
      | number => exact ih suits
      | percent => exact ih suits

/-- **What `snprintf` stores**: the texts of the pieces, if there is room for the strings. -/
theorem formatText_pieces (suits : Suits memory ps args) {decimal : UInt32 → List Char}
    (large : (pieceText decimal ps args).length ≤ room) :
    formatText memory room (formatOf ps) args = pieceText decimalText ps args := by
  induction ps generalizing args with
  | nil => rfl
  | cons p ps ih =>
      cases p with
      | ordinary c =>
          obtain ⟨ordinary, _, rest⟩ := suits
          rw [pieceText, List.length_cons] at large
          show formatText memory room (c :: formatOf ps) args = _
          rw [formatText_ordinary ordinary, ih rest (by omega)]
          rfl
      | string chars =>
          obtain ⟨⟨pointer, short, holds⟩, rest⟩ := suits
          rw [pieceText, List.length_append] at large
          show formatText memory room ('%' :: 's' :: formatOf ps) args = _
          rw [formatText_string, if_pos pointer, stringText_of_holds holds, List.take_of_length_le (by omega),
            ih rest (by omega)]
          rfl
      | number =>
          rw [pieceText, List.length_append] at large
          show formatText memory room ('%' :: 'd' :: formatOf ps) args = _
          rw [formatText_number, ih suits (by omega)]
          rfl
      | percent =>
          rw [pieceText, List.length_cons] at large
          show formatText memory room ('%' :: '%' :: formatOf ps) args = _
          rw [formatText_percent, ih suits (by omega)]
          rfl

theorem pieceText_length_le (ps : List Piece) (args : Nat → UInt32) :
    (pieceText decimalText ps args).length ≤ (pieceText printInt ps args).length := by
  induction ps generalizing args with
  | nil => exact le_rfl
  | cons p ps ih =>
      cases p with
      | ordinary c => exact Nat.succ_le_succ (ih args)
      | string chars =>
          simp only [pieceText, List.length_append]
          exact Nat.add_le_add_left (ih _) _
      | number =>
          simp only [pieceText, List.length_append]
          exact Nat.add_le_add (decimalText_length_le _) (ih _)
      | percent => exact Nat.succ_le_succ (ih args)

/-- **The texts of the pieces are the same** exactly when no number is the least `int`. -/
theorem pieceText_eq_iff (ps : List Piece) (args : Nat → UInt32) :
    pieceText decimalText ps args = pieceText printInt ps args ↔ NoLeast ps args := by
  induction ps generalizing args with
  | nil => exact iff_of_true rfl trivial
  | cons p ps ih =>
      cases p with
      | ordinary c => exact (List.cons_inj_right c).trans (ih args)
      | string chars => exact (List.append_right_inj chars).trans (ih _)
      | number =>
          have first := decimalText_length_le (args 0)
          have rest := pieceText_length_le ps fun i => args (i + 1)
          rw [pieceText, pieceText, NoLeast, ← ih, ← decimalText_eq_iff]
          constructor
          · intro same
            have lengths := congrArg List.length same
            rw [List.length_append, List.length_append] at lengths
            exact List.append_inj same (by omega)
          · rintro ⟨here, there⟩
            rw [here, there]
      | percent => exact (List.cons_inj_right '%').trans (ih args)

end Pieces

/-- **Exactly when the two formatters agree**: for formats of ordinary characters, `%s` with strings, `%d` and
`%%`, when no number is the least `int`. -/
theorem formatters_agree_iff (memory : Nat → Char) (ps : List Piece) (args : Nat → UInt32)
    (suits : Suits memory ps args) : Agree memory (formatOf ps) args ↔ NoLeast ps args := by
  have printed := printk_pieces suits
  have finished := finished_pieces suits
  have shorter := pieceText_length_le ps args
  have stored : ∀ str size, (pieceText printInt ps args).length < size →
      ∃ o, Output.snprintf memory str false size (formatOf ps) args = some o ∧
        o.text = pieceText decimalText ps args := by
    intro str size large
    have one : 1 ≤ size := by omega
    have fits : (pieceText printInt ps args).length ≤ size - 1 := by omega
    refine ⟨_, Output.snprintf_append str one le_rfl finished args, ?_⟩
    rw [Output.finish_text, Output.append_text, formatText_pieces suits fits,
      List.take_of_length_le (by omega)]
    rfl
  rw [← pieceText_eq_iff]
  constructor
  · rintro ⟨sent, sends, stores⟩
    cases printed.symm.trans sends
    obtain ⟨o, done, text⟩ := stores (fun _ => '\x00') _ (Nat.lt_succ_self _)
    obtain ⟨o', done', text'⟩ := stored (fun _ => '\x00') _ (Nat.lt_succ_self _)
    cases done.symm.trans done'
    exact text'.symm.trans text
  · intro same
    refine ⟨_, printed, fun str size large => ?_⟩
    obtain ⟨o, done, text⟩ := stored str size large
    exact ⟨o, done, text.trans same⟩

/-- `"%d"` with -1. -/
theorem formatters_agree_negative :
    Agree (fun _ => 'x') (formatOf [.number]) (fun _ => 0xFFFFFFFF) ↔ NoLeast [.number] fun _ => 0xFFFFFFFF :=
  formatters_agree_iff (fun _ => 'x') [.number] (fun _ => 0xFFFFFFFF) trivial

/-- **The least `int`**: `snprintf` stores a minus sign, `printk` prints the number. -/
theorem formatters_differ :
    (Output.snprintf (fun _ => 'x') (fun _ => 'x') false 64 (formatOf [.number]) fun _ => 0x80000000).map
        Output.text = some ['-'] ∧
      printk (fun _ => 'x') (formatOf [.number]) (fun _ => 0x80000000) = some "-2147483648".toList ∧
      ¬ Agree (fun _ => 'x') (formatOf [.number]) fun _ => 0x80000000 := by
  have stored : (Output.snprintf (fun _ => 'x') (fun _ => 'x') false 64 (formatOf [.number]) fun _ => 0x80000000).map
      Output.text = some ['-'] := by decide +kernel
  have sent : printk (fun _ => 'x') (formatOf [.number]) (fun _ => 0x80000000) = some "-2147483648".toList := by
    decide +kernel
  refine ⟨stored, sent, ?_⟩
  rintro ⟨text, sends, stores⟩
  cases sent.symm.trans sends
  obtain ⟨o, done, same⟩ := stores (fun _ => 'x') 64 (by decide)
  rw [done, Option.map_some, same] at stored
  exact absurd stored (by decide)

end Kfs.Strings
