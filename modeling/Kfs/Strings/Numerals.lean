/-
**Printed numbers read back: `print_uint` and `print_int`.**

`print_uint` fills a local buffer of 32 characters from the last digit on, dividing by the base, and sends it
from its end. While it is filled, the buffer holds the last digits and the number that is left the others
(`fillDigits_append`), so what is sent is the numeral of the number (`printUint_numeral`), and no 32-bit number
has more than 32 digits in a base that is printed. With the sign of `print_int` the characters read back as
the signed number, also for the least one: `printed_reads_back`.
-/

import Kfs.Base.Numerals
import Kfs.Strings.Printk

namespace Kfs.Strings

/-- The size of the buffer of `print_uint`. -/
def digitBufferSize : Nat := 32

/-- The loop that fills the buffer of `print_uint`: `buffer[i++] = digits[num % base]`. -/
def fillDigits (base : Nat) : (fuel num : Nat) → Output → Option Output
  | 0, num, o => if 0 < num then none else some o
  | fuel + 1, num, o =>
      if 0 < num then fillDigits base fuel (num / base) (o.put (digitOf (num % base))) else some o

/-- The loop that sends it: `print_char(buffer[--i])`. -/
def emitDigits (buffer : Nat → Char) : (i : Nat) → List Char
  | 0 => []
  | i + 1 => buffer i :: emitDigits buffer i

/-- `print_uint`, with what its buffer holds at first: the buffer with the indices stored to, and the
characters that are sent. -/
def printUintLoops (garbage : Nat → Char) (num base : Nat) : Option (Output × List Char) :=
  if num = 0 then some (⟨garbage, 0, []⟩, ['0'])
  else (fillDigits base num num ⟨garbage, 0, []⟩).map fun o => (o, emitDigits o.buffer o.written)

/-- The value of a letter as a digit. -/
def charValue (base : Nat) (c : Char) : Option Nat :=
  ("0123456789abcdef".toList.idxOf? c).filter fun d => decide (d < base)

/-- Read a number with its sign. -/
def readInt : List Char → Option Int
  | [] => none
  | c :: rest =>
      if c = '-' then Option.map (fun n : Nat => -(n : Int)) (readNumeral (charValue 10) 10 rest)
      else Option.map (fun n : Nat => (n : Int)) (readNumeral (charValue 10) 10 (c :: rest))

/-- **The numeral of a number**: it evaluates to the number, no other numeral of it is shorter, only that of 0
has a zero in front, and it was made inside the buffer. -/
structure Printed (base num : Nat) (o : Output) (chars : List Char) : Prop where
  value : readNumeral (charValue base) base chars = some num
  shortest : ∀ other, readNumeral (charValue base) base other = some num → chars.length ≤ other.length
  leading : ∀ c, chars.head? = some c → charValue base c = some 0 → num = 0 ∧ chars = ['0']
  room : o.written ≤ digitBufferSize
  stores : ∀ i ∈ o.stores, i < digitBufferSize

section Loops

variable {base num fuel : Nat} {o : Output} {w : UInt32}

/-- The letters of `digits` stand for the digits. -/
theorem digitOf_letters (wide : 1 < base) (most : base ≤ 16) : Letters digitOf (charValue base) base := by
  have places : ∀ d < 16, "0123456789abcdef".toList.idxOf? (digitOf d) = some d := by decide
  refine ⟨wide, fun d below => ?_, fun c d value => ?_⟩
  · unfold charValue
    rw [places d (by omega), Option.filter_some, if_pos (decide_eq_true below)]
  · exact of_decide_eq_true (Option.filter_eq_some_iff.mp value).2

/-- **What the loop fills the buffer with**: the digits of the number that is left, the last one first. -/
theorem fillDigits_append (wide : 1 < base) (enough : num ≤ fuel) (o : Output) :
    fillDigits base fuel num o = some (o.append ((Nat.digits base num).map digitOf)) := by
  induction fuel generalizing num o with
  | zero =>
      obtain rfl := Nat.le_zero.mp enough
      rw [fillDigits, if_neg (Nat.lt_irrefl 0), Nat.digits_zero]
      rfl
  | succ fuel ih =>
      rw [fillDigits]
      by_cases positive : 0 < num
      · have smaller : num / base < num := Nat.div_lt_self positive wide
        rw [if_pos positive, ih (by omega), Nat.digits_def' wide positive]
        rfl
      · obtain rfl := Nat.eq_zero_of_not_pos positive
        rw [if_neg positive, Nat.digits_zero]
        rfl

/-- The buffer is sent from its end. -/
theorem emitDigits_reverse (buffer : Nat → Char) (i : Nat) :
    emitDigits buffer i = ((List.range i).map buffer).reverse := by
  induction i with
  | zero => rfl
  | succ i ih =>
      rw [List.range_succ, List.map_append, List.reverse_append, emitDigits, ih]
      rfl

theorem pushDigits_digits {digit : Nat → Char} (wide : 1 < base) (enough : num ≤ fuel) (stack : List Char) :
    pushDigits digit base fuel num stack = ((Nat.digits base num).map digit).reverse ++ stack := by
  induction fuel generalizing num stack with
  | zero =>
      obtain rfl := Nat.le_zero.mp enough
      rw [pushDigits_zero, Nat.digits_zero]
      rfl
  | succ fuel ih =>
      by_cases positive : 0 < num
      · have smaller : num / base < num := Nat.div_lt_self positive wide
        rw [pushDigits, if_pos positive, ih (by omega), Nat.digits_def' wide positive, List.map_cons,
          List.reverse_cons, List.append_assoc]
        rfl
      · obtain rfl := Nat.eq_zero_of_not_pos positive
        rw [pushDigits_zero, Nat.digits_zero]
        rfl

/-- **`print_uint` sends the numeral of its number.** -/
theorem printUint_numeral (wide : 1 < base) (num : Nat) : printUint num base = numeral digitOf base num := by
  unfold printUint numeral
  by_cases zero : num = 0
  · rw [if_pos zero, if_pos zero]
    rfl
  · rw [if_neg zero, if_neg zero, pushDigits_digits wide le_rfl, List.append_nil]

/-- **The loops of `print_uint` end**, and send the same. -/
theorem printUintLoops_eq (wide : 1 < base) (garbage : Nat → Char) (num : Nat) : printUintLoops garbage num base =
    some (Output.append ⟨garbage, 0, []⟩ ((Nat.digits base num).map digitOf), printUint num base) := by
  unfold printUintLoops
  by_cases zero : num = 0
  · rw [if_pos zero, printUint, if_pos zero, zero, Nat.digits_zero]
    rfl
  · rw [if_neg zero, fillDigits_append wide le_rfl, Option.map_some, emitDigits_reverse, printUint, if_neg zero,
      pushDigits_digits wide le_rfl, List.append_nil]
    show some (_, (Output.text _).reverse) = _
    rw [Output.append_text]
    rfl

/-- The digits of a 32-bit number fit the buffer. -/
theorem digits_room (wide : 1 < base) (small : num < 2 ^ 32) : (Nat.digits base num).length ≤ digitBufferSize := by
  refine (Nat.digits_length_le_iff wide num).mpr (Nat.lt_of_lt_of_le small ?_)
  exact Nat.pow_le_pow_left wide 32

/-- **What `print_uint` prints.** -/
theorem printUint_printed (wide : 1 < base) (most : base ≤ 16) (small : num < 2 ^ 32) (garbage : Nat → Char) :
    ∃ o, printUintLoops garbage num base = some (o, printUint num base) ∧
      Printed base num o (printUint num base) := by
  have spelled := printUint_numeral wide num
  have known := digitOf_letters wide most
  have room := digits_room wide small
  refine ⟨_, printUintLoops_eq wide garbage num, ?_, fun other read => ?_, fun c head zero => ?_, ?_, ?_⟩
  · rw [spelled, readNumeral_numeral known]
  · rw [spelled]
    exact numeral_shortest known read
  · rw [spelled] at head
    have none := numeral_head known head zero
    refine ⟨none, ?_⟩
    rw [none]
    rfl
  · rw [Output.append_written, List.length_map]
    show 0 + _ ≤ _
    omega
  · intro i member
    rcases Output.append_stores _ _ i member with old | new
    · cases old
    · rw [List.length_map] at new
      have new : i < 0 + _ := new
      omega

/-- A numeral without a sign. -/
theorem readInt_numeral {chars : List Char} {n : Nat} (read : readNumeral (charValue 10) 10 chars = some n) :
    readInt chars = some (n : Int) := by
  cases chars with
  | nil => cases read
  | cons c rest =>
      have unsigned : c ≠ '-' := by
        rintro rfl
        have noDigit : charValue 10 '-' = none := by decide
        rw [readNumeral, readDigits, noDigit] at read
        cases read
      rw [readInt, if_neg unsigned, read, Option.map_some]

/-- **The sign and the digits of `print_int`.** -/
theorem readInt_printInt (w : UInt32) : readInt (printInt w) = some (toInt w) := by
  have reads : ∀ num, readNumeral (charValue 10) 10 (printUint num 10) = some num := by
    intro num
    rw [printUint_numeral (by decide), readNumeral_numeral (digitOf_letters (by decide) (by decide))]
  have bound := w.toNat_lt
  unfold printInt
  by_cases negative : toInt w < 0
  · rw [if_pos negative, readInt, if_pos rfl, reads, Option.map_some]
    congr 1
    -- the negation of the least number is its own, and the same 32 bits are its magnitude
    unfold toInt at *
    unfold negate
    split at negative
    · omega
    · rename_i high
      rw [if_neg high]
      split
      · omega
      · omega
  · rw [if_neg negative, readInt_numeral (reads _)]
    congr 1
    unfold toInt at *
    split
    · rfl
    · rename_i high
      rw [if_neg high] at negative
      omega

end Loops

/-- **Printed numbers read back**: in both bases `print_uint` sends the shortest numeral of any 32-bit number, from
within its buffer, and what `print_int` sends evaluates to the signed number. -/
theorem printed_reads_back (garbage : Nat → Char) (w : UInt32) :
    (∃ o, printUintLoops garbage w.toNat 10 = some (o, printUint w.toNat 10) ∧
        Printed 10 w.toNat o (printUint w.toNat 10)) ∧
      (∃ o, printUintLoops garbage w.toNat 16 = some (o, printUint w.toNat 16) ∧
        Printed 16 w.toNat o (printUint w.toNat 16)) ∧
      readInt (printInt w) = some (toInt w) :=
  ⟨printUint_printed (by decide) (by decide) w.toNat_lt garbage,
    printUint_printed (by decide) (by decide) w.toNat_lt garbage, readInt_printInt w⟩

end Kfs.Strings
