/-
**`snprintf`: `string.c`.**

The output is the characters stored before the NUL. Each conversion copies its text as far as the buffer
has room for it and its NUL, so the whole is the text cut off at `size - 1` characters. For the two formats
the shell builds paths with: `snprintf_rooted` and `snprintf_joined`.
-/

import Mathlib.Tactic

namespace Kfs.Strings

/-- An argument: a string, NULL for `none`, or the 32 bits of a number. -/
inductive Arg where
  | str (s : Option (List Char))
  | word (n : Nat)
  deriving DecidableEq, Repr

/-- The text of `%s`: nothing for NULL. -/
def Arg.text : Arg → List Char
  | str s => s.getD []
  | word _ => []

/-- The text of `%d`. Negating the least `int` gives it back, and then no digit is written. -/
def Arg.decimal : Arg → List Char
  | str _ => []
  | word n =>
      if n < 2 ^ 31 then Nat.toDigits 10 n
      else if n = 2 ^ 31 then ['-']
      else '-' :: Nat.toDigits 10 (2 ^ 32 - n)

/-- The text of `%x`. -/
def Arg.hexadecimal : Arg → List Char
  | str _ => []
  | word n => Nat.toDigits 16 n

/-- What is stored of a text when `out` is stored already and there is room for `limit` characters. -/
def stored (limit : Nat) (out text : List Char) : List Char := out ++ text.take (limit - out.length)

/-- The next argument. -/
def next (args : List Arg) : Arg := args.headD (.word 0)

/-- The loop of `snprintf`. A conversion takes the next argument; a format does not end in a lone percent
sign. -/
def formatLoop (limit : Nat) : (format : List Char) → List Arg → (out : List Char) → List Char
  | [], _, out => out
  | [c], _, out => if out.length < limit ∧ c ≠ '%' then out ++ [c] else out
  | c :: d :: rest, args, out =>
      if out.length < limit then
        if c = '%' then
          if d = 's' then formatLoop limit rest args.tail (stored limit out (next args).text)
          else if d = 'd' then formatLoop limit rest args.tail (stored limit out (next args).decimal)
          else if d = 'x' then formatLoop limit rest args.tail (stored limit out (next args).hexadecimal)
          else if d = '%' then formatLoop limit rest args (out ++ ['%'])
          else formatLoop limit rest args out
        else formatLoop limit (d :: rest) args (out ++ [c])
      else out

/-- `snprintf` into a buffer of `size` bytes. -/
def snprintf (size : Nat) (format : List Char) (args : List Arg) : List Char :=
  if size = 0 then [] else formatLoop (size - 1) format args []

section

variable {limit : Nat} {text s : List Char}

theorem stored_take : stored limit (text.take limit) s = (text ++ s).take limit := by
  rw [stored, List.take_append, List.length_take]
  by_cases fits : text.length ≤ limit
  · rw [Nat.min_eq_right fits]
  · have none : limit - min limit text.length = limit - text.length := by omega
    rw [none]

/-- A full buffer stays as it is. -/
theorem take_append_of_full (full : ¬ (text.take limit).length < limit) (s : List Char) :
    (text ++ s).take limit = text.take limit := by
  rw [List.length_take] at full
  rw [List.take_append_of_le_length (by omega)]

/-- An ordinary character is stored while there is room. -/
theorem formatLoop_char {c d : Char} {rest out : List Char} {args : List Arg} (ordinary : c ≠ '%') :
    formatLoop limit (c :: d :: rest) args out =
      if out.length < limit then formatLoop limit (d :: rest) args (out ++ [c]) else out := by
  rw [formatLoop, if_neg ordinary]

/-- **A string at the end of the format** is stored as far as there is room. -/
theorem formatLoop_string (text s : List Char) :
    formatLoop limit ['%', 's'] [.str (some s)] (text.take limit) = (text ++ s).take limit := by
  rw [formatLoop]
  by_cases room : (text.take limit).length < limit
  · rw [if_pos room, if_pos rfl, if_pos rfl, formatLoop]
    exact stored_take
  · rw [if_neg room, take_append_of_full room]

/-- `"/%s"`. -/
theorem snprintf_rooted (path : List Char) :
    snprintf (limit + 1) ['/', '%', 's'] [.str (some path)] = ('/' :: path).take limit := by
  rw [snprintf, if_neg (Nat.succ_ne_zero limit), Nat.add_sub_cancel, formatLoop_char (by decide),
    List.length_nil, List.nil_append]
  by_cases room : 0 < limit
  · have start : ['/'] = ['/'].take limit := (List.take_of_length_le room).symm
    rw [if_pos room, start, formatLoop_string]
    rfl
  · obtain rfl : limit = 0 := by omega
    rfl

/-- `"%s/%s"`. -/
theorem snprintf_joined (pwd path : List Char) :
    snprintf (limit + 1) ['%', 's', '/', '%', 's'] [.str (some pwd), .str (some path)] =
      (pwd ++ '/' :: path).take limit := by
  rw [snprintf, if_neg (Nat.succ_ne_zero limit), Nat.add_sub_cancel, formatLoop, List.length_nil]
  by_cases room : 0 < limit
  · have first : stored limit [] (next [.str (some pwd), .str (some path)]).text = pwd.take limit := by
      rw [stored, List.length_nil, Nat.sub_zero, List.nil_append]
      rfl
    rw [if_pos room, if_pos rfl, if_pos rfl, first, List.tail_cons, formatLoop_char (by decide)]
    by_cases more : (pwd.take limit).length < limit
    · have slash : pwd.take limit ++ ['/'] = (pwd ++ ['/']).take limit := by
        have short : pwd.length < limit := by
          rw [List.length_take] at more
          omega
        rw [List.take_of_length_le short.le,
          List.take_of_length_le (by rw [List.length_append]; exact short)]
      rw [if_pos more, slash, formatLoop_string, List.append_assoc, List.singleton_append]
    · rw [if_neg more, take_append_of_full more]
  · obtain rfl : limit = 0 := by omega
    rfl

end

end Kfs.Strings
