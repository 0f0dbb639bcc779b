/-
**`snprintf` into a buffer: the loops of `string.c`.**

Here the buffer is memory without an end, and every index that is stored to is recorded. The arguments are
the words that `va_arg` takes one after the other; the word of `%s` is the address of a string in memory.
Each emission loop has its own check against `size - 1`, and so a call stores a prefix of the text of its
format (`snprintf_append`): a smaller buffer gets a prefix of what a larger one gets (`snprintf_prefix`). For
arguments as `Arg` has them, the characters stored are those of `Strings.snprintf` (`snprintf_arg`).
-/

import Kfs.Strings.Format

namespace Kfs.Strings

/-- The buffer, `written`, and the indices stored to so far. -/
structure Output where
  buffer : Nat → Char
  written : Nat
  stores : List Nat

/-- Push the digits of `num`, the last one first: the last pushed is on top. -/
def pushDigits (digit : Nat → Char) (base : Nat) : (fuel num : Nat) → List Char → List Char
  | 0, _, stack => stack
  | fuel + 1, num, stack =>
      if 0 < num then pushDigits digit base fuel (num / base) (digit (num % base) :: stack) else stack

/-- `'0' + digit`. -/
def decimalDigit (digit : Nat) : Char := Char.ofNat (48 + digit)

/-- `digit < 10 ? '0' + digit : 'a' + (digit - 10)`. -/
def hexDigit (digit : Nat) : Char := if digit < 10 then Char.ofNat (48 + digit) else Char.ofNat (97 + (digit - 10))

/-- A word as an `int`. -/
def toInt (w : UInt32) : Int := if w.toNat < 2 ^ 31 then w.toNat else (w.toNat : Int) - 2 ^ 32

/-- `-num` for an `int`: the least one is its own negation. -/
def negate (num : Int) : Int := if num = -2 ^ 31 then num else -num

/-- The local buffer of `%d` for the number without its sign, from the top. -/
def decimalStack (num : Int) : List Char :=
  if num = 0 then ['0'] else pushDigits decimalDigit 10 num.toNat num.toNat []

/-- The local buffer of `%x`, from the top. -/
def hexStack (num : Nat) : List Char := if num = 0 then ['0'] else pushDigits hexDigit 16 num num []

namespace Output

/-- `str[written++] = c`. -/
def put (o : Output) (c : Char) : Output :=
  ⟨Function.update o.buffer o.written c, o.written + 1, o.written :: o.stores⟩

/-- The loop of `%s`. The bound lets it go round at most `room` times. -/
def putString (memory : Nat → Char) (limit : Nat) : (room s : Nat) → Output → Output
  | 0, _, o => o
  | room + 1, s, o =>
      if memory s ≠ '\x00' ∧ o.written < limit then putString memory limit room (s + 1) (o.put (memory s)) else o

/-- The loop that empties the local buffer of a number. -/
def putDigits (limit : Nat) : (stack : List Char) → Output → Output
  | [], o => o
  | c :: stack, o => if o.written < limit then putDigits limit stack (o.put c) else o

/-- `%d`. -/
def putDecimal (limit : Nat) (w : UInt32) (o : Output) : Output :=
  let num := toInt w
  if num < 0 then
    putDigits limit (decimalStack (negate num)) (if o.written < limit then o.put '-' else o)
  else putDigits limit (decimalStack num) o

/-- `%x`. -/
def putHex (limit : Nat) (w : UInt32) (o : Output) : Output := putDigits limit (hexStack w.toNat) o

/-- The loop of `snprintf` over the characters of the format before its NUL. It reads past the format when
the last of them is a lone percent sign. -/
def formatLoop (memory : Nat → Char) (limit : Nat) :
    (format : List Char) → (args : Nat → UInt32) → Output → Option Output
  | [], _, o => some o
  | [c], _, o => if o.written < limit then if c = '%' then none else some (o.put c) else some o
  | c :: d :: rest, args, o =>
      if o.written < limit then
        if c = '%' then
          if d = 's' then
            formatLoop memory limit rest (fun i => args (i + 1))
              (if args 0 ≠ 0 then putString memory limit (limit - o.written) (args 0).toNat o else o)
          else if d = 'd' then formatLoop memory limit rest (fun i => args (i + 1)) (putDecimal limit (args 0) o)
          else if d = 'x' then formatLoop memory limit rest (fun i => args (i + 1)) (putHex limit (args 0) o)
          else if d = '%' then formatLoop memory limit rest args (o.put '%')
          else formatLoop memory limit rest args o
        else formatLoop memory limit (d :: rest) args (o.put c)
      else some o

/-- `str[written] = '\0'`. -/
def finish (o : Output) : Output :=
  ⟨Function.update o.buffer o.written '\x00', o.written, o.written :: o.stores⟩

/-- `snprintf` to the memory from `str` on; it returns `written`. -/
def snprintf (memory str : Nat → Char) (null : Bool) (size : Nat) (format : List Char)
    (args : Nat → UInt32) : Option Output :=
  if null = true ∨ size = 0 then some ⟨str, 0, []⟩
  else (formatLoop memory (size - 1) format args ⟨str, 0, []⟩).map finish

/-- The text before the index `written`. -/
def text (o : Output) : List Char := (List.range o.written).map o.buffer

/-- Store a text. -/
def append (o : Output) (chars : List Char) : Output := chars.foldl put o

end Output

/-- At most `room` characters of the string at `s`. -/
def stringText (memory : Nat → Char) : (room s : Nat) → List Char
  | 0, _ => []
  | room + 1, s => if memory s ≠ '\x00' then memory s :: stringText memory room (s + 1) else []

/-- The text of `%d`. -/
def decimalText (w : UInt32) : List Char :=
  if toInt w < 0 then '-' :: decimalStack (negate (toInt w)) else decimalStack (toInt w)

/-- **The text of a format**, with strings as far as `room` characters. -/
def formatText (memory : Nat → Char) (room : Nat) : (format : List Char) → (args : Nat → UInt32) → List Char
  | [], _ => []
  | [c], _ => if c = '%' then [] else [c]
  | c :: d :: rest, args =>
      if c = '%' then
        if d = 's' then (if args 0 ≠ 0 then stringText memory room (args 0).toNat else []) ++
          formatText memory room rest fun i => args (i + 1)
        else if d = 'd' then decimalText (args 0) ++ formatText memory room rest fun i => args (i + 1)
        else if d = 'x' then hexStack (args 0).toNat ++ formatText memory room rest fun i => args (i + 1)
        else if d = '%' then '%' :: formatText memory room rest args
        else formatText memory room rest args
      else c :: formatText memory room (d :: rest) args

/-- Memory holds a string. -/
def HoldsString (memory : Nat → Char) : (s : Nat) → List Char → Prop
  | s, [] => memory s = '\x00'
  | s, c :: rest => memory s = c ∧ c ≠ '\x00' ∧ HoldsString memory (s + 1) rest

/-- The word of `%s` is the address of a string, or NULL. -/
def PointsTo (memory : Nat → Char) (w : UInt32) : Option (List Char) → Prop
  | none => w = 0
  | some chars => w ≠ 0 ∧ HoldsString memory w.toNat chars

/-- The words that a format takes are some arguments. -/
def Passes (memory : Nat → Char) : (format : List Char) → (args : Nat → UInt32) → List Arg → Prop
  | [], _, _ => True
  | [_], _, _ => True
  | c :: d :: rest, args, l =>
      if c = '%' then
        if d = 's' then (∃ chars, next l = .str chars ∧ PointsTo memory (args 0) chars) ∧
          Passes memory rest (fun i => args (i + 1)) l.tail
        else if d = 'd' ∨ d = 'x' then next l = .word (args 0).toNat ∧
          Passes memory rest (fun i => args (i + 1)) l.tail
        else Passes memory rest args l
      else Passes memory (d :: rest) args l

/-- The format does not end in a lone percent sign. -/
def Finished : (format : List Char) → Prop
  | [] => True
  | [c] => c ≠ '%'
  | c :: d :: rest => if c = '%' then Finished rest else Finished (d :: rest)

section Numbers

variable {digit : Nat → Char} {base n : Nat} {w : UInt32}

theorem pushDigits_zero (fuel : Nat) (stack : List Char) : pushDigits digit base fuel 0 stack = stack := by
  cases fuel with
  | zero => rfl
  | succ fuel => exact if_neg (Nat.lt_irrefl 0)

/-- **The digits from the top are the digits from the left.** -/
theorem pushDigits_eq (agree : ∀ d < base, digit d = Nat.digitChar d) (wide : 1 < base) {fuel num : Nat}
    (positive : 0 < num) (enough : num ≤ fuel) (stack : List Char) :
    pushDigits digit base fuel num stack = Nat.toDigits base num ++ stack := by
  induction fuel generalizing num stack with
  | zero => exact absurd positive (by omega)
  | succ fuel ih =>
      rw [pushDigits, if_pos positive]
      by_cases last : num < base
      · rw [Nat.div_eq_of_lt last, pushDigits_zero, Nat.toDigits_of_lt_base last, Nat.mod_eq_of_lt last, agree num last]
        rfl
      · have large := not_lt.mp last
        have smaller : num / base < num := Nat.div_lt_self positive wide
        rw [ih (Nat.div_pos large (by omega)) (by omega), Nat.toDigits_of_base_le wide large,
          agree _ (Nat.mod_lt _ (by omega)), List.append_assoc]
        rfl

theorem decimalStack_nat (n : Nat) : decimalStack n = Nat.toDigits 10 n := by
  unfold decimalStack
  by_cases zero : n = 0
  · rw [zero, Nat.toDigits_zero]
    rfl
  · rw [if_neg (by omega), Int.toNat_natCast, pushDigits_eq (by decide) (by decide) (Nat.pos_of_ne_zero zero) le_rfl,
      List.append_nil]

theorem hexStack_eq (n : Nat) : hexStack n = Nat.toDigits 16 n := by
  unfold hexStack
  by_cases zero : n = 0
  · rw [zero, Nat.toDigits_zero]
    rfl
  · rw [if_neg zero, pushDigits_eq (by decide) (by decide) (Nat.pos_of_ne_zero zero) le_rfl, List.append_nil]

/-- **The text of `%d`** is what `Arg` has. -/
theorem decimalText_eq (w : UInt32) : decimalText w = (Arg.word w.toNat).decimal := by
  have bound := w.toNat_lt
  unfold decimalText Arg.decimal toInt
  by_cases small : w.toNat < 2 ^ 31
  · simp only [if_pos small]
    rw [if_neg (by omega), decimalStack_nat]
  · simp only [if_neg small]
    rw [if_pos (by omega)]
    unfold negate
    by_cases least : w.toNat = 2 ^ 31
    · rw [least, if_pos (by decide), if_pos (by decide)]
      rfl
    · have magnitude : -((w.toNat : Int) - 2 ^ 32) = ((2 ^ 32 - w.toNat : Nat) : Int) := by omega
      rw [if_neg (by omega), if_neg least, magnitude, decimalStack_nat]

end Numbers

/-! ### The text, conversion by conversion -/

section Conversions

variable {memory : Nat → Char} {room : Nat} {c d : Char}

theorem formatText_ordinary (ordinary : c ≠ '%') (format : List Char) (args : Nat → UInt32) :
    formatText memory room (c :: format) args = c :: formatText memory room format args := by
  cases format with
  | nil =>
      show (if c = '%' then [] else [c]) = _
      rw [if_neg ordinary]
      rfl
  | cons d rest => rw [formatText, if_neg ordinary]

theorem formatText_string (rest : List Char) (args : Nat → UInt32) :
    formatText memory room ('%' :: 's' :: rest) args =
      (if args 0 ≠ 0 then stringText memory room (args 0).toNat else []) ++
        formatText memory room rest fun i => args (i + 1) := by
  rw [formatText, if_pos rfl, if_pos rfl]

theorem formatText_number (rest : List Char) (args : Nat → UInt32) :
    formatText memory room ('%' :: 'd' :: rest) args =
      decimalText (args 0) ++ formatText memory room rest fun i => args (i + 1) := by
  rw [formatText, if_pos rfl, if_neg (by decide), if_pos rfl]

theorem formatText_hex (rest : List Char) (args : Nat → UInt32) :
    formatText memory room ('%' :: 'x' :: rest) args =
      hexStack (args 0).toNat ++ formatText memory room rest fun i => args (i + 1) := by
  rw [formatText, if_pos rfl, if_neg (by decide), if_neg (by decide), if_pos rfl]

theorem formatText_percent (rest : List Char) (args : Nat → UInt32) :
    formatText memory room ('%' :: '%' :: rest) args = '%' :: formatText memory room rest args := by
  rw [formatText, if_pos rfl, if_neg (by decide), if_neg (by decide), if_neg (by decide), if_pos rfl]

/-- Nothing is stored for an unknown conversion. -/
theorem formatText_unknown (noS : d ≠ 's') (noD : d ≠ 'd') (noX : d ≠ 'x') (noPercent : d ≠ '%')
    (rest : List Char) (args : Nat → UInt32) :
    formatText memory room ('%' :: d :: rest) args = formatText memory room rest args := by
  rw [formatText, if_pos rfl, if_neg noS, if_neg noD, if_neg noX, if_neg noPercent]

theorem finished_conversion (d : Char) (rest : List Char) : Finished ('%' :: d :: rest) ↔ Finished rest := by
  rw [Finished, if_pos rfl]

end Conversions

namespace Output

section Append

variable {o : Output} {memory : Nat → Char} {limit room s : Nat} {first second chars stack : List Char} {w : UInt32}

@[simp] theorem append_nil (o : Output) : o.append [] = o := rfl

theorem append_cons (o : Output) (c : Char) (chars : List Char) : o.append (c :: chars) = (o.put c).append chars :=
  rfl

theorem append_append (o : Output) (first second : List Char) :
    (o.append first).append second = o.append (first ++ second) := List.foldl_append.symm

theorem append_written (o : Output) (chars : List Char) : (o.append chars).written = o.written + chars.length := by
  induction chars generalizing o with
  | nil => rfl
  | cons c chars ih =>
      rw [append_cons, ih, List.length_cons]
      show o.written + 1 + chars.length = _
      omega

theorem put_text (o : Output) (c : Char) : (o.put c).text = o.text ++ [c] := by
  have before : (List.range o.written).map (o.put c).buffer = (List.range o.written).map o.buffer :=
    List.map_congr_left fun i inside => Function.update_of_ne (List.mem_range.mp inside).ne _ _
  show (List.range (o.written + 1)).map (o.put c).buffer = _
  rw [List.range_succ, List.map_append, before, List.map_singleton]
  exact congrArg (o.text ++ [·]) (Function.update_self _ _ _)

theorem append_text (o : Output) (chars : List Char) : (o.append chars).text = o.text ++ chars := by
  induction chars generalizing o with
  | nil => exact (List.append_nil _).symm
  | cons c chars ih => rw [append_cons, ih, put_text, List.append_assoc, List.singleton_append]

/-- What is appended is stored from `written` on. -/
theorem append_stores (o : Output) (chars : List Char) :
    ∀ i ∈ (o.append chars).stores, i ∈ o.stores ∨ i < o.written + chars.length := by
  induction chars generalizing o with
  | nil => exact fun i member => .inl member
  | cons c chars ih =>
      intro i member
      rw [List.length_cons]
      rcases ih (o.put c) i member with old | new
      · rcases List.mem_cons.mp old with rfl | older
        · exact .inr (by omega)
        · exact .inl older
      · have new : i < o.written + 1 + chars.length := new
        exact .inr (by omega)

theorem append_buffer (o : Output) (chars : List Char) {i : Nat} (beyond : o.written + chars.length ≤ i) :
    (o.append chars).buffer i = o.buffer i := by
  induction chars generalizing o with
  | nil => rfl
  | cons c chars ih =>
      rw [List.length_cons] at beyond
      rw [append_cons, ih (o.put c) (show o.written + 1 + chars.length ≤ i by omega)]
      exact Function.update_of_ne (by omega) _ _

/-- Two texts, each as far as there is room. -/
theorem append_take (o : Output) (first second : List Char) :
    (o.append (first.take (limit - o.written))).append
        (second.take (limit - (o.append (first.take (limit - o.written))).written)) =
      o.append ((first ++ second).take (limit - o.written)) := by
  rw [append_append, List.take_append, append_written, List.length_take]
  congr 3
  omega

theorem putDigits_append (limit : Nat) (stack : List Char) (o : Output) :
    putDigits limit stack o = o.append (stack.take (limit - o.written)) := by
  induction stack generalizing o with
  | nil => rw [List.take_nil]; rfl
  | cons c stack ih =>
      rw [putDigits]
      by_cases more : o.written < limit
      · obtain ⟨n, left⟩ := Nat.exists_eq_succ_of_ne_zero (Nat.sub_ne_zero_of_lt more)
        have rest : limit - (o.put c).written = n := by
          show limit - (o.written + 1) = n
          omega
        rw [if_pos more, ih, rest, left, List.take_succ_cons, append_cons]
      · have full : limit - o.written = 0 := by omega
        rw [if_neg more, full, List.take_zero, append_nil]

/-- The loop of `%s` goes round as often as there is room. -/
theorem putString_append (memory : Nat → Char) (bound : limit ≤ room) (s : Nat) (o : Output) :
    putString memory limit (limit - o.written) s o =
      o.append ((stringText memory room s).take (limit - o.written)) := by
  obtain ⟨n, left⟩ : ∃ n, limit - o.written = n := ⟨_, rfl⟩
  rw [left]
  have enough : n ≤ room := by omega
  clear bound
  induction n generalizing room s o with
  | zero => rw [List.take_zero]; rfl
  | succ n ih =>
      obtain ⟨more, rfl⟩ := Nat.exists_eq_succ_of_ne_zero (Nat.ne_of_gt (Nat.lt_of_lt_of_le n.succ_pos enough))
      have open' : o.written < limit := by omega
      have rest : limit - (o.put (memory s)).written = n := by
        show limit - (o.written + 1) = n
        omega
      rw [putString, stringText]
      by_cases ends : memory s ≠ '\x00'
      · rw [if_pos ⟨ends, open'⟩, if_pos ends, List.take_succ_cons, append_cons]
        exact ih (s + 1) (o.put (memory s)) rest (by omega)
      · rw [if_neg fun both => ends both.1, if_neg ends, List.take_nil, append_nil]

theorem putDecimal_append (limit : Nat) (w : UInt32) (o : Output) :
    putDecimal limit w o = o.append ((decimalText w).take (limit - o.written)) := by
  unfold putDecimal decimalText
  by_cases negative : toInt w < 0
  · simp only [if_pos negative]
    have sign : (if o.written < limit then o.put '-' else o) = o.append (['-'].take (limit - o.written)) := by
      by_cases more : o.written < limit
      · rw [if_pos more, List.take_of_length_le (by rw [List.length_singleton]; omega)]
        rfl
      · have full : limit - o.written = 0 := by omega
        rw [if_neg more, full, List.take_zero, append_nil]
    rw [sign, putDigits_append, append_take, List.singleton_append]
  · simp only [if_neg negative]
    exact putDigits_append _ _ _

theorem putHex_append (limit : Nat) (w : UInt32) (o : Output) :
    putHex limit w o = o.append ((hexStack w.toNat).take (limit - o.written)) := putDigits_append _ _ _

/-- A single character with room for it. -/
theorem put_eq_append (more : o.written < limit) (c : Char) :
    o.put c = o.append ([c].take (limit - o.written)) := by
  rw [List.take_of_length_le (by rw [List.length_singleton]; omega)]
  rfl

/-- A full buffer ends the loop. -/
theorem formatLoop_full (full : ¬ o.written < limit) (format : List Char) (args : Nat → UInt32) :
    formatLoop memory limit format args o = some o := by
  rcases format with _ | ⟨c, _ | ⟨d, rest⟩⟩
  · rfl
  · rw [formatLoop, if_neg full]
  · rw [formatLoop, if_neg full]

/-- What is left of the format, after a text that is stored as far as there is room. -/
theorem formatLoop_after {format : List Char} {args : Nat → UInt32}
    (rest : ∀ o : Output, o.written < limit →
      formatLoop memory limit format args o = some (o.append (second.take (limit - o.written)))) :
    formatLoop memory limit format args (o.append (first.take (limit - o.written))) =
      some (o.append ((first ++ second).take (limit - o.written))) := by
  rw [← append_take]
  by_cases more : (o.append (first.take (limit - o.written))).written < limit
  · exact rest _ more
  · have full : limit - (o.append (first.take (limit - o.written))).written = 0 := by omega
    rw [formatLoop_full more, full, List.take_zero, append_nil]

/-- **The loop stores the text of the format**, as far as there is room. -/
theorem formatLoop_append (bound : limit ≤ room) (format : List Char) (args : Nat → UInt32)
    (finished : Finished format) (o : Output) (more : o.written < limit) :
    formatLoop memory limit format args o =
      some (o.append ((formatText memory room format args).take (limit - o.written))) := by
  induction format, args using formatText.induct generalizing o with
  | case1 args =>
      rw [formatText, List.take_nil]
      rfl
  | case2 args => exact absurd rfl finished
  | case3 args c ordinary =>
      rw [formatText_ordinary ordinary, formatLoop, if_pos more, if_neg ordinary, put_eq_append more]
      rfl
  | case4 rest args ih =>
      rw [finished_conversion] at finished
      rw [formatText_string, formatLoop, if_pos more, if_pos rfl, if_pos rfl]
      by_cases pointer : args 0 ≠ 0
      · rw [if_pos pointer, if_pos pointer, putString_append memory bound]
        exact formatLoop_after (ih finished)
      · rw [if_neg pointer, if_neg pointer, List.nil_append]
        exact ih finished o more
  | case5 rest args noS ih =>
      rw [finished_conversion] at finished
      rw [formatText_number, formatLoop, if_pos more, if_pos rfl, if_neg noS, if_pos rfl, putDecimal_append]
      exact formatLoop_after (ih finished)
  | case6 rest args noS noD ih =>
      rw [finished_conversion] at finished
      rw [formatText_hex, formatLoop, if_pos more, if_pos rfl, if_neg noS, if_neg noD, if_pos rfl, putHex_append]
      exact formatLoop_after (ih finished)
  | case7 rest args noS noD noX ih =>
      rw [finished_conversion] at finished
      rw [formatText_percent, formatLoop, if_pos more, if_pos rfl, if_neg noS, if_neg noD, if_neg noX, if_pos rfl,
        put_eq_append more]
      exact formatLoop_after (ih finished)
  | case8 d rest args noS noD noX noPercent ih =>
      rw [finished_conversion] at finished
      rw [formatText_unknown noS noD noX noPercent, formatLoop, if_pos more, if_pos rfl, if_neg noS, if_neg noD,
        if_neg noX, if_neg noPercent]
      exact ih finished o more
  | case9 c d rest args ordinary ih =>
      rw [Finished, if_neg ordinary] at finished
      rw [formatText_ordinary ordinary, formatLoop, if_pos more, if_neg ordinary, put_eq_append more]
      exact formatLoop_after (ih finished)

/-- **What a call of `snprintf` leaves**: the text of the format as far as there is room, and a NUL. -/
theorem snprintf_append (str : Nat → Char) {size : Nat} (one : 1 ≤ size) (bound : size - 1 ≤ room)
    {format : List Char} (finished : Finished format) (args : Nat → UInt32) :
    snprintf memory str false size format args =
      some ((append ⟨str, 0, []⟩ ((formatText memory room format args).take (size - 1))).finish) := by
  have run : ¬ (false = true ∨ size = 0) := by simp; omega
  rw [snprintf, if_neg run]
  by_cases more : 0 < size - 1
  · rw [formatLoop_append bound format args finished ⟨str, 0, []⟩ more]
    rfl
  · have full : size - 1 = 0 := by omega
    rw [formatLoop_full more, full, List.take_zero]
    rfl

/-- The NUL is behind the text. -/
theorem finish_text (o : Output) : o.finish.text = o.text :=
  List.map_congr_left fun _ inside => Function.update_of_ne (List.mem_range.mp inside).ne _ _

end Append

/-- **A smaller buffer gets a prefix**: what is stored with the size `s₁` is the first `s₁ - 1` characters of
what is stored with the size `s₂`, with a NUL behind it at the index that is returned, and nothing is stored
at `s₁` or above. -/
theorem snprintf_prefix (memory str₁ str₂ : Nat → Char) (format : List Char) (finished : Finished format)
    (args : Nat → UInt32) (s₁ s₂ : Nat) (one : 1 ≤ s₁) (le : s₁ ≤ s₂) :
    ∃ o₁ o₂, snprintf memory str₁ false s₁ format args = some o₁ ∧
      snprintf memory str₂ false s₂ format args = some o₂ ∧ o₁.text = o₂.text.take (s₁ - 1) ∧
      o₁.written < s₁ ∧ o₁.buffer o₁.written = '\x00' ∧ (∀ i ∈ o₁.stores, i < s₁) ∧
      ∀ i, s₁ ≤ i → o₁.buffer i = str₁ i := by
  have first := @snprintf_append memory (s₂ - 1) str₁ s₁ one (by omega) format finished args
  have second := @snprintf_append memory (s₂ - 1) str₂ s₂ (by omega) le_rfl format finished args
  refine ⟨_, _, first, second, ?_, ?_, Function.update_self _ _ _, ?_, ?_⟩
  · rw [finish_text, finish_text, append_text, append_text]
    show [] ++ _ = ([] ++ _).take _
    rw [List.nil_append, List.nil_append, List.take_take, Nat.min_eq_left (by omega)]
  · show (append _ _).written < s₁
    rw [append_written, List.length_take]
    show 0 + _ < s₁
    omega
  · intro i member
    rcases List.mem_cons.mp member with rfl | stored
    · rw [append_written, List.length_take]
      show 0 + _ < s₁
      omega
    · rcases append_stores _ _ i stored with old | new
      · cases old
      · rw [List.length_take] at new
        have new : i < 0 + _ := new
        omega
  · intro i beyond
    have behind : (append ⟨str₁, 0, []⟩ ((formatText memory (s₂ - 1) format args).take (s₁ - 1))).written < i := by
      rw [append_written, List.length_take]
      show 0 + _ < i
      omega
    refine (Function.update_of_ne behind.ne' _ _).trans (append_buffer _ _ ?_)
    rw [List.length_take]
    show 0 + _ ≤ i
    omega

/-- `"%d"` with 42, into one byte and into ten. -/
theorem snprintf_prefix_number : ∃ o₁ o₂, snprintf (fun _ => 'x') (fun _ => 'x') false 2 ['%', 'd'] (fun _ => 42) =
      some o₁ ∧ snprintf (fun _ => 'x') (fun _ => 'x') false 10 ['%', 'd'] (fun _ => 42) = some o₂ ∧
      o₁.text = o₂.text.take (2 - 1) ∧ o₁.written < 2 ∧ o₁.buffer o₁.written = '\x00' ∧
      (∀ i ∈ o₁.stores, i < 2) ∧ ∀ i, 2 ≤ i → o₁.buffer i = 'x' :=
  snprintf_prefix (fun _ => 'x') (fun _ => 'x') (fun _ => 'x') ['%', 'd'] trivial (fun _ => 42) 2 10 (by decide)
    (by decide)

end Output

section Lists

variable {memory : Nat → Char} {limit room : Nat} {first second : List Char}

theorem stringText_of_holds {s : Nat} {chars : List Char} (holds : HoldsString memory s chars) (room : Nat) :
    stringText memory room s = chars.take room := by
  induction room generalizing s chars with
  | zero => rfl
  | succ room ih =>
      rw [stringText]
      cases chars with
      | nil =>
          have ends : memory s = '\x00' := holds
          rw [if_neg (not_not.mpr ends), List.take_nil]
      | cons c chars =>
          obtain ⟨here, seen, rest⟩ := holds
          rw [here, if_pos seen, ih rest, List.take_succ_cons]

/-- The text of `%s`, as far as there is room. -/
theorem pointsTo_text {w : UInt32} {chars : Option (List Char)} (points : PointsTo memory w chars) :
    (if w ≠ 0 then stringText memory room w.toNat else []) = (Arg.str chars).text.take room := by
  cases chars with
  | none =>
      have null : w = 0 := points
      rw [if_neg (not_not.mpr null)]
      exact List.take_nil.symm
  | some chars =>
      obtain ⟨pointer, holds⟩ := points
      rw [if_pos pointer, stringText_of_holds holds]
      rfl

theorem stored_stored (limit : Nat) (out first second : List Char) :
    stored limit (stored limit out first) second = stored limit out (first ++ second) := by
  unfold stored
  rw [List.append_assoc, List.take_append, List.length_append, List.length_take]
  congr 3
  omega

/-- A text that is cut off where there is no room anyway. -/
theorem stored_cut (bound : limit ≤ room) (out first second : List Char) :
    stored limit out (first.take room ++ second) = stored limit out (first ++ second) := by
  rw [← stored_stored, ← stored_stored]
  unfold stored
  rw [List.take_take, Nat.min_eq_left (by omega)]

theorem formatLoop_full {out : List Char} (full : ¬ out.length < limit) (format : List Char) (l : List Arg) :
    formatLoop limit format l out = out := by
  rcases format with _ | ⟨c, _ | ⟨d, rest⟩⟩
  · rfl
  · rw [formatLoop, if_neg fun both => full both.1]
  · rw [formatLoop, if_neg full]

theorem stored_full {out : List Char} (full : ¬ out.length < limit) (chars : List Char) :
    stored limit out chars = out := by
  have none : limit - out.length = 0 := by omega
  rw [stored, none, List.take_zero, List.append_nil]

theorem stored_single {out : List Char} (more : out.length < limit) (c : Char) : out ++ [c] = stored limit out [c] := by
  rw [stored, List.take_of_length_le (by rw [List.length_singleton]; omega)]

/-- What is left of the format, after a text that is stored as far as there is room. -/
theorem formatLoop_after {format : List Char} {l : List Arg}
    (rest : ∀ out : List Char, out.length < limit → formatLoop limit format l out = stored limit out second)
    (out first : List Char) :
    formatLoop limit format l (stored limit out first) = stored limit out (first ++ second) := by
  rw [← stored_stored]
  by_cases more : (stored limit out first).length < limit
  · exact rest _ more
  · rw [formatLoop_full more, stored_full more]

/-- **The list model stores the text of the format** as well. -/
theorem formatLoop_stored (bound : limit ≤ room) (format : List Char) (args : Nat → UInt32) (l : List Arg)
    (finished : Finished format) (passes : Passes memory format args l) (out : List Char)
    (more : out.length < limit) :
    formatLoop limit format l out = stored limit out (formatText memory room format args) := by
  induction format, args using formatText.induct generalizing l out with
  | case1 args => exact (List.append_nil out).symm.trans (by rw [formatText, stored, List.take_nil])
  | case2 args => exact absurd rfl finished
  | case3 args c ordinary =>
      rw [formatText_ordinary ordinary, formatLoop, if_pos ⟨more, ordinary⟩, stored_single more]
      rfl
  | case4 rest args ih =>
      rw [finished_conversion] at finished
      rw [Passes, if_pos rfl, if_pos rfl] at passes
      obtain ⟨⟨chars, string, points⟩, passes⟩ := passes
      rw [formatText_string, formatLoop, if_pos more, if_pos rfl, if_pos rfl, string, pointsTo_text points,
        stored_cut bound]
      exact formatLoop_after (ih _ finished passes) out _
  | case5 rest args noS ih =>
      rw [finished_conversion] at finished
      rw [Passes, if_pos rfl, if_neg noS, if_pos (.inl rfl)] at passes
      rw [formatText_number, formatLoop, if_pos more, if_pos rfl, if_neg noS, if_pos rfl, passes.1, decimalText_eq]
      exact formatLoop_after (ih _ finished passes.2) out _
  | case6 rest args noS noD ih =>
      rw [finished_conversion] at finished
      rw [Passes, if_pos rfl, if_neg noS, if_pos (.inr rfl)] at passes
      rw [formatText_hex, formatLoop, if_pos more, if_pos rfl, if_neg noS, if_neg noD, if_pos rfl, passes.1,
        hexStack_eq]
      exact formatLoop_after (ih _ finished passes.2) out _
  | case7 rest args noS noD noX ih =>
      rw [finished_conversion] at finished
      rw [Passes, if_pos rfl, if_neg noS, if_neg (by decide)] at passes
      rw [formatText_percent, formatLoop, if_pos more, if_pos rfl, if_neg noS, if_neg noD, if_neg noX, if_pos rfl,
        stored_single more]
      exact formatLoop_after (ih _ finished passes) out _
  | case8 d rest args noS noD noX noPercent ih =>
      rw [finished_conversion] at finished
      rw [Passes, if_pos rfl, if_neg noS, if_neg (not_or.mpr ⟨noD, noX⟩)] at passes
      rw [formatText_unknown noS noD noX noPercent, formatLoop, if_pos more, if_pos rfl, if_neg noS, if_neg noD,
        if_neg noX, if_neg noPercent]
      exact ih _ finished passes out more
  | case9 c d rest args ordinary ih =>
      rw [Finished, if_neg ordinary] at finished
      rw [Passes, if_neg ordinary] at passes
      rw [formatText_ordinary ordinary, formatLoop, if_pos more, if_neg ordinary, stored_single more]
      exact formatLoop_after (ih _ finished passes) out _

/-- **The characters in the buffer are those of `Strings.snprintf`.** -/
theorem snprintf_arg (str : Nat → Char) {size : Nat} (one : 1 ≤ size) {format : List Char}
    (finished : Finished format) {args : Nat → UInt32} {l : List Arg} (passes : Passes memory format args l) :
    ∃ o, Output.snprintf memory str false size format args = some o ∧ o.text = snprintf size format l := by
  refine ⟨_, Output.snprintf_append str one le_rfl finished args, ?_⟩
  rw [Output.finish_text, Output.append_text, snprintf, if_neg (by omega)]
  show [] ++ _ = _
  rw [List.nil_append]
  by_cases more : ([] : List Char).length < size - 1
  · rw [formatLoop_stored le_rfl format args l finished passes [] more]
    rfl
  · rw [List.length_nil] at more
    have none : size - 1 = 0 := by omega
    rw [none, List.take_zero]
    exact (formatLoop_full (Nat.lt_irrefl 0) format l).symm

end Lists

end Kfs.Strings
