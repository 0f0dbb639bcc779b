/-
**The words of a command line: `shell_parse_args`.**

The loop goes through the line once, notes where each word begins and overwrites the blank behind it. It
stops as soon as it has `max_args` words, right behind the first character of the last one, so that one is
never ended: its string is what is left of the line (`shellParseArgs_cut`). The arguments are the words of
the line exactly when there are fewer than `max_args` or nothing follows the last: `parse_args_iff`.
-/

import Kfs.Base.Outcome
import Kfs.Base.Text
import Kfs.Base.Words
import Kfs.Shell.Editors

namespace Kfs.Shell

/-- A space, a tab or a newline. -/
def isBlank (c : Char) : Bool := c = ' ' ∨ c = '\t' ∨ c = '\n'

/-- The loop of `shell_parse_args`, from the address `p`; `argv` lists the arguments found. -/
def parseLoop (maxArgs : Nat) : (fuel : Nat) → (cells : Nat → Char) → (p : Nat) → (argv : List Nat) →
    (inArg : Bool) → Outcome ((Nat → Char) × List Nat)
  | 0, _, _, _, _ => .diverge
  | fuel + 1, cells, p, argv, inArg =>
      if cells p ≠ nul ∧ argv.length < maxArgs then
        if isBlank (cells p) then
          if inArg then parseLoop maxArgs fuel (Function.update cells p nul) (p + 1) argv false
          else parseLoop maxArgs fuel cells (p + 1) argv inArg
        else if inArg = false then parseLoop maxArgs fuel cells (p + 1) (argv ++ [p]) true
        else parseLoop maxArgs fuel cells (p + 1) argv inArg
      else .ok (cells, argv)

/-- `shell_parse_args`: the memory afterwards, and the addresses in `argv`. No line has `fuel` characters. -/
def shellParseArgs (fuel : Nat) (cells : Nat → Char) (cmdline maxArgs : Nat) :
    Outcome ((Nat → Char) × List Nat) :=
  parseLoop maxArgs fuel cells cmdline [] false

/-- The strings at some addresses. -/
def StringsAt (cells : Nat → Char) (argv : List Nat) (texts : List (List Char)) : Prop :=
  List.Forall₂ (fun p s => StringAt nul cells p s) argv texts

/-- **The arguments are the words**: `argc` is the number of words up to `max_args`, and each string of
`argv` is the word of that number. -/
def ParsesWords (fuel : Nat) (cells : Nat → Char) (cmdline maxArgs : Nat) (line : List Char) : Prop :=
  ∃ cells' argv, shellParseArgs fuel cells cmdline maxArgs = .ok (cells', argv) ∧
    argv.length = min (words isBlank line).length maxArgs ∧
    StringsAt cells' argv ((words isBlank line).take maxArgs)

section Parse

variable {maxArgs fuel p : Nat} {cells cells' : Nat → Char} {argv : List Nat} {line rest word : List Char}
  {texts texts' : List (List Char)}

theorem StringsAt.unique (first : StringsAt cells argv texts) (second : StringsAt cells argv texts') :
    texts = texts' := by
  induction first generalizing texts' with
  | nil =>
      cases second
      rfl
  | cons here _ ih =>
      cases second with
      | cons also later => rw [here.unique also, ih later]

/-- What the loop makes of a line between two words. -/
structure FromBlank (maxArgs : Nat) (cells : Nat → Char) (p : Nat) (argv : List Nat) (rest : List Char)
    (cells' : Nat → Char) (starts : List Nat) : Prop where
  strings : StringsAt cells' starts (cutWords isBlank (maxArgs - argv.length) rest)
  before : ∀ x < p, cells' x = cells x

/-- What it makes of a line in the middle of a word, which begins at `q`. -/
structure FromWord (maxArgs : Nat) (cells : Nat → Char) (q p : Nat) (word : List Char) (argv : List Nat)
    (rest : List Char) (cells' : Nat → Char) (starts : List Nat) : Prop where
  word : StringAt nul cells' q (word ++ rest.takeWhile (!isBlank ·))
  strings : StringsAt cells' starts
    (cutWords isBlank (maxArgs - argv.length) (rest.dropWhile (!isBlank ·)))
  before : ∀ x < p, cells' x = cells x

/-- From every place between two words, the loop makes this of the rest of the line. -/
def ParsesFromBlank (maxArgs : Nat) (rest : List Char) : Prop :=
  ∀ fuel cells p (argv : List Nat), rest.length < fuel → StringAt nul cells p rest →
    argv.length ≤ maxArgs → ∃ cells' starts,
      parseLoop maxArgs fuel cells p argv false = .ok (cells', argv ++ starts) ∧
        FromBlank maxArgs cells p argv rest cells' starts

/-- From every place in the middle of a word, the loop makes this of the rest of the line. -/
def ParsesFromWord (maxArgs : Nat) (rest : List Char) : Prop :=
  ∀ fuel cells p q word (argv : List Nat), rest.length < fuel → StringAt nul cells p rest →
    argv.length < maxArgs → Spells cells q word → nul ∉ word → q + word.length = p →
    ∃ cells' starts, parseLoop maxArgs fuel cells p argv true = .ok (cells', argv ++ starts) ∧
      FromWord maxArgs cells q p word argv rest cells' starts

theorem parsesFromBlank_nil : ParsesFromBlank maxArgs [] := by
  intro fuel cells p argv enough string room
  obtain ⟨fuel, rfl⟩ := Nat.exists_eq_succ_of_ne_zero (Nat.ne_zero_of_lt enough)
  refine ⟨cells, [], ?_, ?_, fun _ _ => rfl⟩
  · rw [parseLoop, if_neg (fun more => more.1 (stringAt_nil.mp string)), List.append_nil]
  · rw [cutWords_nil]
    exact .nil

theorem parsesFromWord_nil : ParsesFromWord maxArgs [] := by
  intro fuel cells p q word argv enough string room spells clean place
  obtain ⟨fuel, rfl⟩ := Nat.exists_eq_succ_of_ne_zero (Nat.ne_zero_of_lt enough)
  have ends := stringAt_nil.mp string
  refine ⟨cells, [], ?_, ?_, ?_, fun _ _ => rfl⟩
  · rw [parseLoop, if_neg (fun more => more.1 ends), List.append_nil]
  · rw [List.takeWhile_nil, List.append_nil]
    exact ⟨spells, clean, by rw [place, ends]⟩
  · rw [List.dropWhile_nil, cutWords_nil]
    exact .nil

/-- A character between two words: a blank, the first one of a word, or of the last word. -/
theorem parsesFromBlank_cons (blankly : ParsesFromBlank maxArgs rest) (wordly : ParsesFromWord maxArgs rest)
    (c : Char) : ParsesFromBlank maxArgs (c :: rest) := by
  intro fuel cells p argv enough string room
  obtain ⟨fuel, rfl⟩ := Nat.exists_eq_succ_of_ne_zero (Nat.ne_zero_of_lt enough)
  have enough : rest.length < fuel := Nat.lt_of_succ_lt_succ enough
  obtain ⟨here, visible, later⟩ := stringAt_cons.mp string
  rw [parseLoop, here]
  by_cases more : argv.length < maxArgs
  · rw [if_pos ⟨visible, more⟩]
    by_cases blank : isBlank c = true
    · rw [if_pos blank, if_neg Bool.false_ne_true]
      obtain ⟨cells', starts, done, strings, before⟩ := blankly fuel cells (p + 1) argv enough later room
      refine ⟨cells', starts, done, ?_, fun x less => before x (by omega)⟩
      rwa [cutWords_blank blank]
    · rw [if_neg blank, if_pos rfl]
      have plain : isBlank c = false := by simpa using blank
      by_cases last : argv.length + 1 < maxArgs
      · -- a word with room for another behind it
        obtain ⟨cells', starts, done, word, strings, before⟩ :=
          wordly fuel cells (p + 1) p [c] (argv ++ [p]) enough later (by simpa using last)
            (spells_cons.mpr ⟨here, spells_nil⟩) (by simpa using visible.symm) rfl
        refine ⟨cells', p :: starts, ?_, ?_, fun x less => before x (by omega)⟩
        · rw [done, List.append_assoc, List.singleton_append]
        · obtain ⟨left, shape⟩ : ∃ left, maxArgs - argv.length = left + 1 + 1 :=
            ⟨maxArgs - argv.length - 2, by omega⟩
          have fewer : maxArgs - (argv ++ [p]).length = left + 1 := by
            rw [List.length_append, List.length_singleton]
            omega
          rw [fewer] at strings
          rw [shape, cutWords_visible plain, if_neg (Nat.succ_ne_zero left),
            List.takeWhile_cons_of_pos (by simpa using plain),
            List.dropWhile_cons_of_pos (by simpa using plain)]
          exact .cons word strings
      · -- the last word: the loop stops behind its first character
        have full : ¬ (argv ++ [p]).length < maxArgs := by simpa using last
        have one : maxArgs - argv.length = 0 + 1 := by omega
        obtain ⟨fuel, rfl⟩ := Nat.exists_eq_succ_of_ne_zero (Nat.ne_zero_of_lt enough)
        refine ⟨cells, [p], ?_, ?_, fun _ _ => rfl⟩
        · rw [parseLoop, if_neg (fun both => full both.2)]
        · rw [one, cutWords_visible plain, if_pos rfl]
          exact .cons string .nil
  · have none : maxArgs - argv.length = 0 := by omega
    refine ⟨cells, [], ?_, ?_, fun _ _ => rfl⟩
    · rw [if_neg (fun both => more both.2), List.append_nil]
    · rw [none]
      exact .nil

/-- A character behind a word: the blank that ends it, or one more of its characters. -/
theorem parsesFromWord_cons (blankly : ParsesFromBlank maxArgs rest) (wordly : ParsesFromWord maxArgs rest)
    (c : Char) : ParsesFromWord maxArgs (c :: rest) := by
  intro fuel cells p q word argv enough string room spells clean place
  obtain ⟨fuel, rfl⟩ := Nat.exists_eq_succ_of_ne_zero (Nat.ne_zero_of_lt enough)
  have enough : rest.length < fuel := Nat.lt_of_succ_lt_succ enough
  obtain ⟨here, visible, later⟩ := stringAt_cons.mp string
  rw [parseLoop, here, if_pos ⟨visible, room⟩]
  by_cases blank : isBlank c = true
  · -- the word is ended here
    rw [if_pos blank, if_pos rfl]
    have ended := spells.ended clean
    rw [place] at ended
    have kept : StringAt nul (Function.update cells p nul) (p + 1) rest :=
      later.congr fun k _ => Function.update_of_ne (by omega) _ _
    obtain ⟨cells', starts, done, strings, before⟩ := blankly fuel _ (p + 1) argv enough kept room.le
    refine ⟨cells', starts, done, ?_, ?_, fun x less => ?_⟩
    · rw [List.takeWhile_cons_of_neg (by simpa using blank), List.append_nil]
      exact ended.congr fun k less => before (q + k) (by omega)
    · rwa [List.dropWhile_cons_of_neg (by simpa using blank), cutWords_blank blank]
    · rw [before x (by omega), Function.update_of_ne (by omega)]
  · rw [if_neg blank, if_neg (by decide)]
    have plain : isBlank c = false := by simpa using blank
    obtain ⟨cells', starts, done, whole, strings, before⟩ :=
      wordly fuel cells (p + 1) q (word ++ [c]) argv enough later room
        (spells.append (by rw [place]; exact spells_cons.mpr ⟨here, spells_nil⟩))
        (by simpa using ⟨clean, visible.symm⟩)
        (by rw [List.length_append, ← Nat.add_assoc, place]; rfl)
    refine ⟨cells', starts, done, ?_, ?_, fun x less => before x (by omega)⟩
    · rwa [List.takeWhile_cons_of_pos (by simpa using plain), ← List.singleton_append, ← List.append_assoc]
    · rwa [List.dropWhile_cons_of_pos (by simpa using plain)]

/-- **The loop, between two words and in the middle of one.** Both are functions of the rest of the line. -/
theorem parseLoop_spec (rest : List Char) : ParsesFromBlank maxArgs rest ∧ ParsesFromWord maxArgs rest := by
  induction rest with
  | nil => exact ⟨parsesFromBlank_nil, parsesFromWord_nil⟩
  | cons c rest ih => exact ⟨parsesFromBlank_cons ih.1 ih.2 c, parsesFromWord_cons ih.1 ih.2 c⟩

/-- **What `shell_parse_args` gives**: the words of the line, the last one that the limit allows with all
that follows it. -/
theorem shellParseArgs_cut (string : StringAt nul cells p line) (enough : line.length < fuel) :
    ∃ cells' argv, shellParseArgs fuel cells p maxArgs = .ok (cells', argv) ∧
      StringsAt cells' argv (cutWords isBlank maxArgs line) := by
  obtain ⟨cells', starts, done, strings, -⟩ :=
    (parseLoop_spec line).1 fuel cells p [] enough string (Nat.zero_le maxArgs)
  exact ⟨cells', starts, done, strings⟩

/-- **Exactly when the arguments are the words of the line**: there are fewer than `max_args` words, or as
many, and the line ends in the last. -/
theorem parse_args_iff (string : StringAt nul cells p line) (enough : line.length < fuel)
    (some : 0 < maxArgs) :
    ParsesWords fuel cells p maxArgs line ↔
      (words isBlank line).length < maxArgs ∨
        (words isBlank line).length = maxArgs ∧ EndsInWord isBlank line := by
  obtain ⟨cells', argv, done, strings⟩ := @shellParseArgs_cut maxArgs _ _ _ _ string enough
  obtain ⟨limit, rfl⟩ := Nat.exists_eq_succ_of_ne_zero some.ne'
  have exact_iff := @cutIsExact_iff _ isBlank line limit
  unfold NothingFollows CutIsExact at exact_iff
  rw [Nat.succ_eq_add_one, ← exact_iff]
  constructor
  · rintro ⟨cells'', argv', also, -, parsed⟩
    obtain ⟨rfl, rfl⟩ := Prod.mk.inj (Outcome.ok.inj (done.symm.trans also))
    exact strings.unique parsed
  · intro same
    rw [same] at strings
    refine ⟨cells', argv, done, ?_, strings⟩
    rw [List.Forall₂.length_eq strings, List.length_take, Nat.min_comm]

end Parse

/-- `ls -l` in memory. -/
def lsLine (x : Nat) : Char := ['l', 's', ' ', '-', 'l'].getD x nul

theorem lsLine_string : StringAt nul lsLine 0 ['l', 's', ' ', '-', 'l'] := by
  refine ⟨?_, by decide, rfl⟩
  unfold Spells
  decide

theorem parse_args_ls : ParsesWords 6 lsLine 0 16 ['l', 's', ' ', '-', 'l'] :=
  (parse_args_iff lsLine_string (by decide) (by decide)).mpr (.inl (by decide))

/-- Sixteen words and a space: the last argument is `p` and the space. -/
def longLine : List Char := "a b c d e f g h i j k l m n o p ".toList

theorem longLine_string : StringAt nul (fun x => longLine.getD x nul) 0 longLine := by
  refine ⟨?_, by decide, rfl⟩
  unfold Spells
  decide

theorem last_argument_open : (words isBlank longLine).length = 16 ∧
    (cutWords isBlank 16 longLine).getLast? = some ['p', ' '] ∧
    ¬ ParsesWords 64 (fun x => longLine.getD x nul) 0 16 longLine := by
  refine ⟨by decide, by decide, ?_⟩
  rintro ⟨cells', argv, done, -, parsed⟩
  obtain ⟨cells'', argv', also, strings⟩ := @shellParseArgs_cut 16 64 _ _ _ longLine_string (by decide)
  obtain ⟨rfl, rfl⟩ := Prod.mk.inj (Outcome.ok.inj (done.symm.trans also))
  exact absurd (strings.unique parsed) (by decide)

end Kfs.Shell
