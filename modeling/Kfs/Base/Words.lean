/-
**Words.**

The words of a line are its maximal runs of characters that are not blank. `cutWords` takes words off a line
until a limit is reached, and then leaves what follows uncut, like a split with a greatest number of pieces.
The pieces are the first words exactly when the limit was not reached or nothing follows the last of
them: `cutIsExact_iff`.
-/

import Mathlib.Tactic

namespace Kfs

variable {α : Type} {blank : α → Bool} {c : α} {line word rest : List α} {limit : Nat}

/-- The words of a line. -/
def words (blank : α → Bool) (line : List α) : List (List α) := (line.splitOnP blank).filter (· ≠ [])

/-- At most `limit` pieces of a line: words, and what is left from the last one on. -/
def cutWords (blank : α → Bool) : (limit : Nat) → List α → List (List α)
  | 0, _ => []
  | limit + 1, line =>
      match line.dropWhile blank with
      | [] => []
      | rest =>
          if limit = 0 then [rest]
          else rest.takeWhile (!blank ·) :: cutWords blank limit (rest.dropWhile (!blank ·))

theorem words_nil : words blank [] = [] := by
  rw [words, List.splitOnP_nil]
  rfl

/-- A blank in front does not matter. -/
theorem words_blank (skip : blank c = true) : words blank (c :: line) = words blank line := by
  rw [words, List.splitOnP_cons_eq_if_modifyHead, if_pos skip, List.filter_cons_of_neg (by simp), words]

/-- The last word of a line. -/
theorem words_single (some : word ≠ []) (visible : ∀ c ∈ word, blank c = false) : words blank word = [word] := by
  rw [words, List.splitOnP_eq_singleton visible, List.filter_cons_of_pos (by simpa using some), List.filter_nil]

/-- **A word and a blank** in front. -/
theorem words_append (some : word ≠ []) (visible : ∀ c ∈ word, blank c = false) (skip : blank c = true) :
    words blank (word ++ c :: rest) = word :: words blank rest := by
  rw [words, List.splitOnP_append_cons_of_forall_mem visible c skip,
    List.filter_cons_of_pos (by simpa using some), words]

theorem words_dropWhile (line : List α) : words blank (line.dropWhile blank) = words blank line := by
  induction line with
  | nil => rfl
  | cons c line ih =>
      by_cases skip : blank c = true
      · rw [List.dropWhile_cons_of_pos skip, words_blank skip, ih]
      · rw [List.dropWhile_cons_of_neg skip]

/-- Every character of the first word of a line is visible. -/
theorem takeWhile_visible (line : List α) : ∀ d ∈ line.takeWhile (!blank ·), blank d = false :=
  fun d member => by simpa using List.all_eq_true.mp List.all_takeWhile d member

/-- **The first word** and the rest of a line that begins with a visible character. -/
theorem words_visible (visible : blank c = false) : words blank (c :: line) =
    (c :: line).takeWhile (!blank ·) :: words blank ((c :: line).dropWhile (!blank ·)) := by
  have some : (c :: line).takeWhile (!blank ·) ≠ [] := by
    rw [List.takeWhile_cons_of_pos (by simpa using visible)]
    exact List.cons_ne_nil _ _
  have whole := List.takeWhile_append_dropWhile (p := (!blank ·)) (l := c :: line)
  cases after : (c :: line).dropWhile (!blank ·) with
  | nil =>
      rw [after, List.append_nil] at whole
      rw [words_nil, whole]
      exact words_single (List.cons_ne_nil _ _) (by rw [← whole]; exact takeWhile_visible _)
  | cons d rest =>
      have skip : blank d = true := by
        have head := List.head_dropWhile_not (!blank ·) (l := c :: line) (by rw [after]; exact List.cons_ne_nil _ _)
        simpa [after] using head
      rw [after] at whole
      rw [words_blank skip, ← words_append some (takeWhile_visible _) skip, whole]

theorem words_eq_nil_iff : words blank line = [] ↔ ∀ d ∈ line, blank d = true := by
  induction line with
  | nil => simp [words_nil]
  | cons c line ih =>
      by_cases skip : blank c = true
      · rw [words_blank skip, ih, List.forall_mem_cons]
        simp [skip]
      · rw [words_visible (by simpa using skip)]
        simp [skip]

/-! ### Cutting -/

theorem cutWords_blank (skip : blank c = true) : cutWords blank limit (c :: line) = cutWords blank limit line := by
  cases limit with
  | zero => rfl
  | succ limit => rw [cutWords, cutWords, List.dropWhile_cons_of_pos skip]

theorem cutWords_nil : cutWords blank limit [] = [] := by
  cases limit <;> rfl

theorem cutWords_visible (visible : blank c = false) : cutWords blank (limit + 1) (c :: line) =
    if limit = 0 then [c :: line]
    else (c :: line).takeWhile (!blank ·) :: cutWords blank limit ((c :: line).dropWhile (!blank ·)) := by
  rw [cutWords, List.dropWhile_cons_of_neg (by simp [visible])]

/-- The line ends in a word. -/
def EndsInWord (blank : α → Bool) (line : List α) : Prop := ∀ c ∈ line.getLast?, blank c = false

theorem EndsInWord.append_iff (some : rest ≠ []) : EndsInWord blank (word ++ rest) ↔ EndsInWord blank rest := by
  unfold EndsInWord
  rw [List.getLast?_append_of_ne_nil _ some]

theorem cutWords_dropWhile (line : List α) :
    cutWords blank limit (line.dropWhile blank) = cutWords blank limit line := by
  induction line with
  | nil => rfl
  | cons c line ih =>
      by_cases skip : blank c = true
      · rw [List.dropWhile_cons_of_pos skip, cutWords_blank skip, ih]
      · rw [List.dropWhile_cons_of_neg skip]

/-- The pieces are the first words. -/
def CutIsExact (blank : α → Bool) (limit : Nat) (line : List α) : Prop :=
  cutWords blank limit line = (words blank line).take limit

/-- The limit was not reached, or the last word that it allows ends the line. -/
def NothingFollows (blank : α → Bool) (limit : Nat) (line : List α) : Prop :=
  (words blank line).length < limit ∨ (words blank line).length = limit ∧ EndsInWord blank line

/-- One piece is the first word when the line has no more. -/
theorem cutIsExact_one (visible : blank c = false) :
    CutIsExact blank 1 (c :: line) ↔ NothingFollows blank 1 (c :: line) := by
  have whole := List.takeWhile_append_dropWhile (p := (!blank ·)) (l := c :: line)
  unfold CutIsExact NothingFollows
  rw [cutWords_visible visible, if_pos rfl, words_visible visible, List.take_succ_cons, List.take_zero,
    List.cons.injEq, List.length_cons]
  cases after : (c :: line).dropWhile (!blank ·) with
  | nil =>
      rw [after, List.append_nil] at whole
      rw [whole, words_nil]
      refine iff_of_true ⟨rfl, rfl⟩ (.inr ⟨rfl, fun d last => ?_⟩)
      have member : d ∈ (c :: line).takeWhile (!blank ·) := by
        rw [whole]
        exact List.mem_of_getLast? last
      exact takeWhile_visible _ d member
  | cons d rest =>
      rw [after] at whole
      refine iff_of_false ?_ ?_
      · rintro ⟨same, -⟩
        rw [← same] at whole
        exact List.cons_ne_nil d rest (List.append_right_eq_self.mp whole)
      · rintro (less | ⟨one, ends⟩)
        · omega
        · have none : words blank (d :: rest) = [] := List.length_eq_zero_iff.mp (by omega)
          rw [← whole, EndsInWord.append_iff (List.cons_ne_nil _ _)] at ends
          have last := List.getLast?_eq_getLast_of_ne_nil (List.cons_ne_nil d rest)
          have skipped := words_eq_nil_iff.mp none _ (List.getLast_mem (List.cons_ne_nil d rest))
          rw [ends _ last] at skipped
          cases skipped

/-- One more word, before what is left. -/
theorem cutIsExact_succ (visible : blank c = false)
    (ih : CutIsExact blank (limit + 1) ((c :: line).dropWhile (!blank ·)) ↔
      NothingFollows blank (limit + 1) ((c :: line).dropWhile (!blank ·))) :
    CutIsExact blank (limit + 2) (c :: line) ↔ NothingFollows blank (limit + 2) (c :: line) := by
  have whole := List.takeWhile_append_dropWhile (p := (!blank ·)) (l := c :: line)
  unfold CutIsExact NothingFollows at ih ⊢
  rw [cutWords_visible visible, if_neg (Nat.succ_ne_zero limit), words_visible visible, List.take_succ_cons,
    List.cons.injEq, and_iff_right rfl, ih, List.length_cons, Nat.add_lt_add_iff_right, Nat.add_right_cancel_iff]
  cases after : (c :: line).dropWhile (!blank ·) with
  | nil => exact iff_of_true (.inl (by simp [words_nil])) (.inl (by simp [words_nil]))
  | cons d rest =>
      rw [after] at whole
      rw [← whole, EndsInWord.append_iff (List.cons_ne_nil _ _)]

/-- **When the pieces are the first words.** -/
theorem cutIsExact_iff (line : List α) (limit : Nat) :
    CutIsExact blank (limit + 1) line ↔ NothingFollows blank (limit + 1) line := by
  -- blanks in front change neither side
  have front := List.takeWhile_append_dropWhile (p := blank) (l := line)
  cases rest : line.dropWhile blank with
  | nil =>
      have none : words blank line = [] := by rw [← words_dropWhile, rest, words_nil]
      have nothing : cutWords blank (limit + 1) line = [] := by rw [← cutWords_dropWhile, rest, cutWords_nil]
      unfold CutIsExact NothingFollows
      rw [none, nothing]
      exact iff_of_true rfl (.inl (Nat.succ_pos limit))
  | cons c tail =>
      have visible : blank c = false := by
        have head := List.head_dropWhile_not blank (l := line) (by rw [rest]; exact List.cons_ne_nil _ _)
        simpa [rest] using head
      rw [rest] at front
      have exact_iff : CutIsExact blank (limit + 1) line ↔ CutIsExact blank (limit + 1) (c :: tail) := by
        rw [CutIsExact, CutIsExact, ← words_dropWhile line, ← cutWords_dropWhile line, rest]
      have follows_iff : NothingFollows blank (limit + 1) line ↔ NothingFollows blank (limit + 1) (c :: tail) := by
        rw [NothingFollows, NothingFollows, ← words_dropWhile line, rest, ← front,
          EndsInWord.append_iff (List.cons_ne_nil _ _)]
      rw [exact_iff, follows_iff]
      cases limit with
      | zero => exact cutIsExact_one visible
      | succ limit => exact cutIsExact_succ visible (cutIsExact_iff _ limit)
termination_by limit

end Kfs
