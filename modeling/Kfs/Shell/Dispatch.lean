/-
**Which function a line calls: `shell_process_command`.**
The line is copied to a local array, cut into arguments there, and the first argument is compared with one name of
the table after the other. Whatever memory held and wherever the line lies, the function called is that of the
first word, and its arguments are the pieces that `shell_parse_args` leaves: `processCommand_calls`.
-/

import Mathlib.Data.List.TakeWhile
import Kfs.Shell.Arguments
import Kfs.Vfs.Walk

namespace Kfs.Shell

open Kfs.Strings Kfs.Vfs

/-- `SHELL_MAX_ARGS`. -/
def shellMaxArgs : Nat := 16

/-- The functions in the table. -/
inductive Command where
  | cmdHelp | cmdClear | cmdStack | cmdStacktrace | cmdGdt | cmdIdt | cmdMem | cmdKmallocStats | cmdVmallocStats
  | cmdMemtest | cmdPanic | cmdSignal | cmdSyscall | cmdProcess | cmdFork | cmdPsignal | cmdMmap | cmdCat | cmdPwd
  | cmdCd | cmdLs | cmdMount | cmdUmount | cmdLogin | cmdWhoami | cmdReboot | cmdHalt | cmdEcho | cmdAbout
  deriving DecidableEq, Repr

/-- `commands`, up to the sentinel. -/
def commands : List (List Char × Command) :=
  [("help".toList, .cmdHelp), ("clear".toList, .cmdClear), ("stack".toList, .cmdStack),
    ("stacktrace".toList, .cmdStacktrace), ("gdt".toList, .cmdGdt), ("idt".toList, .cmdIdt), ("mem".toList, .cmdMem),
    ("kstats".toList, .cmdKmallocStats), ("vstats".toList, .cmdVmallocStats), ("memtest".toList, .cmdMemtest),
    ("panic".toList, .cmdPanic), ("signal".toList, .cmdSignal), ("syscall".toList, .cmdSyscall),
    ("process".toList, .cmdProcess), ("fork".toList, .cmdFork), ("psignal".toList, .cmdPsignal),
    ("mmap".toList, .cmdMmap), ("cat".toList, .cmdCat), ("pwd".toList, .cmdPwd), ("cd".toList, .cmdCd),
    ("ls".toList, .cmdLs), ("mount".toList, .cmdMount), ("umount".toList, .cmdUmount), ("login".toList, .cmdLogin),
    ("whoami".toList, .cmdWhoami), ("reboot".toList, .cmdReboot), ("halt".toList, .cmdHalt), ("echo".toList, .cmdEcho),
    ("about".toList, .cmdAbout)]

/-- A function and the strings of its `argv`. Without a function the shell says that the command is unknown. -/
structure Call where
  handler : Option Command
  argv : List (List Char)
  deriving DecidableEq, Repr

/-- The loop over the table. -/
def findCommand (cells : Nat → Char) (name : Nat) : List (List Char × Command) → Option Command
  | [] => none
  | (text, handler) :: rest => if equalsLiteral cells name text then some handler else findCommand cells name rest

/-- `shell_process_command`, of the string at an address; `cmdCopy` is where the local array lies. -/
def shellProcessCommand (cells : Nat → Char) (command cmdCopy : Nat) : Outcome (Option Call) :=
  if command = 0 ∨ cells command = nul ∨ cells command = '\n' then .ok none
  else do
    let cells := strncpy cells cmdCopy command (shellBufferSize - 1)
    let cells := Function.update cells (cmdCopy + (shellBufferSize - 1)) nul
    let (cells, argv) ← shellParseArgs shellBufferSize cells cmdCopy shellMaxArgs
    match argv with
    | [] => return none
    | name :: _ => return some ⟨findCommand cells name commands, argv.map (readString nul cells shellBufferSize)⟩

/-- **What a line calls**: the function of its first word, with the pieces of the line. -/
def callOf (line : List Char) : Option Call :=
  match cutWords isBlank shellMaxArgs line with
  | [] => none
  | name :: args => some ⟨(commands.find? fun entry => entry.1 = name).map Prod.snd, name :: args⟩

section Dispatch

variable {cells : Nat → Char} {command cmdCopy p fuel : Nat} {line s text : List Char} {argv : List Nat}
  {texts : List (List Char)} {table : List (List Char × Command)}

/-- **Comparing with a literal** is comparing strings. -/
theorem equalsLiteral_eq (string : StringAt nul cells p s) (plain : nul ∉ text) :
    equalsLiteral cells p text = decide (s = text) := by
  induction text generalizing p s with
  | nil =>
      cases s with
      | nil => simp [equalsLiteral, stringAt_nil.mp string]
      | cons c s =>
          obtain ⟨here, visible, -⟩ := stringAt_cons.mp string
          simp [equalsLiteral, here, visible]
  | cons d text ih =>
      have visible : d ≠ nul := fun same => plain (same ▸ List.mem_cons_self)
      cases s with
      | nil =>
          rw [equalsLiteral, stringAt_nil.mp string]
          simp [visible.symm]
      | cons c s =>
          obtain ⟨here, -, later⟩ := stringAt_cons.mp string
          rw [equalsLiteral, ih later fun member => plain (List.mem_cons_of_mem d member), here]
          simp

/-- **The loop over the table** finds the function of the name. -/
theorem findCommand_eq (string : StringAt nul cells p s) (plain : ∀ entry ∈ table, nul ∉ entry.1) :
    findCommand cells p table = (table.find? fun entry => entry.1 = s).map Prod.snd := by
  induction table with
  | nil => rfl
  | cons entry table ih =>
      obtain ⟨text, handler⟩ := entry
      have here := equalsLiteral_eq string (plain (text, handler) List.mem_cons_self)
      have later := ih fun other member => plain other (List.mem_cons_of_mem _ member)
      rw [findCommand, here, List.find?_cons, later]
      by_cases same : s = text
      · subst same
        simp
      · simp [same, Ne.symm same]

theorem commands_plain : ∀ entry ∈ commands, nul ∉ entry.1 := by decide

/-- What stands in `argv` is read back. -/
theorem StringsAt.read (strings : StringsAt cells argv texts) (short : ∀ text ∈ texts, text.length < fuel) :
    argv.map (readString nul cells fuel) = texts := by
  induction strings with
  | nil => rfl
  | cons string _ ih =>
      rw [List.map_cons, string.read (short _ List.mem_cons_self),
        ih fun text member => short text (List.mem_cons_of_mem _ member)]

/-- Pieces are no longer than the line. -/
theorem cutWords_length {limit : Nat} (member : text ∈ cutWords isBlank limit line) :
    text.length ≤ line.length := by
  induction limit generalizing line with
  | zero => cases member
  | succ limit ih =>
      have dropped := List.length_dropWhile_le isBlank line
      unfold cutWords at member
      split at member
      · cases member
      · rename_i rest _
        split at member
        · rw [List.mem_singleton.mp member]
          exact dropped
        · rcases List.mem_cons.mp member with rfl | later
          · exact (List.takeWhile_prefix _).length_le.trans dropped
          · exact (ih later).trans ((List.length_dropWhile_le _ _).trans dropped)

/-- **A line calls the function of its first word.** Whatever memory holds, for a line of at most 255 characters
that does not begin with a newline, anywhere outside the local array. -/
theorem processCommand_calls (string : StringAt nul cells command line) (valid : command ≠ 0)
    (first : line.head? ≠ some '\n') (short : line.length ≤ 255)
    (apart : command + line.length < cmdCopy ∨ cmdCopy + shellBufferSize ≤ command) :
    shellProcessCommand cells command cmdCopy = .ok (callOf line) := by
  unfold shellProcessCommand
  cases line with
  | nil =>
      rw [if_pos (.inr (.inl (stringAt_nil.mp string)))]
      rfl
  | cons c rest =>
      obtain ⟨here, visible, -⟩ := stringAt_cons.mp string
      have other : c ≠ '\n' := fun same => first (congrArg some same)
      have going : ¬ (command = 0 ∨ cells command = nul ∨ cells command = '\n') := by
        rw [here]
        rintro (zero | ended | broken)
        · exact valid zero
        · exact visible ended
        · exact other broken
      have copy : StringAt nul (Function.update (strncpy cells cmdCopy command (shellBufferSize - 1))
          (cmdCopy + (shellBufferSize - 1)) nul) cmdCopy ((c :: rest).take (shellBufferSize - 1)) :=
        strncpy_string string (by unfold shellBufferSize at *; omega)
      rw [List.take_of_length_le (show (c :: rest).length ≤ shellBufferSize - 1 from short)] at copy
      obtain ⟨cells', argv, parsed, strings⟩ := @shellParseArgs_cut shellMaxArgs _ _ _ _ copy
        (show (c :: rest).length < shellBufferSize from Nat.lt_succ_of_le short)
      rw [if_neg going]
      dsimp only
      rw [parsed, Outcome.ok_bind]
      have lengths : ∀ text ∈ cutWords isBlank shellMaxArgs (c :: rest), text.length < shellBufferSize :=
        fun text member => Nat.lt_succ_of_le ((cutWords_length member).trans short)
      have texts := strings.read lengths
      unfold callOf
      cases pieces : cutWords isBlank shellMaxArgs (c :: rest) with
      | nil =>
          rw [pieces] at strings
          cases strings
          rfl
      | cons name args =>
          rw [pieces] at strings texts
          cases strings with
          | cons named _ =>
              dsimp only
              rw [findCommand_eq named commands_plain, texts]
              rfl

end Dispatch

end Kfs.Shell
