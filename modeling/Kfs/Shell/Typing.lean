/-
**From keystrokes to commands: `shell_run`.**
The keyboard's interrupts put key codes into the ring at any time; `shell_run` takes one in each round of its
loops, first for the login screen and then for the command line. What it has done so far is decided by the codes it
has taken: before the first login that the table of users admits nothing is called, and after it the lines that the
codes spell are, each once and in order. The codes taken are those that were kept by the ring, in order, up to
those still in it: `typed_commands_run`.
-/

import Kfs.Interrupt.Keys
import Kfs.Shell.Dispatch
import Kfs.Shell.Login

namespace Kfs.Shell

open Kfs.Interrupt

/-- `KEY_F1` as an `int`. -/
def keyF1 : Int := 0x80

/-- `KEY_F4`. -/
def keyF4 : Int := 0x83

/-- A key that switches screens. -/
def switches (c : Int) : Bool := keyF1 ≤ c ∧ c ≤ keyF4

/-- The loop that `shell_run` is in. -/
inductive Phase where
  | login (screen : LoginScreen)
  | commands (input : ShellInput)

/-- The keyboard and the shell: who was admitted, what was called, and the arguments of `handle_screen_switch`. -/
structure Desk where
  keyboard : Keyboard
  phase : Phase
  admitted : Option User
  calls : List Call
  screens : List Int

/-- The memory that `shell_process_command` is called with: its argument at address 1. -/
def commandCells (line : List Char) (x : Nat) : Char := line.getD (x - 1) nul

/-- The call that a line makes, `none` when the loop of `shell_parse_args` does not end. -/
def called (line : List Char) : Option (Option Call) :=
  match shellProcessCommand (commandCells line) 1 (line.length + 2) with
  | .ok call => some call
  | .panic _ => none
  | .diverge => none

/-- `shell_init`. -/
def shellInit (input : ShellInput) : ShellInput := ⟨Function.update input.shellBuffer 0 nul, 0⟩

namespace Desk

/-- A round of the loop of `shell_login` with a key, which may be its last. -/
def loginRound (d : Desk) (screen : LoginScreen) (input : ShellInput) (c : Int) : Option Desk := do
  let (screen, user) ← loginKey screen c
  match user with
  | none => return { d with phase := .login screen }
  | some user => return { d with phase := .commands input, admitted := some user }

/-- A round of the loop of `shell_run` with a key. The command that is called may never return; then there is no
further round. -/
def commandRound (d : Desk) (input : ShellInput) (c : Int) : Option Desk :=
  if switches c then some { d with screens := d.screens ++ [c - keyF1] }
  else do
    let (input, line) ← shellHandleInput input c
    match line with
    | none => return { d with phase := .commands input }
    | some line => do
        let call ← called line
        return { d with phase := .commands input, calls := d.calls ++ call.toList }

/-- A round of either loop. -/
def round (input : ShellInput) (d : Desk) : Option Desk :=
  if d.keyboard.keyboardHaskey then
    let (keyboard, code) := d.keyboard.keyboardGetchar
    let d := { d with keyboard := keyboard }
    if code = 0 then some d
    else
      match d.phase with
      | .login screen => d.loginRound screen input code
      | .commands input => d.commandRound input code
  else some d

end Desk

/-- An interrupt of the keyboard, with what the ports return during it, or a round of the shell. -/
inductive DeskOp where
  | interrupt (inb : Nat → UInt8)
  | round

/-- What it is for the keyboard. -/
def DeskOp.key : DeskOp → KeyOp
  | interrupt inb => .interrupt inb
  | round => .getchar

/-- One after the other; `input` is what `shell_init` left. -/
def runDesk (input : ShellInput) (d : Desk) : List DeskOp → Option Desk
  | [] => some d
  | .interrupt inb :: ops => runDesk input { d with keyboard := d.keyboard.keyboardInterruptHandler inb } ops
  | .round :: ops => do
      let d ← d.round input
      runDesk input d ops

/-- `shell_run` when its login screen is shown; what the local arrays hold is arbitrary. -/
def Desk.start (keyboard : Keyboard) (username password : Nat → Char) : Desk :=
  ⟨keyboard, .login ⟨username, password, 0, 0, false⟩, none, [], []⟩

/-! ### What the codes decide -/

/-- The line that is left after some keys. -/
def lineLeft (limit : Nat) (codes : List Int) : List Char :=
  codes.foldl (fun line c => if c = newline then [] else editKey limit line c) []

/-- The keys of the command line. -/
def lineKeys (codes : List Int) : List Int := codes.filter fun c => !switches c

/-- **What the shell has done after some codes**: nobody was admitted and nothing was called; or somebody was, at
the first Enter that admits, and the lines spelled by the codes behind it were called. -/
inductive Done (d : Desk) (codes : List Int) : Prop
  | outside (nobody : NoneAdmitted .blank codes) (admitted : d.admitted = none) (calls : d.calls = [])
      (screens : d.screens = [])
  | inside {before rest : List Int} {user : User} (first : FirstAdmitted .blank codes before user rest)
      (admitted : d.admitted = some user)
      (calls : d.calls = (editLines 255 (lineKeys rest) []).filterMap callOf)
      (screens : d.screens = (rest.filter switches).map fun c => c - keyF1)

section Lines

variable {limit : Nat} {line rest text : List Char} {codes : List Int} {c : Int}

theorem foldl_lines (limit : Nat) (codes : List Int) (line : List Char) (c : Int) :
    editLines limit (codes ++ [c]) line = editLines limit codes line ++
      if c = newline then [codes.foldl (fun line c => if c = newline then [] else editKey limit line c) line]
      else [] := by
  induction codes generalizing line with
  | nil =>
      simp only [List.nil_append, editLines, List.foldl_nil]
  | cons d codes ih =>
      rw [List.cons_append, editLines, editLines, List.foldl_cons]
      by_cases enter : d = newline
      · rw [if_pos enter, if_pos enter, if_pos enter, ih]
        rfl
      · rw [if_neg enter, if_neg enter, if_neg enter, ih]

/-- **One more key**: an Enter adds the line that was left. -/
theorem editLines_snoc (limit : Nat) (codes : List Int) (c : Int) : editLines limit (codes ++ [c]) [] =
    editLines limit codes [] ++ if c = newline then [lineLeft limit codes] else [] :=
  foldl_lines limit codes [] c

theorem lineLeft_snoc (limit : Nat) (codes : List Int) (c : Int) : lineLeft limit (codes ++ [c]) =
    if c = newline then [] else editKey limit (lineLeft limit codes) c := by
  unfold lineLeft
  rw [List.foldl_append]
  rfl

/-- Characters that are typed are printable. -/
def Printable (line : List Char) : Prop := ∀ c ∈ line, 32 ≤ c.toNat

theorem toChar_toNat (low : 32 ≤ c) (high : c ≤ 126) : (toChar c).toNat = c.toNat := by
  have valid : c.toNat.isValidChar := .inl (by omega)
  rw [toChar, Char.ofNat, dif_pos valid]
  rfl

theorem editKey_printable (printable : Printable line) : Printable (editKey limit line c) := by
  unfold editKey
  split
  · exact fun d member => printable d (List.dropLast_subset _ member)
  · split
    · rename_i typed
      intro d member
      rcases List.mem_append.mp member with old | new
      · exact printable d old
      · rw [List.mem_singleton.mp new, toChar_toNat typed.1 typed.2.1]
        have low := typed.1
        omega
    · exact printable

theorem lineLeft_printable (limit : Nat) (codes : List Int) : Printable (lineLeft limit codes) := by
  induction codes using List.reverseRecOn with
  | nil => exact fun d member => absurd member List.not_mem_nil
  | append_singleton codes c ih =>
      rw [lineLeft_snoc]
      split
      · exact fun d member => absurd member List.not_mem_nil
      · exact editKey_printable ih

theorem commandCells_string (clean : nul ∉ line) : StringAt nul (commandCells line) 1 line where
  spells := by
    intro k less
    unfold commandCells
    rw [Nat.add_sub_cancel_left, List.getD_eq_getElem?_getD, List.getElem?_eq_getElem less]
    rfl
  clean := clean
  ends := by
    unfold commandCells
    rw [Nat.add_sub_cancel_left, List.getD_eq_getElem?_getD, List.getElem?_eq_none le_rfl]
    rfl

/-- **A line that was typed** calls what its first word says. -/
theorem called_eq (short : line.length ≤ 255) (printable : Printable line) : called line = some (callOf line) := by
  have clean : nul ∉ line := fun member => absurd (printable nul member) (by decide)
  have first : line.head? ≠ some '\n' := by
    intro broken
    exact absurd (printable '\n' (List.mem_of_head? broken)) (by decide)
  unfold called
  rw [processCommand_calls (commandCells_string clean) Nat.one_ne_zero first short (.inl (by omega))]

end Lines

/-! ### One key -/

section Keys

variable {d : Desk} {codes before rest : List Int} {user : User} {c : Int} {screen : LoginScreen} {a : Attempt}
  {start input : ShellInput}

theorem NoneAdmitted.snoc (none : NoneAdmitted a codes)
    (here : c = newline → ∀ user, ¬ (codes.foldl Attempt.key a).Admits user) : NoneAdmitted a (codes ++ [c]) := by
  intro before user inside
  rcases List.prefix_concat_iff.mp inside with whole | shorter
  · obtain ⟨same, last⟩ := List.append_inj' whole rfl
    rw [same]
    exact here (List.cons.inj last).1.symm user
  · exact none before user shorter

theorem FirstAdmitted.snoc (found : FirstAdmitted a codes before user rest) (c : Int) :
    FirstAdmitted a (codes ++ [c]) before user (rest ++ [c]) where
  split := by rw [found.split, List.append_assoc, List.cons_append]
  admits := found.admits
  first := found.first

/-- **The shell is where the codes say**: in a login screen that shows the attempt begun, or in a command line that
holds what is left of a line. -/
inductive Follows (d : Desk) (codes : List Int) : Prop
  | outside {screen : LoginScreen} (phase : d.phase = .login screen)
      (shows' : Shows screen (codes.foldl Attempt.key .blank)) (nobody : NoneAdmitted .blank codes)
      (admitted : d.admitted = none) (calls : d.calls = []) (screens : d.screens = [])
  | inside {before rest : List Int} {user : User} {input : ShellInput} (phase : d.phase = .commands input)
      (editing : Editing input.shellBuffer input.shellBufferPos (lineLeft 255 (lineKeys rest)))
      (first : FirstAdmitted .blank codes before user rest) (admitted : d.admitted = some user)
      (calls : d.calls = (editLines 255 (lineKeys rest) []).filterMap callOf)
      (screens : d.screens = (rest.filter switches).map fun c => c - keyF1)

theorem Follows.done (follows : Follows d codes) : Done d codes := by
  cases follows with
  | outside _ _ nobody admitted calls screens => exact .outside nobody admitted calls screens
  | inside _ _ first admitted calls screens => exact .inside first admitted calls screens

/-- The keyboard plays no part. -/
theorem Follows.withKeyboard (follows : Follows d codes) (keyboard : Keyboard) :
    Follows { d with keyboard := keyboard } codes := by
  cases follows with
  | outside phase shows' nobody admitted calls screens =>
      exact .outside phase shows' nobody admitted calls screens
  | inside phase editing first admitted calls screens =>
      exact .inside phase editing first admitted calls screens

/-- **A key on the login screen.** -/
theorem loginRound_follows (shows' : Shows screen (codes.foldl Attempt.key .blank))
    (nobody : NoneAdmitted .blank codes) (admitted : d.admitted = none) (calls : d.calls = [])
    (screens : d.screens = []) (empty : Editing start.shellBuffer start.shellBufferPos []) (c : Int) :
    ∃ d', d.loginRound screen start c = some d' ∧ d'.keyboard = d.keyboard ∧ Follows d' (codes ++ [c]) := by
  rcases shows'.key c with ⟨screen', edited, after, refused⟩ | ⟨screen', user, enter, entered, admits⟩
  · refine ⟨{ d with phase := .login screen' }, ?_, rfl, ?_⟩
    · rw [Desk.loginRound, edited]
      rfl
    · refine .outside rfl ?_ (nobody.snoc refused) admitted calls screens
      rw [List.foldl_append]
      exact after
  · refine ⟨{ d with phase := .commands start, admitted := some user }, ?_, rfl, ?_⟩
    · rw [Desk.loginRound, entered]
      rfl
    · subst enter
      have held : Editing start.shellBuffer start.shellBufferPos (lineLeft 255 (lineKeys [])) := empty
      exact .inside rfl held ⟨rfl, admits, nobody⟩ rfl calls screens

theorem lineKeys_snoc (rest : List Int) (c : Int) :
    lineKeys (rest ++ [c]) = if switches c then lineKeys rest else lineKeys rest ++ [c] := by
  unfold lineKeys
  rw [List.filter_append]
  cases switch : switches c with
  | true => simp [switch]
  | false => simp [switch]

theorem screenKeys_snoc (rest : List Int) (c : Int) :
    (rest ++ [c]).filter switches = rest.filter switches ++ if switches c then [c] else [] := by
  rw [List.filter_append]
  cases switch : switches c with
  | true => simp [switch]
  | false => simp [switch]

theorem filterMap_single {α β : Type} (f : α → Option β) (a : α) : [a].filterMap f = (f a).toList := by
  rw [List.filterMap_cons, List.filterMap_nil]
  cases f a <;> rfl

/-- **A key of the command line.** -/
theorem commandRound_follows (phase : d.phase = .commands input)
    (editing : Editing input.shellBuffer input.shellBufferPos (lineLeft 255 (lineKeys rest)))
    (first : FirstAdmitted .blank codes before user rest) (admitted : d.admitted = some user)
    (calls : d.calls = (editLines 255 (lineKeys rest) []).filterMap callOf)
    (screens : d.screens = (rest.filter switches).map fun c => c - keyF1) (c : Int) :
    ∃ d', d.commandRound input c = some d' ∧ d'.keyboard = d.keyboard ∧ Follows d' (codes ++ [c]) := by
  have keys := lineKeys_snoc rest c
  have shown := screenKeys_snoc rest c
  cases switch : switches c with
  | true =>
      rw [switch, if_pos rfl] at keys shown
      refine ⟨{ d with screens := d.screens ++ [c - keyF1] }, ?_, rfl, ?_⟩
      · rw [Desk.commandRound, switch, if_pos rfl]
      · refine .inside phase (keys ▸ editing) (first.snoc c) admitted (by rw [keys]; exact calls) ?_
        rw [shown, List.map_append, ← screens]
        rfl
  | false =>
      rw [switch, if_neg Bool.false_ne_true] at keys shown
      rw [List.append_nil] at shown
      have left := lineLeft_snoc 255 (lineKeys rest) c
      have lines := editLines_snoc 255 (lineKeys rest) c
      rw [← keys] at left lines
      by_cases enter : c = newline
      · obtain ⟨input', passed, after⟩ := editing.shellEnter
        rw [if_pos enter] at left lines
        have calling := called_eq editing.short (lineLeft_printable 255 (lineKeys rest))
        refine ⟨{ d with
          phase := .commands input'
          calls := d.calls ++ (callOf (lineLeft 255 (lineKeys rest))).toList }, ?_, rfl, ?_⟩
        · rw [Desk.commandRound, switch, if_neg Bool.false_ne_true, enter, passed]
          simp only [Option.bind_eq_bind, Option.bind_some, calling]
          rfl
        · refine .inside rfl (by rw [left]; exact after) (first.snoc c) admitted ?_ (by rw [shown]; exact screens)
          rw [lines, List.filterMap_append, ← calls, filterMap_single]
      · obtain ⟨input', edited, after⟩ := editing.shellKey enter
        rw [if_neg enter] at left lines
        rw [List.append_nil] at lines
        refine ⟨{ d with phase := .commands input' }, ?_, rfl, ?_⟩
        · rw [Desk.commandRound, switch, if_neg Bool.false_ne_true, edited]
          rfl
        · exact .inside rfl (by rw [left]; exact after) (first.snoc c) admitted (by rw [lines]; exact calls)
            (by rw [shown]; exact screens)

end Keys

/-! ### Runs -/

section Runs

variable {d : Desk} {codes : List Int} {input : ShellInput}

/-- The codes that a list of events returned, as `int`. -/
def taken (events : List KeyEvent) : List Int := (returned events).map Int.ofNat

/-- **A round** takes a code, if there is one, and does what it says. -/
theorem Follows.round (follows : Follows d codes) (empty : Editing input.shellBuffer input.shellBufferPos []) :
    ∃ d', d.round input = some d' ∧ d'.keyboard = d.keyboard.keyboardGetchar.1 ∧
      Follows d' (codes ++ taken [.got d.keyboard.keyboardGetchar.2]) := by
  unfold Desk.round
  cases has : d.keyboard.keyboardHaskey with
  | false =>
      have none : d.keyboard.bufferIsEmpty = true := by simpa [Keyboard.keyboardHaskey] using has
      have got : d.keyboard.keyboardGetchar = (d.keyboard, 0) := by
        rw [Keyboard.keyboardGetchar, Keyboard.bufferGet, if_pos none]
      rw [if_neg Bool.false_ne_true, got]
      exact ⟨d, rfl, rfl, by rw [taken, returned, if_pos rfl]; simpa [returned] using follows⟩
  | true =>
      rw [if_pos rfl]
      dsimp only
      generalize d.keyboard.keyboardGetchar = got
      obtain ⟨keyboard, code⟩ := got
      dsimp only
      by_cases zero : code = 0
      · rw [if_pos zero]
        refine ⟨_, rfl, rfl, ?_⟩
        rw [taken, returned, if_pos zero]
        simpa [returned] using follows.withKeyboard keyboard
      · have one : taken [.got code] = [(code : Int)] := by
          rw [taken, returned, if_neg zero]
          rfl
        rw [if_neg zero, one]
        cases d with
        | mk old place someone made shown =>
            cases follows.withKeyboard keyboard with
            | outside phase shows' nobody admitted calls screens =>
                subst phase
                exact loginRound_follows shows' nobody admitted calls screens empty code
            | inside phase editing first admitted calls screens =>
                subst phase
                exact commandRound_follows rfl editing first admitted calls screens code

theorem taken_append (first later : List KeyEvent) : taken (first ++ later) = taken first ++ taken later := by
  unfold taken
  rw [← List.map_append]
  congr 1
  induction first with
  | nil => rfl
  | cons event first ih =>
      cases event with
      | key code => exact ih
      | got code =>
          rw [List.cons_append, returned, returned, ih]
          split <;> rfl

theorem taken_key (k : Keyboard) (inb : Nat → UInt8) : taken (KeyOp.exec k (.interrupt inb)).2 = [] := by
  cases produced : k.keyCode inb <;> simp [KeyOp.exec, produced, taken, returned]

/-- **A run** goes on by the codes that are taken. -/
theorem Follows.run (follows : Follows d codes) (empty : Editing input.shellBuffer input.shellBufferPos [])
    (ops : List DeskOp) : ∃ d', runDesk input d ops = some d' ∧
      d'.keyboard = (runKeys d.keyboard (ops.map DeskOp.key)).1 ∧
      Follows d' (codes ++ taken (runKeys d.keyboard (ops.map DeskOp.key)).2) := by
  induction ops generalizing d codes with
  | nil =>
      refine ⟨d, rfl, rfl, ?_⟩
      rw [List.map_nil, runKeys, taken, returned, List.map_nil, List.append_nil]
      exact follows
  | cons op ops ih =>
      cases op with
      | interrupt inb =>
          obtain ⟨d', ran, keyboard, after⟩ := ih (follows.withKeyboard (d.keyboard.keyboardInterruptHandler inb))
          refine ⟨d', ran, keyboard, ?_⟩
          rw [List.map_cons, runKeys]
          dsimp only
          rw [taken_append, DeskOp.key, taken_key, List.nil_append]
          exact after
      | round =>
          obtain ⟨next, went, same, between⟩ := follows.round empty
          obtain ⟨d', ran, keyboard, after⟩ := ih between
          rw [same] at keyboard after
          refine ⟨d', ?_, keyboard, ?_⟩
          · rw [runDesk, went]
            exact ran
          · rw [List.map_cons, runKeys]
            dsimp only
            rw [taken_append, ← List.append_assoc]
            exact after

end Runs

/-- **Commands are called as they were typed.** From `keyboard_init` and the start of `shell_run`, however
interrupts of the keyboard and rounds of the shell follow each other: every round returns, what the shell has done
is what the codes taken so far say, and these are the codes that the ring kept, in order and each once, up to the
ones it still holds. In particular nothing is called before the first Enter that admits somebody. -/
theorem typed_commands_run (keyboard : Keyboard) (username password : Nat → Char) (input : ShellInput)
    (ops : List DeskOp) : ∃ d left,
      runDesk (shellInit input) (.start keyboard.keyboardInit username password) ops = some d ∧
      d.keyboard.Holds left ∧
      kept (runKeys keyboard.keyboardInit (ops.map DeskOp.key)).2 =
        returned (runKeys keyboard.keyboardInit (ops.map DeskOp.key)).2 ++ left ∧
      Done d (taken (runKeys keyboard.keyboardInit (ops.map DeskOp.key)).2) := by
  have start : Follows (.start keyboard.keyboardInit username password) [] :=
    .outside rfl ⟨rfl, fun _ => Entered.nil username, (fun entering => by cases entering), Entered.nil password⟩
      (fun before user inside => by simp at inside) rfl rfl rfl
  obtain ⟨d, ran, same, follows⟩ := @Follows.run _ _ (shellInit input) start (Editing.nil _) ops
  obtain ⟨left, holds, -, order⟩ := @runKeys_holds _ _ (ops.map DeskOp.key) (Keyboard.Holds.init keyboard)
    List.not_mem_nil
  exact ⟨d, left, ran, by rw [same]; exact holds, order, follows.done⟩

end Kfs.Shell
