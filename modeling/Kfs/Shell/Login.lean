/-
**The login screen: `shell_login`.**

Two lines are edited in turn, the user name and the password, each in an array of 32 cells that is ended
only at Enter. A failed attempt resets the positions and leaves the arrays as they are. The reference keeps
the two lines themselves (`Attempt`). For any keys the screen is left at the first Enter at which they are
those of an entry of the table, and only then the UID changes: `login_admits_iff`.
-/

import Kfs.Shell.Editors
import Kfs.Shell.Session

namespace Kfs.Shell

open Kfs.Process

/-- The size of `username` and `password`. -/
def credentialSize : Nat := 32

/-- The local variables of `shell_login`. -/
structure LoginScreen where
  username : Nat → Char
  password : Nat → Char
  usernamePos : Nat
  passwordPos : Nat
  enteringPassword : Bool

/-- The kernel and `current_uid`. -/
structure Accounts where
  kernel : Kernel
  currentUid : Nat

/-- A key other than Enter, for either line. -/
def credentialKey (cells : Nat → Char) (pos : Nat) (c : Int) : Option ((Nat → Char) × Nat) :=
  if c = keyBackspace then
    if pos > 0 then do
      let cells ← storeCell credentialSize cells (pos - 1) nul
      return (cells, pos - 1)
    else some (cells, pos)
  else if 32 ≤ c ∧ c ≤ 126 ∧ pos < 31 then do
    let cells ← storeCell credentialSize cells pos (toChar c)
    return (cells, pos + 1)
  else some (cells, pos)

/-- The entry of the table with the name and the password that the arrays hold. -/
def checkCredentials (username password : Nat → Char) : Option User :=
  users.find? fun user =>
    user.username = readString nul username credentialSize 0 ∧
      user.password = readString nul password credentialSize 0

/-- A key on the login screen, with the entry that is logged in if any. It is `none` when a store falls
outside an array. -/
def loginKey (t : LoginScreen) (c : Int) : Option (LoginScreen × Option User) :=
  if c = 0 then some (t, none)
  else if t.enteringPassword = false then
    if c = newline then do
      let username ← storeCell credentialSize t.username t.usernamePos nul
      return ({ t with username := username, enteringPassword := t.usernamePos > 0 }, none)
    else do
      let (username, pos) ← credentialKey t.username t.usernamePos c
      return ({ t with username := username, usernamePos := pos }, none)
  else if c = newline then do
    let password ← storeCell credentialSize t.password t.passwordPos nul
    match checkCredentials t.username password with
    | some user => return ({ t with password := password }, some user)
    | none => return (⟨t.username, password, 0, 0, false⟩, none)
  else do
    let (password, pos) ← credentialKey t.password t.passwordPos c
    return ({ t with password := password, passwordPos := pos }, none)

/-- What `shell_login` comes to with the keys at hand. -/
inductive LoginResult where
  | returned (accounts : Accounts) (codes : List Int)
  | waiting (accounts : Accounts)

/-- A successful login. -/
def Accounts.login (accounts : Accounts) (user : User) : Accounts :=
  ⟨setCurrentUid accounts.kernel user.uid, user.uid⟩

/-- The loop of `shell_login`. -/
def loginLoop (accounts : Accounts) : LoginScreen → (codes : List Int) → Option LoginResult
  | _, [] => some (.waiting accounts)
  | t, c :: codes => do
      let (t, user) ← loginKey t c
      match user with
      | some user => return .returned (accounts.login user) codes
      | none => loginLoop accounts t codes

/-- `shell_login`; what its arrays hold at first is arbitrary. -/
def shellLogin (username password : Nat → Char) (accounts : Accounts) (codes : List Int) : Option LoginResult :=
  loginLoop accounts ⟨username, password, 0, 0, false⟩ codes

/-! ### The reference -/

/-- The two lines of an attempt, and whether the password is being entered. -/
structure Attempt where
  name : List Char
  password : List Char
  entering : Bool
  deriving DecidableEq, Repr

/-- The attempt that the screen begins with. -/
def Attempt.blank : Attempt := ⟨[], [], false⟩

/-- A key: lines are edited up to 31 characters; Enter goes on to the password after a name that is not
empty, and begins a new attempt after a password. -/
def Attempt.key (a : Attempt) (c : Int) : Attempt :=
  if a.entering then
    if c = newline then .blank else { a with password := editKey 31 a.password c }
  else if c = newline then { a with entering := a.name ≠ [] }
  else { a with name := editKey 31 a.name c }

/-- The two lines are the name and the password of an entry. -/
structure Attempt.Admits (a : Attempt) (user : User) : Prop where
  entering : a.entering = true
  listed : user ∈ users
  name : user.username = a.name
  password : user.password = a.password

/-- No Enter admits anyone. -/
def NoneAdmitted (start : Attempt) (codes : List Int) : Prop :=
  ∀ before user, before ++ [newline] <+: codes → ¬ (before.foldl Attempt.key start).Admits user

/-- **The first Enter that admits**: after the keys `before` it admits `user`, and no Enter among them
admitted anyone. -/
structure FirstAdmitted (start : Attempt) (codes before : List Int) (user : User) (rest : List Int) :
    Prop where
  split : codes = before ++ newline :: rest
  admits : (before.foldl Attempt.key start).Admits user
  first : NoneAdmitted start before

section Login

variable {t : LoginScreen} {a : Attempt} {c : Int} {cells : Nat → Char} {pos : Nat} {line : List Char}
  {user other : User} {accounts : Accounts} {codes before before' rest rest' : List Int}

/-- An array of 32 cells holds a line. -/
structure Entered (cells : Nat → Char) (pos : Nat) (line : List Char) : Prop where
  held : Held cells pos line
  short : line.length ≤ 31
  clean : nul ∉ line

theorem Entered.nil (cells : Nat → Char) : Entered cells 0 [] := ⟨Held.nil cells, Nat.zero_le _, List.not_mem_nil⟩

/-- **A key edits a line.** -/
theorem Entered.key (entered : Entered cells pos line) (c : Int) :
    ∃ cells' pos', credentialKey cells pos c = some (cells', pos') ∧
      Entered cells' pos' (editKey 31 line c) := by
  have shorter : (editKey 31 line c).length ≤ 31 := editKey_length entered.short
  have cleaner : nul ∉ editKey 31 line c := editKey_clean entered.clean
  have length := entered.held.length
  have short := entered.short
  rcases held_key entered.held 31 c with ⟨back, after⟩ | ⟨char, room, after⟩ | ⟨char, full, after⟩
  · rw [credentialKey, if_pos back]
    by_cases some : pos > 0
    · rw [if_pos some, storeCell_of_lt (by unfold credentialSize; omega)]
      exact ⟨_, _, rfl, after.update le_rfl nul, shorter, cleaner⟩
    · have start : pos - 1 = pos := by omega
      rw [start] at after
      rw [if_neg some]
      exact ⟨cells, pos, rfl, after, shorter, cleaner⟩
  · rw [credentialKey, if_neg char, if_pos room, storeCell_of_lt (by unfold credentialSize; omega)]
    exact ⟨_, _, rfl, after, shorter, cleaner⟩
  · rw [credentialKey, if_neg char, if_neg full]
    exact ⟨cells, pos, rfl, after, shorter, cleaner⟩

/-- **Enter** ends a line, which can then be read. -/
theorem Entered.enter (entered : Entered cells pos line) :
    ∃ cells', storeCell credentialSize cells pos nul = some cells' ∧
      readString nul cells' credentialSize 0 = line ∧ Entered cells' pos line := by
  have length := entered.held.length
  have short := entered.short
  have room : line.length < credentialSize := by
    unfold credentialSize
    omega
  refine ⟨_, storeCell_of_lt (by omega), (entered.held.ended entered.clean).read room, ?_⟩
  exact ⟨entered.held.update le_rfl nul, short, entered.clean⟩

/-- The screen shows an attempt. While the password is entered, the name is a string in its array. -/
structure Shows (t : LoginScreen) (a : Attempt) : Prop where
  phase : t.enteringPassword = a.entering
  name : a.entering = false → Entered t.username t.usernamePos a.name
  ended : a.entering = true → readString nul t.username credentialSize 0 = a.name
  password : Entered t.password t.passwordPos a.password

theorem Attempt.Admits.unique (first : a.Admits user) (second : a.Admits other) : user = other := by
  have distinct : ∀ u ∈ users, ∀ v ∈ users, u.username = v.username → u = v := by decide
  exact distinct user first.listed other second.listed (first.name.trans second.name.symm)

/-- What the table says about an attempt. -/
theorem checkCredentials_cases {username password : Nat → Char} (entering : a.entering = true)
    (name : readString nul username credentialSize 0 = a.name)
    (word : readString nul password credentialSize 0 = a.password) :
    (∃ user, checkCredentials username password = some user ∧ a.Admits user) ∨
      checkCredentials username password = none ∧ ∀ user, ¬ a.Admits user := by
  unfold checkCredentials
  rw [name, word]
  cases found : users.find? fun user => user.username = a.name ∧ user.password = a.password with
  | some user =>
      have same := List.find?_some found
      rw [decide_eq_true_eq] at same
      exact .inl ⟨user, rfl, entering, List.mem_of_find?_eq_some found, same.1, same.2⟩
  | none =>
      refine .inr ⟨rfl, fun user admits => ?_⟩
      have differs := List.find?_eq_none.mp found user admits.listed
      exact differs (decide_eq_true ⟨admits.name, admits.password⟩)

theorem editKey_zero : editKey 31 line 0 = line := by
  rw [editKey, if_neg (by decide), if_neg fun printable => absurd printable.1 (by decide)]

/-- **One key**: the screen follows the reference, or an Enter admits an entry. -/
theorem Shows.key (shows' : Shows t a) (c : Int) :
    (∃ t', loginKey t c = some (t', none) ∧ Shows t' (a.key c) ∧ (c = newline → ∀ user, ¬ a.Admits user)) ∨
      ∃ t' user, c = newline ∧ loginKey t c = some (t', some user) ∧ a.Admits user := by
  have phase := shows'.phase
  unfold loginKey Attempt.key
  by_cases zero : c = 0
  · refine .inl ⟨t, if_pos zero, ?_, fun enter => absurd (zero.symm.trans enter) (by decide)⟩
    have other : ¬ (0 : Int) = newline := by decide
    rw [zero, if_neg other, if_neg other, editKey_zero, editKey_zero]
    split <;> exact shows'
  · rw [if_neg zero]
    cases entering : a.entering with
    | false =>
        have entered := shows'.name entering
        rw [if_pos (phase.trans entering), if_neg Bool.false_ne_true]
        by_cases enter : c = newline
        · obtain ⟨cells, stored, read, kept⟩ := entered.enter
          have whether : decide (t.usernamePos > 0) = decide (a.name ≠ []) := by
            rw [decide_eq_decide, entered.held.length]
            exact List.length_pos_iff
          rw [if_pos enter, if_pos enter, stored]
          refine .inl ⟨_, rfl, ⟨whether, fun _ => kept, fun _ => read, shows'.password⟩, ?_⟩
          intro _ user admits
          exact Bool.false_ne_true (entering.symm.trans admits.entering)
        · obtain ⟨cells, pos, stored, edited⟩ := entered.key c
          rw [if_neg enter, if_neg enter, stored]
          exact .inl ⟨_, rfl, ⟨phase.trans entering, fun _ => edited, nofun, shows'.password⟩,
            fun same => absurd same enter⟩
    | true =>
        have late : ¬ t.enteringPassword = false := by
          rw [phase, entering]
          decide
        rw [if_neg late, if_pos rfl]
        by_cases enter : c = newline
        · obtain ⟨cells, stored, read, kept⟩ := shows'.password.enter
          rw [if_pos enter, if_pos enter, stored, Option.bind_eq_bind, Option.bind_some]
          rcases checkCredentials_cases entering (shows'.ended entering) read with
            ⟨user, found, admits⟩ | ⟨missing, nobody⟩
          · rw [found]
            exact .inr ⟨_, user, enter, rfl, admits⟩
          · rw [missing]
            exact .inl ⟨_, rfl, ⟨rfl, fun _ => Entered.nil _, nofun, Entered.nil _⟩, fun _ => nobody⟩
        · obtain ⟨cells, pos, stored, edited⟩ := shows'.password.key c
          rw [if_neg enter, if_neg enter, stored]
          exact .inl ⟨_, rfl, ⟨phase.trans entering, nofun, fun _ => shows'.ended entering, edited⟩,
            fun same => absurd same enter⟩

theorem NoneAdmitted.cons (here : c = newline → ∀ user, ¬ a.Admits user)
    (later : NoneAdmitted (a.key c) codes) : NoneAdmitted a (c :: codes) := by
  intro before user inside
  cases before with
  | nil =>
      obtain ⟨same, -⟩ := List.cons_prefix_cons.mp inside
      exact here same.symm user
  | cons d before =>
      obtain ⟨rfl, more⟩ := List.cons_prefix_cons.mp inside
      exact later before user more

theorem FirstAdmitted.cons (here : c = newline → ∀ user, ¬ a.Admits user)
    (later : FirstAdmitted (a.key c) codes before user rest) :
    FirstAdmitted a (c :: codes) (c :: before) user rest where
  split := congrArg (c :: ·) later.split
  admits := later.admits
  first := NoneAdmitted.cons here later.first

/-- **The loop** returns at the first Enter that admits, and waits when there is none. -/
theorem Shows.loop (shows' : Shows t a) (accounts : Accounts) (codes : List Int) :
    (∃ before user rest, FirstAdmitted a codes before user rest ∧
        loginLoop accounts t codes = some (.returned (accounts.login user) rest)) ∨
      NoneAdmitted a codes ∧ loginLoop accounts t codes = some (.waiting accounts) := by
  induction codes generalizing t a with
  | nil =>
      refine .inr ⟨fun before user inside => ?_, rfl⟩
      cases before <;> cases List.prefix_nil.mp inside
  | cons c codes ih =>
      rcases shows'.key c with ⟨t', step, after, nobody⟩ | ⟨t', user, rfl, step, admits⟩
      · rw [loginLoop, step]
        rcases ih after with ⟨before, user, rest, later, done⟩ | ⟨nobodyLater, waits⟩
        · exact .inl ⟨c :: before, user, rest, later.cons nobody, done⟩
        · exact .inr ⟨NoneAdmitted.cons nobody nobodyLater, waits⟩
      · refine .inl ⟨[], user, codes, ⟨rfl, admits, fun earlier other inside => ?_⟩, ?_⟩
        · cases earlier <;> cases List.prefix_nil.mp inside
        · rw [loginLoop, step]
          rfl

theorem FirstAdmitted.not_none (found : FirstAdmitted a codes before user rest) : ¬ NoneAdmitted a codes := by
  intro nobody
  refine nobody before user ?_ found.admits
  rw [found.split]
  exact ⟨rest, by rw [List.append_assoc, List.singleton_append]⟩

/-- One of two Enters is the earlier one. -/
theorem FirstAdmitted.not_longer (found : FirstAdmitted a codes before user rest)
    (also : FirstAdmitted a codes before' other rest') : ¬ before.length < before'.length := by
  intro shorter
  have here : before ++ [newline] <+: codes :=
    ⟨rest, by rw [List.append_assoc, List.singleton_append, found.split]⟩
  have there : before' <+: codes := ⟨newline :: rest', also.split.symm⟩
  refine also.first before user (List.prefix_of_prefix_length_le here there ?_) found.admits
  rwa [List.length_append]

/-- **There is one first Enter that admits.** -/
theorem FirstAdmitted.unique (found : FirstAdmitted a codes before user rest)
    (also : FirstAdmitted a codes before' other rest') : user = other ∧ rest = rest' := by
  have level : before.length = before'.length :=
    le_antisymm (not_lt.mp (also.not_longer found)) (not_lt.mp (found.not_longer also))
  obtain ⟨rfl, same⟩ := List.append_inj (found.split.symm.trans also.split) level
  exact ⟨found.admits.unique also.admits, (List.cons.inj same).2⟩

/-- **The login screen admits only valid credentials.** For any keys and whatever the arrays hold at first,
`shell_login` returns exactly at the first Enter that admits an entry, with the UID of that entry as
`current_uid` and in the current process; until then nothing changes. -/
theorem login_admits_iff (username password : Nat → Char) (accounts : Accounts) (codes : List Int) :
    (∀ later rest, shellLogin username password accounts codes = some (.returned later rest) ↔
      ∃ before user, FirstAdmitted .blank codes before user rest ∧ later = accounts.login user) ∧
    (∀ later, shellLogin username password accounts codes = some (.waiting later) ↔
      NoneAdmitted .blank codes ∧ later = accounts) ∧
    ∀ user, (accounts.login user).currentUid = user.uid ∧
      ∀ i ∈ accounts.kernel.currentProcess, ((accounts.login user).kernel.table i).uid = user.uid := by
  have start : Shows ⟨username, password, 0, 0, false⟩ .blank :=
    ⟨rfl, fun _ => Entered.nil _, nofun, Entered.nil _⟩
  have outcome := start.loop accounts codes
  refine ⟨fun later rest => ?_, fun later => ?_, fun user => ⟨rfl, fun i current => ?_⟩⟩
  · unfold shellLogin
    rcases outcome with ⟨before, user, left, found, done⟩ | ⟨nobody, waits⟩
    · rw [done, Option.some.injEq, LoginResult.returned.injEq]
      constructor
      · rintro ⟨rfl, rfl⟩
        exact ⟨before, user, found, rfl⟩
      · rintro ⟨before', other, also, rfl⟩
        obtain ⟨rfl, rfl⟩ := found.unique also
        exact ⟨rfl, rfl⟩
    · rw [waits]
      constructor
      · intro returned
        cases returned
      · rintro ⟨before, user, found, -⟩
        exact absurd nobody found.not_none
  · unfold shellLogin
    rcases outcome with ⟨before, user, left, found, done⟩ | ⟨nobody, waits⟩
    · rw [done]
      constructor
      · intro waiting
        cases waiting
      · rintro ⟨nobody, -⟩
        exact absurd nobody found.not_none
    · rw [waits, Option.some.injEq, LoginResult.waiting.injEq]
      exact ⟨fun same => ⟨nobody, same.symm⟩, fun ⟨_, same⟩ => same.symm⟩
  · have process : accounts.kernel.currentProcess = some i := current
    unfold Accounts.login setCurrentUid
    rw [process]
    simp

end Login

end Kfs.Shell
