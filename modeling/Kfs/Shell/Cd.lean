/-
**The working directory: `cmd_cd`.**

`cd` builds a path twice, once to resolve it and once to store it: an absolute argument is resolved as it
is and stored through `strncpy`, a relative one goes through the same `snprintf` both times. The stored
path is the one that was resolved as long as neither copy cuts it differently (`stored_resolves`), and it
feeds the next `cd`.

`pwd_valid`: after any `cd` commands the working directory is an absolute path of less than 256 characters
that resolves to a directory.
-/

import Kfs.Process.Control
import Kfs.Process.Runs
import Kfs.Strings.Format
import Kfs.Vfs.Mount

namespace Kfs.Shell

open Kfs.Vfs Kfs.Process Strings

/-- `sizeof(proc->pwd)`, and of the buffers for paths. -/
def pathSize : Nat := 256

/-- `node->type`. -/
def nodeType {Fs : Type} : VfsNode Fs → FileType
  | .virtualDir _ _ => .directory
  | .virtualFile _ _ => .regular
  | .ext2 _ _ inode _ => ext2ToVfsType inode.mode

/-- `current ? process_get_pwd(current) : "/"`, as the commands have it. -/
def currentPwd (s : Kernel) : CString :=
  match s.currentProcess with
  | some i => (s.table i).pwd
  | none => ['/']

/-- The path that a relative one stands for, cut to the size of its buffer. -/
def fullPath (pwd path : CString) : CString :=
  if pwd = ['/'] then snprintf pathSize ['/', '%', 's'] [.str (some path)]
  else snprintf pathSize ['%', 's', '/', '%', 's'] [.str (some pwd), .str (some path)]

/-- `process_set_pwd`. -/
def processSetPwd (s : Kernel) (proc : Option Slot) (path : CString) : Kernel × Int :=
  match proc with
  | none => (s, -1)
  | some i =>
      if path.length ≥ pathSize then (s, -1)
      else (s.modify i fun proc => { proc with pwd := path }, 0)

/-- `full_path` of `cmd_cd`: an absolute path as it is, cut to the size of its buffer. -/
def newPwd (s : Kernel) (path : CString) : CString :=
  if path.head? = some '/' then path.take (pathSize - 1) else fullPath (currentPwd s) path

section Commands

variable {Fs : Type} (view : Fs → Ext2View) (st : VfsState Fs)

/-- `resolve_path_from_pwd`. -/
def resolvePathFromPwd (s : Kernel) (path : CString) : Option (VfsNode Fs) :=
  if path.head? = some '/' then vfsResolvePath view st path
  else vfsResolvePath view st (fullPath (currentPwd s) path)

/-- `cmd_cd`, with the path it stored or the error it printed. -/
def cmdCd (s : Kernel) (arg : Option CString) : Kernel × Except CString CString :=
  let path := arg.getD ['/']
  match resolvePathFromPwd view st s path with
  | none => (s, .error ("cd: ".toList ++ path ++ ": No such file or directory\n".toList))
  | some dir =>
      if nodeType dir ≠ .directory then
        (s, .error ("cd: ".toList ++ path ++ ": Not a directory\n".toList))
      else
        match s.currentProcess with
        | none => (s, .error "cd: No current process\n".toList)
        | some i =>
            match processSetPwd s (some i) (newPwd s path) with
            | (t, 0) => (t, .ok (newPwd s path))
            | (t, _) => (t, .error "cd: Cannot change directory\n".toList)

/-- A `cd` with what the command line has room for. -/
def CdStep (s : Kernel) (arg : Option CString) (t : Kernel) : Prop :=
  (∀ path ∈ arg, path.length ≤ 252) ∧ (cmdCd view st s arg).1 = t

/-- The working directory is an absolute path of a directory that fits its field. -/
structure ValidPwd (s : Kernel) : Prop where
  rooted : (currentPwd s).head? = some '/'
  short : (currentPwd s).length < pathSize
  directory : ∃ dir, vfsResolvePath view st (currentPwd s) = some dir ∧ nodeType dir = .directory

/-- **What a `cd` promises**: an error leaves the working directory alone, and otherwise it resolves to the
directory that was checked. -/
def CdHonest (s : Kernel) (arg : Option CString) : Prop :=
  match cmdCd view st s arg with
  | (t, .error _) => currentPwd t = currentPwd s
  | (t, .ok _) => ∃ dir, resolvePathFromPwd view st s (arg.getD ['/']) = some dir ∧
      nodeType dir = .directory ∧ vfsResolvePath view st (currentPwd t) = some dir

end Commands

section Valid

variable {Fs : Type} {view : Fs → Ext2View} {st : VfsState Fs} {s t : Kernel} {i : Slot} {pwd path : CString}
  {arg : Option CString}

theorem fullPath_eq : fullPath pwd path = ((if pwd = ['/'] then [] else pwd) ++ '/' :: path).take 255 := by
  unfold fullPath pathSize
  split
  · exact snprintf_rooted path
  · exact snprintf_joined pwd path

theorem fullPath_length : (fullPath pwd path).length < pathSize := by
  rw [fullPath_eq, List.length_take]
  unfold pathSize
  omega

theorem fullPath_rooted (rooted : pwd.head? = some '/') : (fullPath pwd path).head? = some '/' := by
  rw [fullPath_eq, List.head?_take]
  split
  · rename_i none
    cases none
  · split
    · rfl
    · rw [List.head?_append, rooted]
      rfl

theorem newPwd_length : (newPwd s path).length < pathSize := by
  unfold newPwd
  split
  · rw [List.length_take]
    unfold pathSize
    omega
  · exact fullPath_length

theorem newPwd_rooted (rooted : (currentPwd s).head? = some '/') : (newPwd s path).head? = some '/' := by
  unfold newPwd
  split
  · rename_i absolute
    rw [List.head?_take, if_neg (by decide), absolute]
  · exact fullPath_rooted rooted

/-- **What `cmd_cd` does**: print an error and change nothing, or store the path that leads to the
directory it found. -/
theorem cmdCd_cases (view : Fs → Ext2View) (st : VfsState Fs) (s : Kernel) (arg : Option CString) :
    (∃ message, cmdCd view st s arg = (s, .error message)) ∨
    ∃ i dir, s.currentProcess = some i ∧
      resolvePathFromPwd view st s (arg.getD ['/']) = some dir ∧ nodeType dir = .directory ∧
      cmdCd view st s arg = (s.modify i fun proc => { proc with pwd := newPwd s (arg.getD ['/']) },
        .ok (newPwd s (arg.getD ['/']))) := by
  cases found : resolvePathFromPwd view st s (arg.getD ['/']) with
  | none =>
      refine .inl ⟨"cd: ".toList ++ arg.getD ['/'] ++ ": No such file or directory\n".toList, ?_⟩
      simp only [cmdCd, found]
  | some dir =>
      by_cases directory : nodeType dir = .directory
      · cases current : s.currentProcess with
        | none =>
            refine .inl ⟨"cd: No current process\n".toList, ?_⟩
            simp only [cmdCd, found, directory, ne_eq, not_true_eq_false, if_false, current]
        | some i =>
            have set : processSetPwd s (some i) (newPwd s (arg.getD ['/'])) =
                (s.modify i fun proc => { proc with pwd := newPwd s (arg.getD ['/']) }, 0) :=
              if_neg (not_le.mpr newPwd_length)
            refine .inr ⟨i, dir, rfl, rfl, directory, ?_⟩
            simp only [cmdCd, found, directory, ne_eq, not_true_eq_false, if_false, current, set]
      · refine .inl ⟨"cd: ".toList ++ arg.getD ['/'] ++ ": Not a directory\n".toList, ?_⟩
        simp only [cmdCd, found, ne_eq, directory, not_false_eq_true, if_true]

theorem currentPwd_modify (current : s.currentProcess = some i) (path : CString) :
    currentPwd (s.modify i fun proc => { proc with pwd := path }) = path := by
  unfold currentPwd
  rw [Kernel.modify_currentProcess, current]
  simp

/-- **The path stored is the path resolved.** -/
theorem stored_resolves (short : ∀ path ∈ arg, path.length ≤ 252) :
    vfsResolvePath view st (newPwd s (arg.getD ['/'])) =
      resolvePathFromPwd view st s (arg.getD ['/']) := by
  have fits : (arg.getD ['/']).length ≤ 252 := by
    cases arg with
    | none => decide
    | some path => exact short path rfl
  unfold resolvePathFromPwd newPwd
  split
  · rw [List.take_of_length_le (le_trans fits (by decide))]
  · rfl

theorem cmdCd_honest (short : ∀ path ∈ arg, path.length ≤ 252) : CdHonest view st s arg := by
  unfold CdHonest
  rcases cmdCd_cases view st s arg with ⟨message, failed⟩ | ⟨i, dir, current, found, directory, done⟩
  · rw [failed]
  · rw [done]
    refine ⟨dir, found, directory, ?_⟩
    rw [currentPwd_modify current, stored_resolves short, found]

theorem cmdCd_current : (cmdCd view st s arg).1.currentProcess = s.currentProcess := by
  rcases cmdCd_cases view st s arg with ⟨message, failed⟩ | ⟨i, dir, current, -, -, done⟩
  · rw [failed]
  · rw [done]
    rfl

/-- **One `cd`** keeps the working directory valid. -/
theorem ValidPwd.step (valid : ValidPwd view st s) (short : ∀ path ∈ arg, path.length ≤ 252) :
    ValidPwd view st (cmdCd view st s arg).1 := by
  rcases cmdCd_cases view st s arg with ⟨message, failed⟩ | ⟨i, dir, current, found, directory, done⟩
  · rw [failed]
    exact valid
  · rw [done]
    refine ⟨?_, ?_, dir, ?_, directory⟩
    · rw [currentPwd_modify current]
      exact newPwd_rooted valid.rooted
    · rw [currentPwd_modify current]
      exact newPwd_length
    · rw [currentPwd_modify current, stored_resolves short, found]

/-- **The working directory is always valid**, and every `cd` is honest about it. -/
theorem pwd_valid {args : List (Option CString)} {root : VfsNode Fs} (rooted : st.root = some root)
    (directory : nodeType root = .directory) (current : s.currentProcess = some i)
    (start : (s.table i).pwd = ['/']) (run : Run (CdStep view st) s args t) :
    t.currentProcess = some i ∧ ValidPwd view st t ∧
      ∀ arg : Option CString, (∀ path ∈ arg, path.length ≤ 252) → CdHonest view st t arg := by
  have pwd : currentPwd s = ['/'] := by
    unfold currentPwd
    rw [current]
    exact start
  have first : ValidPwd view st s := by
    refine ⟨by rw [pwd]; rfl, by rw [pwd]; decide, root, ?_, directory⟩
    rw [pwd, vfsResolvePath, rooted]
    rfl
  have step : ∀ u arg w, u.currentProcess = some i ∧ ValidPwd view st u → CdStep view st u arg w →
      w.currentProcess = some i ∧ ValidPwd view st w := by
    rintro u arg w ⟨same, valid⟩ ⟨short, rfl⟩
    exact ⟨cmdCd_current.trans same, valid.step short⟩
  obtain ⟨same, valid⟩ := run.invariant
    (fun u => u.currentProcess = some i ∧ ValidPwd view st u) step ⟨current, first⟩
  exact ⟨same, valid, fun arg => cmdCd_honest⟩

end Valid

/-- A kernel whose first process runs in `/`. -/
def rootedKernel : Kernel :=
  { freshKernel.modify firstSlot fun proc => { proc with state := .running, pwd := ['/'] } with
    currentProcess := some firstSlot }

/-- No filesystem of any kind is mounted. -/
def noView (fs : Empty) : Ext2View := nomatch fs

/-- To `/home`; a `cd` to a file is refused. -/
theorem pwd_valid_home :
    Run (CdStep noView vfsInit) rootedKernel
      [some "home".toList, some "/readme.txt".toList] (cmdCd noView vfsInit
        (cmdCd noView vfsInit rootedKernel (some "home".toList)).1 (some "/readme.txt".toList)).1 ∧
    currentPwd (cmdCd noView vfsInit rootedKernel (some "home".toList)).1 = "/home".toList ∧
    ValidPwd noView vfsInit (cmdCd noView vfsInit
      (cmdCd noView vfsInit rootedKernel (some "home".toList)).1 (some "/readme.txt".toList)).1 := by
  have run : Run (CdStep noView vfsInit) rootedKernel
      [some "home".toList, some "/readme.txt".toList] (cmdCd noView vfsInit
        (cmdCd noView vfsInit rootedKernel (some "home".toList)).1 (some "/readme.txt".toList)).1 :=
    .cons ⟨by decide, rfl⟩ (.cons ⟨by decide, rfl⟩ (.nil _))
  exact ⟨run, by decide +kernel, (pwd_valid rfl rfl rfl (by decide +kernel) run).2.1⟩

end Kfs.Shell
