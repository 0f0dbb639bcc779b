/-
**Shell commands and timer ticks.**

The shell keeps its working directory and its UID in whatever process is current. Its commands create
processes, which are READY; every tenth tick of the timer calls the scheduler, which makes the next READY
process current. A command changes the control block of the current process only through `cd` and `login`
(`Untouched`), so the shell stays where it is until a tick makes a process current that has another
directory or another UID: `shell_stays`. A run where that happens is `tick_moves_shell`.
-/

import Kfs.Process.Refine
import Kfs.Process.Regions
import Kfs.Shell.Cd

namespace Kfs.Shell

open Kfs.Heap Kfs.Paging Kfs.Vfs Kfs.Process

/-- The kernel image with the addresses of the functions that the shell hands to the kernel. -/
structure ShellImage where
  image : KernelImage
  shellProcessEntry : Nat
  testProcessEntry : Nat
  testProcessSignalHandler : Nat

/-- `user_t`. -/
structure User where
  username : CString
  password : CString
  uid : Nat
  deriving DecidableEq, Repr

/-- `users`. -/
def users : List User :=
  [⟨"root".toList, "root".toList, 0⟩, ⟨"admin".toList, "admin".toList, 1⟩,
    ⟨"user".toList, "user".toList, 1000⟩, ⟨"guest".toList, "guest".toList, 1001⟩]

/-- `SCHEDULE_FREQUENCY`. -/
def scheduleFrequency : Nat := 10

/-- `process_get_current_uid`. -/
def processGetCurrentUid (s : Kernel) : Nat :=
  match s.currentProcess with
  | some i => (s.table i).uid
  | none => 0

/-- `process_signal_register`. -/
def processSignalRegister (s : Kernel) (proc : Option Slot) (signal : Int) (handler : Nat) : Kernel × Int :=
  match proc with
  | none => (s, -1)
  | some i =>
      if signal < 0 ∨ 32 ≤ signal then (s, -1)
      else (s.modify i fun proc =>
        { proc with signalHandlers := Function.update proc.signalHandlers signal.toNat handler }, 0)

/-- `shell_create_process`, with the process it made. -/
def shellCreateProcess (im : ShellImage) (s : Kernel) : Outcome (Kernel × Option Slot) := do
  let (s, proc) ← processCreate im.image s im.shellProcessEntry 0
  match proc with
  | some i => return (processSetCurrent s i, some i)
  | none => return (s, none)

/-- The UID that `cmd_login` finds for a name and a password, which is the name itself when none is
given. -/
def loginUid (username : CString) (password : Option CString) : Option Nat :=
  match users.find? fun user => user.username = username with
  | some user => if user.password = password.getD username then some user.uid else none
  | none => none

/-- What a login does to the current process. -/
def setCurrentUid (s : Kernel) (uid : Nat) : Kernel :=
  match s.currentProcess with
  | some i => s.modify i fun proc => { proc with uid := uid }
  | none => s

/-- `cmd_process`. -/
def cmdProcess (im : ShellImage) (s : Kernel) : Outcome Kernel := do
  let (s, _) ← processCreate im.image s im.testProcessEntry 0
  return s

/-- `cmd_fork`. -/
def cmdFork (im : ShellImage) (s : Kernel) : Outcome Kernel := do
  let (s, parent) ← processCreate im.image s im.testProcessEntry 0
  match parent with
  | none => return s
  | some p => do
      let (s, _) ← processFork s (some p)
      return s

/-- `cmd_psignal`. -/
def cmdPsignal (im : ShellImage) (s : Kernel) : Outcome Kernel := do
  let (s, proc) ← processCreate im.image s im.testProcessEntry 0
  match proc with
  | none => return s
  | some p => do
      let s := (processSignalRegister s (some p) 2 im.testProcessSignalHandler).1
      let (s, _) ← processSignalSend s (some p) 2
      let (s, _) ← processSignalProcess s (some p)
      return s

/-- `cmd_mmap`. -/
def cmdMmap (im : ShellImage) (s : Kernel) : Outcome Kernel := do
  let (s, proc) ← processCreate im.image s im.testProcessEntry 0
  match proc with
  | none => return s
  | some p => do
      let (s, mapped) ←
        processMmap s (some p) 0 8192 (protRead ||| protWrite) (mapPrivate ||| mapAnonymous)
      if mapped = mapFailed then return s
      else do
        let (s, _) ← processBrk s (some p) (((s.table p).heapEnd + 4096) % 2 ^ 32)
        return s

/-! ### Sessions -/

/-- The state the shell works on, with the path of the last successful `cd` and the UID of the last
successful login. -/
structure Session (Fs : Type) where
  kernel : Kernel
  vfs : VfsState Fs
  timerTicks : Nat
  currentUid : Nat
  lastCd : CString
  lastUid : Nat

/-- A command, or a timer interrupt between two commands. The commands that leave the process table alone
may do anything to memory and to the mounted filesystems. -/
inductive ShellOp (Fs : Type) where
  | pwd
  | cd (arg : Option CString)
  | login (username : CString) (password : Option CString)
  | process
  | fork
  | psignal
  | mmap
  | other (vfs : VfsState Fs) (paging : PagingState)
  | tick

section Exec

variable {Fs : Type} (im : ShellImage) (view : Fs → Ext2View)

/-- `timer_irq_handler`. -/
def timerIrqHandler (t : Session Fs) : Outcome (Session Fs) :=
  let ticks := (t.timerTicks + 1) % 2 ^ 32
  if ticks % scheduleFrequency = 0 then do
    let (s, _) ← processSchedule t.kernel
    return { t with timerTicks := ticks, kernel := s }
  else .ok { t with timerTicks := ticks }

/-- One command or tick. -/
def Session.exec (t : Session Fs) : ShellOp Fs → Outcome (Session Fs)
  | .pwd => .ok t
  | .cd arg =>
      match cmdCd view t.vfs t.kernel arg with
      | (s, .ok path) => .ok { t with kernel := s, lastCd := path }
      | (s, .error _) => .ok { t with kernel := s }
  | .login username password =>
      match loginUid username password with
      | some uid => .ok { t with kernel := setCurrentUid t.kernel uid, currentUid := uid, lastUid := uid }
      | none => .ok t
  | .process => do return { t with kernel := ← cmdProcess im t.kernel }
  | .fork => do return { t with kernel := ← cmdFork im t.kernel }
  | .psignal => do return { t with kernel := ← cmdPsignal im t.kernel }
  | .mmap => do return { t with kernel := ← cmdMmap im t.kernel }
  | .other vfs paging => .ok { t with vfs := vfs, kernel := t.kernel.withPaging paging }
  | .tick => timerIrqHandler t

/-- One step. -/
def SessionStep (t : Session Fs) (op : ShellOp Fs) (t' : Session Fs) : Prop := t.exec im view op = .ok t'

/-- The session that the shell starts with. -/
def Session.start (vfs : VfsState Fs) (ticks : Nat) (s : Kernel) : Session Fs := ⟨s, vfs, ticks, 0, ['/'], 0⟩

end Exec

/-- **The shell is where its commands put it**: its directory is that of the last `cd`, its UID that of the
last login. -/
def Session.Stays {Fs : Type} (t : Session Fs) : Prop :=
  currentPwd t.kernel = t.lastCd ∧ processGetCurrentUid t.kernel = t.lastUid

/-- The tick leaves the current process alone, or the process it makes current has the same directory and
the same UID. -/
def KeepsShell {Fs : Type} (t : Session Fs) : ShellOp Fs → Prop
  | .tick => (t.timerTicks + 1) % 2 ^ 32 % scheduleFrequency = 0 →
      ∀ next ∈ pickNext t.kernel.table t.kernel.currentProcess,
        (t.kernel.table next).pwd = currentPwd t.kernel ∧
          (t.kernel.table next).uid = processGetCurrentUid t.kernel
  | _ => True

/-! ### What commands leave alone -/

/-- The current process and one control block are as they were. -/
def Untouched (c : Slot) (s s' : Kernel) : Prop :=
  s'.currentProcess = s.currentProcess ∧ s'.table c = s.table c

section Frames

variable {c p i : Slot} {s s' s'' : Kernel} {image : KernelImage}

theorem Untouched.refl : Untouched c s s := ⟨rfl, rfl⟩

theorem Untouched.trans (first : Untouched c s s') (second : Untouched c s' s'') : Untouched c s s'' :=
  ⟨second.1.trans first.1, second.2.trans first.2⟩

theorem Untouched.modify (other : p ≠ c) (f : Pcb → Pcb) : Untouched c s (s.modify p f) :=
  ⟨rfl, by rw [Kernel.modify_table, if_neg other.symm]⟩

theorem Untouched.withPaging (p : PagingState) : Untouched c s (s.withPaging p) := ⟨rfl, rfl⟩

theorem Untouched.withHeap (h : HeapState) : Untouched c s (s.withHeap h) := ⟨rfl, rfl⟩

/-- **A created process is not the one in use**, whose control block stays as it is. -/
theorem processCreate_untouched {entryPoint uid : Nat} {r : Option Slot} (used : (s.table c).state ≠ .unused)
    (done : processCreate image s entryPoint uid = .ok (s', r)) :
    Untouched c s s' ∧ ∀ p ∈ r, p ≠ c := by
  obtain ⟨mem, made⟩ := create_procs done
  unfold Procs.create at made
  cases found : s.procs.allocSlot with
  | none =>
      rw [found] at made
      obtain ⟨same, rfl⟩ := Prod.mk.inj made
      exact ⟨⟨congrArg Procs.currentProcess same.symm, congrArg (fun q => q.table c) same.symm⟩, nofun⟩
  | some i =>
      rw [found] at made
      have unused := Procs.allocSlot_unused found
      have other : c ≠ i := by
        rintro rfl
        exact used unused
      have birth := Procs.createAt_birth unused entryPoint uid mem
      have kept := Procs.createAt_others (s := s.procs) entryPoint uid mem other
      simp only at made
      rw [made] at birth kept
      refine ⟨⟨birth.currentProcess, kept⟩, fun p member => ?_⟩
      rcases (birth.result : r = some i ∨ r = none) with rfl | rfl
      · rw [← Option.some.inj member]
        exact other.symm
      · cases member

/-- A fork of another process. -/
theorem processFork_untouched {r : Option Slot} (used : (s.table c).state ≠ .unused) (other : p ≠ c)
    (done : processFork s (some p) = .ok (s', r)) : Untouched c s s' := by
  obtain ⟨mem, made⟩ := fork_procs done
  unfold Procs.fork at made
  cases found : s.procs.allocSlot with
  | none =>
      rw [found] at made
      obtain ⟨same, -⟩ := Prod.mk.inj made
      exact ⟨congrArg Procs.currentProcess same.symm, congrArg (fun q => q.table c) same.symm⟩
  | some k =>
      rw [found] at made
      have unused := Procs.allocSlot_unused found
      have away : c ≠ k := by
        rintro rfl
        exact used unused
      have birth := Procs.forkAt_birth unused p mem
      have kept := Procs.forkAt_others (s := s.procs) mem away other.symm
      simp only at made
      rw [made] at birth kept
      exact ⟨birth.currentProcess, kept⟩

theorem processSignalRegister_untouched (other : p ≠ c) (signal : Int) (handler : Nat) :
    Untouched c s (processSignalRegister s (some p) signal handler).1 := by
  simp only [processSignalRegister]
  split
  · exact .refl
  · exact .modify other _

theorem processSignalSend_untouched {signal r : Int} (other : p ≠ c)
    (done : processSignalSend s (some p) signal = .ok (s', r)) : Untouched c s s' := by
  simp only [processSignalSend] at done
  split at done
  · cases done
    exact .refl
  · obtain ⟨⟨h, entry⟩, -, rest⟩ := Outcome.bind_eq_ok.mp done
    simp only at rest
    split at rest
    · cases rest
      exact .withHeap h
    · cases rest
      exact (Untouched.withHeap h).trans ((Untouched.withPaging _).trans (.modify other _))

theorem processSignalProcess_untouched {delivered : List Delivery} (other : p ≠ c)
    (done : processSignalProcess s (some p) = .ok (s', delivered)) : Untouched c s s' := by
  obtain ⟨⟨h, later⟩, -, rest⟩ := Outcome.bind_eq_ok.mp done
  cases rest
  exact (Untouched.withHeap h).trans (.modify other _)

theorem processMmap_untouched {addr length prot flags r : Nat} (other : p ≠ c)
    (done : processMmap s (some p) addr length prot flags = .ok (s', r)) : Untouched c s s' := by
  cases processMmap_way done with
  | nothing empty => exact .refl
  | failed asked loop => exact .withPaging _
  | done asked loop => exact (Untouched.withPaging _).trans (.modify other _)

theorem processMunmap_untouched {proc : Option Slot} {addr length : Nat} {r : Int}
    (done : processMunmap s proc addr length = .ok (s', r)) : Untouched c s s' := by
  cases processMunmap_way done with
  | nothing refused => exact .refl
  | done asked loop => exact .withPaging _

theorem processBrk_untouched {addr r : Nat} (other : p ≠ c)
    (done : processBrk s (some p) addr = .ok (s', r)) : Untouched c s s' := by
  cases processBrk_way done with
  | query null => exact .refl
  | failed asked grows mmap => exact processMmap_untouched other mmap
  | grown asked grows mmap found => exact processMmap_untouched other mmap
  | shrunk asked shrinks munmap => exact (processMunmap_untouched munmap).trans (.modify other _)
  | kept asked same => exact .refl

theorem cmdProcess_untouched {im : ShellImage} (used : (s.table c).state ≠ .unused)
    (done : cmdProcess im s = .ok s') : Untouched c s s' := by
  obtain ⟨⟨s₁, proc⟩, created, rest⟩ := Outcome.bind_eq_ok.mp done
  cases rest
  exact (processCreate_untouched used created).1

/-- A command that creates a process and goes on with it. -/
theorem processCreate_cases {entryPoint uid : Nat} {next : Kernel × Option Slot → Outcome Kernel}
    (used : (s.table c).state ≠ .unused) (done : processCreate image s entryPoint uid >>= next = .ok s') :
    (∃ t, Untouched c s t ∧ next (t, none) = .ok s') ∨
      ∃ t p, Untouched c s t ∧ p ≠ c ∧ next (t, some p) = .ok s' := by
  obtain ⟨⟨t, proc⟩, created, rest⟩ := Outcome.bind_eq_ok.mp done
  obtain ⟨first, fresh⟩ := processCreate_untouched used created
  cases proc with
  | none => exact .inl ⟨t, first, rest⟩
  | some p => exact .inr ⟨t, p, first, fresh p rfl, rest⟩

theorem cmdFork_untouched {im : ShellImage} (used : (s.table c).state ≠ .unused)
    (done : cmdFork im s = .ok s') : Untouched c s s' := by
  rcases processCreate_cases used done with ⟨s₁, first, rest⟩ | ⟨s₁, p, first, other, rest⟩
  · cases rest
    exact first
  · obtain ⟨⟨s₂, child⟩, forked, rest⟩ := Outcome.bind_eq_ok.mp rest
    cases rest
    exact first.trans (processFork_untouched (by rwa [first.2]) other forked)

theorem cmdPsignal_untouched {im : ShellImage} (used : (s.table c).state ≠ .unused)
    (done : cmdPsignal im s = .ok s') : Untouched c s s' := by
  rcases processCreate_cases used done with ⟨s₁, first, rest⟩ | ⟨s₁, p, first, other, rest⟩
  · cases rest
    exact first
  · obtain ⟨⟨s₂, sent⟩, sending, rest⟩ := Outcome.bind_eq_ok.mp rest
    obtain ⟨⟨s₃, delivered⟩, delivering, rest⟩ := Outcome.bind_eq_ok.mp rest
    cases rest
    exact first.trans ((processSignalRegister_untouched other _ _).trans
      ((processSignalSend_untouched other sending).trans (processSignalProcess_untouched other delivering)))

theorem cmdMmap_untouched {im : ShellImage} (used : (s.table c).state ≠ .unused)
    (done : cmdMmap im s = .ok s') : Untouched c s s' := by
  rcases processCreate_cases used done with ⟨s₁, first, rest⟩ | ⟨s₁, p, first, other, rest⟩
  · cases rest
    exact first
  · obtain ⟨⟨s₂, mapped⟩, mapping, rest⟩ := Outcome.bind_eq_ok.mp rest
    have second := first.trans (processMmap_untouched other mapping)
    simp only at rest
    split at rest
    · cases rest
      exact second
    · obtain ⟨⟨s₃, result⟩, growing, rest⟩ := Outcome.bind_eq_ok.mp rest
      cases rest
      exact second.trans (processBrk_untouched other growing)

/-- **What a switch does to the process it switches to.** -/
theorem processSwitch_next {delivered : List Delivery} (done : processSwitch s p = .ok (s', delivered)) :
    s'.currentProcess = some p ∧ (s'.table p).state = .running ∧ (s'.table p).pwd = (s.table p).pwd ∧
      (s'.table p).uid = (s.table p).uid := by
  have before : (switchTo s p).currentProcess = some p ∧ ((switchTo s p).table p).state = .running ∧
      ((switchTo s p).table p).pwd = (s.table p).pwd ∧ ((switchTo s p).table p).uid = (s.table p).uid := by
    refine ⟨rfl, ?_⟩
    unfold switchTo
    cases s.currentProcess with
    | none => simp
    | some j =>
        simp only
        split
        · by_cases same : p = j
          · subst same
            simp
          · simp [Kernel.modify_table, same]
        · simp
  obtain ⟨⟨h, later⟩, -, rest⟩ := Outcome.bind_eq_ok.mp done
  cases rest
  exact ⟨rfl, by simpa using before.2⟩

end Frames

section Sessions

variable {Fs : Type} {im : ShellImage} {view : Fs → Ext2View} {t t' : Session Fs} {c : Slot} {op : ShellOp Fs}
  {s s' : Kernel}

/-- A process is current and running. -/
structure Resides (s : Kernel) (c : Slot) : Prop where
  current : s.currentProcess = some c
  running : (s.table c).state = .running

theorem Resides.used (resides : Resides s c) : (s.table c).state ≠ .unused := by
  rw [resides.running]
  decide

theorem Resides.pwd (resides : Resides s c) : currentPwd s = (s.table c).pwd := by
  rw [currentPwd, resides.current]

theorem Resides.uid (resides : Resides s c) : processGetCurrentUid s = (s.table c).uid := by
  rw [processGetCurrentUid, resides.current]

theorem Resides.untouched (resides : Resides s c) (same : Untouched c s s') : Resides s' c :=
  ⟨same.1.trans resides.current, by rw [same.2]; exact resides.running⟩

/-- A command that leaves the current process alone. -/
theorem Resides.stays (resides : Resides t.kernel c) (stays : t.Stays) (same : Untouched c t.kernel s') :
    Resides s' c ∧ ({ t with kernel := s' } : Session Fs).Stays := by
  have after := resides.untouched same
  refine ⟨after, ?_, ?_⟩
  · rw [after.pwd, same.2, ← resides.pwd]
    exact stays.1
  · rw [after.uid, same.2, ← resides.uid]
    exact stays.2

/-- `cd` stores where the shell is. -/
theorem Resides.cd (resides : Resides t.kernel c) (stays : t.Stays) (arg : Option CString)
    (done : t.exec im view (.cd arg) = .ok t') : Resides t'.kernel c ∧ t'.Stays := by
  simp only [Session.exec] at done
  rcases cmdCd_cases view t.vfs t.kernel arg with ⟨message, failed⟩ | ⟨i, dir, current, -, -, moved⟩
  · rw [failed] at done
    cases done
    exact ⟨resides, stays⟩
  · cases resides.current.symm.trans current
    rw [moved] at done
    cases done
    refine ⟨⟨resides.current, by simp [resides.running]⟩, currentPwd_modify resides.current _, ?_⟩
    rw [processGetCurrentUid, Kernel.modify_currentProcess, resides.current]
    simp only [Kernel.modify_self]
    rw [← resides.uid]
    exact stays.2

theorem Resides.login (resides : Resides t.kernel c) (stays : t.Stays) (username : CString)
    (password : Option CString) (done : t.exec im view (.login username password) = .ok t') :
    Resides t'.kernel c ∧ t'.Stays := by
  simp only [Session.exec] at done
  split at done
  · rename_i uid known
    cases done
    have set : setCurrentUid t.kernel uid = t.kernel.modify c fun proc => { proc with uid := uid } := by
      rw [setCurrentUid, resides.current]
    have after : Resides (t.kernel.modify c fun proc => { proc with uid := uid }) c :=
      ⟨resides.current, by simp [resides.running]⟩
    simp only [Session.Stays, set]
    refine ⟨after, ?_, ?_⟩
    · rw [after.pwd, Kernel.modify_self, ← stays.1, resides.pwd]
    · rw [after.uid, Kernel.modify_self]
  · cases done
    exact ⟨resides, stays⟩

/-- **A tick** keeps the shell where it is exactly when it makes no process with another directory or UID
current. -/
theorem Resides.tick (resides : Resides t.kernel c) (stays : t.Stays)
    (done : timerIrqHandler t = .ok t') :
    (∃ c', Resides t'.kernel c') ∧ (t'.Stays ↔ KeepsShell t .tick) := by
  unfold timerIrqHandler at done
  simp only at done
  by_cases due : (t.timerTicks + 1) % 2 ^ 32 % scheduleFrequency = 0
  · rw [if_pos due] at done
    obtain ⟨⟨s₁, delivered⟩, scheduled, rest⟩ := Outcome.bind_eq_ok.mp done
    cases rest
    unfold processSchedule at scheduled
    simp only [KeepsShell, due, true_implies]
    cases picked : pickNext t.kernel.table t.kernel.currentProcess with
    | none =>
        rw [picked] at scheduled
        cases scheduled
        exact ⟨⟨c, resides⟩, iff_of_true stays nofun⟩
    | some next =>
        rw [picked] at scheduled
        simp only [Option.mem_some_iff, forall_eq']
        simp only at scheduled
        split at scheduled
        · obtain ⟨current, running, pwd, uid⟩ := processSwitch_next scheduled
          have after : Resides s₁ next := ⟨current, running⟩
          refine ⟨⟨next, after⟩, ?_⟩
          rw [Session.Stays, after.pwd, after.uid, pwd, uid, stays.1, stays.2]
        · rename_i same
          cases scheduled
          cases (not_not.mp same).trans resides.current
          exact ⟨⟨c, resides⟩, iff_of_true stays ⟨resides.pwd.symm, resides.uid.symm⟩⟩
  · rw [if_neg due] at done
    cases done
    exact ⟨⟨c, resides⟩, iff_of_true stays fun now => absurd now due⟩

/-- **One step.** -/
theorem Resides.step (resides : Resides t.kernel c) (stays : t.Stays) (step : SessionStep im view t op t') :
    (∃ c', Resides t'.kernel c') ∧ (t'.Stays ↔ KeepsShell t op) := by
  have kept : ∀ {u : Session Fs}, Resides u.kernel c ∧ u.Stays →
      (∃ c', Resides u.kernel c') ∧ (u.Stays ↔ True) :=
    fun both => ⟨⟨c, both.1⟩, iff_of_true both.2 trivial⟩
  cases op with
  | pwd =>
      cases step
      exact kept ⟨resides, stays⟩
  | cd arg => exact kept (resides.cd stays arg step)
  | login username password => exact kept (resides.login stays username password step)
  | process =>
      obtain ⟨s₁, made, rest⟩ := Outcome.bind_eq_ok.mp step
      cases rest
      exact kept (resides.stays stays (cmdProcess_untouched resides.used made))
  | fork =>
      obtain ⟨s₁, made, rest⟩ := Outcome.bind_eq_ok.mp step
      cases rest
      exact kept (resides.stays stays (cmdFork_untouched resides.used made))
  | psignal =>
      obtain ⟨s₁, made, rest⟩ := Outcome.bind_eq_ok.mp step
      cases rest
      exact kept (resides.stays stays (cmdPsignal_untouched resides.used made))
  | mmap =>
      obtain ⟨s₁, made, rest⟩ := Outcome.bind_eq_ok.mp step
      cases rest
      exact kept (resides.stays stays (cmdMmap_untouched resides.used made))
  | other vfs paging =>
      cases step
      exact kept (resides.stays stays (.withPaging paging))
  | tick => exact resides.tick stays step

/-- **The shell's process** starts current and running, in `/` and as root. -/
theorem shellCreateProcess_resides {s₀ : Kernel} (made : shellCreateProcess im s₀ = .ok (s, some c)) :
    Resides s c ∧ (s.table c).pwd = ['/'] ∧ (s.table c).uid = 0 := by
  obtain ⟨⟨s₁, proc⟩, created, rest⟩ := Outcome.bind_eq_ok.mp made
  cases proc with
  | none => cases rest
  | some i =>
      cases rest
      obtain ⟨_, _, _, _, _, _, _, _, _, _, _, _, _, _, table, _⟩ := processCreate_some created
      have block : (s₁.table c).pwd = ['/'] ∧ (s₁.table c).uid = 0 := by
        rw [table, Function.update_self]
        exact ⟨rfl, rfl⟩
      have kept : ((processSetCurrent s₁ c).table c).state = .running ∧
          ((processSetCurrent s₁ c).table c).pwd = (s₁.table c).pwd ∧
          ((processSetCurrent s₁ c).table c).uid = (s₁.table c).uid := by
        unfold processSetCurrent
        cases s₁.currentProcess with
        | none => simp
        | some j =>
            by_cases same : j = c
            · simp [same]
            · simp [same, Kernel.modify_table, Ne.symm same]
      exact ⟨⟨rfl, kept.1⟩, kept.2.1.trans block.1, kept.2.2.trans block.2⟩

/-- **Ticks do not move the shell** in a run where every tick keeps it: its directory is that of the last
`cd` and its UID that of the last login in every state reached. And from each such state a further step
leads to another exactly when it keeps the shell. -/
theorem shell_stays {s₀ : Kernel} {vfs : VfsState Fs} {ticks : Nat} {ops : List (ShellOp Fs)}
    (made : shellCreateProcess im s₀ = .ok (s, some c))
    (run : Run (Guarded KeepsShell (SessionStep im view)) (.start vfs ticks s) ops t) :
    t.Stays ∧ ∀ op t', SessionStep im view t op t' → (t'.Stays ↔ KeepsShell t op) := by
  obtain ⟨resides, pwd, uid⟩ := shellCreateProcess_resides made
  have start : (Session.start vfs ticks s).Stays := ⟨resides.pwd.trans pwd, resides.uid.trans uid⟩
  obtain ⟨⟨c', later⟩, stays⟩ := run.invariant (fun t => (∃ c, Resides t.kernel c) ∧ t.Stays)
    (fun _ _ _ ⟨⟨_, here⟩, stays⟩ step =>
      have next := here.step stays step.2
      ⟨next.1, next.2.mpr step.1⟩) ⟨⟨c, resides⟩, start⟩
  exact ⟨stays, fun op t' step => (later.step stays step).2⟩

end Sessions

instance {Fs : Type} {t : Session Fs} : (op : ShellOp Fs) → Decidable (KeepsShell t op)
  | .tick => inferInstanceAs (Decidable ((t.timerTicks + 1) % 2 ^ 32 % scheduleFrequency = 0 →
      ∀ next ∈ pickNext t.kernel.table t.kernel.currentProcess,
        (t.kernel.table next).pwd = currentPwd t.kernel ∧
          (t.kernel.table next).uid = processGetCurrentUid t.kernel))
  | .pwd | .cd _ | .login _ _ | .process | .fork | .psignal | .mmap | .other _ _ =>
      inferInstanceAs (Decidable True)

def sampleShell : ShellImage := ⟨sampleImage, 0x100000, 0x100100, 0x100200⟩

/-- The kernel with the shell's process. -/
def shellKernel : Kernel := ((shellCreateProcess sampleShell freshKernel).getD (freshKernel, none)).1

theorem shellKernel_made : shellCreateProcess sampleShell freshKernel = .ok (shellKernel, some firstSlot) := by
  have returns := @Outcome.eq_ok_getD _ (shellCreateProcess sampleShell freshKernel)
    (by decide +kernel) (freshKernel, none)
  have slot : ((shellCreateProcess sampleShell freshKernel).getD (freshKernel, none)).2 = some firstSlot := by
    decide +kernel
  rw [returns]
  exact congrArg Outcome.ok (Prod.ext rfl slot)

/-- The shell goes to `/home`, ten ticks pass, and `admin` logs in. -/
def quietOps : List (ShellOp Empty) :=
  .cd (some "home".toList) :: List.replicate 10 .tick ++ [.login "admin".toList none]

def quietSession : Session Empty :=
  (runAll (guardedExec KeepsShell fun t op => t.exec sampleShell noView op) (.start vfsInit 0 shellKernel)
    quietOps).getD (.start vfsInit 0 shellKernel)

theorem shell_stays_quiet :
    Run (Guarded KeepsShell (SessionStep sampleShell noView)) (.start vfsInit 0 shellKernel) quietOps
      quietSession ∧ quietSession.lastCd = "/home".toList ∧ quietSession.lastUid = 1 ∧
      quietSession.Stays := by
  have run : Run (Guarded KeepsShell (SessionStep sampleShell noView)) (.start vfsInit 0 shellKernel)
      quietOps quietSession :=
    Run.of_guardedExec (Outcome.eq_ok_getD (by decide +kernel) _)
  exact ⟨run, by decide +kernel, by decide +kernel, (shell_stays shellKernel_made run).1⟩

/-- The shell goes to `/home`, makes a process, and ten ticks pass. -/
def busyOps : List (ShellOp Empty) :=
  [.cd (some "home".toList), .process] ++ List.replicate 10 .tick

def busySession : Session Empty :=
  (runAll (fun t op => Session.exec sampleShell noView t op) (.start vfsInit 0 shellKernel) busyOps).getD
    (.start vfsInit 0 shellKernel)

/-- The tenth tick makes the new process current, and the shell is in its directory. -/
theorem tick_moves_shell : shellCreateProcess sampleShell freshKernel = .ok (shellKernel, some firstSlot) ∧
    Run (SessionStep sampleShell noView) (.start vfsInit 0 shellKernel) busyOps busySession ∧
    busySession.lastCd = "/home".toList ∧ currentPwd busySession.kernel = "/".toList ∧
    ¬ busySession.Stays := by
  have there : currentPwd busySession.kernel = "/".toList := by decide +kernel
  have left : busySession.lastCd = "/home".toList := by decide +kernel
  refine ⟨shellKernel_made, Run.of_runAll (Outcome.eq_ok_getD (by decide +kernel) _), left, there, ?_⟩
  rintro ⟨same, -⟩
  rw [there, left] at same
  exact absurd same (by decide)

end Kfs.Shell
