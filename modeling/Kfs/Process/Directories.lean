/-
**The loaded page directory.**

`current_directory`, `current_process` and the `page_directory` of each control block are three references
that different functions keep in step. `Directories` adds to the table the directories that exist: those
`paging_create_directory` or `paging_clone_directory` returned and `paging_destroy_directory` has not
released, with a `kfree` that releases the allocation an address lies in.

`process_exit` destroys the directory of the process without looking whether it is loaded.
`loaded_exists`: as long as no process exits while its directory is loaded, and the scheduler is handed
no slot with a directory left over from a failed creation, the loaded directory exists.
-/

import Kfs.Process.Table

namespace Kfs.Process

/-- The table and the directories that exist, the kernel's own apart. -/
structure Directories where
  procs : Procs
  existing : List Nat

namespace Directories

/-- `process_init`, with the kernel's own directory loaded. -/
def init (kernelDirectory : Nat) : Directories := ⟨.init kernelDirectory, []⟩

/-- The directories after a call. One made by a call that fails is destroyed by that call. -/
def track (existing : List Nat) (before after : Procs) : ProcOp → Option Event → List Nat
  | _, none => existing
  | _, some (.created _ i) => (after.table i).pageDirectory :: existing
  | _, some (.forked _ _ c) => (after.table c).pageDirectory :: existing
  | .exit (some i) _, some (.exited _ _) => existing.erase (before.table i).pageDirectory
  | _, some _ => existing

/-- Run one operation. -/
def exec (d : Directories) (op : ProcOp) : Outcome Directories := do
  let (procs, event) ← d.procs.exec op
  return ⟨procs, track d.existing d.procs procs op event⟩

/-- The allocator returns memory that is not in use. -/
def Supplies (kernelDirectory : Nat) (d : Directories) : ProcOp → Prop
  | .create _ _ mem => mem.directory ∉ d.existing ∧ mem.directory ≠ kernelDirectory
  | .fork _ mem => mem.directory ∉ d.existing ∧ mem.directory ≠ kernelDirectory
  | _ => True

/-- One call that returns. -/
def Step (kernelDirectory : Nat) (d : Directories) (op : ProcOp) (d' : Directories) : Prop :=
  d.Supplies kernelDirectory op ∧ d.exec op = .ok d'

/-- The loaded directory is the kernel's or exists. -/
def LoadedExists (kernelDirectory : Nat) (d : Directories) : Prop :=
  d.procs.currentDirectory = kernelDirectory ∨ d.procs.currentDirectory ∈ d.existing

/-- The directory of a control block is not left over from a failed creation. -/
def Current (proc : Pcb) : Prop := proc.state ≠ .unused ∨ proc.pageDirectory = 0

/-- No process exits while its directory is loaded, and exits and `process_set_current` do not meet a
directory left over from a failed creation. -/
def Careful (d : Directories) : ProcOp → Prop
  | .exit proc _ => ∀ i ∈ proc, Current (d.procs.table i) ∧
      (d.procs.table i).pageDirectory ≠ d.procs.currentDirectory
  | .setCurrent proc => (∀ i ∈ proc, Current (d.procs.table i)) ∧
      ∀ j ∈ d.procs.currentProcess, proc ≠ some j → Current (d.procs.table j)
  | _ => True

instance {proc : Pcb} : Decidable (Current proc) := inferInstanceAs (Decidable (_ ∨ _))

instance (kernelDirectory : Nat) (d : Directories) : (op : ProcOp) →
    Decidable (d.Supplies kernelDirectory op)
  | .create _ _ _ => inferInstanceAs (Decidable (_ ∧ _))
  | .fork _ _ => inferInstanceAs (Decidable (_ ∧ _))
  | .exit _ _ => inferInstanceAs (Decidable True)
  | .wait _ => inferInstanceAs (Decidable True)
  | .schedule => inferInstanceAs (Decidable True)
  | .setCurrent _ => inferInstanceAs (Decidable True)

instance (d : Directories) : (op : ProcOp) → Decidable (d.Careful op)
  | .create _ _ _ => inferInstanceAs (Decidable True)
  | .fork _ _ => inferInstanceAs (Decidable True)
  | .exit proc _ => inferInstanceAs (Decidable (∀ i ∈ proc, _))
  | .wait _ => inferInstanceAs (Decidable True)
  | .schedule => inferInstanceAs (Decidable True)
  | .setCurrent _ => inferInstanceAs (Decidable (_ ∧ _))

/-- Every process in use has its own directory, or none. -/
structure Owned (kernelDirectory : Nat) (d : Directories) : Prop where
  nodup : d.existing.Nodup
  nonzero : 0 ∉ d.existing
  notKernel : kernelDirectory ∉ d.existing
  owned : ∀ i, (d.procs.table i).state ≠ .unused → (d.procs.table i).pageDirectory ≠ 0 →
    (d.procs.table i).pageDirectory ∈ d.existing
  apart : ∀ i j, (d.procs.table i).state ≠ .unused → (d.procs.table j).state ≠ .unused →
    (d.procs.table i).pageDirectory ≠ 0 →
    (d.procs.table i).pageDirectory = (d.procs.table j).pageDirectory → i = j
  loaded : d.LoadedExists kernelDirectory

namespace Owned

variable {kernelDirectory : Nat} {d : Directories} {s' : Procs} {i j : Slot} {directory : Nat}

/-- A process with a new directory. -/
theorem birth (owned : Owned kernelDirectory d) (birth : d.procs.Birth s' i directory (some i))
    (new : directory ∉ d.existing) (notKernel : directory ≠ kernelDirectory) :
    Owned kernelDirectory ⟨s', (s'.table i).pageDirectory :: d.existing⟩ := by
  obtain ⟨-, -, nonzero, made⟩ := birth.born.resolve_right (by simp)
  have before : ∀ j, j ≠ i → (s'.table j).state = (d.procs.table j).state ∧
      (s'.table j).pageDirectory = (d.procs.table j).pageDirectory := fun j other =>
    ⟨(birth.others j other).state, (birth.others j other).pageDirectory⟩
  have notNew : ∀ j, j ≠ i → (s'.table j).state ≠ .unused → (s'.table j).pageDirectory ≠ directory := by
    intro j other used equal
    rw [(before j other).1] at used
    rw [(before j other).2] at equal
    exact new (equal ▸ owned.owned j used (equal ▸ nonzero))
  rw [made]
  refine ⟨List.nodup_cons.mpr ⟨new, owned.nodup⟩, ?_, ?_, fun j used nz => ?_,
    fun j k usedj usedk nz equal => ?_, ?_⟩
  · simpa using ⟨Ne.symm nonzero, owned.nonzero⟩
  · simpa using ⟨Ne.symm notKernel, owned.notKernel⟩
  · by_cases here : j = i
    · subst here
      rw [made]
      exact List.mem_cons_self
    · simp only [(before j here).1, (before j here).2] at used nz ⊢
      exact List.mem_cons_of_mem _ (owned.owned j used nz)
  · simp only at usedj usedk nz equal
    by_cases first : j = i
    · by_cases second : k = i
      · rw [first, second]
      · rw [first, made] at equal
        exact absurd equal.symm (notNew k second usedk)
    · by_cases second : k = i
      · rw [second, made] at equal
        exact absurd equal (notNew j first usedj)
      · rw [(before j first).1] at usedj
        rw [(before k second).1] at usedk
        rw [(before j first).2] at nz equal
        rw [(before k second).2] at equal
        exact owned.apart j k usedj usedk nz equal
  · rcases owned.loaded with kernel | exists'
    · exact .inl (birth.currentDirectory.trans kernel)
    · refine .inr ?_
      simp only [birth.currentDirectory]
      exact List.mem_cons_of_mem _ exists'

/-- No directory is made or released, and none comes into use. -/
theorem keep (owned : Owned kernelDirectory d)
    (inUse : ∀ j, (s'.table j).state ≠ .unused → (s'.table j).pageDirectory ≠ 0 →
      (d.procs.table j).state ≠ .unused ∧
        (s'.table j).pageDirectory = (d.procs.table j).pageDirectory)
    (loaded : s'.currentDirectory = d.procs.currentDirectory ∨
      ∃ j, (d.procs.table j).state ≠ .unused ∧ (d.procs.table j).pageDirectory ≠ 0 ∧
        s'.currentDirectory = (d.procs.table j).pageDirectory) :
    Owned kernelDirectory ⟨s', d.existing⟩ := by
  refine ⟨owned.nodup, owned.nonzero, owned.notKernel, fun j used nz => ?_,
    fun j k usedj usedk nz equal => ?_, ?_⟩
  · obtain ⟨used', same⟩ := inUse j used nz
    simp only [same] at nz ⊢
    exact owned.owned j used' nz
  · simp only at usedj usedk nz equal
    obtain ⟨usedj', samej⟩ := inUse j usedj nz
    obtain ⟨usedk', samek⟩ := inUse k usedk (equal ▸ nz)
    rw [samej] at nz equal
    rw [samek] at equal
    exact owned.apart j k usedj' usedk' nz equal
  · rcases loaded with same | ⟨j, used, nz, same⟩
    · unfold LoadedExists
      simp only [same]
      exact owned.loaded
    · exact .inr (same ▸ owned.owned j used nz)

theorem failed (owned : Owned kernelDirectory d) (birth : d.procs.Birth s' i directory none) :
    Owned kernelDirectory ⟨s', d.existing⟩ := by
  refine owned.keep (fun j used _ => ?_) (.inl birth.currentDirectory)
  have other : j ≠ i := by
    rintro rfl
    exact used (birth.born.resolve_left (by simp)).2
  rw [← (birth.others j other).state]
  exact ⟨used, (birth.others j other).pageDirectory⟩

theorem reaped (owned : Owned kernelDirectory d) (reaped : d.procs.Reaped s' i) :
    Owned kernelDirectory ⟨s', d.existing⟩ := by
  refine owned.keep (fun j used _ => ?_) (.inl reaped.currentDirectory)
  have other : j ≠ i := by
    rintro rfl
    exact used reaped.unused
  rw [← (reaped.others j other).state]
  exact ⟨used, (reaped.others j other).pageDirectory⟩

/-- A process that is switched to is in use, or has no directory to load. -/
theorem load (owned : Owned kernelDirectory d) (current : Current (d.procs.table i))
    (inUse : ∀ j, (s'.table j).state ≠ .unused → (s'.table j).pageDirectory ≠ 0 →
      (d.procs.table j).state ≠ .unused ∧
        (s'.table j).pageDirectory = (d.procs.table j).pageDirectory)
    (loaded : s'.currentDirectory = if (d.procs.table i).pageDirectory = 0
      then d.procs.currentDirectory else (d.procs.table i).pageDirectory) :
    Owned kernelDirectory ⟨s', d.existing⟩ := by
  refine owned.keep inUse ?_
  by_cases none : (d.procs.table i).pageDirectory = 0
  · rw [if_pos none] at loaded
    exact .inl loaded
  · rw [if_neg none] at loaded
    exact .inr ⟨i, current.resolve_right none, none, loaded⟩

theorem switched (owned : Owned kernelDirectory d) {next : Slot}
    (ready : (d.procs.table next).state = .ready) :
    Owned kernelDirectory ⟨d.procs.switch next, d.existing⟩ := by
  have used : (d.procs.table next).state ≠ .unused := by
    rw [ready]
    decide
  refine owned.load (.inl used) (fun j inUse _ => ?_) (d.procs.switch_currentDirectory next)
  rw [Procs.switch_table] at inUse ⊢
  split at inUse
  · rename_i here
    subst here
    simp only [if_true]
    exact ⟨used, trivial⟩
  · rename_i other
    simp only [if_neg other]
    split at inUse
    · rename_i running
      rw [if_pos running, running.2]
      exact ⟨by decide, rfl⟩
    · rename_i same
      rw [if_neg same]
      exact ⟨inUse, rfl⟩

theorem setCurrent (owned : Owned kernelDirectory d) {proc : Option Slot}
    (careful : d.Careful (.setCurrent proc)) :
    Owned kernelDirectory ⟨d.procs.setCurrent proc, d.existing⟩ := by
  have inUse : ∀ j, ((d.procs.setCurrent proc).table j).state ≠ .unused →
      ((d.procs.setCurrent proc).table j).pageDirectory ≠ 0 →
      (d.procs.table j).state ≠ .unused ∧
        ((d.procs.setCurrent proc).table j).pageDirectory = (d.procs.table j).pageDirectory := by
    intro j used nz
    rw [Procs.setCurrent_table] at used nz ⊢
    by_cases here : proc = some j
    · rw [if_pos here] at nz ⊢
      exact ⟨(careful.1 j here).resolve_right nz, rfl⟩
    · rw [if_neg here] at used nz ⊢
      by_cases current : d.procs.currentProcess = some j
      · rw [if_pos current] at nz ⊢
        exact ⟨(careful.2 j current here).resolve_right nz, rfl⟩
      · rw [if_neg current] at used ⊢
        exact ⟨used, rfl⟩
  have loaded := d.procs.setCurrent_currentDirectory proc
  cases proc with
  | none => exact owned.keep inUse (.inl loaded)
  | some i => exact owned.load (careful.1 i rfl) inUse loaded

theorem exited (owned : Owned kernelDirectory d) {status : Int} (ended : d.procs.Ended s' i status)
    (current : Current (d.procs.table i))
    (other : (d.procs.table i).pageDirectory ≠ d.procs.currentDirectory) :
    Owned kernelDirectory ⟨s', d.existing.erase (d.procs.table i).pageDirectory⟩ := by
  have before : ∀ j, (s'.table j).pageDirectory ≠ 0 → j ≠ i := by
    rintro j nz rfl
    exact nz ended.self.pageDirectory
  refine ⟨owned.nodup.erase _, fun member => owned.nonzero (List.mem_of_mem_erase member),
    fun member => owned.notKernel (List.mem_of_mem_erase member), fun j used nz => ?_,
    fun j k usedj usedk nz equal => ?_, ?_⟩
  · have apart := before j nz
    have same := ended.others j apart
    simp only [same.state, same.pageDirectory] at used nz ⊢
    refine (List.mem_erase_of_ne fun equal => ?_).mpr (owned.owned j used nz)
    have usedi := current.resolve_right (equal ▸ nz)
    exact apart (owned.apart j i used usedi nz equal)
  · simp only at usedj usedk nz equal
    have samej := ended.others j (before j nz)
    have samek := ended.others k (before k (equal ▸ nz))
    rw [samej.state] at usedj
    rw [samek.state] at usedk
    rw [samej.pageDirectory] at nz equal
    rw [samek.pageDirectory] at equal
    exact owned.apart j k usedj usedk nz equal
  · unfold LoadedExists
    simp only [ended.currentDirectory]
    refine owned.loaded.imp id fun member => ?_
    exact (List.mem_erase_of_ne (Ne.symm other)).mpr member

/-- **Every careful call keeps the directories apart and the loaded one in existence.** -/
theorem step (owned : Owned kernelDirectory d) {op : ProcOp} {d' : Directories}
    (careful : d.Careful op) (step : Step kernelDirectory d op d') : Owned kernelDirectory d' := by
  obtain ⟨supplies, done⟩ := step
  obtain ⟨⟨procs, event⟩, called, rest⟩ := Outcome.bind_eq_ok.mp done
  cases rest
  have fresh : ∀ {source : Nat} {mem : Supply}, mem.directory ∉ d.existing →
      mem.directory ≠ kernelDirectory → Procs.cloned source mem ≠ 0 →
      Procs.cloned source mem ∉ d.existing ∧ Procs.cloned source mem ≠ kernelDirectory := by
    intro source mem new notKernel nonzero
    unfold Procs.cloned at nonzero ⊢
    split
    · rename_i none
      rw [if_pos none] at nonzero
      exact absurd rfl nonzero
    · exact ⟨new, notKernel⟩
  cases Procs.exec_change called with
  | nothing => exact owned
  | created birth => exact owned.birth birth supplies.1 supplies.2
  | createFailed birth => exact owned.failed birth
  | forked birth =>
      obtain ⟨-, -, nonzero, -⟩ := birth.born.resolve_right (by simp)
      obtain ⟨new, notKernel⟩ := fresh supplies.1 supplies.2 nonzero
      exact owned.birth birth new notKernel
  | forkFailed birth => exact owned.failed birth
  | exited ended => exact owned.exited ended (careful _ rfl).1 (careful _ rfl).2
  | reaped reaped => exact owned.reaped reaped
  | switched picked => exact owned.switched (Procs.pickNext_ready picked)
  | setCurrent proc => exact owned.setCurrent careful

/-- The other case: a process that exits while its directory is loaded leaves a destroyed directory
loaded. -/
theorem exit_releases (owned : Owned kernelDirectory d) (kernel : kernelDirectory ≠ 0) {status : Int}
    {d' : Directories} (used : (d.procs.table i).state ≠ .unused)
    (same : (d.procs.table i).pageDirectory = d.procs.currentDirectory)
    (step : Step kernelDirectory d (.exit (some i) status) d') : ¬ d'.LoadedExists kernelDirectory := by
  obtain ⟨⟨procs, event⟩, called, rest⟩ := Outcome.bind_eq_ok.mp step.2
  obtain ⟨s', exited, last⟩ := Outcome.bind_eq_ok.mp called
  cases last
  cases rest
  have ended := Procs.exit_ended exited
  have notKernel : (d.procs.table i).pageDirectory ≠ kernelDirectory := by
    intro equal
    exact owned.notKernel (equal ▸ owned.owned i used (equal ▸ kernel))
  rintro (loaded | loaded)
  · exact notKernel (same.trans (ended.currentDirectory.symm.trans loaded))
  · simp only [track, Option.map_some, ended.currentDirectory, ← same] at loaded
    exact owned.nodup.not_mem_erase loaded

end Owned

variable {kernelDirectory : Nat} {ops : List ProcOp} {d : Directories}

/-- A run of careful calls. -/
abbrev CarefulRun (kernelDirectory : Nat) := Run (Guarded Careful (Step kernelDirectory))

theorem CarefulRun.owned (run : CarefulRun kernelDirectory (.init kernelDirectory) ops d) :
    Owned kernelDirectory d := by
  refine run.invariant (Owned kernelDirectory) (fun x op y here step => here.step step.1 step.2) ?_
  exact ⟨List.nodup_nil, List.not_mem_nil, List.not_mem_nil, fun i used => absurd rfl used,
    fun i j used => absurd rfl used, .inl rfl⟩

end Directories

open Directories

/-- **The loaded page directory exists** in every state of a run of careful calls; and from each such
state, the exit of a process keeps it so if and only if the directory of the process is not loaded. -/
theorem loaded_exists {kernelDirectory : Nat} (kernel : kernelDirectory ≠ 0) {ops : List ProcOp}
    {d : Directories} (run : CarefulRun kernelDirectory (.init kernelDirectory) ops d) :
    d.LoadedExists kernelDirectory ∧
      ∀ i status d', (d.procs.table i).state ≠ .unused →
        Directories.Step kernelDirectory d (.exit (some i) status) d' →
        (d'.LoadedExists kernelDirectory ↔
          (d.procs.table i).pageDirectory ≠ d.procs.currentDirectory) := by
  have owned := run.owned
  refine ⟨owned.loaded, fun i status d' used step => ⟨fun loaded same => ?_, fun other => ?_⟩⟩
  · exact owned.exit_releases kernel used same step loaded
  · have careful : d.Careful (.exit (some i) status) := fun j here => by
      cases Option.mem_def.mp here
      exact ⟨.inl used, other⟩
    exact (owned.step careful step).loaded

/-- Memory for a second process. -/
def otherSupply : Supply := ⟨0x507000, 0x509020, 0x50A030⟩

/-- Two processes; the one that is not loaded exits. -/
def loadedOther : Directories :=
  (runAll (guardedExec (fun d op => d.Careful op ∧ d.Supplies 0x200000 op) Directories.exec)
    (.init 0x200000) [.create 0 0 sampleSupply, .create 0 0 otherSupply, .setCurrent (some firstSlot),
      .exit (some secondSlot) 0]).getD (.init 0x200000)

theorem loaded_exists_other :
    loadedOther.procs.currentDirectory = 0x501000 ∧ loadedOther.LoadedExists 0x200000 := by
  have run : Run (Guarded (fun d op => d.Careful op ∧ d.Supplies 0x200000 op) fun d op d' =>
      d.exec op = .ok d') (.init 0x200000) [.create 0 0 sampleSupply, .create 0 0 otherSupply,
        .setCurrent (some firstSlot), .exit (some secondSlot) 0] loadedOther :=
    Run.of_guardedExec (Outcome.eq_ok_getD (by decide +kernel) _)
  have careful : CarefulRun 0x200000 (.init 0x200000) [.create 0 0 sampleSupply,
      .create 0 0 otherSupply, .setCurrent (some firstSlot), .exit (some secondSlot) 0] loadedOther :=
    run.mono fun _ _ _ step => ⟨step.1.1, step.1.2, step.2⟩
  exact ⟨by decide +kernel, (loaded_exists (by decide) careful).1⟩

/-- The process whose directory is loaded exits. -/
def loadedGone : Directories :=
  (runAll (guardedExec (Supplies 0x200000) Directories.exec) (.init 0x200000)
    [.create 0 0 sampleSupply, .setCurrent (some firstSlot), .exit (some firstSlot) 0]).getD
    (.init 0x200000)

theorem loaded_destroyed :
    Run (Directories.Step 0x200000) (.init 0x200000) [.create 0 0 sampleSupply,
      .setCurrent (some firstSlot), .exit (some firstSlot) 0] loadedGone ∧
    loadedGone.procs.currentDirectory = 0x501000 ∧ ¬ loadedGone.LoadedExists 0x200000 := by
  have loaded : loadedGone.procs.currentDirectory = 0x501000 := by decide +kernel
  have gone : loadedGone.existing = [] := by decide +kernel
  refine ⟨Run.of_guardedExec (Outcome.eq_ok_getD (by decide +kernel) _), loaded, ?_⟩
  rw [LoadedExists, loaded, gone]
  simp

end Kfs.Process
