/-
**How long a process waits for the shell.**
The timer calls the scheduler at every tick whose number is a multiple of ten; the number wraps after 2^32 ticks, which
only makes one of the gaps shorter. So a READY process runs at most ten ticks for each turn that is left, whatever is
typed meanwhile: `ready_runs_in_session`.
-/

import Kfs.Process.Waiting
import Kfs.Shell.Session

namespace Kfs.Shell

open Kfs.Process

variable {Fs : Type} {im : ShellImage} {view : Fs → Vfs.Ext2View} {t t' u : Session Fs} {p : Slot}
  {ops : List (ShellOp Fs)} {op : ShellOp Fs} {s s' : Kernel}

/-- An interrupt of the timer. -/
def ShellOp.isTick : ShellOp Fs → Bool
  | tick => true
  | pwd | cd _ | login _ _ | process | fork | psignal | mmap | other _ _ => false

/-- The ticks until a process runs, at most. -/
def ticksLeft (t : Session Fs) (p : Slot) : Nat :=
  scheduleFrequency * (t.kernel.procs.turnsLeft p - 1) + (scheduleFrequency - t.timerTicks % scheduleFrequency)

/-- A process waits, and the number of ticks is one of 32 bits. -/
structure WaitsIn (t : Session Fs) (p : Slot) : Prop where
  waits : t.kernel.procs.Waits p
  word : t.timerTicks < 2 ^ 32

theorem ticksLeft_pos (t : Session Fs) (p : Slot) : 0 < ticksLeft t p := by
  unfold ticksLeft scheduleFrequency
  omega

/-- A command that leaves the current process and the one that waits alone. -/
theorem WaitsIn.untouched (waits : WaitsIn t p) (same : Untouched p t.kernel t'.kernel)
    (ticks : t'.timerTicks = t.timerTicks) : WaitsIn t' p ∧ ticksLeft t' p = ticksLeft t p := by
  have both : t'.kernel.procs.Waits p ∧ t'.kernel.procs.turnsLeft p = t.kernel.procs.turnsLeft p :=
    waits.waits.same same.1 (congrArg Pcb.state same.2)
  obtain ⟨still, left⟩ := both
  refine ⟨⟨still, ticks ▸ waits.word⟩, ?_⟩
  rw [ticksLeft, ticksLeft, left, ticks]

/-- A READY slot is in use. -/
theorem WaitsIn.used (waits : WaitsIn t p) : (t.kernel.table p).state ≠ .unused := by
  have ready : (t.kernel.table p).state = .ready := waits.waits.ready
  rw [ready]
  exact fun same => by cases same

/-- A change of the current process. -/
theorem WaitsIn.modify (waits : WaitsIn t p) {i : Slot} (current : t.kernel.currentProcess = some i)
    (f : Pcb → Pcb) : Untouched p t.kernel (t.kernel.modify i f) :=
  .modify (fun same => waits.waits.apart (current.trans (congrArg some same))) f

/-- **A tick** counts. -/
theorem WaitsIn.tick (waits : WaitsIn t p) (done : timerIrqHandler t = .ok t') :
    t'.kernel.procs.HasTurn p ∨ WaitsIn t' p ∧ ticksLeft t' p + 1 ≤ ticksLeft t p := by
  have word := waits.word
  have some' := t.kernel.procs.turnsLeft_pos p
  unfold timerIrqHandler at done
  dsimp only at done
  by_cases due : (t.timerTicks + 1) % 2 ^ 32 % scheduleFrequency = 0
  · rw [if_pos due] at done
    obtain ⟨⟨s₁, delivered⟩, scheduled, rest⟩ := Outcome.bind_eq_ok.mp done
    cases rest
    rcases waits.waits.schedule with turn | ⟨still, less⟩
    · rw [schedule_procs scheduled] at turn
      exact .inl turn
    · rw [schedule_procs scheduled] at still less
      refine .inr ⟨⟨still, Nat.mod_lt _ (by decide)⟩, ?_⟩
      have after := s₁.procs.turnsLeft_pos p
      unfold ticksLeft
      dsimp only
      rw [due]
      unfold scheduleFrequency
      omega
  · rw [if_neg due] at done
    cases done
    refine .inr ⟨⟨waits.waits, Nat.mod_lt _ (by decide)⟩, ?_⟩
    have less : t.timerTicks + 1 < 2 ^ 32 := by
      by_contra last
      have wrapped : t.timerTicks + 1 = 2 ^ 32 := by omega
      rw [wrapped, Nat.mod_self] at due
      exact due rfl
    rw [Nat.mod_eq_of_lt less] at due ⊢
    unfold ticksLeft
    dsimp only
    unfold scheduleFrequency at due ⊢
    omega

/-- **A command** changes nothing for the process that waits. -/
theorem WaitsIn.command (waits : WaitsIn t p) (typed : op.isTick = false) (step : SessionStep im view t op t') :
    WaitsIn t' p ∧ ticksLeft t' p = ticksLeft t p := by
  cases op with
  | pwd =>
      cases step
      exact ⟨waits, rfl⟩
  | cd arg =>
      simp only [SessionStep, Session.exec] at step
      rcases cmdCd_cases view t.vfs t.kernel arg with ⟨message, failed⟩ | ⟨i, dir, current, -, -, moved⟩
      · rw [failed] at step
        cases step
        exact waits.untouched .refl rfl
      · rw [moved] at step
        cases step
        exact waits.untouched (waits.modify current _) rfl
  | login username password =>
      simp only [SessionStep, Session.exec] at step
      split at step
      · rename_i uid known
        cases step
        refine waits.untouched ?_ rfl
        unfold setCurrentUid
        cases current : t.kernel.currentProcess with
        | none => exact .refl
        | some i => exact waits.modify current _
      · cases step
        exact ⟨waits, rfl⟩
  | process =>
      obtain ⟨s₁, made, rest⟩ := Outcome.bind_eq_ok.mp step
      cases rest
      exact waits.untouched (cmdProcess_untouched waits.used made) rfl
  | fork =>
      obtain ⟨s₁, made, rest⟩ := Outcome.bind_eq_ok.mp step
      cases rest
      exact waits.untouched (cmdFork_untouched waits.used made) rfl
  | psignal =>
      obtain ⟨s₁, made, rest⟩ := Outcome.bind_eq_ok.mp step
      cases rest
      exact waits.untouched (cmdPsignal_untouched waits.used made) rfl
  | mmap =>
      obtain ⟨s₁, made, rest⟩ := Outcome.bind_eq_ok.mp step
      cases rest
      exact waits.untouched (cmdMmap_untouched waits.used made) rfl
  | other vfs paging =>
      cases step
      exact waits.untouched (.withPaging paging) rfl
  | tick => cases typed

/-- **A READY process runs in time.** In every session of the shell, whatever is typed between the ticks of the timer,
a READY process runs within ten ticks for each slot from the current process to it, less the ticks since the scheduler
was called last. That is at most `scheduleFrequency * maxProcesses`, 2560 ticks. -/
theorem ready_runs_in_session (run : Run (SessionStep im view) t ops u) (waits : t.kernel.procs.Waits p)
    (word : t.timerTicks < 2 ^ 32) (enough : ticksLeft t p ≤ ops.countP ShellOp.isTick) :
    PassesWithin (SessionStep im view) ShellOp.isTick (fun v => v.kernel.procs.HasTurn p) (ticksLeft t p) t ops u ∧
      ticksLeft t p ≤ scheduleFrequency * maxProcesses := by
  constructor
  · refine run.reaches (fun v => WaitsIn v p) (fun v => v.kernel.procs.HasTurn p) (fun v => ticksLeft v p) ?_
      (fun v _ => ticksLeft_pos v p) ⟨waits, word⟩ enough
    intro x op y member here step
    cases ticks : op.isTick with
    | true =>
        have tick : op = .tick := by
          cases op with
          | tick => rfl
          | pwd | cd _ | login _ _ | process | fork | psignal | mmap | other _ _ => cases ticks
        subst tick
        exact here.tick step
    | false =>
        obtain ⟨still, same⟩ := here.command ticks step
        exact .inr ⟨still, same.le⟩
  · have most : t.kernel.procs.turnsLeft p ≤ maxProcesses := by
      unfold Procs.turnsLeft
      split
      · exact ringDistance_le _ p
      · exact le_rfl
    unfold ticksLeft
    have some' := t.kernel.procs.turnsLeft_pos p
    unfold scheduleFrequency
    omega

/-- The shell has made a process. -/
def madeSession : Session Empty :=
  (Session.exec sampleShell noView (.start Vfs.vfsInit 0 shellKernel) .process).getD (.start Vfs.vfsInit 0 shellKernel)

/-- Eight ticks, a `cd`, and two more. -/
def tenTicks : List (ShellOp Empty) := List.replicate 8 .tick ++ [.cd (some "home".toList), .tick, .tick]

/-- The process that `process` made runs ten ticks later at the latest. -/
theorem ready_runs_in_session_ten : ∃ u, Run (SessionStep sampleShell noView) madeSession tenTicks u ∧
    PassesWithin (SessionStep sampleShell noView) ShellOp.isTick (fun v => v.kernel.procs.HasTurn secondSlot) 10
      madeSession tenTicks u := by
  have ran : runAll (fun t op => Session.exec sampleShell noView t op) madeSession tenTicks =
      .ok ((runAll (fun t op => Session.exec sampleShell noView t op) madeSession tenTicks).getD madeSession) :=
    Outcome.eq_ok_getD (by decide +kernel) _
  have run := Run.of_runAll ran
  have left : ticksLeft madeSession secondSlot = 10 := by decide +kernel
  refine ⟨_, run, ?_⟩
  have both := ready_runs_in_session (p := secondSlot) run ⟨by decide +kernel, by decide +kernel⟩ (by decide +kernel)
    (by rw [left]; decide)
  rw [left] at both
  exact both.1

end Kfs.Shell
