/-
**The kernel's signal calls are those of the mail.**

The mail of `Kfs.Process.Signals` holds the queue entries by address, and takes what `kmalloc` returns as an
argument. Here the calls are those of the kernel, on its heap: `process_signal_send`, `sys_kill`,
`process_signal_process` and `process_schedule`. The kernel `Carries` the mail when both have the same
process table and each allocated entry lies in a block of its own.

`calls_posted`: from such a state, with the accounts of the mail in order, every sequence of these calls
for existing processes returns and is a sequence of the mail's calls, with the same deliveries. What other
calls do in between is followed as long as they leave the entries alone (`Carries.elsewhere`).
-/

import Kfs.Process.Refine
import Kfs.Process.SignalOrder

namespace Kfs.Process

open Kfs.Heap Kfs.Paging Memory Post

/-! ### Calls and their deliveries -/

/-- The calls that send, deliver or switch. -/
inductive MailCall where
  | send (proc : Option Slot) (signal : Int)
  | kill (pid signal : Nat)
  | process (proc : Option Slot)
  | schedule
  deriving DecidableEq, Repr

/-- A kernel with what it has delivered, the latest call first. -/
structure Delivering where
  kernel : Kernel
  delivered : List Delivery

namespace MailCall

/-- Make the call. -/
def exec (s : Delivering) : MailCall → Outcome Delivering
  | .send proc signal => do
      let (t, _) ← processSignalSend s.kernel proc signal
      return ⟨t, s.delivered⟩
  | .kill pid signal => do
      let (t, _) ← sysKill s.kernel pid signal
      return ⟨t, s.delivered⟩
  | .process proc => do
      let (t, delivered) ← processSignalProcess s.kernel proc
      return ⟨t, delivered ++ s.delivered⟩
  | .schedule => do
      let (t, delivered) ← processSchedule s.kernel
      return ⟨t, delivered ++ s.delivered⟩

/-- The call of the mail, with what `kmalloc` returns. -/
def op (entry : Nat) : MailCall → MailOp
  | .send proc signal => .send proc signal entry
  | .kill pid signal => .kill pid signal entry
  | .process proc => .process proc
  | .schedule => .schedule

/-- The process that is passed exists. -/
def ForProcess (s : Delivering) : MailCall → Prop
  | .send proc _ => ∀ i ∈ proc, s.kernel.procs.Occupied i
  | .process proc => ∀ i ∈ proc, s.kernel.procs.Occupied i
  | _ => True

/-- A call for a process that exists. -/
def Step (s : Delivering) (call : MailCall) (s' : Delivering) : Prop :=
  call.ForProcess s ∧ call.exec s = .ok s'

/-- The same call of the mail, whatever `kmalloc` returns. -/
def Posts (t : Post) (call : MailCall) (t' : Post) : Prop :=
  ∃ entry, Guarded Post.Careful Post.Step t (call.op entry) t'

end MailCall

/-! ### The kernel and the mail -/

/-- What memory holds at an address, read as an entry. -/
def entryAt (m : Memory) (e : Nat) : QueueEntry := ⟨entrySignal m e, entryNext m e⟩

/-- **The kernel carries the mail**: the process table is the same, and so is what the allocated entries
hold, each of them in a block of its own. -/
structure Carries (s : Delivering) (l : List Segment) (t : Post) : Prop where
  heap : HeapInv s.kernel.paging.heap l
  procs : t.mail.procs = s.kernel.procs
  held : ∀ e ∈ t.mail.allocated, HoldsEntry l e
  distinct : t.mail.allocated.Nodup
  entries : ∀ e ∈ t.mail.allocated, t.mail.entries e = entryAt s.kernel.paging.heap.mem e
  delivered : t.arrivals.map Arrival.delivery = s.delivered

section Carries

variable {s s' : Delivering} {l l' : List Segment} {t t' : Post} {h : HeapState} {m m' : Memory} {q : List Nat}
  {entry : Nat} {i : Slot} {signal : Int} {call : MailCall} {calls : List MailCall}

/-- The mail of a process table whose queues are empty, whatever memory holds; `Post.init` is that of
`process_init`. -/
def quietPost (procs : Procs) (entries : Nat → QueueEntry) : Post :=
  { Post.init 0 entries with mail := ⟨procs, entries, []⟩ }

/-- **A kernel without pending signals** carries the mail, and its accounts are in order. -/
theorem Carries.quiet (heap : HeapInv s.kernel.paging.heap l) (none : s.delivered = [])
    (quiet : ∀ i, s.kernel.procs.Occupied i → (s.kernel.table i).signalQueue = 0) (entries : Nat → QueueEntry) :
    Carries s l (quietPost s.kernel.procs entries) ∧ (quietPost s.kernel.procs entries).Accounted := by
  refine ⟨⟨heap, rfl, nofun, List.nodup_nil, nofun, none.symm⟩, fun i used => ⟨[], ?_, nofun, nofun, .nil⟩,
    fun i _ => ⟨rfl, rfl⟩, nofun, ⟨List.nodup_nil, nofun⟩, nofun⟩
  exact Mail.chain_nil.mpr (quiet i used)

theorem entryAt_congr {e : Nat} (same : ∀ x, e ≤ x → x < e + 8 → m' x = m x) : entryAt m' e = entryAt m e := by
  obtain ⟨next, signal⟩ := entry_congr same
  rw [entryAt, entryAt, next, signal]

/-- The queue of a process, in memory. -/
theorem Carries.enqueued (carries : Carries s l t) (pending : t.Pending i q) :
    Enqueued s.kernel.paging.heap l (s.kernel.table i).signalQueue q := by
  have head : t.mail.queue i = (s.kernel.table i).signalQueue := by
    rw [Mail.queue, carries.procs]
    rfl
  refine ⟨carries.heap, ?_, fun e member => carries.held e (pending.allocated e member)⟩
  rw [← head]
  refine Threads.congr pending.chain fun e member => ?_
  rw [carries.entries e (pending.allocated e member), entryAt]

/-- Its head is a 32 bit word. -/
theorem Carries.wide (carries : Carries s l t) (inv : t.Accounted) (pending : t.Pending i q) :
    (s.kernel.table i).signalQueue < 2 ^ 32 := by
  have chain := (carries.enqueued pending).chain
  cases q with
  | nil =>
      have empty : Mail.Chain (entryAt s.kernel.paging.heap.mem) (s.kernel.table i).signalQueue [] := chain
      rw [Mail.chain_nil.mp empty]
      decide
  | cons e q =>
      obtain ⟨first, -⟩ := Threads.cons_iff.mp chain
      rw [(Mail.link_eq_some.mp first).1]
      exact inv.addresses e (pending.allocated e List.mem_cons_self)

/-- **Calls that leave the entries alone**: the mail sees their process table, and other memory. -/
theorem Carries.elsewhere (carries : Carries s l t) (heap : HeapInv s'.kernel.paging.heap l')
    (keeps : KeepsEntries (· ∈ t.mail.allocated) l l' s.kernel.paging.heap.mem s'.kernel.paging.heap.mem)
    (same : s'.delivered = s.delivered) :
    Carries s' l' { t with mail :=
      ⟨s'.kernel.procs, t.mail.scribble (entryAt s'.kernel.paging.heap.mem), t.mail.allocated⟩ } := by
  refine ⟨heap, rfl, fun e member => (keeps e (carries.held e member) member).1, carries.distinct,
    fun e member => ?_, carries.delivered.trans same.symm⟩
  exact (scribble_eq t.mail member).trans ((carries.entries e member).trans
    (entryAt_congr (keeps e (carries.held e member) member).2).symm)

/-- **`process_signal_send`** to a process. -/
theorem Carries.send (carries : Carries s l t) (wide : (s.kernel.table i).signalQueue < 2 ^ 32)
    (signal : Int) : ∃ r entry l', processSignalSend s.kernel (some i) signal = .ok r ∧
      (entry = 0 ∨ entry ∉ t.mail.allocated ∧ entry < 2 ^ 32) ∧
      Carries ⟨r.1, s.delivered⟩ l' (t.send (some i) signal entry) := by
  unfold processSignalSend
  by_cases range : signal < 0 ∨ 32 ≤ signal
  · refine ⟨(s.kernel, -1), 0, l, if_pos range, .inl rfl, ?_⟩
    simpa [Post.send, Mail.send, range] using carries
  · simp only
    rw [if_neg range]
    obtain ⟨⟨h, entry⟩, done⟩ := kmalloc_returns carries.heap entrySize
    rw [done, Outcome.ok_bind]
    by_cases null : entry = 0
    · subst null
      obtain ⟨rfl, -⟩ := (kmalloc_null carries.heap (by decide)).mp done
      refine ⟨(s.kernel, -1), 0, l, rfl, .inl rfl, ?_⟩
      simpa [Post.send, Mail.send, range] using carries
    · obtain ⟨l', heap, new, fresh, small, next, first, keeps⟩ :=
        newEntry carries.heap (by omega : signal.toNat < 2 ^ 32) wide done null
      have other : entry ∉ t.mail.allocated := fun member => fresh (carries.held entry member)
      simp only
      rw [if_neg null]
      refine ⟨_, entry, l', rfl, .inr ⟨other, small⟩, ?_⟩
      rw [send_pushed range null]
      refine ⟨?_, ?_, fun e member => ?_, List.nodup_cons.mpr ⟨other, carries.distinct⟩, fun e member => ?_,
        carries.delivered⟩
      · rw [Kernel.modify_paging]
        exact heap
      · show t.mail.procs.modify i _ = _
        rw [carries.procs]
        rfl
      · rcases List.mem_cons.mp member with rfl | member
        · exact new
        · exact (keeps e (carries.held e member) trivial).1
      · show Function.update t.mail.entries entry ⟨signal.toNat, t.mail.queue i⟩ e = entryAt
          ((h.mem.store32 entry signal.toNat).store32 (entry + 4) (s.kernel.table i).signalQueue) e
        rcases List.mem_cons.mp member with rfl | member
        · rw [Function.update_self, entryAt, first, next, Mail.queue, carries.procs]
          rfl
        · have apart : e ≠ entry := fun same => other (same ▸ member)
          rw [Function.update_of_ne apart, carries.entries e member]
          exact (entryAt_congr (keeps e (carries.held e member) trivial).2).symm

/-- **The loop of `process_signal_process`** delivers the same. -/
theorem Carries.deliver (carries : Carries s l t) (pending : t.Pending i q) :
    ∃ h l' delivered, signalLoop (s.kernel.table i).signalHandlers walkFuel s.kernel.paging.heap
        (s.kernel.table i).signalQueue = .ok (h, delivered.map Prod.snd) ∧
      t.mail.deliver i = .ok (t.mail.allocated.diff q, delivered) ∧
      ∀ u : Kernel, u.paging.heap = h → Carries ⟨u, delivered.map Prod.snd ++ s.delivered⟩ l' { t with
        mail := ⟨u.procs, t.mail.entries, t.mail.allocated.diff q⟩
        arrivals := t.note i delivered } := by
  have waiting := carries.enqueued pending
  obtain ⟨h, l', loop, heap, keeps⟩ :=
    @Enqueued.deliver _ _ _ _ walkFuel (s.kernel.table i).signalHandlers waiting waiting.length_lt
  have handlers : (t.mail.procs.table i).signalHandlers = (s.kernel.table i).signalHandlers := by
    rw [carries.procs]
    rfl
  refine ⟨h, l', q.map (Mail.deliveryOf t.mail.entries (s.kernel.table i).signalHandlers), ?_, ?_,
    fun u same => ?_⟩
  · rw [loop, List.map_map, List.map_map]
    refine congrArg (fun ds => Outcome.ok (h, ds)) (List.map_congr_left fun e member => ?_)
    simp only [Function.comp_apply, Mail.deliveryOf, carries.entries e (pending.allocated e member), entryAt]
  · have short : q.length < Mail.queueFuel := by
      refine waiting.length_lt.trans_le ?_
      decide
    rw [Mail.deliver, handlers]
    exact Mail.deliverLoop_chain pending.chain short
  · have left : ∀ e ∈ t.mail.allocated.diff q, e ∈ t.mail.allocated ∧ e ∉ q := fun e member =>
      carries.distinct.mem_sdiff_iff.mp member
    refine ⟨same ▸ heap, rfl, fun e member => ?_, carries.distinct.diff, fun e member => ?_, ?_⟩
    · obtain ⟨inside, other⟩ := left e member
      exact (keeps e (carries.held e inside) other).1
    · obtain ⟨inside, other⟩ := left e member
      rw [carries.entries e inside, same]
      exact (entryAt_congr (keeps e (carries.held e inside) other).2).symm
    · rw [Post.note, List.map_append, carries.delivered, List.map_map]
      rfl

/-- `sys_kill`: a send to the process found. -/
theorem Carries.kill (carries : Carries s l t) {pid : Nat} (found : processGetByPid s.kernel.table pid = some i)
    (wide : (s.kernel.table i).signalQueue < 2 ^ 32) (signal : Nat) : ∃ r entry l',
      sysKill s.kernel pid signal = .ok r ∧ (entry = 0 ∨ entry ∉ t.mail.allocated ∧ entry < 2 ^ 32) ∧
      Carries ⟨r.1, s.delivered⟩ l' (t.send (some i) (toInt signal) entry) := by
  obtain ⟨⟨u, result⟩, entry, l', done, supplied, next⟩ := carries.send wide (toInt signal)
  refine ⟨(u, 0), entry, l', ?_, supplied, next⟩
  simp only [sysKill, found, done, Outcome.ok_bind, Outcome.pure_eq]

/-- `process_signal_process` for a process. -/
theorem Carries.process (carries : Carries s l t) (pending : t.Pending i q) :
    ∃ s' t' l', (MailCall.process (some i)).exec s = .ok s' ∧ t.exec (.process (some i)) = .ok t' ∧
      Carries s' l' t' := by
  obtain ⟨h, l', delivered, loop, mail, next⟩ := carries.deliver pending
  refine ⟨_, _, l', ?_, ?_, next ((s.kernel.withHeap h).modify i fun proc => { proc with signalQueue := 0 }) rfl⟩
  · simp only [MailCall.exec, processSignalProcess, loop, Outcome.ok_bind, Outcome.pure_eq]
  · have procs : ((s.kernel.withHeap h).modify i fun proc => { proc with signalQueue := 0 }).procs =
        t.mail.procs.modify i fun proc => { proc with signalQueue := 0 } := by
      rw [carries.procs]
      rfl
    simp only [Post.exec, Mail.process, mail, Outcome.ok_bind, Outcome.pure_eq, procs]

/-- `process_schedule`, which delivers to the process it switches to. -/
theorem Carries.schedule (carries : Carries s l t)
    (pending : ∀ next, pickNext s.kernel.table s.kernel.currentProcess = some next → ∃ q, t.Pending next q) :
    ∃ s' t' l', MailCall.schedule.exec s = .ok s' ∧ t.exec .schedule = .ok t' ∧ Carries s' l' t' := by
  have picks : pickNext t.mail.procs.table s.kernel.currentProcess =
      pickNext s.kernel.table s.kernel.currentProcess := by
    rw [carries.procs]
    rfl
  have current : t.mail.procs.currentProcess = s.kernel.currentProcess := by
    rw [carries.procs]
    rfl
  cases picked : pickNext s.kernel.table s.kernel.currentProcess with
  | none =>
      refine ⟨s, t, l, ?_, ?_, carries⟩
      · simp only [MailCall.exec, processSchedule, picked]
        rfl
      · simp only [Post.exec, Mail.schedule, current, picks, picked]
        rfl
  | some next =>
      by_cases other : some next ≠ s.kernel.currentProcess
      · obtain ⟨q, waiting⟩ := pending next picked
        obtain ⟨h, l', delivered, loop, mail, after⟩ := carries.deliver waiting
        have procs : (((switchTo s.kernel next).withHeap h).modify next
            fun proc => { proc with signalQueue := 0 }).procs = t.mail.procs.switch next := by
          rw [carries.procs, ← switchTo_procs]
          rfl
        refine ⟨_, _, l', ?_, ?_, after (((switchTo s.kernel next).withHeap h).modify next
          fun proc => { proc with signalQueue := 0 }) rfl⟩
        · simp only [MailCall.exec, processSchedule, picked, if_pos other, processSwitch, processSignalProcess,
            switchTo_heap, switchTo_field Pcb.signalQueue s.kernel next next fun _ _ => rfl,
            switchTo_field Pcb.signalHandlers s.kernel next next fun _ _ => rfl, loop, Outcome.ok_bind,
            Outcome.pure_eq]
        · simp only [Post.exec, Mail.schedule, current, picks, picked, if_pos other, mail, Outcome.ok_bind,
            Outcome.pure_eq, procs]
      · refine ⟨s, t, l, ?_, ?_, carries⟩
        · simp only [MailCall.exec, processSchedule, picked, if_neg other]
          rfl
        · simp only [Post.exec, Mail.schedule, current, picks, picked, if_neg other]
          rfl

/-- **Every call for an existing process returns, and is the mail's.** -/
theorem Carries.step (carries : Carries s l t) (inv : t.Accounted) (existing : call.ForProcess s) :
    ∃ s' t' l', call.exec s = .ok s' ∧ call.Posts t t' ∧ t'.Accounted ∧ Carries s' l' t' := by
  have occupied : ∀ j, s.kernel.procs.Occupied j → t.mail.procs.Occupied j := fun j used => by
    rwa [carries.procs]
  suffices ∃ s' t' l' entry, call.exec s = .ok s' ∧ t.Careful (call.op entry) ∧ t.Supplies (call.op entry) ∧
      t.exec (call.op entry) = .ok t' ∧ Carries s' l' t' by
    obtain ⟨s', t', l', entry, ran, careful, supplied, done, next⟩ := this
    exact ⟨s', t', l', ran, ⟨entry, careful, supplied, done⟩, inv.step careful ⟨supplied, done⟩, next⟩
  cases call with
  | send proc signal =>
      cases proc with
      | none => exact ⟨s, t, l, 0, rfl, nofun, .inl rfl, rfl, carries⟩
      | some i =>
          obtain ⟨q, pending⟩ := inv.pending i (occupied i (existing i rfl))
          obtain ⟨⟨u, result⟩, entry, l', done, supplied, next⟩ :=
            carries.send (carries.wide inv pending) signal
          refine ⟨_, _, l', entry, ?_, fun j same => ?_, supplied, rfl, next⟩
          · simp only [MailCall.exec, done, Outcome.ok_bind, Outcome.pure_eq]
          · exact occupied j (existing j same)
  | kill pid signal =>
      have table : processGetByPid t.mail.procs.table pid = processGetByPid s.kernel.table pid := by
        rw [carries.procs]
        rfl
      cases found : processGetByPid s.kernel.table pid with
      | none =>
          refine ⟨s, t, l, 0, ?_, trivial, .inl rfl, ?_, carries⟩
          · simp only [MailCall.exec, sysKill, found]
            rfl
          · simp only [MailCall.op, Post.exec, table, found]
      | some i =>
          have test := List.find?_some found
          simp only [ne_eq, decide_eq_true_eq] at test
          obtain ⟨q, pending⟩ := inv.pending i (occupied i test.1)
          obtain ⟨⟨u, result⟩, entry, l', done, supplied, next⟩ :=
            carries.kill found (carries.wide inv pending) signal
          refine ⟨_, _, l', entry, ?_, trivial, supplied, ?_, next⟩
          · simp only [MailCall.exec, done, Outcome.ok_bind, Outcome.pure_eq]
          · simp only [MailCall.op, Post.exec, table, found]
  | process proc =>
      cases proc with
      | none => exact ⟨s, t, l, 0, rfl, nofun, trivial, rfl, carries⟩
      | some i =>
          obtain ⟨q, pending⟩ := inv.pending i (occupied i (existing i rfl))
          obtain ⟨s', t', l', ran, done, next⟩ := carries.process pending
          exact ⟨s', t', l', 0, ran, fun j same => occupied j (existing j same), trivial, done, next⟩
  | schedule =>
      obtain ⟨s', t', l', ran, done, next⟩ := carries.schedule fun j picked => by
        refine inv.pending j (occupied j ?_)
        rw [Procs.Occupied, show (s.kernel.procs.table j).state = .ready from Procs.pickNext_ready picked]
        decide
      exact ⟨s', t', l', 0, ran, trivial, trivial, done, next⟩

/-- **The kernel's calls are the mail's**: every sequence of calls for existing processes is followed by the
mail, and leads to states that correspond again. -/
theorem calls_posted (run : Run MailCall.Step s calls s') (carries : Carries s l t) (inv : t.Accounted) :
    ∃ ops t' l', Run (Guarded Post.Careful Post.Step) t ops t' ∧ t'.Accounted ∧ Carries s' l' t' := by
  obtain ⟨t', posts, l', carries', inv'⟩ := run.simulate (fun t (call : MailCall) t' => call.Posts t t')
    (fun s t => ∃ l, Carries s l t ∧ t.Accounted)
    (by
      rintro x x' call y ⟨l, here, accounted⟩ ⟨existing, done⟩
      obtain ⟨y', t', l', ran, posts, accounted', next⟩ := here.step accounted existing
      cases ran.symm.trans done
      exact ⟨t', posts, l', next, accounted'⟩)
    ⟨l, carries, inv⟩
  suffices ∃ ops, Run (Guarded Post.Careful Post.Step) t ops t' by
    obtain ⟨ops, mail⟩ := this
    exact ⟨ops, t', l', mail, inv', carries'⟩
  clear carries' inv' run carries inv
  induction posts with
  | nil t => exact ⟨[], .nil t⟩
  | cons first _ ih =>
      obtain ⟨entry, step⟩ := first
      obtain ⟨ops, rest⟩ := ih
      exact ⟨_, .cons step rest⟩

/-- No call for an existing process panics. -/
theorem calls_return (run : Run MailCall.Step s calls s') (carries : Carries s l t) (inv : t.Accounted)
    (call : MailCall) (existing : call.ForProcess s') : ∃ s'', call.exec s' = .ok s'' := by
  obtain ⟨-, t', l', -, inv', carries'⟩ := calls_posted run carries inv
  obtain ⟨s'', -, -, ran, -⟩ := carries'.step inv' existing
  exact ⟨s'', ran⟩

end Carries

end Kfs.Process
