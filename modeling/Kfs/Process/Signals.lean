/-
**Signals: the queues of `process.c`.**

`process_signal_send` puts an entry from `kmalloc` at the head of the target's queue, and
`process_signal_process`, called by every switch, takes the entries off one by one and frees them.
`Mail` is the process table with these entries: what each address holds, and which addresses are
allocated. What `kmalloc` returns is an argument of a send, and what the memory functions of
`process_create` and `process_fork` write outside the allocated entries is arbitrary.

A queue is followed for at most `2 ^ 32` entries: a walk that visits more addresses goes round for ever.

`process_fork` copies the whole control block, and with it the pointer to the queue, so parent and child
share the entries that are pending: `queue_shared`. When no process is forked with signals pending, every
signal arrives where it was sent, once: `signals_arrive`.
-/

import Kfs.Process.Table

namespace Kfs.Process

/-- `signal_queue_entry_t`. -/
structure QueueEntry where
  signal : Nat
  next : Nat
  deriving DecidableEq, Repr

/-- The process table, what the entries hold, and the entries allocated. -/
structure Mail where
  procs : Procs
  entries : Nat → QueueEntry
  allocated : List Nat

/-- A pointer that may be NULL. -/
def link (ptr : Nat) : Option Nat := if ptr = 0 then none else some ptr

/-- The slot holds a process. -/
def Procs.Occupied (s : Procs) (i : Slot) : Prop := (s.table i).state ≠ .unused

instance {s : Procs} {i : Slot} : Decidable (s.Occupied i) := inferInstanceAs (Decidable (_ ≠ _))

namespace Mail

/-- `process_init`, with any memory and no entry allocated. -/
def init (kernelDirectory : Nat) (entries : Nat → QueueEntry) : Mail := ⟨.init kernelDirectory, entries, []⟩

/-- The head of the queue of a slot. -/
def queue (s : Mail) (i : Slot) : Nat := (s.procs.table i).signalQueue

/-- `process_signal_send`, where `entry` is what `kmalloc` returns. -/
def send (s : Mail) (proc : Option Slot) (signal : Int) (entry : Nat) : Mail × Int :=
  match proc with
  | none => (s, -1)
  | some i =>
      if signal < 0 ∨ 32 ≤ signal then (s, -1)
      else if entry = 0 then (s, -1)
      else
        ({ procs := s.procs.modify i fun proc => { proc with signalQueue := entry }
           entries := Function.update s.entries entry ⟨signal.toNat, s.queue i⟩
           allocated := entry :: s.allocated }, 0)

/-- The loop of `process_signal_process`: the entries still allocated, and each delivery with the entry
it came from. -/
def deliverLoop (entries : Nat → QueueEntry) (handlers : Nat → Nat) : (fuel : Nat) →
    (allocated : List Nat) → (queue : Nat) → Outcome (List Nat × List (Nat × Delivery))
  | 0, _, _ => .diverge
  | fuel + 1, allocated, queue =>
      if queue = 0 then .ok (allocated, [])
      else do
        let signal := (entries queue).signal
        let (rest, later) ←
          deliverLoop entries handlers fuel (allocated.erase queue) (entries queue).next
        return (rest, (queue, ⟨signal, handlers signal⟩) :: later)

/-- All addresses, and one more. -/
def queueFuel : Nat := 2 ^ 32 + 1

/-- The deliveries to a slot. -/
def deliver (s : Mail) (i : Slot) : Outcome (List Nat × List (Nat × Delivery)) :=
  deliverLoop s.entries (s.procs.table i).signalHandlers queueFuel s.allocated (s.queue i)

/-- `process_signal_process`. -/
def process (s : Mail) (proc : Option Slot) : Outcome (Mail × List (Nat × Delivery)) :=
  match proc with
  | none => .ok (s, [])
  | some i => do
      let (allocated, delivered) ← s.deliver i
      return (⟨s.procs.modify i fun proc => { proc with signalQueue := 0 }, s.entries, allocated⟩,
        delivered)

/-- `process_schedule`, with the process it switched to and what was delivered to it. -/
def schedule (s : Mail) : Outcome (Mail × Option (Slot × List (Nat × Delivery))) :=
  match pickNext s.procs.table s.procs.currentProcess with
  | none => .ok (s, none)
  | some next =>
      if some next ≠ s.procs.currentProcess then do
        let (allocated, delivered) ← s.deliver next
        return (⟨s.procs.switch next, s.entries, allocated⟩, some (next, delivered))
      else .ok (s, none)

/-- The memory after functions that leave the allocated entries alone. -/
def scribble (s : Mail) (junk : Nat → QueueEntry) (a : Nat) : QueueEntry :=
  if a ∈ s.allocated then s.entries a else junk a

/-- An entry can be reached from the head of a queue. -/
inductive Reach (entries : Nat → QueueEntry) : Nat → Nat → Prop
  | here {e : Nat} : e ≠ 0 → Reach entries e e
  | next {q e : Nat} : q ≠ 0 → Reach entries (entries q).next e → Reach entries q e

/-- The queues of two processes share no entry. -/
def Disjoint (s : Mail) : Prop :=
  ∀ i j, s.procs.Occupied i → s.procs.Occupied j → i ≠ j → ∀ e,
    ¬ (Reach s.entries (s.queue i) e ∧ Reach s.entries (s.queue j) e)

end Mail

/-! ### Runs with their history -/

/-- A send that succeeded. -/
structure Sent where
  number : Nat
  target : Slot
  signal : Nat
  deriving DecidableEq, Repr

/-- A delivery: the process that got it, and the send that wrote the entry. -/
structure Arrival where
  target : Slot
  delivery : Delivery
  origin : Sent
  deriving DecidableEq, Repr

/-- The mail with its history: the sends so far, which of them wrote which entry, and the deliveries. -/
structure Post where
  mail : Mail
  sent : List Sent
  origin : Nat → Sent
  arrivals : List Arrival

/-- A call, with what memory supplies and writes elsewhere. -/
inductive MailOp where
  | create (entryPoint uid : Nat) (mem : Supply) (junk : Nat → QueueEntry)
  | fork (parent : Option Slot) (mem : Supply) (junk : Nat → QueueEntry)
  | send (proc : Option Slot) (signal : Int) (entry : Nat)
  | kill (pid signal entry : Nat)
  | process (proc : Option Slot)
  | schedule

namespace Post

/-- `process_init`. -/
def init (kernelDirectory : Nat) (entries : Nat → QueueEntry) : Post :=
  ⟨.init kernelDirectory entries, [], fun _ => ⟨0, ⟨0, by decide⟩, 0⟩, []⟩

/-- `process_signal_send`, noted when it succeeds. -/
def send (t : Post) (proc : Option Slot) (signal : Int) (entry : Nat) : Post :=
  match proc, t.mail.send proc signal entry with
  | some i, (mail, 0) =>
      let sent : Sent := ⟨t.sent.length, i, signal.toNat⟩
      ⟨mail, sent :: t.sent, Function.update t.origin entry sent, t.arrivals⟩
  | _, (mail, _) => { t with mail := mail }

/-- The deliveries to a process are noted. -/
def note (t : Post) (i : Slot) (delivered : List (Nat × Delivery)) : List Arrival :=
  delivered.map (fun d => ⟨i, d.2, t.origin d.1⟩) ++ t.arrivals

/-- Run one operation. -/
def exec (t : Post) : MailOp → Outcome Post
  | .create entryPoint uid mem junk =>
      .ok { t with mail :=
        ⟨(t.mail.procs.create entryPoint uid mem).1, t.mail.scribble junk, t.mail.allocated⟩ }
  | .fork parent mem junk =>
      .ok { t with mail := ⟨(t.mail.procs.fork parent mem).1, t.mail.scribble junk, t.mail.allocated⟩ }
  | .send proc signal entry => .ok (t.send proc signal entry)
  | .kill pid signal entry =>
      match processGetByPid t.mail.procs.table pid with
      | none => .ok t
      | some i => .ok (t.send (some i) (toInt signal) entry)
  | .process proc => do
      let (mail, delivered) ← t.mail.process proc
      match proc with
      | none => return { t with mail := mail }
      | some i => return { t with mail := mail, arrivals := t.note i delivered }
  | .schedule => do
      let (mail, switched) ← t.mail.schedule
      match switched with
      | none => return { t with mail := mail }
      | some (i, delivered) => return { t with mail := mail, arrivals := t.note i delivered }

/-- `kmalloc` returns NULL or an address that is not allocated. -/
def Supplies (t : Post) : MailOp → Prop
  | .send _ _ entry => entry = 0 ∨ entry ∉ t.mail.allocated ∧ entry < 2 ^ 32
  | .kill _ _ entry => entry = 0 ∨ entry ∉ t.mail.allocated ∧ entry < 2 ^ 32
  | _ => True

/-- One call that returns. -/
def Step (t : Post) (op : MailOp) (t' : Post) : Prop := t.Supplies op ∧ t.exec op = .ok t'

/-- The fork makes no child, or its parent has no signal pending. -/
def NonePending (t : Post) (p : Slot) (mem : Supply) : Prop :=
  t.mail.procs.allocSlot = none ∨ Procs.cloned (t.mail.procs.table p).pageDirectory mem = 0 ∨
    mem.kernelStack = 0 ∨ t.mail.queue p = 0

/-- Calls are for processes, and no process is forked with a signal pending. -/
def Careful (t : Post) : MailOp → Prop
  | .fork parent mem _ => ∀ p ∈ parent, t.mail.procs.Occupied p ∧ t.NonePending p mem
  | .send proc _ _ => ∀ i ∈ proc, t.mail.procs.Occupied i
  | .process proc => ∀ i ∈ proc, t.mail.procs.Occupied i
  | _ => True

instance (t : Post) : (op : MailOp) → Decidable (t.Supplies op)
  | .create _ _ _ _ => inferInstanceAs (Decidable True)
  | .fork _ _ _ => inferInstanceAs (Decidable True)
  | .send _ _ _ => inferInstanceAs (Decidable (_ ∨ _))
  | .kill _ _ _ => inferInstanceAs (Decidable (_ ∨ _))
  | .process _ => inferInstanceAs (Decidable True)
  | .schedule => inferInstanceAs (Decidable True)

instance {t : Post} {p : Slot} {mem : Supply} : Decidable (t.NonePending p mem) :=
  inferInstanceAs (Decidable (_ ∨ _))

instance (t : Post) : (op : MailOp) → Decidable (t.Careful op)
  | .create _ _ _ _ => inferInstanceAs (Decidable True)
  | .fork parent _ _ => inferInstanceAs (Decidable (∀ p ∈ parent, _))
  | .send proc _ _ => inferInstanceAs (Decidable (∀ i ∈ proc, _))
  | .kill _ _ _ => inferInstanceAs (Decidable True)
  | .process proc => inferInstanceAs (Decidable (∀ i ∈ proc, _))
  | .schedule => inferInstanceAs (Decidable True)

end Post

/-! ### Queues of new processes -/

namespace Pcb.Relinked

theorem signalQueue {a b : Pcb} (h : Relinked a b) : b.signalQueue = a.signalQueue := by
  obtain ⟨_, _, _, rfl⟩ := h
  rfl

end Pcb.Relinked

namespace Procs

variable {mem : Supply}

theorem createAt_queue (s : Procs) (i : Slot) (entryPoint uid : Nat) (mem : Supply) :
    ((s.createAt i entryPoint uid mem).1.table i).signalQueue = 0 := by
  unfold createAt
  by_cases directory : mem.directory = 0
  · simp [directory, discard, Pcb.zero]
  · by_cases kernelStack : mem.kernelStack = 0
    · simp [directory, kernelStack, discard, Pcb.zero]
    · by_cases userPage : mem.userPage = 0
      · simp [directory, kernelStack, userPage, discard, Pcb.zero]
      · simp [directory, kernelStack, userPage, Pcb.setUp]

/-- The child's queue is the parent's. -/
theorem forkAt_queue (s : Procs) (p c : Slot) (mem : Supply) :
    ((s.forkAt p c mem).1.table c).signalQueue = (s.table p).signalQueue := by
  have child : ((s.linked p c).table c).signalQueue = (s.table p).signalQueue := by
    by_cases self : c = p
    · subst self
      simp [linked]
    · simp [linked, self]
  unfold forkAt
  by_cases directory : cloned ((s.linked p c).table p).pageDirectory mem = 0
  · simpa [directory, discard] using child
  · by_cases kernelStack : mem.kernelStack = 0
    · simpa [directory, kernelStack, discard] using child
    · simpa [directory, kernelStack] using child

theorem forkAt_unused (s : Procs) (p c : Slot)
    (fails : cloned (s.table p).pageDirectory mem = 0 ∨ mem.kernelStack = 0) :
    ((s.forkAt p c mem).1.table c).state = .unused := by
  simp only [forkAt, linked_directory]
  by_cases directory : cloned (s.table p).pageDirectory mem = 0
  · simp [directory, discard]
  · simp [directory, fails.resolve_left directory, discard]

theorem forkAt_some (s : Procs) (p c : Slot) (directory : cloned (s.table p).pageDirectory mem ≠ 0)
    (kernelStack : mem.kernelStack ≠ 0) : (s.forkAt p c mem).2 = some c := by
  simp only [forkAt, linked_directory]
  simp [directory, kernelStack]

end Procs

/-! ### Queues as lists -/

namespace Mail

/-- Following a queue visits these entries. -/
def Chain (entries : Nat → QueueEntry) (head : Nat) (l : List Nat) : Prop :=
  Threads (fun e => link (entries e).next) (link head) l

section Chains

variable {entries entries' : Nat → QueueEntry} {handlers : Nat → Nat} {allocated l : List Nat}
  {e fuel head : Nat}

theorem link_eq_some {a b : Nat} : link a = some b ↔ a = b ∧ a ≠ 0 := by
  unfold link
  split
  · rename_i zero
    simp [zero]
  · rename_i nonzero
    simp [nonzero]

theorem chain_nil : Chain entries head [] ↔ head = 0 := by
  simp [Chain, link]

theorem chain_cons : Chain entries head (e :: l) ↔
    (head = e ∧ head ≠ 0) ∧ Chain entries (entries e).next l := by
  rw [Chain, Threads.cons_iff, link_eq_some]
  rfl

theorem Chain.congr (chain : Chain entries head l) (same : ∀ e ∈ l, entries' e = entries e) :
    Chain entries' head l :=
  Threads.congr chain fun e member => by rw [same e member]

/-- The entries of a queue are those that can be reached. -/
theorem Chain.mem_iff (chain : Chain entries head l) : e ∈ l ↔ Reach entries head e := by
  induction l generalizing head with
  | nil =>
      rw [chain_nil] at chain
      subst chain
      refine iff_of_false (List.not_mem_nil) fun reach => ?_
      cases reach with
      | here nonzero => exact nonzero rfl
      | next nonzero _ => exact nonzero rfl
  | cons a l ih =>
      obtain ⟨⟨rfl, nonzero⟩, rest⟩ := chain_cons.mp chain
      rw [List.mem_cons, ih rest]
      constructor
      · rintro (rfl | later)
        · exact .here nonzero
        · exact .next nonzero later
      · intro reach
        cases reach with
        | here _ => exact .inl rfl
        | next _ later => exact .inr later

/-- What is delivered for one entry. -/
def deliveryOf (entries : Nat → QueueEntry) (handlers : Nat → Nat) (e : Nat) : Nat × Delivery :=
  (e, ⟨(entries e).signal, handlers (entries e).signal⟩)

/-- **The loop delivers every entry of the queue once** and frees it. -/
theorem deliverLoop_chain (chain : Chain entries head l) (enough : l.length < fuel) :
    deliverLoop entries handlers fuel allocated head =
      .ok (allocated.diff l, l.map (deliveryOf entries handlers)) := by
  induction l generalizing head fuel allocated with
  | nil =>
      obtain ⟨fuel, rfl⟩ := Nat.exists_eq_succ_of_ne_zero (Nat.ne_of_gt enough)
      rw [deliverLoop, if_pos (chain_nil.mp chain)]
      rfl
  | cons a l ih =>
      obtain ⟨⟨rfl, nonzero⟩, rest⟩ := chain_cons.mp chain
      obtain ⟨fuel, rfl⟩ := Nat.exists_eq_succ_of_ne_zero (Nat.ne_of_gt (Nat.zero_lt_of_lt enough))
      rw [deliverLoop, if_neg nonzero, ih rest (by simpa using enough), List.diff_cons]
      rfl

theorem Chain.length_le (chain : Chain entries head l) (small : ∀ e ∈ l, e < 2 ^ 32) :
    l.length ≤ 2 ^ 32 := by
  have inside : l.toFinset ⊆ Finset.range (2 ^ 32) := fun e member =>
    Finset.mem_range.mpr (small e (List.mem_toFinset.mp member))
  have card := Finset.card_le_card inside
  rwa [List.toFinset_card_of_nodup (Threads.nodup chain), Finset.card_range] at card

end Chains

end Mail

/-! ### The invariant -/

namespace Post

open Mail

/-- The sends to a process. -/
def sentTo (t : Post) (i : Slot) : List Sent := t.sent.filter fun s => s.target = i

/-- The deliveries to a process. -/
def arrivedAt (t : Post) (i : Slot) : List Arrival := t.arrivals.filter fun a => a.target = i

/-- The queue of a process holds the sends to it that have not arrived. -/
structure Pending (t : Post) (i : Slot) (l : List Nat) : Prop where
  chain : Chain t.mail.entries (t.mail.queue i) l
  allocated : ∀ e ∈ l, e ∈ t.mail.allocated
  origin : ∀ e ∈ l, (t.origin e).target = i ∧ (t.origin e).signal = (t.mail.entries e).signal
  account : (t.sentTo i).Perm (l.map t.origin ++ (t.arrivedAt i).map Arrival.origin)

/-- **The invariant.** -/
structure Accounted (t : Post) : Prop where
  pending : ∀ i, t.mail.procs.Occupied i → ∃ l, t.Pending i l
  idle : ∀ i, ¬ t.mail.procs.Occupied i → t.sentTo i = [] ∧ t.arrivedAt i = []
  addresses : ∀ e ∈ t.mail.allocated, e < 2 ^ 32
  numbers : t.sent.Nodup ∧ ∀ s ∈ t.sent, s.number < t.sent.length
  arrived : ∀ a ∈ t.arrivals, a.origin.target = a.target ∧ a.origin.signal = a.delivery.signal

/-- Every delivery is of a send, to its target and with its signal, and no send is delivered twice. -/
structure AtMostOnce (t : Post) : Prop where
  sent : ∀ a ∈ t.arrivals, a.origin ∈ t.sent
  target : ∀ a ∈ t.arrivals, a.origin.target = a.target ∧ a.origin.signal = a.delivery.signal
  once : (t.arrivals.map Arrival.origin).Nodup

/-- What was delivered to a process is what was sent to it. -/
def Complete (t : Post) (i : Slot) : Prop :=
  ((t.arrivedAt i).map fun a => a.delivery.signal).Perm ((t.sentTo i).map Sent.signal)

section Consequences

variable {t : Post} {i j : Slot} {l : List Nat}

theorem mem_sentTo {s : Sent} : s ∈ t.sentTo i ↔ s ∈ t.sent ∧ s.target = i := by
  simp [sentTo]

theorem mem_arrivedAt {a : Arrival} : a ∈ t.arrivedAt i ↔ a ∈ t.arrivals ∧ a.target = i := by
  simp [arrivedAt]

/-- The queues of two processes share no entry: the entry was sent to one of them. -/
theorem Accounted.disjoint (inv : t.Accounted) : t.mail.Disjoint := by
  intro i j usedI usedJ other e both
  obtain ⟨l, pendingI⟩ := inv.pending i usedI
  obtain ⟨k, pendingJ⟩ := inv.pending j usedJ
  have atI := (pendingI.origin e (pendingI.chain.mem_iff.mpr both.1)).1
  have atJ := (pendingJ.origin e (pendingJ.chain.mem_iff.mpr both.2)).1
  exact other (atI.symm.trans atJ)

theorem Accounted.sentTo_nodup (inv : t.Accounted) (i : Slot) : (t.sentTo i).Nodup :=
  inv.numbers.1.filter _

theorem Accounted.arrivedAt_origins (inv : t.Accounted) (i : Slot) :
    ((t.arrivedAt i).map Arrival.origin).Nodup ∧ ∀ a ∈ t.arrivedAt i, a.origin ∈ t.sent := by
  by_cases used : t.mail.procs.Occupied i
  · obtain ⟨l, pending⟩ := inv.pending i used
    have all := pending.account.nodup_iff.mp (inv.sentTo_nodup i)
    refine ⟨(List.nodup_append.mp all).2.1, fun a member => ?_⟩
    have inside : a.origin ∈ t.sentTo i := pending.account.mem_iff.mpr
      (List.mem_append_right _ (List.mem_map_of_mem member))
    exact (mem_sentTo.mp inside).1
  · rw [(inv.idle i used).2]
    exact ⟨List.nodup_nil, fun a member => nomatch member⟩

theorem Accounted.atMostOnce (inv : t.Accounted) : t.AtMostOnce := by
  refine ⟨fun a member => ?_, inv.arrived, List.nodup_iff_count_le_one.mpr fun o => ?_⟩
  · exact (inv.arrivedAt_origins a.target).2 a (mem_arrivedAt.mpr ⟨member, rfl⟩)
  · -- every delivery of this send is to its target
    have only : (t.arrivals.map Arrival.origin).count o =
        ((t.arrivedAt o.target).map Arrival.origin).count o := by
      rw [List.count_eq_countP, List.count_eq_countP, List.countP_map, List.countP_map, arrivedAt,
        List.countP_filter]
      refine List.countP_congr fun a member => ?_
      simp only [Function.comp_apply, beq_iff_eq, Bool.and_eq_true, decide_eq_true_eq]
      refine ⟨fun same => ⟨same, ?_⟩, And.left⟩
      rw [← (inv.arrived a member).1, same]
    rw [only]
    exact List.nodup_iff_count_le_one.mp (inv.arrivedAt_origins o.target).1 o

/-- Once the queue is empty, everything has arrived. -/
theorem Accounted.complete (inv : t.Accounted) (used : t.mail.procs.Occupied i)
    (empty : t.mail.queue i = 0) : t.Complete i := by
  obtain ⟨l, pending⟩ := inv.pending i used
  have none : l = [] := by
    have chain := pending.chain
    rw [empty] at chain
    exact Threads.none_iff.mp chain
  have account := pending.account
  rw [none, List.map_nil, List.nil_append] at account
  have signals : (t.arrivedAt i).map (fun a => a.delivery.signal) =
      ((t.arrivedAt i).map Arrival.origin).map Sent.signal := by
    rw [List.map_map]
    refine List.map_congr_left fun a member => ?_
    exact (inv.arrived a (mem_arrivedAt.mp member).1).2.symm
  rw [Complete, signals]
  exact (account.symm).map _

end Consequences

/-! ### Each operation -/

section Operations

variable {t t' : Post} {i : Slot} {procs : Procs}

theorem Accounted.init {kernelDirectory : Nat} {entries : Nat → QueueEntry} :
    (Post.init kernelDirectory entries).Accounted := by
  refine ⟨fun i used => absurd rfl used, fun i _ => ⟨rfl, rfl⟩, nofun, ⟨List.nodup_nil, nofun⟩, nofun⟩

theorem scribble_eq (s : Mail) {junk : Nat → QueueEntry} {e : Nat} (member : e ∈ s.allocated) :
    s.scribble junk e = s.entries e :=
  if_pos member

/-- Processes keep their queues, and new ones have nothing pending. -/
theorem Accounted.relabel (inv : t.Accounted) {junk : Nat → QueueEntry}
    (kept : ∀ i, t.mail.procs.Occupied i → procs.Occupied i)
    (queues : ∀ i, procs.Occupied i →
      t.mail.procs.Occupied i ∧ (procs.table i).signalQueue = t.mail.queue i ∨
      ¬ t.mail.procs.Occupied i ∧ (procs.table i).signalQueue = 0) :
    Accounted { t with mail := ⟨procs, t.mail.scribble junk, t.mail.allocated⟩ } := by
  refine ⟨fun i used => ?_, fun i unused => inv.idle i fun used => unused (kept i used),
    inv.addresses, inv.numbers, inv.arrived⟩
  rcases queues i used with ⟨before, same⟩ | ⟨fresh, empty⟩
  · obtain ⟨l, pending⟩ := inv.pending i before
    have entries : ∀ e ∈ l, t.mail.scribble junk e = t.mail.entries e := fun e member =>
      scribble_eq t.mail (pending.allocated e member)
    refine ⟨l, ?_, pending.allocated, fun e member => ?_, pending.account⟩
    · simp only [Mail.queue, same]
      exact pending.chain.congr entries
    · simp only [entries e member]
      exact pending.origin e member
  · obtain ⟨noSends, noArrivals⟩ := inv.idle i fresh
    refine ⟨[], chain_nil.mpr empty, nofun, nofun, ?_⟩
    simp only [sentTo, arrivedAt] at noSends noArrivals ⊢
    rw [noSends, noArrivals]
    exact .nil

theorem sentTo_cons (s : Sent) (mail : Mail) (origin : Nat → Sent) (j : Slot) :
    (Post.mk mail (s :: t.sent) origin t.arrivals).sentTo j =
      if s.target = j then s :: t.sentTo j else t.sentTo j := by
  simp only [sentTo, List.filter_cons, decide_eq_true_eq]

/-- The queue of `i` with one more entry, and the send noted. -/
def pushed (t : Post) (i : Slot) (signal : Int) (entry : Nat) : Post where
  mail :=
    { procs := t.mail.procs.modify i fun proc => { proc with signalQueue := entry }
      entries := Function.update t.mail.entries entry ⟨signal.toNat, t.mail.queue i⟩
      allocated := entry :: t.mail.allocated }
  sent := ⟨t.sent.length, i, signal.toNat⟩ :: t.sent
  origin := Function.update t.origin entry ⟨t.sent.length, i, signal.toNat⟩
  arrivals := t.arrivals

theorem send_pushed {signal : Int} {entry : Nat} (range : ¬ (signal < 0 ∨ 32 ≤ signal)) (nonzero : entry ≠ 0) :
    t.send (some i) signal entry = t.pushed i signal entry := by
  simp only [Post.send, Mail.send, range, nonzero, if_false]
  rfl

theorem pushed_occupied {signal : Int} {entry : Nat} {j : Slot} :
    (t.pushed i signal entry).mail.procs.Occupied j ↔ t.mail.procs.Occupied j := by
  simp only [pushed, Procs.Occupied, Procs.modify_table]
  split
  · rename_i here
    rw [here]
  · exact Iff.rfl

section Pushed

variable {signal : Int} {entry : Nat} {j : Slot} {l : List Nat}

/-- The entries of a queue are other ones than an entry that was not allocated. -/
theorem Pending.pushed_entries (pending : t.Pending j l) (fresh : entry ∉ t.mail.allocated) :
    (∀ e ∈ l, (t.pushed i signal entry).mail.entries e = t.mail.entries e) ∧
      ∀ e ∈ l, (t.pushed i signal entry).origin e = t.origin e := by
  have elsewhere : ∀ e ∈ l, e ≠ entry := by
    rintro e member rfl
    exact fresh (pending.allocated e member)
  exact ⟨fun e member => Function.update_of_ne (elsewhere e member) _ _,
    fun e member => Function.update_of_ne (elsewhere e member) _ _⟩

/-- The queue that is pushed to. -/
theorem Pending.pushed_self (pending : t.Pending i l) (fresh : entry ∉ t.mail.allocated) (nonzero : entry ≠ 0) :
    (t.pushed i signal entry).Pending i (entry :: l) := by
  obtain ⟨entries, origins⟩ := @pushed_entries t i signal entry i l pending fresh
  refine ⟨?_, ?_, ?_, ?_⟩
  · simp only [pushed, Mail.queue, Procs.modify_table, if_true]
    refine chain_cons.mpr ⟨⟨rfl, nonzero⟩, ?_⟩
    rw [Function.update_self]
    exact pending.chain.congr entries
  · intro e member
    rcases List.mem_cons.mp member with rfl | later
    · exact List.mem_cons_self
    · exact List.mem_cons_of_mem _ (pending.allocated e later)
  · intro e member
    rcases List.mem_cons.mp member with rfl | later
    · simp only [pushed, Function.update_self, and_self]
    · rw [origins e later, entries e later]
      exact pending.origin e later
  · rw [pushed, sentTo_cons, if_pos rfl, List.map_cons]
    have kept : l.map (t.pushed i signal entry).origin = l.map t.origin := List.map_congr_left origins
    rw [show l.map (Function.update t.origin entry _) = _ from kept]
    simp only [Function.update_self]
    exact pending.account.cons _

/-- The other queues. -/
theorem Pending.pushed_other (pending : t.Pending j l) (other : j ≠ i) (fresh : entry ∉ t.mail.allocated) :
    (t.pushed i signal entry).Pending j l := by
  obtain ⟨entries, origins⟩ := @pushed_entries t i signal entry j l pending fresh
  refine ⟨?_, fun e member => List.mem_cons_of_mem _ (pending.allocated e member), fun e member => ?_, ?_⟩
  · simp only [pushed, Mail.queue, Procs.modify_table, other, if_false]
    exact pending.chain.congr entries
  · rw [origins e member, entries e member]
    exact pending.origin e member
  · have kept : l.map (t.pushed i signal entry).origin = l.map t.origin := List.map_congr_left origins
    rw [kept, pushed, sentTo_cons, if_neg other.symm]
    exact pending.account

end Pushed

/-- **A send** adds one entry to the queue of its target. -/
theorem Accounted.send (inv : t.Accounted) (used : t.mail.procs.Occupied i) (signal : Int) {entry : Nat}
    (supplied : entry = 0 ∨ entry ∉ t.mail.allocated ∧ entry < 2 ^ 32) :
    (t.send (some i) signal entry).Accounted := by
  by_cases range : signal < 0 ∨ 32 ≤ signal
  · simpa [Post.send, Mail.send, range] using inv
  by_cases null : entry = 0
  · simpa [Post.send, Mail.send, range, null] using inv
  obtain ⟨fresh, small⟩ := supplied.resolve_left null
  rw [send_pushed range null]
  refine ⟨fun j usedJ => ?_, fun j unused => ?_, ?_, ⟨List.nodup_cons.mpr ⟨?_, inv.numbers.1⟩, ?_⟩, inv.arrived⟩
  · obtain ⟨l, pending⟩ := inv.pending j (pushed_occupied.mp usedJ)
    by_cases here : j = i
    · subst here
      exact ⟨entry :: l, pending.pushed_self fresh null⟩
    · exact ⟨l, pending.pushed_other here fresh⟩
  · have before : ¬ t.mail.procs.Occupied j := fun usedJ => unused (pushed_occupied.mpr usedJ)
    have other : i ≠ j := by
      rintro rfl
      exact before used
    rw [pushed, sentTo_cons, if_neg other]
    exact inv.idle j before
  · intro e member
    rcases List.mem_cons.mp member with rfl | later
    · exact small
    · exact inv.addresses e later
  · intro member
    exact absurd (inv.numbers.2 _ member) (lt_irrefl _)
  · intro s member
    show s.number < (_ :: t.sent).length
    rw [List.length_cons]
    rcases List.mem_cons.mp member with rfl | later
    · exact Nat.lt_succ_self _
    · exact Nat.lt_succ_of_lt (inv.numbers.2 s later)

/-- **Processing a queue** delivers what is pending, and the queue is empty then. -/
theorem Accounted.deliver (inv : t.Accounted) (used : t.mail.procs.Occupied i) (procs : Procs)
    (same : ∀ j, procs.Occupied j ↔ t.mail.procs.Occupied j)
    (queues : ∀ j, (procs.table j).signalQueue = if j = i then 0 else t.mail.queue j) :
    ∃ allocated delivered, t.mail.deliver i = .ok (allocated, delivered) ∧
      Accounted { t with
        mail := ⟨procs, t.mail.entries, allocated⟩
        arrivals := t.note i delivered } := by
  obtain ⟨l, pending⟩ := inv.pending i used
  have short := pending.chain.length_le fun e member => inv.addresses e (pending.allocated e member)
  refine ⟨_, _, deliverLoop_chain pending.chain (Nat.lt_succ_of_le short), ?_⟩
  have arrivedHere : ∀ j mail, (Post.mk mail t.sent t.origin
      (t.note i (l.map (deliveryOf t.mail.entries (t.mail.procs.table i).signalHandlers)))).arrivedAt j =
      if j = i then l.map (fun e => ⟨i, (deliveryOf t.mail.entries
        (t.mail.procs.table i).signalHandlers e).2, t.origin e⟩) ++ t.arrivedAt i
      else t.arrivedAt j := by
    intro j mail
    simp only [arrivedAt, note, List.filter_append, List.map_map]
    by_cases here : j = i
    · subst here
      rw [if_pos rfl]
      congr 1
      exact List.filter_eq_self.mpr (by simp)
    · rw [if_neg here]
      refine List.append_left_eq_self.mpr (List.filter_eq_nil_iff.mpr ?_)
      simp [Ne.symm here]
  refine ⟨fun j usedJ => ?_, fun j unused => ?_, fun e member => ?_, inv.numbers, fun a member => ?_⟩
  · by_cases here : j = i
    · subst here
      refine ⟨[], chain_nil.mpr (by simp [Mail.queue, queues]), nofun, nofun, ?_⟩
      rw [arrivedHere, if_pos rfl, List.map_append, List.map_map]
      exact pending.account
    · obtain ⟨k, pendingJ⟩ := inv.pending j ((same j).mp usedJ)
      refine ⟨k, ?_, fun e member => ?_, pendingJ.origin, ?_⟩
      · simp only [Mail.queue, queues, here, if_false]
        exact pendingJ.chain
      · refine List.mem_diff_of_mem (pendingJ.allocated e member) fun taken => here ?_
        exact (pendingJ.origin e member).1.symm.trans (pending.origin e taken).1
      · rw [arrivedHere, if_neg here]
        exact pendingJ.account
  · have before : ¬ t.mail.procs.Occupied j := fun usedJ => unused ((same j).mpr usedJ)
    have other : j ≠ i := by
      rintro rfl
      exact before used
    rw [arrivedHere, if_neg other]
    exact inv.idle j before
  · exact inv.addresses e (List.diff_subset _ _ member)
  · simp only [note, List.map_map, List.mem_append, List.mem_map] at member
    rcases member with ⟨e, queued, rfl⟩ | old
    · exact pending.origin e queued
    · exact inv.arrived a old

/-- `process_create`: the new process has nothing pending. -/
theorem Accounted.create (inv : t.Accounted) {entryPoint uid : Nat} {mem : Supply}
    {junk : Nat → QueueEntry} : Accounted { t with mail :=
      ⟨(t.mail.procs.create entryPoint uid mem).1, t.mail.scribble junk, t.mail.allocated⟩ } := by
  cases found : t.mail.procs.allocSlot with
  | none =>
      simp only [Procs.create, found]
      exact inv.relabel (fun i used => used) fun i used => .inl ⟨used, rfl⟩
  | some i =>
      have birth := Procs.createAt_birth (Procs.allocSlot_unused found) entryPoint uid mem
      have empty := Procs.createAt_queue t.mail.procs i entryPoint uid mem
      simp only [Procs.create, found]
      refine inv.relabel (fun j used => ?_) fun j used => ?_
      · have other : j ≠ i := by
          rintro rfl
          exact used birth.unused
        rw [Procs.Occupied, (birth.others j other).state]
        exact used
      · by_cases here : j = i
        · subst here
          exact .inr ⟨fun before => before birth.unused, empty⟩
        · rw [Procs.Occupied, (birth.others j here).state] at used
          exact .inl ⟨used, (birth.others j here).signalQueue⟩

/-- `process_fork` of a process without pending signals, or without success. -/
theorem Accounted.fork (inv : t.Accounted) {parent : Option Slot} {mem : Supply}
    {junk : Nat → QueueEntry} (careful : ∀ p ∈ parent, t.mail.procs.Occupied p ∧ t.NonePending p mem) :
    Accounted { t with mail :=
      ⟨(t.mail.procs.fork parent mem).1, t.mail.scribble junk, t.mail.allocated⟩ } := by
  cases parent with
  | none => exact inv.relabel (fun i used => used) fun i used => .inl ⟨used, rfl⟩
  | some p =>
      cases found : t.mail.procs.allocSlot with
      | none =>
          simp only [Procs.fork, found]
          exact inv.relabel (fun i used => used) fun i used => .inl ⟨used, rfl⟩
      | some c =>
          have birth := Procs.forkAt_birth (Procs.allocSlot_unused found) p mem
          simp only [Procs.fork, found]
          refine inv.relabel (fun j used => ?_) fun j used => ?_
          · have other : j ≠ c := by
              rintro rfl
              exact used birth.unused
            rw [Procs.Occupied, (birth.others j other).state]
            exact used
          · by_cases here : j = c
            · subst here
              refine .inr ⟨fun before => before birth.unused, ?_⟩
              rw [Procs.forkAt_queue]
              rcases (careful p rfl).2 with none | noDirectory | noStack | empty
              · exact nomatch none.symm.trans found
              · exact absurd (Procs.forkAt_unused t.mail.procs p j (.inl noDirectory)) used
              · exact absurd (Procs.forkAt_unused t.mail.procs p j (.inr noStack)) used
              · exact empty
            · rw [Procs.Occupied, (birth.others j here).state] at used
              exact .inl ⟨used, (birth.others j here).signalQueue⟩

/-- `process_signal_process`. -/
theorem Accounted.process (inv : t.Accounted) (used : t.mail.procs.Occupied i) :
    ∃ t', t.exec (.process (some i)) = .ok t' ∧ t'.Accounted ∧ t'.mail.queue i = 0 ∧
      t'.mail.procs.Occupied i ∧ t'.sent = t.sent := by
  have table := t.mail.procs.modify_table i fun proc => { proc with signalQueue := 0 }
  have same : ∀ j, (t.mail.procs.modify i fun proc => { proc with signalQueue := 0 }).Occupied j ↔
      t.mail.procs.Occupied j := fun j => by
    simp only [Procs.Occupied, table]
    split
    · rename_i here
      rw [here]
    · rfl
  obtain ⟨allocated, delivered, done, after⟩ := inv.deliver used _ same fun j => by
    rw [table]
    split
    · rfl
    · rfl
  refine ⟨_, ?_, after, ?_, (same i).mpr used, rfl⟩
  · simp only [exec, Mail.process, done, Outcome.ok_bind, Outcome.pure_eq]
  · simp [Mail.queue]

/-- `process_schedule`. -/
theorem Accounted.schedule (inv : t.Accounted) :
    ∃ t', t.exec .schedule = .ok t' ∧ t'.Accounted := by
  cases picked : pickNext t.mail.procs.table t.mail.procs.currentProcess with
  | none => exact ⟨t, by simp [exec, Mail.schedule, picked], inv⟩
  | some next =>
      by_cases other : some next ≠ t.mail.procs.currentProcess
      · have ready := Procs.pickNext_ready picked
        have used : t.mail.procs.Occupied next := by
          rw [Procs.Occupied, ready]
          decide
        have table := t.mail.procs.switch_table next
        obtain ⟨allocated, delivered, done, after⟩ := inv.deliver used (t.mail.procs.switch next)
          (fun j => by
            simp only [Procs.Occupied, table]
            split
            · rename_i here
              subst here
              simp [ready]
            · split
              · rename_i running
                simp [running.2]
              · rfl)
          (fun j => by
            rw [table]
            split
            · rfl
            · split <;> rfl)
        refine ⟨_, ?_, after⟩
        simp only [exec, Mail.schedule, picked, if_pos other, done, Outcome.ok_bind, Outcome.pure_eq]
      · refine ⟨t, ?_, inv⟩
        simp only [exec, Mail.schedule, picked, if_neg other]
        rfl

/-- **Every careful call** keeps the accounts. -/
theorem Accounted.step {op : MailOp} (inv : t.Accounted) (careful : t.Careful op)
    (step : t.Step op t') : t'.Accounted := by
  obtain ⟨supplied, done⟩ := step
  cases op with
  | create entryPoint uid mem junk =>
      cases done
      exact inv.create
  | fork parent mem junk =>
      cases done
      exact inv.fork careful
  | send proc signal entry =>
      cases done
      cases proc with
      | none => exact inv
      | some i => exact inv.send (careful i rfl) signal supplied
  | kill pid signal entry =>
      cases found : processGetByPid t.mail.procs.table pid with
      | none =>
          simp only [exec, found] at done
          cases done
          exact inv
      | some i =>
          simp only [exec, found] at done
          cases done
          have test := List.find?_some found
          simp only [ne_eq, decide_eq_true_eq] at test
          exact inv.send test.1 _ supplied
  | process proc =>
      cases proc with
      | none =>
          cases done
          exact inv
      | some i =>
          obtain ⟨after, ran, accounted, -⟩ := inv.process (careful i rfl)
          cases ran.symm.trans done
          exact accounted
  | schedule =>
      obtain ⟨after, ran, accounted⟩ := inv.schedule
      cases ran.symm.trans done
      exact accounted

/-- **A fork with signals pending shares the queue** between parent and child. -/
theorem fork_shares (mem : Supply) (junk : Nat → QueueEntry) {p : Slot}
    (used : t.mail.procs.Occupied p) (pending : ¬ t.NonePending p mem) :
    ¬ Mail.Disjoint ⟨(t.mail.procs.fork (some p) mem).1, t.mail.scribble junk, t.mail.allocated⟩ := by
  simp only [NonePending, not_or] at pending
  obtain ⟨room, directory, stack, queued⟩ := pending
  obtain ⟨c, found⟩ := Option.ne_none_iff_exists'.mp room
  have free := Procs.allocSlot_unused found
  have birth := Procs.forkAt_birth free p mem
  have other : p ≠ c := by
    rintro rfl
    exact used free
  simp only [Procs.fork, found]
  intro disjoint
  refine disjoint p c ?_ ?_ other (t.mail.queue p) ⟨?_, ?_⟩
  · rw [Procs.Occupied, (birth.others p other).state]
    exact used
  · rcases birth.born with ⟨-, ready, -⟩ | ⟨failed, -⟩
    · rw [Procs.Occupied, ready]
      decide
    · exact absurd failed (by simp [Procs.forkAt_some t.mail.procs p c directory stack])
  · simp only [Mail.queue, (birth.others p other).signalQueue]
    exact .here queued
  · simp only [Mail.queue, Procs.forkAt_queue]
    exact .here queued

end Operations

end Post

open Post

/-- **Signals reach their target, once.** In every run of careful calls: every delivery is of a send to
that process, no send is delivered twice, queues are disjoint, and a process whose queue is empty got
exactly what was sent to it. Processing a queue returns and leaves it empty. From each such state, a fork
leaves the queues disjoint if and only if no signal is pending or no child is made. -/
theorem signals_arrive {kernelDirectory : Nat} {entries : Nat → QueueEntry} {ops : List MailOp}
    {t : Post} (run : Run (Guarded Careful Post.Step) (.init kernelDirectory entries) ops t) :
    t.AtMostOnce ∧ t.mail.Disjoint ∧
      (∀ i, t.mail.procs.Occupied i → t.mail.queue i = 0 → t.Complete i) ∧
      (∀ i, t.mail.procs.Occupied i → ∃ t', t.exec (.process (some i)) = .ok t' ∧
        t'.mail.queue i = 0 ∧ t'.Complete i) ∧
      ∀ p mem junk t', t.mail.procs.Occupied p → t.Step (.fork (some p) mem junk) t' →
        (t'.mail.Disjoint ↔ t.NonePending p mem) := by
  have inv : t.Accounted :=
    run.invariant Accounted (fun _ _ _ here step => here.step step.1 step.2) .init
  refine ⟨inv.atMostOnce, inv.disjoint, fun i used empty => inv.complete used empty,
    fun i used => ?_, fun p mem junk t' used step => ⟨fun disjoint => ?_, fun none => ?_⟩⟩
  · obtain ⟨t', ran, after, empty, still, -⟩ := inv.process used
    exact ⟨t', ran, empty, after.complete still empty⟩
  · by_contra pending
    cases step.2
    exact fork_shares mem junk used pending disjoint
  · have careful : t.Careful (.fork (some p) mem junk) := by
      intro q here
      cases Option.mem_def.mp here
      exact ⟨used, none⟩
    exact (inv.step careful step).disjoint

/-- Memory that was never written. -/
def noEntries : Nat → QueueEntry := fun _ => ⟨0, 0⟩

/-- A process is created, gets two signals and is switched to. -/
def signalledOps : List MailOp :=
  [.create 0 0 sampleSupply noEntries, .send (some firstSlot) 9 0x510010,
    .kill 1 15 0x510030, .schedule]

/-- The state after these calls. -/
def signalled : Post :=
  (runAll (guardedExec (fun t op => t.Careful op ∧ t.Supplies op) Post.exec) (.init 0x200000 noEntries)
    signalledOps).getD (.init 0x200000 noEntries)

theorem signals_arrive_switched : (signalled.arrivals.map fun a => a.delivery.signal) = [15, 9] ∧
    signalled.Complete firstSlot := by
  have run : Run (Guarded (fun t op => t.Careful op ∧ t.Supplies op) fun t op t' => t.exec op = .ok t')
      (.init 0x200000 noEntries) signalledOps signalled :=
    Run.of_guardedExec (Outcome.eq_ok_getD (by decide +kernel) _)
  have careful : Run (Guarded Careful Post.Step) (.init 0x200000 noEntries) signalledOps signalled :=
    run.mono fun _ _ _ step => ⟨step.1.1, step.1.2, step.2⟩
  exact ⟨by decide +kernel,
    (signals_arrive careful).2.2.1 firstSlot (by decide +kernel) (by decide +kernel)⟩

/-- A process with a signal pending is forked. -/
def sharedOps : List MailOp :=
  [.create 0 0 sampleSupply noEntries, .send (some firstSlot) 9 0x510010,
    .fork (some firstSlot) ⟨0x507000, 0x509020, 0x50A030⟩ noEntries]

/-- The state after these calls. -/
def shared : Post :=
  (runAll (guardedExec Post.Supplies Post.exec) (.init 0x200000 noEntries) sharedOps).getD
    (.init 0x200000 noEntries)

/-- The state after both queues are processed as well, the child's first. -/
def misdelivered : Post :=
  (runAll (guardedExec Post.Supplies Post.exec) shared
    [.process (some secondSlot), .process (some firstSlot)]).getD shared

/-- The one signal sent to the parent is delivered to the child, and again to the parent. -/
theorem queue_shared : Run Post.Step (.init 0x200000 noEntries) sharedOps shared ∧
    ¬ shared.mail.Disjoint ∧
    Run Post.Step shared [.process (some secondSlot), .process (some firstSlot)] misdelivered ∧
    misdelivered.sent.length = 1 ∧
    misdelivered.arrivals.map Arrival.target = [firstSlot, secondSlot] ∧ ¬ misdelivered.AtMostOnce := by
  have first : shared.mail.queue firstSlot = 0x510010 := by decide +kernel
  have second : shared.mail.queue secondSlot = 0x510010 := by decide +kernel
  refine ⟨Run.of_guardedExec (Outcome.eq_ok_getD (by decide +kernel) _), fun disjoint => ?_,
    Run.of_guardedExec (Outcome.eq_ok_getD (by decide +kernel) _), by decide +kernel, by decide +kernel,
    fun once => ?_⟩
  · refine disjoint firstSlot secondSlot (by decide +kernel) (by decide +kernel) (by decide) 0x510010
      ⟨?_, ?_⟩
    · rw [first]
      exact .here (by decide)
    · rw [second]
      exact .here (by decide)
  · exact absurd once.once (by decide +kernel)

end Kfs.Process
