/-
**In which order signals are delivered.**

`process_signal_send` puts the new entry in front of the queue and `process_signal_process` takes entries
from the front, so what is pending for a process is delivered in the reverse of the order in which it was
sent. `Traffic` is the kernel with the signals sent to a process and its deliveries; the entries are in
memory, in blocks from `kmalloc` (`Enqueued`).

`signals_in_order`: the deliveries are the signals sent, in order, exactly in the runs in which every call
of `process_signal_process` finds signals that read the same from both ends. `signals_reversed`: two
different signals arrive in the wrong order.
-/

import Kfs.Heap.Runs
import Kfs.Process.Runs
import Kfs.Process.Signals

namespace Kfs.Process

open Kfs.Heap Kfs.Paging Memory

/-! ### A queue in memory -/

section Memory

variable {h h' : HeapState} {l : List Segment} {q : List Nat} {head entry fuel : Nat}
  {handlers : Nat → Nat}

/-- The block at `ptr` is in use and holds a queue entry. -/
def HoldsEntry (l : List Segment) (ptr : Nat) : Prop :=
  ∃ b ∈ l, b.free = false ∧ b.addr + 16 = ptr ∧ 24 ≤ b.size

/-- A queue of entries, each in a block of its own. -/
structure Enqueued (h : HeapState) (l : List Segment) (head : Nat) (q : List Nat) : Prop where
  heap : HeapInv h l
  chain : Threads (fun e => link (entryNext h.mem e)) (link head) q
  held : ∀ e ∈ q, HoldsEntry l e

theorem Enqueued.empty (heap : HeapInv h l) : Enqueued h l 0 [] :=
  ⟨heap, rfl, fun _ member => nomatch member⟩

/-- Entries keep what they hold when their bytes are left alone. -/
theorem entry_congr {m m' : Memory} {e : Nat} (same : ∀ x, e ≤ x → x < e + 8 → m' x = m x) :
    entryNext m' e = entryNext m e ∧ entrySignal m' e = entrySignal m e := by
  refine ⟨load32_congr fun x inside => ?_, load32_congr fun x inside => ?_⟩
  · rw [Set.mem_Ico] at inside
    exact same x (by omega) (by omega)
  · rw [Set.mem_Ico] at inside
    exact same x (by omega) (by omega)

theorem Enqueued.congr (waiting : Enqueued h l head q) {l' : List Segment} (heap : HeapInv h' l')
    (held : ∀ e ∈ q, HoldsEntry l' e)
    (same : ∀ e ∈ q, ∀ x, e ≤ x → x < e + 8 → h'.mem x = h.mem x) :
    Enqueued h' l' head q ∧ q.map (entrySignal h'.mem) = q.map (entrySignal h.mem) :=
  ⟨⟨heap, waiting.chain.congr fun e member => by rw [(entry_congr (same e member)).1], held⟩,
    List.map_congr_left fun e member => (entry_congr (same e member)).2⟩

theorem Enqueued.length_lt (waiting : Enqueued h l head q) : q.length < walkFuel := by
  have inside : q ⊆ l.map fun b => b.addr + 16 := fun e member => by
    obtain ⟨b, inList, -, rfl, -⟩ := waiting.held e member
    exact List.mem_map_of_mem inList
  have short := (List.subperm_of_subset waiting.chain.nodup inside).length_le
  rw [List.length_map] at short
  exact short.trans_lt waiting.heap.length_lt

/-- The other entries in memory stay, with what they hold. -/
def KeepsEntries (others : Nat → Prop) (l l' : List Segment) (m m' : Memory) : Prop :=
  ∀ e, HoldsEntry l e → others e → HoldsEntry l' e ∧ ∀ x, e ≤ x → x < e + 8 → m' x = m x

/-- **An entry from `kmalloc` is written**: it is a new one, and the others stay. -/
theorem newEntry (heap : HeapInv h l) {signal : Nat} (small : signal < 2 ^ 32) (wide : head < 2 ^ 32)
    (done : kmalloc h entrySize = .ok (h', entry)) (found : entry ≠ 0) :
    ∃ l', HeapInv { h' with mem := (h'.mem.store32 entry signal).store32 (entry + 4) head } l' ∧
      HoldsEntry l' entry ∧ ¬ HoldsEntry l entry ∧ entry < 2 ^ 32 ∧
      entryNext ((h'.mem.store32 entry signal).store32 (entry + 4) head) entry = head ∧
      entrySignal ((h'.mem.store32 entry signal).store32 (entry + 4) head) entry = signal ∧
      KeepsEntries (fun _ => True) l l' h.mem ((h'.mem.store32 entry signal).store32 (entry + 4) head) := by
  have fits : NoWrap entrySize := by decide
  rcases kmalloc_cases heap fits done with ⟨none, -⟩ | ⟨front, s, back, rfl, fit, -, rfl, rfl, next⟩
  · exact absurd none found
  · obtain ⟨free, room⟩ := fits_iff.mp fit
    obtain ⟨size, least, most, carved⟩ := @carve_used _ splitSlack _ room
    have total : totalSize entrySize = 24 := by decide
    have member : s ∈ front ++ s :: back := by simp
    have inside := heap.bounds member
    have taken : (⟨s.addr, size, false⟩ : Segment) ∈
        front ++ carve (totalSize entrySize) splitSlack s ++ back := by simp [carved]
    have stored : Set.EqOn
        (((afterTake h entrySize s.addr).mem.store32 (s.addr + 16) signal).store32 (s.addr + 16 + 4) head)
        (afterTake h entrySize s.addr).mem {x | x < s.addr + 16 ∨ s.addr + 24 ≤ x} := by
      refine ((store32_eqOn _ _ _).mono fun x outside => ?_).trans
        ((store32_eqOn _ _ _).mono fun x outside => ?_)
      · simp only [Set.mem_ofPred_eq] at outside ⊢
        omega
      · simp only [Set.mem_ofPred_eq] at outside ⊢
        omega
    have written := next.write (m :=
      ((afterTake h entrySize s.addr).mem.store32 (s.addr + 16) signal).store32 (s.addr + 16 + 4) head)
      (stored.mono fun x outside => by
        have apart := outside _ taken rfl
        simp only [Set.mem_ofPred_eq] at apart ⊢
        omega)
    refine ⟨_, written, ⟨_, taken, rfl, rfl, total ▸ least⟩, ?_, ?_, ?_, ?_, ?_⟩
    · rintro ⟨b, inList, used, here, -⟩
      have equal := heap.tiles.eq_of_addr inList member (by omega)
      rw [← equal, used] at free
      cases free
    · simp only [heapEnd, heapStart, heapSize] at inside
      omega
    · rw [entryNext, load32_store32, Nat.mod_eq_of_lt wide]
    · rw [entrySignal, load32_store32_of_disjoint _ _ (by omega), load32_store32, Nat.mod_eq_of_lt small]
    · rintro e ⟨b, inList, used, rfl, big⟩ -
      -- an entry lies in another block than the one taken
      have apart := heap.tiles.disjoint member inList fun same => by
        have equal := heap.tiles.eq_of_addr member inList same
        rw [equal, used] at free
        cases free
      refine ⟨⟨b, (mem_carved_used free used).mpr (.inl inList), used, rfl, big⟩, fun x low high => ?_⟩
      have away : x < s.addr ∨ s.addr + s.size ≤ x := by omega
      refine (stored ?_).trans (afterTake_eqOn heap member (legal_totalSize fits) fit ?_)
      · simp only [Set.mem_ofPred_eq]
        omega
      · simp only [Set.mem_ofPred_eq, Segment.Covers]
        omega

/-- **It is put in front of the queue.** -/
theorem Enqueued.push (waiting : Enqueued h l head q) {signal : Nat} (small : signal < 2 ^ 32)
    (wide : head < 2 ^ 32) (done : kmalloc h entrySize = .ok (h', entry)) (found : entry ≠ 0) :
    ∃ l', Enqueued { h' with mem := (h'.mem.store32 entry signal).store32 (entry + 4) head } l' entry
        (entry :: q) ∧
      (entry :: q).map (entrySignal ((h'.mem.store32 entry signal).store32 (entry + 4) head)) =
        signal :: q.map (entrySignal h.mem) ∧ entry < 2 ^ 32 := by
  obtain ⟨l', heap, new, -, small', next, first, keeps⟩ := newEntry waiting.heap small wide done found
  obtain ⟨kept, signals⟩ := waiting.congr heap
    (fun e member => (keeps e (waiting.held e member) trivial).1)
    (fun e member => (keeps e (waiting.held e member) trivial).2)
  refine ⟨l', ⟨heap, ⟨Mail.link_eq_some.mpr ⟨rfl, found⟩, ?_⟩, fun e member => ?_⟩, ?_, small'⟩
  · show Threads _ (link (entryNext _ entry)) q
    rw [next]
    exact kept.chain
  · rcases List.mem_cons.mp member with rfl | member
    · exact new
    · exact kept.held e member
  · rw [List.map_cons, first, signals]

/-- **An entry is freed**, and the others stay. -/
theorem freeEntry (heap : HeapInv h l) (held : HoldsEntry l entry) :
    ∃ h' l', kfree h entry = .ok h' ∧ HeapInv h' l' ∧ KeepsEntries (· ≠ entry) l l' h.mem h'.mem := by
  obtain ⟨b, inList, used, rfl, -⟩ := held
  obtain ⟨m, freed, next, frame⟩ := kfree_used heap inList used
  refine ⟨_, _, freed, next, ?_⟩
  rintro e ⟨t, inside, usedT, rfl, big⟩ other
  have stays : t ∈ release b.addr l := (mem_release_used usedT).mpr ⟨inside, fun same => other (by rw [same])⟩
  refine ⟨⟨t, stays, usedT, rfl, big⟩, fun x low high => frame fun u inU freeU covers => ?_⟩
  have apart := next.tiles.disjoint stays inU fun same => by
    have equal := next.tiles.eq_of_addr stays inU same
    rw [equal, freeU] at usedT
    cases usedT
  simp only [Segment.Covers] at covers
  omega

/-- **The loop takes the entries from the front**, and returns; the entries of other queues stay. -/
theorem Enqueued.deliver (waiting : Enqueued h l head q) (enough : q.length < fuel) :
    ∃ h' l', signalLoop handlers fuel h head =
        .ok (h', (q.map (entrySignal h.mem)).map fun signal => ⟨signal, handlers signal⟩) ∧
      HeapInv h' l' ∧ KeepsEntries (· ∉ q) l l' h.mem h'.mem := by
  induction q generalizing h l head fuel with
  | nil =>
      have none : head = 0 := by
        by_contra some
        have chain := waiting.chain
        rw [Threads.nil_iff, link, if_neg some] at chain
        cases chain
      obtain ⟨fuel, rfl⟩ := Nat.exists_eq_succ_of_ne_zero (Nat.ne_of_gt enough)
      refine ⟨h, l, ?_, waiting.heap, fun e held _ => ⟨held, fun _ _ _ => rfl⟩⟩
      rw [signalLoop, if_pos none]
      rfl
  | cons e q ih =>
      obtain ⟨first, rest⟩ := waiting.chain
      obtain ⟨rfl, nonzero⟩ := Mail.link_eq_some.mp first
      obtain ⟨fuel, rfl⟩ := Nat.exists_eq_succ_of_ne_zero (Nat.ne_of_gt (Nat.zero_lt_of_lt enough))
      obtain ⟨h₁, l₁, freed, heap, keeps⟩ := freeEntry waiting.heap (waiting.held _ List.mem_cons_self)
      have distinct := (List.nodup_cons.mp waiting.chain.nodup).1
      have stays : ∀ e ∈ q, HoldsEntry l₁ e ∧ ∀ x, e ≤ x → x < e + 8 → h₁.mem x = h.mem x :=
        fun e member => keeps e (waiting.held e (List.mem_cons_of_mem _ member)) fun same =>
          distinct (same ▸ member)
      obtain ⟨kept, signals⟩ := @Enqueued.congr h h₁ l q _
        ⟨waiting.heap, rest, fun e member => waiting.held e (List.mem_cons_of_mem _ member)⟩ _ heap
        (fun e member => (stays e member).1) fun e member => (stays e member).2
      obtain ⟨h', l', loop, last, later⟩ := ih kept (by simpa using enough)
      refine ⟨h', l', ?_, last, fun e held other => ?_⟩
      · rw [signalLoop, if_neg nonzero]
        simp only
        rw [freed, Outcome.ok_bind, loop, signals]
        rfl
      · obtain ⟨first, others⟩ := not_or.mp (mt List.mem_cons.mpr other)
        obtain ⟨still, before⟩ := keeps e held first
        obtain ⟨held', after⟩ := later e still others
        exact ⟨held', fun x low high => (after x low high).trans (before x low high)⟩

end Memory

/-! ### Sends and deliveries -/

/-- The calls that change the queue of a process. -/
inductive SignalOp where
  | send (signal : Int)
  | process
  deriving DecidableEq, Repr

/-- The kernel, the signals sent to a process that were queued, and its deliveries, in order. -/
structure Traffic where
  kernel : Kernel
  sent : List Nat
  delivered : List Delivery

namespace Traffic

/-- Make one call for the process in a slot. -/
def exec (p : Slot) (t : Traffic) : SignalOp → Outcome Traffic
  | .send signal => do
      let (s, result) ← processSignalSend t.kernel (some p) signal
      return ⟨s, if result = 0 then t.sent ++ [signal.toNat] else t.sent, t.delivered⟩
  | .process => do
      let (s, delivered) ← processSignalProcess t.kernel (some p)
      return ⟨s, t.sent, t.delivered ++ delivered⟩

/-- One call that returns. -/
def Step (p : Slot) (t : Traffic) (op : SignalOp) (t' : Traffic) : Prop := t.exec p op = .ok t'

/-- The signals that are queued. -/
def pending (t : Traffic) : List Nat := t.sent.drop t.delivered.length

/-- What the process gets when these signals are delivered in order. -/
def deliveries (handlers : Nat → Nat) (signals : List Nat) : List Delivery :=
  signals.map fun signal => ⟨signal, handlers signal⟩

/-- The deliveries are those of the signals sent, from the first one on. -/
def InOrder (handlers : Nat → Nat) (t : Traffic) : Prop := t.delivered <+: deliveries handlers t.sent

/-- Signals that are to be delivered read the same from both ends. -/
def Mirrored (t : Traffic) (op : SignalOp) : Prop := op = .process → t.pending.reverse = t.pending

instance (t : Traffic) (op : SignalOp) : Decidable (t.Mirrored op) :=
  inferInstanceAs (Decidable (_ → _))

/-- The queue in memory holds what is pending, the last signal first. -/
structure Tracked (p : Slot) (handlers : Nat → Nat) (t : Traffic) : Prop where
  handlers : (t.kernel.table p).signalHandlers = handlers
  few : t.delivered.length ≤ t.sent.length
  waiting : ∃ l q, Enqueued t.kernel.paging.heap l (t.kernel.table p).signalQueue q ∧
    q.map (entrySignal t.kernel.paging.heap.mem) = t.pending.reverse
  wide : (t.kernel.table p).signalQueue < 2 ^ 32

section Calls

variable {p : Slot} {handlers : Nat → Nat} {t t' : Traffic} {signal : Int}

theorem deliveries_injective (handlers : Nat → Nat) : Function.Injective (deliveries handlers) :=
  List.map_injective_iff.mpr fun _ _ same => (Delivery.mk.inj same).1

@[simp] theorem length_deliveries (handlers : Nat → Nat) (signals : List Nat) :
    (deliveries handlers signals).length = signals.length :=
  List.length_map _

/-- **A send** queues one more signal, or none. -/
theorem Tracked.send (tracked : t.Tracked p handlers) (signal : Int) :
    ∃ t', t.exec p (.send signal) = .ok t' ∧ t'.Tracked p handlers ∧ t'.delivered = t.delivered ∧
      (t'.sent = t.sent ∨ t'.sent = t.sent ++ [signal.toNat]) := by
  obtain ⟨l, q, waiting, signals⟩ := tracked.waiting
  by_cases range : signal < 0 ∨ 32 ≤ signal
  · refine ⟨t, ?_, tracked, rfl, .inl rfl⟩
    simp [exec, processSignalSend, range]
  · obtain ⟨⟨h, entry⟩, done⟩ := kmalloc_returns waiting.heap entrySize
    by_cases none : entry = 0
    · subst none
      obtain ⟨rfl, -⟩ := (kmalloc_null waiting.heap (by decide)).mp done
      refine ⟨⟨t.kernel, t.sent, t.delivered⟩, ?_, tracked, rfl, .inl rfl⟩
      simp only [exec, processSignalSend, if_neg range, done, Outcome.ok_bind]
      rfl
    · have small : signal.toNat < 2 ^ 32 := by omega
      obtain ⟨l', pushed, both, wide⟩ := waiting.push small tracked.wide done none
      refine ⟨⟨((t.kernel.withHeap h).withPaging ((t.kernel.withHeap h).paging.write
          ((h.mem.store32 entry signal.toNat).store32 (entry + 4) (t.kernel.table p).signalQueue))).modify p
          fun proc => { proc with signalQueue := entry }, t.sent ++ [signal.toNat], t.delivered⟩,
        ?_, ⟨?_, ?_, ⟨l', entry :: q, ?_, ?_⟩, ?_⟩, rfl, .inr rfl⟩
      · simp only [exec, processSignalSend, if_neg range, done, Outcome.ok_bind, if_neg none]
        rfl
      · simpa using tracked.handlers
      · simpa using tracked.few.trans (Nat.le_succ _)
      · rw [Kernel.modify_self]
        exact pushed
      · have more : (t.sent ++ [signal.toNat]).drop t.delivered.length =
            t.pending ++ [signal.toNat] := List.drop_append_of_le_length tracked.few
        rw [pending, more, List.reverse_append, ← signals]
        exact both
      · simpa using wide

/-- **A call of `process_signal_process`** delivers what is pending, the last signal first. -/
theorem Tracked.process (tracked : t.Tracked p handlers) :
    ∃ t', t.exec p .process = .ok t' ∧ t'.Tracked p handlers ∧ t'.sent = t.sent ∧
      t'.delivered = t.delivered ++ deliveries handlers t.pending.reverse := by
  obtain ⟨l, q, waiting, signals⟩ := tracked.waiting
  obtain ⟨h, l', loop, heap, -⟩ := @Enqueued.deliver _ _ _ _ _ handlers waiting waiting.length_lt
  have count := congrArg List.length signals
  rw [List.length_map, List.length_reverse, pending, List.length_drop] at count
  refine ⟨⟨(t.kernel.withHeap h).modify p fun proc => { proc with signalQueue := 0 }, t.sent,
    t.delivered ++ deliveries handlers t.pending.reverse⟩, ?_, ⟨?_, ?_, ⟨l', [], ?_, ?_⟩, ?_⟩, rfl, rfl⟩
  · simp only [exec, processSignalProcess, tracked.handlers, loop, Outcome.ok_bind, signals]
    rfl
  · simpa using tracked.handlers
  · have few := tracked.few
    simp only [List.length_append, length_deliveries, List.length_reverse, pending, List.length_drop]
    omega
  · simpa using Enqueued.empty heap
  · have few := tracked.few
    simp [pending, few]
  · simp

/-- **Every call returns.** -/
theorem Tracked.step (tracked : t.Tracked p handlers) (op : SignalOp) :
    ∃ t', Step p t op t' ∧ t'.Tracked p handlers := by
  cases op with
  | send signal =>
      obtain ⟨t', done, tracked', -⟩ := tracked.send signal
      exact ⟨t', done, tracked'⟩
  | process =>
      obtain ⟨t', done, tracked', -⟩ := tracked.process
      exact ⟨t', done, tracked'⟩

/-- **One call keeps the order exactly when it finds a mirrored queue.** -/
theorem Tracked.inOrder_iff (tracked : t.Tracked p handlers) {op : SignalOp} (step : Step p t op t') :
    t'.Tracked p handlers ∧ (t'.InOrder handlers ↔ t.InOrder handlers ∧ t.Mirrored op) := by
  cases op with
  | send signal =>
      obtain ⟨u, done, tracked', delivered, sent⟩ := tracked.send signal
      obtain rfl := Outcome.ok.inj (done.symm.trans step)
      refine ⟨tracked', ?_⟩
      have free : t.Mirrored (.send signal) := fun same => nomatch same
      rw [InOrder, InOrder, delivered, and_iff_left free]
      rcases sent with same | more
      · rw [same]
      · rw [more, deliveries, List.map_append]
        refine ⟨fun order => ?_, fun order => order.trans (List.prefix_append _ _)⟩
        refine List.prefix_of_prefix_length_le order (List.prefix_append _ _) ?_
        exact tracked.few.trans_eq (length_deliveries handlers t.sent).symm
  | process =>
      obtain ⟨u, done, tracked', sent, delivered⟩ := tracked.process
      obtain rfl := Outcome.ok.inj (done.symm.trans step)
      refine ⟨tracked', ?_⟩
      have drawn : deliveries handlers t.sent = (deliveries handlers t.sent).take t.delivered.length ++
          deliveries handlers t.pending := by
        rw [pending, deliveries, deliveries, List.map_drop]
        exact (List.take_append_drop _ _).symm
      have same : (t.delivered ++ deliveries handlers t.pending.reverse).length =
          (deliveries handlers t.sent).length := by
        have few := tracked.few
        simp only [List.length_append, length_deliveries, List.length_reverse, pending, List.length_drop]
        omega
      have head : t.delivered.length = ((deliveries handlers t.sent).take t.delivered.length).length := by
        have few := tracked.few
        rw [List.length_take, length_deliveries]
        omega
      have mirrored : t.Mirrored .process ↔ t.pending.reverse = t.pending := ⟨fun m => m rfl, fun m _ => m⟩
      rw [InOrder, InOrder, delivered, sent, mirrored, @List.prefix_iff_eq_take _ t.delivered]
      constructor
      · intro order
        have whole := order.eq_of_length same
        rw [drawn] at whole
        obtain ⟨first, second⟩ := List.append_inj whole head
        exact ⟨first, deliveries_injective handlers second⟩
      · rintro ⟨first, second⟩
        rw [second, drawn, ← first]

theorem Step.unique {op : SignalOp} {u : Traffic} (step : Step p t op t') (again : Step p t op u) :
    t' = u :=
  Outcome.ok.inj (step.symm.trans again)

/-- **Over a run.** -/
theorem Tracked.run {ops : List SignalOp} (tracked : t.Tracked p handlers) (run : Run (Step p) t ops t') :
    t'.Tracked p handlers ∧
      (t'.InOrder handlers ↔ t.InOrder handlers ∧ Run (Guarded Mirrored (Step p)) t ops t') := by
  induction run with
  | nil t => exact ⟨tracked, (and_iff_left (.nil t)).symm⟩
  | @cons t u v op ops step rest ih =>
      obtain ⟨after, first⟩ := tracked.inOrder_iff step
      obtain ⟨last, later⟩ := ih after
      refine ⟨last, ?_⟩
      rw [later, first]
      constructor
      · rintro ⟨⟨order, mirrored⟩, run⟩
        exact ⟨order, .cons ⟨mirrored, step⟩ run⟩
      · rintro ⟨order, run⟩
        cases run with
        | cons here run =>
            rw [← step.unique here.2] at run
            exact ⟨⟨order, here.1⟩, run⟩

end Calls

/-- Nothing sent yet. -/
def start (s : Kernel) : Traffic := ⟨s, [], []⟩

theorem Tracked.start {s : Kernel} {p : Slot} {live : List Nat}
    (reach : Reachable ⟨s.paging.heap, live⟩) (empty : (s.table p).signalQueue = 0) :
    (start s).Tracked p (s.table p).signalHandlers := by
  obtain ⟨l, inv⟩ := reach.inv
  refine ⟨rfl, le_rfl, ⟨l, [], ?_, rfl⟩, ?_⟩
  · show Enqueued _ _ (s.table p).signalQueue []
    rw [empty]
    exact .empty inv.heap
  · show (s.table p).signalQueue < 2 ^ 32
    rw [empty]
    decide

end Traffic

/-- **Signals arrive in the order in which they were sent exactly when each delivery finds them mirrored**,
in every run of sends and deliveries for a process whose queue is empty at first; every such run exists. -/
theorem signals_in_order {s : Kernel} {p : Slot} {live : List Nat}
    (reach : Reachable ⟨s.paging.heap, live⟩) (empty : (s.table p).signalQueue = 0) :
    (∀ ops, ∃ t, Run (Traffic.Step p) (.start s) ops t) ∧
    ∀ ops t, Run (Traffic.Step p) (.start s) ops t →
      (t.InOrder (s.table p).signalHandlers ↔
        Run (Guarded Traffic.Mirrored (Traffic.Step p)) (.start s) ops t) ∧
      ∀ u, Traffic.Step p t .process u →
        (u.delivered = Traffic.deliveries (s.table p).signalHandlers u.sent ↔
          Run (Guarded Traffic.Mirrored (Traffic.Step p)) (.start s) (ops ++ [.process]) u) := by
  have tracked := Traffic.Tracked.start reach empty
  have nothing : (Traffic.start s).InOrder (s.table p).signalHandlers := List.nil_prefix
  refine ⟨fun ops => ?_, fun ops t run => ⟨?_, fun u step => ?_⟩⟩
  · have returns : ∀ {t : Traffic}, t.Tracked p (s.table p).signalHandlers →
        ∃ u, Run (Traffic.Step p) t ops u := by
      induction ops with
      | nil => exact fun {t} _ => ⟨t, .nil t⟩
      | cons op ops ih =>
          intro t tracked
          obtain ⟨t', step, tracked'⟩ := tracked.step op
          obtain ⟨u, rest⟩ := ih tracked'
          exact ⟨u, .cons step rest⟩
    exact returns tracked
  · rw [(tracked.run run).2, and_iff_right nothing]
  · obtain ⟨last, order⟩ := tracked.run (run.append (.cons step (.nil u)))
    rw [and_iff_right nothing] at order
    rw [← order]
    obtain ⟨u', done, -, sent, delivered⟩ := (tracked.run run).1.process
    obtain rfl := Outcome.ok.inj (done.symm.trans step)
    have few := (tracked.run run).1.few
    refine ⟨fun same => by rw [Traffic.InOrder, same], fun order => order.eq_of_length ?_⟩
    rw [delivered, sent, List.length_append, Traffic.length_deliveries, Traffic.length_deliveries,
      List.length_reverse, Traffic.pending, List.length_drop]
    omega

/-- Two signals are sent to a process and then delivered. -/
def twoSignals : Traffic :=
  (runAll (Traffic.exec firstSlot) (.start freshKernel) [.send 1, .send 2, .process]).getD
    (.start freshKernel)

theorem twoSignals_run :
    Run (Traffic.Step firstSlot) (.start freshKernel) [.send 1, .send 2, .process] twoSignals :=
  Run.of_runAll (Outcome.eq_ok_getD (by decide +kernel) _)

theorem Traffic.InOrder.signals {handlers : Nat → Nat} {t : Traffic} (order : t.InOrder handlers) :
    t.delivered.map Delivery.signal <+: t.sent := by
  have prefixes := order.map Delivery.signal
  rwa [deliveries, List.map_map, show Delivery.signal ∘ (fun signal => ⟨signal, handlers signal⟩) = id
    from rfl, List.map_id] at prefixes

theorem signals_reversed :
    Run (Traffic.Step firstSlot) (.start freshKernel) [.send 1, .send 2, .process] twoSignals ∧
      twoSignals.sent = [1, 2] ∧
      ¬ twoSignals.InOrder (freshKernel.table firstSlot).signalHandlers := by
  refine ⟨twoSignals_run, by decide +kernel, fun order => ?_⟩
  have wrong := order.signals
  rw [show twoSignals.delivered.map Delivery.signal = [2, 1] by decide +kernel,
    show twoSignals.sent = [1, 2] by decide +kernel] at wrong
  exact absurd wrong (by decide)

/-- The same signal is sent twice and then delivered. -/
def sameSignals : Traffic :=
  (runAll (guardedExec Traffic.Mirrored (Traffic.exec firstSlot)) (.start freshKernel)
    [.send 1, .send 1, .process]).getD (.start freshKernel)

theorem signals_in_order_same :
    sameSignals.delivered.length = 2 ∧
      sameSignals.InOrder (freshKernel.table firstSlot).signalHandlers := by
  have guarded : Run (Guarded Traffic.Mirrored (Traffic.Step firstSlot)) (.start freshKernel)
      [.send 1, .send 1, .process] sameSignals :=
    Run.of_guardedExec (Outcome.eq_ok_getD (by decide +kernel) _)
  have reach : Reachable ⟨freshKernel.paging.heap, []⟩ := ⟨_, [], .nil _⟩
  exact ⟨by decide +kernel,
    ((signals_in_order reach rfl).2 _ _ (guarded.mono fun _ _ _ step => step.2)).1.mpr guarded⟩

end Kfs.Process
