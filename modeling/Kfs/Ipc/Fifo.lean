/-
**Messages arrive one by one and in order.**

A message queue is kept in three fields: the first message, the last one, and how many there are.
`Represents` says that they belong to one list of messages. Every send and every receive at the ends of a
connection keeps this, whatever `kmalloc` returns for a message, and the messages received at one end are
those sent at the other, in that order, each cut to the length of the receive: `queues_fifo`.
-/

import Kfs.Ipc.Streams

namespace Kfs.Ipc

/-- The queue of a socket is the list `l`. -/
structure Represents (s : System) (i : Slot) (l : List Nat) : Prop where
  queue : MsgQueue s i l
  count : (s.table i).msgCount = l.length

/-- The three fields say the same about whether a message waits. -/
def InStep (sock : Socket) : Prop :=
  (sock.msgHead = 0 ↔ sock.msgTail = 0) ∧ (sock.msgTail = 0 ↔ sock.msgCount = 0)

section Queue

variable {s : System} {i peer : Slot} {l rest : List Nat} {msg : Nat} {message : Message} {sockfd : Int}

theorem MsgQueue.head_zero_iff (queue : MsgQueue s i l) : (s.table i).msgHead = 0 ↔ l = [] := by
  constructor
  · intro none
    have threads := queue.threads
    rwa [none, link_zero, Threads.none_iff] at threads
  · rintro rfl
    by_contra waiting
    obtain ⟨rest, none, -⟩ := queue.pop waiting
    cases none

theorem MsgQueue.tail_zero_iff (queue : MsgQueue s i l) : (s.table i).msgTail = 0 ↔ l = [] := by
  refine ⟨queue.empty_of_tail, ?_⟩
  rintro rfl
  exact queue.tail

theorem Represents.count_zero_iff (here : Represents s i l) : (s.table i).msgCount = 0 ↔ l = [] := by
  rw [here.count, Int.natCast_eq_zero, List.length_eq_zero_iff]

theorem Represents.inStep (here : Represents s i l) : InStep (s.table i) :=
  ⟨here.queue.head_zero_iff.trans here.queue.tail_zero_iff.symm,
    here.queue.tail_zero_iff.trans here.count_zero_iff.symm⟩

/-- `socket_can_read` tells whether a message waits. -/
theorem Represents.canRead (here : Represents s i l) (mine : socketGetByFd s sockfd = some i) :
    socketCanRead s sockfd = 1 ↔ l ≠ [] := by
  have count := here.count
  simp only [socketCanRead, mine]
  rw [← List.length_pos_iff]
  split <;> omega

theorem deliver_count : ((s.deliver peer msg message).table i).msgCount =
    (s.table i).msgCount + if i = peer then 1 else 0 := by
  by_cases same : i = peer
  · subst same
    unfold System.deliver
    simp only [modify_table, if_true]
    split
    · rfl
    · rw [modify_table, if_pos rfl]
      rfl
  · rw [deliver_table_other same, if_neg same, add_zero]

theorem takeMessage_count : ((s.takeMessage i).table i).msgCount = (s.table i).msgCount - 1 := by
  unfold System.takeMessage
  rw [modify_table, if_pos rfl]

end Queue

/-! ### A connected pair, with what was sent and received -/

/-- What a receive delivers: the length asked for, the bytes, and where the message comes from. -/
structure Receipt where
  size : Nat
  bytes : List UInt8
  srcAddr : Address
  deriving DecidableEq, Repr

/-- The system, with the messages sent and received at each socket and those not yet freed. -/
structure Ledger where
  sys : System
  sent : Slot → List Letter
  got : Slot → List Receipt
  live : List Nat

/-- A send by the socket `a`. If it succeeds, it has sent the first bytes of the buffer. -/
def Ledger.send (d : Ledger) (a : Slot) (sockfd : Int) (buf : Option (List UInt8)) (msg : Nat) : Ledger :=
  let (s, reported) := socketSend d.sys sockfd buf msg
  if reported = -1 then { d with sys := s }
  else
    { d with
      sys := s
      sent := Function.update d.sent a
        (d.sent a ++ [⟨(buf.getD []).take socketMsgSize, (d.sys.table a).localAddr⟩])
      live := msg :: d.live }

/-- A receive by the socket `a`. If it returns a positive value, it has received a message. -/
def Ledger.recv (d : Ledger) (a : Slot) (sockfd : Int) (len : Option Nat) : Ledger :=
  let (s, returned, data) := socketRecv d.sys sockfd len
  if returned ≤ 0 then { d with sys := s }
  else
    { d with
      sys := s
      got := Function.update d.got a
        (d.got a ++ [⟨len.getD 0, data, (d.sys.messages (d.sys.table a).msgHead).srcAddr⟩])
      live := d.live.erase (d.sys.table a).msgHead }

/-- One call on one of the ends `x` and `y`. What `kmalloc` returns for a message, 0 included, is no
message still waiting. -/
inductive LedgerStep (x y : Slot) : Ledger → StreamOp → Ledger → Prop
  | send {d : Ledger} {a : Slot} {sockfd : Int} {buf : Option (List UInt8)} {msg : Nat}
      (mine : socketGetByFd d.sys sockfd = some a) (side : a = x ∨ a = y) (fresh : msg ∉ d.live) :
      LedgerStep x y d (.send sockfd buf msg) (d.send a sockfd buf msg)
  | recv {d : Ledger} {a : Slot} {sockfd : Int} {len : Option Nat}
      (mine : socketGetByFd d.sys sockfd = some a) (side : a = x ∨ a = y) :
      LedgerStep x y d (.recv sockfd len) (d.recv a sockfd len)

/-- The letters waiting. -/
def letters (s : System) (l : List Nat) : List Letter := l.map fun p => (s.messages p).letter

/-- At the start, the messages waiting at one end are those sent by the other. -/
def Ledger.start (s : System) (live : List Nat) (y : Slot) (atX atY : List Nat) : Ledger :=
  ⟨s, Function.update (fun _ => letters s atY) y (letters s atX), fun _ => [], live⟩

/-- A receipt of a letter. -/
def Receipt.Of (receipt : Receipt) (letter : Letter) : Prop :=
  receipt.bytes = letter.data.take receipt.size ∧ receipt.srcAddr = letter.srcAddr

/-- **The queue of `b` is well represented, and what `b` has received of what `a` has sent**: the `i`-th
receipt is that of the `i`-th letter. -/
structure InOrderOf (d : Ledger) (a b : Slot) : Prop where
  represented : ∃ l, Represents d.sys b l
  inStep : InStep (d.sys.table b)
  order : ∀ (i : Nat) (receipt : Receipt), (d.got b)[i]? = some receipt →
    ∃ letter, (d.sent a)[i]? = some letter ∧ receipt.Of letter

/-- The letters of `a` have been received by `b`, or wait there. -/
structure Posting (d : Ledger) (a b : Slot) (l : List Nat) : Prop where
  count : (d.sys.table b).msgCount = l.length
  letters : ∃ received, d.sent a = received ++ letters d.sys l ∧ List.Forall₂ Receipt.Of (d.got b) received

/-- Both directions. -/
structure Corresponding (d : Ledger) (x y : Slot) (atX atY : List Nat) : Prop where
  paired : Paired d.sys d.live x y atX atY
  out : Posting d x y atY
  back : Posting d y x atX

section Pair

variable {d d' : Ledger} {x y a b : Slot} {l atX atY live : List Nat} {sockfd : Int} {msg : Nat}
  {buf : Option (List UInt8)} {len : Option Nat} {op : StreamOp} {s : System}

theorem Corresponding.symm (here : Corresponding d x y atX atY) : Corresponding d y x atY atX :=
  ⟨here.paired.symm, here.back, here.out⟩

theorem Corresponding.inOrder (here : Corresponding d x y atX atY) : InOrderOf d x y := by
  have represents : Represents d.sys y atY := ⟨here.paired.queues.2, here.out.count⟩
  obtain ⟨received, sent, receipts⟩ := here.out.letters
  refine ⟨⟨atY, represents⟩, represents.inStep, fun i receipt found => ?_⟩
  obtain ⟨inside, rfl⟩ := List.getElem?_eq_some_iff.mp found
  have inside' : i < received.length := receipts.length_eq ▸ inside
  refine ⟨received[i], ?_, receipts.get inside inside'⟩
  rw [sent, List.getElem?_append_left inside', List.getElem?_eq_getElem inside']

theorem letters_congr {s' : System} (same : ∀ p ∈ l, (s'.messages p).letter = (s.messages p).letter) :
    letters s' l = letters s l :=
  List.map_congr_left same

theorem letters_snoc {p : Nat} : letters s (l ++ [p]) = letters s l ++ [(s.messages p).letter] := by
  rw [letters, List.map_append]
  rfl

/-- **A send by one end.** -/
theorem Corresponding.send (here : Corresponding d x y atX atY)
    (mine : socketGetByFd d.sys sockfd = some x) (fresh : msg ∉ d.live) :
    ∃ atY', Corresponding (d.send x sockfd buf msg) x y atX atY' := by
  rcases socketSend_cases d.sys sockfd buf msg with failed |
    ⟨i, peer, bytes, rfl, full, positive, found, linked, done⟩
  · have same : d.send x sockfd buf msg = d := by
      simp only [Ledger.send, failed, if_true]
    rw [same]
    exact ⟨atY, here⟩
  · cases mine.symm.trans found
    cases here.paired.peers.1.symm.trans linked
    have notTail := here.paired.tail_ne fresh positive
    obtain ⟨paired, old⟩ := here.paired.deliver ⟨bytes.take socketMsgSize, _, 0⟩ fresh positive
      (by simpa [socketMsgSize] using full) rfl
    have reported : ((bytes.take socketMsgSize).length : Int) ≠ -1 := by omega
    have sent : d.send x sockfd (some bytes) msg =
        ⟨d.sys.deliver y msg ⟨bytes.take socketMsgSize, (d.sys.table x).localAddr, 0⟩,
          Function.update d.sent x
            (d.sent x ++ [⟨bytes.take socketMsgSize, (d.sys.table x).localAddr⟩]),
          d.got, msg :: d.live⟩ := by
      simp only [Ledger.send, done, if_neg reported, Option.getD_some]
    rw [sent]
    obtain ⟨received, out, receipts⟩ := here.out.letters
    obtain ⟨received', back, receipts'⟩ := here.back.letters
    refine ⟨atY ++ [msg], paired, ⟨?_, received, ?_, receipts⟩, ⟨?_, received', ?_, receipts'⟩⟩
    · rw [deliver_count, if_pos rfl, here.out.count, List.length_append]
      rfl
    · show Function.update d.sent x _ x = received ++ letters _ (atY ++ [msg])
      rw [Function.update_self, out, letters_snoc, deliver_new notTail,
        letters_congr fun p member => old p (by simp [member]), List.append_assoc]
      rfl
    · rw [deliver_count, if_neg here.paired.apart, add_zero]
      exact here.back.count
    · show Function.update d.sent x _ y = received' ++ letters _ atX
      rw [Function.update_of_ne here.paired.apart.symm, back,
        letters_congr fun p member => old p (by simp [member])]

/-- **A receive by one end.** -/
theorem Corresponding.recv (here : Corresponding d x y atX atY)
    (mine : socketGetByFd d.sys sockfd = some x) :
    ∃ atX', Corresponding (d.recv x sockfd len) x y atX' atY := by
  have unchanged : ∀ returned : Int, returned ≤ 0 → socketRecv d.sys sockfd len = (d.sys, returned, []) →
      Corresponding (d.recv x sockfd len) x y atX atY := by
    intro returned none failed
    have same : d.recv x sockfd len = d := by
      simp only [Ledger.recv, failed, if_pos none]
    rw [same]
    exact here
  rcases socketRecv_cases d.sys sockfd len with failed | ⟨i, found, empty, failed⟩ |
    ⟨i, size, rfl, positive, found, waiting, done⟩
  · exact ⟨atX, unchanged _ (by decide) failed⟩
  · exact ⟨atX, unchanged _ le_rfl failed⟩
  · cases mine.symm.trans found
    obtain ⟨rest, rfl, paired⟩ := here.paired.take waiting
    have data := List.length_pos_iff.mpr (here.paired.full _ (List.mem_append_left _ List.mem_cons_self))
    have bytes : ¬ (((d.sys.messages (d.sys.table x).msgHead).data.take size).length : Int) ≤ 0 := by
      rw [List.length_take]
      omega
    have taken : d.recv x sockfd (some size) = ⟨d.sys.takeMessage x, d.sent,
        Function.update d.got x (d.got x ++ [⟨size,
          (d.sys.messages (d.sys.table x).msgHead).data.take size,
          (d.sys.messages (d.sys.table x).msgHead).srcAddr⟩]),
        d.live.erase (d.sys.table x).msgHead⟩ := by
      simp only [Ledger.recv, done, if_neg bytes, Option.getD_some]
    rw [taken]
    obtain ⟨received, out, receipts⟩ := here.out.letters
    obtain ⟨received', back, receipts'⟩ := here.back.letters
    refine ⟨rest, paired, ⟨?_, received, out, ?_⟩,
      ⟨?_, received' ++ [(d.sys.messages (d.sys.table x).msgHead).letter], ?_, ?_⟩⟩
    · rw [takeMessage_other here.paired.apart.symm]
      exact here.out.count
    · show List.Forall₂ _ (Function.update d.got x _ y) received
      rw [Function.update_of_ne here.paired.apart.symm]
      exact receipts
    · rw [takeMessage_count, here.back.count, List.length_cons]
      omega
    · rw [back, List.append_assoc]
      rfl
    · show List.Forall₂ _ (Function.update d.got x _ x) _
      rw [Function.update_self]
      exact List.rel_append receipts' (.cons ⟨rfl, rfl⟩ .nil)

/-- **Each call keeps the correspondence.** -/
theorem Corresponding.step (here : Corresponding d x y atX atY) (step : LedgerStep x y d op d') :
    ∃ atX' atY', Corresponding d' x y atX' atY' := by
  cases step with
  | send mine side fresh =>
      rcases side with rfl | rfl
      · obtain ⟨atY', after⟩ := here.send mine fresh
        exact ⟨atX, atY', after⟩
      · obtain ⟨atX', after⟩ := here.symm.send mine fresh
        exact ⟨atX', atY, after.symm⟩
  | recv mine side =>
      rcases side with rfl | rfl
      · obtain ⟨atX', after⟩ := here.recv mine
        exact ⟨atX', atY, after⟩
      · obtain ⟨atY', after⟩ := here.symm.recv mine
        exact ⟨atX, atY', after.symm⟩

/-- **The queues of a connected pair are first in, first out**, whatever waits there at the start. -/
theorem queues_fifo {ops : List StreamOp} (paired : Paired s live x y atX atY)
    (counts : (s.table x).msgCount = atX.length ∧ (s.table y).msgCount = atY.length)
    (run : Run (LedgerStep x y) (.start s live y atX atY) ops d) :
    InOrderOf d x y ∧ InOrderOf d y x := by
  have start : Corresponding (.start s live y atX atY) x y atX atY := by
    refine ⟨paired, ⟨counts.2, [], ?_, .nil⟩, ⟨counts.1, [], ?_, .nil⟩⟩
    · simp only [Ledger.start, Function.update_of_ne paired.apart, List.nil_append]
    · simp only [Ledger.start, Function.update_self, List.nil_append]
  obtain ⟨atX', atY', here⟩ := run.invariant (fun d => ∃ atX atY, Corresponding d x y atX atY)
    (fun _ _ _ ⟨_, _, here⟩ step => here.step step) ⟨atX, atY, start⟩
  exact ⟨here.inOrder, here.symm.inOrder⟩

/-- Run one call that the step relation allows. -/
def Ledger.exec (x y : Slot) (d : Ledger) : StreamOp → Outcome Ledger
  | .send sockfd buf msg =>
      match socketGetByFd d.sys sockfd with
      | none => .diverge
      | some a => if (a = x ∨ a = y) ∧ msg ∉ d.live then .ok (d.send a sockfd buf msg) else .diverge
  | .recv sockfd len =>
      match socketGetByFd d.sys sockfd with
      | none => .diverge
      | some a => if a = x ∨ a = y then .ok (d.recv a sockfd len) else .diverge

theorem LedgerStep.of_exec (done : d.exec x y op = .ok d') : LedgerStep x y d op d' := by
  cases op with
  | send sockfd buf msg =>
      simp only [Ledger.exec] at done
      split at done
      · cases done
      · rename_i a mine
        split at done
        · rename_i allowed
          cases done
          exact .send mine allowed.1 allowed.2
        · cases done
  | recv sockfd len =>
      simp only [Ledger.exec] at done
      split at done
      · cases done
      · rename_i a mine
        split at done
        · rename_i side
          cases done
          exact .recv mine side
        · cases done

end Pair

/-- Two sends one way, the second one after an allocation that fails, and two receives that cut. -/
def cutOps : List StreamOp :=
  [.send 1 (some [1, 2]) 4096, .send 1 (some [5]) 0, .send 1 (some [3]) 8192, .recv 2 (some 1),
    .recv 2 (some 8)]

def cutChat : Ledger :=
  (runAll (fun d op => d.exec 0 1 op) (.start connectedPair [] 1 [] []) cutOps).getD
    (.start connectedPair [] 1 [] [])

theorem queues_fifo_cut : Run (LedgerStep 0 1) (.start connectedPair [] 1 [] []) cutOps cutChat ∧
    (cutChat.got 1).map Receipt.bytes = [[1], [3]] ∧ InOrderOf cutChat 0 1 ∧ InOrderOf cutChat 1 0 := by
  have run : Run (LedgerStep 0 1) (.start connectedPair [] 1 [] []) cutOps cutChat :=
    (Run.of_runAll (Outcome.eq_ok_getD (by decide +kernel) _)).mono fun _ _ _ => .of_exec
  have paired : Paired connectedPair [] 0 1 [] [] :=
    ⟨by decide, ⟨rfl, rfl⟩, connectedPair_streams.empty, by simp, by simp, by simp⟩
  exact ⟨run, by decide +kernel, queues_fifo paired ⟨rfl, rfl⟩ run⟩

end Kfs.Ipc
