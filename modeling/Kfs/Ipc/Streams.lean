/-
**Byte streams.**

The messages waiting at a socket are a list through their `next` fields (`MsgQueue`). Along a connected
pair, what one end has sent is what the other has received followed by the bytes of the messages waiting
there (`Carrying`). `stream_whole`: as long as no receive is shorter than the message it takes, the bytes
received are a prefix of the bytes sent, and all of them when a receive returns 0. A shorter receive drops
the rest of the message (`recv_drops`).
-/

import Kfs.Base.Links
import Kfs.Ipc.Queues

namespace Kfs.Ipc

/-- A pointer to a message, 0 for NULL. -/
def link (p : Nat) : Option Nat := if p = 0 then none else some p

/-- The message behind another one. -/
def nextMessage (s : System) (p : Nat) : Option Nat := link (s.messages p).next

/-- The messages waiting at a socket, first to last. -/
structure MsgQueue (s : System) (i : Slot) (l : List Nat) : Prop where
  threads : Threads (nextMessage s) (link (s.table i).msgHead) l
  tail : (s.table i).msgTail = l.getLast?.getD 0

/-- What a message says: its bytes and where they come from. -/
structure Letter where
  data : List UInt8
  srcAddr : Address
  deriving DecidableEq, Repr

def Message.letter (message : Message) : Letter := ⟨message.data, message.srcAddr⟩

/-- Their bytes. -/
def queuedBytes (s : System) (l : List Nat) : List UInt8 := l.flatMap fun p => (s.messages p).data

/-- The end of `socket_send`: the message goes to the end of the peer's queue. -/
def System.deliver (s : System) (peer : Slot) (msg : Nat) (message : Message) : System :=
  let s := s.modifyMessage msg fun _ => message
  let tail := (s.table peer).msgTail
  let s :=
    if tail ≠ 0 then s.modifyMessage tail fun last => { last with next := msg }
    else s.modify peer fun sock => { sock with msgHead := msg }
  s.modify peer fun sock => { sock with msgTail := msg, msgCount := sock.msgCount + 1 }

/-- What `socket_recv` does to the queue. -/
def System.takeMessage (s : System) (i : Slot) : System :=
  let msg := s.messages (s.table i).msgHead
  s.modify i fun sock =>
    { sock with
      msgHead := msg.next
      msgTail := if msg.next = 0 then 0 else sock.msgTail
      msgCount := sock.msgCount - 1 }

section Queue

variable {s s' : System} {i j peer : Slot} {l : List Nat} {msg p : Nat} {message : Message} {sockfd : Int}

@[simp] theorem link_zero : link 0 = none := rfl

theorem link_pos (positive : p ≠ 0) : link p = some p := if_neg positive

/-- **What `socket_send` does**: fail and change nothing, or deliver the first bytes of the buffer. -/
theorem socketSend_cases (s : System) (sockfd : Int) (buf : Option (List UInt8)) (msg : Nat) :
    socketSend s sockfd buf msg = (s, -1) ∨
    ∃ i peer bytes, buf = some bytes ∧ bytes ≠ [] ∧ msg ≠ 0 ∧ socketGetByFd s sockfd = some i ∧
      (s.table i).peer = some peer ∧ socketSend s sockfd buf msg =
        (s.deliver peer msg ⟨bytes.take socketMsgSize, (s.table i).localAddr, 0⟩,
          ((bytes.take socketMsgSize).length : Int)) := by
  cases found : socketGetByFd s sockfd with
  | none => exact .inl (by simp only [socketSend, found])
  | some i =>
      cases buf with
      | none => exact .inl (by simp only [socketSend, found])
      | some bytes =>
          by_cases empty : bytes.length = 0
          · exact .inl (by simp only [socketSend, found, if_pos empty])
          · by_cases connected : (s.table i).state = .connected
            · cases linked : (s.table i).peer with
              | none =>
                  exact .inl (by
                    simp only [socketSend, found, if_neg empty, connected, ne_eq, not_true_eq_false,
                      if_false, linked])
              | some peer =>
                  by_cases null : msg = 0
                  · exact .inl (by
                      simp only [socketSend, found, if_neg empty, connected, ne_eq, not_true_eq_false,
                        if_false, linked, if_pos null])
                  · refine .inr ⟨i, peer, bytes, rfl, ?_, null, rfl, linked, ?_⟩
                    · rintro rfl
                      exact empty rfl
                    · simp only [socketSend, found, if_neg empty, connected, ne_eq, not_true_eq_false,
                        if_false, linked, if_neg null]
                      rfl
            · exact .inl (by simp only [socketSend, found, if_neg empty, ne_eq, connected,
                not_false_eq_true, if_true])

/-- **What `socket_recv` does**: fail, find nothing, or take the first message. -/
theorem socketRecv_cases (s : System) (sockfd : Int) (len : Option Nat) :
    socketRecv s sockfd len = (s, -1, []) ∨
    (∃ i, socketGetByFd s sockfd = some i ∧ (s.table i).msgHead = 0 ∧
      socketRecv s sockfd len = (s, 0, [])) ∨
    ∃ i size, len = some size ∧ size ≠ 0 ∧ socketGetByFd s sockfd = some i ∧ (s.table i).msgHead ≠ 0 ∧
      socketRecv s sockfd len = (s.takeMessage i,
        (((s.messages (s.table i).msgHead).data.take size).length : Int),
        (s.messages (s.table i).msgHead).data.take size) := by
  cases found : socketGetByFd s sockfd with
  | none => exact .inl (by simp only [socketRecv, found])
  | some i =>
      cases len with
      | none => exact .inl (by simp only [socketRecv, found])
      | some size =>
          by_cases empty : size = 0
          · exact .inl (by simp only [socketRecv, found, if_pos empty])
          · by_cases none : (s.table i).msgHead = 0
            · exact .inr (.inl ⟨i, rfl, none, by
                simp only [socketRecv, found, if_neg empty, if_pos none]⟩)
            · refine .inr (.inr ⟨i, size, rfl, empty, rfl, none, ?_⟩)
              simp only [socketRecv, found, if_neg empty, if_neg none]
              rfl

/-! ### The messages of a queue -/

theorem threads_pos (threads : Threads (nextMessage s) (link p) l) : ∀ q ∈ l, q ≠ 0 := by
  induction l generalizing p with
  | nil => exact fun q member => by cases member
  | cons a l ih =>
      intro q member
      rcases List.mem_cons.mp member with rfl | later
      · rintro rfl
        have head := threads.1
        unfold link at head
        split at head
        · cases head
        · rename_i positive
          exact positive (Option.some.inj head)
      · exact ih threads.2 q later

theorem MsgQueue.pos (queue : MsgQueue s i l) : ∀ q ∈ l, q ≠ 0 := threads_pos queue.threads

/-- **What leaves the messages and the socket alone** keeps the queue. -/
theorem MsgQueue.congr (queue : MsgQueue s i l) (head : (s'.table i).msgHead = (s.table i).msgHead)
    (tail : (s'.table i).msgTail = (s.table i).msgTail)
    (same : ∀ q ∈ l, (s'.messages q).next = (s.messages q).next) : MsgQueue s' i l := by
  refine ⟨?_, tail.trans queue.tail⟩
  rw [head]
  exact queue.threads.congr fun q member => congrArg link (same q member)

theorem queuedBytes_congr (same : ∀ q ∈ l, (s'.messages q).data = (s.messages q).data) :
    queuedBytes s' l = queuedBytes s l :=
  List.flatMap_congr fun q member => same q member

theorem queuedBytes_snoc : queuedBytes s (l ++ [p]) = queuedBytes s l ++ (s.messages p).data := by
  rw [queuedBytes, List.flatMap_append, List.flatMap_singleton]
  rfl

@[simp] theorem deliver_table_other (other : j ≠ peer) : (s.deliver peer msg message).table j = s.table j := by
  unfold System.deliver
  simp only
  rw [modify_table, if_neg other]
  split
  · rfl
  · rw [modify_table, if_neg other]
    rfl

theorem deliver_messages : (s.deliver peer msg message).messages =
    if (s.table peer).msgTail ≠ 0 then Function.update (Function.update s.messages msg message)
      (s.table peer).msgTail { Function.update s.messages msg message (s.table peer).msgTail with next := msg }
    else Function.update s.messages msg message := by
  unfold System.deliver
  by_cases empty : (s.table peer).msgTail = 0
  · simp [System.modifyMessage, System.modify, empty]
  · simp [System.modifyMessage, System.modify, empty]

/-- What is delivered changes no other message but for the last one's link. -/
theorem deliver_other {q : Nat} (other : q ≠ msg) :
    ((s.deliver peer msg message).messages q).letter = (s.messages q).letter ∧
      (q ≠ (s.table peer).msgTail → (s.deliver peer msg message).messages q = s.messages q) := by
  rw [deliver_messages]
  split
  · by_cases last : q = (s.table peer).msgTail
    · refine ⟨?_, fun apart => absurd last apart⟩
      rw [last, Function.update_self]
      rw [last] at other
      show (Function.update s.messages msg message _).letter = _
      rw [Function.update_of_ne other]
    · rw [Function.update_of_ne last, Function.update_of_ne other]
      exact ⟨rfl, fun _ => rfl⟩
  · rw [Function.update_of_ne other]
    exact ⟨rfl, fun _ => rfl⟩

theorem deliver_new (fresh : (s.table peer).msgTail ≠ msg) :
    (s.deliver peer msg message).messages msg = message := by
  rw [deliver_messages]
  split
  · rw [Function.update_of_ne fresh.symm, Function.update_self]
  · rw [Function.update_self]

theorem deliver_peer : ((s.deliver peer msg message).table j).peer = (s.table j).peer := by
  by_cases same : j = peer
  · subst same
    unfold System.deliver
    simp only
    rw [modify_table, if_pos rfl]
    split
    · rfl
    · rw [modify_table, if_pos rfl]
      rfl
  · rw [deliver_table_other same]

theorem deliver_tail : ((s.deliver peer msg message).table peer).msgTail = msg := by
  unfold System.deliver
  simp only
  rw [modify_table, if_pos rfl]

theorem deliver_head : ((s.deliver peer msg message).table peer).msgHead =
    if (s.table peer).msgTail ≠ 0 then (s.table peer).msgHead else msg := by
  unfold System.deliver
  by_cases empty : (s.table peer).msgTail = 0
  · simp [System.modifyMessage, System.modify, empty]
  · simp [System.modifyMessage, System.modify, empty]

theorem MsgQueue.tail_mem (queue : MsgQueue s i l) (waiting : (s.table i).msgTail ≠ 0) :
    ∃ front, l = front ++ [(s.table i).msgTail] := by
  rcases List.eq_nil_or_concat' l with rfl | ⟨front, last, rfl⟩
  · exact absurd queue.tail waiting
  · have tail := queue.tail
    rw [List.getLast?_concat] at tail
    exact ⟨front, by rw [tail]; rfl⟩

theorem MsgQueue.empty_of_tail (queue : MsgQueue s i l) (none : (s.table i).msgTail = 0) : l = [] := by
  rcases List.eq_nil_or_concat' l with rfl | ⟨front, last, rfl⟩
  · rfl
  · have tail := queue.tail
    rw [List.getLast?_concat, none] at tail
    exact absurd tail.symm (queue.pos last (by simp))

/-- **A message delivered waits behind the others.** -/
theorem MsgQueue.push (queue : MsgQueue s peer l) (fresh : msg ∉ l) (positive : msg ≠ 0)
    (last : message.next = 0) : MsgQueue (s.deliver peer msg message) peer (l ++ [msg]) := by
  refine ⟨?_, by rw [deliver_tail, List.getLast?_concat]; rfl⟩
  by_cases empty : (s.table peer).msgTail = 0
  · rw [queue.empty_of_tail empty, List.nil_append, deliver_head, if_neg (not_not.mpr empty),
      link_pos positive]
    refine ⟨rfl, ?_⟩
    rw [nextMessage, deliver_new (empty ▸ positive.symm), last]
    exact rfl
  · obtain ⟨front, rfl⟩ := queue.tail_mem empty
    have other : (s.table peer).msgTail ≠ msg := fun same => fresh (by simp [same])
    have threads : Threads (fun q => if q = msg then none else nextMessage s q)
        (link (s.table peer).msgHead) (front ++ [(s.table peer).msgTail]) :=
      queue.threads.congr fun q member => if_neg (ne_of_mem_of_not_mem member fresh)
    have joined := threads.snoc fresh (if_pos rfl)
    rw [deliver_head, if_pos empty, List.append_assoc, List.singleton_append]
    refine joined.congr fun q member => ?_
    by_cases atTail : q = (s.table peer).msgTail
    · rw [atTail, Function.update_self, nextMessage, deliver_messages, if_pos empty, Function.update_self]
      exact link_pos positive
    · rw [Function.update_of_ne atTail]
      by_cases new : q = msg
      · rw [new, if_pos rfl, nextMessage, deliver_new other, last]
        rfl
      · rw [if_neg new, nextMessage, (deliver_other new).2 atTail]
        rfl

@[simp] theorem takeMessage_other (other : j ≠ i) : (s.takeMessage i).table j = s.table j := by
  unfold System.takeMessage
  rw [modify_table, if_neg other]

theorem takeMessage_peer : ((s.takeMessage i).table j).peer = (s.table j).peer := by
  unfold System.takeMessage
  rw [modify_table]
  split
  · rename_i same
    rw [same]
  · rfl

/-- **A receive takes the first message.** -/
theorem MsgQueue.pop (queue : MsgQueue s i l) (waiting : (s.table i).msgHead ≠ 0) :
    ∃ rest, l = (s.table i).msgHead :: rest ∧ MsgQueue (s.takeMessage i) i rest := by
  have threads := queue.threads
  rw [link_pos waiting] at threads
  obtain ⟨rest, rfl, later⟩ := Threads.some_iff.mp threads
  refine ⟨rest, rfl, ?_, ?_⟩
  · unfold System.takeMessage
    rw [modify_table, if_pos rfl]
    exact later
  · unfold System.takeMessage
    rw [modify_table, if_pos rfl]
    simp only
    by_cases alone : (s.messages (s.table i).msgHead).next = 0
    · rw [nextMessage, alone, link_zero, Threads.none_iff] at later
      rw [if_pos alone, later]
      rfl
    · rw [nextMessage, link_pos alone] at later
      obtain ⟨more, rfl, _⟩ := Threads.some_iff.mp later
      rw [if_neg alone, queue.tail, List.getLast?_cons_cons]

/-! ### The queues of two peers -/

/-- Two sockets that are each other's peers, with the messages waiting at each, all of them allocated. -/
structure Paired (s : System) (live : List Nat) (x y : Slot) (atX atY : List Nat) : Prop where
  apart : x ≠ y
  peers : (s.table x).peer = some y ∧ (s.table y).peer = some x
  queues : MsgQueue s x atX ∧ MsgQueue s y atY
  full : ∀ p ∈ atX ++ atY, (s.messages p).data ≠ []
  live : ∀ p ∈ atX ++ atY, p ∈ live
  disjoint : ∀ p ∈ atX, p ∉ atY

namespace Paired

variable {live atX atY : List Nat} {x y : Slot}

theorem symm (here : Paired s live x y atX atY) : Paired s live y x atY atX :=
  ⟨here.apart.symm, here.peers.symm, here.queues.symm,
    fun p member => here.full p (List.mem_append.mpr (List.mem_append.mp member).symm),
    fun p member => here.live p (List.mem_append.mpr (List.mem_append.mp member).symm),
    fun p member back => here.disjoint p back member⟩

/-- A new message is not the last one of a queue. -/
theorem tail_ne (here : Paired s live x y atX atY) (fresh : msg ∉ live) (positive : msg ≠ 0) :
    (s.table y).msgTail ≠ msg := by
  intro same
  obtain ⟨front, rfl⟩ := here.queues.2.tail_mem (same ▸ positive)
  exact fresh (here.live msg (by simp [same]))

/-- **A message goes to `y`.** -/
theorem deliver (message : Message) (here : Paired s live x y atX atY) (fresh : msg ∉ live) (positive : msg ≠ 0)
    (full : message.data ≠ []) (last : message.next = 0) :
    Paired (s.deliver y msg message) (msg :: live) x y atX (atY ++ [msg]) ∧
      ∀ p ∈ atX ++ atY, ((s.deliver y msg message).messages p).letter = (s.messages p).letter := by
  have new : ∀ p ∈ atX ++ atY, p ≠ msg := by
    rintro p member rfl
    exact fresh (here.live p member)
  have old : ∀ p ∈ atX ++ atY, ((s.deliver y msg message).messages p).letter = (s.messages p).letter :=
    fun p member => (deliver_other (new p member)).1
  have cases : ∀ p ∈ atX ++ (atY ++ [msg]), p ∈ atX ++ atY ∨ p = msg := by
    intro p member
    simpa [or_assoc] using member
  refine ⟨⟨here.apart, ⟨deliver_peer.trans here.peers.1, deliver_peer.trans here.peers.2⟩, ⟨?_, ?_⟩,
    fun p member => ?_, fun p member => ?_, fun p member later => ?_⟩, old⟩
  · refine here.queues.1.congr ?_ ?_ fun p member => ?_
    · rw [deliver_table_other here.apart]
    · rw [deliver_table_other here.apart]
    · rw [(deliver_other (new p (by simp [member]))).2]
      intro same
      obtain ⟨front, rfl⟩ := here.queues.2.tail_mem (same ▸ here.queues.1.pos p member)
      exact here.disjoint p member (by simp [same])
  · exact here.queues.2.push (fun member => new _ (by simp [member]) rfl) positive last
  · rcases cases p member with before | rfl
    · rw [show ((s.deliver y msg message).messages p).data = (s.messages p).data from
        congrArg Letter.data (old p before)]
      exact here.full p before
    · rw [deliver_new (here.tail_ne fresh positive)]
      exact full
  · rcases cases p member with before | rfl
    · exact List.mem_cons_of_mem _ (here.live p before)
    · exact List.mem_cons_self
  · rcases List.mem_append.mp later with old | last
    · exact here.disjoint p member old
    · exact new p (by simp [member]) (List.mem_singleton.mp last)

/-- **`x` takes its first message.** -/
theorem take (here : Paired s live x y atX atY) (waiting : (s.table x).msgHead ≠ 0) :
    ∃ rest, atX = (s.table x).msgHead :: rest ∧
      Paired (s.takeMessage x) (live.erase (s.table x).msgHead) x y rest atY := by
  obtain ⟨rest, rfl, queue⟩ := here.queues.1.pop waiting
  have notFirst : (s.table x).msgHead ∉ rest := (List.nodup_cons.mp here.queues.1.threads.nodup).1
  refine ⟨rest, rfl, here.apart, ⟨takeMessage_peer.trans here.peers.1, takeMessage_peer.trans here.peers.2⟩,
    ⟨queue, ?_⟩, fun p member => here.full p (List.mem_cons_of_mem _ member), fun p member => ?_,
    fun p member => here.disjoint p (List.mem_cons_of_mem _ member)⟩
  · refine here.queues.2.congr ?_ ?_ fun p member => rfl
    · rw [takeMessage_other here.apart.symm]
    · rw [takeMessage_other here.apart.symm]
  · refine (List.mem_erase_of_ne ?_).mpr (here.live p (List.mem_cons_of_mem _ member))
    rintro rfl
    rcases List.mem_append.mp member with mine | other
    · exact notFirst mine
    · exact here.disjoint _ List.mem_cons_self other

end Paired

end Queue

/-! ### A connected pair -/

/-- The system, with the bytes sent and received at each socket and the messages not yet freed. -/
structure Duplex where
  sys : System
  sent : Slot → List UInt8
  got : Slot → List UInt8
  live : List Nat

/-- A send or a receive on one of the two ends, where `msg` is what `kmalloc` returns. -/
inductive StreamOp where
  | send (sockfd : Int) (buf : Option (List UInt8)) (msg : Nat)
  | recv (sockfd : Int) (len : Option Nat)
  deriving DecidableEq, Repr

/-- A send by the socket `a`, noting the bytes it reports. -/
def Duplex.send (d : Duplex) (a : Slot) (sockfd : Int) (buf : Option (List UInt8)) (msg : Nat) : Duplex :=
  let (s, reported) := socketSend d.sys sockfd buf msg
  ⟨s, Function.update d.sent a (d.sent a ++ (buf.getD []).take reported.toNat), d.got,
    if reported = -1 then d.live else msg :: d.live⟩

/-- A receive by the socket `a`, noting the bytes it returns. -/
def Duplex.recv (d : Duplex) (a : Slot) (sockfd : Int) (len : Option Nat) : Duplex :=
  let (s, returned, data) := socketRecv d.sys sockfd len
  ⟨s, d.sent, Function.update d.got a (d.got a ++ data),
    if returned ≤ 0 then d.live else d.live.erase (d.sys.table a).msgHead⟩

/-- One call on one of the ends `x` and `y`. What `kmalloc` returns for a message is no message still
waiting. -/
inductive StreamStep (x y : Slot) : Duplex → StreamOp → Duplex → Prop
  | send {d : Duplex} {a : Slot} {sockfd : Int} {buf : Option (List UInt8)} {msg : Nat}
      (mine : socketGetByFd d.sys sockfd = some a) (side : a = x ∨ a = y) (fresh : msg ∉ d.live) :
      StreamStep x y d (.send sockfd buf msg) (d.send a sockfd buf msg)
  | recv {d : Duplex} {a : Slot} {sockfd : Int} {len : Option Nat}
      (mine : socketGetByFd d.sys sockfd = some a) (side : a = x ∨ a = y) :
      StreamStep x y d (.recv sockfd len) (d.recv a sockfd len)

/-- Two STREAM sockets connected to each other, with nothing waiting at either. -/
structure StreamPair (s : System) (x y : Slot) : Prop where
  apart : x ≠ y
  stream : (s.table x).type = .stream ∧ (s.table y).type = .stream
  connected : (s.table x).state = .connected ∧ (s.table y).state = .connected
  peers : (s.table x).peer = some y ∧ (s.table y).peer = some x
  empty : MsgQueue s x [] ∧ MsgQueue s y []

/-- **What `b` has received of what `a` has sent**: a prefix, and everything once a receive returns 0. -/
def Faithful (d : Duplex) (a b : Slot) : Prop :=
  d.got b <+: d.sent a ∧ ∀ sockfd len, socketGetByFd d.sys sockfd = some b →
    (socketRecv d.sys sockfd len).2.1 = 0 → d.got b = d.sent a

/-- A receive that takes a message has room for the whole of it. -/
def TakesWhole (d : Duplex) : StreamOp → Prop
  | .send _ _ _ => True
  | .recv sockfd len => ∀ a ∈ socketGetByFd d.sys sockfd, ∀ size ∈ len,
      size ≠ 0 → (d.sys.table a).msgHead ≠ 0 → (d.sys.messages (d.sys.table a).msgHead).data.length ≤ size

/-- What `a` has sent is what `b` has received, followed by what waits there. -/
structure Flow (d : Duplex) (a b : Slot) (l : List Nat) : Prop where
  peer : (d.sys.table a).peer = some b
  queue : MsgQueue d.sys b l
  full : ∀ p ∈ l, (d.sys.messages p).data ≠ []
  live : ∀ p ∈ l, p ∈ d.live
  bytes : d.sent a = d.got b ++ queuedBytes d.sys l

/-- Both directions of a pair. -/
structure Carrying (d : Duplex) (x y : Slot) (atX atY : List Nat) : Prop where
  apart : x ≠ y
  out : Flow d x y atY
  back : Flow d y x atX
  disjoint : ∀ p ∈ atX, p ∉ atY

section Pair

variable {d d' : Duplex} {x y a b : Slot} {l atX atY : List Nat} {sockfd : Int} {msg : Nat}
  {buf : Option (List UInt8)} {len : Option Nat} {op : StreamOp}

theorem Carrying.symm (here : Carrying d x y atX atY) : Carrying d y x atY atX :=
  ⟨here.apart.symm, here.back, here.out, fun p member back => here.disjoint p back member⟩

theorem Carrying.paired (here : Carrying d x y atX atY) : Paired d.sys d.live x y atX atY :=
  ⟨here.apart, ⟨here.out.peer, here.back.peer⟩, ⟨here.back.queue, here.out.queue⟩,
    fun p member => (List.mem_append.mp member).elim (here.back.full p) (here.out.full p),
    fun p member => (List.mem_append.mp member).elim (here.back.live p) (here.out.live p), here.disjoint⟩

theorem Paired.carrying (here : Paired d.sys d.live x y atX atY)
    (out : d.sent x = d.got y ++ queuedBytes d.sys atY) (back : d.sent y = d.got x ++ queuedBytes d.sys atX) :
    Carrying d x y atX atY :=
  ⟨here.apart, ⟨here.peers.1, here.queues.2, fun p member => here.full p (by simp [member]),
      fun p member => here.live p (by simp [member]), out⟩,
    ⟨here.peers.2, here.queues.1, fun p member => here.full p (by simp [member]),
      fun p member => here.live p (by simp [member]), back⟩, here.disjoint⟩

theorem Flow.faithful (flow : Flow d a b l) : Faithful d a b := by
  refine ⟨?_, fun sockfd len mine nothing => ?_⟩
  · rw [flow.bytes]
    exact List.prefix_append _ _
  · rcases socketRecv_cases d.sys sockfd len with failed | ⟨i, found, empty, -⟩ |
      ⟨i, size, -, positive, found, waiting, done⟩
    · rw [failed] at nothing
      cases nothing
    · cases mine.symm.trans found
      have threads := flow.queue.threads
      rw [empty, link_zero, Threads.none_iff] at threads
      rw [flow.bytes, threads]
      exact (List.append_nil _).symm
    · cases mine.symm.trans found
      obtain ⟨rest, rfl, -⟩ := flow.queue.pop waiting
      have full := List.length_pos_iff.mpr (flow.full _ List.mem_cons_self)
      rw [done] at nothing
      simp only [List.length_take] at nothing
      omega

theorem send_delivered {bytes : List UInt8} {message : Message} {m : Nat}
    (done : socketSend d.sys sockfd (some bytes) msg =
      (d.sys.deliver b msg message, ((bytes.take m).length : Int))) :
    d.send a sockfd (some bytes) msg = ⟨d.sys.deliver b msg message,
      Function.update d.sent a (d.sent a ++ bytes.take m), d.got, msg :: d.live⟩ := by
  have reported : ((bytes.take m).length : Int) ≠ -1 := by omega
  have whole : bytes.take (bytes.take m).length = bytes.take m := by
    rw [List.take_eq_take_iff, List.length_take]
    omega
  simp only [Duplex.send, done, if_neg reported, Int.toNat_natCast, Option.getD_some, whole]

/-- **A send by one end.** -/
theorem Carrying.send (here : Carrying d x y atX atY) (mine : socketGetByFd d.sys sockfd = some x)
    (fresh : msg ∉ d.live) : ∃ atY', Carrying (d.send x sockfd buf msg) x y atX atY' := by
  rcases socketSend_cases d.sys sockfd buf msg with failed |
    ⟨i, peer, bytes, rfl, full, positive, found, linked, done⟩
  · have same : d.send x sockfd buf msg = d := by
      simp [Duplex.send, failed, Function.update_eq_self]
    rw [same]
    exact ⟨atY, here⟩
  · cases mine.symm.trans found
    cases here.out.peer.symm.trans linked
    have notTail := here.paired.tail_ne fresh positive
    obtain ⟨paired, old⟩ := here.paired.deliver ⟨bytes.take socketMsgSize, _, 0⟩ fresh positive
      (by simpa [socketMsgSize] using full) rfl
    have kept : ∀ l, (∀ p ∈ l, p ∈ atX ++ atY) → queuedBytes (d.sys.deliver y msg _) l = queuedBytes d.sys l :=
      fun l inside => queuedBytes_congr fun p member => congrArg Letter.data (old p (inside p member))
    rw [send_delivered done]
    refine ⟨atY ++ [msg], paired.carrying ?_ ?_⟩
    · show Function.update d.sent x _ x = d.got y ++ queuedBytes _ (atY ++ [msg])
      rw [Function.update_self, here.out.bytes, queuedBytes_snoc, deliver_new notTail,
        kept atY fun p member => by simp [member], List.append_assoc]
    · show Function.update d.sent x _ y = d.got x ++ queuedBytes _ atX
      rw [Function.update_of_ne here.apart.symm, here.back.bytes, kept atX fun p member => by simp [member]]

/-- **A receive by one end**, of the whole message. -/
theorem Carrying.recv (here : Carrying d x y atX atY) (mine : socketGetByFd d.sys sockfd = some x)
    (whole : TakesWhole d (.recv sockfd len)) : ∃ atX', Carrying (d.recv x sockfd len) x y atX' atY := by
  have unchanged : ∀ returned : Int, returned ≤ 0 → socketRecv d.sys sockfd len = (d.sys, returned, []) →
      Carrying (d.recv x sockfd len) x y atX atY := by
    intro returned none failed
    have same : d.recv x sockfd len = d := by
      simp [Duplex.recv, failed, none, Function.update_eq_self]
    rw [same]
    exact here
  rcases socketRecv_cases d.sys sockfd len with failed | ⟨i, found, empty, failed⟩ |
    ⟨i, size, rfl, positive, found, waiting, done⟩
  · exact ⟨atX, unchanged _ (by decide) failed⟩
  · exact ⟨atX, unchanged _ le_rfl failed⟩
  · cases mine.symm.trans found
    obtain ⟨rest, rfl, paired⟩ := here.paired.take waiting
    have all : (d.sys.messages (d.sys.table x).msgHead).data.take size =
        (d.sys.messages (d.sys.table x).msgHead).data :=
      List.take_of_length_le (whole x mine size rfl positive waiting)
    have data := List.length_pos_iff.mpr (here.back.full _ List.mem_cons_self)
    rw [all] at done
    have taken : d.recv x sockfd (some size) = ⟨d.sys.takeMessage x, d.sent,
        Function.update d.got x (d.got x ++ (d.sys.messages (d.sys.table x).msgHead).data),
        d.live.erase (d.sys.table x).msgHead⟩ := by
      have some : ¬ ((d.sys.messages (d.sys.table x).msgHead).data.length : Int) ≤ 0 := by omega
      simp only [Duplex.recv, done, if_neg some]
    rw [taken]
    refine ⟨rest, paired.carrying ?_ ?_⟩
    · show d.sent x = Function.update d.got x _ y ++ queuedBytes _ atY
      rw [Function.update_of_ne here.apart.symm]
      exact here.out.bytes
    · show d.sent y = Function.update d.got x _ x ++ queuedBytes _ rest
      rw [Function.update_self, here.back.bytes, List.append_assoc]
      rfl

/-- **Each call carries the stream on.** -/
theorem Carrying.step (here : Carrying d x y atX atY) (step : StreamStep x y d op d')
    (whole : TakesWhole d op) : ∃ atX' atY', Carrying d' x y atX' atY' := by
  cases step with
  | send mine side fresh =>
      rcases side with rfl | rfl
      · obtain ⟨atY', after⟩ := here.send mine fresh
        exact ⟨atX, atY', after⟩
      · obtain ⟨atX', after⟩ := here.symm.send mine fresh
        exact ⟨atX', atY, after.symm⟩
  | recv mine side =>
      rcases side with rfl | rfl
      · obtain ⟨atX', after⟩ := here.recv mine whole
        exact ⟨atX', atY, after⟩
      · obtain ⟨atY', after⟩ := here.symm.recv mine whole
        exact ⟨atX, atY', after.symm⟩

/-- **A connected pair carries two byte streams**, as long as every receive has room for the whole
message. -/
theorem stream_whole {s : System} {ops : List StreamOp} (pair : StreamPair s x y)
    (run : Run (Guarded TakesWhole (StreamStep x y)) ⟨s, fun _ => [], fun _ => [], []⟩ ops d) :
    Faithful d x y ∧ Faithful d y x := by
  have start : Carrying ⟨s, fun _ => [], fun _ => [], []⟩ x y [] [] :=
    ⟨pair.apart, ⟨pair.peers.1, pair.empty.2, nofun, nofun, rfl⟩,
      ⟨pair.peers.2, pair.empty.1, nofun, nofun, rfl⟩, nofun⟩
  obtain ⟨atX, atY, here⟩ := run.invariant (fun d => ∃ atX atY, Carrying d x y atX atY)
    (fun _ _ _ ⟨_, _, here⟩ step => here.step step.2 step.1) ⟨[], [], start⟩
  exact ⟨here.out.faithful, here.back.faithful⟩

end Pair

/-- Run one call that the step relation allows. -/
def StreamOp.exec (x y : Slot) (d : Duplex) : StreamOp → Outcome Duplex
  | .send sockfd buf msg =>
      match socketGetByFd d.sys sockfd with
      | none => .diverge
      | some a => if (a = x ∨ a = y) ∧ msg ∉ d.live then .ok (d.send a sockfd buf msg) else .diverge
  | .recv sockfd len =>
      match socketGetByFd d.sys sockfd with
      | none => .diverge
      | some a => if a = x ∨ a = y then .ok (d.recv a sockfd len) else .diverge

theorem StreamStep.of_exec {x y : Slot} {d d' : Duplex} {op : StreamOp} (done : op.exec x y d = .ok d') :
    StreamStep x y d op d' := by
  cases op with
  | send sockfd buf msg =>
      simp only [StreamOp.exec] at done
      split at done
      · cases done
      · rename_i a mine
        split at done
        · rename_i allowed
          cases done
          exact .send mine allowed.1 allowed.2
        · cases done
  | recv sockfd len =>
      simp only [StreamOp.exec] at done
      split at done
      · cases done
      · rename_i a mine
        split at done
        · rename_i side
          cases done
          exact .recv mine side
        · cases done

instance {d : Duplex} : (op : StreamOp) → Decidable (TakesWhole d op)
  | .send _ _ _ => inferInstanceAs (Decidable True)
  | .recv sockfd len => inferInstanceAs (Decidable (∀ a ∈ socketGetByFd d.sys sockfd, ∀ size ∈ len,
      size ≠ 0 → (d.sys.table a).msgHead ≠ 0 → (d.sys.messages (d.sys.table a).msgHead).data.length ≤ size))

theorem connectedPair_streams : StreamPair connectedPair 0 1 :=
  ⟨by decide, ⟨rfl, rfl⟩, ⟨rfl, rfl⟩, ⟨rfl, rfl⟩, ⟨⟨rfl, rfl⟩, ⟨rfl, rfl⟩⟩⟩

/-- Nothing sent yet between descriptors 1 and 2. -/
def quiet : Duplex := ⟨connectedPair, fun _ => [], fun _ => [], []⟩

/-- Two sends one way and one the other, a receive of length 0, which fails, and one of the first message. -/
def chatOps : List StreamOp :=
  [.send 1 (some [1, 2]) 4096, .send 2 (some [9]) 8192, .send 1 (some [3]) 16384, .recv 2 (some 0), .recv 2 (some 8)]

def chat : Duplex := (runAll (guardedExec TakesWhole (fun d op => op.exec 0 1 d)) quiet chatOps).getD quiet

theorem stream_whole_chat : Run (Guarded TakesWhole (StreamStep 0 1)) quiet chatOps chat ∧
    chat.sent 0 = [1, 2, 3] ∧ chat.got 1 = [1, 2] ∧ Faithful chat 0 1 ∧ Faithful chat 1 0 := by
  have run : Run (Guarded TakesWhole (StreamStep 0 1)) quiet chatOps chat :=
    (Run.of_guardedExec (Outcome.eq_ok_getD (by decide +kernel) _)).mono fun _ _ _ step =>
      ⟨step.1, .of_exec step.2⟩
  exact ⟨run, by decide +kernel, by decide +kernel, stream_whole connectedPair_streams run⟩

/-- Two bytes sent, one received, then another receive. -/
def shortOps : List StreamOp := [.send 1 (some [1, 2]) 4096, .recv 2 (some 1)]

def shortRead : Duplex := (runAll (fun d (op : StreamOp) => op.exec 0 1 d) quiet shortOps).getD quiet

/-- The byte that a short receive leaves is never received. -/
theorem recv_drops : StreamPair connectedPair 0 1 ∧
    Run (StreamStep 0 1) ⟨connectedPair, fun _ => [], fun _ => [], []⟩ shortOps shortRead ∧
    ¬ Faithful shortRead 0 1 := by
  refine ⟨connectedPair_streams, ?_, ?_⟩
  · exact (Run.of_runAll (Outcome.eq_ok_getD (by decide +kernel) _)).mono fun _ _ _ => .of_exec
  · rintro ⟨_, whole⟩
    exact absurd (whole 2 (some 1) (by decide +kernel) (by decide +kernel)) (by decide +kernel)

end Kfs.Ipc
