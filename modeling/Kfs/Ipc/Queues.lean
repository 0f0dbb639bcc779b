/-
**Accept queues.**

The accept queue of a listening socket is a ring of pointers to the server sides of connections.
`Queued sock pending` reads it as a list.

* `queues_live` — from a table whose queues hold distinct connected sockets with the address of their
  listener, an operation leads to such a table exactly when it neither closes nor rebinds nor turns into a
  listener what is queued (`KeepsQueues`); `socket_close` looks at no queue (`close_pending`).
* `accepts_in_order` — as long as every connection that is made is queued, the sockets that accepts return
  are the ones connects made, in that order, and an accept that returns none has left none. The seventeenth
  pending connection is made without being queued (`connect_unqueued`).
-/

import Kfs.Base.Ring
import Kfs.Ipc.Peers

namespace Kfs.Ipc

/-- **The accept queue of a socket**, as a list. -/
structure Queued (sock : Socket) (pending : List Slot) : Prop where
  contents : ringRead sock.acceptQueue acceptQueueSize sock.acceptHead sock.acceptCount =
    pending.map some
  head : sock.acceptHead < acceptQueueSize
  tail : sock.acceptTail = (sock.acceptHead + sock.acceptCount) % acceptQueueSize
  count : sock.acceptCount ≤ acceptQueueSize

/-- Two sockets with the same accept queue. -/
def SameQueue (a b : Socket) : Prop :=
  b.acceptQueue = a.acceptQueue ∧ b.acceptHead = a.acceptHead ∧ b.acceptTail = a.acceptTail ∧
    b.acceptCount = a.acceptCount

section Queue

variable {a b sock : Socket} {pending pending' : List Slot} {t : Slot}

theorem Queued.congr (queued : Queued a pending) (same : SameQueue a b) : Queued b pending := by
  obtain ⟨cells, head, tail, count⟩ := same
  refine ⟨?_, ?_, ?_, ?_⟩
  · rw [cells, head, count]
    exact queued.contents
  · rw [head]
    exact queued.head
  · rw [tail, head, count]
    exact queued.tail
  · rw [count]
    exact queued.count

theorem Queued.length (queued : Queued sock pending) : pending.length = sock.acceptCount := by
  have lengths := congrArg List.length queued.contents
  rwa [length_ringRead, List.length_map, eq_comm] at lengths

/-- A socket that starts to listen. -/
theorem Queued.reset {f : Socket → Socket}
    (zero : (f sock).acceptHead = 0 ∧ (f sock).acceptTail = 0 ∧ (f sock).acceptCount = 0) :
    Queued (f sock) [] := by
  obtain ⟨head, tail, count⟩ := zero
  refine ⟨?_, ?_, ?_, ?_⟩
  · rw [count]
    rfl
  · rw [head]
    decide
  · rw [tail, head, count]
    rfl
  · rw [count]
    decide

/-- The tail of `socket_connect`, on the listener. -/
def Socket.enqueue (sock : Socket) (server : Slot) : Socket :=
  if sock.acceptCount < acceptQueueSize then
    { sock with
      acceptQueue := Function.update sock.acceptQueue sock.acceptTail (some server)
      acceptTail := (sock.acceptTail + 1) % acceptQueueSize
      acceptCount := sock.acceptCount + 1 }
  else sock

/-- What `socket_accept` does to the listener. -/
def Socket.dequeue (sock : Socket) : Socket :=
  { sock with
    acceptHead := (sock.acceptHead + 1) % acceptQueueSize
    acceptCount := sock.acceptCount - 1 }

/-- **A connection joins the queue** when there is room. -/
theorem Queued.enqueue (queued : Queued sock pending) (room : sock.acceptCount < acceptQueueSize)
    (server : Slot) : Queued (sock.enqueue server) (pending ++ [server]) := by
  rw [Socket.enqueue, if_pos room]
  refine ⟨?_, queued.head, ?_, room⟩
  · simp only
    rw [queued.tail, ringRead_push room, queued.contents, List.map_append, List.map_singleton]
  · simp only
    rw [queued.tail, Nat.mod_add_mod, Nat.add_assoc]

/-- **The first connection leaves the queue.** -/
theorem Queued.dequeue (queued : Queued sock (t :: pending)) :
    sock.acceptQueue sock.acceptHead = some t ∧ Queued sock.dequeue pending := by
  have count := queued.length
  rw [List.length_cons] at count
  have contents := queued.contents
  rw [← count, ringRead_pop, List.map_cons, List.cons.injEq, Nat.mod_eq_of_lt queued.head] at contents
  refine ⟨contents.1, ⟨?_, Nat.mod_lt _ (by decide), ?_, ?_⟩⟩
  · simp only [Socket.dequeue]
    rw [← count, Nat.add_sub_cancel]
    exact contents.2
  · simp only [Socket.dequeue]
    rw [queued.tail, ← count, Nat.add_sub_cancel, Nat.mod_add_mod, Nat.add_assoc, Nat.add_comm 1]
  · have := queued.count
    simp only [Socket.dequeue]
    omega

end Queue

/-! ### The table after an operation -/

section Tables

variable {s : System} {i j listener server : Slot} {sockfd : Int} {a : Address}

theorem socketAlloc_closed (room : socketAlloc s = some server) : (s.table server).state = .closed := by
  have test := scan_eq_some room
  simp only [allocatable, decide_eq_true_eq] at test
  exact test.1

theorem socketFindByAddress_listening (found : socketFindByAddress s a = some listener) :
    (s.table listener).state = .listening ∧ (s.table listener).localAddr = a := by
  have test := scan_eq_some found
  simp only [decide_eq_true_eq] at test
  obtain ⟨listening, family, pid, port⟩ := test
  refine ⟨listening, ?_⟩
  cases a
  cases address : (s.table listener).localAddr
  rw [address] at family pid port
  simp only at family pid port
  rw [family, pid, port]

/-- The sockets after a connection is made, but for the accept queue. -/
def joinedTable (s : System) (i listener server : Slot) (a : Address) (j : Slot) : Socket :=
  if j = server then
    { Socket.zero with
      fd := s.nextSockfd
      state := .connected
      type := (s.table listener).type
      family := (s.table listener).family
      ownerPid := (s.table listener).ownerPid
      localAddr := (s.table listener).localAddr
      remoteAddr := ⟨afUnix, (s.table i).ownerPid, 0⟩
      refcount := 1
      peer := some i }
  else if j = i then { s.table i with peer := some server, state := .connected, remoteAddr := a }
  else s.table j

/-- **The table after a connection is made**, socket by socket. -/
theorem socketConnect_table (found : socketGetByFd s sockfd = some i)
    (listens : socketFindByAddress s a = some listener) (room : socketAlloc s = some server) (j : Slot) :
    (socketConnect s sockfd (some a)).1.table j =
      if j = listener then (joinedTable s i listener server a j).enqueue server
      else joinedTable s i listener server a j := by
  have apart : i ≠ server := by
    rintro rfl
    exact socketAlloc_free room (.inl (socketGetByFd_open found))
  have other : listener ≠ server := by
    rintro rfl
    have listening := (socketFindByAddress_listening listens).1
    rw [socketAlloc_closed room] at listening
    cases listening
  simp only [socketConnect, found, listens, room, enqueueAccept, joinedTable]
  by_cases atServer : j = server
  · subst atServer
    simp [modify_table, apart.symm, other.symm]
  · by_cases client : j = i
    · subst client
      by_cases self : j = listener
      · subst self
        simp [modify_table, apart, Socket.enqueue]
      · simp [modify_table, apart, self]
    · by_cases self : j = listener
      · subst self
        simp [modify_table, atServer, client, Socket.enqueue]
      · simp [modify_table, atServer, client, self]

/-- **What `socket_connect` does**: fail and change nothing, or make a connection. -/
theorem socketConnect_cases (s : System) (sockfd : Int) (addr : Option Address) :
    (socketConnect s sockfd addr = (s, -1) ∧ ∀ i a, socketGetByFd s sockfd = some i → addr = some a →
      socketFindByAddress s a = none ∨ socketAlloc s = none) ∨
    ∃ i a listener server, addr = some a ∧ socketGetByFd s sockfd = some i ∧
      socketFindByAddress s a = some listener ∧ socketAlloc s = some server ∧
      (socketConnect s sockfd addr).2 = 0 ∧
      (socketConnect s sockfd addr).1.nextSockfd = s.nextSockfd + 1 := by
  cases found : socketGetByFd s sockfd with
  | none =>
      refine .inl ⟨?_, fun i a here => by cases here⟩
      simp only [socketConnect, found]
  | some i =>
      cases addr with
      | none =>
          refine .inl ⟨?_, fun i a _ here => by cases here⟩
          simp only [socketConnect, found]
      | some a =>
          cases listens : socketFindByAddress s a with
          | none =>
              refine .inl ⟨?_, fun j b _ same => .inl ?_⟩
              · simp only [socketConnect, found, listens]
              · cases same
                exact listens
          | some listener =>
              cases room : socketAlloc s with
              | none =>
                  refine .inl ⟨?_, fun j b _ _ => .inr rfl⟩
                  simp only [socketConnect, found, listens, room]
              | some server =>
                  refine .inr ⟨i, a, listener, server, rfl, rfl, listens, rfl, ?_, ?_⟩
                  · simp only [socketConnect, found, listens, room]
                  · simp only [socketConnect, found, listens, room]
                    rfl

/-- Two sockets that differ in their messages only. -/
def SameButMessages (a b : Socket) : Prop :=
  ∃ head tail count, b = { a with msgHead := head, msgTail := tail, msgCount := count }

theorem SameButMessages.refl (a : Socket) : SameButMessages a a := ⟨_, _, _, rfl⟩

theorem SameButMessages.modify {f : Socket → Socket} (same : ∀ sock, SameButMessages sock (f sock))
    (s : System) (i j : Slot) : SameButMessages (s.table j) ((s.modify i f).table j) := by
  rw [modify_table]
  split
  · rename_i mine
    rw [mine]
    exact same _
  · exact .refl _

theorem SameButMessages.trans {a b c : Socket} (first : SameButMessages a b)
    (second : SameButMessages b c) : SameButMessages a c := by
  obtain ⟨_, _, _, rfl⟩ := first
  obtain ⟨_, _, _, rfl⟩ := second
  exact ⟨_, _, _, rfl⟩

/-- `socket_send` changes messages only. -/
theorem socketSend_messages (buf : Option (List UInt8)) (msg : Nat) (j : Slot) :
    SameButMessages (s.table j) ((socketSend s sockfd buf msg).1.table j) := by
  unfold socketSend
  split
  · split
    · exact .refl _
    · split
      · exact .refl _
      · split
        · exact .refl _
        · simp only
          split
          · exact .refl _
          · dsimp only
            refine SameButMessages.trans ?_ (SameButMessages.modify (fun _ => ⟨_, _, _, rfl⟩) _ _ _)
            split
            · exact .refl _
            · exact SameButMessages.modify (fun _ => ⟨_, _, _, rfl⟩) (s.modifyMessage _ _) _ _
  · exact .refl _

/-- `socket_recv` changes messages only. -/
theorem socketRecv_messages (len : Option Nat) (j : Slot) :
    SameButMessages (s.table j) ((socketRecv s sockfd len).1.table j) := by
  unfold socketRecv
  split
  · split
    · exact .refl _
    · split
      · exact .refl _
      · exact SameButMessages.modify (fun _ => ⟨_, _, _, rfl⟩) _ _ _
  · exact .refl _

/-- **What `socket_accept` does**: fail and change nothing, or take the first entry of the queue. -/
theorem socketAccept_cases {s' : System} {fd : Int} {addr : Option Address}
    (done : socketAccept s sockfd = some (s', fd, addr)) :
    (s' = s ∧ fd = -1 ∧ ∀ i, socketGetByFd s sockfd = some i → (s.table i).state = .listening →
      (s.table i).acceptCount = 0) ∨
    ∃ i t, socketGetByFd s sockfd = some i ∧ (s.table i).state = .listening ∧
      (s.table i).acceptCount ≠ 0 ∧ (s.table i).acceptQueue (s.table i).acceptHead = some t ∧
      s' = s.modify i Socket.dequeue ∧ fd = (s.table t).fd := by
  unfold socketAccept at done
  split at done
  · rename_i missing
    cases done
    exact .inl ⟨rfl, rfl, fun i found => by cases missing.symm.trans found⟩
  · rename_i i found
    split at done
    · rename_i other
      cases done
      refine .inl ⟨rfl, rfl, fun j found' listening => ?_⟩
      cases found.symm.trans found'
      exact absurd listening other
    · rename_i listening
      split at done
      · rename_i empty
        cases done
        refine .inl ⟨rfl, rfl, fun j found' _ => ?_⟩
        cases found.symm.trans found'
        exact empty
      · rename_i waiting
        split at done
        · cases done
        · rename_i t first
          cases done
          refine .inr ⟨i, t, found, not_not.mp listening, waiting, first, rfl, ?_⟩
          rw [modify_table]
          split
          · rename_i mine
            rw [mine]
          · rfl

/-- An accept with something waiting. -/
theorem socketAccept_first {t : Slot} (found : socketGetByFd s sockfd = some i)
    (listening : (s.table i).state = .listening) (waiting : (s.table i).acceptCount ≠ 0)
    (first : (s.table i).acceptQueue (s.table i).acceptHead = some t) :
    ∃ addr, socketAccept s sockfd = some (s.modify i Socket.dequeue, (s.table t).fd, addr) := by
  have same : ((s.modify i Socket.dequeue).table t).fd = (s.table t).fd := by
    rw [modify_table]
    split
    · rename_i mine
      rw [mine]
      rfl
    · rfl
  refine ⟨some ((s.modify i Socket.dequeue).table t).remoteAddr, ?_⟩
  rw [← same]
  simp only [socketAccept, found, listening, ne_eq, not_true_eq_false, if_false]
  rw [if_neg waiting, first]
  rfl

end Tables

/-! ### Queues of live connections -/

/-- What is queued at a listener: distinct connected sockets in use, with the listener's address. -/
structure PendingLive (s : System) (listener : Slot) (pending : List Slot) : Prop where
  queued : Queued (s.table listener) pending
  nodup : pending.Nodup
  live : ∀ t ∈ pending, InUse (s.table t) ∧ (s.table t).state = .connected ∧
    (s.table t).localAddr = (s.table listener).localAddr

/-- **Accept queues hold only live pending connections.** -/
def QueuesLive (s : System) : Prop :=
  ∀ listener, (s.table listener).state = .listening → ∃ pending, PendingLive s listener pending

/-- A socket is queued at a listener. -/
def Pends (s : System) (listener t : Slot) : Prop :=
  (s.table listener).state = .listening ∧
    some t ∈ ringRead (s.table listener).acceptQueue acceptQueueSize (s.table listener).acceptHead
      (s.table listener).acceptCount

/-- **The operations that keep queues live**: they close, rebind or turn into a listener nothing that is
queued, and rebind no listener with a queue. -/
def KeepsQueues (s : System) : SocketOp → Prop
  | .bind sockfd addr => ∀ i ∈ socketGetByFd s sockfd, ∀ a ∈ addr, (s.table i).localAddr.port = 0 →
      socketFindByAddress s a = none →
      ((s.table i).state = .listening → (s.table i).acceptCount = 0) ∧ ∀ listener, ¬ Pends s listener i
  | .listen sockfd => ∀ i ∈ socketGetByFd s sockfd, (s.table i).type = .stream →
      (s.table i).localAddr.port ≠ 0 → ∀ listener, listener ≠ i → ¬ Pends s listener i
  | .close sockfd => ∀ i ∈ socketGetByFd s sockfd, ∀ listener, listener ≠ i →
      (s.table i).peer ≠ some listener →
      ¬ Pends s listener i ∧ ∀ t, (s.table i).peer = some t → ¬ Pends s listener t
  | _ => True

section Live

variable {s s' : System} {i listener t : Slot} {pending : List Slot} {sockfd : Int}

theorem pends_iff (live : PendingLive s listener pending) (listening : (s.table listener).state = .listening) :
    Pends s listener t ↔ t ∈ pending := by
  rw [Pends, live.queued.contents, List.mem_map]
  constructor
  · rintro ⟨_, u, member, same⟩
    rwa [← Option.some.inj same]
  · exact fun member => ⟨listening, t, member, rfl⟩

/-- A listener is not queued. -/
theorem PendingLive.not_listening (live : PendingLive s listener pending) (member : t ∈ pending) :
    (s.table t).state ≠ .listening := by
  rw [(live.live t member).2.1]
  decide

/-- **What leaves a queue and the sockets on it alone** keeps it. -/
theorem PendingLive.congr (live : PendingLive s listener pending)
    (queue : SameQueue (s.table listener) (s'.table listener))
    (address : (s'.table listener).localAddr = (s.table listener).localAddr)
    (same : ∀ t ∈ pending, (s'.table t).state = .connected ∧
      (s'.table t).localAddr = (s.table t).localAddr) : PendingLive s' listener pending := by
  refine ⟨live.queued.congr queue, live.nodup, fun t member => ?_⟩
  obtain ⟨connected, kept⟩ := same t member
  refine ⟨.inl ?_, connected, ?_⟩
  · rw [connected]
    decide
  · rw [kept, address]
    exact (live.live t member).2.2

/-- What a queue of the table before says about one after. -/
theorem QueuesLive.connected (after : QueuesLive s') (queue : SameQueue (s.table listener) (s'.table listener))
    (listening : (s'.table listener).state = .listening) (pends : Pends s listener t) :
    (s'.table t).state = .connected ∧ (s'.table t).localAddr = (s'.table listener).localAddr := by
  obtain ⟨pending, live⟩ := after listener listening
  obtain ⟨cells, head, tail, count⟩ := queue
  have member : some t ∈ pending.map some := by
    rw [← live.queued.contents, cells, head, count]
    exact pends.2
  obtain ⟨u, inside, same⟩ := List.mem_map.mp member
  cases same
  exact (live.live t inside).2

/-- **A change that queues do not see.** -/
theorem QueuesLive.congr (live : QueuesLive s) (same : ∀ j, SameQueue (s.table j) (s'.table j) ∧
    (s'.table j).state = (s.table j).state ∧ (s'.table j).localAddr = (s.table j).localAddr) :
    QueuesLive s' := by
  intro listener listening
  rw [(same listener).2.1] at listening
  obtain ⟨pending, here⟩ := live listener listening
  refine ⟨pending, here.congr (same listener).1 (same listener).2.2 fun t member => ?_⟩
  rw [(same t).2.1, (same t).2.2]
  exact ⟨(here.live t member).2.1, rfl⟩

/-! ### Each operation -/

theorem queuesLive_create (live : QueuesLive s) (pid : Nat) (family type : Int) :
    QueuesLive (socketCreate s pid family type).1 := by
  unfold socketCreate
  split
  · exact live
  · split
    · exact live
    · split
      · exact live
      · rename_i server room
        have closed := socketAlloc_closed room
        intro listener listening
        simp only [modify_table] at listening
        split at listening
        · cases listening
        · rename_i other
          obtain ⟨pending, here⟩ := live listener listening
          refine ⟨pending, here.congr ?_ ?_ fun t member => ?_⟩
          · simp only [modify_table, if_neg other]
            exact ⟨rfl, rfl, rfl, rfl⟩
          · simp only [modify_table, if_neg other]
          · have connected := (here.live t member).2.1
            have apart : t ≠ server := by
              rintro rfl
              cases closed.symm.trans connected
            simp only [modify_table, if_neg apart]
            exact ⟨connected, trivial⟩

theorem socketFindByAddress_none {a : Address} (none : socketFindByAddress s a = none)
    (listening : (s.table listener).state = .listening) : (s.table listener).localAddr ≠ a := by
  rintro rfl
  have test := List.find?_eq_none.mp none listener (List.mem_finRange listener)
  simp [listening] at test

/-- A socket gets an address that nobody listens at. -/
theorem queuesLive_rebound {a : Address} (live : QueuesLive s) (none : socketFindByAddress s a = none) :
    QueuesLive (s.modify i fun sock => { sock with localAddr := a }) ↔
      ((s.table i).state = .listening → (s.table i).acceptCount = 0) ∧
        ∀ listener, ¬ Pends s listener i := by
  generalize rebound : (s.modify i fun sock => { sock with localAddr := a }) = s'
  have table : ∀ j, s'.table j = if j = i then { s.table i with localAddr := a } else s.table j :=
    fun j => by rw [← rebound, modify_table]
  have here : s'.table i = { s.table i with localAddr := a } := by rw [table, if_pos rfl]
  have there : ∀ {j}, j ≠ i → s'.table j = s.table j := fun other => by rw [table, if_neg other]
  have queue : ∀ j, SameQueue (s.table j) (s'.table j) ∧ (s'.table j).state = (s.table j).state := by
    intro j
    by_cases mine : j = i
    · rw [mine, here]
      exact ⟨⟨rfl, rfl, rfl, rfl⟩, rfl⟩
    · rw [there mine]
      exact ⟨⟨rfl, rfl, rfl, rfl⟩, rfl⟩
  constructor
  · intro after
    refine ⟨fun listening => ?_, fun listener pends => ?_⟩
    · obtain ⟨pending, before⟩ := live i listening
      cases pending with
      | nil => exact before.queued.length.symm
      | cons t rest =>
          have member : t ∈ t :: rest := List.mem_cons_self
          have apart : t ≠ i := by
            rintro rfl
            exact before.not_listening member listening
          have pends := (pends_iff before listening).mpr member
          have address := (after.connected (queue i).1 ((queue i).2.trans listening) pends).2
          rw [there apart, here, (before.live t member).2.2] at address
          exact absurd address (socketFindByAddress_none none listening)
    · obtain ⟨pending, before⟩ := live listener pends.1
      have apart : listener ≠ i := by
        rintro rfl
        exact before.not_listening ((pends_iff before pends.1).mp pends) pends.1
      have address := (after.connected (queue listener).1 ((queue listener).2.trans pends.1) pends).2
      rw [here, there apart] at address
      exact absurd address.symm (socketFindByAddress_none none pends.1)
  · rintro ⟨empty, unqueued⟩ listener listening
    rw [(queue listener).2] at listening
    obtain ⟨pending, before⟩ := live listener listening
    by_cases mine : listener = i
    · subst mine
      have alone : pending = [] := List.eq_nil_of_length_eq_zero (before.queued.length.trans (empty listening))
      subst alone
      exact ⟨[], before.queued.congr (queue listener).1, List.nodup_nil, fun t member => by cases member⟩
    · refine ⟨pending, before.congr (queue listener).1 (by rw [there mine]) fun t member => ?_⟩
      have apart : t ≠ i := by
        rintro rfl
        exact unqueued listener ((pends_iff before listening).mpr member)
      rw [there apart]
      exact ⟨(before.live t member).2.1, rfl⟩

theorem queuesLive_bind (live : QueuesLive s) (addr : Option Address) :
    QueuesLive (socketBind s sockfd addr).1 ↔ KeepsQueues s (.bind sockfd addr) := by
  cases found : socketGetByFd s sockfd with
  | none => simp [socketBind, found, live, KeepsQueues]
  | some i =>
      cases addr with
      | none => simp [socketBind, live, KeepsQueues]
      | some a =>
          by_cases bound : (s.table i).localAddr.port = 0
          · cases listens : socketFindByAddress s a with
            | some other => simp [socketBind, found, bound, listens, live, KeepsQueues]
            | none =>
                simp only [socketBind, found, bound, listens, KeepsQueues, Option.mem_def,
                  Option.some.injEq, forall_eq', ne_eq, not_true_eq_false, if_false, Option.isSome_none,
                  Bool.false_eq_true, forall_const]
                exact queuesLive_rebound live listens
          · simp [socketBind, found, bound, live, KeepsQueues]

/-- A socket that starts to listen leaves all queues but its own. -/
theorem queuesLive_listening (live : QueuesLive s) {f : Socket → Socket}
    (listens : (f (s.table i)).state = .listening)
    (reset : (f (s.table i)).acceptHead = 0 ∧ (f (s.table i)).acceptTail = 0 ∧
      (f (s.table i)).acceptCount = 0) :
    QueuesLive (s.modify i f) ↔ ∀ listener, listener ≠ i → ¬ Pends s listener i := by
  have here : (s.modify i f).table i = f (s.table i) := by rw [modify_table, if_pos rfl]
  have there : ∀ {j}, j ≠ i → (s.modify i f).table j = s.table j := fun other => by
    rw [modify_table, if_neg other]
  constructor
  · intro after listener other pends
    have queue : SameQueue (s.table listener) ((s.modify i f).table listener) := by
      rw [there other]
      exact ⟨rfl, rfl, rfl, rfl⟩
    have connected := (after.connected queue (by rw [there other]; exact pends.1) pends).1
    rw [here, listens] at connected
    cases connected
  · intro unqueued listener listening
    by_cases mine : listener = i
    · subst mine
      refine ⟨[], ?_, List.nodup_nil, fun t member => by cases member⟩
      rw [here]
      exact Queued.reset reset
    · rw [there mine] at listening
      obtain ⟨pending, before⟩ := live listener listening
      refine ⟨pending, before.congr ?_ (by rw [there mine]) fun t member => ?_⟩
      · rw [there mine]
        exact ⟨rfl, rfl, rfl, rfl⟩
      · have apart : t ≠ i := by
          rintro rfl
          exact unqueued listener mine ((pends_iff before listening).mpr member)
        rw [there apart]
        exact ⟨(before.live t member).2.1, rfl⟩

theorem queuesLive_listen (live : QueuesLive s) :
    QueuesLive (socketListen s sockfd).1 ↔ KeepsQueues s (.listen sockfd) := by
  cases found : socketGetByFd s sockfd with
  | none => simp [socketListen, found, live, KeepsQueues]
  | some i =>
      by_cases kind : (s.table i).type = .stream
      · by_cases bound : (s.table i).localAddr.port = 0
        · simp [socketListen, found, kind, bound, live, KeepsQueues]
        · simp only [socketListen, found, kind, bound, ne_eq, not_true_eq_false, if_false, KeepsQueues,
            Option.mem_def, Option.some.injEq, forall_eq', not_false_eq_true, forall_const]
          exact queuesLive_listening live rfl ⟨rfl, rfl, rfl⟩
      · simp [socketListen, found, kind, live, KeepsQueues]

theorem queuesLive_close (live : QueuesLive s) :
    QueuesLive (socketClose s sockfd).1 ↔ KeepsQueues s (.close sockfd) := by
  cases found : socketGetByFd s sockfd with
  | none => simp [socketClose, found, live, KeepsQueues]
  | some i =>
      have table := socketClose_table found
      have kept : ∀ {j}, j ≠ i → (s.table i).peer ≠ some j → (socketClose s sockfd).1.table j = s.table j :=
        fun other stranger => by rw [table, if_neg other, if_neg stranger]
      have closed : ∀ {j}, j = i ∨ (s.table i).peer = some j →
          ((socketClose s sockfd).1.table j).state = .closed := by
        intro j which
        rw [table]
        split
        · rfl
        · rename_i other
          rw [if_pos (which.resolve_left other)]
      simp only [KeepsQueues, found, Option.mem_def, Option.some.injEq, forall_eq']
      constructor
      · intro after listener other stranger
        have same := kept other stranger
        have queue : SameQueue (s.table listener) ((socketClose s sockfd).1.table listener) := by
          rw [same]
          exact ⟨rfl, rfl, rfl, rfl⟩
        have gone : ∀ t, t = i ∨ (s.table i).peer = some t → ¬ Pends s listener t := by
          intro t which pends
          have connected := (after.connected queue (by rw [same]; exact pends.1) pends).1
          rw [closed which] at connected
          cases connected
        exact ⟨gone i (.inl rfl), fun t peer => gone t (.inr peer)⟩
      · intro unqueued listener listening
        have other : listener ≠ i := by
          rintro rfl
          rw [closed (.inl rfl)] at listening
          cases listening
        have stranger : (s.table i).peer ≠ some listener := by
          intro peer
          rw [closed (.inr peer)] at listening
          cases listening
        rw [kept other stranger] at listening
        obtain ⟨self, peers⟩ := unqueued listener other stranger
        obtain ⟨pending, before⟩ := live listener listening
        refine ⟨pending, before.congr ?_ (by rw [kept other stranger]) fun t member => ?_⟩
        · rw [kept other stranger]
          exact ⟨rfl, rfl, rfl, rfl⟩
        · have pends := (pends_iff before listening).mpr member
          rw [kept (fun same => self (same ▸ pends)) fun peer => peers t peer pends]
          exact ⟨(before.live t member).2.1, rfl⟩

theorem QueuesLive.sameButMessages (live : QueuesLive s)
    (same : ∀ j, SameButMessages (s.table j) (s'.table j)) : QueuesLive s' := by
  refine live.congr fun j => ?_
  obtain ⟨_, _, _, here⟩ := same j
  rw [here]
  exact ⟨⟨rfl, rfl, rfl, rfl⟩, rfl, rfl⟩

theorem queuesLive_accept (live : QueuesLive s) {fd : Int} {addr : Option Address}
    (done : socketAccept s sockfd = some (s', fd, addr)) : QueuesLive s' := by
  rcases socketAccept_cases done with ⟨rfl, _⟩ | ⟨i, t, _, listening, waiting, _, rfl, _⟩
  · exact live
  · have same : ∀ j, ((s.modify i Socket.dequeue).table j).state = (s.table j).state ∧
        ((s.modify i Socket.dequeue).table j).localAddr = (s.table j).localAddr := by
      intro j
      rw [modify_table]
      split
      · rename_i mine
        rw [mine]
        exact ⟨rfl, rfl⟩
      · exact ⟨rfl, rfl⟩
    intro listener listens
    rw [(same listener).1] at listens
    obtain ⟨pending, before⟩ := live listener listens
    by_cases mine : listener = i
    · subst mine
      cases pending with
      | nil => exact absurd before.queued.length.symm waiting
      | cons u rest =>
          refine ⟨rest, ?_, (List.nodup_cons.mp before.nodup).2, fun v member => ?_⟩
          · rw [modify_table, if_pos rfl]
            exact before.queued.dequeue.2
          · rw [InUse, (same v).1, (same v).2, (same listener).2]
            obtain ⟨_, connected, address⟩ := before.live v (List.mem_cons_of_mem _ member)
            exact ⟨.inl (by rw [connected]; decide), connected, address⟩
    · refine ⟨pending, before.congr ?_ (same listener).2 fun v member => ?_⟩
      · rw [modify_table, if_neg mine]
        exact ⟨rfl, rfl, rfl, rfl⟩
      · rw [(same v).1, (same v).2]
        exact ⟨(before.live v member).2.1, rfl⟩

/-- The states, addresses and descriptors after a connection is made. -/
theorem socketConnect_face {a : Address} {server : Slot} (found : socketGetByFd s sockfd = some i)
    (listens : socketFindByAddress s a = some listener) (room : socketAlloc s = some server) (j : Slot) :
    ((socketConnect s sockfd (some a)).1.table j).state =
        (if j = server ∨ j = i then .connected else (s.table j).state) ∧
      ((socketConnect s sockfd (some a)).1.table j).localAddr =
        (if j = server then (s.table listener).localAddr else (s.table j).localAddr) ∧
      ((socketConnect s sockfd (some a)).1.table j).fd =
        if j = server then s.nextSockfd else (s.table j).fd := by
  have queue : ∀ sock : Socket, (sock.enqueue server).state = sock.state ∧
      (sock.enqueue server).localAddr = sock.localAddr ∧ (sock.enqueue server).fd = sock.fd := by
    intro sock
    unfold Socket.enqueue
    split <;> exact ⟨rfl, rfl, rfl⟩
  have face : (joinedTable s i listener server a j).state =
        (if j = server ∨ j = i then .connected else (s.table j).state) ∧
      (joinedTable s i listener server a j).localAddr =
        (if j = server then (s.table listener).localAddr else (s.table j).localAddr) ∧
      (joinedTable s i listener server a j).fd = if j = server then s.nextSockfd else (s.table j).fd := by
    unfold joinedTable
    by_cases atServer : j = server
    · simp [atServer]
    · by_cases client : j = i
      · subst client
        simp [atServer]
      · simp [atServer, client]
  rw [socketConnect_table found listens room j]
  split
  · rw [(queue _).1, (queue _).2.1, (queue _).2.2]
    exact face
  · exact face

/-- A connection joins the queue of its listener. -/
theorem queuesLive_joined {a : Address} {server : Slot} (live : QueuesLive s)
    (found : socketGetByFd s sockfd = some i) (listens : socketFindByAddress s a = some listener)
    (room : socketAlloc s = some server) : QueuesLive (socketConnect s sockfd (some a)).1 := by
  have face := socketConnect_face found listens room
  have table := socketConnect_table found listens room
  have closed := socketAlloc_closed room
  intro other listening
  have notServer : other ≠ server := by
    rintro rfl
    rw [(face other).1, if_pos (.inl rfl)] at listening
    cases listening
  have notClient : other ≠ i := by
    rintro rfl
    rw [(face other).1, if_pos (.inr rfl)] at listening
    cases listening
  rw [(face other).1, if_neg (by tauto)] at listening
  obtain ⟨pending, before⟩ := live other listening
  have apart : ∀ t ∈ pending, t ≠ server := by
    rintro t member rfl
    cases closed.symm.trans (before.live t member).2.1
  have kept : ∀ t ∈ pending, ((socketConnect s sockfd (some a)).1.table t).state = .connected ∧
      ((socketConnect s sockfd (some a)).1.table t).localAddr = (s.table t).localAddr := by
    intro t member
    rw [(face t).1, (face t).2.1, if_neg (apart t member)]
    refine ⟨?_, rfl⟩
    split
    · rfl
    · exact (before.live t member).2.1
  have address : ((socketConnect s sockfd (some a)).1.table other).localAddr =
      (s.table other).localAddr := by rw [(face other).2.1, if_neg notServer]
  have here := table other
  rw [joinedTable, if_neg notServer, if_neg notClient] at here
  by_cases mine : other = listener
  · subst mine
    rw [if_pos rfl] at here
    by_cases space : (s.table other).acceptCount < acceptQueueSize
    · refine ⟨pending ++ [server], ?_, ?_, fun t member => ?_⟩
      · rw [here]
        exact before.queued.enqueue space server
      · rw [List.nodup_append]
        refine ⟨before.nodup, List.nodup_singleton _, fun t member u last => ?_⟩
        rw [List.mem_singleton.mp last]
        exact apart t member
      · rcases List.mem_append.mp member with old | new
        · obtain ⟨connected, same⟩ := kept t old
          rw [InUse, connected, same, address]
          exact ⟨.inl (by decide), rfl, (before.live t old).2.2⟩
        · rw [List.mem_singleton.mp new, InUse, (face server).1, (face server).2.1, if_pos (.inl rfl),
            if_pos rfl, address]
          exact ⟨.inl (by decide), rfl, rfl⟩
    · refine ⟨pending, before.congr ?_ address kept⟩
      rw [here, Socket.enqueue, if_neg space]
      exact ⟨rfl, rfl, rfl, rfl⟩
  · rw [if_neg mine] at here
    refine ⟨pending, before.congr ?_ address kept⟩
    rw [here]
    exact ⟨rfl, rfl, rfl, rfl⟩

theorem queuesLive_connect (live : QueuesLive s) (addr : Option Address) :
    QueuesLive (socketConnect s sockfd addr).1 := by
  rcases socketConnect_cases s sockfd addr with
    ⟨refused, _⟩ | ⟨i, a, listener, server, rfl, found, listens, room, _⟩
  · rw [refused]
    exact live
  · exact queuesLive_joined live found listens room

theorem queuesLive_step {c d : Client} {op : SocketOp} (live : QueuesLive c.sys)
    (step : SocketStep c op d) : QueuesLive d.sys ↔ KeepsQueues c.sys op := by
  cases step with
  | create pid family type => exact iff_of_true (queuesLive_create live pid family type) trivial
  | bind sockfd addr => exact queuesLive_bind live addr
  | listen sockfd => exact queuesLive_listen live
  | connect sockfd addr => exact iff_of_true (queuesLive_connect live addr) trivial
  | accept done => exact iff_of_true (queuesLive_accept live done) trivial
  | send sockfd buf msg =>
      exact iff_of_true (live.sameButMessages (socketSend_messages buf msg)) trivial
  | recv sockfd len => exact iff_of_true (live.sameButMessages (socketRecv_messages len)) trivial
  | close sockfd => exact queuesLive_close live

/-- **What an accept returns**: nothing, or the descriptor of a connection made to this listener. -/
theorem QueuesLive.accepted (live : QueuesLive s) {fd : Int} {addr : Option Address}
    (done : socketAccept s sockfd = some (s', fd, addr)) : fd = -1 ∧ s' = s ∨
      ∃ listener t, socketGetByFd s sockfd = some listener ∧ fd = (s.table t).fd ∧
        (s.table t).state = .connected ∧ (s.table t).localAddr = (s.table listener).localAddr := by
  rcases socketAccept_cases done with ⟨same, none, _⟩ | ⟨i, t, found, listening, waiting, first, _, rfl⟩
  · exact .inl ⟨none, same⟩
  · obtain ⟨pending, before⟩ := live i listening
    cases pending with
    | nil => exact absurd before.queued.length.symm waiting
    | cons u rest =>
        cases before.queued.dequeue.1.symm.trans first
        exact .inr ⟨i, t, found, rfl, (before.live t List.mem_cons_self).2⟩

end Live

/-- **Exactly when accept queues stay live.** In every run from a table with live queues whose operations
keep them, queues are live in every state reached, and an accept returns the descriptor of a connection made
to its listener; and from each such state one further operation leads to a table with live queues exactly
when it keeps them. -/
theorem queues_live {c d : Client} {ops : List SocketOp} (live : QueuesLive c.sys)
    (run : Run (Guarded (fun c op => KeepsQueues c.sys op) SocketStep) c ops d) :
    QueuesLive d.sys ∧
      (∀ sockfd s' fd addr, socketAccept d.sys sockfd = some (s', fd, addr) → fd = -1 ∧ s' = d.sys ∨
        ∃ listener t, socketGetByFd d.sys sockfd = some listener ∧ fd = (d.sys.table t).fd ∧
          (d.sys.table t).state = .connected ∧
          (d.sys.table t).localAddr = (d.sys.table listener).localAddr) ∧
      ∀ op e, SocketStep d op e → (QueuesLive e.sys ↔ KeepsQueues d.sys op) := by
  have after : QueuesLive d.sys :=
    run.invariant (fun c => QueuesLive c.sys)
      (fun _ _ _ here step => (queuesLive_step here step.2).mpr step.1) live
  exact ⟨after, fun _ _ _ _ done => after.accepted done, fun _ _ step => queuesLive_step after step⟩

theorem connectedPair_queues : QueuesLive connectedPair := by
  intro listener listening
  by_cases mine : listener = 2
  · subst mine
    exact ⟨[], Queued.reset (f := id) ⟨rfl, rfl, rfl⟩, List.nodup_nil, fun t member => by cases member⟩
  · by_cases first : listener = 0
    · subst first
      cases listening
    · by_cases second : listener = 1
      · subst second
        cases listening
      · simp only [connectedPair, first, second, mine, if_false] at listening
        cases listening

/-- A connection waits at descriptor 3. -/
def waitingPair : System := (socketConnect connectedPair 1 (some sampleAddress)).1

theorem queues_live_connect : ∃ d, Run (Guarded (fun c op => KeepsQueues c.sys op) SocketStep)
    ⟨connectedPair, []⟩ [.connect 1 (some sampleAddress), .send 4 (some [7]) 4096] d ∧
      QueuesLive d.sys := by
  obtain ⟨d, second⟩ : ∃ d, SocketStep ⟨waitingPair, []⟩ (.send 4 (some [7]) 4096) d :=
    ⟨_, .send _ 4 _ _⟩
  have run : Run (Guarded (fun c op => KeepsQueues c.sys op) SocketStep) ⟨connectedPair, []⟩
      [.connect 1 (some sampleAddress), .send 4 (some [7]) 4096] d :=
    .cons ⟨trivial, .connect _ 1 _⟩ (.cons ⟨trivial, second⟩ (.nil d))
  exact ⟨d, run, (queues_live connectedPair_queues run).1⟩

/-- The server side of a waiting connection is closed, and stays queued. -/
theorem close_pending : QueuesLive waitingPair ∧ (socketClose waitingPair 4).2 = 0 ∧
    ¬ QueuesLive (socketClose waitingPair 4).1 := by
  have live : QueuesLive waitingPair := queuesLive_connect connectedPair_queues _
  refine ⟨live, by decide +kernel, fun after => ?_⟩
  have found : socketGetByFd waitingPair 4 = some 3 := by decide +kernel
  have waits : Pends waitingPair 2 3 := ⟨by decide +kernel, by decide +kernel⟩
  exact ((queuesLive_close live).mp after 3 found 2 (by decide) (by decide +kernel)).1 waits

/-! ### Accepting in order -/

/-- The system, with the descriptors of the server sides that connects to one listener made and those
that accepts on it returned, in order. -/
structure Exchange where
  sys : System
  made : List Int
  taken : List Int

/-- A client connects to the listener's address, or an accept is made on the listener. -/
inductive QueueOp where
  | connect (sockfd : Int)
  | accept (sockfd : Int)
  deriving DecidableEq, Repr

/-- One call. -/
inductive ExchangeStep (listener : Slot) : Exchange → QueueOp → Exchange → Prop
  | connect {e : Exchange} {sockfd fd : Int} {s : System}
      (client : socketGetByFd e.sys sockfd ≠ some listener)
      (done : socketConnect e.sys sockfd (some (e.sys.table listener).localAddr) = (s, fd)) :
      ExchangeStep listener e (.connect sockfd)
        ⟨s, if fd = 0 then e.made ++ [e.sys.nextSockfd] else e.made, e.taken⟩
  | accept {e : Exchange} {sockfd fd : Int} {addr : Option Address} {s : System}
      (mine : socketGetByFd e.sys sockfd = some listener)
      (done : socketAccept e.sys sockfd = some (s, fd, addr)) :
      ExchangeStep listener e (.accept sockfd)
        ⟨s, e.made, if fd = -1 then e.taken else e.taken ++ [fd]⟩

/-- Run one call that the step relation allows. -/
def QueueOp.exec (listener : Slot) (e : Exchange) : QueueOp → Outcome Exchange
  | .connect sockfd =>
      if socketGetByFd e.sys sockfd = some listener then .diverge
      else
        let (s, fd) := socketConnect e.sys sockfd (some (e.sys.table listener).localAddr)
        .ok ⟨s, if fd = 0 then e.made ++ [e.sys.nextSockfd] else e.made, e.taken⟩
  | .accept sockfd =>
      if socketGetByFd e.sys sockfd = some listener then
        match socketAccept e.sys sockfd with
        | none => .diverge
        | some (s, fd, _) => .ok ⟨s, e.made, if fd = -1 then e.taken else e.taken ++ [fd]⟩
      else .diverge

theorem ExchangeStep.of_exec {listener : Slot} {e e' : Exchange} {op : QueueOp}
    (done : op.exec listener e = .ok e') : ExchangeStep listener e op e' := by
  cases op with
  | connect sockfd =>
      simp only [QueueOp.exec] at done
      split at done
      · cases done
      · rename_i client
        cases done
        exact .connect client rfl
  | accept sockfd =>
      simp only [QueueOp.exec] at done
      split at done
      · rename_i mine
        split at done
        · cases done
        · rename_i s fd addr accepted
          cases done
          exact .accept mine accepted
      · cases done

/-- **Connections are delivered in order**: accepts returned the first ones that were made, and an accept
that returns none has left none. -/
def InOrder (listener : Slot) (e : Exchange) : Prop :=
  e.taken <+: e.made ∧ ∀ sockfd, socketGetByFd e.sys sockfd = some listener →
    ∃ s fd addr, socketAccept e.sys sockfd = some (s, fd, addr) ∧ (fd = -1 → e.taken = e.made)

/-- The connection that is made, if any, is queued: its address leads to the listener, and fewer than
sixteen are waiting there. -/
def GetsQueued (listener : Slot) (e : Exchange) : QueueOp → Prop
  | .connect sockfd => socketGetByFd e.sys sockfd = none ∨ socketAlloc e.sys = none ∨
      socketFindByAddress e.sys (e.sys.table listener).localAddr = some listener ∧
        (e.sys.table listener).acceptCount < acceptQueueSize
  | .accept _ => True

/-- What was made and not taken waits in the queue. -/
structure Delivering (listener : Slot) (e : Exchange) (pending : List Slot) : Prop where
  listening : (e.sys.table listener).state = .listening
  queued : Queued (e.sys.table listener) pending
  opened : ∀ t ∈ pending, (e.sys.table t).state ≠ .closed ∧ 1 ≤ (e.sys.table t).fd
  made : e.made = e.taken ++ pending.map fun t => (e.sys.table t).fd
  counter : 1 ≤ e.sys.nextSockfd

section Order

variable {s : System} {listener : Slot} {e e' : Exchange} {pending : List Slot} {op : QueueOp}

theorem Delivering.inOrder (here : Delivering listener e pending) : InOrder listener e := by
  refine ⟨?_, fun sockfd found => ?_⟩
  · rw [here.made]
    exact List.prefix_append _ _
  · have listening := here.listening
    cases pending with
    | nil =>
        have empty := here.queued.length.symm
        refine ⟨e.sys, -1, none, ?_, fun _ => ?_⟩
        · simp only [socketAccept, found, listening, ne_eq, not_true_eq_false, if_false]
          exact if_pos empty
        · rw [here.made, List.map_nil, List.append_nil]
    | cons t rest =>
        have waiting : (e.sys.table listener).acceptCount ≠ 0 := by
          have := here.queued.length
          rw [List.length_cons] at this
          omega
        obtain ⟨addr, done⟩ := socketAccept_first found listening waiting here.queued.dequeue.1
        refine ⟨_, _, addr, done, fun none => ?_⟩
        have named := (here.opened t List.mem_cons_self).2
        omega

/-- **A connection is made and queued.** -/
theorem Delivering.connected {sockfd : Int} {i server : Slot} (here : Delivering listener e pending)
    (client : i ≠ listener) (found : socketGetByFd e.sys sockfd = some i)
    (listens : socketFindByAddress e.sys (e.sys.table listener).localAddr = some listener)
    (room : socketAlloc e.sys = some server) (space : (e.sys.table listener).acceptCount < acceptQueueSize)
    (done : socketConnect e.sys sockfd (some (e.sys.table listener).localAddr) = (s, 0))
    (next : s.nextSockfd = e.sys.nextSockfd + 1) :
    Delivering listener ⟨s, e.made ++ [e.sys.nextSockfd], e.taken⟩ (pending ++ [server]) := by
  have table := socketConnect_table found listens room
  have face := socketConnect_face found listens room
  rw [done] at table face
  have closed := socketAlloc_closed room
  have notServer : listener ≠ server := by
    rintro rfl
    cases closed.symm.trans here.listening
  have apart : ∀ t ∈ pending, t ≠ server := by
    rintro t member rfl
    exact (here.opened t member).1 closed
  have kept : ∀ t ∈ pending, (s.table t).state ≠ .closed ∧ (s.table t).fd = (e.sys.table t).fd := by
    intro t member
    rw [(face t).1, (face t).2.2, if_neg (apart t member)]
    refine ⟨?_, rfl⟩
    split
    · decide
    · exact (here.opened t member).1
  refine ⟨?_, ?_, fun t member => ?_, ?_, ?_⟩
  · show (s.table listener).state = .listening
    rw [(face listener).1, if_neg (by rintro (same | same); exacts [notServer same, client same.symm])]
    exact here.listening
  · show Queued (s.table listener) _
    rw [table listener, if_pos rfl, joinedTable, if_neg notServer, if_neg client.symm]
    exact here.queued.enqueue space server
  · show (s.table t).state ≠ .closed ∧ 1 ≤ (s.table t).fd
    rcases List.mem_append.mp member with old | new
    · rw [(kept t old).2]
      exact ⟨(kept t old).1, (here.opened t old).2⟩
    · rw [List.mem_singleton.mp new, (face server).1, (face server).2.2, if_pos (.inl rfl), if_pos rfl]
      exact ⟨by decide, here.counter⟩
  · show e.made ++ [e.sys.nextSockfd] = e.taken ++ (pending ++ [server]).map fun t => (s.table t).fd
    rw [here.made, List.map_append, List.map_singleton, (face server).2.2, if_pos rfl, List.append_assoc,
      List.map_congr_left fun t member => (kept t member).2]
  · show 1 ≤ s.nextSockfd
    have := here.counter
    omega

/-- **The first connection is accepted.** -/
theorem Delivering.accepted {t : Slot} (here : Delivering listener e (t :: pending)) :
    Delivering listener ⟨e.sys.modify listener Socket.dequeue, e.made,
      if (e.sys.table t).fd = -1 then e.taken else e.taken ++ [(e.sys.table t).fd]⟩ pending := by
  have same : ∀ j, ((e.sys.modify listener Socket.dequeue).table j).state = (e.sys.table j).state ∧
      ((e.sys.modify listener Socket.dequeue).table j).fd = (e.sys.table j).fd := by
    intro j
    rw [modify_table]
    split
    · rename_i mine
      rw [mine]
      exact ⟨rfl, rfl⟩
    · exact ⟨rfl, rfl⟩
  have named := (here.opened t List.mem_cons_self).2
  rw [if_neg (by omega)]
  refine ⟨(same listener).1.trans here.listening, ?_, fun u member => ?_, ?_, here.counter⟩
  · show Queued ((e.sys.modify listener Socket.dequeue).table listener) pending
    rw [modify_table, if_pos rfl]
    exact here.queued.dequeue.2
  · rw [(same u).1, (same u).2]
    exact here.opened u (List.mem_cons_of_mem _ member)
  · rw [here.made, List.map_cons, List.append_assoc, List.singleton_append,
      List.map_congr_left fun u _ => (same u).2]

/-- **Each call keeps the queue the difference** of what was made and what was taken. -/
theorem Delivering.step (here : Delivering listener e pending) (step : ExchangeStep listener e op e')
    (queues : GetsQueued listener e op) : ∃ pending', Delivering listener e' pending' := by
  cases step with
  | @connect sockfd fd s client done =>
      rcases socketConnect_cases e.sys sockfd (some (e.sys.table listener).localAddr) with
        ⟨refused, _⟩ | ⟨i, a, other, server, same, found, listens, room, zero, next⟩
      · cases refused.symm.trans done
        exact ⟨pending, here.listening, here.queued, here.opened, here.made, here.counter⟩
      · cases same
        rcases queues with missing | full | ⟨reaches, space⟩
        · cases missing.symm.trans found
        · cases full.symm.trans room
        · cases reaches.symm.trans listens
          rw [done] at zero next
          simp only at zero next
          subst zero
          refine ⟨pending ++ [server], ?_⟩
          rw [if_pos rfl]
          exact here.connected (fun self => client (self ▸ found)) found listens room space done next
  | @accept sockfd fd addr s mine done =>
      rcases socketAccept_cases done with ⟨rfl, rfl, _⟩ | ⟨i, t, found, listening, waiting, first, rfl, rfl⟩
      · exact ⟨pending, here.listening, here.queued, here.opened, here.made, here.counter⟩
      · cases mine.symm.trans found
        cases pending with
        | nil => exact absurd here.queued.length.symm waiting
        | cons u rest =>
            cases here.queued.dequeue.1.symm.trans first
            exact ⟨rest, here.accepted⟩

/-- **Accepts return what connects made, in order**, as long as every connection made is queued. -/
theorem accepts_in_order {ops : List QueueOp} (listening : (s.table listener).state = .listening)
    (empty : Queued (s.table listener) []) (counter : 1 ≤ s.nextSockfd)
    (run : Run (Guarded (GetsQueued listener) (ExchangeStep listener)) ⟨s, [], []⟩ ops e) :
    InOrder listener e := by
  have start : Delivering listener ⟨s, [], []⟩ [] :=
    ⟨listening, empty, fun t member => (by cases member), rfl, counter⟩
  obtain ⟨pending, here⟩ := run.invariant (fun e => ∃ pending, Delivering listener e pending)
    (fun _ _ _ ⟨_, here⟩ step => here.step step.2 step.1) ⟨[], start⟩
  exact here.inOrder

end Order

/-- Descriptor 1 listens, and descriptors 2 to 18 are about to connect. -/
def manyClients : System where
  table i :=
    if i = 0 then
      { Socket.zero with fd := 1, state := .listening, type := .stream, localAddr := sampleAddress }
    else if i.val ≤ 17 then
      { Socket.zero with fd := i.val + 1, state := .connecting, type := .stream }
    else Socket.unused
  nextSockfd := 19
  messages := noMessages

theorem manyClients_empty : Queued (manyClients.table 0) [] := Queued.reset (f := id) ⟨rfl, rfl, rfl⟩

instance {listener : Slot} {e : Exchange} : (op : QueueOp) → Decidable (GetsQueued listener e op)
  | .connect _ => inferInstanceAs (Decidable (_ ∨ _ ∨ _ ∧ _))
  | .accept _ => inferInstanceAs (Decidable True)

/-- Two clients connect, and one of them is accepted. -/
def twoClients : Exchange :=
  (runAll (guardedExec (GetsQueued 0) fun e op => op.exec 0 e) ⟨manyClients, [], []⟩
    [.connect 2, .connect 3, .accept 1]).getD ⟨manyClients, [], []⟩

theorem accepts_in_order_two :
    Run (Guarded (GetsQueued 0) (ExchangeStep 0)) ⟨manyClients, [], []⟩
      [.connect 2, .connect 3, .accept 1] twoClients ∧ twoClients.made = [19, 20] ∧
      twoClients.taken = [19] ∧ InOrder 0 twoClients := by
  have run : Run (Guarded (GetsQueued 0) (ExchangeStep 0)) ⟨manyClients, [], []⟩
      [.connect 2, .connect 3, .accept 1] twoClients :=
    (Run.of_guardedExec (Outcome.eq_ok_getD (by decide +kernel) _)).mono fun _ _ _ step =>
      ⟨step.1, .of_exec step.2⟩
  exact ⟨run, by decide +kernel, by decide +kernel, accepts_in_order rfl manyClients_empty (by decide) run⟩

/-- All seventeen clients connect, and sixteen of them are accepted. -/
def seventeenOps : List QueueOp :=
  (List.range 17).map (fun k => .connect (k + 2)) ++ List.replicate 16 (.accept 1)

def seventeenClients : Exchange :=
  (runAll (fun e (op : QueueOp) => op.exec 0 e) ⟨manyClients, [], []⟩ seventeenOps).getD
    ⟨manyClients, [], []⟩

/-- The seventeenth connection is made and never accepted. -/
theorem connect_unqueued : (manyClients.table 0).state = .listening ∧ Queued (manyClients.table 0) [] ∧
    1 ≤ manyClients.nextSockfd ∧
    Run (ExchangeStep 0) ⟨manyClients, [], []⟩ seventeenOps seventeenClients ∧
    ¬ InOrder 0 seventeenClients := by
  refine ⟨rfl, manyClients_empty, by decide, ?_, ?_⟩
  · exact (Run.of_runAll (Outcome.eq_ok_getD (by decide +kernel) _)).mono fun _ _ _ => .of_exec
  · rintro ⟨_, whole⟩
    obtain ⟨s, fd, addr, done, all⟩ := whole 1 (by decide +kernel)
    have none : (socketAccept seventeenClients.sys 1).map (fun r => r.2.1) = some (-1) := by decide +kernel
    rw [done, Option.map_some] at none
    exact absurd (all (Option.some.inj none)) (by decide +kernel)

end Kfs.Ipc
