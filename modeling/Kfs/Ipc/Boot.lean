/-
**The sockets since boot.**

`socket_create` leaves its slot CLOSED, and every other call looks for a slot that is not. So the whole of `socket.c`
comes down to a counter: the call that creates the n-th socket returns n, up to the last slot of the table; every other
call fails, and none of the slots ever comes back. `socket_calls_count` says so of every sequence of calls from
`socket_init`.
-/

import Kfs.Ipc.Socket

namespace Kfs.Ipc

/-- The socket system calls and the two tests, with what their callers and `kmalloc` supply; `current` is the pid of the
current process. -/
inductive SocketCall where
  | socket (current : Option Nat) (family type : Int)
  | bind (sockfd : Int) (addr : Option Address)
  | listen (sockfd : Int)
  | connect (sockfd : Int) (addr : Option Address)
  | accept (sockfd : Int)
  | send (sockfd : Int) (buf : Option (List UInt8)) (msg : Nat)
  | recv (sockfd : Int) (len : Option Nat)
  | close (sockfd : Int)
  | canRead (sockfd : Int)
  | canWrite (sockfd : Int)

/-- What a call returns, and the bytes and the address it stores for its caller. -/
structure Reply where
  value : Int
  bytes : List UInt8
  addr : Option Address
  deriving DecidableEq, Repr

/-- Nothing is stored. -/
def Reply.plain (value : Int) : Reply := ⟨value, [], none⟩

/-- `sys_socket`. -/
def sysSocket (s : System) (current : Option Nat) (family type : Int) : System × Int :=
  match current with
  | none => (s, -1)
  | some pid => socketCreate s pid family type

/-- `socket_can_write`. -/
def socketCanWrite (s : System) (sockfd : Int) : Int :=
  match socketGetByFd s sockfd with
  | none => 0
  | some i => if (s.table i).state = .connected then 1 else 0

/-- One call; `none` when the code would follow a NULL pointer. -/
def SocketCall.exec (s : System) : SocketCall → Option (System × Reply)
  | .socket current family type =>
      some ((sysSocket s current family type).1, .plain (sysSocket s current family type).2)
  | .bind sockfd addr => some ((socketBind s sockfd addr).1, .plain (socketBind s sockfd addr).2)
  | .listen sockfd => some ((socketListen s sockfd).1, .plain (socketListen s sockfd).2)
  | .connect sockfd addr => some ((socketConnect s sockfd addr).1, .plain (socketConnect s sockfd addr).2)
  | .accept sockfd => (socketAccept s sockfd).map fun done => (done.1, ⟨done.2.1, [], done.2.2⟩)
  | .send sockfd buf msg => some ((socketSend s sockfd buf msg).1, .plain (socketSend s sockfd buf msg).2)
  | .recv sockfd len =>
      some ((socketRecv s sockfd len).1, ⟨(socketRecv s sockfd len).2.1, (socketRecv s sockfd len).2.2, none⟩)
  | .close sockfd => some ((socketClose s sockfd).1, .plain (socketClose s sockfd).2)
  | .canRead sockfd => some (s, .plain (socketCanRead s sockfd))
  | .canWrite sockfd => some (s, .plain (socketCanWrite s sockfd))

/-- A sequence of calls and their replies. -/
def runCalls (s : System) : List SocketCall → Option (System × List Reply)
  | [] => some (s, [])
  | call :: calls =>
      match call.exec s with
      | none => none
      | some (s', reply) => (runCalls s' calls).map fun done => (done.1, reply :: done.2)

/-! ### The counter -/

/-- The arguments with which a socket is made, if there is room. -/
def SocketCall.creates : SocketCall → Bool
  | .socket current family type => current.isSome && decide (family = afUnix) && (SocketType.ofInt type).isSome
  | _ => false

/-- What a call that creates nothing replies: the tests 0, all others -1. -/
def SocketCall.failure : SocketCall → Reply
  | .canRead _ | .canWrite _ => .plain 0
  | _ => .plain (-1)

/-- One call on a counter. -/
def SocketCall.count (n : Nat) (call : SocketCall) : Nat × Reply :=
  if call.creates ∧ n < maxSockets then (n + 1, .plain (n + 1)) else (n, call.failure)

/-- A sequence of calls on a counter. -/
def countCalls (n : Nat) : List SocketCall → Nat × List Reply
  | [] => (n, [])
  | call :: calls => ((countCalls (call.count n).1 calls).1, (call.count n).2 :: (countCalls (call.count n).1 calls).2)

/-- **What `n` created sockets leave**: the first `n` slots CLOSED with the descriptors from 1 on, the others free, and
no message ever touched. -/
structure Created (messages : Nat → Message) (n : Nat) (s : System) : Prop where
  room : n ≤ maxSockets
  counter : s.nextSockfd = n + 1
  taken : ∀ i : Slot, i.val < n → (s.table i).state = .closed ∧ (s.table i).fd = i.val + 1
  free : ∀ i : Slot, n ≤ i.val → s.table i = Socket.unused
  messages : s.messages = messages

namespace Created

variable {messages : Nat → Message} {n : Nat} {s : System} {call : SocketCall}

theorem init (messages : Nat → Message) : Created messages 0 (socketInit 1 messages) :=
  ⟨Nat.zero_le _, rfl, fun _ none => absurd none (Nat.not_lt_zero _), fun _ _ => rfl, rfl⟩

/-- Every slot is CLOSED. -/
theorem closed (created : Created messages n s) (i : Slot) : (s.table i).state = .closed := by
  rcases Nat.lt_or_ge i.val n with below | beyond
  · exact (created.taken i below).1
  · rw [created.free i beyond]
    rfl

/-- So no descriptor designates a socket. -/
theorem missing (created : Created messages n s) (fd : Int) : socketGetByFd s fd = none := by
  refine List.find?_eq_none.mpr fun i _ => ?_
  simp [created.closed i]

/-- The slots that can be allocated are those from `n` on. -/
theorem allocatable_iff (created : Created messages n s) (i : Slot) :
    allocatable (s.table i) = true ↔ n ≤ i.val := by
  constructor
  · intro can
    by_contra below
    have taken := created.taken i (by omega)
    simp only [allocatable, decide_eq_true_eq, taken] at can
    omega
  · intro beyond
    rw [created.free i beyond]
    rfl

/-- **`socket_alloc` gives the slot `n`**, if there is one. -/
theorem alloc (created : Created messages n s) :
    socketAlloc s = if room : n < maxSockets then some ⟨n, room⟩ else none := by
  split
  · rename_i room
    refine List.find?_eq_some_iff_getElem.mpr ⟨(created.allocatable_iff _).mpr le_rfl, n, ?_, ?_, ?_⟩
    · rw [List.length_finRange]
      exact room
    · simp
    · intro j before
      rw [Bool.not_eq_true', ← Bool.not_eq_true, created.allocatable_iff]
      simpa using before
  · rename_i full
    refine List.find?_eq_none.mpr fun i _ => ?_
    rw [created.allocatable_iff]
    have inside := i.isLt
    omega

/-- **A socket is created** in the slot `n`. -/
theorem create (created : Created messages n s) (room : n < maxSockets) {pid : Nat} {type : Int} {kind : SocketType}
    (known : SocketType.ofInt type = some kind) :
    (socketCreate s pid afUnix type).2 = n + 1 ∧ Created messages (n + 1) (socketCreate s pid afUnix type).1 := by
  have place : socketAlloc s = some ⟨n, room⟩ := by
    rw [created.alloc, dif_pos room]
  have counter := created.counter
  simp only [socketCreate, ne_eq, not_true_eq_false, if_false, known, place]
  refine ⟨counter, ⟨room, ?_, fun i below => ?_, fun i beyond => ?_, created.messages⟩⟩
  · show s.nextSockfd + 1 = ((n + 1 : Nat) : Int) + 1
    rw [counter]
    omega
  · by_cases here : i = ⟨n, room⟩
    · subst here
      simp only [System.modify, Function.update_self]
      exact ⟨trivial, counter⟩
    · have other : i.val ≠ n := fun same => here (Fin.ext same)
      simp only [System.modify, Function.update_of_ne here]
      exact created.taken i (by omega)
  · have here : i ≠ ⟨n, room⟩ := fun same => by
      rw [same] at beyond
      exact absurd beyond (Nat.not_succ_le_self n)
    simp only [System.modify, Function.update_of_ne here]
    exact created.free i (by omega)

/-- Without its arguments or without room no socket is created. -/
theorem refuse (created : Created messages n s) {current : Option Nat} {family type : Int}
    (refused : ¬ (SocketCall.creates (.socket current family type) ∧ n < maxSockets)) :
    sysSocket s current family type = (s, -1) := by
  cases current with
  | none => rfl
  | some pid =>
      show socketCreate s pid family type = (s, -1)
      unfold socketCreate
      by_cases unix : family = afUnix
      · rw [if_neg (not_not.mpr unix)]
        cases known : SocketType.ofInt type with
        | none => rfl
        | some kind =>
            have full : ¬ n < maxSockets := fun room =>
              refused ⟨by simp [SocketCall.creates, unix, known], room⟩
            have nowhere : socketAlloc s = none := by
              rw [created.alloc, dif_neg full]
            simp only [nowhere]
      · rw [if_pos unix]

/-- **One call** is a step of the counter. -/
theorem exec (created : Created messages n s) (call : SocketCall) :
    ∃ s', call.exec s = some (s', (call.count n).2) ∧ Created messages (call.count n).1 s' := by
  have missing := created.missing
  cases call with
  | socket current family type =>
      by_cases creates : SocketCall.creates (.socket current family type) ∧ n < maxSockets
      · rw [SocketCall.count, if_pos creates]
        obtain ⟨given, room⟩ := creates
        simp only [SocketCall.creates, Bool.and_eq_true, decide_eq_true_eq] at given
        obtain ⟨⟨somebody, unix⟩, valid⟩ := given
        obtain ⟨pid, rfl⟩ := Option.isSome_iff_exists.mp somebody
        obtain ⟨kind, known⟩ := Option.isSome_iff_exists.mp valid
        subst unix
        obtain ⟨value, after⟩ := @create messages n s created room pid type kind known
        refine ⟨_, ?_, after⟩
        rw [SocketCall.exec]
        dsimp only [sysSocket]
        rw [value]
      · refine ⟨s, ?_, ?_⟩
        · rw [SocketCall.exec, created.refuse creates, SocketCall.count, if_neg creates]
          rfl
        · rw [SocketCall.count, if_neg creates]
          exact created
  | bind sockfd addr => exact ⟨s, by simp [SocketCall.exec, socketBind, missing]; rfl, created⟩
  | listen sockfd => exact ⟨s, by simp [SocketCall.exec, socketListen, missing]; rfl, created⟩
  | connect sockfd addr => exact ⟨s, by simp [SocketCall.exec, socketConnect, missing]; rfl, created⟩
  | accept sockfd => exact ⟨s, by simp [SocketCall.exec, socketAccept, missing]; rfl, created⟩
  | send sockfd buf msg => exact ⟨s, by simp [SocketCall.exec, socketSend, missing]; rfl, created⟩
  | recv sockfd len => exact ⟨s, by simp [SocketCall.exec, socketRecv, missing]; rfl, created⟩
  | close sockfd => exact ⟨s, by simp [SocketCall.exec, socketClose, missing]; rfl, created⟩
  | canRead sockfd => exact ⟨s, by simp [SocketCall.exec, socketCanRead, missing]; rfl, created⟩
  | canWrite sockfd => exact ⟨s, by simp [SocketCall.exec, socketCanWrite, missing]; rfl, created⟩

/-- **A sequence of calls** is a run of the counter. -/
theorem run (created : Created messages n s) (calls : List SocketCall) :
    ∃ s', runCalls s calls = some (s', (countCalls n calls).2) ∧ Created messages (countCalls n calls).1 s' := by
  induction calls generalizing n s with
  | nil => exact ⟨s, rfl, created⟩
  | cons call calls ih =>
      obtain ⟨middle, first, between⟩ := created.exec call
      obtain ⟨s', rest, after⟩ := ih between
      refine ⟨s', ?_, after⟩
      rw [runCalls, first]
      dsimp only
      rw [rest]
      rfl

end Created

/-- A counter at the size of the table stays there. -/
theorem countCalls_full (calls : List SocketCall) :
    countCalls maxSockets calls = (maxSockets, calls.map SocketCall.failure) := by
  induction calls with
  | nil => rfl
  | cons call calls ih =>
      have full : call.count maxSockets = (maxSockets, call.failure) := by
        rw [SocketCall.count, if_neg fun both => lt_irrefl _ both.2]
      rw [countCalls, full, ih]
      rfl

/-- **The sockets are a counter.** In every sequence of calls from `socket_init` on, each call returns, none follows a
NULL pointer, and the replies are those of a counter: the call that creates the n-th socket returns n, every other call
fails and stores nothing. No message is ever touched, and once the counter is at the size of the table every call fails,
whatever is closed in between. -/
theorem socket_calls_count (messages : Nat → Message) (calls : List SocketCall) :
    (∃ s, runCalls (socketInit 1 messages) calls = some (s, (countCalls 0 calls).2) ∧ s.messages = messages ∧
      (countCalls 0 calls).1 ≤ maxSockets) ∧
    ∀ later, (countCalls 0 calls).1 = maxSockets →
      ∃ s, runCalls (socketInit 1 messages) (calls ++ later) =
        some (s, (countCalls 0 calls).2 ++ later.map SocketCall.failure) := by
  have start := Created.init messages
  constructor
  · obtain ⟨s, ran, created⟩ := start.run calls
    exact ⟨s, ran, created.messages, created.room⟩
  · intro later full
    obtain ⟨s, ran, -⟩ := start.run (calls ++ later)
    have parts : ∀ n (first : List SocketCall), (countCalls n (first ++ later)).2 =
        (countCalls n first).2 ++ (countCalls (countCalls n first).1 later).2 := by
      intro n first
      induction first generalizing n with
      | nil => rfl
      | cons call first ih => rw [List.cons_append, countCalls, ih, countCalls, List.cons_append]
    rw [parts, full, countCalls_full] at ran
    exact ⟨s, ran⟩

/-- After 256 sockets, closing the first of them and asking for another one both fail. -/
theorem socket_calls_count_full :
    let made := List.replicate 256 (SocketCall.socket (some 1) 1 1)
    ∃ s, runCalls (socketInit 1 noMessages) (made ++ [.close 1, .socket (some 1) 1 1]) =
      some (s, (countCalls 0 made).2 ++ [.plain (-1), .plain (-1)]) ∧
        ((countCalls 0 made).2.map Reply.value).getLast? = some 256 := by
  have full : (countCalls 0 (List.replicate 256 (SocketCall.socket (some 1) 1 1))).1 = maxSockets := by
    decide +kernel
  obtain ⟨s, ran⟩ := (socket_calls_count noMessages (List.replicate 256 (.socket (some 1) 1 1))).2
    [.close 1, .socket (some 1) 1 1] full
  exact ⟨s, ran, by decide +kernel⟩

end Kfs.Ipc
