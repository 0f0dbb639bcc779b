/-
**Sockets: `socket.c`.**

The table, the descriptor counter and the message records, with pointers to table slots as slot numbers
and pointers to messages as heap addresses (0 for NULL). The result of the one allocation a call makes,
that of a message, is an argument of `socketSend`. Buffers are lists of bytes, `none` for NULL.

A slot can be allocated when it is CLOSED with descriptor -1, and is found by its descriptor when it is
not CLOSED. `socket_create` leaves its slot CLOSED with a descriptor, which is neither, so no created
socket can ever be used: `sockets_designated`.
-/

import Kfs.Base.Trace

namespace Kfs.Ipc

/-- `MAX_SOCKETS`. -/
def maxSockets : Nat := 256

/-- `SOCKET_MSG_SIZE`. -/
def socketMsgSize : Nat := 4096

/-- Length of an accept queue. -/
def acceptQueueSize : Nat := 16

/-- A pointer into the table. -/
abbrev Slot := Fin maxSockets

/-- `socket_state_t`. -/
inductive State where
  | closed
  | listening
  | connected
  | connecting
  deriving DecidableEq, Repr

/-- `socket_type_t`, and the zero `memset` leaves. -/
inductive SocketType where
  | unset
  | stream
  | dgram
  deriving DecidableEq, Repr

/-- The valid `type` arguments of `socket_create`. -/
def SocketType.ofInt (type : Int) : Option SocketType :=
  if type = 1 then some .stream else if type = 2 then some .dgram else none

/-- `SOCKET_AF_UNIX`. -/
def afUnix : Int := 1

/-- `socket_address_t`. -/
structure Address where
  family : Int
  pid : Nat
  port : Nat
  deriving DecidableEq, Repr

/-- `socket_msg_t`; `next` is the address of the next message. -/
structure Message where
  data : List UInt8
  srcAddr : Address
  next : Nat
  deriving DecidableEq, Repr

/-- `socket_t`. -/
structure Socket where
  fd : Int
  state : State
  type : SocketType
  family : Int
  ownerPid : Nat
  localAddr : Address
  remoteAddr : Address
  acceptQueue : Nat → Option Slot
  acceptHead : Nat
  acceptTail : Nat
  acceptCount : Nat
  msgHead : Nat
  msgTail : Nat
  msgCount : Int
  peer : Option Slot
  refcount : Int

/-- A socket after `memset(sock, 0, sizeof(socket_t))`. -/
def Socket.zero : Socket where
  fd := 0
  state := .closed
  type := .unset
  family := 0
  ownerPid := 0
  localAddr := ⟨0, 0, 0⟩
  remoteAddr := ⟨0, 0, 0⟩
  acceptQueue := fun _ => none
  acceptHead := 0
  acceptTail := 0
  acceptCount := 0
  msgHead := 0
  msgTail := 0
  msgCount := 0
  peer := none
  refcount := 0

/-- A free slot. -/
def Socket.unused : Socket := { Socket.zero with state := .closed, fd := -1 }

/-- The static variables and the messages in the kernel heap. Descriptors are counted without
wrapping: fewer than `2 ^ 31` are ever handed out. -/
structure System where
  table : Slot → Socket
  nextSockfd : Int
  messages : Nat → Message

namespace System

/-- Change one slot. -/
def modify (s : System) (i : Slot) (f : Socket → Socket) : System :=
  { s with table := Function.update s.table i (f (s.table i)) }

/-- Change one message. -/
def modifyMessage (s : System) (p : Nat) (f : Message → Message) : System :=
  { s with messages := Function.update s.messages p (f (s.messages p)) }

end System

/-- `socket_init`. -/
def socketInit (nextSockfd : Int) (messages : Nat → Message) : System :=
  ⟨fun _ => Socket.unused, nextSockfd, messages⟩

/-- The first slot a scan of the table stops at. -/
def scan (s : System) (test : Socket → Bool) : Option Slot :=
  (List.finRange maxSockets).find? fun i => test (s.table i)

/-- The test of `socket_alloc`. -/
def allocatable (sock : Socket) : Bool := sock.state = .closed ∧ sock.fd = -1

/-- `socket_alloc`. -/
def socketAlloc (s : System) : Option Slot := scan s allocatable

/-- `socket_get_by_fd`. -/
def socketGetByFd (s : System) (fd : Int) : Option Slot :=
  scan s fun sock => sock.fd = fd ∧ sock.state ≠ .closed

/-- `socket_find_by_address`. -/
def socketFindByAddress (s : System) (addr : Address) : Option Slot :=
  scan s fun sock => sock.state = .listening ∧ sock.localAddr.family = addr.family ∧
    sock.localAddr.pid = addr.pid ∧ sock.localAddr.port = addr.port

/-- `socket_create`. -/
def socketCreate (s : System) (pid : Nat) (family type : Int) : System × Int :=
  if family ≠ afUnix then (s, -1)
  else
    match SocketType.ofInt type with
    | none => (s, -1)
    | some type =>
        match socketAlloc s with
        | none => (s, -1)
        | some i =>
            let s' := s.modify i fun _ =>
              { Socket.zero with
                fd := s.nextSockfd
                state := .closed
                type := type
                family := family
                ownerPid := pid
                refcount := 1 }
            ({ s' with nextSockfd := s.nextSockfd + 1 }, s.nextSockfd)

/-- `socket_bind`. -/
def socketBind (s : System) (sockfd : Int) (addr : Option Address) : System × Int :=
  match socketGetByFd s sockfd, addr with
  | some i, some addr =>
      if (s.table i).localAddr.port ≠ 0 then (s, -1)
      else if (socketFindByAddress s addr).isSome then (s, -1)
      else (s.modify i fun sock => { sock with localAddr := addr }, 0)
  | _, _ => (s, -1)

/-- `socket_listen`. -/
def socketListen (s : System) (sockfd : Int) : System × Int :=
  match socketGetByFd s sockfd with
  | none => (s, -1)
  | some i =>
      if (s.table i).type ≠ .stream then (s, -1)
      else if (s.table i).localAddr.port = 0 then (s, -1)
      else
        (s.modify i fun sock =>
          { sock with state := .listening, acceptHead := 0, acceptTail := 0, acceptCount := 0 }, 0)

/-- `socket_accept`: the descriptor and the address stored through `addr`. Nothing is returned when
the code would follow a NULL entry of the queue. -/
def socketAccept (s : System) (sockfd : Int) : Option (System × Int × Option Address) :=
  match socketGetByFd s sockfd with
  | none => some (s, -1, none)
  | some i =>
      if (s.table i).state ≠ .listening then some (s, -1, none)
      else if (s.table i).acceptCount = 0 then some (s, -1, none)
      else
        match (s.table i).acceptQueue (s.table i).acceptHead with
        | none => none
        | some client =>
            let s := s.modify i fun sock =>
              { sock with
                acceptHead := (sock.acceptHead + 1) % acceptQueueSize
                acceptCount := sock.acceptCount - 1 }
            some (s, (s.table client).fd, some (s.table client).remoteAddr)

/-- The tail of `socket_connect`: queue the new socket at the listener if there is room. -/
def enqueueAccept (s : System) (listener server : Slot) : System :=
  s.modify listener fun sock =>
    if sock.acceptCount < acceptQueueSize then
      { sock with
        acceptQueue := Function.update sock.acceptQueue sock.acceptTail (some server)
        acceptTail := (sock.acceptTail + 1) % acceptQueueSize
        acceptCount := sock.acceptCount + 1 }
    else sock

/-- `socket_connect`. -/
def socketConnect (s : System) (sockfd : Int) (addr : Option Address) : System × Int :=
  match socketGetByFd s sockfd, addr with
  | some i, some addr =>
      match socketFindByAddress s addr with
      | none => (s, -1)
      | some listener =>
          match socketAlloc s with
          | none => (s, -1)
          | some server =>
              let fd := s.nextSockfd
              let s := s.modify server fun _ =>
                { Socket.zero with
                  fd := fd
                  state := .connected
                  type := (s.table listener).type
                  family := (s.table listener).family
                  ownerPid := (s.table listener).ownerPid
                  localAddr := (s.table listener).localAddr
                  remoteAddr := ⟨afUnix, (s.table i).ownerPid, 0⟩
                  refcount := 1 }
              let s := { s with nextSockfd := fd + 1 }
              let s := s.modify i fun sock => { sock with peer := some server }
              let s := s.modify server fun sock => { sock with peer := some i }
              let s := s.modify i fun sock => { sock with state := .connected, remoteAddr := addr }
              (enqueueAccept s listener server, 0)
  | _, _ => (s, -1)

/-- `socket_send`, where `msg` is what `kmalloc` returns for the message. -/
def socketSend (s : System) (sockfd : Int) (buf : Option (List UInt8)) (msg : Nat) :
    System × Int :=
  match socketGetByFd s sockfd, buf with
  | some i, some buf =>
      if buf.length = 0 then (s, -1)
      else if (s.table i).state ≠ .connected then (s, -1)
      else
        match (s.table i).peer with
        | none => (s, -1)
        | some peer =>
            let data := buf.take socketMsgSize
            if msg = 0 then (s, -1)
            else
              let s := s.modifyMessage msg fun _ => ⟨data, (s.table i).localAddr, 0⟩
              let tail := (s.table peer).msgTail
              let s :=
                if tail ≠ 0 then s.modifyMessage tail fun last => { last with next := msg }
                else s.modify peer fun sock => { sock with msgHead := msg }
              (s.modify peer fun sock =>
                { sock with msgTail := msg, msgCount := sock.msgCount + 1 }, data.length)
  | _, _ => (s, -1)

/-- `socket_recv` into a buffer of `len` bytes (`none` for NULL), with the bytes it stores there. -/
def socketRecv (s : System) (sockfd : Int) (len : Option Nat) : System × Int × List UInt8 :=
  match socketGetByFd s sockfd, len with
  | some i, some len =>
      if len = 0 then (s, -1, [])
      else if (s.table i).msgHead = 0 then (s, 0, [])
      else
        let msg := s.messages (s.table i).msgHead
        let data := msg.data.take len
        (s.modify i fun sock =>
          { sock with
            msgHead := msg.next
            msgTail := if msg.next = 0 then 0 else sock.msgTail
            msgCount := sock.msgCount - 1 }, data.length, data)
  | _, _ => (s, -1, [])

/-- `socket_close`. The messages still queued go back to the kernel heap. -/
def socketClose (s : System) (sockfd : Int) : System × Int :=
  match socketGetByFd s sockfd with
  | none => (s, -1)
  | some i =>
      let s :=
        match (s.table i).peer with
        | none => s
        | some peer => s.modify peer fun sock => { sock with peer := none, state := .closed }
      (s.modify i fun _ => Socket.unused, 0)

/-- `socket_can_read`. -/
def socketCanRead (s : System) (sockfd : Int) : Int :=
  match socketGetByFd s sockfd with
  | none => 0
  | some i => if 0 < (s.table i).msgCount then 1 else 0

/-! ### Runs -/

/-- The operations, with what their callers and `kmalloc` supply. -/
inductive SocketOp where
  | create (pid : Nat) (family type : Int)
  | bind (sockfd : Int) (addr : Option Address)
  | listen (sockfd : Int)
  | connect (sockfd : Int) (addr : Option Address)
  | accept (sockfd : Int)
  | send (sockfd : Int) (buf : Option (List UInt8)) (msg : Nat)
  | recv (sockfd : Int) (len : Option Nat)
  | close (sockfd : Int)

/-- The system and the descriptors `socket_create` returned that no `socket_close` has ended. -/
structure Client where
  sys : System
  opened : List Int

/-- One operation. -/
inductive SocketStep : Client → SocketOp → Client → Prop
  | create (c : Client) (pid : Nat) (family type : Int) :
      SocketStep c (.create pid family type) ⟨(socketCreate c.sys pid family type).1,
        if (socketCreate c.sys pid family type).2 = -1 then c.opened
        else (socketCreate c.sys pid family type).2 :: c.opened⟩
  | bind (c : Client) (sockfd : Int) (addr : Option Address) :
      SocketStep c (.bind sockfd addr) ⟨(socketBind c.sys sockfd addr).1, c.opened⟩
  | listen (c : Client) (sockfd : Int) :
      SocketStep c (.listen sockfd) ⟨(socketListen c.sys sockfd).1, c.opened⟩
  | connect (c : Client) (sockfd : Int) (addr : Option Address) :
      SocketStep c (.connect sockfd addr) ⟨(socketConnect c.sys sockfd addr).1, c.opened⟩
  | accept {c : Client} {sockfd fd : Int} {addr : Option Address} {s : System}
      (done : socketAccept c.sys sockfd = some (s, fd, addr)) :
      SocketStep c (.accept sockfd) ⟨s, c.opened⟩
  | send (c : Client) (sockfd : Int) (buf : Option (List UInt8)) (msg : Nat) :
      SocketStep c (.send sockfd buf msg) ⟨(socketSend c.sys sockfd buf msg).1, c.opened⟩
  | recv (c : Client) (sockfd : Int) (len : Option Nat) :
      SocketStep c (.recv sockfd len) ⟨(socketRecv c.sys sockfd len).1, c.opened⟩
  | close (c : Client) (sockfd : Int) :
      SocketStep c (.close sockfd) ⟨(socketClose c.sys sockfd).1,
        if (socketClose c.sys sockfd).2 = 0 then c.opened.erase sockfd else c.opened⟩

/-- The system after `socket_init`, the counter at 1. -/
def Client.init (messages : Nat → Message) : Client := ⟨socketInit 1 messages, []⟩

/-- Every slot is free or is the one its own descriptor designates, and every descriptor that was
created and not closed designates a slot. -/
structure Designated (c : Client) : Prop where
  slots : ∀ i, allocatable (c.sys.table i) = true ∨
    socketGetByFd c.sys (c.sys.table i).fd = some i ∧
      ∀ j, j ≠ i → (c.sys.table j).fd ≠ (c.sys.table i).fd
  usable : ∀ fd ∈ c.opened, ∃ i, socketGetByFd c.sys fd = some i

/-- A `socket_create` is refused: another family, another type, or no slot. -/
def CreateRefused (c : Client) : SocketOp → Prop
  | .create _ family type =>
      family ≠ afUnix ∨ SocketType.ofInt type = none ∨ socketAlloc c.sys = none
  | _ => True

/-! ### No created socket is designated -/

section Designation

variable {s : System} {c d : Client} {op : SocketOp}

theorem scan_eq_some {test : Socket → Bool} {i : Slot} (found : scan s test = some i) :
    test (s.table i) = true := by
  have := List.find?_some found
  exact this

/-- A descriptor never designates a CLOSED slot. -/
theorem socketGetByFd_open {fd : Int} {i : Slot} (found : socketGetByFd s fd = some i) :
    (s.table i).state ≠ .closed := by
  have test := scan_eq_some found
  simp only [decide_eq_true_eq] at test
  exact test.2

/-- **A socket that was just created is neither free nor designated.** -/
theorem socketCreate_not_designated {pid : Nat} {family type : Int} {opened : List Int}
    (counter : s.nextSockfd ≠ -1) (accepted : ¬ CreateRefused c (.create pid family type))
    (same : c.sys = s) : ¬ Designated ⟨(socketCreate s pid family type).1, opened⟩ := by
  subst same
  simp only [CreateRefused, not_or, ne_eq, not_not] at accepted
  obtain ⟨unix, valid, room⟩ := accepted
  obtain ⟨kind, known⟩ := Option.ne_none_iff_exists'.mp valid
  obtain ⟨i, found⟩ := Option.ne_none_iff_exists'.mp room
  intro designated
  have created : (socketCreate c.sys pid family type).1.table i =
      { Socket.zero with
        fd := c.sys.nextSockfd
        state := .closed
        type := kind
        family := family
        ownerPid := pid
        refcount := 1 } := by
    simp [socketCreate, unix, known, found, System.modify]
  rcases designated.slots i with free | ⟨own, _⟩
  · simp only [created, allocatable, decide_eq_true_eq] at free
    exact counter free.2
  · exact socketGetByFd_open own (by simp only [created])

/-- Nothing was ever created: every slot is free, and no descriptor is open. -/
structure Untouched (c : Client) : Prop where
  free : ∀ i, c.sys.table i = Socket.unused
  counter : c.sys.nextSockfd = 1
  none : c.opened = []

theorem Untouched.socketGetByFd (untouched : Untouched c) (fd : Int) :
    socketGetByFd c.sys fd = Option.none := by
  refine List.find?_eq_none.mpr fun i _ => ?_
  simp [untouched.free i, Socket.unused, Socket.zero]

theorem Untouched.designated (untouched : Untouched c) : Designated c := by
  refine ⟨fun i => Or.inl ?_, fun fd member => ?_⟩
  · rw [untouched.free i]
    rfl
  · rw [untouched.none] at member
    cases member

/-- Without a descriptor to name a socket, every operation but a create fails. -/
theorem SocketStep.keeps (step : SocketStep c op d) (untouched : Untouched c)
    (refused : CreateRefused c op) : Untouched d := by
  have missing := untouched.socketGetByFd
  cases step with
  | create pid family type =>
      have same : socketCreate c.sys pid family type = (c.sys, -1) := by
        unfold socketCreate
        by_cases other : family = afUnix
        · rw [if_neg (not_not.mpr other)]
          rcases refused with wrong | unknown | full
          · exact absurd other wrong
          · rw [unknown]
          · cases SocketType.ofInt type with
            | none => rfl
            | some kind => simp only [full]
        · rw [if_pos other]
      rw [same]
      exact untouched
  | bind sockfd addr =>
      simp only [socketBind, missing sockfd]
      exact untouched
  | listen sockfd =>
      simp only [socketListen, missing sockfd]
      exact untouched
  | connect sockfd addr =>
      simp only [socketConnect, missing sockfd]
      exact untouched
  | accept done =>
      simp only [socketAccept, missing _] at done
      cases done
      exact untouched
  | send sockfd buf msg =>
      simp only [socketSend, missing sockfd]
      exact untouched
  | recv sockfd len =>
      simp only [socketRecv, missing sockfd]
      exact untouched
  | close sockfd =>
      simp only [socketClose, missing sockfd]
      exact untouched

end Designation

/-- **Exactly when every socket in use is designated by its descriptor.** In every run from
`socket_init` in which every `socket_create` is refused, every state reached is designated; and from
every such state one further operation leads to a designated state exactly when it is not a
`socket_create` that succeeds. -/
theorem sockets_designated {messages : Nat → Message} {ops : List SocketOp} {c : Client}
    (run : Run (Guarded CreateRefused SocketStep) (Client.init messages) ops c) :
    Designated c ∧ ∀ op d, SocketStep c op d → (Designated d ↔ CreateRefused c op) := by
  have start : Untouched (Client.init messages) := ⟨fun _ => rfl, rfl, rfl⟩
  have untouched : Untouched c :=
    run.invariant Untouched (fun _ _ _ here step => step.2.keeps here step.1) start
  refine ⟨untouched.designated, fun op d step => ⟨fun designated => ?_, fun refused => ?_⟩⟩
  · by_contra accepted
    cases step with
    | create pid family type =>
        exact socketCreate_not_designated (by rw [untouched.counter]; decide) accepted rfl designated
    | _ => exact accepted trivial
  · exact (step.keeps untouched refused).designated

/-- A message store that was never written. -/
def noMessages : Nat → Message := fun _ => ⟨[], ⟨0, 0, 0⟩, 0⟩

theorem sockets_designated_inet : ∃ c, Run (Guarded CreateRefused SocketStep)
    (Client.init noMessages) [.create 1 2 1, .close 1] c ∧ Designated c := by
  obtain ⟨c, first⟩ : ∃ c, SocketStep (Client.init noMessages) (.create 1 2 1) c :=
    ⟨_, .create _ 1 2 1⟩
  obtain ⟨d, second⟩ : ∃ d, SocketStep c (.close 1) d := ⟨_, .close _ 1⟩
  have run : Run (Guarded CreateRefused SocketStep) (Client.init noMessages)
      [.create 1 2 1, .close 1] d :=
    .cons ⟨Or.inl (by decide), first⟩ (.cons ⟨trivial, second⟩ (.nil d))
  exact ⟨d, run, (sockets_designated run).1⟩

/-- The first socket ever created is already lost. -/
theorem socketCreate_lost : ∃ c, Run SocketStep (Client.init noMessages)
    [.create 1 1 1] c ∧ ¬ Designated c := by
  refine ⟨_, .cons (.create _ 1 1 1) (.nil _), ?_⟩
  refine socketCreate_not_designated (by decide) ?_ rfl
  rintro (other | unknown | full)
  · exact other rfl
  · cases unknown
  · have free := List.find?_eq_none.mp full ⟨0, by decide⟩ (List.mem_finRange _)
    exact free rfl

end Kfs.Ipc
