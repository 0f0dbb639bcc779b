/-
**Peer links.**

A connection is stored twice, in the `peer` fields of its two ends. `WellFormed` says that the two agree
and that exactly the CONNECTED sockets have a peer. `peers_symmetric`: from a well-formed table every
operation leads to a well-formed one, except for `socket_connect` on a socket that has a peer, which
overwrites one side of the old connection, for `socket_listen` on a socket that has a peer, and for
descriptors that are handed out a second time.
-/

import Kfs.Ipc.Socket

namespace Kfs.Ipc

/-- The slot is taken: `socket_alloc` does not hand it out. -/
def InUse (sock : Socket) : Prop := sock.state ≠ .closed ∨ sock.fd ≠ -1

/-- Descriptors in use are distinct, peer links are symmetric between CONNECTED sockets, and every
CONNECTED socket has a peer. -/
structure WellFormed (s : System) : Prop where
  distinct : ∀ i j, InUse (s.table i) → InUse (s.table j) → (s.table i).fd = (s.table j).fd → i = j
  links : ∀ i t, (s.table i).peer = some t → InUse (s.table t) ∧ (s.table t).peer = some i ∧
    (s.table i).state = .connected ∧ (s.table t).state = .connected
  peers : ∀ i, (s.table i).state = .connected → (s.table i).peer ≠ none

/-- What the definition looks at. -/
def SameLinks (a b : Socket) : Prop := b.fd = a.fd ∧ b.state = a.state ∧ b.peer = a.peer

/-- The next descriptor is not in use. -/
def FreshFd (s : System) : Prop := ∀ i, InUse (s.table i) → (s.table i).fd ≠ s.nextSockfd

/-- The operations that keep peer links symmetric. -/
def KeepsPeers (s : System) : SocketOp → Prop
  | .create _ family type => family ≠ afUnix ∨ SocketType.ofInt type = none ∨ socketAlloc s = none ∨
      s.nextSockfd = -1 ∨ FreshFd s
  | .listen sockfd => ∀ i ∈ socketGetByFd s sockfd, (s.table i).type = .stream →
      (s.table i).localAddr.port ≠ 0 → (s.table i).peer = none
  | .connect sockfd addr => ∀ i ∈ socketGetByFd s sockfd, ∀ a ∈ addr,
      socketFindByAddress s a = none ∨ socketAlloc s = none ∨
        FreshFd s ∧ ((s.table i).peer = none ∨ (s.table i).peer = some i)
  | _ => True

section Links

variable {s s' : System} {i j server : Slot}

theorem inUse_congr {a b : Socket} (same : SameLinks a b) : InUse b ↔ InUse a := by
  rw [InUse, InUse, same.1, same.2.1]

theorem WellFormed.congr (wf : WellFormed s) (same : ∀ j, SameLinks (s.table j) (s'.table j)) :
    WellFormed s' := by
  refine ⟨fun i j usedi usedj equal => ?_, fun i t peer => ?_, fun i connected => ?_⟩
  · rw [inUse_congr (same i)] at usedi
    rw [inUse_congr (same j)] at usedj
    rw [(same i).1, (same j).1] at equal
    exact wf.distinct i j usedi usedj equal
  · rw [(same i).2.2] at peer
    rw [inUse_congr (same t), (same t).2.2, (same i).2.1, (same t).2.1]
    exact wf.links i t peer
  · rw [(same i).2.1] at connected
    rw [(same i).2.2]
    exact wf.peers i connected

theorem modify_table (s : System) (i j : Slot) (f : Socket → Socket) :
    (s.modify i f).table j = if j = i then f (s.table i) else s.table j :=
  Function.update_apply s.table i (f (s.table i)) j

theorem sameLinks_modify {f : Socket → Socket} (keeps : ∀ sock, SameLinks sock (f sock)) (j : Slot) :
    SameLinks (s.table j) ((s.modify i f).table j) := by
  rw [modify_table]
  split
  · rename_i here
    rw [here]
    exact keeps _
  · exact ⟨rfl, rfl, rfl⟩

theorem WellFormed.modify (wf : WellFormed s) {f : Socket → Socket}
    (keeps : ∀ sock, SameLinks sock (f sock)) : WellFormed (s.modify i f) :=
  wf.congr (sameLinks_modify keeps)

theorem SameLinks.symm {a b : Socket} (same : SameLinks a b) : SameLinks b a :=
  ⟨same.1.symm, same.2.1.symm, same.2.2.symm⟩

theorem wellFormed_congr (same : ∀ j, SameLinks (s.table j) (s'.table j)) :
    WellFormed s' ↔ WellFormed s :=
  ⟨fun wf => wf.congr fun j => (same j).symm, fun wf => wf.congr same⟩

theorem socketAlloc_free (found : socketAlloc s = some i) : ¬ InUse (s.table i) := by
  have test := scan_eq_some found
  simp only [allocatable, decide_eq_true_eq] at test
  rintro (opened | named)
  · exact opened test.1
  · exact named test.2

/-- A free slot has no peer and is nobody's peer. -/
theorem WellFormed.free (wf : WellFormed s) (free : ¬ InUse (s.table i)) :
    (s.table i).peer = none ∧ ∀ j, (s.table j).peer ≠ some i := by
  refine ⟨?_, fun j peer => free (wf.links j i peer).1⟩
  cases peer : (s.table i).peer with
  | none => rfl
  | some t =>
      have connected := (wf.links i t peer).2.2.1
      exact absurd (Or.inl (by rw [connected]; decide)) free

end Links

/-! ### Each operation -/

section Operations

variable {s : System} {i : Slot} {sockfd : Int}

theorem SameLinks.refl (sock : Socket) : SameLinks sock sock := ⟨rfl, rfl, rfl⟩

theorem SameLinks.trans {a b c : Socket} (first : SameLinks a b) (second : SameLinks b c) :
    SameLinks a c :=
  ⟨second.1.trans first.1, second.2.1.trans first.2.1, second.2.2.trans first.2.2⟩

theorem socketBind_links (addr : Option Address) (j : Slot) :
    SameLinks (s.table j) ((socketBind s sockfd addr).1.table j) := by
  unfold socketBind
  split
  · split
    · exact .refl _
    · split
      · exact .refl _
      · dsimp only
        refine sameLinks_modify ?_ j
        exact fun _ => ⟨rfl, rfl, rfl⟩
  · exact .refl _

theorem socketAccept_links {s' : System} {fd : Int} {addr : Option Address}
    (done : socketAccept s sockfd = some (s', fd, addr)) (j : Slot) :
    SameLinks (s.table j) (s'.table j) := by
  unfold socketAccept at done
  split at done
  · cases done
    exact .refl _
  · split at done
    · cases done
      exact .refl _
    · split at done
      · cases done
        exact .refl _
      · split at done
        · cases done
        · cases done
          refine sameLinks_modify ?_ j
          exact fun _ => ⟨rfl, rfl, rfl⟩

theorem socketSend_links (buf : Option (List UInt8)) (msg : Nat) (j : Slot) :
    SameLinks (s.table j) ((socketSend s sockfd buf msg).1.table j) := by
  unfold socketSend
  split
  · split
    · exact .refl _
    · split
      · exact .refl _
      · split
        · exact .refl _
        · simp only
          split
          · exact .refl _
          · dsimp only
            refine SameLinks.trans ?_ (sameLinks_modify ?_ j)
            · split
              · exact .refl _
              · refine sameLinks_modify (s := s.modifyMessage _ _) ?_ j
                exact fun _ => ⟨rfl, rfl, rfl⟩
            · exact fun _ => ⟨rfl, rfl, rfl⟩
  · exact .refl _

theorem socketRecv_links (len : Option Nat) (j : Slot) :
    SameLinks (s.table j) ((socketRecv s sockfd len).1.table j) := by
  unfold socketRecv
  split
  · split
    · exact .refl _
    · split
      · exact .refl _
      · dsimp only
        refine sameLinks_modify ?_ j
        exact fun _ => ⟨rfl, rfl, rfl⟩
  · exact .refl _

theorem wellFormed_bind (wf : WellFormed s) (addr : Option Address) :
    WellFormed (socketBind s sockfd addr).1 := wf.congr (socketBind_links addr)

theorem wellFormed_accept (wf : WellFormed s) {s' : System} {fd : Int} {addr : Option Address}
    (done : socketAccept s sockfd = some (s', fd, addr)) : WellFormed s' :=
  wf.congr (socketAccept_links done)

theorem wellFormed_send (wf : WellFormed s) (buf : Option (List UInt8)) (msg : Nat) :
    WellFormed (socketSend s sockfd buf msg).1 := wf.congr (socketSend_links buf msg)

theorem wellFormed_recv (wf : WellFormed s) (len : Option Nat) :
    WellFormed (socketRecv s sockfd len).1 := wf.congr (socketRecv_links len)

/-- The table after `socket_close`: the socket is free, and its peer is cut off. -/
theorem socketClose_table (found : socketGetByFd s sockfd = some i) (j : Slot) :
    (socketClose s sockfd).1.table j =
      if j = i then Socket.unused
      else if (s.table i).peer = some j then { s.table j with peer := none, state := .closed }
      else s.table j := by
  simp only [socketClose, found, modify_table]
  by_cases here : j = i
  · simp [here]
  · cases peer : (s.table i).peer with
    | none => simp [here]
    | some t =>
        by_cases other : j = t
        · simp [other, modify_table]
        · simp [here, other, Ne.symm other, modify_table]

theorem wellFormed_close (wf : WellFormed s) : WellFormed (socketClose s sockfd).1 := by
  cases found : socketGetByFd s sockfd with
  | none =>
      simp only [socketClose, found]
      exact wf
  | some i =>
      have table := socketClose_table found
      have before : ∀ j, InUse ((socketClose s sockfd).1.table j) →
          InUse (s.table j) ∧ ((socketClose s sockfd).1.table j).fd = (s.table j).fd := by
        intro j used
        rw [table] at used ⊢
        split at used
        · exact absurd used (by simp [InUse, Socket.unused])
        · rename_i other
          rw [if_neg other]
          split at used
          · rename_i peer
            rw [if_pos peer]
            exact ⟨(wf.links i j peer).1, rfl⟩
          · rename_i notPeer
            rw [if_neg notPeer]
            exact ⟨used, rfl⟩
      have same : ∀ j, (socketClose s sockfd).1.table j = s.table j ∨
          ((socketClose s sockfd).1.table j).peer = none ∧
            ((socketClose s sockfd).1.table j).state = .closed := by
        intro j
        rw [table]
        split
        · exact .inr ⟨rfl, rfl⟩
        · split
          · exact .inr ⟨rfl, rfl⟩
          · exact .inl rfl
      refine ⟨fun j k usedj usedk equal => ?_, fun j t peer => ?_, fun j connected => ?_⟩
      · rw [(before j usedj).2, (before k usedk).2] at equal
        exact wf.distinct j k (before j usedj).1 (before k usedk).1 equal
      · rcases same j with kept | ⟨gone, -⟩
        · rw [kept] at peer
          obtain ⟨used, back, connected, other⟩ := wf.links j t peer
          have untouched : (socketClose s sockfd).1.table t = s.table t := by
            rw [table, if_neg ?_, if_neg ?_]
            · intro cut
              have again := (wf.links i t cut).2.1
              rw [back] at again
              cases again
              rw [table, if_pos rfl] at kept
              rw [← kept] at peer
              cases peer
            · rintro rfl
              rw [table, if_pos back] at kept
              split at kept
              · rw [← kept] at peer
                cases peer
              · rw [← kept] at peer
                cases peer
          rw [untouched, kept]
          exact ⟨used, back, connected, other⟩
        · cases gone.symm.trans peer
      · rcases same j with kept | ⟨-, closed⟩
        · rw [kept] at connected ⊢
          exact wf.peers j connected
        · cases closed.symm.trans connected

end Operations

/-! ### The operations that may break a link -/

section Breaking

variable {s : System} {i j listener server : Slot} {sockfd : Int}

/-- A listening socket has given up its connection. -/
theorem wellFormed_listening (wf : WellFormed s) (opened : (s.table i).state ≠ .closed)
    {f : Socket → Socket} (listens : ∀ sock, (f sock).fd = sock.fd ∧ (f sock).state = .listening ∧
      (f sock).peer = sock.peer) : WellFormed (s.modify i f) ↔ (s.table i).peer = none := by
  have here : (s.modify i f).table i = f (s.table i) := by rw [modify_table, if_pos rfl]
  have there : ∀ {k}, k ≠ i → (s.modify i f).table k = s.table k := fun other => by
    rw [modify_table, if_neg other]
  obtain ⟨fd, state, peer⟩ := listens (s.table i)
  constructor
  · intro after
    by_contra some_peer
    obtain ⟨t, linked⟩ := Option.ne_none_iff_exists'.mp some_peer
    have connected := (after.links i t (by rw [here, peer, linked])).2.2.1
    rw [here, state] at connected
    cases connected
  · intro alone
    have stranger : ∀ k t, (s.table k).peer = some t → k ≠ i ∧ t ≠ i := by
      intro k t linked
      refine ⟨?_, ?_⟩
      · rintro rfl
        exact nomatch alone.symm.trans linked
      · rintro rfl
        exact nomatch alone.symm.trans (wf.links k _ linked).2.1
    have used : ∀ k, InUse ((s.modify i f).table k) →
        InUse (s.table k) ∧ ((s.modify i f).table k).fd = (s.table k).fd := by
      intro k inUse
      by_cases other : k = i
      · subst other
        exact ⟨.inl opened, by rw [here, fd]⟩
      · rw [there other] at inUse ⊢
        exact ⟨inUse, rfl⟩
    refine ⟨fun k l usedk usedl equal => ?_, fun k t linked => ?_, fun k connected => ?_⟩
    · rw [(used k usedk).2, (used l usedl).2] at equal
      exact wf.distinct k l (used k usedk).1 (used l usedl).1 equal
    · have before : (s.table k).peer = some t := by
        rw [modify_table] at linked
        split at linked
        · rename_i same
          rw [same, ← peer, linked]
        · exact linked
      obtain ⟨left, right⟩ := stranger k t before
      rw [there left, there right]
      exact wf.links k t before
    · by_cases other : k = i
      · subst other
        rw [here, state] at connected
        cases connected
      · rw [there other] at connected ⊢
        exact wf.peers k connected

theorem wellFormed_listen (wf : WellFormed s) :
    WellFormed (socketListen s sockfd).1 ↔ KeepsPeers s (.listen sockfd) := by
  cases found : socketGetByFd s sockfd with
  | none => simp [socketListen, found, wf, KeepsPeers]
  | some i =>
      by_cases kind : (s.table i).type = .stream
      · by_cases bound : (s.table i).localAddr.port = 0
        · simp [socketListen, found, kind, bound, wf, KeepsPeers]
        · simp only [socketListen, found, kind, bound, ne_eq, not_true_eq_false, if_false, KeepsPeers,
            Option.mem_def, Option.some.injEq, forall_eq', not_false_eq_true, forall_const]
          exact wellFormed_listening wf (socketGetByFd_open found) fun _ => ⟨rfl, rfl, rfl⟩
      · simp [socketListen, found, kind, wf, KeepsPeers]

/-- A slot that was free takes a descriptor without being opened. -/
theorem wellFormed_named (wf : WellFormed s) (free : ¬ InUse (s.table i)) {sock : Socket}
    (closed : sock.state = .closed) (alone : sock.peer = none) (fd : sock.fd = s.nextSockfd)
    {next : Int} : WellFormed { s.modify i (fun _ => sock) with nextSockfd := next } ↔
      s.nextSockfd = -1 ∨ FreshFd s := by
  have here : (s.modify i fun _ => sock).table i = sock := by rw [modify_table, if_pos rfl]
  have there : ∀ {k}, k ≠ i → (s.modify i fun _ => sock).table k = s.table k := fun other => by
    rw [modify_table, if_neg other]
  have notFree : ∀ {k}, InUse (s.table k) → k ≠ i := by
    rintro k used rfl
    exact free used
  constructor
  · intro after
    by_cases special : s.nextSockfd = -1
    · exact .inl special
    · refine .inr fun k used equal => notFree used ?_
      refine after.distinct k i ?_ ?_ ?_
      · rw [there (notFree used)]
        exact used
      · rw [here]
        exact .inr (by rwa [fd])
      · rw [there (notFree used), here, equal, fd]
  · intro fresh
    have unlinked := wf.free free
    refine ⟨fun k l usedk usedl equal => ?_, fun k t linked => ?_, fun k connected => ?_⟩
    · have stranger : ∀ m, m ≠ i → InUse (s.table m) → InUse sock → (s.table m).fd ≠ sock.fd := by
        intro m other used opened
        rcases opened with opened | opened
        · exact absurd closed opened
        · rcases fresh with special | fresh
          · exact absurd (fd.trans special) opened
          · rw [fd]
            exact fresh m used
      by_cases left : k = i
      · by_cases right : l = i
        · rw [left, right]
        · subst left
          simp only [here, there right] at usedk usedl equal
          exact absurd equal.symm (stranger l right usedl usedk)
      · by_cases right : l = i
        · subst right
          simp only [here, there left] at usedk usedl equal
          exact absurd equal (stranger k left usedk usedl)
        · simp only [there left, there right] at usedk usedl equal
          exact wf.distinct k l usedk usedl equal
    · by_cases left : k = i
      · subst left
        simp only [here, alone] at linked
        cases linked
      · simp only [there left] at linked ⊢
        have right : t ≠ i := by
          rintro rfl
          exact unlinked.2 k linked
        rw [there right]
        exact wf.links k t linked
    · by_cases left : k = i
      · subst left
        simp only [here, closed] at connected
        cases connected
      · simp only [there left] at connected ⊢
        exact wf.peers k connected

theorem wellFormed_create (wf : WellFormed s) (pid : Nat) (family type : Int) :
    WellFormed (socketCreate s pid family type).1 ↔ KeepsPeers s (.create pid family type) := by
  by_cases unix : family = afUnix
  · cases known : SocketType.ofInt type with
    | none => simp [socketCreate, unix, known, wf, KeepsPeers]
    | some kind =>
        cases room : socketAlloc s with
        | none => simp [socketCreate, unix, known, room, wf, KeepsPeers]
        | some i =>
            simp only [socketCreate, unix, known, room, KeepsPeers, ne_eq, not_true_eq_false, if_false,
              false_or, reduceCtorEq]
            exact wellFormed_named wf (socketAlloc_free room) rfl rfl rfl
  · simp [socketCreate, unix, wf, KeepsPeers]

/-- The table after a connection was made between `i` and the slot `server`, which was free. -/
def linkedTable (s : System) (i server : Slot) (j : Slot) : Socket :=
  if j = server then { Socket.zero with fd := s.nextSockfd, state := .connected, peer := some i }
  else if j = i then { s.table i with state := .connected, peer := some server }
  else s.table j

theorem linkedTable_server : linkedTable s i server server =
    { Socket.zero with fd := s.nextSockfd, state := .connected, peer := some i } := if_pos rfl

theorem linkedTable_client (apart : i ≠ server) :
    linkedTable s i server i = { s.table i with state := .connected, peer := some server } := by
  rw [linkedTable, if_neg apart, if_pos rfl]

theorem linkedTable_other {k : Slot} (left : k ≠ server) (right : k ≠ i) :
    linkedTable s i server k = s.table k := by
  rw [linkedTable, if_neg left, if_neg right]

theorem linkedTable_fd {k : Slot} (other : k ≠ server) : (linkedTable s i server k).fd = (s.table k).fd := by
  by_cases client : k = i
  · subst client
    rw [linkedTable_client other]
  · rw [linkedTable_other other client]

theorem linkedTable_inUse {k : Slot} (opened : (s.table i).state ≠ .closed) (other : k ≠ server) :
    InUse (linkedTable s i server k) ↔ InUse (s.table k) := by
  by_cases client : k = i
  · subst client
    refine iff_of_true (.inl ?_) (.inl opened)
    rw [linkedTable_client other]
    simp
  · rw [linkedTable_other other client]

/-- In a well-formed table with the connection the descriptor is new, and no connection was overwritten. -/
theorem WellFormed.of_linked (wf : WellFormed s) (free : ¬ InUse (s.table server))
    (opened : (s.table i).state ≠ .closed) {s' : System} (table : s'.table = linkedTable s i server)
    (after : WellFormed s') : FreshFd s ∧ ((s.table i).peer = none ∨ (s.table i).peer = some i) := by
  have notFree : ∀ {k}, InUse (s.table k) → k ≠ server := by
    rintro k used rfl
    exact free used
  have apart : i ≠ server := notFree (.inl opened)
  refine ⟨fun k used equal => notFree used ?_, ?_⟩
  · refine after.distinct k server ?_ (.inl ?_) ?_
    · rw [table, linkedTable_inUse opened (notFree used)]
      exact used
    · rw [table, linkedTable_server]
      simp
    · rw [table, linkedTable_fd (notFree used), equal, linkedTable_server]
  · cases peer : (s.table i).peer with
    | none => exact .inl rfl
    | some t =>
        refine .inr ?_
        by_contra different
        have other : t ≠ i := fun same => different (by rw [same])
        obtain ⟨used, back, -, -⟩ := wf.links i t peer
        have link := (after.links t i (by rw [table, linkedTable_other (notFree used) other, back])).2.1
        rw [table, linkedTable_client apart] at link
        exact notFree used (Option.some.inj link).symm

/-- Both ends of the new connection point to each other, and nobody else to them. -/
theorem WellFormed.link (wf : WellFormed s) (free : ¬ InUse (s.table server))
    (opened : (s.table i).state ≠ .closed) {s' : System} (table : s'.table = linkedTable s i server)
    (fresh : FreshFd s) (lone : (s.table i).peer = none ∨ (s.table i).peer = some i) : WellFormed s' := by
  have apart : i ≠ server := by
    rintro rfl
    exact free (.inl opened)
  have stranger : ∀ {k t}, k ≠ i → (s.table k).peer = some t → t ≠ server ∧ t ≠ i := by
    intro k t other linked
    refine ⟨?_, ?_⟩
    · rintro rfl
      exact (wf.free free).2 k linked
    · rintro rfl
      have back := (wf.links k _ linked).2.1
      rcases lone with none | self
      · cases none.symm.trans back
      · exact other (Option.some.inj (back.symm.trans self))
  refine ⟨fun k l usedk usedl equal => ?_, fun k t linked => ?_, fun k connected => ?_⟩
  · rw [table] at usedk usedl equal
    by_cases left : k = server
    · by_cases right : l = server
      · rw [left, right]
      · rw [left, linkedTable_fd right, linkedTable_server] at equal
        exact absurd equal.symm (fresh l ((linkedTable_inUse opened right).mp usedl))
    · by_cases right : l = server
      · rw [right, linkedTable_fd left, linkedTable_server] at equal
        exact absurd equal (fresh k ((linkedTable_inUse opened left).mp usedk))
      · rw [linkedTable_fd left, linkedTable_fd right] at equal
        exact wf.distinct k l ((linkedTable_inUse opened left).mp usedk)
          ((linkedTable_inUse opened right).mp usedl) equal
  · rw [table] at linked ⊢
    by_cases left : k = server
    · subst left
      rw [linkedTable_server] at linked
      cases linked
      rw [linkedTable_server, linkedTable_client apart]
      exact ⟨.inl (by simp), rfl, rfl, rfl⟩
    · by_cases client : k = i
      · subst client
        rw [linkedTable_client apart] at linked
        cases linked
        rw [linkedTable_server, linkedTable_client apart]
        exact ⟨.inl (by simp), rfl, rfl, rfl⟩
      · rw [linkedTable_other left client] at linked ⊢
        obtain ⟨right, other⟩ := stranger client linked
        rw [linkedTable_other right other]
        exact wf.links k t linked
  · rw [table] at connected ⊢
    by_cases left : k = server
    · rw [left, linkedTable_server]
      exact Option.some_ne_none i
    · by_cases client : k = i
      · rw [client, linkedTable_client apart]
        exact Option.some_ne_none server
      · rw [linkedTable_other left client] at connected ⊢
        exact wf.peers k connected

/-- **A connection keeps the table well formed** exactly when its descriptor is new and the socket had
no connection to another socket. -/
theorem wellFormed_linked (wf : WellFormed s) (free : ¬ InUse (s.table server))
    (opened : (s.table i).state ≠ .closed) {s' : System} (table : s'.table = linkedTable s i server) :
    WellFormed s' ↔ FreshFd s ∧ ((s.table i).peer = none ∨ (s.table i).peer = some i) :=
  ⟨wf.of_linked free opened table, fun safe => wf.link free opened table safe.1 safe.2⟩

theorem enqueueAccept_links (s : System) (listener server j : Slot) :
    SameLinks (s.table j) ((enqueueAccept s listener server).table j) := by
  refine sameLinks_modify (fun sock => ?_) j
  split
  · exact ⟨rfl, rfl, rfl⟩
  · exact ⟨rfl, rfl, rfl⟩

theorem socketConnect_links {a : Address} (found : socketGetByFd s sockfd = some i)
    (listens : socketFindByAddress s a = some listener) (room : socketAlloc s = some server) (j : Slot) :
    SameLinks (linkedTable s i server j) ((socketConnect s sockfd (some a)).1.table j) := by
  have apart : i ≠ server := by
    rintro rfl
    exact socketAlloc_free room (.inl (socketGetByFd_open found))
  simp only [socketConnect, found, listens, room]
  have queued := fun s => enqueueAccept_links s listener server j
  refine SameLinks.trans ?_ (queued _)
  by_cases atServer : j = server
  · subst atServer
    simp [linkedTable, modify_table, SameLinks, apart.symm]
  · by_cases client : j = i
    · subst client
      simp [linkedTable, modify_table, SameLinks, apart]
    · simp [linkedTable, modify_table, SameLinks, atServer, client]

theorem wellFormed_connect (wf : WellFormed s) (addr : Option Address) :
    WellFormed (socketConnect s sockfd addr).1 ↔ KeepsPeers s (.connect sockfd addr) := by
  cases found : socketGetByFd s sockfd with
  | none => simp [socketConnect, found, wf, KeepsPeers]
  | some i =>
      cases addr with
      | none => simp [socketConnect, wf, KeepsPeers]
      | some a =>
          cases listens : socketFindByAddress s a with
          | none => simp [socketConnect, found, listens, wf, KeepsPeers]
          | some listener =>
              cases room : socketAlloc s with
              | none => simp [socketConnect, found, listens, room, wf, KeepsPeers]
              | some server =>
                  have same := socketConnect_links found listens room
                  rw [wellFormed_congr (s := { s with table := linkedTable s i server }) same,
                    wellFormed_linked wf (socketAlloc_free room) (socketGetByFd_open found) rfl]
                  simp [KeepsPeers, found, listens, room]

end Breaking

/-! ### Where data goes -/

/-- Some `socket_send` on the socket `i` puts a message into the queue of the socket `t`. -/
def SendsTo (s : System) (i t : Slot) : Prop :=
  ∃ sockfd buf msg, socketGetByFd s sockfd = some i ∧
    ((socketSend s sockfd buf msg).1.table t).msgCount ≠ (s.table t).msgCount

section Delivery

variable {s : System} {i t u : Slot}

/-- `socket_send` reaches the queue of the peer, and no other. -/
theorem SendsTo.peer (sends : SendsTo s i t) :
    (s.table i).state = .connected ∧ (s.table i).peer = some t := by
  obtain ⟨sockfd, buf, msg, found, changed⟩ := sends
  cases buf with
  | none => simp [socketSend] at changed
  | some buf =>
      simp only [socketSend, found] at changed
      split at changed
      · exact absurd rfl changed
      · split at changed
        · exact absurd rfl changed
        · rename_i connected
          refine ⟨not_not.mp connected, ?_⟩
          split at changed
          · exact absurd rfl changed
          · rename_i peer linked
            split at changed
            · exact absurd rfl changed
            · by_contra other
              refine changed ?_
              have apart : t ≠ peer := by
                rintro rfl
                exact other linked
              rw [modify_table, if_neg apart]
              split
              · rfl
              · rw [modify_table, if_neg apart]
                rfl

/-- A socket in use that is open is designated by its descriptor. -/
theorem WellFormed.designated (wf : WellFormed s) (opened : (s.table i).state ≠ .closed) :
    socketGetByFd s (s.table i).fd = some i := by
  cases found : socketGetByFd s (s.table i).fd with
  | none =>
      have := List.find?_eq_none.mp found i (List.mem_finRange i)
      simp [opened] at this
  | some j =>
      have test := scan_eq_some found
      simp only [decide_eq_true_eq] at test
      rw [wf.distinct j i (.inl test.2) (.inl opened) test.1]

theorem WellFormed.sendsTo_peer (wf : WellFormed s) (linked : (s.table i).peer = some t) :
    SendsTo s i t := by
  have connected := (wf.links i t linked).2.2.1
  have found := wf.designated (i := i) (by rw [connected]; exact nofun)
  refine ⟨(s.table i).fd, some [0], 4, found, ?_⟩
  simp only [socketSend, found, List.length_singleton, connected, linked]
  by_cases tail : (s.table t).msgTail = 0
  · simp [modify_table, System.modifyMessage, tail]
  · simp [modify_table, System.modifyMessage, tail]

/-- **Data sent on one end arrives at one socket, and the data sent there arrives back.** -/
theorem WellFormed.sends_back (wf : WellFormed s) (sends : SendsTo s i t) :
    ∀ u, SendsTo s t u ↔ u = i := by
  have back := (wf.links i t sends.peer.2).2.1
  refine fun u => ⟨fun onward => ?_, ?_⟩
  · exact Option.some.inj (onward.peer.2.symm.trans back)
  · rintro rfl
    exact wf.sendsTo_peer back

end Delivery

/-! ### Runs -/

theorem wellFormed_step {c d : Client} {op : SocketOp} (wf : WellFormed c.sys)
    (step : SocketStep c op d) : WellFormed d.sys ↔ KeepsPeers c.sys op := by
  cases step with
  | create pid family type => exact wellFormed_create wf pid family type
  | bind sockfd addr => exact iff_of_true (wellFormed_bind wf addr) trivial
  | listen sockfd => exact wellFormed_listen wf
  | connect sockfd addr => exact wellFormed_connect wf addr
  | accept done => exact iff_of_true (wellFormed_accept wf done) trivial
  | send sockfd buf msg => exact iff_of_true (wellFormed_send wf buf msg) trivial
  | recv sockfd len => exact iff_of_true (wellFormed_recv wf len) trivial
  | close sockfd => exact iff_of_true (wellFormed_close wf) trivial

/-- **Exactly when peer links stay symmetric.** In every run from a well-formed table whose operations
keep peer links, the table is well formed in every state reached, and data sent on one end arrives only
at the socket whose sends arrive at that end; and from each such state one further operation leads to a
well-formed table exactly when it keeps peer links. -/
theorem peers_symmetric {c d : Client} {ops : List SocketOp} (wf : WellFormed c.sys)
    (run : Run (Guarded (fun c op => KeepsPeers c.sys op) SocketStep) c ops d) :
    WellFormed d.sys ∧ (∀ i t, SendsTo d.sys i t → ∀ u, SendsTo d.sys t u ↔ u = i) ∧
      ∀ op e, SocketStep d op e → (WellFormed e.sys ↔ KeepsPeers d.sys op) := by
  have after : WellFormed d.sys :=
    run.invariant (fun c => WellFormed c.sys)
      (fun _ _ _ here step => (wellFormed_step here step.2).mpr step.1) wf
  exact ⟨after, fun _ _ sends => after.sends_back sends, fun _ _ step => wellFormed_step after step⟩

instance : NeZero maxSockets := ⟨by decide⟩

/-- The address of the listener below. -/
def sampleAddress : Address := ⟨afUnix, 7, 80⟩

/-- Descriptors 1 and 2 are connected to each other, and descriptor 3 listens. -/
def connectedPair : System where
  table i :=
    if i = 0 then { Socket.zero with fd := 1, state := .connected, type := .stream, peer := some 1 }
    else if i = 1 then
      { Socket.zero with fd := 2, state := .connected, type := .stream, peer := some 0 }
    else if i = 2 then
      { Socket.zero with fd := 3, state := .listening, type := .stream, localAddr := sampleAddress }
    else Socket.unused
  nextSockfd := 4
  messages := noMessages

theorem connectedPair_wellFormed : WellFormed connectedPair := by
  have used : ∀ i, InUse (connectedPair.table i) → i = 0 ∨ i = 1 ∨ i = 2 := by
    intro i inUse
    by_contra other
    push Not at other
    simp [connectedPair, other, InUse, Socket.unused] at inUse
  have unlinked : ∀ i, ¬ (i = 0 ∨ i = 1 ∨ i = 2) → connectedPair.table i = Socket.unused := by
    intro i other
    push Not at other
    simp [connectedPair, other]
  refine ⟨fun i j usedi usedj equal => ?_, fun i t linked => ?_, fun i connected => ?_⟩
  · rcases used i usedi with rfl | rfl | rfl <;> rcases used j usedj with rfl | rfl | rfl <;>
      first | rfl | exact absurd equal (by decide)
  · by_cases mine : i = 0 ∨ i = 1 ∨ i = 2
    · rcases mine with rfl | rfl | rfl
      · cases linked
        exact ⟨.inl (by decide), rfl, rfl, rfl⟩
      · cases linked
        exact ⟨.inl (by decide), rfl, rfl, rfl⟩
      · cases linked
    · rw [unlinked i mine] at linked
      cases linked
  · by_cases mine : i = 0 ∨ i = 1 ∨ i = 2
    · rcases mine with rfl | rfl | rfl
      · intro none
        cases none
      · intro none
        cases none
      · cases connected
    · rw [unlinked i mine] at connected
      cases connected

/-- One end sends, the other closes. -/
theorem peers_symmetric_close : ∃ d, Run (Guarded (fun c op => KeepsPeers c.sys op) SocketStep)
    ⟨connectedPair, []⟩ [.send 1 (some [7]) 4096, .close 2] d ∧ WellFormed d.sys := by
  obtain ⟨c, first⟩ : ∃ c, SocketStep ⟨connectedPair, []⟩ (.send 1 (some [7]) 4096) c :=
    ⟨_, .send _ 1 _ _⟩
  obtain ⟨d, second⟩ : ∃ d, SocketStep c (.close 2) d := ⟨_, .close _ 2⟩
  have run : Run (Guarded (fun c op => KeepsPeers c.sys op) SocketStep) ⟨connectedPair, []⟩
      [.send 1 (some [7]) 4096, .close 2] d :=
    .cons ⟨trivial, first⟩ (.cons ⟨trivial, second⟩ (.nil d))
  exact ⟨d, run, (peers_symmetric connectedPair_wellFormed run).1⟩

/-- A connected socket connects a second time: its old peer still points to it. -/
theorem connect_twice : WellFormed connectedPair ∧
    (socketConnect connectedPair 1 (some sampleAddress)).2 = 0 ∧
    ¬ WellFormed (socketConnect connectedPair 1 (some sampleAddress)).1 := by
  refine ⟨connectedPair_wellFormed, by decide +kernel, fun after => ?_⟩
  have back : ((socketConnect connectedPair 1 (some sampleAddress)).1.table 1).peer = some 0 := by
    decide +kernel
  have forth : ((socketConnect connectedPair 1 (some sampleAddress)).1.table 0).peer ≠ some 1 := by
    decide +kernel
  exact forth (after.links 1 0 back).2.1

end Kfs.Ipc
