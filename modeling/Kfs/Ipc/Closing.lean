/-
**Closing one end of a connection.**

`socket_close` sets the state of the peer to CLOSED and leaves its descriptor. `socket_get_by_fd` skips
CLOSED sockets and `socket_alloc` only hands out those without a descriptor: the messages waiting at the
peer are never received, `socket_close` fails for it, and its slot is never used again
(`close_strands_peer`, `Stranded.run`).
-/

import Kfs.Ipc.Fifo

namespace Kfs.Ipc

/-- Receives into buffers of these lengths, one after the other. -/
def receives (s : System) (fd : Int) : List Nat → System × List (List UInt8)
  | [] => (s, [])
  | len :: lens =>
      let (s, _, data) := socketRecv s fd (some len)
      let (s, rest) := receives s fd lens
      (s, data :: rest)

/-- Nothing is lost at the socket `b` with the descriptor `fd`: as many receives as messages wait deliver
their bytes in order, and then closing the descriptor succeeds and frees the slot. -/
structure LosesNothing (s : System) (fd : Int) (b : Slot) (waiting : List (List UInt8)) : Prop where
  delivers : ∀ lens : List Nat, lens.length = waiting.length → (∀ len ∈ lens, len ≠ 0) →
    (receives s fd lens).2 = List.zipWith (fun data len => data.take len) waiting lens
  closes : ∀ lens : List Nat, lens.length = waiting.length → (∀ len ∈ lens, len ≠ 0) →
    (socketClose (receives s fd lens).1 fd).2 = 0 ∧
      (socketClose (receives s fd lens).1 fd).1.table b = Socket.unused

/-- A slot that is neither free nor open, and that no socket points to. -/
structure Stranded (s : System) (j : Slot) : Prop where
  closed : (s.table j).state = .closed
  named : (s.table j).fd ≠ -1
  alone : ∀ k, (s.table k).peer ≠ some j

section Stranded

variable {s s' : System} {a b i j k : Slot} {sockfd fd : Int} {c d : Client}
  {op : SocketOp} {ops : List SocketOp}

theorem Stranded.not_alloc (stranded : Stranded s j) : socketAlloc s ≠ some j := by
  intro found
  have test := scan_eq_some found
  simp only [allocatable, decide_eq_true_eq] at test
  exact stranded.named test.2

theorem Stranded.not_found (stranded : Stranded s j) : socketGetByFd s fd ≠ some j :=
  fun found => socketGetByFd_open found stranded.closed

/-- A slot that keeps its state and descriptor and that no socket newly points to. -/
theorem Stranded.congr (stranded : Stranded s j)
    (kept : (s'.table j).state = (s.table j).state ∧ (s'.table j).fd = (s.table j).fd)
    (links : ∀ k, (s'.table k).peer = some j → (s.table k).peer = some j) : Stranded s' j :=
  ⟨kept.1.trans stranded.closed, kept.2 ▸ stranded.named, fun k link => stranded.alone k (links k link)⟩

theorem Stranded.same (stranded : Stranded s j) (same : ∀ k, SameLinks (s.table k) (s'.table k)) :
    Stranded s' j :=
  stranded.congr ⟨(same j).2.1, (same j).1⟩ fun k link => (same k).2.2 ▸ link

/-- A change of another slot that points it at `j` is the only danger. -/
theorem Stranded.modify (stranded : Stranded s j) {f : Socket → Socket} (other : j ≠ i)
    (peer : (f (s.table i)).peer ≠ some j) : Stranded (s.modify i f) j := by
  refine stranded.congr ?_ fun k link => ?_
  · rw [modify_table, if_neg other]
    exact ⟨rfl, rfl⟩
  · rw [modify_table] at link
    split at link
    · exact absurd link peer
    · exact link

theorem Stranded.counter (stranded : Stranded s j) (n : Int) : Stranded { s with nextSockfd := n } j :=
  ⟨stranded.closed, stranded.named, stranded.alone⟩

theorem Stranded.create (stranded : Stranded s j) (pid : Nat) (family type : Int) :
    Stranded (socketCreate s pid family type).1 j := by
  unfold socketCreate
  split
  · exact stranded
  · split
    · exact stranded
    · split
      · exact stranded
      · rename_i i room
        have other : j ≠ i := by
          rintro rfl
          exact stranded.not_alloc room
        dsimp only
        refine Stranded.counter (stranded.modify other ?_) _
        exact fun link => nomatch (link : Socket.zero.peer = some j)

theorem Stranded.listen (stranded : Stranded s j) : Stranded (socketListen s sockfd).1 j := by
  unfold socketListen
  split
  · exact stranded
  · rename_i i found
    split
    · exact stranded
    · split
      · exact stranded
      · have other : j ≠ i := by
          rintro rfl
          exact stranded.not_found found
        dsimp only
        refine stranded.modify other ?_
        exact stranded.alone i

theorem Stranded.connect (stranded : Stranded s j) (addr : Option Address) :
    Stranded (socketConnect s sockfd addr).1 j := by
  rcases socketConnect_cases s sockfd addr with ⟨failed, -⟩ |
    ⟨i, a, listener, server, rfl, found, listens, room, -⟩
  · rw [failed]
    exact stranded
  · have notServer : j ≠ server := by
      rintro rfl
      exact stranded.not_alloc room
    have notClient : j ≠ i := by
      rintro rfl
      exact stranded.not_found found
    have links := socketConnect_links found listens room
    refine stranded.congr ?_ fun k link => ?_
    · obtain ⟨fd, state, -⟩ := links j
      rw [fd, state, linkedTable_other notServer notClient]
      exact ⟨rfl, rfl⟩
    · rw [(links k).2.2, linkedTable] at link
      split at link
      · exact absurd (Option.some.inj link).symm notClient
      · split at link
        · exact absurd (Option.some.inj link).symm notServer
        · exact link

theorem Stranded.close (stranded : Stranded s j) : Stranded (socketClose s sockfd).1 j := by
  cases found : socketGetByFd s sockfd with
  | none =>
      simp only [socketClose, found]
      exact stranded
  | some i =>
      have table := socketClose_table found
      have other : j ≠ i := by
        rintro rfl
        exact stranded.not_found found
      refine stranded.congr ?_ fun k link => ?_
      · rw [table, if_neg other, if_neg (stranded.alone i)]
        exact ⟨rfl, rfl⟩
      · rw [table] at link
        split at link
        · cases link
        · split at link
          · cases link
          · exact link

/-- **No operation frees or opens a stranded slot.** -/
theorem Stranded.step (stranded : Stranded c.sys j) (step : SocketStep c op d) : Stranded d.sys j := by
  cases step with
  | create pid family type => exact stranded.create pid family type
  | bind sockfd addr => exact stranded.same (socketBind_links addr)
  | listen sockfd => exact stranded.listen
  | connect sockfd addr => exact stranded.connect addr
  | accept done => exact stranded.same (socketAccept_links done)
  | send sockfd buf msg => exact stranded.same (socketSend_links buf msg)
  | recv sockfd len => exact stranded.same (socketRecv_links len)
  | close sockfd => exact stranded.close

/-- A stranded slot is lost for ever. -/
theorem Stranded.run (stranded : Stranded c.sys j) (run : Run SocketStep c ops d) : Stranded d.sys j :=
  run.invariant (fun e => Stranded e.sys j) (fun _ _ _ here step => here.step step) stranded

/-- The peer of a socket that was closed cannot be found. -/
theorem close_hides_peer (wf : WellFormed s) (found : socketGetByFd s sockfd = some a)
    (linked : (s.table a).peer = some b) :
    socketGetByFd (socketClose s sockfd).1 (s.table b).fd = none := by
  have table := socketClose_table found
  refine List.find?_eq_none.mpr fun j _ test => ?_
  simp only [decide_eq_true_eq] at test
  rw [table] at test
  split at test
  · exact absurd rfl test.2
  · split at test
    · exact absurd rfl test.2
    · rename_i other
      refine other ?_
      rw [linked, wf.distinct j b (.inl test.2) (wf.links a b linked).1 test.1]

/-- The peer of a socket that was closed is stranded. -/
theorem close_strands (wf : WellFormed s) (found : socketGetByFd s sockfd = some a)
    (linked : (s.table a).peer = some b) (apart : a ≠ b) (named : (s.table b).fd ≠ -1) :
    Stranded (socketClose s sockfd).1 b := by
  have table := socketClose_table found
  refine ⟨?_, ?_, fun k link => ?_⟩
  · rw [table, if_neg apart.symm, if_pos linked]
  · rw [table, if_neg apart.symm, if_pos linked]
    exact named
  · rw [table] at link
    split at link
    · exact nomatch link
    · split at link
      · exact nomatch link
      · rename_i notFirst _
        have back := (wf.links k b link).2.1
        rw [(wf.links a b linked).2.1] at back
        exact notFirst (Option.some.inj back).symm

/-- **Closing one end loses the other**: whatever waits there, receives fail, closing fails, and the slot
is never used again. -/
theorem close_strands_peer (wf : WellFormed s) (found : socketGetByFd s sockfd = some a)
    (linked : (s.table a).peer = some b) (apart : a ≠ b) (waiting : List (List UInt8)) :
    (socketClose s sockfd).2 = 0 ∧
      ¬ LosesNothing (socketClose s sockfd).1 (s.table b).fd b waiting ∧
      (∀ len, socketRecv (socketClose s sockfd).1 (s.table b).fd len = ((socketClose s sockfd).1, -1, [])) ∧
      socketClose (socketClose s sockfd).1 (s.table b).fd = ((socketClose s sockfd).1, -1) ∧
      ((s.table b).fd ≠ -1 → ∀ opened ops d, Run SocketStep ⟨(socketClose s sockfd).1, opened⟩ ops d →
        Stranded d.sys b) := by
  have hidden := close_hides_peer wf found linked
  have recv : ∀ len, socketRecv (socketClose s sockfd).1 (s.table b).fd len =
      ((socketClose s sockfd).1, -1, []) := fun len => by simp only [socketRecv, hidden]
  have close : socketClose (socketClose s sockfd).1 (s.table b).fd = ((socketClose s sockfd).1, -1) := by
    rw [socketClose, hidden]
  refine ⟨by simp only [socketClose, found], fun nothing => ?_, recv, close,
    fun named opened ops d run => (close_strands wf found linked apart named).run run⟩
  have silent : ∀ lens, (receives (socketClose s sockfd).1 (s.table b).fd lens).1 =
      (socketClose s sockfd).1 := by
    intro lens
    induction lens with
    | nil => rfl
    | cons len lens ih => simpa only [receives, recv] using ih
  have succeeds := (nothing.closes (List.replicate waiting.length 1) (by simp) (by simp)).1
  rw [silent, close] at succeeds
  cases succeeds

end Stranded

/-- Two bytes wait at descriptor 2 when descriptor 1 is closed. -/
def oneWaiting : System := (socketSend connectedPair 1 (some [7, 8]) 4096).1

theorem close_strands_peer_waiting : ¬ LosesNothing (socketClose oneWaiting 1).1 2 1 [[7, 8]] :=
  (@close_strands_peer oneWaiting 0 1 1 (wellFormed_send connectedPair_wellFormed _ _)
    (by decide +kernel) (by decide +kernel) (by decide) [[7, 8]]).2.1

/-- The two bytes are not delivered. -/
theorem close_loses_message : WellFormed oneWaiting ∧ (oneWaiting.table 0).peer = some 1 ∧
    MsgQueue oneWaiting 1 [4096] ∧ (oneWaiting.messages 4096).data = [7, 8] ∧
    (socketClose oneWaiting 1).2 = 0 ∧
    (receives (socketClose oneWaiting 1).1 2 [4096]).2 = [[]] ∧
    ¬ LosesNothing (socketClose oneWaiting 1).1 2 1 [[7, 8]] := by
  have lost : (receives (socketClose oneWaiting 1).1 2 [4096]).2 = [[]] := by decide +kernel
  refine ⟨wellFormed_send connectedPair_wellFormed _ _, by decide +kernel,
    ⟨⟨by decide +kernel, show nextMessage oneWaiting 4096 = none by decide +kernel⟩, by decide +kernel⟩,
    by decide +kernel, by decide +kernel, lost, fun nothing => ?_⟩
  have delivered := nothing.delivers [4096] rfl (by decide)
  rw [lost] at delivered
  cases delivered

end Kfs.Ipc
