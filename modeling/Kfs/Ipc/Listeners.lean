/-
**Listeners and their addresses.**

`socket_bind` refuses an address that a listening socket has, and `socket_listen` looks at no address, so
two sockets can be bound to one address before either listens. `listeners_unique`: from a table in which no
two sockets listen at one address, an operation leads to such a table exactly when it does not make a
second socket listen at an address (`KeepsUnique`); in such a table `socket_find_by_address` finds the
listener of every address that has one. `bind_twice` is the other case.
-/

import Kfs.Ipc.Queues

namespace Kfs.Ipc

/-- **An address has at most one listener.** -/
def UniqueListeners (s : System) : Prop :=
  ∀ i j, (s.table i).state = .listening → (s.table j).state = .listening →
    (s.table i).localAddr = (s.table j).localAddr → i = j

/-- A socket that starts to listen is the only one at its address. -/
def KeepsUnique (s : System) : SocketOp → Prop
  | .listen sockfd => ∀ i ∈ socketGetByFd s sockfd, (s.table i).type = .stream →
      (s.table i).localAddr.port ≠ 0 → ∀ j, j ≠ i → (s.table j).state = .listening →
      (s.table j).localAddr ≠ (s.table i).localAddr
  | _ => True

section Unique

variable {s s' : System} {i : Slot} {sockfd : Int} {a : Address}

/-- **The listener of an address is found.** -/
theorem UniqueListeners.found (unique : UniqueListeners s) (listening : (s.table i).state = .listening) :
    socketFindByAddress s (s.table i).localAddr = some i := by
  cases found : socketFindByAddress s (s.table i).localAddr with
  | none => exact absurd rfl (socketFindByAddress_none found listening)
  | some j =>
      obtain ⟨other, same⟩ := socketFindByAddress_listening found
      rw [unique j i other listening same]

/-- Listeners that were listeners before, at the same address. -/
theorem UniqueListeners.fewer (unique : UniqueListeners s)
    (before : ∀ j, (s'.table j).state = .listening →
      (s.table j).state = .listening ∧ (s'.table j).localAddr = (s.table j).localAddr) :
    UniqueListeners s' := by
  intro i j first second same
  obtain ⟨first', kept⟩ := before i first
  obtain ⟨second', kept'⟩ := before j second
  exact unique i j first' second' (kept.symm.trans (same.trans kept'))

theorem uniqueListeners_create (unique : UniqueListeners s) (pid : Nat) (family type : Int) :
    UniqueListeners (socketCreate s pid family type).1 := by
  unfold socketCreate
  split
  · exact unique
  · split
    · exact unique
    · split
      · exact unique
      · refine unique.fewer fun j listening => ?_
        simp only [modify_table] at listening ⊢
        split at listening
        · cases listening
        · rename_i other
          rw [if_neg other]
          exact ⟨listening, rfl⟩

/-- A listener that is bound again gets an address that nobody listens at. -/
theorem uniqueListeners_rebound (unique : UniqueListeners s) (none : socketFindByAddress s a = none) :
    UniqueListeners (s.modify i fun sock => { sock with localAddr := a }) := by
  intro j k first second same
  have listens : ∀ m, ((s.modify i fun sock => { sock with localAddr := a }).table m).state =
      .listening → (s.table m).state = .listening := by
    intro m listening
    rw [modify_table] at listening
    split at listening
    · rename_i mine
      rw [mine]
      exact listening
    · exact listening
  rw [modify_table, modify_table] at same
  by_cases left : j = i
  · by_cases right : k = i
    · rw [left, right]
    · rw [if_pos left, if_neg right] at same
      exact absurd same.symm (socketFindByAddress_none none (listens k second))
  · by_cases right : k = i
    · rw [if_neg left, if_pos right] at same
      exact absurd same (socketFindByAddress_none none (listens j first))
    · rw [if_neg left, if_neg right] at same
      exact unique j k (listens j first) (listens k second) same

theorem uniqueListeners_bind (unique : UniqueListeners s) (addr : Option Address) :
    UniqueListeners (socketBind s sockfd addr).1 := by
  unfold socketBind
  split
  · rename_i i a found
    split
    · exact unique
    · split
      · exact unique
      · rename_i free
        exact uniqueListeners_rebound unique (Option.not_isSome_iff_eq_none.mp free)
  · exact unique

/-- One more socket listens. -/
theorem uniqueListeners_listening (unique : UniqueListeners s) {f : Socket → Socket}
    (listens : (f (s.table i)).state = .listening)
    (address : (f (s.table i)).localAddr = (s.table i).localAddr) :
    UniqueListeners (s.modify i f) ↔
      ∀ j, j ≠ i → (s.table j).state = .listening → (s.table j).localAddr ≠ (s.table i).localAddr := by
  have here : (s.modify i f).table i = f (s.table i) := by rw [modify_table, if_pos rfl]
  have there : ∀ {j}, j ≠ i → (s.modify i f).table j = s.table j := fun other => by
    rw [modify_table, if_neg other]
  constructor
  · intro after j other listening same
    refine other (after j i ?_ ?_ ?_)
    · rw [there other]
      exact listening
    · rw [here]
      exact listens
    · rw [there other, here, same, address]
  · intro alone j k first second same
    by_cases left : j = i
    · by_cases right : k = i
      · rw [left, right]
      · subst left
        rw [there right] at second same
        rw [here, address] at same
        exact absurd same.symm (alone k right second)
    · by_cases right : k = i
      · subst right
        rw [there left] at first same
        rw [here, address] at same
        exact absurd same (alone j left first)
      · rw [there left] at first same
        rw [there right] at second same
        exact unique j k first second same

theorem uniqueListeners_listen (unique : UniqueListeners s) :
    UniqueListeners (socketListen s sockfd).1 ↔ KeepsUnique s (.listen sockfd) := by
  cases found : socketGetByFd s sockfd with
  | none => simp [socketListen, found, unique, KeepsUnique]
  | some i =>
      by_cases kind : (s.table i).type = .stream
      · by_cases bound : (s.table i).localAddr.port = 0
        · simp [socketListen, found, kind, bound, unique, KeepsUnique]
        · simp only [socketListen, found, kind, bound, ne_eq, not_true_eq_false, if_false, KeepsUnique,
            Option.mem_def, Option.some.injEq, forall_eq', not_false_eq_true, forall_const]
          exact uniqueListeners_listening unique rfl rfl
      · simp [socketListen, found, kind, unique, KeepsUnique]

theorem uniqueListeners_connect (unique : UniqueListeners s) (addr : Option Address) :
    UniqueListeners (socketConnect s sockfd addr).1 := by
  rcases socketConnect_cases s sockfd addr with
    ⟨refused, _⟩ | ⟨i, a, listener, server, rfl, found, listens, room, _⟩
  · rw [refused]
    exact unique
  · refine unique.fewer fun j listening => ?_
    obtain ⟨state, address, _⟩ := socketConnect_face found listens room j
    rw [state] at listening
    split at listening
    · cases listening
    · rename_i other
      rw [address, if_neg fun same => other (.inl same)]
      exact ⟨listening, rfl⟩

theorem uniqueListeners_accept (unique : UniqueListeners s) {fd : Int} {addr : Option Address}
    (done : socketAccept s sockfd = some (s', fd, addr)) : UniqueListeners s' := by
  rcases socketAccept_cases done with ⟨rfl, _⟩ | ⟨i, t, _, _, _, _, rfl, _⟩
  · exact unique
  · refine unique.fewer fun j listening => ?_
    rw [modify_table] at listening ⊢
    split at listening
    · rename_i mine
      rw [if_pos mine, mine]
      exact ⟨listening, rfl⟩
    · rename_i other
      rw [if_neg other]
      exact ⟨listening, rfl⟩

theorem uniqueListeners_close (unique : UniqueListeners s) :
    UniqueListeners (socketClose s sockfd).1 := by
  cases found : socketGetByFd s sockfd with
  | none =>
      simp only [socketClose, found]
      exact unique
  | some i =>
      refine unique.fewer fun j listening => ?_
      rw [socketClose_table found] at listening ⊢
      split at listening
      · cases listening
      · rename_i other
        rw [if_neg other]
        split at listening
        · cases listening
        · rename_i stranger
          rw [if_neg stranger]
          exact ⟨listening, rfl⟩

theorem UniqueListeners.sameButMessages (unique : UniqueListeners s)
    (same : ∀ j, SameButMessages (s.table j) (s'.table j)) : UniqueListeners s' := by
  refine unique.fewer fun j listening => ?_
  obtain ⟨_, _, _, here⟩ := same j
  rw [here] at listening ⊢
  exact ⟨listening, rfl⟩

theorem uniqueListeners_step {c d : Client} {op : SocketOp} (unique : UniqueListeners c.sys)
    (step : SocketStep c op d) : UniqueListeners d.sys ↔ KeepsUnique c.sys op := by
  cases step with
  | create pid family type =>
      exact iff_of_true (uniqueListeners_create unique pid family type) trivial
  | bind sockfd addr => exact iff_of_true (uniqueListeners_bind unique addr) trivial
  | listen sockfd => exact uniqueListeners_listen unique
  | connect sockfd addr => exact iff_of_true (uniqueListeners_connect unique addr) trivial
  | accept done => exact iff_of_true (uniqueListeners_accept unique done) trivial
  | send sockfd buf msg =>
      exact iff_of_true (unique.sameButMessages (socketSend_messages buf msg)) trivial
  | recv sockfd len => exact iff_of_true (unique.sameButMessages (socketRecv_messages len)) trivial
  | close sockfd => exact iff_of_true (uniqueListeners_close unique) trivial

end Unique

/-- **Exactly when addresses keep a single listener.** In every run from a table without two listeners at
one address in which no socket starts to listen at an address that has a listener, every state reached has
none either, and `socket_find_by_address` finds the listener of every address; and from each such state one
further operation leads to such a table exactly when it keeps listeners unique. -/
theorem listeners_unique {c d : Client} {ops : List SocketOp} (unique : UniqueListeners c.sys)
    (run : Run (Guarded (fun c op => KeepsUnique c.sys op) SocketStep) c ops d) :
    UniqueListeners d.sys ∧
      (∀ i, (d.sys.table i).state = .listening →
        socketFindByAddress d.sys (d.sys.table i).localAddr = some i) ∧
      ∀ op e, SocketStep d op e → (UniqueListeners e.sys ↔ KeepsUnique d.sys op) := by
  have after : UniqueListeners d.sys :=
    run.invariant (fun c => UniqueListeners c.sys)
      (fun _ _ _ here step => (uniqueListeners_step here step.2).mpr step.1) unique
  exact ⟨after, fun _ listening => after.found listening, fun _ _ step => uniqueListeners_step after step⟩

/-- Descriptors 1 and 2 are open and not bound. -/
def twoUnbound : System where
  table i :=
    if i = 0 then { Socket.zero with fd := 1, state := .connecting, type := .stream }
    else if i = 1 then { Socket.zero with fd := 2, state := .connecting, type := .stream }
    else Socket.unused
  nextSockfd := 3
  messages := noMessages

theorem twoUnbound_unique : UniqueListeners twoUnbound := by
  intro i j listening
  simp only [twoUnbound] at listening
  split at listening
  · cases listening
  · split at listening
    · cases listening
    · cases listening

/-- Both sockets are bound to one address before either listens. -/
def bothBound : System :=
  (socketBind (socketBind twoUnbound 1 (some sampleAddress)).1 2 (some sampleAddress)).1

def firstListens : System := (socketListen bothBound 1).1

theorem listeners_unique_one : ∃ d, Run (Guarded (fun c op => KeepsUnique c.sys op) SocketStep)
    ⟨bothBound, []⟩ [.listen 1] d ∧ UniqueListeners d.sys := by
  have unique : UniqueListeners bothBound :=
    uniqueListeners_bind (uniqueListeners_bind twoUnbound_unique _) _
  have keeps : KeepsUnique bothBound (.listen 1) := by
    intro i here _ _ j _ listening
    have none : ∀ j, (bothBound.table j).state ≠ .listening := by decide +kernel
    exact absurd listening (none j)
  have run : Run (Guarded (fun c op => KeepsUnique c.sys op) SocketStep) ⟨bothBound, []⟩ [.listen 1]
      ⟨firstListens, []⟩ := .cons ⟨keeps, .listen _ 1⟩ (.nil _)
  exact ⟨_, run, (listeners_unique unique run).1⟩

/-- Two sockets are bound to one address, and then both listen. -/
theorem bind_twice : UniqueListeners twoUnbound ∧ ∃ d, Run SocketStep ⟨twoUnbound, []⟩
    [.bind 1 (some sampleAddress), .bind 2 (some sampleAddress), .listen 1, .listen 2] d ∧
      ¬ UniqueListeners d.sys := by
  refine ⟨twoUnbound_unique, _, .cons (.bind _ 1 _) (.cons (.bind _ 2 _) (.cons (.listen _ 1)
    (.cons (.listen _ 2) (.nil _)))), fun unique => ?_⟩
  exact absurd (unique 0 1 (by decide +kernel) (by decide +kernel) (by decide +kernel)) (by decide)

end Kfs.Ipc
