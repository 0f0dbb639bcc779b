/-
**The process tree.**

The tree is stored twice: each process points at its parent, and each parent heads a list of its children
through `next_sibling`. `Family` says that the two agree for live parents and that a process in use has
a live parent or none. Creating, forking and reaping keep it, and so does an exit, which cuts the links
of the children to their parent (`Family.create`, `Family.fork`, `Family.exit`, `Family.wait`).

Two error paths break the agreement for the parents themselves. A fork that fails after the child was
linked leaves an unused slot in its parent's list, and an exit leaves the list of the parent in place
when it cuts the links of the children. `tree_consistent`: in runs without the two the tree is
consistent in every state, and each of the two breaks it at once.
-/

import Kfs.Process.Table

namespace Kfs.Process

/-- The `next_sibling` links. -/
def Table.next (table : Table) (c : Slot) : Option Slot := (table c).nextSibling

/-- The children of a process, in the order of its list. -/
def Kids (s : Procs) (p : Slot) (l : List Slot) : Prop := Threads s.table.next (s.table p).children l

/-! ### The loops along a list of children -/

section Loops

variable {table : Table} {head : Option Slot} {child : Slot} {l l₀ l₁ : List Slot} {fuel : Nat}

theorem orphanChildren_eq (threads : Threads table.next head l) (enough : l.length ≤ fuel) :
    orphanChildren fuel table head =
      .ok fun j => if j ∈ l then { table j with parent := none } else table j := by
  induction l generalizing head fuel table with
  | nil =>
      rw [Threads.nil_iff] at threads
      subst threads
      cases fuel <;> simp [orphanChildren]
  | cons c l ih =>
      obtain ⟨rfl, rest⟩ := id threads
      cases fuel with
      | zero => simp at enough
      | succ fuel =>
          have apart : c ∉ l := (List.nodup_cons.mp threads.nodup).1
          have rest' : Threads (table.modify c fun proc => { proc with parent := none }).next
              (table c).nextSibling l := by
            refine rest.congr fun a member => ?_
            have other : a ≠ c := ne_of_mem_of_not_mem member apart
            simp [Table.next, Table.modify_apply, other]
          rw [orphanChildren, ih rest' (by simpa using enough)]
          congr 1
          funext j
          by_cases here : j = c
          · subst here
            simp [apart, Table.modify_apply]
          · simp [here, Table.modify_apply]

theorem findZombie_eq (threads : Threads table.next head l) (enough : l.length ≤ fuel) :
    findZombie table fuel head = .ok (l.find? fun c => (table c).state = .zombie) := by
  induction l generalizing head fuel with
  | nil =>
      rw [Threads.nil_iff] at threads
      subst threads
      cases fuel <;> simp [findZombie]
  | cons c l ih =>
      obtain ⟨rfl, rest⟩ := threads
      cases fuel with
      | zero => simp at enough
      | succ fuel =>
          rw [findZombie, List.find?_cons]
          by_cases zombie : (table c).state = .zombie
          · simp [zombie]
          · simp only [zombie, if_false, decide_false]
            exact ih rest (by simpa using enough)

/-- The field that points behind a list. -/
def lastLink : Link → List Slot → Link
  | prev, [] => prev
  | _, c :: l => lastLink (.nextSibling c) l

theorem seekLink_eq {prev : Link} (threads : Threads table.next (table.read prev) (l₀ ++ child :: l₁))
    (enough : l₀.length ≤ fuel) :
    seekLink table child fuel prev = .ok (lastLink prev l₀) ∧
      table.read (lastLink prev l₀) = some child := by
  induction l₀ generalizing prev fuel with
  | nil =>
      have here : table.read prev = some child := threads.1
      unfold seekLink
      simp [here, lastLink]
  | cons c l₀ ih =>
      have here : table.read prev = some c := threads.1
      have apart : c ≠ child := by
        rintro rfl
        exact (List.nodup_cons.mp threads.nodup).1 (by simp)
      cases fuel with
      | zero => simp at enough
      | succ fuel =>
          have rest : Threads table.next (table.read (.nextSibling c)) (l₀ ++ child :: l₁) := threads.2
          obtain ⟨found, read⟩ := ih rest (by simpa using enough)
          refine ⟨?_, read⟩
          unfold seekLink
          simp only [here, apart, if_false]
          exact found

theorem lastLink_concat (prev : Link) (l : List Slot) (b : Slot) :
    lastLink prev (l ++ [b]) = .nextSibling b := by
  induction l generalizing prev with
  | nil => rfl
  | cons c l ih => exact ih _

/-- **Taking a child out of a list**, through the field that points at it. -/
theorem unlink_child {p : Slot} (threads : Threads table.next (table p).children (l₀ ++ child :: l₁)) :
    let after := table.write (lastLink (.children p) l₀) (table child).nextSibling
    Threads after.next (after p).children (l₀ ++ l₁) ∧
      (∀ q, q ≠ p → (after q).children = (table q).children) ∧
      (∀ j, j ∉ l₀ ++ child :: l₁ → after.next j = table.next j) ∧
      ∀ j, (after j).parent = (table j).parent := by
  rcases List.eq_nil_or_concat l₀ with rfl | ⟨l, b, rfl⟩
  · have same : (table.write (.children p) (table child).nextSibling).next = table.next := by
      funext j
      by_cases here : j = p <;> simp [Table.next, Table.write, Table.modify_apply, here]
    simp only [lastLink, List.nil_append]
    rw [same]
    refine ⟨?_, fun q other => ?_, fun j _ => rfl, fun j => ?_⟩
    · have rest : Threads table.next (table child).nextSibling l₁ := threads.2
      simpa [Table.write, Table.modify_apply] using rest
    · simp [Table.write, Table.modify_apply, other]
    · by_cases here : j = p <;> simp [Table.write, Table.modify_apply, here]
  · have same : (table.write (.nextSibling b) (table child).nextSibling).next =
        Function.update table.next b (table.next child) := by
      funext j
      by_cases here : j = b <;> simp [Table.next, Table.write, Table.modify_apply, here]
    have children : ∀ q, ((table.write (.nextSibling b) (table child).nextSibling) q).children =
        (table q).children := fun q => by
      by_cases here : q = b <;> simp [Table.write, Table.modify_apply, here]
    rw [List.concat_eq_append] at threads ⊢
    rw [lastLink_concat]
    simp only [same, children]
    rw [List.append_assoc, List.singleton_append] at threads ⊢
    refine ⟨threads.unlink, fun _ _ => trivial, fun j outside => ?_, fun j => ?_⟩
    · exact Function.update_of_ne (fun here => outside (by simp [here])) _ _
    · by_cases here : j = b <;> simp [Table.write, Table.modify_apply, here]

end Loops

/-! ### What the operations do to the links -/

namespace Procs

variable {s s' : Procs} {i j p c : Slot} {mem : Supply}

theorem createAt_links (entryPoint uid : Nat) (mem : Supply) :
    ((s.createAt i entryPoint uid mem).1.table i).parent = none ∧
      ((s.createAt i entryPoint uid mem).1.table i).children = none := by
  unfold createAt
  split
  · simp [discard, Pcb.zero]
  · split
    · simp [discard, Pcb.zero]
    · split
      · simp [discard, Pcb.zero]
      · simp [Pcb.setUp, Pcb.zero]

/-- The links after a fork, also one that fails. -/
structure Linked (s s' : Procs) (p c : Slot) : Prop where
  others : ∀ j, j ≠ c → j ≠ p → s'.table j = s.table j
  parent : s'.table p = { s.table p with children := some c }
  child : (s'.table c).parent = some p ∧ (s'.table c).children = none ∧
    (s'.table c).nextSibling = (s.table p).children

theorem linked_linked (apart : c ≠ p) : Linked s (s.linked p c) p c := by
  refine ⟨fun j notChild notParent => ?_, ?_, ?_, ?_, ?_⟩
  · simp [linked, notChild, notParent]
  · simp [linked, Ne.symm apart]
  · simp [linked, apart]
  · simp [linked, apart]
  · simp [linked, apart, Ne.symm apart]

theorem Linked.modify (linked : Linked s s' p c) (apart : c ≠ p) {f : Pcb → Pcb}
    (keeps : ∀ proc, (f proc).parent = proc.parent ∧ (f proc).children = proc.children ∧
      (f proc).nextSibling = proc.nextSibling) : Linked s (s'.modify c f) p c := by
  refine ⟨fun j notChild notParent => ?_, ?_, ?_⟩
  · rw [modify_table, if_neg notChild, linked.others j notChild notParent]
  · rw [modify_table, if_neg (Ne.symm apart), linked.parent]
  · rw [modify_table, if_pos rfl, (keeps _).1, (keeps _).2.1, (keeps _).2.2]
    exact linked.child

theorem forkAt_linked (s : Procs) (apart : c ≠ p) (mem : Supply) :
    Linked s (s.forkAt p c mem).1 p c := by
  have start : Linked s (s.linked p c) p c := linked_linked apart
  simp only [forkAt, discard]
  by_cases directory : cloned ((s.linked p c).table p).pageDirectory mem = 0
  · rw [if_pos directory]
    refine .modify (.modify start apart ?_) apart ?_ <;> exact fun _ => ⟨rfl, rfl, rfl⟩
  · rw [if_neg directory]
    by_cases kernelStack : mem.kernelStack = 0
    · rw [if_pos kernelStack]
      refine .modify (.modify (.modify start apart ?_) apart ?_) apart ?_ <;>
        exact fun _ => ⟨rfl, rfl, rfl⟩
    · rw [if_neg kernelStack]
      refine .modify (.modify (.modify start apart ?_) apart ?_) apart ?_ <;>
        exact fun _ => ⟨rfl, rfl, rfl⟩

end Procs

/-! ### The two encodings agree -/

/-- The processes in use whose parent is `p`. -/
def ChildOf (s : Procs) (p c : Slot) : Prop :=
  (s.table c).state ≠ .unused ∧ (s.table c).parent = some p

/-- Live parents list their children, and a parent is live. -/
structure Family (s : Procs) : Prop where
  lists : ∀ p, (s.table p).live → ∃ l, Kids s p l ∧ ∀ c, c ∈ l ↔ ChildOf s p c
  parents : ∀ p c, ChildOf s p c → (s.table p).live

namespace Family

variable {s s' : Procs} {i p c : Slot} {l : List Slot} {mem : Supply}

theorem init {kernelDirectory : Nat} : Family (.init kernelDirectory) :=
  ⟨fun _ live => absurd rfl live.1, fun _ _ child => absurd rfl child.1⟩

/-- A list stays when the links of its members and its head do. -/
theorem kids_congr (kids : Kids s p l) (head : (s'.table p).children = (s.table p).children)
    (links : ∀ c ∈ l, (s'.table c).nextSibling = (s.table c).nextSibling) : Kids s' p l := by
  unfold Kids
  rw [head]
  exact Threads.congr kids links

/-- `process_create`, failing or not. -/
theorem createAt (family : Family s) (unused : (s.table i).state = .unused) (entryPoint uid : Nat)
    (mem : Supply) : Family (s.createAt i entryPoint uid mem).1 := by
  have others := fun j (other : j ≠ i) => Procs.createAt_others (s := s) entryPoint uid mem other
  obtain ⟨orphan, childless⟩ := Procs.createAt_links (s := s) (i := i) entryPoint uid mem
  generalize (s.createAt i entryPoint uid mem).1 = s' at others orphan childless
  have childOf : ∀ q c, ChildOf s' q c ↔ ChildOf s q c := by
    intro q c
    by_cases here : c = i
    · subst here
      exact iff_of_false (fun child => nomatch orphan.symm.trans child.2)
        (fun child => child.1 unused)
    · rw [ChildOf, ChildOf, others c here]
  have apart : ∀ q c, ChildOf s q c → q ≠ i ∧ c ≠ i := by
    intro q c child
    constructor
    · rintro rfl
      exact (family.parents q c child).1 unused
    · rintro rfl
      exact child.1 unused
  refine ⟨fun q live => ?_, fun q c child => ?_⟩
  · by_cases here : q = i
    · subst here
      refine ⟨[], ?_, fun c => iff_of_false List.not_mem_nil fun child => ?_⟩
      · rw [Kids, childless]
        rfl
      · exact (apart q c ((childOf q c).mp child)).1 rfl
    · rw [others q here] at live
      obtain ⟨l, kids, members⟩ := family.lists q live
      refine ⟨l, kids_congr kids (by rw [others q here]) fun c member => ?_, fun c => ?_⟩
      · rw [others c (apart q c ((members c).mp member)).2]
      · rw [members, childOf]
  · have child := (childOf q c).mp child
    rw [others q (apart q c child).1]
    exact family.parents q c child

/-- `process_fork` of a live process that succeeds. -/
theorem fork (family : Family s) (live : (s.table p).live) (unused : (s.table c).state = .unused)
    (linked : Procs.Linked s s' p c) (born : (s'.table c).state = .ready) : Family s' := by
  have apart : c ≠ p := by
    rintro rfl
    exact live.1 unused
  have links : ∀ j, j ≠ c → (s'.table j).state = (s.table j).state ∧
      (s'.table j).parent = (s.table j).parent ∧
      (s'.table j).nextSibling = (s.table j).nextSibling := by
    intro j other
    by_cases parent : j = p
    · subst parent
      rw [linked.parent]
      exact ⟨rfl, rfl, rfl⟩
    · rw [linked.others j other parent]
      exact ⟨rfl, rfl, rfl⟩
  have childOf : ∀ q d, ChildOf s' q d ↔ ChildOf s q d ∨ q = p ∧ d = c := by
    intro q d
    by_cases here : d = c
    · subst here
      have not : ¬ ChildOf s q d := fun child => child.1 unused
      rw [ChildOf, born, linked.child.1]
      simp [not, eq_comm]
    · rw [ChildOf, ChildOf, (links d here).1, (links d here).2.1]
      simp [here]
  have old : ∀ q d, ChildOf s q d → q ≠ c ∧ d ≠ c := by
    intro q d child
    constructor
    · rintro rfl
      exact (family.parents q d child).1 unused
    · rintro rfl
      exact child.1 unused
  refine ⟨fun q alive => ?_, fun q d child => ?_⟩
  · by_cases new : q = c
    · subst new
      refine ⟨[], ?_, fun d => iff_of_false List.not_mem_nil fun child => ?_⟩
      · rw [Kids, linked.child.2.1]
        rfl
      · rcases (childOf q d).mp child with child | ⟨rfl, -⟩
        · exact (old q d child).1 rfl
        · exact apart rfl
    · rw [live_iff (links q new).1] at alive
      obtain ⟨l, kids, members⟩ := family.lists q alive
      have kept : ∀ d ∈ l, (s'.table d).nextSibling = (s.table d).nextSibling := fun d member =>
        (links d (old q d ((members d).mp member)).2).2.2
      by_cases parent : q = p
      · subst parent
        refine ⟨c :: l, ⟨by rw [linked.parent], ?_⟩, fun d => ?_⟩
        · show Threads s'.table.next (s'.table c).nextSibling l
          rw [linked.child.2.2]
          exact Threads.congr kids kept
        · rw [List.mem_cons, members, childOf]
          simp [or_comm]
      · refine ⟨l, kids_congr kids (by rw [linked.others q new parent]) kept, fun d => ?_⟩
        rw [members, childOf]
        simp [parent]
  · rcases (childOf q d).mp child with child | ⟨rfl, rfl⟩
    · rw [live_iff (links q (old q d child).1).1]
      exact family.parents q d child
    · rw [live_iff (links q (Ne.symm apart)).1]
      exact live

/-- The links after an exit: those of the children to their parent are cut. -/
structure Orphaned (s s' : Procs) (l : List Slot) : Prop where
  children : ∀ j, (s'.table j).children = (s.table j).children
  nextSibling : ∀ j, (s'.table j).nextSibling = (s.table j).nextSibling
  parent : ∀ j, (s'.table j).parent = if j ∈ l then none else (s.table j).parent

theorem exit_orphaned (kids : Kids s i l) (status : Int) :
    ∃ s', s.exit (some i) status = .ok s' ∧ Orphaned s s' l := by
  set ended := s.modify i fun proc =>
    { proc with exitStatus := status, state := .zombie, pageDirectory := 0, kernelStack := 0 } with eq
  have links : ∀ j, (ended.table j).parent = (s.table j).parent ∧
      (ended.table j).children = (s.table j).children ∧
      (ended.table j).nextSibling = (s.table j).nextSibling := by
    intro j
    rw [eq, Procs.modify_table]
    split
    · rename_i here
      subst here
      exact ⟨rfl, rfl, rfl⟩
    · exact ⟨rfl, rfl, rfl⟩
  have threads : Threads ended.table.next (ended.table i).children l := by
    rw [(links i).2.1]
    exact Threads.congr kids fun c _ => (links c).2.2
  have short : l.length ≤ maxProcesses := by simpa using threads.length_le
  refine ⟨{ ended with table := fun j =>
    if j ∈ l then { ended.table j with parent := none } else ended.table j }, ?_, ?_⟩
  · rw [Procs.exit]
    simp only [← eq, orphanChildren_eq threads short, Outcome.ok_bind, Outcome.pure_eq]
  · refine ⟨fun j => ?_, fun j => ?_, fun j => ?_⟩
    · simp only
      split <;> exact (links j).2.1
    · simp only
      split <;> exact (links j).2.2
    · simp only
      split
      · rfl
      · exact (links j).1

/-- The children of the process that exits are orphans, and there are no others. -/
theorem childOf_exit {c q : Slot} (used : (s.table i).state ≠ .unused)
    (members : ∀ c, c ∈ l ↔ ChildOf s i c) {status : Int} (ended : s.Ended s' i status)
    (orphaned : Orphaned s s' l) : ChildOf s' q c ↔ ChildOf s q c ∧ q ≠ i := by
  have inUse : (s'.table c).state ≠ .unused ↔ (s.table c).state ≠ .unused := by
    by_cases here : c = i
    · subst here
      refine iff_of_true ?_ used
      rw [ended.zombie]
      decide
    · rw [(ended.others c here).state]
  rw [ChildOf, inUse, orphaned.parent]
  by_cases member : c ∈ l
  · have parent := ((members c).mp member).2
    rw [if_pos member, ChildOf, parent]
    simp [eq_comm]
  · rw [if_neg member]
    refine ⟨fun child => ⟨child, ?_⟩, fun child => child.1⟩
    rintro rfl
    exact member ((members c).mpr child)

/-- **`process_exit`** of a process whose list of children is right. -/
theorem exit (family : Family s) (used : (s.table i).state ≠ .unused)
    (members : ∀ c, c ∈ l ↔ ChildOf s i c) {status : Int} (ended : s.Ended s' i status)
    (orphaned : Orphaned s s' l) : Family s' := by
  refine ⟨fun q live => ?_, fun q c child => ?_⟩
  · have other : q ≠ i := by
      rintro rfl
      exact live.2 ended.zombie
    rw [live_iff (ended.others q other).state] at live
    obtain ⟨l', kids', members'⟩ := family.lists q live
    refine ⟨l', kids_congr kids' (orphaned.children q) fun c _ => orphaned.nextSibling c, fun c => ?_⟩
    rw [members', childOf_exit used members ended orphaned]
    simp [other]
  · obtain ⟨child, other⟩ := (childOf_exit used members ended orphaned).mp child
    rw [live_iff (ended.others q other).state]
    exact family.parents q c child

end Family

/-! ### Waiting -/

/-- What `process_wait` does when it finds a zombie: the child leaves the list and its slot. -/
structure Unlinked (s s' : Procs) (p child : Slot) (l : List Slot) : Prop where
  reaped : s.Reaped s' child
  member : child ∈ l
  kids : Kids s' p (l.erase child)
  children : ∀ q, q ≠ p → (s'.table q).children = (s.table q).children
  nextSibling : ∀ j, j ∉ l → (s'.table j).nextSibling = (s.table j).nextSibling
  parent : ∀ j, (s'.table j).parent = (s.table j).parent

section Wait

variable {s s' : Procs} {p child : Slot} {l : List Slot}

/-- **`process_wait`** along a finite list of children. -/
theorem wait_eq (kids : Kids s p l) :
    (l.find? (fun c => (s.table c).state = .zombie) = none ∧ s.wait (some p) = .ok (s, noChild, none)) ∨
    ∃ child s', l.find? (fun c => (s.table c).state = .zombie) = some child ∧
      s.wait (some p) = .ok (s', (s.table child).pid, some (s.table child).exitStatus) ∧
      Unlinked s s' p child l := by
  have short : l.length ≤ maxProcesses := by simpa using Threads.length_le kids
  have search := findZombie_eq kids short
  cases found : l.find? (fun c => (s.table c).state = .zombie) with
  | none =>
      left
      refine ⟨rfl, ?_⟩
      rw [found] at search
      simp only [Procs.wait, processWait, search, Outcome.ok_bind, Outcome.pure_eq]
  | some child =>
      right
      rw [found] at search
      obtain ⟨l₀, l₁, rfl⟩ := List.append_of_mem (List.mem_of_find?_eq_some found)
      have zombie := List.find?_some found
      simp only [decide_eq_true_eq] at zombie
      have start : Threads s.table.next (s.table.read (.children p)) (l₀ ++ child :: l₁) := kids
      obtain ⟨sought, read⟩ := seekLink_eq start
        (le_trans (by simp) short : l₀.length ≤ maxProcesses)
      obtain ⟨threads, heads, links, parents⟩ := unlink_child kids
      set after := s.table.write (lastLink (.children p) l₀) (s.table child).nextSibling
      have done : s.wait (some p) = .ok
          ({ s with table := after.modify child fun proc => { proc with state := .unused } },
            (s.table child).pid, some (s.table child).exitStatus) := by
        simp only [Procs.wait, processWait, search, sought, read, Option.isSome_some, if_true,
          Outcome.ok_bind, Outcome.pure_eq]
        rfl
      have freed : ∀ j, (after.modify child fun proc => { proc with state := .unused }) j =
          if j = child then { after j with state := .unused } else after j := fun j => by
        rw [Table.modify_apply]
        by_cases here : j = child
        · rw [if_pos here, if_pos here, here]
        · rw [if_neg here, if_neg here]
      refine ⟨child, _, rfl, done, ?_⟩
      refine ⟨?_, by simp, ?_, fun q other => ?_, fun j outside => ?_, fun j => ?_⟩
      · refine ⟨rfl, rfl, rfl, zombie, fun j other => ?_, ?_⟩
        · simp only [freed, if_neg other]
          exact write_relinked _ _ _ j
        · obtain ⟨_, _, _, same⟩ := write_relinked s.table (lastLink (.children p) l₀)
            (s.table child).nextSibling child
          simp only [freed, if_true]
          exact ⟨_, _, _, congrArg (fun proc : Pcb => { proc with state := .unused }) same⟩
      · have erased : (l₀ ++ child :: l₁).erase child = l₀ ++ l₁ := by
          have apart : child ∉ l₀ := fun member =>
            (List.disjoint_of_nodup_append (Threads.nodup kids)) member List.mem_cons_self
          rw [List.erase_append_right _ apart, List.erase_cons_head]
        rw [erased, Kids]
        simp only [freed]
        split
        · exact threads.congr fun c _ => by simp only [Table.next, freed]; split <;> rfl
        · exact threads.congr fun c _ => by simp only [Table.next, freed]; split <;> rfl
      · simp only [freed]
        split <;> exact heads q other
      · simp only [freed]
        split <;> exact links j outside
      · simp only [freed]
        split <;> exact parents j

/-- Only the reaped child is gone. -/
theorem Unlinked.childOf (unlinked : Unlinked s s' p child l) {q c : Slot} :
    ChildOf s' q c ↔ c ≠ child ∧ ChildOf s q c := by
  by_cases here : c = child
  · subst here
    simp [ChildOf, unlinked.reaped.unused]
  · rw [ChildOf, ChildOf, (unlinked.reaped.others c here).state, unlinked.parent]
    simp [here]

/-- **`process_wait`** of a live process that finds a zombie. -/
theorem Family.wait (family : Family s) (kids : Kids s p l) (members : ∀ c, c ∈ l ↔ ChildOf s p c)
    (unlinked : Unlinked s s' p child l) : Family s' := by
  have reaped := unlinked.reaped
  refine ⟨fun q live => ?_, fun q c alive => ?_⟩
  · have other : q ≠ child := by
      rintro rfl
      exact live.1 reaped.unused
    rw [live_iff (reaped.others q other).state] at live
    by_cases parent : q = p
    · subst parent
      refine ⟨l.erase child, unlinked.kids, fun c => ?_⟩
      rw [(Threads.nodup kids).mem_erase_iff, members, unlinked.childOf]
    · obtain ⟨l', kids', members'⟩ := family.lists q live
      have apart : ∀ c ∈ l', c ∉ l := fun c here there => by
        have first := ((members' c).mp here).2
        rw [((members c).mp there).2] at first
        exact parent (Option.some.inj first).symm
      refine ⟨l', kids_congr kids' (unlinked.children q parent)
        fun c member => unlinked.nextSibling c (apart c member), fun c => ?_⟩
      rw [members', unlinked.childOf]
      refine ⟨fun child' => ⟨?_, child'⟩, fun child' => child'.2⟩
      rintro rfl
      exact apart c ((members' c).mpr child') unlinked.member
  · have before := (unlinked.childOf.mp alive).2
    have live := family.parents q c before
    have other : q ≠ child := by
      rintro rfl
      exact live.2 reaped.zombie
    rwa [live_iff (reaped.others q other).state]

end Wait

/-! ### Consistent trees -/

/-- For every process in use the list of children is finite, without repetition, and contains exactly
the processes in use whose parent it is. -/
def TreeConsistent (s : Procs) : Prop :=
  ∀ p, (s.table p).state ≠ .unused → ∃ l, l.Nodup ∧ Kids s p l ∧ ∀ c, c ∈ l ↔ ChildOf s p c

/-- What the runs below keep besides: a process that has exited has no memory and no children. -/
structure Settled (s : Procs) : Prop where
  family : Family s
  ended : ∀ p, (s.table p).state = .zombie → (s.table p).pageDirectory = 0 ∧ (s.table p).children = none

/-- A call of the four that make the tree, for processes in use. -/
def Procs.InUse (s : Procs) : ProcOp → Prop
  | .create _ _ _ => True
  | .fork parent _ => ∀ p ∈ parent, (s.table p).state ≠ .unused
  | .exit proc _ => ∀ i ∈ proc, (s.table i).state ≠ .unused
  | .wait parent => ∀ p ∈ parent, (s.table p).state ≠ .unused
  | .schedule => False
  | .setCurrent _ => False

/-- A fork that finds a slot gets its memory, and a process that exits has no children. -/
def Procs.Clean (s : Procs) : ProcOp → Prop
  | .fork parent mem => ∀ p ∈ parent, s.allocSlot = none ∨
      cloned (s.table p).pageDirectory mem ≠ 0 ∧ mem.kernelStack ≠ 0
  | .exit proc _ => ∀ i ∈ proc, (s.table i).children = none
  | _ => True

instance (s : Procs) : (op : ProcOp) → Decidable (s.InUse op)
  | .create _ _ _ => inferInstanceAs (Decidable True)
  | .fork parent _ => inferInstanceAs (Decidable (∀ p ∈ parent, _))
  | .exit proc _ => inferInstanceAs (Decidable (∀ i ∈ proc, _))
  | .wait parent => inferInstanceAs (Decidable (∀ p ∈ parent, _))
  | .schedule => inferInstanceAs (Decidable False)
  | .setCurrent _ => inferInstanceAs (Decidable False)

instance (s : Procs) : (op : ProcOp) → Decidable (s.Clean op)
  | .create _ _ _ => inferInstanceAs (Decidable True)
  | .fork parent _ => inferInstanceAs (Decidable (∀ p ∈ parent, _))
  | .exit proc _ => inferInstanceAs (Decidable (∀ i ∈ proc, _))
  | .wait _ => inferInstanceAs (Decidable True)
  | .schedule => inferInstanceAs (Decidable True)
  | .setCurrent _ => inferInstanceAs (Decidable True)

section Consistent

variable {s s' : Procs} {op : ProcOp} {event : Option Event} {p i : Slot}

/-- A list whose first entry is no child is not consistent. -/
theorem not_consistent {s : Procs} {p c : Slot} (used : (s.table p).state ≠ .unused)
    (head : (s.table p).children = some c) (noChild : ¬ ChildOf s p c) : ¬ TreeConsistent s := by
  intro consistent
  obtain ⟨l, -, kids, members⟩ := consistent p used
  rw [Kids, head, Threads.some_iff] at kids
  obtain ⟨rest, rfl, -⟩ := kids
  exact noChild ((members c).mp List.mem_cons_self)

theorem live_or_zombie (used : (s.table p).state ≠ .unused) :
    (s.table p).live ∨ (s.table p).state = .zombie := by
  by_cases zombie : (s.table p).state = .zombie
  · exact .inr zombie
  · exact .inl ⟨used, zombie⟩

namespace Settled

/-- The list of a process in use. -/
theorem kids (settled : Settled s) (used : (s.table p).state ≠ .unused) :
    ∃ l, Kids s p l ∧ ∀ c, c ∈ l ↔ ChildOf s p c := by
  rcases live_or_zombie used with live | zombie
  · exact settled.family.lists p live
  · refine ⟨[], ?_, fun c => iff_of_false List.not_mem_nil fun child => ?_⟩
    · rw [Kids, (settled.ended p zombie).2]
      rfl
    · exact (settled.family.parents p c child).2 zombie

theorem consistent (settled : Settled s) : TreeConsistent s := by
  intro p used
  obtain ⟨l, kids, members⟩ := settled.kids used
  exact ⟨l, Threads.nodup kids, kids, members⟩

theorem create (settled : Settled s) (entryPoint uid : Nat) (mem : Supply) :
    Settled (s.create entryPoint uid mem).1 := by
  unfold Procs.create
  cases found : s.allocSlot with
  | none => exact settled
  | some i =>
      have unused := Procs.allocSlot_unused found
      refine ⟨settled.family.createAt unused entryPoint uid mem, fun q zombie => ?_⟩
      by_cases here : q = i
      · subst here
        rcases (Procs.createAt_birth unused entryPoint uid mem).born with ⟨-, ready, -⟩ | ⟨-, unused⟩
        · exact nomatch ready.symm.trans zombie
        · exact nomatch unused.symm.trans zombie
      · rw [Procs.createAt_others entryPoint uid mem here] at zombie ⊢
        exact settled.ended q zombie

/-- The parent of a fork that gets its memory is live. -/
theorem live (settled : Settled s) {mem : Supply} (used : (s.table p).state ≠ .unused)
    (clean : Procs.cloned (s.table p).pageDirectory mem ≠ 0) : (s.table p).live := by
  refine (live_or_zombie used).resolve_right fun zombie => clean ?_
  rw [(settled.ended p zombie).1]
  rfl

theorem fork (settled : Settled s) {parent : Option Slot} {mem : Supply}
    (used : s.InUse (.fork parent mem)) (clean : s.Clean (.fork parent mem)) :
    Settled (s.fork parent mem).1 := by
  unfold Procs.fork
  cases parent with
  | none => exact settled
  | some p =>
      cases found : s.allocSlot with
      | none => exact settled
      | some c =>
          obtain ⟨directory, kernelStack⟩ := (clean p rfl).resolve_left (by simp [found])
          have unused := Procs.allocSlot_unused found
          have live := settled.live (used p rfl) directory
          have apart : c ≠ p := by
            rintro rfl
            exact live.1 unused
          have linked := s.forkAt_linked apart mem
          have birth := Procs.forkAt_birth unused p mem
          have born : ((s.forkAt p c mem).1.table c).state = .ready := by
            rcases birth.born with ⟨-, ready, -⟩ | ⟨failed, -⟩
            · exact ready
            · simp [Procs.forkAt, s.linked_directory, directory, kernelStack] at failed
          refine ⟨settled.family.fork live unused linked born, fun q zombie => ?_⟩
          have notChild : q ≠ c := by
            rintro rfl
            cases born.symm.trans zombie
          have notParent : q ≠ p := by
            rintro rfl
            rw [(birth.others q notChild).state] at zombie
            exact live.2 zombie
          rw [linked.others q notChild notParent] at zombie ⊢
          exact settled.ended q zombie

theorem exit (settled : Settled s) {status : Int} (used : (s.table i).state ≠ .unused)
    (childless : (s.table i).children = none) (done : s.exit (some i) status = .ok s') :
    Settled s' := by
  obtain ⟨l, kids, members⟩ := settled.kids used
  obtain ⟨_, done', orphaned⟩ := Family.exit_orphaned kids status
  cases done.symm.trans done'
  have ended := Procs.exit_ended done
  refine ⟨settled.family.exit used members ended orphaned, fun q zombie => ?_⟩
  rw [orphaned.children]
  by_cases here : q = i
  · subst here
    exact ⟨ended.self.pageDirectory, childless⟩
  · rw [(ended.others q here).state] at zombie
    rw [(ended.others q here).pageDirectory]
    exact settled.ended q zombie

theorem wait (settled : Settled s) (used : (s.table p).state ≠ .unused) {pid : Nat}
    {status : Option Int} (done : s.wait (some p) = .ok (s', pid, status)) : Settled s' := by
  obtain ⟨l, kids, members⟩ := settled.kids used
  rcases wait_eq kids with ⟨-, done'⟩ | ⟨child, _, -, done', unlinked⟩
  · cases done.symm.trans done'
    exact settled
  · cases done.symm.trans done'
    have reaped := unlinked.reaped
    refine ⟨settled.family.wait kids members unlinked, fun q zombie => ?_⟩
    have notChild : q ≠ child := by
      rintro rfl
      exact nomatch reaped.unused.symm.trans zombie
    have same := reaped.others q notChild
    rw [same.state] at zombie
    have before := settled.ended q zombie
    have notParent : q ≠ p := by
      rintro rfl
      have member := unlinked.member
      rw [Kids, before.2, Threads.none_iff] at kids
      rw [kids] at member
      exact List.not_mem_nil member
    rw [same.pageDirectory, unlinked.children q notParent]
    exact before

/-- **Every call that is clean keeps the tree.** -/
theorem exec (settled : Settled s) (used : s.InUse op) (clean : s.Clean op)
    (done : s.exec op = .ok (s', event)) : Settled s' := by
  cases op with
  | create entryPoint uid mem =>
      cases done
      exact settled.create entryPoint uid mem
  | fork parent mem =>
      cases done
      exact settled.fork used clean
  | exit proc status =>
      obtain ⟨after, exited, rest⟩ := Outcome.bind_eq_ok.mp done
      cases rest
      cases proc with
      | none =>
          cases exited
          exact settled
      | some i => exact settled.exit (used i rfl) (clean i rfl) exited
  | wait parent =>
      obtain ⟨⟨after, pid, status⟩, waited, rest⟩ := Outcome.bind_eq_ok.mp done
      cases parent with
      | none =>
          cases waited
          cases rest
          exact settled
      | some p =>
          have after := settled.wait (used p rfl) waited
          cases status <;> cases rest <;> exact after
  | schedule => exact absurd used id
  | setCurrent proc => exact absurd used id

/-- A fork that fails leaves a slot that is not in use in the list of the parent. -/
theorem fork_breaks {mem : Supply} {c : Slot} (used : (s.table p).state ≠ .unused)
    (found : s.allocSlot = some c)
    (fails : ¬ (Procs.cloned (s.table p).pageDirectory mem ≠ 0 ∧ mem.kernelStack ≠ 0)) :
    ¬ TreeConsistent (s.fork (some p) mem).1 := by
  have unused := Procs.allocSlot_unused found
  have apart : c ≠ p := by
    rintro rfl
    exact used unused
  have linked := s.forkAt_linked apart mem
  have birth := Procs.forkAt_birth unused p mem
  have left : ((s.forkAt p c mem).1.table c).state = .unused := by
    rcases birth.born with ⟨made, -⟩ | ⟨-, unused⟩
    · simp only [Procs.forkAt, s.linked_directory] at made
      split at made
      · cases made
      · split at made
        · cases made
        · exact absurd ⟨‹_›, ‹_›⟩ fails
    · exact unused
  intro consistent
  have step : (s.fork (some p) mem).1 = (s.forkAt p c mem).1 := by
    simp only [Procs.fork, found]
  rw [step] at consistent
  refine not_consistent (by rwa [linked.parent]) (by rw [linked.parent]) (fun child => ?_) consistent
  exact child.1 left

/-- An exit with children leaves children in the list that no longer have this parent. -/
theorem exit_breaks (settled : Settled s) {status : Int} (used : (s.table i).state ≠ .unused)
    (children : (s.table i).children ≠ none) (done : s.exit (some i) status = .ok s') :
    ¬ TreeConsistent s' := by
  obtain ⟨l, kids, members⟩ := settled.kids used
  obtain ⟨_, done', orphaned⟩ := Family.exit_orphaned kids status
  cases done.symm.trans done'
  have ended := Procs.exit_ended done
  obtain ⟨c, head⟩ := Option.ne_none_iff_exists'.mp children
  refine not_consistent (by rw [ended.zombie]; decide) ((orphaned.children i).trans head) fun child => ?_
  rw [Kids, head, Threads.some_iff] at kids
  obtain ⟨rest, rfl, -⟩ := kids
  have parent := child.2
  rw [orphaned.parent, if_pos List.mem_cons_self] at parent
  cases parent

/-- **Every call that is not clean breaks the tree.** -/
theorem clean_of_consistent (settled : Settled s) (used : s.InUse op)
    (done : s.exec op = .ok (s', event)) (consistent : TreeConsistent s') : s.Clean op := by
  cases op with
  | fork parent mem =>
      intro p here
      cases done
      cases Option.mem_def.mp here
      cases found : s.allocSlot with
      | none => exact .inl rfl
      | some c =>
          refine .inr (by_contra fun fails => ?_)
          exact fork_breaks (used p rfl) found fails consistent
  | exit proc status =>
      intro i here
      cases Option.mem_def.mp here
      obtain ⟨after, exited, rest⟩ := Outcome.bind_eq_ok.mp done
      cases rest
      by_contra children
      exact settled.exit_breaks (used i rfl) children exited consistent
  | _ => trivial

end Settled

end Consistent

/-- A run of clean calls. -/
abbrev TreeRun := Run (Guarded (fun t op => t.procs.InUse op ∧ t.procs.Clean op) TracedStep)

variable {kernelDirectory : Nat} {ops : List ProcOp} {t : Traced}

theorem TracedStep.exec {t u : Traced} {op : ProcOp} (step : TracedStep t op u) :
    ∃ event, t.procs.exec op = .ok (u.procs, event) := by
  obtain ⟨⟨procs, event⟩, done, rest⟩ := Outcome.bind_eq_ok.mp step
  cases rest
  exact ⟨event, done⟩

theorem TreeRun.settled (run : TreeRun (.init kernelDirectory) ops t) : Settled t.procs := by
  refine run.invariant (fun x => Settled x.procs) (fun x op y here step => ?_) ?_
  · obtain ⟨event, done⟩ := step.2.exec
    exact here.exec step.1.1 step.1.2 done
  · exact ⟨Family.init, fun p zombie => nomatch zombie⟩

/-- **The process tree is consistent** in every state of a run of clean calls; and from each such state
a further call for processes in use keeps it consistent if and only if it is clean. -/
theorem tree_consistent (run : TreeRun (.init kernelDirectory) ops t) :
    TreeConsistent t.procs ∧ ∀ op u, t.procs.InUse op → TracedStep t op u →
      (TreeConsistent u.procs ↔ t.procs.Clean op) := by
  have settled := run.settled
  refine ⟨settled.consistent, fun op u used step => ?_⟩
  obtain ⟨event, done⟩ := step.exec
  exact ⟨settled.clean_of_consistent used done, fun clean => (settled.exec used clean done).consistent⟩

/-- The first process forks twice, and the second child exits and is reaped. -/
def siblings : Traced :=
  (runAll (guardedExec (fun t op => t.procs.InUse op ∧ t.procs.Clean op) Traced.exec) (.init 0x200000)
    [.create 0 0 sampleSupply, .fork (some firstSlot) sampleSupply, .fork (some firstSlot) sampleSupply,
      .exit (some secondSlot) 7, .wait (some firstSlot)]).getD (.init 0x200000)

theorem tree_consistent_siblings :
    (siblings.procs.table secondSlot).state = .unused ∧ TreeConsistent siblings.procs := by
  have run : TreeRun (.init 0x200000) [.create 0 0 sampleSupply, .fork (some firstSlot) sampleSupply,
      .fork (some firstSlot) sampleSupply, .exit (some secondSlot) 7, .wait (some firstSlot)]
      siblings :=
    Run.of_guardedExec (Outcome.eq_ok_getD (by decide +kernel) _)
  exact ⟨by decide +kernel, (tree_consistent run).1⟩

/-- A fork without memory for the child's directory. -/
def forkedInVain : Traced :=
  (runAll Traced.exec (.init 0x200000) [.create 0 0 sampleSupply,
    .fork (some firstSlot) ⟨0, 0, 0⟩]).getD (.init 0x200000)

/-- A process with a child exits. -/
def leftChild : Traced :=
  (runAll Traced.exec (.init 0x200000) [.create 0 0 sampleSupply,
    .fork (some firstSlot) sampleSupply, .exit (some firstSlot) 0]).getD (.init 0x200000)

/-- Both error paths are reached in a few calls from the start. -/
theorem tree_broken :
    (Run TracedStep (.init 0x200000) [.create 0 0 sampleSupply,
        .fork (some firstSlot) ⟨0, 0, 0⟩] forkedInVain ∧ ¬ TreeConsistent forkedInVain.procs) ∧
      Run TracedStep (.init 0x200000) [.create 0 0 sampleSupply,
        .fork (some firstSlot) sampleSupply, .exit (some firstSlot) 0] leftChild ∧
      ¬ TreeConsistent leftChild.procs := by
  refine ⟨⟨Run.of_runAll (Outcome.eq_ok_getD (by decide +kernel) _), ?_⟩,
    Run.of_runAll (Outcome.eq_ok_getD (by decide +kernel) _), ?_⟩
  · exact not_consistent (p := firstSlot) (c := secondSlot) (by decide +kernel) (by decide +kernel)
      fun child => child.1 (by decide +kernel)
  · refine not_consistent (p := firstSlot) (c := secondSlot) (by decide +kernel) (by decide +kernel)
      fun child => ?_
    have orphan : (leftChild.procs.table secondSlot).parent = none := by decide +kernel
    exact nomatch orphan.symm.trans child.2

end Kfs.Process
