/-
**Where the heap puts user pages.**

A call that maps pages asks the heap for a known sequence of blocks: two pages for every directory or
table, one for a kernel stack, one for every user page. First fit on the block list before the call says
where each of them goes (`userPages`), without running the call. `Served` ties the two together: the
requests were served in this order, and the pages noted meanwhile are among the addresses given out.
-/

import Kfs.Paging.Tables

namespace Kfs.Paging

open Kfs.Heap Memory

/-- What is asked of the heap: a block for a directory or table, a kernel stack, a user page. -/
inductive Request where
  | entries
  | stack
  | page
  deriving DecidableEq, Repr

/-- The bytes asked for; `kmalloc_aligned` asks for the alignment as well. -/
def Request.size : Request → Nat
  | entries => 2 * pageSize
  | stack => pageSize
  | page => pageSize

/-- The addresses first fit gives the user pages among some requests. Nothing is asked after a request
that fails. -/
def userPages : List Segment → List Request → List Nat
  | _, [] => []
  | l, r :: rest =>
      match place r.size l with
      | none => []
      | some (ptr, l') => if r = .page then ptr :: userPages l' rest else userPages l' rest

/-- What `paging_clone_directory` asks for one table of the source. -/
def tableRequests (m : Memory) (table n : Nat) : List Request :=
  (List.range n).flatMap fun j => if present (entry m table j) then [.page] else []

/-- What `paging_clone_directory` asks for one entry of the source. -/
def entryRequests (m : Memory) (src i : Nat) : List Request :=
  if 2 ≤ i ∧ present (entry m src i) then
    .entries :: tableRequests m (frame (entry m src i)) pageEntries
  else []

/-- What `paging_clone_directory` asks for the first `n` entries of the source. -/
def cloneRequests (m : Memory) (src n : Nat) : List Request :=
  (List.range n).flatMap (entryRequests m src)

/-- First fit serves all of the requests, giving the user pages these addresses. -/
def Serves : (l : List Segment) → List Request → (l' : List Segment) → (given : List Nat) → Prop
  | l, [], l', given => l' = l ∧ given = []
  | l, r :: rest, l', given =>
      ∃ ptr l₁ later, place r.size l = some (ptr, l₁) ∧ Serves l₁ rest l' later ∧
        given = if r = .page then ptr :: later else later

/-- First fit serves all of the requests. -/
def Enough (l : List Segment) (requests : List Request) : Prop := ∃ l' given, Serves l requests l' given

/-- First fit puts user pages, and the blocks of directories and tables, at page boundaries. -/
def AtBoundaries : List Segment → List Request → Prop
  | _, [] => True
  | l, r :: rest =>
      match place r.size l with
      | none => True
      | some (ptr, l') => (r = .stack ∨ pageSize ∣ ptr) ∧ AtBoundaries l' rest

instance decidableAtBoundaries : (l : List Segment) → (requests : List Request) →
    Decidable (AtBoundaries l requests)
  | _, [] => .isTrue trivial
  | l, r :: rest =>
      match found : place r.size l with
      | none => .isTrue (by rw [AtBoundaries, found]; trivial)
      | some (ptr, l') =>
          have := decidableAtBoundaries l' rest
          decidable_of_iff ((r = .stack ∨ pageSize ∣ ptr) ∧ AtBoundaries l' rest)
            (by rw [AtBoundaries, found])

/-- What first fit gives the first of some requests. -/
theorem AtBoundaries.first {l l' : List Segment} {r : Request} {more : List Request} {ptr : Nat}
    (bound : AtBoundaries l (r :: more)) (placed : place r.size l = some (ptr, l')) :
    (r = .stack ∨ pageSize ∣ ptr) ∧ AtBoundaries l' more := by
  rwa [AtBoundaries, placed] at bound

attribute [irreducible] AtBoundaries

/-- All pages noted between two states have one of these addresses. -/
def Noted (given : List Nat) (s s' : PagingState) : Prop :=
  ∀ r ∈ s'.made, r ∈ s.made ∨ r.ptr ∈ given

/-- **The requests served between two states**, with the pages noted meanwhile. -/
def Served (l : List Segment) (requests : List Request) (l' : List Segment) (s s' : PagingState) :
    Prop :=
  ∃ given, Serves l requests l' given ∧ Noted given s s'

section Placement

variable {l l' l'' : List Segment} {requests more : List Request} {given : List Nat}
  {s s' s'' : PagingState} {ptr : Nat}

theorem tableRequests_succ {m : Memory} {table j : Nat} : tableRequests m table (j + 1) =
    tableRequests m table j ++ if present (entry m table j) then [.page] else [] := by
  simp [tableRequests, List.range_succ]

theorem cloneRequests_succ {m : Memory} {src i : Nat} :
    cloneRequests m src (i + 1) = cloneRequests m src i ++ entryRequests m src i := by
  simp [cloneRequests, List.range_succ]

/-- A loop asks for its first rounds first. -/
theorem exists_append_of_le {f : Nat → List Request} {j n : Nat} (le : j ≤ n) :
    ∃ more, (List.range n).flatMap f = (List.range j).flatMap f ++ more := by
  obtain ⟨k, rfl⟩ := Nat.exists_eq_add_of_le le
  exact ⟨_, by rw [List.range_add, List.flatMap_append]⟩

theorem Serves.nil : Serves l [] l [] := ⟨rfl, rfl⟩

theorem Serves.entries (placed : place (2 * pageSize) l = some (ptr, l')) : Serves l [.entries] l' [] :=
  ⟨ptr, l', [], placed, Serves.nil, rfl⟩

theorem Serves.stack (placed : place pageSize l = some (ptr, l')) : Serves l [.stack] l' [] :=
  ⟨ptr, l', [], placed, Serves.nil, rfl⟩

theorem Serves.page (placed : place pageSize l = some (ptr, l')) : Serves l [.page] l' [ptr] :=
  ⟨ptr, l', [], placed, Serves.nil, rfl⟩

theorem Serves.append {given' : List Nat} (first : Serves l requests l' given)
    (second : Serves l' more l'' given') : Serves l (requests ++ more) l'' (given ++ given') := by
  induction requests generalizing l given with
  | nil =>
      obtain ⟨rfl, rfl⟩ := first
      exact second
  | cons r requests ih =>
      obtain ⟨ptr, l₁, later, placed, rest, rfl⟩ := first
      refine ⟨ptr, l₁, later ++ given', placed, ih rest, ?_⟩
      split <;> rfl

/-- What is left of the requests is served as well. -/
theorem Serves.rest {l₁ : List Segment} {first second : List Request} {given given' : List Nat}
    (all : Serves l (first ++ second) l' given) (some : Serves l first l₁ given') :
    ∃ given, Serves l₁ second l' given := by
  induction first generalizing l given given' with
  | nil =>
      obtain ⟨rfl, -⟩ := some
      exact ⟨given, all⟩
  | cons r first ih =>
      obtain ⟨ptr, l₂, later, placed, tail, -⟩ := all
      obtain ⟨ptr', l₂', later', placed', tail', -⟩ := some
      cases placed.symm.trans placed'
      exact ih tail tail'

/-- What first fit gives before and after some requests that are served. -/
theorem Serves.userPages (serves : Serves l requests l' given) (rest : List Request) :
    userPages l (requests ++ rest) = given ++ userPages l' rest := by
  induction requests generalizing l given with
  | nil =>
      obtain ⟨rfl, rfl⟩ := serves
      rfl
  | cons r requests ih =>
      obtain ⟨ptr, l₁, later, placed, tail, rfl⟩ := serves
      simp only [List.cons_append, Paging.userPages, placed, ih tail]
      split <;> rfl

theorem Serves.listed (serves : Serves l requests l' given) : Paging.userPages l requests = given := by
  have all := serves.userPages []
  rwa [List.append_nil, show Paging.userPages l' [] = [] from rfl, List.append_nil] at all

theorem Noted.of_eq (same : s'.made = s.made) : Noted given s s' := by
  intro m member
  rw [same] at member
  exact Or.inl member

theorem Noted.trans {given' : List Nat} (first : Noted given s s') (second : Noted given' s' s'') :
    Noted (given ++ given') s s'' := by
  intro m member
  rcases second m member with old | new
  · rcases first m old with older | new
    · exact Or.inl older
    · exact Or.inr (List.mem_append_left _ new)
  · exact Or.inr (List.mem_append_right _ new)

/-- Requests without user pages. -/
theorem Serves.served (serves : Serves l requests l' []) (same : s'.made = s.made) :
    Served l requests l' s s' :=
  ⟨[], serves, Noted.of_eq same⟩

/-- A user page, with what is asked for its table. -/
theorem Served.page {m : Made} (placed : place pageSize l = some (ptr, l'))
    (table : Serves l' more l'' []) (here : m.ptr = ptr) (noted : s'.made = m :: s.made) :
    Served l (.page :: more) l'' s s' := by
  refine ⟨[ptr], (Serves.page placed).append table, fun r member => ?_⟩
  rw [noted] at member
  rcases List.mem_cons.mp member with rfl | old
  · exact Or.inr (by simp [here])
  · exact Or.inl old

theorem Served.trans (first : Served l requests l' s s') (second : Served l' more l'' s' s'') :
    Served l (requests ++ more) l'' s s'' := by
  obtain ⟨given, serves, noted⟩ := first
  obtain ⟨given', serves', noted'⟩ := second
  exact ⟨given ++ given', serves.append serves', noted.trans noted'⟩

/-- **The pages noted are among those first fit gives**: those of the requests served, and those of the
rest. -/
theorem Served.noted (served : Served l requests l' s s') {rest : List Request}
    (later : Noted (userPages l' rest) s' s'') : Noted (userPages l (requests ++ rest)) s s'' := by
  obtain ⟨given, serves, noted⟩ := served
  rw [serves.userPages rest]
  exact noted.trans later

theorem Served.noted_all (served : Served l requests l' s s') (same : s''.made = s'.made) :
    Noted (userPages l requests) s s'' := by
  have noted : Noted (userPages l (requests ++ [])) s s'' := served.noted (Noted.of_eq same)
  rwa [List.append_nil] at noted

end Placement

end Kfs.Paging
