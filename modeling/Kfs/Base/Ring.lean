/-
**Rings.**

A ring of `size` cells holds `count` elements from the cell `head` on, wrapping at the end. `ringRead` is
the list of them: storing at the cell after the last one appends (`ringRead_push`), and moving `head` on
drops the first (`ringRead_pop`). Cells outside are not read (`ringRead_congr`). A `RingQueue` is a queue
between two positions, with one cell left free.

`ringDistance` counts the steps from one cell of a ring to another, `ringTour` lists a set of cells in the
order in which they come. `itinerary_tour`: a system that always moves on to the nearest cell of the set
makes this tour.
-/

import Mathlib.Tactic

namespace Kfs

variable {α : Type} {cells cells' : Nat → α} {size head count : Nat}

/-- The elements of a ring, in order. -/
def ringRead (cells : Nat → α) (size head count : Nat) : List α :=
  (List.range count).map fun k => cells ((head + k) % size)

@[simp] theorem ringRead_zero : ringRead cells size head 0 = [] := rfl

@[simp] theorem length_ringRead : (ringRead cells size head count).length = count := by
  rw [ringRead, List.length_map, List.length_range]

theorem ringRead_succ : ringRead cells size head (count + 1) =
    ringRead cells size head count ++ [cells ((head + count) % size)] := by
  rw [ringRead, List.range_succ, List.map_append, List.map_singleton, ringRead]

/-- Only the cells read matter. -/
theorem ringRead_congr
    (same : ∀ k < count, cells' ((head + k) % size) = cells ((head + k) % size)) :
    ringRead cells' size head count = ringRead cells size head count :=
  List.map_congr_left fun k member => same k (List.mem_range.mp member)

/-- **Storing after the last element** appends. -/
theorem ringRead_push (room : count < size) (a : α) :
    ringRead (Function.update cells ((head + count) % size) a) size head (count + 1) =
      ringRead cells size head count ++ [a] := by
  rw [ringRead_succ, Function.update_self]
  congr 1
  refine ringRead_congr fun k less => Function.update_of_ne (fun same => ?_) _ _
  have apart : k = count := Nat.ModEq.eq_of_lt_of_lt (Nat.ModEq.add_left_cancel' head same)
    (less.trans room) room
  omega

/-- **Moving on** drops the first element. -/
theorem ringRead_pop : ringRead cells size head (count + 1) =
    cells (head % size) :: ringRead cells size ((head + 1) % size) count := by
  rw [ringRead, List.range_succ_eq_map, List.map_cons, List.map_map, Nat.add_zero, ringRead]
  congr 1
  refine List.map_congr_left fun k _ => ?_
  rw [Function.comp_apply, Nat.mod_add_mod, Nat.add_assoc, Nat.add_comm 1 k]

/-! ### Queues in a ring -/

/-- **A queue in a ring**: the cells from `head` up to `tail` hold `items`. One cell stays free, so the two
positions tell an empty queue from a full one. -/
structure RingQueue (cells : Nat → α) (size head tail : Nat) (items : List α) : Prop where
  inside : head < size
  room : items.length < size
  ends : tail = (head + items.length) % size
  read : ringRead cells size head items.length = items

namespace RingQueue

variable {tail : Nat} {a : α} {items : List α}

theorem nil (inside : head < size) : RingQueue cells size head head ([] : List α) where
  inside := inside
  room := Nat.zero_lt_of_lt inside
  ends := (Nat.mod_eq_of_lt inside).symm
  read := rfl

theorem tail_lt (queue : RingQueue cells size head tail items) : tail < size := by
  rw [queue.ends]
  exact Nat.mod_lt _ (Nat.zero_lt_of_lt queue.inside)

/-- Equal positions mean an empty queue. -/
theorem empty_iff (queue : RingQueue cells size head tail items) : head = tail ↔ items = [] := by
  have inside := queue.inside
  have room := queue.room
  rw [queue.ends, ← List.length_eq_zero_iff]
  constructor
  · intro same
    have level : (head + items.length) % size = (head + 0) % size := by
      rw [← same, Nat.add_zero, Nat.mod_eq_of_lt inside]
    exact Nat.ModEq.eq_of_lt_of_lt (Nat.ModEq.add_left_cancel' head level) room (by omega)
  · intro empty
    rw [empty, Nat.add_zero, Nat.mod_eq_of_lt inside]

/-- The last cell is left free. -/
theorem full_iff (queue : RingQueue cells size head tail items) :
    (tail + 1) % size = head ↔ items.length + 1 = size := by
  have inside := queue.inside
  have room := queue.room
  rw [queue.ends, Nat.mod_add_mod, Nat.add_assoc]
  constructor
  · intro same
    by_contra less
    have level : (head + (items.length + 1)) % size = (head + 0) % size := by
      rw [same, Nat.add_zero, Nat.mod_eq_of_lt inside]
    have apart := Nat.ModEq.eq_of_lt_of_lt (Nat.ModEq.add_left_cancel' head level) (by omega) (by omega)
    omega
  · intro full
    rw [full, Nat.add_mod_right, Nat.mod_eq_of_lt inside]

/-- **Storing at the tail** puts an item at the end. -/
theorem push (queue : RingQueue cells size head tail items) (less : items.length + 1 < size) (a : α) :
    RingQueue (Function.update cells tail a) size head ((tail + 1) % size) (items ++ [a]) where
  inside := queue.inside
  room := by rwa [List.length_append]
  ends := by
    rw [queue.ends, Nat.mod_add_mod, List.length_append, Nat.add_assoc]
    rfl
  read := by
    rw [List.length_append, List.length_singleton, queue.ends, ringRead_push queue.room, queue.read]

/-- **Moving the head on** takes the first item. -/
theorem pop (queue : RingQueue cells size head tail (a :: items)) :
    cells head = a ∧ RingQueue cells size ((head + 1) % size) tail items := by
  have inside := queue.inside
  have room := queue.room
  have read := queue.read
  rw [List.length_cons] at room read
  rw [ringRead_pop, List.cons.injEq, Nat.mod_eq_of_lt inside] at read
  refine ⟨read.1, Nat.mod_lt _ (Nat.zero_lt_of_lt inside), by omega, ?_, read.2⟩
  rw [queue.ends, List.length_cons, Nat.mod_add_mod, Nat.add_assoc, Nat.add_comm 1]

end RingQueue

/-! ### Going round -/

section Tour

variable {a b : Fin size} {S : Finset (Fin size)}

/-- The number of steps forward from one cell to another, once round for the cell itself. -/
def ringDistance (a b : Fin size) : Nat := if a < b then b - a else size + b - a

theorem ringDistance_pos (a b : Fin size) : 0 < ringDistance a b := by
  unfold ringDistance
  split <;> omega

theorem ringDistance_le (a b : Fin size) : ringDistance a b ≤ size := by
  unfold ringDistance
  split <;> omega

@[simp] theorem ringDistance_self (a : Fin size) : ringDistance a a = size := by
  rw [ringDistance, if_neg (lt_irrefl a)]
  omega

/-- Cells up to the end come before those from the beginning on. -/
theorem ringDistance_le_wrapped {c : Fin size} (ahead : a < b) (behind : c ≤ a) :
    ringDistance a b ≤ ringDistance a c := by
  rw [ringDistance, ringDistance, if_pos ahead, if_neg behind.not_gt]
  omega

theorem ringDistance_le_ahead {c : Fin size} (ahead : a < b) (least : a < c → b ≤ c) :
    ringDistance a b ≤ ringDistance a c := by
  by_cases also : a < c
  · have le := least also
    rw [ringDistance, ringDistance, if_pos ahead, if_pos also]
    omega
  · exact ringDistance_le_wrapped ahead (not_lt.mp also)

theorem ringDistance_le_behind {c : Fin size} (behind : b ≤ a) (also : c ≤ a) (least : b ≤ c) :
    ringDistance a b ≤ ringDistance a c := by
  rw [ringDistance, ringDistance, if_neg behind.not_gt, if_neg also.not_gt]
  omega

/-- The cell some steps ahead. -/
def ringAdvance (a : Fin size) (steps : Nat) : Fin size :=
  ⟨(a + steps) % size, Nat.mod_lt _ a.pos⟩

theorem ringAdvance_val (a : Fin size) {steps : Nat} (few : steps ≤ size) :
    (ringAdvance a steps : Nat) = if a + steps < size then a + steps else a + steps - size := by
  show (a + steps) % size = _
  split
  · rename_i inside
    exact Nat.mod_eq_of_lt inside
  · rename_i outside
    rw [Nat.mod_eq_sub_mod (by omega), Nat.mod_eq_of_lt (by omega)]

theorem ringAdvance_distance (a b : Fin size) : ringAdvance a (ringDistance a b) = b := by
  apply Fin.ext
  rw [ringAdvance_val a (ringDistance_le a b)]
  unfold ringDistance
  split <;> split <;> omega

theorem ringAdvance_round (a : Fin size) : ringAdvance a size = a := by
  have round := ringAdvance_distance a a
  rwa [ringDistance_self] at round

theorem ringDistance_advance (a : Fin size) {steps : Nat} (some : 0 < steps) (few : steps ≤ size) :
    ringDistance a (ringAdvance a steps) = steps := by
  have value := ringAdvance_val a few
  unfold ringDistance
  split at value <;> split <;> omega

/-- **Distances from a cell further on**: what was ahead is nearer, what was passed is a round away. -/
theorem ringDistance_shift (a b : Fin size) {steps : Nat} (few : steps < size) :
    ringDistance (ringAdvance a steps) b =
      if steps < ringDistance a b then ringDistance a b - steps
      else size + ringDistance a b - steps := by
  have value := ringAdvance_val a few.le
  unfold ringDistance
  split at value <;> split <;> split <;> split <;> omega

/-- The first cell of a set that comes after a cell. -/
structure NearestOn (S : Finset (Fin size)) (a b : Fin size) : Prop where
  member : b ∈ S
  nearest : ∀ c ∈ S, ringDistance a b ≤ ringDistance a c

/-- A set of cells in the order in which they come after a cell. -/
def ringTour (S : Finset (Fin size)) (start : Fin size) : List (Fin size) :=
  ((List.finRange size).map fun k => ringAdvance start (k.val + 1)).filter (· ∈ S)

@[simp] theorem mem_ringTour : b ∈ ringTour S a ↔ b ∈ S := by
  rw [ringTour, List.mem_filter, decide_eq_true_iff, and_iff_right_iff_imp]
  intro _
  have pos := ringDistance_pos a b
  have le := ringDistance_le a b
  refine List.mem_map.mpr ⟨⟨ringDistance a b - 1, by omega⟩, List.mem_finRange _, ?_⟩
  rw [Nat.sub_add_cancel pos, ringAdvance_distance]

/-- **A tour goes forward only**, once round at most. -/
theorem ringTour_sorted (S : Finset (Fin size)) (start : Fin size) :
    (ringTour S start).Pairwise fun b c => ringDistance start b < ringDistance start c := by
  refine List.Pairwise.filter _ (List.pairwise_map.mpr ?_)
  refine (List.pairwise_lt_finRange size).imp fun {j k} less => ?_
  rw [ringDistance_advance start (by omega) (by omega), ringDistance_advance start (by omega) (by omega)]
  exact Nat.add_lt_add_right less 1

theorem ringTour_nodup (S : Finset (Fin size)) (start : Fin size) : (ringTour S start).Nodup :=
  (ringTour_sorted S start).imp fun less same => absurd (congrArg (ringDistance start) same) less.ne

theorem length_ringTour (S : Finset (Fin size)) (start : Fin size) :
    (ringTour S start).length = S.card := by
  rw [← List.toFinset_card_of_nodup (ringTour_nodup S start)]
  congr 1
  ext b
  rw [List.mem_toFinset, mem_ringTour]

/-- Where a system stands after each of so many steps. -/
def itinerary {σ : Type} (step : σ → σ) (place : σ → α) : Nat → σ → List α
  | 0, _ => []
  | count + 1, s => place (step s) :: itinerary step place count (step s)

/-- The rest of a tour: what is ahead of the place reached is visited in order. -/
theorem itinerary_ahead {σ : Type} {step : σ → σ} {place : σ → α} {At : Fin size → σ → Prop}
    {name : Fin size → α} (placed : ∀ c s, At c s → place s = name c)
    (moves : ∀ c s, At c s → ∃ next, NearestOn S c next ∧ At next (step s)) {start : Fin size} :
    ∀ {ahead : List (Fin size)} {steps : Nat} {s : σ}, steps ≤ size → At (ringAdvance start steps) s →
      (ahead.Pairwise fun b c => ringDistance start b < ringDistance start c) →
      (∀ c ∈ ahead, c ∈ S ∧ steps < ringDistance start c) →
      (∀ c ∈ S, ringDistance start c ≤ steps ∨ c ∈ ahead) →
      itinerary step place ahead.length s = ahead.map name ∧
        ∃ last ≤ size, At (ringAdvance start last) (step^[ahead.length] s) ∧
          ∀ c ∈ S, ringDistance start c ≤ last
  | [], steps, s, few, here, _, _, passed =>
      ⟨rfl, steps, few, here, fun c member => (passed c member).resolve_right List.not_mem_nil⟩
  | b :: ahead, steps, s, few, here, sorted, inside, passed => by
      obtain ⟨next, nearest, there⟩ := moves _ s here
      obtain ⟨first, later⟩ := List.pairwise_cons.mp sorted
      obtain ⟨member, beyond⟩ := inside b List.mem_cons_self
      have le := ringDistance_le start b
      have same : next = b := by
        have close := nearest.nearest b member
        rw [ringDistance_shift start next (by omega), ringDistance_shift start b (by omega),
          if_pos beyond] at close
        have pos := ringDistance_pos start next
        rcases passed next nearest.member with behind | ahead
        · rw [if_neg (by omega)] at close
          omega
        · rcases List.mem_cons.mp ahead with same | ahead
          · exact same
          · have far := first next ahead
            rw [if_pos (by omega)] at close
            omega
      subst same
      rw [← ringAdvance_distance start next] at there
      obtain ⟨visits, last⟩ := itinerary_ahead placed moves le there later
        (fun c member => ⟨(inside c (List.mem_cons_of_mem _ member)).1, first c member⟩)
        (fun c member => by
          rcases passed c member with behind | ahead
          · exact .inl (by omega)
          · rcases List.mem_cons.mp ahead with same | ahead
            · exact .inl (by rw [same])
            · exact .inr ahead)
      rw [ringAdvance_distance] at there
      refine ⟨?_, last⟩
      rw [List.length_cons, itinerary, visits, placed _ _ there, List.map_cons]

/-- **Always moving on to the nearest cell of a set is the tour of the set**, and ends where it began. -/
theorem itinerary_tour {σ : Type} {step : σ → σ} {place : σ → α} {At : Fin size → σ → Prop}
    {name : Fin size → α} (placed : ∀ c s, At c s → place s = name c)
    (moves : ∀ c s, At c s → ∃ next, NearestOn S c next ∧ At next (step s)) {start : Fin size} {s : σ}
    (member : start ∈ S) (here : At start s) :
    itinerary step place S.card s = (ringTour S start).map name ∧ At start (step^[S.card] s) := by
  have origin : ringAdvance start 0 = start := Fin.ext (Nat.mod_eq_of_lt start.isLt)
  have ahead := itinerary_ahead placed moves (Nat.zero_le size)
    (by rwa [origin]) (ringTour_sorted S start)
    (fun c inside => ⟨mem_ringTour.mp inside, ringDistance_pos start c⟩)
    (fun c inside => .inr (mem_ringTour.mpr inside))
  rw [length_ringTour] at ahead
  obtain ⟨visits, last, few, there, all⟩ := ahead
  have round := all start member
  rw [ringDistance_self] at round
  obtain rfl : last = size := le_antisymm few round
  rw [ringAdvance_round] at there
  exact ⟨visits, there⟩

end Tour

end Kfs
