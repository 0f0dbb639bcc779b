/-
**Tilings of an interval by free and used segments.**

The abstract state of a first-fit allocator: a list of consecutive segments covering `[lo, hi)`
(`Tiles`), each free or in use. Three operations act on it.

* `firstFit n` finds the first free segment of size at least `n`, and `carve n slack` marks its first
  `n` bytes used, giving back the rest as a free segment when at least `slack` bytes remain.
* `coalesce` is the one-pass merge of neighbouring free segments.
* `release a` frees the segment at `a` and coalesces.

All three keep the tiling (`Tiles.carve`, `coalesce_tiles`, `release_tiles`); the last two leave
no two neighbouring free segments (`coalesce_noFreePair`), and on such a list releasing what was just
carved gives the old list back (`release_carve`).
-/

import Mathlib.Data.List.Chain
import Mathlib.Tactic

namespace Kfs

/-- A range of addresses, free or in use. -/
structure Segment where
  addr : Nat
  size : Nat
  free : Bool
  deriving DecidableEq, Repr

namespace Segment

/-- `x` is an address of the segment. -/
def Covers (s : Segment) (x : Nat) : Prop := s.addr ≤ x ∧ x < s.addr + s.size

/-- The segment, marked free. -/
def freed (s : Segment) : Segment := { s with free := true }

end Segment

open Segment

/-- The segments are consecutive, nonempty, and cover exactly `[lo, hi)`. -/
def Tiles (lo hi : Nat) : List Segment → Prop
  | [] => lo = hi
  | s :: rest => s.addr = lo ∧ 0 < s.size ∧ Tiles (lo + s.size) hi rest

/-- No two neighbouring segments are both free. -/
def NoFreePair (l : List Segment) : Prop :=
  l.IsChain fun s t => ¬ (s.free = true ∧ t.free = true)

section Tiling

variable {lo hi : Nat} {l : List Segment} {s t : Segment}

theorem Tiles.le (tiles : Tiles lo hi l) : lo ≤ hi := by
  induction l generalizing lo with
  | nil => exact tiles.le
  | cons s rest ih =>
      have := ih tiles.2.2
      omega

theorem tiles_append {front back : List Segment} :
    Tiles lo hi (front ++ back) ↔ ∃ mid, Tiles lo mid front ∧ Tiles mid hi back := by
  induction front generalizing lo with
  | nil =>
      constructor
      · intro tiles
        exact ⟨lo, rfl, tiles⟩
      · rintro ⟨mid, rfl, tiles⟩
        exact tiles
  | cons s front ih =>
      simp only [List.cons_append, Tiles, ih]
      constructor
      · rintro ⟨start, positive, mid, first, second⟩
        exact ⟨mid, ⟨start, positive, first⟩, second⟩
      · rintro ⟨mid, ⟨start, positive, first⟩, second⟩
        exact ⟨start, positive, mid, first, second⟩

/-- Every segment lies inside the interval. -/
theorem Tiles.bounds (tiles : Tiles lo hi l) (member : s ∈ l) :
    lo ≤ s.addr ∧ 0 < s.size ∧ s.addr + s.size ≤ hi := by
  induction l generalizing lo with
  | nil => cases member
  | cons head rest ih =>
      obtain ⟨start, positive, later⟩ := tiles
      rcases List.mem_cons.mp member with rfl | inside
      · have := later.le
        omega
      · have := ih later inside
        omega

/-- A tiling splits around each of its segments. -/
theorem Tiles.split {front back : List Segment} (tiles : Tiles lo hi (front ++ s :: back)) :
    Tiles lo s.addr front ∧ 0 < s.size ∧ Tiles (s.addr + s.size) hi back := by
  obtain ⟨mid, before, start, positive, after⟩ := tiles_append.mp tiles
  subst start
  exact ⟨before, positive, after⟩

/-- **Two segments of a tiling that share an address are the same segment.** -/
theorem Tiles.eq_of_covers (tiles : Tiles lo hi l) (first : s ∈ l) (second : t ∈ l) {x : Nat}
    (inFirst : s.Covers x) (inSecond : t.Covers x) : s = t := by
  induction l generalizing lo with
  | nil => cases first
  | cons head rest ih =>
      obtain ⟨start, positive, later⟩ := tiles
      unfold Covers at inFirst inSecond
      rcases List.mem_cons.mp first with rfl | inside
      · rcases List.mem_cons.mp second with rfl | inside
        · rfl
        · have := (later.bounds inside).1
          omega
      · rcases List.mem_cons.mp second with rfl | inside'
        · have := (later.bounds inside).1
          omega
        · exact ih later inside inside'

/-- Two segments of a tiling that start at the same address are the same segment. -/
theorem Tiles.eq_of_addr (tiles : Tiles lo hi l) (first : s ∈ l) (second : t ∈ l)
    (same : s.addr = t.addr) : s = t := by
  have inFirst := tiles.bounds first
  have inSecond := tiles.bounds second
  exact tiles.eq_of_covers first second (x := s.addr) ⟨le_rfl, by omega⟩ ⟨by omega, by omega⟩

/-- Two different segments of a tiling are disjoint. -/
theorem Tiles.disjoint (tiles : Tiles lo hi l) (first : s ∈ l) (second : t ∈ l)
    (different : s.addr ≠ t.addr) : s.addr + s.size ≤ t.addr ∨ t.addr + t.size ≤ s.addr := by
  have inFirst := tiles.bounds first
  have inSecond := tiles.bounds second
  by_contra overlap
  apply different
  by_cases order : s.addr ≤ t.addr
  · rw [tiles.eq_of_covers first second (x := t.addr) ⟨order, by omega⟩ ⟨le_rfl, by omega⟩]
  · rw [tiles.eq_of_covers first second (x := s.addr) ⟨le_rfl, by omega⟩ ⟨by omega, by omega⟩]

theorem Tiles.nodup (tiles : Tiles lo hi l) : (l.map Segment.addr).Nodup := by
  induction l generalizing lo with
  | nil => exact List.nodup_nil
  | cons head rest ih =>
      obtain ⟨start, positive, later⟩ := tiles
      refine List.nodup_cons.mpr ⟨fun member => ?_, ih later⟩
      obtain ⟨t, inside, same⟩ := List.mem_map.mp member
      have := (later.bounds inside).1
      omega

/-- The sizes of a tiling add up to the length of the interval. -/
theorem Tiles.sum (tiles : Tiles lo hi l) : lo + (l.map Segment.size).sum = hi := by
  induction l generalizing lo with
  | nil => simpa [Tiles] using tiles
  | cons head rest ih =>
      have := ih tiles.2.2
      simp only [List.map_cons, List.sum_cons]
      omega

/-- A tiling has no more segments than the interval has grains of the smallest size. -/
theorem Tiles.length_le (tiles : Tiles lo hi l) {least : Nat} (big : ∀ s ∈ l, least ≤ s.size) :
    l.length * least ≤ hi - lo := by
  induction l generalizing lo with
  | nil => simp
  | cons head rest ih =>
      have tail := ih tiles.2.2 fun s member => big s (List.mem_cons_of_mem _ member)
      have first := big head List.mem_cons_self
      have := tiles.2.2.le
      rw [List.length_cons, Nat.add_mul]
      omega

/-- A free segment is no longer than the one that starts where it does, in a tiling with the same used
segments. -/
theorem size_le_of_used {l' : List Segment} {s' : Segment} (tiles : Tiles lo hi (s :: l))
    (tiles' : Tiles lo hi (s' :: l')) (apart : NoFreePair (s :: l)) (free : s.free = true)
    (free' : s'.free = true) (same : ∀ u, u.free = false → u ∈ l → u ∈ s' :: l') : s'.size ≤ s.size := by
  obtain ⟨start, positive, later⟩ := tiles
  have bounds := tiles'.bounds List.mem_cons_self
  cases l with
  | nil =>
      have last : lo + s.size = hi := later
      have first := tiles'.1
      omega
  | cons u rest =>
      have used : u.free = false := by
        have pair := (List.isChain_cons_cons.mp apart).1
        simpa [free] using pair
      have member := same u used List.mem_cons_self
      by_contra longer
      have first := tiles'.1
      have second := later.1
      have whole := tiles'.eq_of_covers (x := u.addr) List.mem_cons_self member
        (by unfold Covers; omega) (by have := tiles'.bounds member; unfold Covers; omega)
      rw [← whole, free'] at used
      cases used

/-- **A tiling without neighbouring free segments is determined by its used ones.** -/
theorem Tiles.eq_of_used {l' : List Segment} (tiles : Tiles lo hi l) (tiles' : Tiles lo hi l')
    (apart : NoFreePair l) (apart' : NoFreePair l')
    (same : ∀ u, u.free = false → (u ∈ l ↔ u ∈ l')) : l = l' := by
  induction l generalizing lo l' with
  | nil =>
      cases l' with
      | nil => rfl
      | cons s' rest' =>
          have empty : lo = hi := tiles
          have := tiles'.bounds List.mem_cons_self
          have := tiles'.1
          omega
  | cons s rest ih =>
      cases l' with
      | nil =>
          have empty : lo = hi := tiles'
          have := tiles.bounds List.mem_cons_self
          have := tiles.1
          omega
      | cons s' rest' =>
          have start : s.addr = s'.addr := tiles.1.trans tiles'.1.symm
          have head : s = s' := by
            cases free : s.free with
            | false =>
                exact tiles'.eq_of_addr ((same s free).mp List.mem_cons_self) List.mem_cons_self start
            | true =>
                cases free' : s'.free with
                | false =>
                    exact tiles.eq_of_addr List.mem_cons_self ((same s' free').mpr List.mem_cons_self)
                      start
                | true =>
                    have le := size_le_of_used tiles tiles' apart free free' fun u used member =>
                      (same u used).mp (List.mem_cons_of_mem _ member)
                    have ge := size_le_of_used tiles' tiles apart' free' free fun u used member =>
                      (same u used).mpr (List.mem_cons_of_mem _ member)
                    obtain ⟨addr, size, f⟩ := s
                    obtain ⟨addr', size', f'⟩ := s'
                    simp only at start le ge free free'
                    rw [start, free, free', le_antisymm ge le]
          subst head
          have beyond : ∀ {l : List Segment}, Tiles (lo + s.size) hi l → s ∉ l := fun tail member => by
            have := (tail.bounds member).1
            have := tiles.1
            have := tiles.2.1
            omega
          rw [ih tiles.2.2 tiles'.2.2 apart.tail apart'.tail fun u used => ?_]
          constructor
          · intro member
            rcases List.mem_cons.mp ((same u used).mp (List.mem_cons_of_mem _ member)) with rfl | inside
            · exact absurd member (beyond tiles.2.2)
            · exact inside
          · intro member
            rcases List.mem_cons.mp ((same u used).mpr (List.mem_cons_of_mem _ member)) with rfl | inside
            · exact absurd member (beyond tiles'.2.2)
            · exact inside

end Tiling

/-! ### First fit -/

/-- Can the segment serve a request of `n`? -/
def Segment.fits (n : Nat) (s : Segment) : Bool := s.free && decide (n ≤ s.size)

/-- Use the first `n` bytes of a segment, giving back what is left if at least `slack`. -/
def carve (n slack : Nat) (s : Segment) : List Segment :=
  if n + slack ≤ s.size then
    [⟨s.addr, n, false⟩, ⟨s.addr + n, s.size - n, true⟩]
  else [⟨s.addr, s.size, false⟩]

/-- The first segment that can serve a request. -/
def firstFit (n : Nat) (l : List Segment) : Option Segment := l.find? (Segment.fits n)

section FirstFit

variable {n slack lo hi : Nat} {l : List Segment} {s : Segment}

theorem fits_iff : s.fits n = true ↔ s.free = true ∧ n ≤ s.size := by
  simp [Segment.fits]

/-- **What a first-fit search finds.** -/
theorem firstFit_eq_some : firstFit n l = some s ↔
    s.fits n = true ∧ ∃ front back, l = front ++ s :: back ∧ ∀ t ∈ front, t.fits n = false := by
  simp [firstFit, List.find?_eq_some_iff_append]

theorem firstFit_eq_none : firstFit n l = none ↔ ∀ s ∈ l, s.fits n = false := by
  simp [firstFit]

theorem carve_tiles (positive : 0 < n) (big : 0 < slack) (fit : n ≤ s.size) :
    Tiles s.addr (s.addr + s.size) (carve n slack s) := by
  unfold carve
  split
  · refine ⟨rfl, positive, rfl, ?_, ?_⟩
    · show 0 < s.size - n
      omega
    · show s.addr + n + (s.size - n) = s.addr + s.size
      omega
  · exact ⟨rfl, by show 0 < s.size; omega, rfl⟩

/-- **Carving one segment keeps the tiling.** -/
theorem Tiles.carve {front back : List Segment} (tiles : Tiles lo hi (front ++ s :: back))
    (positive : 0 < n) (big : 0 < slack) (fit : n ≤ s.size) :
    Tiles lo hi (front ++ carve n slack s ++ back) := by
  obtain ⟨before, _, later⟩ := tiles.split
  rw [List.append_assoc, tiles_append]
  exact ⟨s.addr, before, tiles_append.mpr ⟨_, carve_tiles positive big fit, later⟩⟩

/-- A segment too short to split is used whole. -/
theorem carve_whole (big : 0 < slack) (short : s.size < n + slack) :
    carve n slack s = carve s.size slack s := by
  unfold carve
  rw [if_neg (by omega), if_neg (by omega)]

/-- The carved parts: the used part first. -/
theorem mem_carve {t : Segment} (member : t ∈ carve n slack s) :
    (t = ⟨s.addr, n, false⟩ ∧ n + slack ≤ s.size) ∨
      (t = ⟨s.addr + n, s.size - n, true⟩ ∧ n + slack ≤ s.size) ∨
      (t = ⟨s.addr, s.size, false⟩ ∧ s.size < n + slack) := by
  unfold carve at member
  split at member
  · rename_i enough
    rcases List.mem_cons.mp member with rfl | member
    · exact Or.inl ⟨rfl, enough⟩
    · rw [List.mem_singleton.mp member]
      exact Or.inr (Or.inl ⟨rfl, enough⟩)
  · rename_i short
    rw [List.mem_singleton.mp member]
    exact Or.inr (Or.inr ⟨rfl, by omega⟩)

/-- The used part of a carved segment: it starts where the segment did and holds `n` bytes. -/
theorem carve_used (fit : n ≤ s.size) :
    ∃ size, n ≤ size ∧ size ≤ s.size ∧ (⟨s.addr, size, false⟩ : Segment) ∈ carve n slack s := by
  unfold carve
  split
  · exact ⟨n, le_rfl, fit, List.mem_cons_self⟩
  · exact ⟨s.size, fit, le_rfl, List.mem_cons_self⟩

end FirstFit

/-! ### Merging neighbouring free segments -/

/-- The merging sweep: while the front segment and its successor are both free, absorb the
successor; otherwise step on. -/
def coalesce : List Segment → List Segment
  | s :: t :: rest =>
      if s.free && t.free then coalesce ({ s with size := s.size + t.size } :: rest)
      else s :: coalesce (t :: rest)
  | l => l
termination_by l => l.length

theorem coalesce_nil : coalesce [] = [] := by
  rw [coalesce]
  rintro s t rest ⟨⟩

theorem coalesce_single (s : Segment) : coalesce [s] = [s] := by
  rw [coalesce]
  rintro s t rest ⟨⟩

theorem coalesce_absorb {s t : Segment} {rest : List Segment} (first : s.free = true)
    (second : t.free = true) :
    coalesce (s :: t :: rest) = coalesce ({ s with size := s.size + t.size } :: rest) := by
  rw [coalesce, if_pos (by simp [first, second])]

theorem coalesce_step {s t : Segment} {rest : List Segment}
    (apart : ¬ (s.free = true ∧ t.free = true)) :
    coalesce (s :: t :: rest) = s :: coalesce (t :: rest) := by
  rw [coalesce, if_neg (by simpa using apart)]

/-- The sweep's own induction: empty, last segment, an absorbed successor, a step. -/
theorem coalesce_induction {motive : List Segment → Prop} (nil : motive [])
    (single : ∀ s, motive [s])
    (absorb : ∀ s t rest, s.free = true → t.free = true →
      motive ({ s with size := s.size + t.size } :: rest) → motive (s :: t :: rest))
    (step : ∀ s t rest, ¬ (s.free = true ∧ t.free = true) → motive (t :: rest) →
      motive (s :: t :: rest)) : ∀ l, motive l
  | [] => nil
  | [s] => single s
  | s :: t :: rest => by
      by_cases both : s.free = true ∧ t.free = true
      · exact absorb s t rest both.1 both.2 (coalesce_induction nil single absorb step _)
      · exact step s t rest both (coalesce_induction nil single absorb step _)
termination_by l => l.length

section Coalesce

variable {lo hi : Nat} {l : List Segment} {s : Segment}

/-- The sweep keeps the first address, whether the first segment is free, and at least its size. -/
theorem coalesce_cons (s : Segment) (rest : List Segment) :
    ∃ size tail, s.size ≤ size ∧ coalesce (s :: rest) = ⟨s.addr, size, s.free⟩ :: tail := by
  have general : ∀ l, ∀ s rest, l = s :: rest →
      ∃ size tail, s.size ≤ size ∧ coalesce l = ⟨s.addr, size, s.free⟩ :: tail := by
    intro l
    induction l using coalesce_induction with
    | nil => rintro s rest ⟨⟩
    | single t =>
        rintro s rest ⟨⟩
        exact ⟨t.size, [], le_rfl, coalesce_single t⟩
    | absorb t u more first second ih =>
        rintro s rest ⟨⟩
        obtain ⟨size, tail, grown, same⟩ := ih _ _ rfl
        simp only at grown
        exact ⟨size, tail, by omega, by rw [coalesce_absorb first second, same]⟩
    | step t u more apart ih =>
        rintro s rest ⟨⟩
        exact ⟨t.size, _, le_rfl, coalesce_step apart⟩
  exact general _ s rest rfl

/-- Absorbing a successor keeps the tiling. -/
theorem Tiles.absorb {t : Segment} {rest : List Segment} (tiles : Tiles lo hi (s :: t :: rest)) :
    Tiles lo hi ({ s with size := s.size + t.size } :: rest) := by
  obtain ⟨start, positive, _, _, later⟩ := tiles
  refine ⟨start, by show 0 < s.size + t.size; omega, ?_⟩
  show Tiles (lo + (s.size + t.size)) hi rest
  rwa [← Nat.add_assoc]

/-- **The sweep keeps the tiling.** -/
theorem coalesce_tiles (tiles : Tiles lo hi l) : Tiles lo hi (coalesce l) := by
  induction l using coalesce_induction generalizing lo with
  | nil => rwa [coalesce_nil]
  | single s => rwa [coalesce_single]
  | absorb s t rest first second ih =>
      rw [coalesce_absorb first second]
      exact ih tiles.absorb
  | step s t rest apart ih =>
      rw [coalesce_step apart]
      exact ⟨tiles.1, tiles.2.1, ih tiles.2.2⟩

/-- **The sweep leaves no two neighbouring free segments.** -/
theorem coalesce_noFreePair (l : List Segment) : NoFreePair (coalesce l) := by
  induction l using coalesce_induction with
  | nil =>
      rw [coalesce_nil]
      exact List.isChain_nil
  | single s =>
      rw [coalesce_single]
      exact List.isChain_singleton s
  | absorb s t rest first second ih =>
      rw [coalesce_absorb first second]
      exact ih
  | step s t rest apart ih =>
      rw [coalesce_step apart]
      obtain ⟨size, tail, _, same⟩ := coalesce_cons t rest
      rw [same] at ih ⊢
      exact List.isChain_cons_cons.mpr ⟨apart, ih⟩

/-- A front without free pairs, up to and including its seam, is left alone. -/
theorem coalesce_append {front rest : List Segment} (apart : NoFreePair (front ++ [s])) :
    coalesce (front ++ s :: rest) = front ++ coalesce (s :: rest) := by
  induction front with
  | nil => rfl
  | cons head front ih =>
      cases front with
      | nil =>
          have seam := (List.isChain_cons_cons.mp apart).1
          show coalesce (head :: s :: rest) = _
          rw [coalesce_step seam]
          rfl
      | cons next front =>
          obtain ⟨seam, more⟩ := List.isChain_cons_cons.mp apart
          show coalesce (head :: next :: (front ++ s :: rest)) = _
          rw [coalesce_step seam]
          exact congrArg (head :: ·) (ih more)

theorem coalesce_of_noFreePair (apart : NoFreePair l) : coalesce l = l := by
  rcases List.eq_nil_or_concat l with rfl | ⟨front, s, rfl⟩
  · exact coalesce_nil
  · rw [List.concat_eq_append] at apart ⊢
    rw [coalesce_append apart, coalesce_single]

/-- **The sweep leaves the segments in use alone**, and their order. -/
theorem filter_coalesce (l : List Segment) :
    ((coalesce l).filter fun s => !s.free) = l.filter fun s => !s.free := by
  induction l using coalesce_induction with
  | nil => rw [coalesce_nil]
  | single s => rw [coalesce_single]
  | absorb s t rest first second ih =>
      rw [coalesce_absorb first second, ih]
      simp [first, second]
  | step s t rest apart ih =>
      rw [coalesce_step apart, ← List.singleton_append, List.filter_append, ih, ← List.filter_append]
      rfl

theorem mem_coalesce_used (used : s.free = false) : s ∈ coalesce l ↔ s ∈ l := by
  have inFilter : ∀ k : List Segment, s ∈ k.filter (fun s => !s.free) ↔ s ∈ k := by
    intro k
    simp [List.mem_filter, used]
  rw [← inFilter, filter_coalesce, inFilter]

/-- Every free segment ends up whole in a free segment, at its start or at least a segment further on. -/
theorem mem_coalesce_within {least : Nat} (tiles : Tiles lo hi l) (big : ∀ u ∈ l, least ≤ u.size)
    (member : s ∈ l) (free : s.free = true) :
    ∃ t ∈ coalesce l, t.free = true ∧ t.addr ≤ s.addr ∧ s.addr + s.size ≤ t.addr + t.size ∧
      (t.addr = s.addr ∨ t.addr + least ≤ s.addr) := by
  induction l using coalesce_induction generalizing s lo with
  | nil => cases member
  | single t =>
      rw [coalesce_single]
      exact ⟨s, member, free, le_rfl, le_rfl, .inl rfl⟩
  | absorb t u rest first second ih =>
      rw [coalesce_absorb first second]
      have merged := tiles.absorb
      obtain ⟨start, _, start', _, _⟩ := tiles
      have bigT := big t List.mem_cons_self
      have bigger : ∀ v ∈ { t with size := t.size + u.size } :: rest, least ≤ v.size := by
        intro v inside
        rcases List.mem_cons.mp inside with rfl | inside
        · show least ≤ t.size + u.size
          omega
        · exact big v (List.mem_cons_of_mem _ (List.mem_cons_of_mem _ inside))
      obtain ⟨v, found, isFree, low, high, place⟩ := ih merged bigger List.mem_cons_self first
      have high : t.addr + (t.size + u.size) ≤ v.addr + v.size := high
      have low : v.addr ≤ t.addr := low
      rcases List.mem_cons.mp member with rfl | member
      · exact ⟨v, found, isFree, low, by omega, place⟩
      · rcases List.mem_cons.mp member with rfl | member
        · exact ⟨v, found, isFree, by omega, by omega, .inr (by omega)⟩
        · exact ih merged bigger (List.mem_cons_of_mem _ member) free
  | step t u rest apart ih =>
      rw [coalesce_step apart]
      rcases List.mem_cons.mp member with rfl | member
      · exact ⟨s, List.mem_cons_self, free, le_rfl, le_rfl, .inl rfl⟩
      · obtain ⟨v, found, rest⟩ := ih tiles.2.2 (fun w inside => big w (List.mem_cons_of_mem _ inside)) member free
        exact ⟨v, List.mem_cons_of_mem _ found, rest⟩

/-- Every free segment ends up inside a free segment. -/
theorem mem_coalesce_free {x : Nat} (tiles : Tiles lo hi l) (member : s ∈ l) (free : s.free = true)
    (inside : s.Covers x) : ∃ t ∈ coalesce l, t.free = true ∧ t.Covers x := by
  obtain ⟨t, found, isFree, low, high, _⟩ := mem_coalesce_within tiles (fun u _ => Nat.zero_le u.size) member free
  exact ⟨t, found, isFree, low.trans inside.1, inside.2.trans_le high⟩

/-- A property of sizes closed under addition survives the sweep. -/
theorem coalesce_sizes {P : Nat → Prop} (add : ∀ x y, P x → P y → P (x + y))
    (all : ∀ s ∈ l, P s.size) : ∀ s ∈ coalesce l, P s.size := by
  induction l using coalesce_induction with
  | nil => rwa [coalesce_nil]
  | single t => rwa [coalesce_single]
  | absorb t u rest first second ih =>
      rw [coalesce_absorb first second]
      refine ih fun s member => ?_
      rcases List.mem_cons.mp member with rfl | member
      · exact add _ _ (all t (by simp)) (all u (by simp))
      · exact all s (by simp [member])
  | step t u rest apart ih =>
      rw [coalesce_step apart]
      intro s member
      rcases List.mem_cons.mp member with rfl | member
      · exact all s (by simp)
      · exact ih (fun s inside => all s (List.mem_cons_of_mem _ inside)) s member

/-- A tiling without free pairs and without used segments is one segment. -/
theorem eq_single_of_all_free (tiles : Tiles lo hi l) (apart : NoFreePair l)
    (free : ∀ s ∈ l, s.free = true) (room : lo < hi) : l = [⟨lo, hi - lo, true⟩] := by
  match l, tiles with
  | [], tiles =>
      have : lo = hi := tiles
      omega
  | [s], tiles =>
      obtain ⟨start, positive, last⟩ := tiles
      have end_ : lo + s.size = hi := last
      obtain ⟨addr, size, f⟩ := s
      have := free _ List.mem_cons_self
      simp only at start this end_ ⊢
      subst start this
      rw [show hi - addr = size by omega]
  | s :: t :: rest, _ =>
      exact absurd ⟨free s (by simp), free t (by simp)⟩ (List.isChain_cons_cons.mp apart).1

/-- Past the end of a free segment no free segment begins. -/
theorem NoFreePair.not_free_after {t : Segment} (apart : NoFreePair l) (tiles : Tiles lo hi l)
    (first : s ∈ l) (free : s.free = true) (second : t ∈ l) (freeT : t.free = true) :
    ¬ t.Covers (s.addr + s.size) := by
  intro covers
  obtain ⟨front, back, rfl⟩ := List.append_of_mem first
  obtain ⟨_, _, later⟩ := tiles.split
  cases back with
  | nil =>
      have last : s.addr + s.size = hi := later
      have inside := tiles.bounds second
      unfold Covers at covers
      omega
  | cons u back =>
      have start := later.1
      have positive := later.2.1
      have same : t = u := tiles.eq_of_covers second (by simp) covers ⟨by omega, by omega⟩
      have seam := (List.isChain_cons_cons.mp (List.isChain_append.mp apart).2.1).1
      exact seam ⟨free, same ▸ freeT⟩

/-- `n` consecutive addresses, all of them free. -/
def FreeRun (l : List Segment) (n : Nat) : Prop :=
  ∃ a, ∀ x, a ≤ x → x < a + n → ∃ s ∈ l, s.free = true ∧ s.Covers x

/-- **In a coalesced tiling a run of free addresses lies in one segment.** -/
theorem freeRun_iff {n : Nat} (tiles : Tiles lo hi l) (apart : NoFreePair l) (positive : 0 < n) :
    FreeRun l n ↔ ∃ s ∈ l, s.fits n = true := by
  constructor
  · rintro ⟨a, run⟩
    obtain ⟨s, member, free, covers⟩ := run a le_rfl (by omega)
    have whole : ∀ k < n, s.Covers (a + k) := by
      intro k
      induction k with
      | zero => exact fun _ => covers
      | succ k ih =>
          intro small
          have before := ih (by omega)
          obtain ⟨t, memberT, freeT, coversT⟩ := run (a + (k + 1)) (by omega) (by omega)
          by_contra past
          unfold Covers at before past
          refine apart.not_free_after tiles member free memberT freeT ?_
          rwa [show s.addr + s.size = a + (k + 1) by omega]
    have last := whole (n - 1) (by omega)
    unfold Covers at covers last
    exact ⟨s, member, fits_iff.mpr ⟨free, by omega⟩⟩
  · rintro ⟨s, member, fit⟩
    obtain ⟨free, room⟩ := fits_iff.mp fit
    exact ⟨s.addr, fun x low high => ⟨s, member, free, low, by omega⟩⟩

end Coalesce

/-! ### Releasing -/

/-- Mark the segment at `a` free. -/
def markFree (a : Nat) (l : List Segment) : List Segment :=
  l.map fun s => if s.addr = a then s.freed else s

/-- Free the segment at `a` and merge. -/
def release (a : Nat) (l : List Segment) : List Segment := coalesce (markFree a l)

section Release

variable {lo hi : Nat} {l : List Segment} {s : Segment} {a : Nat}

theorem markFree_tiles (tiles : Tiles lo hi l) : Tiles lo hi (markFree a l) := by
  induction l generalizing lo with
  | nil => exact tiles
  | cons head rest ih =>
      obtain ⟨start, positive, later⟩ := tiles
      refine ⟨?_, ?_, ?_⟩
      · show (if head.addr = a then head.freed else head).addr = lo
        split <;> exact start
      · show 0 < (if head.addr = a then head.freed else head).size
        split <;> exact positive
      · show Tiles (lo + (if head.addr = a then head.freed else head).size) hi _
        have same : (if head.addr = a then head.freed else head).size = head.size := by
          split <;> rfl
        rw [same]
        exact ih later

theorem release_tiles (tiles : Tiles lo hi l) : Tiles lo hi (release a l) :=
  coalesce_tiles (markFree_tiles tiles)

theorem release_noFreePair : NoFreePair (release a l) := coalesce_noFreePair _

theorem markFree_of_forall_ne (other : ∀ s ∈ l, s.addr ≠ a) : markFree a l = l := by
  refine (List.map_congr_left fun s member => if_neg (other s member)).trans ?_
  exact List.map_id' l

theorem markFree_append {front back : List Segment} :
    markFree a (front ++ back) = markFree a front ++ markFree a back :=
  List.map_append

/-- Marking the head of the middle of a tiling. -/
theorem markFree_split {front back : List Segment} (tiles : Tiles lo hi (front ++ s :: back)) :
    markFree s.addr (front ++ s :: back) = front ++ s.freed :: back := by
  have names := tiles.nodup
  rw [List.map_append, List.map_cons, List.nodup_append] at names
  obtain ⟨_, second, apart⟩ := names
  rw [markFree_append, markFree_of_forall_ne fun t member same =>
    apart _ (List.mem_map_of_mem member) _ List.mem_cons_self same]
  show _ ++ (if s.addr = s.addr then s.freed else s) :: markFree s.addr back = _
  rw [if_pos rfl, markFree_of_forall_ne fun t member same => ?_]
  apply (List.nodup_cons.mp second).1
  rw [← same]
  exact List.mem_map_of_mem member

/-- The segments in use after a release: the old ones but the one released. -/
theorem mem_release_used (used : s.free = false) :
    s ∈ release a l ↔ s ∈ l ∧ s.addr ≠ a := by
  rw [release, mem_coalesce_used used, markFree, List.mem_map]
  constructor
  · rintro ⟨t, member, same⟩
    split at same
    · subst same
      simp [Segment.freed] at used
    · subst same
      rename_i other
      exact ⟨member, other⟩
  · rintro ⟨member, other⟩
    exact ⟨s, member, if_neg other⟩

theorem release_sizes {P : Nat → Prop} (add : ∀ x y, P x → P y → P (x + y))
    (all : ∀ s ∈ l, P s.size) : ∀ s ∈ release a l, P s.size := by
  refine coalesce_sizes add fun s member => ?_
  obtain ⟨t, inside, rfl⟩ := List.mem_map.mp member
  split <;> exact all t inside

end Release

section RoundTrip

variable {n slack lo hi : Nat}

/-- Carving a free segment leaves no free pair where there was none. -/
theorem carve_noFreePair {front back : List Segment} {s : Segment}
    (apart : NoFreePair (front ++ s :: back)) (free : s.free = true) :
    NoFreePair (front ++ carve n slack s ++ back) := by
  have tail : NoFreePair (carve n slack s ++ back) := by
    have rest : NoFreePair (s :: back) := (List.isChain_append.mp apart).2.1
    unfold carve
    split
    · cases back with
      | nil => exact List.isChain_cons_cons.mpr ⟨by simp, List.isChain_singleton _⟩
      | cons t back =>
          obtain ⟨seam, more⟩ := List.isChain_cons_cons.mp rest
          refine List.isChain_cons_cons.mpr ⟨by simp, List.isChain_cons_cons.mpr ⟨?_, more⟩⟩
          simpa [free] using seam
    · cases back with
      | nil => exact List.isChain_singleton _
      | cons t back =>
          exact List.isChain_cons_cons.mpr ⟨by simp, (List.isChain_cons_cons.mp rest).2⟩
  rw [List.append_assoc]
  refine List.isChain_append.mpr ⟨(List.isChain_append.mp apart).1, tail, ?_⟩
  intro x last y first
  have seam := (List.isChain_append.mp apart).2.2 x last s (by simp)
  rintro ⟨freeX, _⟩
  exact seam ⟨freeX, free⟩

/-- **Releasing what was just carved gives the old list back.** -/
theorem release_carve {front back : List Segment} {s : Segment} (positive : 0 < n)
    (big : 0 < slack) (tiles : Tiles lo hi (front ++ s :: back))
    (apart : NoFreePair (front ++ s :: back)) (free : s.free = true) (room : n ≤ s.size) :
    release s.addr (front ++ carve n slack s ++ back) = front ++ s :: back := by
  have tiles' := tiles.carve positive big room
  have seam : ∀ size, NoFreePair (front ++ [⟨s.addr, size, true⟩]) := by
    intro size
    refine List.isChain_append.mpr ⟨(List.isChain_append.mp apart).1, List.isChain_singleton _, ?_⟩
    intro x last y first
    rw [List.head?_cons, Option.mem_some_iff] at first
    have old := (List.isChain_append.mp apart).2.2 x last s (by simp)
    rintro ⟨freeX, _⟩
    exact old ⟨freeX, free⟩
  have rest : NoFreePair (s :: back) := (List.isChain_append.mp apart).2.1
  have whole : (⟨s.addr, s.size, true⟩ : Segment) = s := by
    obtain ⟨addr, size, f⟩ := s
    simp only at free ⊢
    rw [free]
  unfold carve at tiles' ⊢
  rw [release]
  split
  · rename_i enough
    rw [if_pos enough, List.append_assoc, List.cons_append, List.cons_append, List.nil_append]
      at tiles'
    rw [List.append_assoc]
    show coalesce (markFree (⟨s.addr, n, false⟩ : Segment).addr
      (front ++ (⟨s.addr, n, false⟩ : Segment) :: ⟨s.addr + n, s.size - n, true⟩ :: back)) = _
    rw [markFree_split tiles']
    show coalesce (front ++ (⟨s.addr, n, true⟩ : Segment) :: _) = _
    rw [coalesce_append (seam n), coalesce_absorb rfl rfl]
    show front ++ coalesce ((⟨s.addr, n + (s.size - n), true⟩ : Segment) :: back) = _
    rw [Nat.add_sub_cancel' room, whole, coalesce_of_noFreePair rest]
  · rename_i short
    rw [if_neg short, List.append_assoc, List.cons_append, List.nil_append] at tiles'
    rw [List.append_assoc]
    show coalesce (markFree (⟨s.addr, s.size, false⟩ : Segment).addr
      (front ++ (⟨s.addr, s.size, false⟩ : Segment) :: back)) = _
    rw [markFree_split tiles']
    show coalesce (front ++ (⟨s.addr, s.size, true⟩ : Segment) :: back) = _
    rw [coalesce_append (seam s.size), whole, coalesce_of_noFreePair rest]

end RoundTrip

end Kfs
