/-
**Lists threaded through their elements.**

`Threads next head l`: following `next` from `head` visits exactly the elements of `l`, in order, and
ends. The list is determined by its head (`Threads.unique`) and so has no repetition (`Threads.nodup`):
an element met twice would be followed by the same elements for ever. A change of `next` outside the
list does not matter (`Threads.congr`), and pointing the predecessor of an element at its successor
takes that element out and keeps the order of the others (`Threads.unlink`); pointing the last element at
a new one appends it (`Threads.snoc`).
-/

import Mathlib.Data.Fintype.Card
import Mathlib.Data.Fintype.List
import Mathlib.Tactic

namespace Kfs

variable {α : Type} {next next' : α → Option α} {head : Option α} {a b c : α} {l l₀ l₁ : List α}

/-- The elements reached from `head` along `next`. -/
def Threads (next : α → Option α) : Option α → List α → Prop
  | head, [] => head = none
  | head, a :: l => head = some a ∧ Threads next (next a) l

namespace Threads

@[simp] theorem nil_iff : Threads next head [] ↔ head = none := Iff.rfl

@[simp] theorem cons_iff : Threads next head (a :: l) ↔ head = some a ∧ Threads next (next a) l := Iff.rfl

@[simp] theorem none_iff : Threads next none l ↔ l = [] := by
  cases l <;> simp

theorem some_iff : Threads next (some a) l ↔ ∃ rest, l = a :: rest ∧ Threads next (next a) rest := by
  cases l with
  | nil => simp
  | cons b l =>
      simp only [cons_iff, Option.some.injEq, List.cons.injEq]
      constructor
      · rintro ⟨rfl, here⟩
        exact ⟨l, ⟨rfl, rfl⟩, here⟩
      · rintro ⟨rest, ⟨rfl, rfl⟩, here⟩
        exact ⟨rfl, here⟩

/-- **The head determines the list.** -/
theorem unique (first : Threads next head l) (second : Threads next head l₀) : l = l₀ := by
  induction l generalizing head l₀ with
  | nil =>
      rw [nil_iff] at first
      rw [first, none_iff] at second
      exact second.symm
  | cons a l ih =>
      obtain ⟨rfl, first⟩ := first
      obtain ⟨rest, rfl, tail⟩ := some_iff.mp second
      rw [ih first tail]

theorem suffix (here : Threads next head (l₀ ++ l₁)) :
    ∃ middle, Threads next middle l₁ := by
  induction l₀ generalizing head with
  | nil => exact ⟨head, here⟩
  | cons a l₀ ih => exact ih here.2

theorem after (here : Threads next head (l₀ ++ a :: l₁)) : Threads next (next a) l₁ := by
  obtain ⟨middle, -, rest⟩ := here.suffix
  exact rest

/-- **A threaded list has no repetition.** -/
theorem nodup (here : Threads next head l) : l.Nodup := by
  induction l generalizing head with
  | nil => exact List.nodup_nil
  | cons a l ih =>
      refine List.nodup_cons.mpr ⟨fun again => ?_, ih here.2⟩
      obtain ⟨l₀, l₁, rfl⟩ := List.append_of_mem again
      have same := congrArg List.length (here.2.unique (after here.2))
      simp only [List.length_append, List.length_cons] at same
      omega

theorem length_le [Fintype α] (here : Threads next head l) : l.length ≤ Fintype.card α :=
  here.nodup.length_le_card

/-- Only the links of the elements matter. -/
theorem congr (here : Threads next head l) (same : ∀ a ∈ l, next' a = next a) :
    Threads next' head l := by
  induction l generalizing head with
  | nil => exact here
  | cons a l ih =>
      refine ⟨here.1, ?_⟩
      rw [same a List.mem_cons_self]
      exact ih here.2 fun b member => same b (List.mem_cons_of_mem _ member)

variable [DecidableEq α]

theorem update (here : Threads next head l) (outside : a ∉ l) (value : Option α) :
    Threads (Function.update next a value) head l :=
  here.congr fun _ member => Function.update_of_ne (ne_of_mem_of_not_mem member outside) _ _

/-- **Unlinking an element** behind its predecessor `b`. -/
theorem unlink (here : Threads next head (l₀ ++ b :: c :: l₁)) :
    Threads (Function.update next b (next c)) head (l₀ ++ b :: l₁) := by
  induction l₀ generalizing head with
  | nil =>
      have apart : b ∉ l₁ := fun member =>
        (List.nodup_cons.mp here.nodup).1 (List.mem_cons_of_mem _ member)
      refine ⟨here.1, ?_⟩
      rw [Function.update_self]
      exact here.2.2.update apart _
  | cons a l₀ ih =>
      have apart : a ≠ b := by
        rintro rfl
        exact (List.nodup_cons.mp here.nodup).1 (by simp)
      refine ⟨here.1, ?_⟩
      rw [Function.update_of_ne apart]
      exact ih here.2

/-- **Appending an element** behind the last one, `b`. -/
theorem snoc (here : Threads next head (l ++ [b])) (outside : c ∉ l ++ [b]) (last : next c = none) :
    Threads (Function.update next b (some c)) head (l ++ [b, c]) := by
  induction l generalizing head with
  | nil =>
      have other : c ≠ b := fun same => outside (by simp [same])
      refine ⟨here.1, ?_⟩
      rw [Function.update_self]
      refine ⟨rfl, ?_⟩
      rw [Function.update_of_ne other, last]
      exact rfl
  | cons a l ih =>
      have apart : a ≠ b := by
        rintro rfl
        exact (List.nodup_cons.mp here.nodup).1 (by simp)
      refine ⟨here.1, ?_⟩
      rw [Function.update_of_ne apart]
      exact ih here.2 fun member => outside (List.mem_cons_of_mem _ member)

/-- **Pointing one element elsewhere** keeps every list finite, if it is not on the list it points to. -/
theorem redirect {value : Option α} (ends : ∀ head, ∃ l, Threads next head l)
    (target : Threads next value l₀) (outside : a ∉ l₀) (head : Option α) :
    ∃ l, Threads (Function.update next a value) head l := by
  obtain ⟨l, here⟩ := ends head
  induction l generalizing head with
  | nil => exact ⟨[], here⟩
  | cons b l ih =>
      obtain ⟨rfl, rest⟩ := here
      by_cases same : b = a
      · subst same
        refine ⟨b :: l₀, rfl, ?_⟩
        rw [Function.update_self]
        exact target.update outside value
      · obtain ⟨l', rest'⟩ := ih (next b) rest
        refine ⟨b :: l', rfl, ?_⟩
        rwa [Function.update_of_ne same]

end Threads

end Kfs
