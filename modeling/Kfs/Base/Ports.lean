/-
**Programs that talk to a device.**

A program is a finite tree of requests, each with a continuation for its answer (`Prog`); a device answers
requests and changes its state (`Device`). `Prog.run` gives the result and the last state, `Prog.passes` all
the states passed, so the moments at which something else may look at the device.

`Prog.Along dev Inv p s Q`: from `s` the program passes through states with `Inv` only, and ends with a
result and a state that satisfy `Q`. It is proved request by request (`Along.ask`) and composed along
`bind` (`Along.bind`); a program that makes requests of one kind only (`Prog.Makes`) keeps what these keep
(`Along.of_makes`). `Prog.AtMost` bounds the number of requests, whatever is answered.

`Access` are the requests of a machine with ports, and stores of some kind of one's own.
-/

import Mathlib.Tactic

namespace Kfs

/-- A program that makes requests. -/
inductive Prog (Req : Type) (Ans : Req → Type) (α : Type) : Type where
  | done (a : α)
  | ask (r : Req) (next : Ans r → Prog Req Ans α)

/-- A device answers a request, and changes its state. -/
abbrev Device (Req : Type) (Ans : Req → Type) (σ : Type) : Type := (r : Req) → σ → Ans r × σ

namespace Prog

variable {Req : Type} {Ans : Req → Type} {α β σ : Type}

/-- One program, then another with its result. -/
def bind : Prog Req Ans α → (α → Prog Req Ans β) → Prog Req Ans β
  | done a, f => f a
  | ask r next, f => ask r fun x => (next x).bind f

instance : Monad (Prog Req Ans) where
  pure := done
  bind := bind

/-- The result of a program, and the state of the device at its end. -/
def run (dev : Device Req Ans σ) : Prog Req Ans α → σ → α × σ
  | done a, s => (a, s)
  | ask r next, s => (next (dev r s).1).run dev (dev r s).2

/-- The states of the device from the start to the end. -/
def passes (dev : Device Req Ans σ) : Prog Req Ans α → σ → List σ
  | done _, s => [s]
  | ask r next, s => s :: (next (dev r s).1).passes dev (dev r s).2

/-- A program makes at most `n` requests, whatever the answers. -/
inductive AtMost : Nat → Prog Req Ans α → Prop
  | done (n : Nat) (a : α) : AtMost n (done a)
  | ask {n : Nat} (r : Req) {next : Ans r → Prog Req Ans α} (rest : ∀ x, AtMost n (next x)) :
      AtMost (n + 1) (ask r next)

/-- A program makes requests of one kind only. -/
inductive Makes (P : Req → Prop) : Prog Req Ans α → Prop
  | done (a : α) : Makes P (done a)
  | ask {r : Req} {next : Ans r → Prog Req Ans α} (kind : P r) (rest : ∀ x, Makes P (next x)) :
      Makes P (ask r next)

/-- **The states passed satisfy `Inv`, and the end satisfies `Q`.** -/
structure Along (dev : Device Req Ans σ) (Inv : σ → Prop) (p : Prog Req Ans α) (s : σ)
    (Q : α → σ → Prop) : Prop where
  passes : ∀ t ∈ p.passes dev s, Inv t
  ends : Q (p.run dev s).1 (p.run dev s).2

section Runs

variable {dev : Device Req Ans σ} {p : Prog Req Ans α} {f : α → Prog Req Ans β} {s t : σ}

@[simp] theorem run_pure (a : α) : (pure a : Prog Req Ans α).run dev s = (a, s) := rfl

@[simp] theorem passes_pure (a : α) : (pure a : Prog Req Ans α).passes dev s = [s] := rfl

@[simp] theorem pure_bind (a : α) : ((pure a : Prog Req Ans α) >>= f) = f a := rfl

@[simp] theorem done_bind (a : α) : ((done a : Prog Req Ans α) >>= f) = f a := rfl

@[simp] theorem ask_bind (r : Req) (next : Ans r → Prog Req Ans α) :
    (ask r next >>= f) = ask r fun x => next x >>= f := rfl

@[simp] theorem run_done (a : α) : (done a : Prog Req Ans α).run dev s = (a, s) := rfl

@[simp] theorem run_ask (r : Req) (next : Ans r → Prog Req Ans α) :
    (ask r next).run dev s = (next (dev r s).1).run dev (dev r s).2 := rfl

/-- **Running one program after another.** -/
@[simp] theorem run_bind (p : Prog Req Ans α) :
    (p >>= f).run dev s = (f (p.run dev s).1).run dev (p.run dev s).2 := by
  induction p generalizing s with
  | done a => rfl
  | ask r next ih => exact ih _

theorem bind_assoc {γ : Type} (p : Prog Req Ans α) (g : β → Prog Req Ans γ) :
    (p >>= f >>= g) = (p >>= fun a => f a >>= g) := by
  induction p with
  | done a => rfl
  | ask r next ih =>
      show ask r _ = ask r _
      congr 1
      funext x
      exact ih x

theorem bind_done (p : Prog Req Ans α) : (p >>= fun a => (done a : Prog Req Ans α)) = p := by
  induction p with
  | done a => rfl
  | ask r next ih =>
      show ask r _ = ask r _
      congr 1
      funext x
      exact ih x

instance : LawfulMonad (Prog Req Ans) :=
  LawfulMonad.mk' _ bind_done (fun _ _ => rfl) fun p _ _ => bind_assoc p _

/-- The states passed by one program after another. -/
theorem mem_passes_bind (p : Prog Req Ans α) :
    t ∈ (p >>= f).passes dev s →
      t ∈ p.passes dev s ∨ t ∈ (f (p.run dev s).1).passes dev (p.run dev s).2 := by
  induction p generalizing s with
  | done a => exact Or.inr
  | ask r next ih =>
      intro member
      rcases List.mem_cons.mp member with rfl | later
      · exact .inl List.mem_cons_self
      · rcases ih _ later with first | second
        · exact .inl (List.mem_cons_of_mem _ first)
        · exact .inr second

theorem start_mem_passes (p : Prog Req Ans α) : s ∈ p.passes dev s := by
  cases p with
  | done a => exact List.mem_singleton_self s
  | ask r next => exact List.mem_cons_self

/-- The last state is one of those passed. -/
theorem end_mem_passes (p : Prog Req Ans α) : (p.run dev s).2 ∈ p.passes dev s := by
  induction p generalizing s with
  | done a => exact List.mem_singleton_self s
  | ask r next ih => exact List.mem_cons_of_mem _ (ih _)

end Runs

namespace Along

variable {dev : Device Req Ans σ} {Inv : σ → Prop} {p : Prog Req Ans α} {f : α → Prog Req Ans β} {s : σ}
  {Q Q' : α → σ → Prop} {R : β → σ → Prop}

theorem pure {a : α} (here : Inv s) (post : Q a s) : Along dev Inv (Pure.pure a) s Q :=
  ⟨fun _ member => List.mem_singleton.mp member ▸ here, post⟩

/-- **One request, then the rest.** -/
theorem ask {r : Req} {next : Ans r → Prog Req Ans α} (here : Inv s)
    (rest : Along dev Inv (next (dev r s).1) (dev r s).2 Q) : Along dev Inv (.ask r next) s Q := by
  refine ⟨fun t member => ?_, rest.ends⟩
  rcases List.mem_cons.mp member with rfl | later
  · exact here
  · exact rest.passes t later

/-- **One program, then another.** -/
theorem bind (first : Along dev Inv p s Q) (second : ∀ a t, Q a t → Along dev Inv (f a) t R) :
    Along dev Inv (p >>= f) s R := by
  have rest := second _ _ first.ends
  refine ⟨fun t member => ?_, ?_⟩
  · rcases mem_passes_bind p member with here | later
    · exact first.passes t here
    · exact rest.passes t later
  · rw [run_bind]
    exact rest.ends

theorem mono {Inv' : σ → Prop} (along : Along dev Inv p s Q) (weaker : ∀ t, Inv t → Inv' t)
    (post : ∀ a t, Q a t → Q' a t) : Along dev Inv' p s Q' :=
  ⟨fun t member => weaker t (along.passes t member), post _ _ along.ends⟩

/-- **What all requests of a kind keep, a program that makes no others keeps.** -/
theorem of_makes {P : Req → Prop} (kind : p.Makes P) (keep : ∀ r t, P r → Inv t → Inv (dev r t).2)
    (here : Inv s) : Along dev Inv p s fun _ t => Inv t := by
  induction kind generalizing s with
  | done a => exact .pure here here
  | ask mine rest ih => exact .ask here (ih _ (keep _ _ mine here))

end Along

theorem Makes.mono {P P' : Req → Prop} {p : Prog Req Ans α} (kind : p.Makes P) (weaker : ∀ r, P r → P' r) :
    p.Makes P' := by
  induction kind with
  | done a => exact .done a
  | ask here rest ih => exact .ask (weaker _ here) ih

theorem Makes.bind {P : Req → Prop} {p : Prog Req Ans α} {f : α → Prog Req Ans β} (first : p.Makes P)
    (second : ∀ a, (f a).Makes P) : (p >>= f).Makes P := by
  induction first with
  | done a => exact second a
  | ask kind rest ih => exact .ask kind ih

/-- **A program that uses one part of a device only** runs on that part as if it were alone. -/
theorem Makes.run_part {τ : Type} {dev : Device Req Ans σ} {part : Device Req Ans τ} {P : Req → Prop}
    {p : Prog Req Ans α} {get : σ → τ} {put : σ → τ → σ} (made : p.Makes P)
    (same : ∀ s, put s (get s) = s) (got : ∀ s t, get (put s t) = t)
    (again : ∀ s t u, put (put s t) u = put s u)
    (agree : ∀ r, P r → ∀ s, dev r s = ((part r (get s)).1, put s (part r (get s)).2)) (s : σ) :
    p.run dev s = ((p.run part (get s)).1, put s (p.run part (get s)).2) := by
  induction made generalizing s with
  | done a => exact Prod.ext rfl (same s).symm
  | @ask r next kind rest ih =>
      have first := agree r kind s
      rw [run_ask, run_ask, first, ih, got, again]

namespace AtMost

variable {p : Prog Req Ans α} {f : α → Prog Req Ans β} {m n : Nat}

theorem mono (bound : AtMost m p) (more : m ≤ n) : AtMost n p := by
  induction bound generalizing n with
  | done m a => exact .done n a
  | ask r rest ih =>
      cases n with
      | zero => exact absurd more (Nat.not_succ_le_zero _)
      | succ n => exact .ask r fun x => ih x (Nat.le_of_succ_le_succ more)

theorem bind (first : AtMost m p) (second : ∀ a, AtMost n (f a)) : AtMost (m + n) (p >>= f) := by
  induction first with
  | done m a => exact (second a).mono (Nat.le_add_left n m)
  | @ask m r next rest ih =>
      rw [Nat.add_right_comm]
      exact .ask r ih

end AtMost

end Prog

/-! ### Ports -/

/-- Accesses to ports, and stores of a kind of one's own. -/
inductive Access (Store : Type) : Type where
  | outb (port : Nat) (value : UInt8)
  | inb (port : Nat)
  | outw (port : Nat) (value : UInt16)
  | inw (port : Nat)
  | store (what : Store)

/-- What an access answers. -/
def Access.Answer {Store : Type} : Access Store → Type
  | inb _ => UInt8
  | inw _ => UInt16
  | outb _ _ | outw _ _ | store _ => Unit

/-- A program on ports. -/
abbrev PortProg (Store α : Type) : Type := Prog (Access Store) Access.Answer α

/-- A device behind ports. -/
abbrev PortDevice (Store σ : Type) : Type := Device (Access Store) Access.Answer σ

section Accesses

variable {Store : Type}

/-- `outb`. -/
def outb (port : Nat) (value : UInt8) : PortProg Store Unit := .ask (.outb port value) .done

/-- `inb`. -/
def inb (port : Nat) : PortProg Store UInt8 := .ask (.inb port) .done

/-- `outw`. -/
def outw (port : Nat) (value : UInt16) : PortProg Store Unit := .ask (.outw port value) .done

/-- `inw`. -/
def inw (port : Nat) : PortProg Store UInt16 := .ask (.inw port) .done

/-- A store. -/
def store (what : Store) : PortProg Store Unit := .ask (.store what) .done

end Accesses

end Kfs
