/-
**Independent parts behind one selector.**

A panel has a family of parts, one of which is selected, and a value they share. An operation acts on the
selected part, sets the shared value, or selects another part. What a part becomes depends only on the
actions made while it is selected, each with the shared value of its moment (`Panel.run_part`); no other
operation touches it (`Panel.exec_part_other`, `Panel.run_part_away`).
-/

import Mathlib.Logic.Function.Basic

namespace Kfs

/-- A family of parts, a selected one, and a shared value. -/
structure Panel (ι γ δ : Type) where
  selected : ι
  shared : γ
  part : ι → δ

/-- An operation on a panel. -/
inductive PanelOp (ι γ α : Type) where
  | act (a : α)
  | share (c : γ)
  | select (i : ι)
  deriving DecidableEq, Repr

namespace Panel

variable {ι γ δ α : Type} [DecidableEq ι] (act : γ → α → δ → δ)

/-- One operation. -/
def exec (p : Panel ι γ δ) : PanelOp ι γ α → Panel ι γ δ
  | .act a => { p with part := Function.update p.part p.selected (act p.shared a (p.part p.selected)) }
  | .share c => { p with shared := c }
  | .select i => { p with selected := i }

/-- Operations one after the other. -/
def run (p : Panel ι γ δ) (ops : List (PanelOp ι γ α)) : Panel ι γ δ := ops.foldl (exec act) p

/-- The actions made while part `j` is selected, with the shared value of their moment. -/
def actions (j : ι) : (selected : ι) → (shared : γ) → List (PanelOp ι γ α) → List (γ × α)
  | _, _, [] => []
  | i, c, .act a :: ops => if i = j then (c, a) :: actions j i c ops else actions j i c ops
  | i, _, .share c :: ops => actions j i c ops
  | _, c, .select i :: ops => actions j i c ops

/-- What actions make of a part on its own. -/
def replay (d : δ) (steps : List (γ × α)) : δ := steps.foldl (fun d step => act step.1 step.2 d) d

variable {act}

/-- **An operation touches no part but the selected one.** -/
theorem exec_part_other {p : Panel ι γ δ} {j : ι} (other : j ≠ p.selected) (op : PanelOp ι γ α) :
    (p.exec act op).part j = p.part j := by
  cases op with
  | act a => exact Function.update_of_ne other _ _
  | share c => rfl
  | select i => rfl

/-- **A part is what the actions made while it was selected make of it.** -/
theorem run_part (p : Panel ι γ δ) (ops : List (PanelOp ι γ α)) (j : ι) :
    (p.run act ops).part j = replay act (p.part j) (actions j p.selected p.shared ops) := by
  induction ops generalizing p with
  | nil => rfl
  | cons op ops ih =>
      rw [run, List.foldl_cons, ← run, ih]
      cases op with
      | act a =>
          by_cases mine : p.selected = j
          · subst mine
            simp only [exec, actions, if_true, Function.update_self]
            rfl
          · simp only [exec, actions, if_neg mine, Function.update_of_ne (Ne.symm mine)]
      | share c => rfl
      | select i => rfl

/-- A part that is neither selected nor selected again stays as it is. -/
theorem run_part_away {p : Panel ι γ δ} {j : ι} {ops : List (PanelOp ι γ α)}
    (other : j ≠ p.selected) (never : .select j ∉ ops) :
    (p.run act ops).part j = p.part j ∧ j ≠ (p.run act ops).selected := by
  induction ops generalizing p with
  | nil => exact ⟨rfl, other⟩
  | cons op ops ih =>
      obtain ⟨first, rest⟩ := not_or.mp (fun found => never (List.mem_cons.mpr found))
      have still : j ≠ (p.exec act op).selected := by
        cases op with
        | act a => exact other
        | share c => exact other
        | select i => exact fun equal => first (congrArg PanelOp.select equal)
      obtain ⟨kept, off⟩ := ih still rest
      exact ⟨kept.trans (exec_part_other other op), off⟩

end Panel

end Kfs
