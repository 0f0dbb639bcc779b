/-
**Path resolution in place: `vfs_resolve_path`.**

The path is copied without its first slash to a local array of 256 bytes; the loop overwrites one slash of
the copy after the other and looks each piece up in the node reached before. Nodes are of any type: what
the loop asks of one is its `finddir`, if it has that operation. For a path of at most 256 characters the
result is the walk along its components, and only the local array has changed: `resolve_path_walks`.
`resolvePath_refines` connects this with the resolver of the mount table.
-/

import Kfs.Strings.Cells
import Kfs.Vfs.Mount

namespace Kfs.Vfs

open Strings

/-- Size of `path_copy`. -/
def pathCopySize : Nat := 256

/-- `strcmp(s, text) == 0`, for a literal `text`. -/
def equalsLiteral (cells : Nat → Char) (s : Nat) : (text : CString) → Bool
  | [] => cells s = nul
  | c :: text => cells s = c && equalsLiteral cells (s + 1) text

section Resolve

variable {Node : Type} (finddir : Node → Option (CString → Option Node))

/-- The loop of `vfs_resolve_path`: memory afterwards and the node, `none` for NULL. -/
def resolveLoop : (fuel : Nat) → (cells : Nat → Char) → (current : Node) → (token : Nat) →
    Outcome ((Nat → Char) × Option Node)
  | 0, _, _, _ => .diverge
  | fuel + 1, cells, current, token => do
      let slash ← strchr cells '/' (pathCopySize + 1) token
      let (cells, next) := match slash with
        | some next => (Function.update cells next nul, some (next + 1))
        | none => (cells, none)
      match finddir current with
      | none => return (cells, none)
      | some lookup =>
          match lookup (readString nul cells (pathCopySize + 1) token), next with
          | none, _ => return (cells, none)
          | some child, none => return (cells, some child)
          | some child, some token => resolveLoop fuel cells child token

/-- `vfs_resolve_path`, of the path at an address; `pathCopy` is where the local array lies. -/
def resolvePathAt (root : Option Node) (pathCopy : Nat) (cells : Nat → Char) (path : Nat) :
    Outcome ((Nat → Char) × Option Node) :=
  if path = 0 ∨ cells path ≠ '/' then .ok (cells, none)
  else
    match root with
    | none => .ok (cells, none)
    | some root =>
        if equalsLiteral cells path ['/'] then .ok (cells, some root)
        else
          let cells := strncpy cells pathCopy (path + 1) 255
          let cells := Function.update cells (pathCopy + 255) nul
          resolveLoop finddir (pathCopySize + 1) cells root pathCopy

/-- Look names up one after the other. -/
def lookupAll (current : Node) : List CString → Option Node
  | [] => some current
  | name :: names =>
      match finddir current with
      | none => none
      | some lookup =>
          match lookup name with
          | none => none
          | some child => lookupAll child names

/-- Some node on the way has no `finddir` or does not find its component. -/
def Misses (root : Node) (names : List CString) : Prop :=
  ∃ before name after node, names = before ++ name :: after ∧ lookupAll finddir root before = some node ∧
    ∀ lookup ∈ finddir node, lookup name = none

/-- What an absolute path means: the root for `/`, else the walk along the components behind the first
slash. -/
def meaning (root : Node) (rest : CString) : Option Node :=
  if rest = [] then some root else lookupAll finddir root (rest.splitOn '/')

end Resolve

section Walk

variable {Node : Type} {finddir : Node → Option (CString → Option Node)} {cells : Nat → Char}
  {current root : Node} {token path pathCopy fuel : Nat} {rest word : CString} {names more : List CString}

theorem lookupAll_append : lookupAll finddir root (names ++ more) =
    (lookupAll finddir root names).bind fun node => lookupAll finddir node more := by
  induction names generalizing root with
  | nil => rfl
  | cons name names ih =>
      rw [List.cons_append, lookupAll, lookupAll]
      cases finddir root with
      | none => rfl
      | some lookup =>
          cases found : lookup name with
          | none => simp only [found, Option.bind_none]
          | some child => simp only [found, ih]

/-- **A walk fails exactly at a node that misses a component.** -/
theorem lookupAll_eq_none_iff : lookupAll finddir root names = none ↔ Misses finddir root names := by
  constructor
  · intro failed
    induction names generalizing root with
    | nil => cases failed
    | cons name names ih =>
        rw [lookupAll] at failed
        cases operation : finddir root with
        | none => exact ⟨[], name, names, root, rfl, rfl, by simp [operation]⟩
        | some lookup =>
            cases found : lookup name with
            | none => exact ⟨[], name, names, root, rfl, rfl, by simp [operation, found]⟩
            | some child =>
                simp only [operation, found] at failed
                obtain ⟨before, missing, after, node, split, reached, misses⟩ := ih failed
                refine ⟨name :: before, missing, after, node, by rw [split, List.cons_append], ?_, misses⟩
                rw [lookupAll]
                simp only [operation, found, reached]
  · rintro ⟨before, name, after, node, rfl, reached, misses⟩
    rw [lookupAll_append, reached, Option.bind_some, lookupAll]
    cases operation : finddir node with
    | none => rfl
    | some lookup => simp only [misses lookup (by rw [operation]; rfl)]

/-- **The loop walks along the components** of what is left of the path, and stores inside it only. -/
theorem resolveLoop_walks (string : StringAt nul cells token rest) (enough : rest.length < fuel)
    (short : rest.length < pathCopySize) :
    ∃ cells', resolveLoop finddir fuel cells current token =
        .ok (cells', lookupAll finddir current (rest.splitOn '/')) ∧
      ∀ x, x < token ∨ token + rest.length ≤ x → cells' x = cells x := by
  induction fuel generalizing cells current token rest with
  | zero => exact absurd enough (Nat.not_lt_zero _)
  | succ fuel ih =>
      have room : rest.length < pathCopySize + 1 := Nat.lt_succ_of_lt short
      rw [resolveLoop]
      by_cases slash : '/' ∈ rest
      · -- a component and its slash
        obtain ⟨word, more, rfl, first⟩ := List.eq_append_cons_of_mem slash
        rw [List.length_append, List.length_cons] at enough short room
        have ended : StringAt nul (Function.update cells (token + word.length) nul) token word :=
          string.spells.left.ended fun member => string.clean (List.mem_append_left _ member)
        have left : StringAt nul (Function.update cells (token + word.length) nul)
            (token + word.length + 1) more := by
          have right := (spells_cons.mp string.spells.right).2
          refine ⟨right.update (.inl (Nat.lt_succ_self _)) nul,
            fun member => string.clean (List.mem_append_right _ (List.mem_cons_of_mem _ member)), ?_⟩
          have ends := string.ends
          rw [List.length_append, List.length_cons] at ends
          rw [Function.update_of_ne (by omega), ← ends]
          congr 1
          omega
        rw [strchr_some string first (by omega), List.splitOn_append_cons_self_of_not_mem first, lookupAll]
        simp only [Outcome.ok_bind, ended.read (show word.length < pathCopySize + 1 by omega)]
        have frame : ∀ x, x < token ∨ token + (word ++ '/' :: more).length ≤ x →
            Function.update cells (token + word.length) nul x = cells x := by
          intro x outside
          rw [List.length_append, List.length_cons] at outside
          exact Function.update_of_ne (by omega) _ _
        cases finddir current with
        | none => exact ⟨_, rfl, frame⟩
        | some lookup =>
            cases found : lookup word with
            | none => exact ⟨_, by simp only [found]; rfl, frame⟩
            | some child =>
                obtain ⟨cells', done, same⟩ := @ih _ child _ _ left (by omega) (by omega)
                refine ⟨cells', by simp only [found, done], fun x outside => ?_⟩
                rw [List.length_append, List.length_cons] at outside
                rw [same x (by omega), Function.update_of_ne (by omega)]
      · -- the last component
        rw [strchr_none string slash (by decide) room, List.splitOn_eq_singleton slash, lookupAll]
        simp only [Outcome.ok_bind, string.read room]
        cases finddir current with
        | none => exact ⟨cells, rfl, fun _ _ => rfl⟩
        | some lookup =>
            cases found : lookup rest with
            | none => exact ⟨cells, by simp only [found]; rfl, fun _ _ => rfl⟩
            | some child => exact ⟨cells, by simp only [found]; rfl, fun _ _ => rfl⟩

theorem equalsLiteral_slash (string : StringAt nul cells path ('/' :: rest)) :
    equalsLiteral cells path ['/'] = decide (rest = []) := by
  obtain ⟨here, -, later⟩ := stringAt_cons.mp string
  simp only [equalsLiteral, here, decide_true, Bool.true_and]
  cases rest with
  | nil => simp [stringAt_nil.mp later]
  | cons c rest =>
      obtain ⟨there, visible, -⟩ := stringAt_cons.mp later
      simp [there, visible]

/-- **The resolver of the source**, for a path of any length: the copy holds 255 characters. -/
theorem resolvePathAt_eq (string : StringAt nul cells path ('/' :: rest)) (valid : path ≠ 0)
    (apart : path + rest.length + 1 < pathCopy ∨ pathCopy + pathCopySize ≤ path) :
    ∃ cells', resolvePathAt finddir (some root) pathCopy cells path =
        .ok (cells', if rest = [] then some root else lookupAll finddir root ((field rest).splitOn '/')) ∧
      ∀ x, x < pathCopy ∨ pathCopy + pathCopySize ≤ x → cells' x = cells x := by
  obtain ⟨here, -, later⟩ := stringAt_cons.mp string
  unfold pathCopySize at apart
  rw [resolvePathAt, if_neg (by simp [valid, here])]
  simp only [equalsLiteral_slash string]
  by_cases whole : rest = []
  · rw [if_pos (by simpa using whole), if_pos whole]
    exact ⟨cells, rfl, fun _ _ => rfl⟩
  · rw [if_neg (by simpa using whole), if_neg whole]
    have copied : StringAt nul (Function.update (strncpy cells pathCopy (path + 1) 255) (pathCopy + 255) nul)
        pathCopy (field rest) := strncpy_string later (by omega)
    have short : (field rest).length < pathCopySize := by
      rw [field, List.length_take]
      unfold pathCopySize
      omega
    obtain ⟨cells', done, same⟩ :=
      @resolveLoop_walks _ finddir _ root _ _ _ copied (Nat.lt_succ_of_lt short) short
    refine ⟨cells', done, fun x outside => ?_⟩
    unfold pathCopySize at short outside
    rw [same x (by omega), Function.update_of_ne (by omega), strncpy_outside _ _ _ _ (by omega)]

/-- **Path resolution is a walk along the components.** For every kind of node, every tree and every absolute
path of at most 256 characters the result is the root for `/` and else the walk from the root along the
components behind the first slash. It is NULL exactly when a node on the way has no `finddir` or does not
find its component. Memory outside the local array, so the caller's string, stays as it is. -/
theorem resolve_path_walks (string : StringAt nul cells path ('/' :: rest)) (short : rest.length ≤ 255)
    (valid : path ≠ 0) (apart : path + rest.length + 1 < pathCopy ∨ pathCopy + pathCopySize ≤ path) :
    ∃ cells', resolvePathAt finddir (some root) pathCopy cells path = .ok (cells', meaning finddir root rest) ∧
      (meaning finddir root rest = none ↔ rest ≠ [] ∧ Misses finddir root (rest.splitOn '/')) ∧
      StringAt nul cells' path ('/' :: rest) ∧
      ∀ x, x < pathCopy ∨ pathCopy + pathCopySize ≤ x → cells' x = cells x := by
  obtain ⟨cells', done, same⟩ := @resolvePathAt_eq _ finddir cells root path pathCopy rest string valid apart
  have whole : field rest = rest := List.take_of_length_le short
  rw [whole] at done
  refine ⟨cells', done, ?_, string.congr fun k less => same _ ?_, same⟩
  · unfold meaning
    by_cases empty : rest = []
    · simp [empty]
    · rw [if_neg empty, lookupAll_eq_none_iff]
      exact ⟨fun misses => ⟨empty, misses⟩, fun both => both.2⟩
  · rw [List.length_cons] at less
    omega

end Walk

/-! ### The trees of the mount table -/

section Trees

variable {Fs : Type} (view : Fs → Ext2View)

/-- `node->finddir`, which files do not have. -/
def finddirOp : VfsNode Fs → Option (CString → Option (VfsNode Fs))
  | .virtualDir _ children => some (vfsVirtualFinddir children)
  | .virtualFile _ _ => none
  | .ext2 fs inodeNum inode _ =>
      if ext2ToVfsType inode.mode = .directory then some (vfsExt2Finddir view fs inodeNum) else none

theorem finddir_eq (node : VfsNode Fs) (name : CString) :
    finddir view node name = (finddirOp view node).bind fun lookup => lookup name := by
  cases node with
  | virtualDir name' children => rfl
  | virtualFile name' content => rfl
  | ext2 fs inodeNum inode name' =>
      simp only [finddir, finddirOp]
      by_cases directory : ext2ToVfsType inode.mode = .directory
      · rw [if_pos directory, if_pos directory, Option.bind_some]
      · rw [if_neg directory, if_neg directory, Option.bind_none]

theorem walk_eq (node : VfsNode Fs) (names : List CString) :
    walk view node names = lookupAll (finddirOp view) node names := by
  induction names generalizing node with
  | nil => rfl
  | cons name names ih =>
      rw [walk, lookupAll, finddir_eq]
      cases finddirOp view node with
      | none => rfl
      | some lookup =>
          rw [Option.bind_some]
          cases found : lookup name with
          | none => simp only [found]
          | some child => simp only [found, ih child]

/-- **The resolver in memory gives what the resolver on strings gives.** -/
theorem resolvePath_refines {st : VfsState Fs} {cells : Nat → Char} {path pathCopy : Nat} {s : CString}
    (string : StringAt nul cells path s) (valid : path ≠ 0)
    (apart : path + s.length < pathCopy ∨ pathCopy + pathCopySize ≤ path) :
    ∃ cells', resolvePathAt (finddirOp view) st.root pathCopy cells path =
      .ok (cells', vfsResolvePath view st s) := by
  unfold vfsResolvePath
  split
  · rename_i rest
    cases st.root with
    | none =>
        refine ⟨cells, ?_⟩
        rw [resolvePathAt, if_neg (by simp [valid, (stringAt_cons.mp string).1])]
    | some root =>
        obtain ⟨cells', done, -⟩ := @resolvePathAt_eq _ (finddirOp view) _ root _ _ _ string valid
          (by rw [List.length_cons] at apart; omega)
        refine ⟨cells', ?_⟩
        simp only [done, walk_eq]
  · rename_i other
    refine ⟨cells, if_pos (.inr fun slash => ?_)⟩
    cases s with
    | nil => exact absurd ((stringAt_nil.mp string).symm.trans slash) (by decide)
    | cons c rest =>
        obtain ⟨here, -, -⟩ := stringAt_cons.mp string
        exact other rest (by rw [← here, slash])

end Trees

/-- `/home` in memory. -/
def homePath (x : Nat) : Char := ['\x00', '/', 'h', 'o', 'm', 'e'].getD x nul

/-- The root that `vfs_init` makes. -/
def bootRoot : VfsNode Empty := .virtualDir "/".toList [.virtualDir "home".toList []]

theorem resolve_path_walks_home :
    ∃ cells', resolvePathAt (finddirOp nofun) (some bootRoot) 1000 homePath 1 =
      .ok (cells', some (.virtualDir "home".toList [])) := by
  have string : StringAt nul homePath 1 ('/' :: "home".toList) := by
    refine ⟨?_, by decide, rfl⟩
    unfold Spells
    decide
  obtain ⟨cells', done, -⟩ := @resolve_path_walks _ (finddirOp nofun) homePath bootRoot 1 1000 _ string
    (by decide) (by decide) (by decide)
  exact ⟨cells', done⟩

end Kfs.Vfs
