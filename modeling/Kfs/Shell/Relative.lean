/-
**Relative paths: `resolve_path_from_pwd`.**

The shell does not walk from the working directory: it writes the directory, a slash and the path into a
buffer of 256 bytes and resolves that from the root. A relative path means the walk along its components
from the directory. For the given strings that is what every tree gives, exactly when the joined path fits
the buffer and is not just the slash of the root: `relative_resolves_iff`.
-/

import Kfs.Shell.Cd

namespace Kfs.Shell

open Kfs.Vfs Kfs.Process

/-- **A relative path is looked up in the working directory**: in every tree in which `pwd` is a directory,
the path is resolved to what the walk along its components from there gives. -/
def ResolvesFrom (pwd path : CString) : Prop :=
  ∀ (Fs : Type) (view : Fs → Ext2View) (st : VfsState Fs) (s : Kernel) (dir : VfsNode Fs),
    currentPwd s = pwd → vfsResolvePath view st pwd = some dir → nodeType dir = .directory →
    resolvePathFromPwd view st s path = walk view dir (path.splitOn '/')

/-- The directory and the path joined by a slash; below `/` no slash is repeated. -/
def joined (pwd path : CString) : CString := (if pwd = ['/'] then [] else pwd) ++ '/' :: path

/-- The joined path fits the buffer, and it is not the empty path in the root. -/
def JoinFits (pwd path : CString) : Prop :=
  (joined pwd path).length ≤ 255 ∧ ¬ (pwd = ['/'] ∧ path = [])

/-- A directory of a directory and so on, down to an empty one. -/
def chain (name : CString) : List CString → VfsNode Empty
  | [] => .virtualDir name []
  | c :: names => .virtualDir name [chain c names]

/-- A kernel whose first process runs in some directory. -/
def kernelIn (pwd : CString) : Kernel :=
  rootedKernel.modify firstSlot fun proc => { proc with pwd := pwd }

section Relative

variable {Fs : Type} {view : Fs → Ext2View} {st : VfsState Fs} {dir : VfsNode Fs} {s : Kernel}
  {pwd path rest q name other : CString} {names more : List CString}

theorem fullPath_joined : fullPath pwd path = (joined pwd path).take 255 := fullPath_eq

theorem resolve_relative (relative : path.head? ≠ some '/') (current : currentPwd s = pwd) :
    resolvePathFromPwd view st s path = vfsResolvePath view st ((joined pwd path).take 255) := by
  rw [resolvePathFromPwd, if_neg relative, current, fullPath_joined]

theorem walk_append (node : VfsNode Fs) (names more : List CString) :
    walk view node (names ++ more) = (walk view node names).bind fun last => walk view last more := by
  induction names generalizing node with
  | nil => rfl
  | cons name names ih =>
      rw [List.cons_append, walk, walk]
      cases finddir view node name with
      | none => rfl
      | some child => exact ih child

/-- What the resolver does below the root. -/
theorem resolve_below {root : VfsNode Fs} (rooted : st.root = some root) (some' : rest ≠ [])
    (short : rest.length ≤ 255) : vfsResolvePath view st ('/' :: rest) = walk view root (rest.splitOn '/') := by
  have whole : field rest = rest := List.take_of_length_le short
  simp only [vfsResolvePath, rooted, if_neg some', whole]

/-! ### Paths that fit -/

/-- **A joined path that fits** leads from the directory along the path. -/
theorem JoinFits.resolves (fits : JoinFits pwd path) (relative : path.head? ≠ some '/') :
    ResolvesFrom pwd path := by
  intro Fs view st s dir current resolved _
  obtain ⟨length, notRoot⟩ := fits
  rw [resolve_relative relative current, List.take_of_length_le length]
  cases pwd with
  | nil => cases resolved
  | cons c rest =>
      by_cases slash : c = '/'
      · subst slash
        cases rooted : st.root with
        | none =>
            simp only [vfsResolvePath, rooted] at resolved
            cases resolved
        | some root =>
            unfold joined at length ⊢
            by_cases whole : rest = []
            · subst whole
              simp only [vfsResolvePath, rooted, if_true, Option.some.injEq] at resolved
              subst resolved
              have some' : path ≠ [] := fun none => notRoot ⟨rfl, none⟩
              rw [if_pos rfl, List.nil_append, List.length_cons] at length
              rw [if_pos rfl, List.nil_append, resolve_below rooted some' (by omega)]
            · have other : ¬ '/' :: rest = ['/'] := fun same => whole (List.cons.inj same).2
              rw [if_neg other, List.cons_append, List.length_cons, List.length_append] at length
              rw [resolve_below rooted whole (by omega)] at resolved
              rw [if_neg other, List.cons_append, resolve_below rooted (by simp) (by simp at length ⊢; omega),
                List.splitOn_append_cons_self, walk_append, resolved, Option.bind_some]
      · have absent : vfsResolvePath view st (c :: rest) = none := by
          unfold vfsResolvePath
          split
          · rename_i same
            exact absurd (List.cons.inj same).1 slash
          · rfl
        rw [absent] at resolved
        cases resolved

/-! ### Paths that are cut -/

theorem currentPwd_kernelIn (pwd : CString) : currentPwd (kernelIn pwd) = pwd := currentPwd_modify rfl pwd

theorem chain_name (name : CString) (names : List CString) : (chain name names).name = name := by
  cases names <;> rfl

theorem chain_directory (name : CString) (names : List CString) : nodeType (chain name names) = .directory := by
  cases names <;> rfl

theorem finddir_chain (name c d : CString) (names : List CString) :
    finddir noView (chain name (c :: names)) d = if c = d then some (chain c names) else none := by
  show [chain c names].find? (·.name = d) = _
  by_cases same : c = d
  · rw [if_pos same, List.find?_cons_of_pos (by simp [chain_name, same])]
  · rw [if_neg same, List.find?_cons_of_neg (by simp [chain_name, same]), List.find?_nil]

/-- Down a chain. -/
theorem walk_chain (name : CString) (names more : List CString) :
    walk noView (chain name (names ++ more)) names = some (chain (names.getLastD name) more) := by
  induction names generalizing name with
  | nil => rfl
  | cons c names ih =>
      rw [List.cons_append, walk, finddir_chain, if_pos rfl]
      simp only [ih c, List.getLastD_cons]

theorem walk_chain_whole (name : CString) (names : List CString) :
    walk noView (chain name names) names = some (chain (names.getLastD name) []) := by
  have down := walk_chain name names []
  rwa [List.append_nil] at down

/-- **The end of a chain is reached by its own names only.** -/
theorem walk_chain_end (reached : walk noView (chain name names) more = some (chain other [])) : more = names := by
  induction names generalizing name more with
  | nil =>
      cases more with
      | nil => rfl
      | cons d more => cases reached
  | cons c names ih =>
      cases more with
      | nil => cases reached
      | cons d more =>
          rw [walk, finddir_chain] at reached
          by_cases same : c = d
          · rw [if_pos same] at reached
            rw [same, ih reached]
          · rw [if_neg same] at reached
            cases reached

/-- A tree in which the cut path leads somewhere the path does not. -/
theorem not_resolvesFrom {before cut : List CString} (relative : path.head? ≠ some '/')
    (resolved : vfsResolvePath noView ⟨some (chain ['/'] (before ++ cut)), []⟩ pwd =
      some (chain (before.getLastD ['/']) cut))
    (reached : vfsResolvePath noView ⟨some (chain ['/'] (before ++ cut)), []⟩ ((joined pwd path).take 255) =
      some (chain other []))
    (differs : path.splitOn '/' ≠ cut) : ¬ ResolvesFrom pwd path := by
  intro resolves
  have walked := resolves Empty noView _ (kernelIn pwd) _ (currentPwd_kernelIn pwd) resolved
    (chain_directory _ _)
  rw [resolve_relative relative (currentPwd_kernelIn pwd), reached] at walked
  exact differs (walk_chain_end walked.symm)

/-- A proper part of a path has other components. -/
theorem splitOn_take_ne {n : Nat} (cut : n < path.length) : path.splitOn '/' ≠ (path.take n).splitOn '/' := by
  intro same
  have whole := congrArg (List.intercalate ['/']) same
  rw [List.intercalate_splitOn, List.intercalate_splitOn] at whole
  have length := congrArg List.length whole
  rw [List.length_take] at length
  omega

/-- The joined path, cut. -/
theorem joined_take (some' : rest ≠ []) :
    (joined ('/' :: rest) path).take 255 = '/' :: (rest ++ '/' :: path).take 254 := by
  rw [joined, if_neg (fun same => some' (List.cons.inj same).2)]
  rfl

/-- **A joined path that does not fit** does not always lead from the directory along the path. -/
theorem ResolvesFrom.fits (resolves : ResolvesFrom pwd path) (rooted : pwd.head? = some '/')
    (short : pwd.length ≤ 255) (relative : path.head? ≠ some '/') : JoinFits pwd path := by
  by_contra misfit
  refine absurd resolves ?_
  obtain ⟨rest, rfl⟩ : ∃ rest, pwd = '/' :: rest := List.head?_eq_some_iff.mp rooted
  rw [List.length_cons] at short
  by_cases whole : rest = []
  · -- in the root the path itself is cut, or it is empty
    subst whole
    by_cases none : path = []
    · subst none
      exact @not_resolvesFrom _ [] ['/'] [] [] relative rfl rfl (by decide)
    · have long : 254 < path.length := by
        by_contra fitting
        refine misfit ⟨?_, fun both => none both.2⟩
        rw [joined, if_pos rfl, List.nil_append, List.length_cons]
        omega
      have some' : path.take 254 ≠ [] := fun empty => by
        have := congrArg List.length empty
        rw [List.length_take, List.length_nil] at this
        omega
      have reached : vfsResolvePath noView ⟨some (chain ['/'] ([] ++ (path.take 254).splitOn '/')), []⟩
          ((joined ['/'] path).take 255) = some (chain (((path.take 254).splitOn '/').getLastD ['/']) []) := by
        show vfsResolvePath noView _ ('/' :: path.take 254) = _
        rw [resolve_below rfl some' (by rw [List.length_take]; omega)]
        exact walk_chain_whole _ _
      exact @not_resolvesFrom _ _ _ [] _ relative rfl reached (splitOn_take_ne long)
  · have resolved : ∀ cut, vfsResolvePath noView ⟨some (chain ['/'] (rest.splitOn '/' ++ cut)), []⟩
        ('/' :: rest) = some (chain ((rest.splitOn '/').getLastD ['/']) cut) := by
      intro cut
      rw [resolve_below rfl whole (by omega)]
      exact walk_chain _ _ _
    have long : 254 < rest.length + (path.length + 1) := by
      by_contra fitting
      refine misfit ⟨?_, fun both => whole (List.cons.inj both.1).2⟩
      rw [joined, if_neg (fun same => whole (List.cons.inj same).2), List.cons_append, List.length_cons,
        List.length_append, List.length_cons]
      omega
    by_cases full : rest.length = 254
    · -- the buffer holds the directory alone
      have reached : vfsResolvePath noView ⟨some (chain ['/'] (rest.splitOn '/' ++ [])), []⟩
          ((joined ('/' :: rest) path).take 255) = some (chain ((rest.splitOn '/').getLastD ['/']) []) := by
        rw [joined_take whole, List.take_left' full]
        exact resolved []
      exact not_resolvesFrom relative (resolved []) reached (List.splitOn_ne_nil _ _)
    · -- the buffer holds the directory and a part of the path
      obtain ⟨n, room⟩ : ∃ n, 254 = rest.length + (n + 1) := ⟨253 - rest.length, by omega⟩
      have cut : (rest ++ '/' :: path).take 254 = rest ++ '/' :: path.take n := by
        rw [room, List.take_length_add_append, List.take_succ_cons]
      have reached : vfsResolvePath noView
          ⟨some (chain ['/'] (rest.splitOn '/' ++ (path.take n).splitOn '/')), []⟩
          ((joined ('/' :: rest) path).take 255) =
          some (chain ((rest.splitOn '/' ++ (path.take n).splitOn '/').getLastD ['/']) []) := by
        rw [joined_take whole, cut, resolve_below rfl (by simp) (by simp; omega),
          List.splitOn_append_cons_self]
        exact walk_chain_whole _ _
      exact not_resolvesFrom relative (resolved _) reached (splitOn_take_ne (by omega))

/-- **Exactly when a relative path is looked up in the working directory**: the directory, a slash and the
path fit the buffer together, and it is not the empty path in the root. -/
theorem relative_resolves_iff (rooted : pwd.head? = some '/') (short : pwd.length ≤ 255)
    (relative : path.head? ≠ some '/') : ResolvesFrom pwd path ↔ JoinFits pwd path :=
  ⟨fun resolves => resolves.fits rooted short relative, fun fits => fits.resolves relative⟩

end Relative

theorem relative_resolves_notes : ResolvesFrom "/home".toList "notes/today".toList :=
  (relative_resolves_iff rfl (by decide) (by decide)).mpr ⟨by decide, by decide⟩

/-! ### A cut path that names another node -/

section Cut

variable {d c path : CString}

/-- A directory with a file. -/
def oneFile (d c : CString) : VfsNode Empty := .virtualDir d [.virtualFile c []]

/-- A root with that directory. -/
def cutTree (d c : CString) : VfsState Empty := ⟨some (.virtualDir ['/'] [oneFile d c]), []⟩

theorem finddir_single (node : VfsNode Empty) (name token : CString) :
    finddir noView (.virtualDir name [node]) token = if node.name = token then some node else none := by
  show [node].find? (·.name = token) = _
  by_cases same : node.name = token
  · rw [if_pos same, List.find?_cons_of_pos (by simpa using same)]
  · rw [if_neg same, List.find?_cons_of_neg (by simpa using same), List.find?_nil]

theorem cutTree_directory (plain : '/' ∉ d) (some' : d ≠ []) (short : d.length ≤ 255) :
    vfsResolvePath noView (cutTree d c) ('/' :: d) = some (oneFile d c) := by
  have named : (oneFile d c).name = d := rfl
  rw [resolve_below rfl some' short, List.splitOn_eq_singleton plain, walk, finddir_single, if_pos named]
  rfl

theorem cutTree_file (plain : '/' ∉ d) (plain' : '/' ∉ c) (relative : path.head? ≠ some '/')
    (short : (d ++ '/' :: c).length ≤ 255) (cut : (joined ('/' :: d) path).take 255 = '/' :: (d ++ '/' :: c)) :
    resolvePathFromPwd noView (cutTree d c) (kernelIn ('/' :: d)) path = some (.virtualFile c []) := by
  have named : (oneFile d c).name = d := rfl
  have named' : (VfsNode.virtualFile c [] : VfsNode Empty).name = c := rfl
  rw [resolve_relative relative (currentPwd_kernelIn _), cut, resolve_below rfl (by simp) short,
    List.splitOn_append_cons_self_of_not_mem plain, List.splitOn_eq_singleton plain', walk, finddir_single,
    if_pos named]
  show walk noView (oneFile d c) [c] = _
  rw [walk, oneFile, finddir_single, if_pos named']
  rfl

/-- The shell finds a file that the directory does not have. -/
theorem cutTree_refutes (plain : '/' ∉ path) (other : c ≠ path)
    (resolved : vfsResolvePath noView (cutTree d c) ('/' :: d) = some (oneFile d c))
    (found : resolvePathFromPwd noView (cutTree d c) (kernelIn ('/' :: d)) path = some (.virtualFile c [])) :
    ¬ ResolvesFrom ('/' :: d) path := by
  intro resolves
  have walked := resolves Empty noView (cutTree d c) _ _ (currentPwd_kernelIn _) resolved rfl
  have named : ¬ (VfsNode.virtualFile c [] : VfsNode Empty).name = path := other
  rw [found, List.splitOn_eq_singleton plain, walk, oneFile, finddir_single, if_neg named] at walked
  cases walked

end Cut

/-- **A path of 60 characters in a directory with a name of 200**: the buffer has room for 53 of them, and the
shell finds the file of that name. -/
theorem cut_path_found : ∃ d path : CString, d.length = 200 ∧ path.length = 60 ∧
    vfsResolvePath noView (cutTree d (path.take 53)) ('/' :: d) = some (oneFile d (path.take 53)) ∧
    resolvePathFromPwd noView (cutTree d (path.take 53)) (kernelIn ('/' :: d)) path =
      some (.virtualFile (path.take 53) []) ∧ ¬ ResolvesFrom ('/' :: d) path := by
  have resolved := @cutTree_directory (List.replicate 200 'd') ((List.replicate 60 'e').take 53)
    (by decide +kernel) (by decide +kernel) (by decide +kernel)
  have found := @cutTree_file (List.replicate 200 'd') ((List.replicate 60 'e').take 53) (List.replicate 60 'e')
    (by decide +kernel) (by decide +kernel) (by decide +kernel) (by decide +kernel) (by decide +kernel)
  exact ⟨_, _, List.length_replicate, List.length_replicate, resolved, found,
    cutTree_refutes (by decide +kernel) (by decide +kernel) resolved found⟩

end Kfs.Shell
