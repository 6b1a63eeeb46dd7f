import Mathlib.Tactic

set_option relaxedAutoImplicit false
set_option autoImplicit false

/-!
# POSIX paths

A path is looked up one component after the other, from the root if it begins with a slash and from
the current directory otherwise. Empty components and single dots stay where they are. Two dots are
an entry like any other: with symbolic links they need not lead back, so they are not removed.

## Main definitions

* `PosixPath`, `PosixPath.parse` — paths, and the path of a text.
* `PosixPath.join`, `PosixPath.expandUser` — one path below another, and a leading tilde.
* `FileSystem.lookup`, `PosixPath.SameFile` — the file that a path leads to, and paths that lead to
  the same file whatever there is on the disk.

## Main results

* `PosixPath.components_append_slash` — a slash separates the components.
* `PosixPath.sameFile_iff` — two paths lead to the same file exactly when they are equal.
-/

/-- A path: where it starts, and its components. -/
@[ext]
structure PosixPath where
  /-- It starts at the root. -/
  absolute : Bool
  parts : List (List Char)
  deriving DecidableEq

/-- A directory tree: the entries of every file, with two files to start from. -/
structure FileSystem where
  Node : Type
  root : Node
  cwd : Node
  child : Node → List Char → Node

/-- The file that a path leads to. -/
def FileSystem.lookup (fs : FileSystem) (p : PosixPath) : fs.Node :=
  p.parts.foldl fs.child (if p.absolute then fs.root else fs.cwd)

namespace PosixPath

/-- The components of a text. -/
def components (text : List Char) : List (List Char) :=
  (text.splitOn '/').filter fun part => decide (part ≠ [] ∧ part ≠ ['.'])

/-- `Path(text)`. -/
def parse (text : String) : PosixPath where
  absolute := decide (text.toList.head? = some '/')
  parts := components text.toList

/-- `p / q`. -/
def join (p q : PosixPath) : PosixPath :=
  if q.absolute then q else ⟨p.absolute, p.parts ++ q.parts⟩

/-- The home directory of a user, without slashes at its end; `home ""` is that of the current user.
There is none where it begins with a tilde itself. -/
def homeOf (home : String → Option String) (user : List Char) : Option String :=
  match home (String.ofList user) with
  | none => none
  | some dir =>
    let stripped := (dir.toList.reverse.dropWhile (· = '/')).reverse
    if stripped.head? = some '~' then none
    else some (if stripped = [] then "/" else String.ofList stripped)

/-- `p.expanduser()`; `RuntimeError` where there is none. -/
def expandUser (home : String → Option String) (p : PosixPath) : Option PosixPath :=
  match p.absolute, p.parts with
  | false, ('~' :: user) :: rest =>
    (homeOf home user).map fun dir => ⟨(parse dir).absolute, (parse dir).parts ++ rest⟩
  | _, _ => some p

/-- The two paths lead to the same file, whatever there is on the disk. -/
def SameFile (p q : PosixPath) : Prop := ∀ fs : FileSystem, fs.lookup p = fs.lookup q

/-- **Slashes.** The components of two texts with a slash between them. -/
theorem components_append_slash (a b : List Char) :
    components (a ++ '/' :: b) = components a ++ components b := by
  rw [components, List.splitOn_append_cons_self, List.filter_append]
  rfl

/-- A text without a slash is one component. -/
lemma components_of_no_slash {part : List Char} (hslash : '/' ∉ part) (hne : part ≠ [])
    (hdot : part ≠ ['.']) : components part = [part] := by
  rw [components, List.splitOn_eq_singleton hslash, List.filter_cons_of_pos (by simp [hne, hdot]),
    List.filter_nil]

/-- The file of a path, in the tree where every path has its own. -/
def freeChild (node : Bool × List (List Char)) (part : List Char) : Bool × List (List Char) :=
  (node.1, node.2 ++ [part])

/-- The tree without links. -/
def freeTree : FileSystem := ⟨Bool × List (List Char), (true, []), (false, []), freeChild⟩

lemma foldl_freeChild (parts : List (List Char)) (node : Bool × List (List Char)) :
    parts.foldl freeChild node = (node.1, node.2 ++ parts) := by
  induction parts generalizing node with
  | nil => simp
  | cons part parts ih =>
    rw [List.foldl_cons, ih]
    simp [freeChild]

/-- **Files.** Two paths lead to the same file, whatever there is on the disk, exactly when they are
equal. -/
theorem sameFile_iff {p q : PosixPath} : p.SameFile q ↔ p = q := by
  constructor
  · intro h
    have hfree : ∀ r : PosixPath, freeTree.lookup r = (r.absolute, r.parts) := by
      rintro ⟨absolute, parts⟩
      refine (foldl_freeChild parts _).trans ?_
      cases absolute <;> rfl
    have heq := h freeTree
    rw [hfree, hfree] at heq
    exact PosixPath.ext (congrArg Prod.fst heq) (congrArg Prod.snd heq)
  · rintro rfl fs
    rfl

/-- A path that does not begin with a tilde is left as it is. -/
lemma expandUser_of_no_tilde {home : String → Option String} {p : PosixPath}
    (h : ∀ user rest, p ≠ ⟨false, ('~' :: user) :: rest⟩) : p.expandUser home = some p := by
  obtain ⟨absolute, parts⟩ := p
  unfold expandUser
  dsimp only
  split
  · next user rest => exact absurd rfl (h user rest)
  · rfl

end PosixPath
