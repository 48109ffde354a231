import Playscript.Text

/-!
# Path names

A path name is a root mark and a list of components. Reading one drops empty components and
single dots and keeps double dots, so a path is normal as soon as it is read.

* `join_of_rooted`: a rooted path replaces what it is joined to.
* `parts_join`: joining a relative path appends its components.
* `parts_parent`: the parent drops the last component.
-/

namespace Playscript

/-- How a path starts. Exactly two slashes are a root of their own; any other number is one. -/
inductive Root
  | relative
  | slash
  | twoSlashes
  deriving DecidableEq, Repr

structure Path where
  root : Root := .relative
  parts : List Text := []
  deriving DecidableEq, Repr

namespace Path

def rootOf (t : Text) : Root :=
  match (t.takeWhile (· == '/')).length with
  | 0 => .relative
  | 2 => .twoSlashes
  | _ => .slash

/-- A component that a path keeps. -/
def isName (part : Text) : Bool := part ≠ [] && part ≠ ['.']

def ofText (t : Text) : Path :=
  ⟨rootOf t, (Text.splitWhere (· == '/') t).filter isName⟩

/-- The path as it is shown. A relative path without components is a single dot. -/
def toText (p : Path) : Text :=
  let names := ['/'].intercalate p.parts
  match p.root with
  | .relative => if p.parts = [] then ['.'] else names
  | .slash => '/' :: names
  | .twoSlashes => '/' :: '/' :: names

def isRooted (p : Path) : Bool := p.root ≠ .relative

/-- `q` seen from the directory `p`. -/
def join (p q : Path) : Path := if q.isRooted then q else { p with parts := p.parts ++ q.parts }

def parent (p : Path) : Path := { p with parts := p.parts.dropLast }

theorem join_of_rooted (p : Path) {q : Path} (h : q.isRooted = true) : p.join q = q := by
  simp [join, h]

theorem parts_join (p : Path) {q : Path} (h : q.isRooted = false) :
    (p.join q).parts = p.parts ++ q.parts := by
  simp [join, h]

theorem parts_parent (p : Path) : p.parent.parts = p.parts.dropLast := rfl

theorem isName_of_mem_parts {t part : Text} (h : part ∈ (ofText t).parts) : isName part = true :=
  (List.mem_filter.1 h).2

end Path

end Playscript
