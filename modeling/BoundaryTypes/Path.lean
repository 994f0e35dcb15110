/-
  `Path` — the names of files.

  A path is relative, or begins at the root; two slashes in front (but not three) are
  kept apart from one. Its parts are neither empty nor `.`, while `..` stays a part: only
  `resolve` takes it away, together with the part in front of it. Joining appends parts,
  and a path that begins at the root replaces what it is joined to.
-/
import BoundaryTypes.Text.Split

namespace BoundaryTypes

/-- Where a path begins. -/
inductive Anchor where
  | relative
  | root
  /-- Two slashes. -/
  | doubleRoot
deriving DecidableEq, Repr

/-- The text of an anchor. -/
def Anchor.text : Anchor → String
  | .relative => ""
  | .root => "/"
  | .doubleRoot => "//"

/-- The name of a file or directory. -/
structure Path where
  anchor : Anchor
  parts : List String
deriving DecidableEq, Repr

namespace Path

/-- Where a text begins as a path. -/
def anchorOf : List Char → Anchor
  | '/' :: '/' :: '/' :: _ => .root
  | '/' :: '/' :: _ => .doubleRoot
  | '/' :: _ => .root
  | _ => .relative

/-- The path that a text names. -/
def ofText (s : String) : Path where
  anchor := anchorOf s.toList
  parts := (Text.splitOn '/' s).filter fun part => part ≠ "" && part ≠ "."

/-- A path that begins at the root, given by its parts. -/
def ofRoot (parts : List String) : Path := ⟨.root, parts⟩

/-- The text of a path; the empty relative path is `.`. -/
def text (p : Path) : String :=
  if p.anchor = .relative ∧ p.parts = [] then "."
  else p.anchor.text ++ "/".intercalate p.parts

/-- Whether a path is independent of a working directory. -/
def isAbsolute (p : Path) : Bool := p.anchor != .relative

/-- `q` seen from `p`. -/
def join (p q : Path) : Path := if q.isAbsolute then q else ⟨p.anchor, p.parts ++ q.parts⟩

/-- A text seen as a path from `p`. -/
def joinText (p : Path) (s : String) : Path := p.join (ofText s)

/-- The path without its last part. -/
def parent (p : Path) : Path := { p with parts := p.parts.dropLast }

/-- The path of the first `n` parts. -/
def first (p : Path) (n : Nat) : Path := { p with parts := p.parts.take n }

/-- The last part; empty when there is none. -/
def name (p : Path) : String := p.parts.getLast?.getD ""

/-- Parts with every `..` taken away together with the part in front of it. -/
def collapse (parts : List String) : List String :=
  parts.foldl (fun acc part => if part = ".." then acc.dropLast else acc ++ [part]) []

/-- The path from the root that `p` names when `base` is the working directory. -/
def resolve (base p : Path) : Path := ofRoot (collapse (base.join p).parts)

/-- Whether a path holds the character that no file name may hold. -/
def hasNull (p : Path) : Bool := p.parts.any fun part => part.toList.contains '\x00'

/-- The path as seen from `base` when it lies below, and as it is otherwise. -/
def relativeTo (base p : Path) : Path :=
  if p.anchor = base.anchor ∧ base.parts.isPrefixOf p.parts then
    ⟨.relative, p.parts.drop base.parts.length⟩
  else p

theorem first_length (p : Path) : p.first p.parts.length = p := by
  rw [first, List.take_length]

/-- A resolved path has no `..`. -/
theorem not_mem_collapse (parts : List String) : ".." ∉ collapse parts := by
  suffices h : ∀ acc : List String, ".." ∉ acc →
      ".." ∉ parts.foldl
        (fun acc part => if part = ".." then acc.dropLast else acc ++ [part]) acc by
    exact h [] (by simp)
  induction parts with
  | nil => exact fun acc h => h
  | cons part rest ih =>
    intro acc h
    simp only [List.foldl_cons]
    apply ih
    split
    · exact fun hm => h (List.dropLast_subset _ hm)
    · next hp => simp [h, Ne.symm hp]

end Path

end BoundaryTypes
