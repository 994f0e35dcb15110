/-
  `Unified` — the difference of two texts, to be read and to be applied.

  Between the runs of equal lines lie edits. Each edit is shown with up to three
  lines of context; edits whose contexts meet form one hunk. A hunk begins with the
  line ranges of both texts, then come the lines with a blank, `-` or `+` in front.
  Lines keep their ends, so a last line without one joins the line after it.
-/
import BoundaryTypes.Diff.Matching
import BoundaryTypes.Text.Lines

namespace BoundaryTypes.Diff

/-- Lines from `start` on, before `stop`. -/
structure Span where
  start : Nat
  stop : Nat
deriving DecidableEq, Repr

/-- The number of lines. -/
def Span.size (s : Span) : Nat := s.stop - s.start

/-- The last `n` lines. -/
def Span.last (s : Span) (n : Nat) : Span := ⟨max s.start (s.stop - n), s.stop⟩

/-- The first `n` lines. -/
def Span.first (s : Span) (n : Nat) : Span := ⟨s.start, min s.stop (s.start + n)⟩

/-- The lines themselves. -/
def Span.lines (s : Span) (all : Array String) : List String := (all.extract s.start s.stop).toList

/-- A stretch of both texts: the same on both sides, or one to be replaced by the other. -/
structure Edit where
  same : Bool
  left : Span
  right : Span
deriving DecidableEq, Repr

/-- The stretches between and on the runs, from the places `i` and `j` on. -/
def editsFrom (i j leftSize rightSize : Nat) : List Block → List Edit
  | [] => if i < leftSize ∨ j < rightSize then [⟨false, ⟨i, leftSize⟩, ⟨j, rightSize⟩⟩] else []
  | b :: rest =>
    let change : List Edit :=
      if i < b.left ∨ j < b.right then [⟨false, ⟨i, b.left⟩, ⟨j, b.right⟩⟩] else []
    change ++ ⟨true, ⟨b.left, b.left + b.size⟩, ⟨b.right, b.right + b.size⟩⟩
      :: editsFrom (b.left + b.size) (b.right + b.size) leftSize rightSize rest

/-- The stretches of two sequences of lines. -/
def edits (left right : Array String) : List Edit :=
  editsFrom 0 0 left.size right.size (matchingBlocks left right)

/-- How many equal lines are shown before and after a change. -/
def context : Nat := 3

/-- Cuts equal lines down to the context at both ends of the edits. -/
def trimEnds (es : List Edit) : List Edit :=
  let cut (keep : Span → Nat → Span) (e : Edit) : Edit :=
    if e.same then ⟨true, keep e.left context, keep e.right context⟩ else e
  match es with
  | [] => []
  | e :: rest =>
    let opened := cut Span.last e :: rest
    match opened.reverse with
    | [] => []
    | last :: before => (cut Span.first last :: before).reverse

/-- Cuts the edits into hunks, at equal stretches longer than the context of two changes. `hunk`
holds what the hunk has so far. -/
def hunksFrom (hunk : List Edit) : List Edit → List (List Edit)
  | [] => [hunk]
  | e :: rest =>
    -- Equal lines that are more than two contexts separate hunks.
    if e.same && 2 * context < e.left.size then
      let closing : Edit := ⟨true, e.left.first context, e.right.first context⟩
      let opening : Edit := ⟨true, e.left.last context, e.right.last context⟩
      (hunk ++ [closing]) :: hunksFrom [opening] rest
    else hunksFrom (hunk ++ [e]) rest

/-- The hunks of two sequences of lines: groups of edits with their context. A group without a
change is none. -/
def hunks (left right : Array String) : List (List Edit) :=
  (hunksFrom [] (trimEnds (edits left right))).filter fun hunk => hunk.any fun e => !e.same

/-- A range of lines in the head of a hunk: the first line, and the number of lines unless it is
one. An empty range names the line before it. -/
def rangeText (s : Span) : String :=
  if s.size = 1 then toString (s.start + 1)
  else toString (if s.size = 0 then s.start else s.start + 1) ++ "," ++ toString s.size

/-- The lines of an edit, each with its mark. -/
def editLines (left right : Array String) (e : Edit) : List String :=
  if e.same then (e.left.lines left).map (" " ++ ·)
  else (e.left.lines left).map ("-" ++ ·) ++ (e.right.lines right).map ("+" ++ ·)

/-- The whole range of a hunk on one side. -/
def hunkSpan (side : Edit → Span) (hunk : List Edit) : Span :=
  ⟨(hunk.head?.map fun e => (side e).start).getD 0,
    (hunk.getLast?.map fun e => (side e).stop).getD 0⟩

/-- The lines of a hunk with its head. -/
def hunkLines (left right : Array String) (hunk : List Edit) : List String :=
  ("@@ -" ++ rangeText (hunkSpan Edit.left hunk) ++ " +" ++ rangeText (hunkSpan Edit.right hunk)
    ++ " @@\n") :: hunk.flatMap (editLines left right)

/-- The difference of two texts under a name; empty when the texts have the same lines. -/
def render (current updated name : String) : String :=
  let left := (Text.lines current).toArray
  let right := (Text.lines updated).toArray
  match hunks left right with
  | [] => ""
  | found =>
    "--- " ++ name ++ " (current)\n+++ " ++ name ++ " (generated)\n"
      ++ String.join (found.flatMap (hunkLines left right))

end BoundaryTypes.Diff
