/-
  `Matching` — what two sequences of lines have in common.

  The longest run of equal lines is found first, then the longest runs before and
  after it, and so on; of equally long runs the one that begins first in the left
  sequence wins, then the one that begins first in the right. A line that occurs very
  often in a long right sequence starts no run, but may extend one.
-/

namespace BoundaryTypes.Diff

/-- A run of equal lines: where it begins on the left and on the right, and its length. -/
structure Block where
  left : Nat
  right : Nat
  size : Nat
deriving DecidableEq, Repr

/-- The parts of both sequences in which a run is looked for: `from` inclusive, `to` exclusive. -/
structure Window where
  leftFrom : Nat
  leftTo : Nat
  rightFrom : Nat
  rightTo : Nat
deriving DecidableEq, Repr

/-- Whether a run lies in a window. -/
def Window.holds (w : Window) (b : Block) : Bool :=
  w.leftFrom ≤ b.left && b.left + b.size ≤ w.leftTo && w.rightFrom ≤ b.right
    && b.right + b.size ≤ w.rightTo

/-- Where a line occurs. -/
def positions (lines : Array String) (line : String) : List Nat :=
  (List.range lines.size).filter fun j => lines[j]? == some line

/-- In a sequence of 200 lines or more a line is popular when it occurs more often than once in a
hundred lines and one time more. -/
def isPopular (size occurrences : Nat) : Bool := 200 ≤ size && size / 100 + 1 < occurrences

/-- For each line on the left, where it may start a run on the right. -/
def anchors (left right : Array String) : Array (List Nat) :=
  left.map fun line =>
    let found := positions right line
    if isPopular right.size found.length then [] else found

/-- The runs that end at a line of the left sequence, by the place on the right where they end. -/
abbrev Runs := List (Nat × Nat)

/-- The length of the run that ends just before a place on the right. -/
def Runs.before (runs : Runs) (j : Nat) : Nat :=
  match j with
  | 0 => 0
  | j + 1 => ((runs.find? fun r => r.1 = j).map (·.2)).getD 0

/-- Goes on to line `i` on the left, which occurs at `found` on the right: the runs that end there,
and the longest run so far. -/
def extendRuns (w : Window) (i : Nat) (found : List Nat) (state : Block × Runs) : Block × Runs :=
  let places := found.filter fun j => w.rightFrom ≤ j && j < w.rightTo
  let runs := places.map fun j => (j, state.2.before j + 1)
  let longest := runs.foldl
    -- Only a longer run takes the place of the longest, so of equal ones the first stays.
    (fun (best : Block) r => if best.size < r.2 then ⟨i + 1 - r.2, r.1 + 1 - r.2, r.2⟩ else best)
    state.1
  (longest, runs)

/-- The longest run between lines that may start one. -/
def longestRun (anchors : Array (List Nat)) (w : Window) : Block :=
  ((List.range' w.leftFrom (w.leftTo - w.leftFrom)).foldl
    (fun state i => extendRuns w i (anchors[i]?.getD []) state)
    (⟨w.leftFrom, w.rightFrom, 0⟩, [])).1

/-- How many lines before the places `i` and `j` are equal, down to the beginning of the window. -/
def commonBefore (left right : Array String) (w : Window) : Nat → Nat → Nat
  | i + 1, j + 1 =>
    if w.leftFrom ≤ i ∧ w.rightFrom ≤ j ∧ left[i]? = right[j]? then
      commonBefore left right w i j + 1
    else 0
  | _, _ => 0

/-- How many of the next `limit` lines from the places `i` and `j` on are equal. -/
def commonAfter (left right : Array String) (i j : Nat) : Nat → Nat
  | 0 => 0
  | limit + 1 =>
    if left[i]? = right[j]? then commonAfter left right (i + 1) (j + 1) limit + 1 else 0

/-- The longest run of a window, extended by the equal lines on both sides. -/
def longestMatch (left right : Array String) (anchors : Array (List Nat)) (w : Window) : Block :=
  let b := longestRun anchors w
  let before := commonBefore left right w b.left b.right
  let limit := min (w.leftTo - (b.left + b.size)) (w.rightTo - (b.right + b.size))
  let after := commonAfter left right (b.left + b.size) (b.right + b.size) limit
  ⟨b.left - before, b.right - before, before + b.size + after⟩

/-- The runs of a window in order: the longest, and those before and after it. -/
def blocksIn (left right : Array String) (anchors : Array (List Nat)) (w : Window) : List Block :=
  let b := longestMatch left right anchors w
  if _h : 0 < b.size ∧ w.holds b then
    let before : Window := ⟨w.leftFrom, b.left, w.rightFrom, b.right⟩
    let after : Window := ⟨b.left + b.size, w.leftTo, b.right + b.size, w.rightTo⟩
    -- A window that is empty on one side holds no run.
    (if w.leftFrom < b.left ∧ w.rightFrom < b.right then
        blocksIn left right anchors before else [])
      ++ b ::
      (if b.left + b.size < w.leftTo ∧ b.right + b.size < w.rightTo then
        blocksIn left right anchors after else [])
  else []
termination_by w.leftTo - w.leftFrom
decreasing_by
  all_goals
    simp only [Window.holds, Bool.and_eq_true, decide_eq_true_eq, b] at _h
    omega

/-- Runs that touch on both sides become one. -/
def joinBlocks : List Block → List Block
  | [] => []
  | [b] => [b]
  | b :: c :: rest =>
    if b.left + b.size = c.left ∧ b.right + b.size = c.right then
      joinBlocks (⟨b.left, b.right, b.size + c.size⟩ :: rest)
    else b :: joinBlocks (c :: rest)
termination_by blocks => blocks.length

/-- The runs of equal lines of two sequences, in order. -/
def matchingBlocks (left right : Array String) : List Block :=
  joinBlocks (blocksIn left right (anchors left right) ⟨0, left.size, 0, right.size⟩)

/-- Equal lines counted forward are equal. -/
theorem getElem?_eq_of_lt_commonAfter {left right : Array String} {i j limit n : Nat}
    (h : n < commonAfter left right i j limit) : left[i + n]? = right[j + n]? := by
  induction limit generalizing i j n with
  | zero => simp [commonAfter] at h
  | succ k ih =>
    rw [commonAfter] at h
    split at h
    · next he =>
      cases n with
      | zero => simpa using he
      | succ m =>
        have := @ih (i + 1) (j + 1) m (by omega)
        rwa [show i + (m + 1) = i + 1 + m by omega, show j + (m + 1) = j + 1 + m by omega]
    · omega

end BoundaryTypes.Diff
