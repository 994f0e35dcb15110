/-
  `Blocks` — the runs of two sequences are runs of equal lines, in order.

  Whatever is found as the longest run of a window is one: the lines that may start a run are
  equal, a run that goes on is equal line by line (`RunsTo`), and so are the lines by which it is
  extended on both sides. The windows before and after a run hold the others, so the runs form a
  chain from the beginning of both sequences to their ends (`chain_matchingBlocks`). That no longer
  run was overlooked does not matter for that.
-/
import BoundaryTypes.Diff.Matching

namespace BoundaryTypes.Diff

variable {left right : Array String} {i j k l m n : Nat} {b : Block} {bs cs : List Block}
  {w : Window}

/-- The `n` lines from the place `i` on the left are the lines from the place `j` on the right. -/
def Equal (left right : Array String) (i j n : Nat) : Prop :=
  ∀ m < n, left[i + m]? = right[j + m]?

theorem equal_zero : Equal left right i j 0 := fun _ h => absurd h (Nat.not_lt_zero _)

/-- Stretches of equal lines that follow each other are one stretch. -/
theorem Equal.append (h : Equal left right i j m) (h' : Equal left right (i + m) (j + m) n) :
    Equal left right i j (m + n) := by
  intro x hx
  by_cases hm : x < m
  · exact h x hm
  · have hrest := h' (x - m) (by omega)
    rwa [show i + m + (x - m) = i + x by omega, show j + m + (x - m) = j + x by omega] at hrest

theorem Equal.drop (h : Equal left right i j (m + n)) : Equal left right (i + m) (j + m) n := by
  intro x hx
  have hx := h (m + x) (by omega)
  rwa [← Nat.add_assoc, ← Nat.add_assoc] at hx

theorem Equal.take (h : Equal left right i j n) (hm : m ≤ n) : Equal left right i j m :=
  fun x hx => h x (by omega)

theorem equal_one (h : left[i]? = right[j]?) : Equal left right i j 1 := by
  intro x hx
  obtain rfl : x = 0 := by omega
  exact h

/-! ### The longest run -/

/-- What is known before line `i` of the left sequence is looked at: the longest run so far is one,
and so are the runs that end just before that line. -/
structure RunsTo (left right : Array String) (i : Nat) (state : Block × Runs) : Prop where
  best : Equal left right state.1.left state.1.right state.1.size
  runs : ∀ r ∈ state.2, r.2 ≤ i ∧ r.2 ≤ r.1 + 1 ∧
    Equal left right (i - r.2) (r.1 + 1 - r.2) r.2

/-- The run that ends just before a place goes on through a pair of equal lines. -/
theorem equal_before {runs : Runs}
    (hruns : ∀ r ∈ runs, r.2 ≤ i ∧ r.2 ≤ r.1 + 1 ∧ Equal left right (i - r.2) (r.1 + 1 - r.2) r.2)
    (h : left[i]? = right[j]?) :
    runs.before j ≤ i ∧ runs.before j ≤ j ∧
      Equal left right (i - runs.before j) (j - runs.before j) (runs.before j + 1) := by
  -- Without a run that ends just before, the pair of lines is a run of its own.
  have hstart (hzero : runs.before j = 0) : runs.before j ≤ i ∧ runs.before j ≤ j ∧
      Equal left right (i - runs.before j) (j - runs.before j) (runs.before j + 1) := by
    rw [hzero]
    exact ⟨Nat.zero_le i, Nat.zero_le j, equal_one h⟩
  cases j with
  | zero => exact hstart rfl
  | succ j =>
    cases hfound : runs.find? fun r => r.1 = j with
    | none =>
      refine hstart ?_
      rw [Runs.before, hfound]
      rfl
    | some r =>
      obtain ⟨hi, hj, hequal⟩ := hruns r (List.mem_of_find?_eq_some hfound)
      have hplace : r.1 = j := by simpa using List.find?_some hfound
      have hbefore : runs.before (j + 1) = r.2 := by
        rw [Runs.before, hfound]
        rfl
      rw [hplace] at hj hequal
      rw [hbefore]
      refine ⟨hi, hj, hequal.append (equal_one ?_)⟩
      rwa [Nat.sub_add_cancel hi, Nat.sub_add_cancel hj]

/-- One line more: the runs that end before it go on through the equal lines on the right, or start
there, and the longest is chosen anew. -/
theorem RunsTo.extend {state : Block × Runs} (hstate : RunsTo left right i state) (w : Window)
    {found : List Nat} (hfound : ∀ j ∈ found, left[i]? = right[j]?) :
    RunsTo left right (i + 1) (extendRuns w i found state) := by
  have hruns : ∀ r ∈ (extendRuns w i found state).2, r.2 ≤ i + 1 ∧ r.2 ≤ r.1 + 1 ∧
      Equal left right (i + 1 - r.2) (r.1 + 1 - r.2) r.2 := by
    intro r hr
    obtain ⟨j, hj, rfl⟩ := List.mem_map.1 hr
    obtain ⟨hi, hj, hequal⟩ := equal_before hstate.runs (hfound j (List.mem_filter.1 hj).1)
    refine ⟨Nat.succ_le_succ hi, Nat.succ_le_succ hj, ?_⟩
    rwa [Nat.add_sub_add_right, Nat.add_sub_add_right]
  refine ⟨?_, hruns⟩
  -- Whichever run of the new ones is the longest, it is one of them.
  refine List.foldlRecOn (motive := fun b : Block => Equal left right b.left b.right b.size)
    _ _ hstate.best fun best hbest r hr => ?_
  split
  · exact (hruns r hr).2.2
  · exact hbest

/-- A line may start a run only where the same line stands on the right. -/
theorem equal_of_mem_anchors (h : j ∈ (anchors left right)[i]?.getD []) :
    left[i]? = right[j]? := by
  rw [anchors, Array.getElem?_map] at h
  cases hline : left[i]? with
  | none =>
    rw [hline] at h
    cases h
  | some line =>
    rw [hline] at h
    dsimp only [Option.map_some, Option.getD_some] at h
    split at h
    · cases h
    · exact (eq_of_beq (List.mem_filter.1 h).2).symm

/-- What is found as the longest run of a window is a run of equal lines. -/
theorem equal_longestRun (left right : Array String) (w : Window) :
    Equal left right (longestRun (anchors left right) w).left
      (longestRun (anchors left right) w).right (longestRun (anchors left right) w).size := by
  -- Line after line of the left window, with what is known so far.
  have hall : ∀ count i state, RunsTo left right i state →
      RunsTo left right (i + count) ((List.range' i count).foldl
        (fun state i => extendRuns w i ((anchors left right)[i]?.getD []) state) state) := by
    intro count
    induction count with
    | zero => exact fun i state h => h
    | succ count ih =>
      intro i state h
      rw [List.range'_succ, List.foldl_cons, ← Nat.succ_add_eq_add_succ]
      exact ih (i + 1) _ (h.extend w fun j => equal_of_mem_anchors)
  exact (hall _ _ _ ⟨equal_zero, fun r hr => absurd hr List.not_mem_nil⟩).best

/-! ### Extended by equal lines -/

/-- A run is extended to the left by equal lines, and not beyond the beginning of a text. -/
theorem equal_commonBefore (left right : Array String) (w : Window) (i j : Nat) :
    commonBefore left right w i j ≤ i ∧ commonBefore left right w i j ≤ j ∧
      Equal left right (i - commonBefore left right w i j) (j - commonBefore left right w i j)
        (commonBefore left right w i j) := by
  fun_induction commonBefore left right w i j with
  | case1 i j h ih =>
    obtain ⟨hi, hj, hequal⟩ := ih
    refine ⟨Nat.succ_le_succ hi, Nat.succ_le_succ hj, ?_⟩
    rw [Nat.succ_sub_succ, Nat.succ_sub_succ]
    refine hequal.append (equal_one ?_)
    rw [Nat.sub_add_cancel hi, Nat.sub_add_cancel hj]
    exact h.2.2
  | case2 => exact ⟨Nat.zero_le _, Nat.zero_le _, equal_zero⟩
  | case3 => exact ⟨Nat.zero_le _, Nat.zero_le _, equal_zero⟩

/-- The longest run is one of equal lines after it was extended, too. -/
theorem equal_longestMatch (left right : Array String) (w : Window) :
    Equal left right (longestMatch left right (anchors left right) w).left
      (longestMatch left right (anchors left right) w).right
      (longestMatch left right (anchors left right) w).size := by
  unfold longestMatch
  dsimp only
  generalize hb : longestRun (anchors left right) w = b
  have hrun : Equal left right b.left b.right b.size := hb ▸ equal_longestRun left right w
  obtain ⟨hi, hj, hbefore⟩ := equal_commonBefore left right w b.left b.right
  generalize commonBefore left right w b.left b.right = before at *
  -- The run grows to both sides by equal lines: first to the left, then to the right.
  have hmiddle : Equal left right (b.left - before) (b.right - before) (before + b.size) := by
    refine hbefore.append ?_
    rwa [Nat.sub_add_cancel hi, Nat.sub_add_cancel hj]
  refine hmiddle.append fun m hm => ?_
  rw [show b.left - before + (before + b.size) = b.left + b.size by omega,
    show b.right - before + (before + b.size) = b.right + b.size by omega]
  exact getElem?_eq_of_lt_commonAfter hm

/-! ### Chains of runs -/

/-- Runs of equal lines that follow each other on both sides, from one pair of places to another. -/
inductive Chain (left right : Array String) : Nat → Nat → List Block → Nat → Nat → Prop
  | nil {i j k l : Nat} (hi : i ≤ k) (hj : j ≤ l) : Chain left right i j [] k l
  | cons {i j k l : Nat} {b : Block} {bs : List Block} (hi : i ≤ b.left) (hj : j ≤ b.right)
      (hsize : 0 < b.size) (hequal : Equal left right b.left b.right b.size)
      (rest : Chain left right (b.left + b.size) (b.right + b.size) bs k l) :
      Chain left right i j (b :: bs) k l

/-- Two chains with a run between them are one. -/
theorem Chain.append (h : Chain left right i j bs b.left b.right) (hsize : 0 < b.size)
    (hequal : Equal left right b.left b.right b.size)
    (rest : Chain left right (b.left + b.size) (b.right + b.size) cs k l) :
    Chain left right i j (bs ++ b :: cs) k l := by
  generalize hfrom : b.left = x, hto : b.right = y at h
  induction h with
  | nil hi hj =>
    subst hfrom hto
    exact .cons hi hj hsize hequal rest
  | cons hi hj hsize' hequal' _ ih => exact .cons hi hj hsize' hequal' (ih hfrom hto)

/-- The runs of a window form a chain from its beginning to its end, by recursion on the windows
before and after the longest run. -/
theorem chain_blocksIn (left right : Array String) (w : Window) (hleft : w.leftFrom ≤ w.leftTo)
    (hright : w.rightFrom ≤ w.rightTo) :
    Chain left right w.leftFrom w.rightFrom (blocksIn left right (anchors left right) w)
      w.leftTo w.rightTo := by
  fun_induction blocksIn left right (anchors left right) w with
  | case1 w b h before after ihBefore ihAfter =>
    obtain ⟨hsize, hholds⟩ := h
    simp only [Window.holds, Bool.and_eq_true, decide_eq_true_eq] at hholds
    obtain ⟨⟨⟨hfromLeft, htoLeft⟩, hfromRight⟩, htoRight⟩ := hholds
    -- The longest match parts the window, and either side has a chain of its own.
    refine Chain.append ?_ hsize (equal_longestMatch left right w) ?_
    · split
      · exact ihBefore hfromLeft hfromRight
      · exact .nil hfromLeft hfromRight
    · split
      · exact ihAfter htoLeft htoRight
      · exact .nil htoLeft htoRight
  | case2 w b h => exact .nil hleft hright

/-- Runs that touch can be joined: the chain stays one. -/
theorem chain_joinBlocks (h : Chain left right i j bs k l) :
    Chain left right i j (joinBlocks bs) k l := by
  fun_induction joinBlocks bs generalizing i j with
  | case1 => exact h
  | case2 b => exact h
  | case3 b c rest htouch ih =>
    cases h with
    | cons hi hj hsize hequal hrest =>
      cases hrest with
      | cons _ _ hsize' hequal' hrest' =>
        refine ih (.cons hi hj (Nat.add_pos_left hsize _) ?_ ?_)
        · -- Two runs that touch on both sides are one.
          rw [← htouch.1, ← htouch.2] at hequal'
          exact hequal.append hequal'
        · dsimp only
          rwa [← Nat.add_assoc, ← Nat.add_assoc, htouch.1, htouch.2]
  | case4 b c rest _ ih =>
    cases h with
    | cons hi hj hsize hequal hrest => exact .cons hi hj hsize hequal (ih hrest)

/-- The runs of two sequences are runs of equal lines, in order. -/
theorem chain_matchingBlocks (left right : Array String) :
    Chain left right 0 0 (matchingBlocks left right) left.size right.size :=
  chain_joinBlocks (chain_blocksIn left right ⟨0, left.size, 0, right.size⟩ (Nat.zero_le _)
    (Nat.zero_le _))

end BoundaryTypes.Diff
