/-
  `Hunks` — the hunks lead through both texts.

  Edits that lie between and on a chain of runs cover both sequences without a gap: equal lines by
  turns with lines to be replaced (`Covers`). Cutting equal lines down at both ends and between two
  hunks leaves gaps, and a gap holds equal lines. So do groups without a change, which are no
  hunks. What remains leads from hunk to hunk over such gaps to the end of both sequences
  (`grouped_hunks`).
-/
import BoundaryTypes.Diff.Unified
import BoundaryTypes.Proofs.Diff.Blocks

namespace BoundaryTypes.Diff

variable {left right : Array String} {i j k l m n : Nat} {e : Edit} {es fs : List Edit}

/-- Edits that lead on both sides from one pair of places to another without a gap. Each of them
holds lines, and no two changes follow each other. -/
inductive Covers (left right : Array String) : Nat → Nat → List Edit → Nat → Nat → Prop
  | nil {i j : Nat} : Covers left right i j [] i j
  | same {i j k l n : Nat} {es : List Edit} (hn : 0 < n) (hequal : Equal left right i j n)
      (rest : Covers left right (i + n) (j + n) es k l) :
      Covers left right i j (⟨true, ⟨i, i + n⟩, ⟨j, j + n⟩⟩ :: es) k l
  | change {i j i' j' k l : Nat} {es : List Edit} (hi : i ≤ i') (hj : j ≤ j')
      (hsome : i < i' ∨ j < j') (hnext : ∀ e ∈ es.head?, e.same)
      (rest : Covers left right i' j' es k l) :
      Covers left right i j (⟨false, ⟨i, i'⟩, ⟨j, j'⟩⟩ :: es) k l

theorem Covers.le (h : Covers left right i j es k l) : i ≤ k ∧ j ≤ l := by
  induction h with
  | nil => exact ⟨Nat.le_refl _, Nat.le_refl _⟩
  | same _ _ _ ih => exact ⟨by omega, by omega⟩
  | change hi hj _ _ _ ih => exact ⟨Nat.le_trans hi ih.1, Nat.le_trans hj ih.2⟩

/-- Edits that begin with equal lines get on on both sides. -/
theorem Covers.lt_of_same (h : Covers left right i j (e :: es) k l) (he : e.same = true) :
    i < k ∧ j < l := by
  cases h with
  | same hn _ rest =>
    have := rest.le
    exact ⟨by omega, by omega⟩
  | change => cases he

/-- Edits get on on one side at least. -/
theorem Covers.lt (h : Covers left right i j (e :: es) k l) : i < k ∨ j < l := by
  cases h with
  | same hn _ rest =>
    have := rest.le
    exact .inl (by omega)
  | change _ _ hsome _ rest =>
    have := rest.le
    exact hsome.imp (by omega) (by omega)

/-- A change may be followed by equal lines. -/
theorem Covers.append (h : Covers left right i j es k l) {k' l' : Nat}
    (rest : Covers left right k l fs k' l') (hnext : ∀ e ∈ fs.head?, e.same) :
    Covers left right i j (es ++ fs) k' l' := by
  induction h with
  | nil => exact rest
  | same hn hequal _ ih => exact .same hn hequal (ih rest)
  | @change _ _ _ _ _ _ es hi hj hsome hnext' _ ih =>
    refine .change hi hj hsome ?_ (ih rest)
    -- What follows the change is in the appended part only if nothing follows it here.
    cases es with
    | nil => exact hnext
    | cons e es => exact hnext'

theorem Covers.split (h : Covers left right i j (es ++ fs) k l) :
    ∃ k' l', Covers left right i j es k' l' ∧ Covers left right k' l' fs k l := by
  induction es generalizing i j with
  | nil => exact ⟨i, j, .nil, h⟩
  | cons e es ih =>
    cases h with
    | same hn hequal rest =>
      obtain ⟨k', l', hfirst, hrest⟩ := ih rest
      exact ⟨k', l', .same hn hequal hfirst, hrest⟩
    | change hi hj hsome hnext rest =>
      obtain ⟨k', l', hfirst, hrest⟩ := ih rest
      refine ⟨k', l', .change hi hj hsome (fun e he => hnext e ?_) hfirst, hrest⟩
      exact List.head?_append.trans (by rw [he]; rfl)

/-- Edits without a change hold equal lines. -/
theorem Covers.equal (h : Covers left right i j es k l) (hsame : ∀ e ∈ es, e.same = true) :
    ∃ n, k = i + n ∧ l = j + n ∧ Equal left right i j n := by
  induction h with
  | nil => exact ⟨0, rfl, rfl, equal_zero⟩
  | @same i j _ _ n _ _ hequal _ ih =>
    obtain ⟨m, rfl, rfl, hrest⟩ := ih fun e he => hsame e (List.mem_cons_of_mem _ he)
    exact ⟨n + m, Nat.add_assoc .., Nat.add_assoc .., hequal.append hrest⟩
  | change => cases hsame _ List.mem_cons_self

/-! ### The edits of two sequences -/

theorem covers_editsFrom {bs : List Block} (h : Chain left right i j bs k l) :
    Covers left right i j (editsFrom i j k l bs) k l := by
  induction h with
  | @nil i j k l hi hj =>
    rw [editsFrom]
    split
    · next hsome => exact .change hi hj hsome nofun .nil
    · obtain ⟨rfl, rfl⟩ : i = k ∧ j = l := ⟨by omega, by omega⟩
      exact .nil
  | @cons i j k l b bs hi hj hsize hequal _ ih =>
    have hrun := Covers.same hsize hequal ih
    rw [editsFrom]
    -- Lines before the run are replaced, unless the run begins where the last one ended.
    split
    · next hsome => exact .change hi hj hsome (fun e he => by cases he; rfl) hrun
    · obtain ⟨hi, hj⟩ : b.left = i ∧ b.right = j := ⟨by omega, by omega⟩
      rw [hi, hj] at hrun ⊢
      exact hrun

/-- **The edits of two sequences cover both.** -/
theorem covers_edits (left right : Array String) :
    Covers left right 0 0 (edits left right) left.size right.size :=
  covers_editsFrom (chain_matchingBlocks left right)

/-! ### Equal lines cut down -/

/-- An edit of which, when it is of equal lines, only those next to a change are kept. -/
def Edit.cut (keep : Span → Nat → Span) (e : Edit) : Edit :=
  if e.same then ⟨true, keep e.left context, keep e.right context⟩ else e

theorem trimEnds_cons {e last : Edit} {rest before : List Edit}
    (h : e.cut Span.last :: rest = before ++ [last]) :
    trimEnds (e :: rest) = before ++ [last.cut Span.first] := by
  rw [Edit.cut] at h
  unfold trimEnds
  dsimp only
  rw [h, List.reverse_append, List.reverse_singleton, List.singleton_append]
  dsimp only
  rw [List.reverse_cons, List.reverse_reverse]
  rfl

theorem span_last (i n : Nat) : Span.last ⟨i, i + n⟩ context = ⟨i + (n - 3), i + n⟩ := by
  simp only [Span.last, context, Span.mk.injEq, and_true]
  omega

theorem span_first (i n : Nat) : Span.first ⟨i, i + n⟩ context = ⟨i, i + min n 3⟩ := by
  simp only [Span.first, context, Span.mk.injEq, true_and]
  omega

theorem Covers.cut_last (h : Covers left right i j (e :: es) k l) :
    ∃ n, Equal left right i j n ∧
      Covers left right (i + n) (j + n) (e.cut Span.last :: es) k l := by
  cases h with
  | @same _ _ _ _ n _ hn hequal rest =>
    refine ⟨n - 3, hequal.take (Nat.sub_le n 3), ?_⟩
    -- All but the last three of the equal lines are the gap.
    have hsplit : n = n - 3 + min n 3 := by omega
    rw [Edit.cut, if_pos rfl, span_last, span_last]
    rw [hsplit] at hequal rest
    rw [← Nat.add_assoc, ← Nat.add_assoc] at rest
    have hcut := Covers.same (show 0 < min n 3 by omega) hequal.drop rest
    rwa [show i + (n - 3) + min n 3 = i + n by omega,
      show j + (n - 3) + min n 3 = j + n by omega] at hcut
  | change hi hj hsome hnext rest => exact ⟨0, equal_zero, .change hi hj hsome hnext rest⟩

theorem Covers.cut_first {before : List Edit} (h : Covers left right i j (before ++ [e]) k l) :
    ∃ k' l' n, Covers left right i j (before ++ [e.cut Span.first]) k' l' ∧
      Equal left right k' l' n ∧ k' + n = k ∧ l' + n = l := by
  obtain ⟨a, b, hbefore, hlast⟩ := h.split
  cases hlast with
  | @same _ _ _ _ n _ hn hequal rest =>
    cases rest
    -- The first three of the equal lines stay, and the others are the gap.
    have hsplit : n = min n 3 + (n - 3) := by omega
    refine ⟨a + min n 3, b + min n 3, n - 3, ?_, ?_, by omega, by omega⟩
    · have hcut : Covers left right a b [Edit.cut Span.first ⟨true, ⟨a, a + n⟩, ⟨b, b + n⟩⟩]
          (a + min n 3) (b + min n 3) := by
        rw [Edit.cut, if_pos rfl, span_first, span_first]
        exact .same (by omega) (hequal.take (by omega)) .nil
      refine hbefore.append hcut fun e he => ?_
      cases he
      rfl
    · rw [hsplit] at hequal
      exact hequal.drop
  | change => exact ⟨k, l, 0, h, equal_zero, rfl, rfl⟩

theorem Covers.trimEnds (h : Covers left right 0 0 es k l) :
    ∃ m k' l' n, Equal left right 0 0 m ∧ Covers left right m m (trimEnds es) k' l' ∧
      Equal left right k' l' n ∧ k' + n = k ∧ l' + n = l := by
  cases es with
  | nil => exact ⟨0, k, l, 0, equal_zero, h, equal_zero, rfl, rfl⟩
  | cons e rest =>
    obtain ⟨m, hgap, hopened⟩ := h.cut_last
    rw [Nat.zero_add] at hopened
    obtain ⟨before, last, heq⟩ : ∃ before last, e.cut Span.last :: rest = before ++ [last] :=
      ⟨_, _, (List.dropLast_concat_getLast (List.cons_ne_nil _ _)).symm⟩
    rw [heq] at hopened
    rw [trimEnds_cons heq]
    obtain ⟨k', l', n, hcut, hafter, hk, hl⟩ := hopened.cut_first
    exact ⟨m, k', l', n, hgap, hcut, hafter, hk, hl⟩

/-- Of equal lines between two hunks the first and the last are kept. -/
theorem Covers.cut_between (h : Covers left right i j (e :: es) k l) (hsame : e.same = true)
    (hlong : 2 * context < e.left.size) :
    ∃ n, 1 ≤ n ∧
      Covers left right i j [⟨true, e.left.first context, e.right.first context⟩] (i + 3) (j + 3) ∧
      Equal left right (i + 3) (j + 3) n ∧
      Covers left right (i + 3 + n) (j + 3 + n)
        (⟨true, e.left.last context, e.right.last context⟩ :: es) k l := by
  cases h with
  | @same _ _ _ _ n _ hn hequal rest =>
    simp only [Span.size, context] at hlong
    -- More than two contexts: three lines, a gap that is not empty, three lines.
    obtain ⟨c, rfl⟩ : ∃ c, n = 3 + (c + 1) + 3 := ⟨n - 7, by omega⟩
    refine ⟨c + 1, Nat.le_add_left 1 c, ?_, ?_, ?_⟩
    · rw [span_first, span_first, Nat.min_eq_right (by omega)]
      exact .same (by omega) (hequal.take (by omega)) .nil
    · exact (hequal.take (Nat.le_add_right _ 3)).drop
    · have hplace (x : Nat) : x + (3 + (c + 1)) = x + 3 + (c + 1) := (Nat.add_assoc ..).symm
      have hend (x : Nat) : x + (3 + (c + 1) + 3) = x + 3 + (c + 1) + 3 := by omega
      have hkept := hequal.drop
      rw [hplace, hplace] at hkept
      rw [hend, hend] at rest
      rw [span_last, span_last, Nat.add_sub_cancel, hplace, hplace, hend, hend]
      exact .same (by omega) hkept rest
  | change => cases hsame

/-! ### Hunks over gaps -/

/-- Hunks that lead from a pair of places to the ends of both sequences over gaps of equal lines,
the first of `m` lines at least, those between hunks never empty. -/
inductive Grouped (left right : Array String) : Nat → Nat → Nat → List (List Edit) → Prop
  | nil {i j m n : Nat} (hgap : Equal left right i j n) (hi : i + n = left.size)
      (hj : j + n = right.size) : Grouped left right m i j []
  | cons {i j k l m n : Nat} {hunk : List Edit} {rest : List (List Edit)} (hm : m ≤ n)
      (hgap : Equal left right i j n) (hhunk : Covers left right (i + n) (j + n) hunk k l)
      (hrest : Grouped left right 1 k l rest) : Grouped left right m i j (hunk :: rest)

variable {hunk : List Edit} {found : List (List Edit)}

theorem Grouped.before (h : Grouped left right m (i + n) (j + n) found)
    (hgap : Equal left right i j n) {m' : Nat} (hm' : m' ≤ n + m) :
    Grouped left right m' i j found := by
  cases h with
  | nil hgap' hi hj =>
    exact .nil (hgap.append hgap') (by rw [← hi, Nat.add_assoc]) (by rw [← hj, Nat.add_assoc])
  | cons hm hgap' hhunk hrest =>
    rw [Nat.add_assoc, Nat.add_assoc] at hhunk
    exact .cons (by omega) (hgap.append hgap') hhunk hrest

theorem Grouped.le (h : Grouped left right m i j found) : i ≤ left.size ∧ j ≤ right.size := by
  induction h with
  | nil _ hi hj => exact ⟨by omega, by omega⟩
  | cons _ _ hhunk _ ih =>
    have := hhunk.le
    exact ⟨by omega, by omega⟩

/-- Cutting edits into groups leaves the lines between two contexts out. -/
theorem grouped_hunksFrom (h : Covers left right i j (hunk ++ es) k l)
    (hgap : Equal left right k l n) (hk : k + n = left.size) (hl : l + n = right.size) :
    Grouped left right 0 i j (hunksFrom hunk es) := by
  -- The hunk under way is a parameter: it grows until equal lines are too many for it.
  induction es generalizing hunk i j with
  | nil =>
    rw [List.append_nil] at h
    exact .cons (Nat.le_refl 0) equal_zero h (.nil hgap hk hl)
  | cons e rest ih =>
    rw [hunksFrom]
    split
    · next hlong =>
      rw [Bool.and_eq_true, decide_eq_true_eq] at hlong
      obtain ⟨a, b, hhunk, hrest⟩ := h.split
      obtain ⟨c, hc, hclosing, hbetween, hopening⟩ := hrest.cut_between hlong.1 hlong.2
      exact .cons (Nat.le_refl 0) equal_zero (hhunk.append hclosing fun e he => by cases he; rfl)
        ((ih hopening).before hbetween hc)
    · refine ih ?_
      rwa [List.append_assoc, List.singleton_append]

/-- A group without a change is part of the gap around it. -/
theorem Grouped.filter (h : Grouped left right m i j found) :
    Grouped left right m i j (found.filter fun hunk => hunk.any fun e => !e.same) := by
  induction h with
  | nil hgap hi hj => exact .nil hgap hi hj
  | @cons i j k l m n hunk rest hm hgap hhunk hrest ih =>
    rw [List.filter_cons]
    split
    · exact .cons hm hgap hhunk ih
    · next hnone =>
      -- Its own equal lines join the gap before it with the one after it.
      obtain ⟨c, rfl, rfl, hequal⟩ := hhunk.equal (by simpa using hnone)
      rw [Nat.add_assoc, Nat.add_assoc] at ih
      exact ih.before (hgap.append hequal) (by omega)

/-- **The hunks of two sequences lead through both.** -/
theorem grouped_hunks (left right : Array String) :
    Grouped left right 0 0 0 (hunks left right) := by
  obtain ⟨m, k, l, n, hgap, hcovers, hafter, hk, hl⟩ := (covers_edits left right).trimEnds
  have hgrouped : Grouped left right 0 m m (hunksFrom [] (trimEnds (edits left right))) :=
    grouped_hunksFrom hcovers hafter hk hl
  have hfirst : Grouped left right 0 (0 + m) (0 + m)
      (hunksFrom [] (trimEnds (edits left right))) := by
    rwa [Nat.zero_add]
  exact (hfirst.before hgap (Nat.zero_le _)).filter

end BoundaryTypes.Diff
