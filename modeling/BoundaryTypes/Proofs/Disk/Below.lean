/-
  `Below` — places that are reached by going down.

  A part without a separator that is neither empty nor `.` nor `..` leads one place down
  (`IsStep`), so a path that goes on from a base by such parts leads to a place below the
  base, whatever the base's own path looks like. Identifiers are such parts: the separator
  and the dot are no characters of theirs.
-/
import BoundaryTypes.Proofs.Disk.Completion
import BoundaryTypes.Proofs.Disk.Elsewhere
import BoundaryTypes.Proofs.TypeExpr.Readability

namespace BoundaryTypes

open Text TypeExpr

/-! ### Cutting and joining -/

namespace Text

theorem splitChars_of_not_mem {separator : Char} {s : List Char} (h : separator ∉ s) :
    splitChars separator s = [s] := by
  induction s with
  | nil => rfl
  | cons c rest ih =>
    rw [List.mem_cons, not_or] at h
    rw [splitChars, if_neg (Ne.symm h.1), ih h.2]
    rfl

theorem splitOn_of_not_mem {separator : Char} {s : String} (h : separator ∉ s.toList) :
    splitOn separator s = [s] := by
  rw [splitOn, splitChars_of_not_mem h, List.map_singleton, String.ofList_toList]

/-- A text is known from its pieces. -/
theorem splitOn_injective (separator : Char) : Function.Injective (splitOn separator) := by
  intro s t h
  have hpieces : splitChars separator s.toList = splitChars separator t.toList :=
    (List.map_inj_right fun _ _ heq => String.ofList_injective heq).1 h
  rw [← String.toList_inj, ← joinChars_splitChars separator s.toList, hpieces,
    joinChars_splitChars]

end Text

namespace Path

/-- A part that leads one place down. -/
structure IsStep (part : String) : Prop where
  noSeparator : '/' ∉ part.toList
  ne_empty : part ≠ ""
  ne_here : part ≠ "."
  ne_up : part ≠ ".."

variable {base : Path} {part : String} {parts : List String}

/-- The parts of a name without separator: the name itself, or none when it says nothing. -/
theorem ofText_of_noSeparator (h : '/' ∉ part.toList) :
    ofText part = ⟨.relative, [part].filter fun part => part ≠ "" && part ≠ "."⟩ := by
  have hanchor : anchorOf part.toList = .relative := by
    unfold anchorOf
    split
    · next heq => exact absurd (heq ▸ List.mem_cons_self) h
    · next heq => exact absurd (heq ▸ List.mem_cons_self) h
    · next heq => exact absurd (heq ▸ List.mem_cons_self) h
    · rfl
  rw [ofText, hanchor, splitOn_of_not_mem h]

theorem ofText_of_isStep (h : IsStep part) : ofText part = ⟨.relative, [part]⟩ := by
  rw [ofText_of_noSeparator h.noSeparator]
  simp [h.ne_empty, h.ne_here]

theorem joinText_of_noSeparator (h : '/' ∉ part.toList) :
    base.joinText part = ⟨base.anchor, base.parts ++ (ofText part).parts⟩ := by
  rw [joinText, join, ofText_of_noSeparator h]
  rfl

theorem foldl_joinText (h : ∀ part ∈ parts, IsStep part) :
    parts.foldl joinText base = ⟨base.anchor, base.parts ++ parts⟩ := by
  induction parts generalizing base with
  | nil => rw [List.foldl_nil, List.append_nil]
  | cons part rest ih =>
    rw [List.forall_mem_cons] at h
    rw [List.foldl_cons, ih h.2, joinText_of_noSeparator h.1.noSeparator, ofText_of_isStep h.1,
      List.append_assoc, List.singleton_append]

/-! ### Going down -/

theorem collapse_append (h : ".." ∉ parts) (before : List String) :
    collapse (before ++ parts) = collapse before ++ parts := by
  induction parts generalizing before with
  | nil => rw [List.append_nil, List.append_nil]
  | cons part rest ih =>
    rw [List.mem_cons, not_or] at h
    have hfirst : collapse (before ++ [part]) = collapse before ++ [part] := by
      rw [collapse, List.foldl_append, List.foldl_cons, List.foldl_nil, if_neg (Ne.symm h.1)]
      rfl
    rw [List.append_cons, ih h.2, hfirst, List.append_assoc, List.singleton_append]

/-- A place below that of a path: it is reached by one or more parts that lead down. -/
def Below (base : Path) (k : Place) : Prop :=
  ∃ parts, parts ≠ [] ∧ (∀ part ∈ parts, IsStep part) ∧ k = base.place ++ parts

theorem below_of_parts {p : Path} (hparts : p.parts = base.parts ++ parts) (hne : parts ≠ [])
    (h : ∀ part ∈ parts, IsStep part) : Below base p.place := by
  refine ⟨parts, hne, h, ?_⟩
  rw [place, hparts, collapse_append fun hup => (h _ hup).ne_up rfl]
  rfl

end Path

/-! ### Names that lead down -/

/-- An identifier leads down. -/
theorem isStep_of_isIdentifier {name : String} (h : isIdentifier name = true) :
    Path.IsStep name := by
  obtain ⟨⟨c, rest, hchars, hstart⟩, hall⟩ := isIdentifier_chars h
  -- Texts without a first character of an identifier are none of its names.
  have hne : ∀ other : String, other.toList.any isIdentifierStart = false → name ≠ other := by
    rintro other hother rfl
    rw [hchars, List.any_cons, hstart] at hother
    cases hother
  refine ⟨fun hslash => absurd (hall _ hslash) (by decide), ?_, ?_, ?_⟩
  · exact hne "" (by decide)
  · exact hne "." (by decide)
  · exact hne ".." (by decide)

namespace Replacement

/-- The name of a temporary file leads down. -/
theorem isStep_temporaryName {target : Path} (h : '/' ∉ target.name.toList) (n : Nat) :
    Path.IsStep (temporaryName target n) := by
  -- It is longer than what a path passes over, and than what leads up.
  have hsize : 6 ≤ (temporaryName target n).length := by
    have hdot : ".".length = 1 := rfl
    have hend : ".tmp".length = 4 := rfl
    simp only [temporaryName, String.length_append]
    omega
  have hne : ∀ other : String, other.length < 6 → temporaryName target n ≠ other := by
    rintro other hother rfl
    omega
  have hslash := not_mem_temporaryName h (by decide) (by decide) n
  exact ⟨hslash, hne _ (by decide), hne _ (by decide), hne _ (by decide)⟩

/-- A target that goes down from a base by parts that lead down and a last name. -/
structure GoesDown (base target : Path) (steps : List String) (last : String) : Prop where
  parts_eq : target.parts = base.parts ++ steps ++ [last]
  isStep : ∀ part ∈ steps, Path.IsStep part
  /-- Only the last name may lead up. -/
  isStep_last : last ≠ ".." → Path.IsStep last
  noSeparator : '/' ∉ last.toList

/-- What a replacement works at is below a base, if its target goes down from there. -/
theorem GoesDown.below {base target : Path} {steps : List String} {last : String} {k : Place}
    (h : GoesDown base target steps last) (hk : Touches target k) : Path.Below base k := by
  have hname : target.name = last := Path.name_of_parts_eq_append h.parts_eq
  -- The place of the target itself, or that of a temporary file beside it.
  rcases hk with ⟨rfl, hup⟩ | ⟨n, rfl⟩
  · have hlast := h.isStep_last (hname ▸ hup)
    have hparts : target.parts = base.parts ++ (steps ++ [last]) := by
      rw [h.parts_eq, List.append_assoc]
    refine Path.below_of_parts hparts (by simp) ?_
    rw [List.forall_mem_append, List.forall_mem_singleton]
    exact ⟨h.isStep, hlast⟩
  · have hnext := isStep_temporaryName (hname ▸ h.noSeparator) n
    have hparts : (temporaryPath target n).parts =
        base.parts ++ (steps ++ [temporaryName target n]) := by
      rw [parts_temporaryPath, h.parts_eq, List.dropLast_concat, List.append_assoc]
    refine Path.below_of_parts hparts (by simp) ?_
    rw [List.forall_mem_append, List.forall_mem_singleton]
    exact ⟨h.isStep, hnext⟩

/-- Behind parts that lead down a name leads down, leads up, or says nothing. -/
theorem exists_goesDown {base target : Path} {segments : List String} {name : String}
    (hparts : target.parts = base.parts ++ segments ++ (Path.ofText name).parts)
    (hne : segments ≠ []) (hsegments : ∀ segment ∈ segments, Path.IsStep segment)
    (hname : '/' ∉ name.toList) : ∃ steps last, GoesDown base target steps last := by
  rw [Path.ofText_of_noSeparator hname] at hparts
  by_cases hspeaks : name ≠ "" ∧ name ≠ "."
  · have hfilter : [name].filter (fun part => part ≠ "" && part ≠ ".") = [name] := by
      simp [hspeaks.1, hspeaks.2]
    rw [hfilter] at hparts
    exact ⟨segments, name, hparts, hsegments, fun hup => ⟨hname, hspeaks.1, hspeaks.2, hup⟩, hname⟩
  · -- The path ends in the last segment, which is then the name of the file.
    have hfilter : [name].filter (fun part => part ≠ "" && part ≠ ".") = [] := by
      simpa using hspeaks
    rw [hfilter, List.append_nil] at hparts
    have hlast := hsegments _ (List.getLast_mem hne)
    refine ⟨segments.dropLast, segments.getLast hne, ?_, ?_, fun _ => hlast, hlast.noSeparator⟩
    · rw [hparts, List.append_assoc, List.dropLast_concat_getLast hne]
    · exact fun part hpart => hsegments part (List.dropLast_subset _ hpart)

end Replacement

end BoundaryTypes
