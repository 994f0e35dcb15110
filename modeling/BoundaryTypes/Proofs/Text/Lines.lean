/-
  `Lines` — texts put together from lines, and cut into the same lines again.

  Every line of a text but the last has an end (`Separate`). Lines of which only the last may lack
  its end, put one after another, are cut into the same lines again, as long as none begins with
  a line feed, which would join a carriage return before it (`splitLines_flatten`). A line without
  an end becomes one line with the line put after it (`Separate.open_append`).
-/
import BoundaryTypes.Text.Lines

namespace BoundaryTypes.Text

variable {c : Char} {l s : List Char} {ls ms : List (List Char)}

/-- A line with its end. -/
inductive Ended : List Char → Prop
  | carriage : Ended ['\r', '\n']
  | one {c : Char} (h : endsLine c = true) : Ended [c]
  | cons {c : Char} {l : List Char} (h : endsLine c = false) (rest : Ended l) : Ended (c :: l)

/-- Text without a line end. -/
def Open (l : List Char) : Prop := ∀ c ∈ l, endsLine c = false

instance : Decidable (Open l) :=
  decidable_of_iff ((l.all fun c => !endsLine c) = true) (by simp [Open])

/-- Lines of which only the last may lack its end. -/
inductive Separate : List (List Char) → Prop
  | nil : Separate []
  | last {l : List Char} (hl : l ≠ []) (h : Open l) : Separate [l]
  | cons {l : List Char} {ls : List (List Char)} (h : Ended l) (rest : Separate ls) :
      Separate (l :: ls)

theorem Ended.ne_nil (h : Ended l) : l ≠ [] := by
  cases h <;> exact List.cons_ne_nil _ _

/-- A line end closes what had none. -/
theorem Open.ended (h : Open l) (hc : endsLine c = true) : Ended (l ++ [c]) := by
  induction l with
  | nil => exact .one hc
  | cons d l ih =>
    exact .cons (h d List.mem_cons_self) (ih fun e he => h e (List.mem_cons_of_mem _ he))

theorem splitLines_cons (hc : endsLine c = false) (s : List Char) :
    splitLines (c :: s) = consLine c (splitLines s) := by
  rw [splitLines, if_neg (by rw [hc]; exact Bool.false_ne_true)]
  rintro rest rfl
  cases hc

/-- A line that has its end is cut off, unless the text behind it would lengthen that end. -/
theorem splitLines_ended_append (h : Ended l) (hs : s.head? ≠ some '\n') :
    splitLines (l ++ s) = l :: splitLines s := by
  induction h with
  | carriage => rfl
  | @one c hc =>
    rw [List.singleton_append, splitLines, if_pos hc]
    rintro rest rfl rfl
    exact hs rfl
  | cons hc _ ih => rw [List.cons_append, splitLines_cons hc, ih, consLine]

/-- A text without a line end is one line. -/
theorem splitLines_open (hl : Open l) (hne : l ≠ []) : splitLines l = [l] := by
  obtain ⟨c, l, rfl⟩ := List.exists_cons_of_ne_nil hne
  induction l generalizing c with
  | nil => rw [splitLines_cons (hl c List.mem_cons_self)]; rfl
  | cons d l ih =>
    rw [splitLines_cons (hl c List.mem_cons_self),
      ih d (fun x hx => hl x (List.mem_cons_of_mem _ hx)) (List.cons_ne_nil _ _)]
    rfl

/-! ### The lines of a text -/

theorem Separate.consLine (h : Separate ls) (hc : endsLine c = false) :
    Separate (consLine c ls) := by
  cases h with
  | nil => exact .last (List.cons_ne_nil _ _) fun d hd => by rwa [List.mem_singleton.1 hd]
  | last hl hopen =>
    refine .last (List.cons_ne_nil _ _) fun d hd => ?_
    rcases List.mem_cons.1 hd with rfl | hd
    · exact hc
    · exact hopen d hd
  | cons hl rest => exact .cons (.cons hc hl) rest

/-- The lines of a text are separate: all but the last have their ends, and none of these goes on in
the next line. -/
theorem separate_splitLines (s : List Char) : Separate (splitLines s) := by
  fun_induction splitLines s with
  | case1 => exact .nil
  | case2 rest ih => exact .cons .carriage ih
  | case3 c rest _ hc ih => exact .cons (.one hc) ih
  | case4 c rest _ hc ih => exact ih.consLine (Bool.eq_false_iff.2 hc)

/-- **Separate lines, put one after another, are cut into the same lines again.** -/
theorem splitLines_flatten (h : Separate ls) (hfeed : ∀ l ∈ ls, l.head? ≠ some '\n') :
    splitLines ls.flatten = ls := by
  induction h with
  | nil => rfl
  | last hl hopen => rw [List.flatten_singleton, splitLines_open hopen hl]
  | @cons l ls hl rest ih =>
    have hls := ih fun m hm => hfeed m (List.mem_cons_of_mem _ hm)
    rw [List.flatten_cons, splitLines_ended_append hl, hls]
    -- The next line must not begin with the second half of a line end.
    cases ls with
    | nil => exact nofun
    | cons m ls =>
      have hm : m ≠ [] := by
        cases rest with
        | last hm => exact hm
        | cons hm => exact hm.ne_nil
      obtain ⟨c, m, rfl⟩ := List.exists_cons_of_ne_nil hm
      exact hfeed (c :: m) (List.mem_cons_of_mem _ List.mem_cons_self)

/-! ### Parts of the lines of a text -/

/-- Lines that have their ends can be put before separate lines. -/
theorem Separate.append (hls : ∀ l ∈ ls, Ended l) (hms : Separate ms) : Separate (ls ++ ms) := by
  induction ls with
  | nil => exact hms
  | cons l ls ih =>
    exact .cons (hls l List.mem_cons_self) (ih fun m hm => hls m (List.mem_cons_of_mem _ hm))

/-- The first line may be lengthened at its front. -/
theorem Separate.open_append (hs : Open s) (h : Separate (l :: ls)) :
    Separate ((s ++ l) :: ls) := by
  cases h with
  | last hl hopen =>
    refine .last (List.append_ne_nil_of_right_ne_nil s hl) fun c hc => ?_
    exact (List.mem_append.1 hc).elim (hs c) (hopen c)
  | cons hl rest =>
    refine .cons ?_ rest
    induction s with
    | nil => exact hl
    | cons c s ih =>
      exact .cons (hs c List.mem_cons_self) (ih fun d hd => hs d (List.mem_cons_of_mem _ hd))

theorem Separate.right (h : Separate (ls ++ ms)) : Separate ms := by
  induction ls with
  | nil => exact h
  | cons l ls ih =>
    cases hrest : ls ++ ms with
    | nil => rw [(List.append_eq_nil_iff.1 hrest).2]; exact .nil
    | cons m rest =>
      rw [List.cons_append, hrest] at h
      cases h with
      | cons _ rest' => exact ih (hrest ▸ rest')

/-- Lines before others have their ends. -/
theorem Separate.ended (h : Separate (ls ++ ms)) (hms : ms ≠ []) : ∀ l ∈ ls, Ended l := by
  induction ls with
  | nil => exact fun _ hl => absurd hl List.not_mem_nil
  | cons l ls ih =>
    cases hrest : ls ++ ms with
    | nil => exact absurd (List.append_eq_nil_iff.1 hrest).2 hms
    | cons m rest =>
      rw [List.cons_append, hrest] at h
      cases h with
      | cons hl rest' =>
        intro x hx
        rcases List.mem_cons.1 hx with rfl | hx
        · exact hl
        · exact ih (hrest ▸ rest') x hx

theorem Separate.left (h : Separate (ls ++ ms)) : Separate ls := by
  by_cases hms : ms = []
  · rwa [hms, List.append_nil] at h
  · rw [← List.append_nil ls]
    exact .append (h.ended hms) .nil

theorem Separate.map_cons (h : Separate ls) (hc : endsLine c = false) :
    Separate (ls.map (c :: ·)) := by
  induction h with
  | nil => exact .nil
  | @last l _ hopen =>
    refine .last (List.cons_ne_nil _ _) fun d hd => ?_
    rcases List.mem_cons.1 hd with rfl | hd
    · exact hc
    · exact hopen d hd
  | cons hl _ ih => exact .cons (.cons hc hl) ih

/-! ### The end of a text -/

/-- A text whose last line has no end. -/
def EndsOpen (s : List Char) : Prop := ∃ c ∈ s.getLast?, endsLine c = false

instance : Decidable (EndsOpen s) :=
  decidable_of_iff ((s.getLast?.any fun c => !endsLine c) = true) (by
    cases h : s.getLast? <;> simp [EndsOpen, h])

theorem Ended.not_endsOpen (h : Ended l) : ¬ EndsOpen l := by
  induction h with
  | carriage => decide
  | @one c hc =>
    rintro ⟨d, hd, hopen⟩
    obtain rfl : c = d := Option.some.inj hd
    rw [hc] at hopen
    cases hopen
  | @cons c l _ rest ih =>
    rintro ⟨d, hd, hopen⟩
    obtain ⟨e, l, rfl⟩ := List.exists_cons_of_ne_nil rest.ne_nil
    exact ih ⟨d, by rwa [List.getLast?_cons_cons] at hd, hopen⟩

theorem Open.endsOpen (h : Open l) (hl : l ≠ []) : EndsOpen l :=
  ⟨l.getLast hl, List.getLast?_eq_some_getLast hl, h _ (List.getLast_mem hl)⟩

/-- Whether a text ends in an open line is decided by what stands last. -/
theorem endsOpen_append (hl : l ≠ []) : EndsOpen (s ++ l) ↔ EndsOpen l := by
  rw [EndsOpen, EndsOpen, List.getLast?_append, List.getLast?_eq_some_getLast hl]
  rfl

/-- Either all lines of a text have their ends, or the last has none. -/
theorem splitLines_end (s : List Char) :
    (¬ EndsOpen s ∧ ∀ l ∈ splitLines s, Ended l) ∨
      EndsOpen s ∧ ∃ ls l, splitLines s = ls ++ [l] ∧ l ≠ [] ∧ Open l := by
  have hs := flatten_splitLines s
  have hlines := separate_splitLines s
  -- The last line decides, which is the end of the text.
  rcases List.eq_nil_or_concat (splitLines s) with hnil | ⟨ls, l, hconcat⟩
  · rw [hnil] at hs ⊢
    exact .inl ⟨hs ▸ (by decide), fun _ hl => absurd hl List.not_mem_nil⟩
  · rw [List.concat_eq_append] at hconcat
    rw [hconcat] at hs hlines ⊢
    rw [List.flatten_append, List.flatten_singleton] at hs
    cases hlines.right with
    | last hl hopen =>
      exact .inr ⟨hs ▸ (endsOpen_append hl).2 (hopen.endsOpen hl), ls, l, rfl, hl, hopen⟩
    | cons hl =>
      refine .inl ⟨hs ▸ fun h => hl.not_endsOpen ((endsOpen_append hl.ne_nil).1 h), fun m hm => ?_⟩
      rcases List.mem_append.1 hm with hm | hm
      · exact hlines.ended (List.cons_ne_nil _ _) m hm
      · rwa [List.mem_singleton.1 hm]

/-! ### Line feeds alone -/

/-- Text in which line feeds alone end lines. -/
def Fed (s : List Char) : Prop := ∀ c ∈ s, endsLine c = true → c = '\n'

instance : Decidable (Fed s) :=
  decidable_of_iff (((s.filter endsLine).all (· == '\n')) = true) (by
    simp only [Fed, List.all_eq_true, List.mem_filter, beq_iff_eq, and_imp])

/-- Texts whose only line ends are line feeds can be put together. -/
theorem Fed.append {t : List Char} (hs : Fed s) (ht : Fed t) : Fed (s ++ t) :=
  fun c hc => (List.mem_append.1 hc).elim (hs c) (ht c)

theorem Open.fed (h : Open s) : Fed s := fun c hc hend => by
  rw [h c hc] at hend
  cases hend

theorem fed_flatten (h : ∀ l ∈ ls, Fed l) : Fed ls.flatten := by
  intro c hc
  obtain ⟨l, hl, hc⟩ := List.mem_flatten.1 hc
  exact h l hl c hc

/-- The lines of a text when a line ends at a line feed only. -/
def feedLines : List Char → List (List Char)
  | [] => []
  | c :: rest => if c = '\n' then [c] :: feedLines rest else consLine c (feedLines rest)

/-- Where no other character ends a line, the lines are the same. -/
theorem feedLines_eq (h : Fed s) : feedLines s = splitLines s := by
  induction s with
  | nil => rfl
  | cons c s ih =>
    rw [feedLines, ih fun d hd => h d (List.mem_cons_of_mem _ hd)]
    split
    · next hc =>
      subst hc
      rfl
    · next hc =>
      refine (splitLines_cons (Bool.eq_false_iff.2 fun hend => hc ?_) s).symm
      exact h c List.mem_cons_self hend

end BoundaryTypes.Text
