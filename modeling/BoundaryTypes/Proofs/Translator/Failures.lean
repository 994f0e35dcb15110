/-
  `Failures` — what a call that fails leaves behind.

  A translator takes nothing back. A call that fails keeps the aliases that it has registered
  and the places that it has opened, and the place of an alias whose definition it was inside
  of stays open. Later calls pass over that alias as one they know. So the call itself, made
  again, cannot fail as it did before (`brokenAlias_passes_next_time` is the shortest case),
  and a text may refer to an alias that is bound nowhere.

  `failing_calls` draws the line. A fault that leaves no place open comes again whenever the
  call is made, and a call whose aliases are all known leaves the places as they were. As long
  as every failure is `Harmless`, each place holds a declaration and each name in a text is
  bound.
-/
import BoundaryTypes.Proofs.Translator.History

namespace BoundaryTypes.Translator

open Outcome Session TypeExpr Call

variable {reserved declared : List String} {t u : Translator} {c : Call} {f : TypeFault}
  {text n : String} {calls : List Call}

/-! ### One failure -/

/-- No place is open that was not there before. -/
def NoneOpened (t u : Translator) : Prop :=
  ∀ place ∈ u.session.hoisted, place.2 = none → place ∈ t.session.hoisted

/-- A failure after which every alias has what it had before, or has a place with a declaration. -/
structure Harmless (t u : Translator) : Prop where
  kept : ∀ place ∈ t.session.hoisted, place ∈ u.session.hoisted
  filled : NoneOpened t u
  placed : ∀ n D, u.session.Knows n D → t.session.Knows n D ∨ n ∈ u.session.hoisted.map (·.1)

/-- What a call has done that failed, and what becomes of it when it is made again. -/
structure Failure (c : Call) (t : Translator) (f : TypeFault) (u : Translator) : Prop where
  /-- The places stay, but for that of a declared alias; after them come places of new aliases. -/
  places : ∃ kept fresh, u.session.hoisted = kept ++ fresh ∧
    (kept = t.session.hoisted ∨ kept = t.session.hoisted.filter fun place => place.1 ∉ c.binds) ∧
    ∀ place ∈ fresh, Opened c.aliases t.session u.session place
  again : NoneOpened t u → ∀ calls, perform c (after u calls) = .error f (after u calls)
  never : ¬ NoneOpened t u → ∀ calls v, perform c (after u calls) ≠ .error f v
  /-- A call without new aliases, and without a place to give up, leaves the places as they were,
  and does no harm. -/
  known : (∀ a ∈ c.aliases, t.session.Settles a.1) →
    (∀ n ∈ c.binds, n ∉ t.session.hoisted.map (·.1)) →
    u.session.hoisted = t.session.hoisted ∧ Harmless t u

theorem noneOpened_iff {base : Session} {fresh : List (String × Option String)}
    (h : Idle reserved t) (hbased : Based c t.session base)
    (hextended : Extended c.aliases base fresh u.session) : NoneOpened t u ↔ Filled fresh := by
  constructor
  · intro hnone place hplace
    rw [Option.isSome_iff_ne_none]
    intro hopen
    -- An open place among the new ones would be that of an alias that the translator knew before.
    have hold := hnone place (hextended.hoisted ▸ List.mem_append_right _ hplace) hopen
    obtain ⟨D, -, hnew, -⟩ := hextended.opened place hplace
    exact h.sound.not_mem (hnew.of_keeps hbased.keeps).unknown (List.mem_map_of_mem hold)
  · intro hfilled place hplace hopen
    rw [hextended.hoisted] at hplace
    -- An open place is an old one, or one of those that are filled.
    rcases List.mem_append.1 hplace with hplace | hplace
    · rw [hbased.hoisted] at hplace
      exact (List.mem_filter.1 hplace).1
    · have hsome := hfilled place hplace
      rw [hopen] at hsome
      cases hsome

/-- A check that failed without leaving a place open fails again in every later call. -/
theorem again_of_body {base : Session} {fresh : List (String × Option String)}
    (h : Idle reserved t) (hu : Idle reserved u) (hbased : Based c t.session base)
    (hbody : c.body base = .error f u.session)
    (hextended : Extended c.aliases base fresh u.session) (hfilled : Filled fresh)
    (calls : List Call) : perform c (after u calls) = .error f (after u calls) := by
  obtain ⟨hlater, hkeeps, helsewhere⟩ := hu.run calls
  obtain ⟨base', hbased', -, hsame⟩ := hbased.again (hextended.keeps.trans hkeeps)
  -- The place that the call gave up is not there any more, so that the call begins at once.
  obtain rfl := hsame fun n hn => (helsewhere n (hbased.elsewhere hextended hn)).unplaced
  refine hlater.error ?_
  rw [hbased'.session_eq]
  exact bind_run_of_error _ (c.checks_body.fails_again (hbased.sound h.sound) hbody
    hextended.hoisted hfilled hkeeps)

/-- The fault of a check that left a place open comes back in no later call. -/
theorem never_of_body {base : Session} {fresh : List (String × Option String)}
    (h : Idle reserved t) (hu : Idle reserved u) (hbased : Based c t.session base)
    (hbody : c.body base = .error f u.session)
    (hextended : Extended c.aliases base fresh u.session) (hopen : ¬ Filled fresh)
    (calls : List Call) (v : Translator) : perform c (after u calls) ≠ .error f v := by
  intro hagain
  obtain ⟨hlater, hkeeps, -⟩ := hu.run calls
  obtain ⟨base', hbased', hkeeps', -⟩ := hbased.again (hextended.keeps.trans hkeeps)
  have hrun := hlater.of_error hagain
  rw [hbased'.session_eq] at hrun
  -- Only the check can fail: the text is made without faults.
  rcases bind_run_eq_error.1 hrun with hrun | ⟨_, _, _, htext⟩
  · exact c.checks_body.never_again (hbased.sound h.sound) hbody hextended.hoisted hopen
      (hkeeps.trans hkeeps') (hbased'.sound hlater.sound) hrun
  · cases htext

/-- A check without new aliases, in a session that had no place to give up, changes nothing. -/
theorem harmless_of_known {base : Session} {fresh : List (String × Option String)}
    (hu : Idle reserved u) (hbased : Based c t.session base)
    (hextended : Extended c.aliases base fresh u.session)
    (hknown : ∀ a ∈ c.aliases, t.session.Settles a.1)
    (hunplaced : ∀ n ∈ c.binds, n ∉ t.session.hoisted.map (·.1)) :
    u.session.hoisted = t.session.hoisted ∧ Harmless t u := by
  -- All aliases are settled, so none of them is new, and nothing is added.
  have hfresh : fresh = [] := by
    refine List.eq_nil_iff_forall_not_mem.2 fun place hplace => ?_
    obtain ⟨D, hmet, hnew, -⟩ := hextended.opened place hplace
    exact (hnew.of_keeps hbased.keeps).not_settles (hknown _ hmet)
  subst hfresh
  have hhoisted : u.session.hoisted = t.session.hoisted := by
    rw [hextended.hoisted, hbased.hoisted, List.append_nil]
    refine List.filter_eq_self.2 fun place hplace => decide_eq_true fun hn => ?_
    exact hunplaced _ hn (List.mem_map_of_mem hplace)
  refine ⟨hhoisted, fun place hplace => hhoisted ▸ hplace, fun place hplace _ => hhoisted ▸ hplace,
    fun n D hD => .inl ?_⟩
  have hbase := (hextended.learned n D hD).resolve_right List.not_mem_nil
  rcases hbased.learned hbase with hold | hn
  · exact hold
  · -- The declared alias was known before, and under the same definition.
    obtain ⟨definition, hmem⟩ := c.exists_alias_of_binds hn
    have hsome := (hknown _ hmem).resolve_left (hu.sound.registered n D hD).2
    obtain ⟨known, hold⟩ := Option.isSome_iff_exists.1 hsome
    have hlater := (hbased.keeps.trans hextended.keeps).knows n known hold
    exact hD.unique hlater ▸ hold

theorem failure_of_error (h : Idle reserved t) (hc : perform c t = .error f u) :
    Failure c t f u := by
  obtain ⟨hu, hstep⟩ := h.step c
  rw [hc] at hu hstep
  rcases Call.of_error (h.of_error hc) with ⟨hrefuses, hsame⟩ | ⟨base, hbased, hbody⟩
  · -- The translator is as it was, and the same definition is refused ever after.
    have hnone : NoneOpened t u := fun place hplace _ => hsame ▸ hplace
    have hagain : ∀ calls, perform c (after u calls) = .error f (after u calls) := by
      intro calls
      obtain ⟨hlater, hkeeps, -⟩ := hu.run calls
      exact hlater.error (session_of_refuses (hrefuses.mono (hsame ▸ hkeeps)))
    refine ⟨hstep.places, fun _ => hagain, fun hopen => absurd hnone hopen, fun _ _ => ?_⟩
    exact ⟨congrArg Session.hoisted hsame, fun place hplace => hsame ▸ hplace, hnone,
      fun n D hD => .inl (hsame ▸ hD)⟩
  · -- The check has begun, so what it left in the places decides.
    obtain ⟨fresh, hextended⟩ := c.checks_body.extended_of_error (hbased.sound h.sound) hbody
    have hnone := noneOpened_iff h hbased hextended
    exact ⟨hstep.places,
      fun h' => again_of_body h hu hbased hbody hextended (hnone.1 h'),
      fun hopen => never_of_body h hu hbased hbody hextended fun hfilled => hopen (hnone.2 hfilled),
      harmless_of_known hu hbased hextended⟩

/-! ### Histories without harm -/

/-- Every call that fails is harmless. -/
def AllHarmless : Translator → List Call → Prop
  | _, [] => True
  | t, c :: rest =>
    (∀ f u, perform c t = .error f u → Harmless t u) ∧ AllHarmless (stateOf (perform c t)) rest

/-- The names that successful calls have bound. -/
def boundBy : Translator → List Call → List String
  | _, [] => []
  | t, c :: rest =>
    (match perform c t with
      | .ok _ _ => c.binds
      | .error _ _ => []) ++ boundBy (stateOf (perform c t)) rest

/-- Every alias that is known is declared, or has a place with its declaration. -/
structure Complete (declared : List String) (t : Translator) : Prop where
  texts : ∀ place ∈ t.session.hoisted, ∃ D, t.session.Knows place.1 D ∧
    place.2 = some (D.declarationText place.1)
  bound : ∀ n D, t.session.Knows n D → n ∈ declared ∨ n ∈ t.session.hoisted.map (·.1)

theorem complete_new (reserved : List String) : Complete [] (new reserved) :=
  ⟨fun _ h => absurd h List.not_mem_nil, fun _ _ h => absurd h (not_knows_of_eq_none rfl)⟩

/-- The place of a known alias has the declaration of the alias, unless it is open. -/
theorem Idle.text_of_filled (h : Idle reserved t) {place : String × Option String}
    (hplace : place ∈ t.session.hoisted) (hfilled : place.2 ≠ none) :
    ∃ D, t.session.Knows place.1 D ∧ place.2 = some (D.declarationText place.1) := by
  obtain ⟨D, hD, htext⟩ := h.sound.places place hplace
  obtain ⟨text, hsome⟩ := Option.ne_none_iff_exists'.1 hfilled
  exact ⟨D, hD, htext text hsome ▸ hsome⟩

theorem Complete.error (h : Complete declared t) (hu : Idle reserved u) (hharmless : Harmless t u) :
    Complete declared u := by
  refine ⟨fun place hplace => hu.text_of_filled hplace fun hopen => ?_, fun n D hD => ?_⟩
  · -- An open place would be an old one, and those all have their declarations.
    obtain ⟨D, -, htext⟩ := h.texts place (hharmless.filled place hplace hopen)
    rw [hopen] at htext
    cases htext
  · rcases hharmless.placed n D hD with hD | hmem
    · refine (h.bound n D hD).imp_right fun hmem => ?_
      obtain ⟨place, hplace, rfl⟩ := List.mem_map.1 hmem
      exact List.mem_map_of_mem (hharmless.kept place hplace)
    · exact .inr hmem

theorem Complete.ok (h : Complete declared t) (ht : Idle reserved t)
    (hc : perform c t = .ok text u) : Complete (declared ++ c.binds) u := by
  have hu := (ht.step c).1
  rw [hc] at hu
  obtain ⟨-, base, hbased, hbody⟩ := Call.of_ok (ht.of_ok hc)
  obtain ⟨fresh, hextended, hfilled⟩ :=
    c.checks_body.extended_of_ok (hbased.sound ht.sound) hbody
  refine ⟨fun place hplace => hu.text_of_filled hplace fun hopen => ?_, fun n D hD => ?_⟩
  · have hold := (noneOpened_iff ht hbased hextended).2 hfilled place hplace hopen
    obtain ⟨D, -, htext⟩ := h.texts place hold
    rw [hopen] at htext
    cases htext
  · rw [hextended.hoisted, hbased.hoisted, List.map_append, List.mem_append, List.mem_append]
    -- The declared name has given up its place; every other alias keeps it, or has got one.
    by_cases hn : n ∈ c.binds
    · exact .inl (.inr hn)
    rcases hextended.learned n D hD with hD | hmem
    · rcases h.bound n D ((hbased.learned hD).resolve_right hn) with hmem | hmem
      · exact .inl (.inl hmem)
      · obtain ⟨place, hplace, rfl⟩ := List.mem_map.1 hmem
        refine .inr (.inl (List.mem_map_of_mem (List.mem_filter.2 ⟨hplace, ?_⟩)))
        exact decide_eq_true hn
    · exact .inr (.inr hmem)

/-- As long as every failure is harmless, every alias that is known is bound. -/
theorem Complete.run (h : Complete declared t) (ht : Idle reserved t)
    (hharmless : AllHarmless t calls) :
    Complete (declared ++ boundBy t calls) (after t calls) := by
  -- By induction on the calls; which names are declared grows with each call that succeeds.
  induction calls generalizing t declared with
  | nil =>
    rw [boundBy, List.append_nil]
    exact h
  | cons c rest ih =>
    obtain ⟨hfirst, hrest⟩ := hharmless
    have hidle := (ht.step c).1
    have hstep : Complete (declared ++ (match perform c t with
        | .ok _ _ => c.binds
        | .error _ _ => [])) (stateOf (perform c t)) := by
      cases hc : perform c t with
      | ok text u => exact h.ok ht hc
      | error f u =>
        rw [hc] at hidle
        rw [List.append_nil]
        exact h.error hidle (hfirst f u hc)
    rw [boundBy, ← List.append_assoc]
    exact ih hstep hidle hrest

/-! ### Names in texts -/

/-- Whether the text of a call refers to a name. -/
def Call.Shows : Call → String → Prop
  | .translate e _, n => e.shows n = true
  | .declare name definition _, n => n = name ∨ definition.shows n = true

/-- A call that succeeds has settled every name that its text refers to. -/
theorem settles_of_shows (ht : Idle reserved t) (hc : perform c t = .ok text u)
    (hshows : c.Shows n) : u.session.Settles n := by
  obtain ⟨-, base, hbased, hbody⟩ := Call.of_ok (ht.of_ok hc)
  obtain ⟨_, hextended, -⟩ := c.checks_body.extended_of_ok (hbased.sound ht.sound) hbody
  cases c with
  | translate e route => exact Session.settles_of_shows (hbased.sound ht.sound) hbody hshows
  | declare name definition route =>
    rcases hshows with rfl | hshows
    · exact hextended.keeps.settles (hbased.settles List.mem_cons_self)
    · by_cases hjson : name = jsonValueName
      · -- The type of arbitrary JSON is declared without a check, and its text only shows its own
        -- name.
        obtain rfl := hbased.nameable.canonical hjson
        rcases (shows_iff rfl).1 hshows with hname | ⟨_, hchild, -⟩
        · exact .inl (Option.some.inj hname).symm
        · cases hchild
      · rw [body, if_neg hjson] at hbody
        exact Session.settles_of_shows (hbased.sound ht.sound) hbody hshows

/-- What is right as long as every failure is harmless: places hold declarations, and the texts of
calls refer to nothing that is not bound. -/
structure AllBound (declared : List String) (t : Translator) : Prop where
  places : ∀ place ∈ t.session.hoisted, ∃ D, t.session.Knows place.1 D ∧
    place.2 = some (D.declarationText place.1)
  texts : ∀ c text u, perform c t = .ok text u → ∀ n, c.Shows n →
    n = jsonValueName ∨ n ∈ declared ++ c.binds ∨
      ∃ D, u.session.Knows n D ∧ (n, some (D.declarationText n)) ∈ u.session.hoisted

/-- **Calls that fail.** Take a translator after any calls. A call that fails leaves the places that
were there, but for the one that a declaration has given up, and places of new aliases after them.
If none of these is open, then the same call fails in the same way at any later time; if one is
open, it never does. A call without new aliases leaves the places as they were, unless it gives one
up, and does no harm. If all failures so far were harmless, then every place holds the declaration
of its alias, and every name in the text of a call that succeeds is that of arbitrary JSON, or
declared by one of the calls, or has a place with its declaration. -/
theorem failing_calls (reserved : List String) (calls : List Call) :
    (∀ c f u, perform c (after (new reserved) calls) = .error f u →
      Failure c (after (new reserved) calls) f u) ∧
    (AllHarmless (new reserved) calls →
      AllBound (boundBy (new reserved) calls) (after (new reserved) calls)) := by
  have h := idle_after reserved calls
  refine ⟨fun c f u hc => failure_of_error h hc, fun hharmless => ?_⟩
  have hcomplete := (complete_new reserved).run (idle_new reserved) hharmless
  rw [List.nil_append] at hcomplete
  refine ⟨hcomplete.texts, fun c text u hc n hshows => ?_⟩
  have hlater := hcomplete.ok h hc
  rcases settles_of_shows h hc hshows with hjson | hsome
  · exact .inl hjson
  · obtain ⟨D, hD⟩ := Option.isSome_iff_exists.1 hsome
    refine .inr ((hlater.bound n D hD).imp_right fun hmem => ?_)
    -- The place of the alias has its declaration, since all places do.
    obtain ⟨place, hplace, rfl⟩ := List.mem_map.1 hmem
    obtain ⟨known, hknown, htext⟩ := hlater.texts place hplace
    exact ⟨known, hknown, htext ▸ hplace⟩

/-- An alias with a reference that nothing resolves. -/
def brokenAlias : Call := .translate (.alias "A" (.reference "B")) []

/-- A history with a failure that does no harm. -/
def treeCalls : List Call :=
  [.translate (.alias "Tree" (.listOf (.reference "Tree"))) [], .translate (.reference "B") []]

theorem failing_calls_tree :
    AllHarmless (new []) treeCalls ∧
      AllBound (boundBy (new []) treeCalls) (after (new []) treeCalls) ∧
      ∃ f u, perform brokenAlias (after (new []) treeCalls) = .error f u ∧
        Failure brokenAlias (after (new []) treeCalls) f u := by
  have hharmless : AllHarmless (new []) treeCalls := by
    refine ⟨nofun, fun f u h => ?_, trivial⟩
    cases h
    exact ⟨fun _ h => h, fun _ h _ => h, fun _ _ h => .inl h⟩
  obtain ⟨hfailure, hbound⟩ := failing_calls [] treeCalls
  exact ⟨hharmless, hbound hharmless, _, _, rfl, hfailure brokenAlias _ _ rfl⟩

/-- The failure of the alias opens a place that stays open, and the same call succeeds after it,
with a text that refers to an alias without a declaration. -/
theorem brokenAlias_passes_next_time :
    ∃ u, perform brokenAlias (new []) = .error ⟨.unresolved "B", ["A"]⟩ u ∧
      (new []).hoistedTexts = [] ∧ u.hoistedTexts = [""] ∧
      perform brokenAlias u = .ok "A" u :=
  ⟨_, rfl, rfl, rfl, rfl⟩

end BoundaryTypes.Translator
