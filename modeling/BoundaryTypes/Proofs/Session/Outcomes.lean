/-
  `Outcomes` — what a check does to a session, also when it fails.

  A fault ends a check wherever it comes, inside any number of definitions, and what the
  check has done by then stays. The session is sound all the same (`Sound`), and it differs
  from the one before by places at the end (`Extended`): one for each alias that was new,
  open still if the fault came inside the definition, and filled otherwise.

  Hence what a second attempt meets. A check that ended well does nothing more. One that
  failed without leaving a place open fails again in the same way (`Checks.fails_again`). If
  it left one open, then the alias that it failed in is known by then and is passed over, so
  that the same fault never comes back (`Checks.never_again`).
-/
import BoundaryTypes.Proofs.Session.Checks
import BoundaryTypes.Proofs.TypeExpr.Mentions

namespace BoundaryTypes.Session

open Outcome TypeExpr

variable {scopes : List String} {route : Route} {name n : String} {definition D e : TypeExpr}
  {met : List (String × TypeExpr)} {fresh later : List (String × Option String)}
  {s t u w : Session} {f : TypeFault} {P : Route → Prop} {x : SessionM Unit}

/-! ### Sound sessions -/

/-- What holds of a session at any time, inside the definitions of the aliases in `scopes`. -/
structure Sound (scopes : List String) (s : Session) : Prop where
  registered : ∀ n D, s.Knows n D → Nameable s.reserved n D ∧ n ≠ jsonValueName
  /-- A place is that of a known alias, and has no text but the declaration of the alias. -/
  places : ∀ place ∈ s.hoisted, ∃ D, s.Knows place.1 D ∧
    ∀ text, place.2 = some text → text = D.declarationText place.1
  inside : Inside scopes s

theorem sound_empty (reserved : List String) : Sound [] (empty reserved) :=
  ⟨fun _ _ h => absurd h (not_knows_of_eq_none rfl), fun _ h => absurd h List.not_mem_nil,
    fun _ h => absurd h List.not_mem_nil⟩

/-- An alias that is not known has no place. -/
theorem Sound.not_mem (h : Sound scopes s) (hunknown : s.definition? n = none) :
    n ∉ s.hoisted.map (·.1) := by
  intro hmem
  obtain ⟨place, hplace, rfl⟩ := List.mem_map.1 hmem
  obtain ⟨D, hD, -⟩ := h.places place hplace
  exact not_knows_of_eq_none hunknown hD

theorem Sound.define (h : Sound scopes s) (hnew : New s name definition) :
    Sound (name :: scopes) (s.define name definition) := by
  have hkeeps := keeps_define definition hnew.unknown
  refine ⟨fun n D hD => ?_, fun place hplace => ?_, ?_⟩
  · rcases knows_define_iff.1 hD with ⟨rfl, rfl⟩ | ⟨-, hD⟩
    · exact ⟨hnew.nameable, hnew.proper⟩
    · exact h.registered n D hD
  · obtain ⟨D, hD, htext⟩ := h.places place hplace
    exact ⟨D, hkeeps.knows _ _ hD, htext⟩
  · exact List.forall_mem_cons.2 ⟨settles_of_knows knows_define, h.inside.mono hkeeps⟩

theorem Sound.enter (h : Sound scopes s) (hnew : New s name definition) :
    Sound (name :: scopes) (s.enter name definition) := by
  obtain ⟨hregistered, hplaces, hinside⟩ := h.define hnew
  refine ⟨hregistered, fun place hplace => ?_, hinside⟩
  rcases List.mem_append.1 hplace with hplace | hplace
  · exact hplaces place hplace
  · obtain rfl := List.mem_singleton.1 hplace
    exact ⟨definition, knows_define, nofun⟩

theorem Sound.closePlace (h : Sound scopes s) : Sound scopes (s.closePlace name) :=
  ⟨h.registered, fun place hplace => h.places place (List.mem_filter.1 hplace).1, h.inside⟩

/-! ### Places at the end -/

/-- A place of an alias that was new, open still or filled with its declaration. -/
def Opened (met : List (String × TypeExpr)) (s t : Session) (place : String × Option String) :
    Prop :=
  ∃ D, (place.1, D) ∈ met ∧ New s place.1 D ∧ t.Knows place.1 D ∧
    ∀ text, place.2 = some text → text = D.declarationText place.1

/-- A later session, with places at the end for the aliases that it has got to know. -/
structure Extended (met : List (String × TypeExpr)) (s : Session)
    (fresh : List (String × Option String)) (t : Session) : Prop where
  keeps : s.Keeps t
  hoisted : t.hoisted = s.hoisted ++ fresh
  opened : ∀ place ∈ fresh, Opened met s t place
  learned : ∀ n D, t.Knows n D → s.Knows n D ∨ n ∈ fresh.map (·.1)

/-- No place is open. -/
def Filled (places : List (String × Option String)) : Prop :=
  ∀ place ∈ places, place.2.isSome = true

theorem filled_append : Filled (fresh ++ later) ↔ Filled fresh ∧ Filled later :=
  List.forall_mem_append

theorem Extended.refl (s : Session) : Extended met s [] s :=
  ⟨.refl s, (List.append_nil _).symm, nofun, fun _ _ h => .inl h⟩

theorem New.of_keeps (h : New t n D) (hst : s.Keeps t) : New s n D := by
  refine ⟨hst.reserved ▸ h.nameable, h.proper, ?_⟩
  cases hn : s.definition? n with
  | none => rfl
  | some known => exact absurd (hst.knows n known hn) (not_knows_of_eq_none h.unknown)

theorem Extended.trans (h : Extended met s fresh t) (h' : Extended met t later u) :
    Extended met s (fresh ++ later) u := by
  refine ⟨h.keeps.trans h'.keeps, ?_, fun place hplace => ?_, fun n D hD => ?_⟩
  · rw [h'.hoisted, h.hoisted, List.append_assoc]
  · rcases List.mem_append.1 hplace with hplace | hplace
    · obtain ⟨D, hmet, hnew, hD, htext⟩ := h.opened place hplace
      exact ⟨D, hmet, hnew, h'.keeps.knows _ _ hD, htext⟩
    · obtain ⟨D, hmet, hnew, hD, htext⟩ := h'.opened place hplace
      exact ⟨D, hmet, hnew.of_keeps h.keeps, hD, htext⟩
  · rw [List.map_append, List.mem_append]
    rcases h'.learned n D hD with hD | hmem
    · exact (h.learned n D hD).imp_right .inl
    · exact .inr (.inr hmem)

theorem Extended.sound (h : Extended met s fresh t) (hs : Sound scopes s) : Sound scopes t := by
  refine ⟨fun n D hD => ?_, fun place hplace => ?_, hs.inside.mono h.keeps⟩
  · rw [h.keeps.reserved]
    rcases h.learned n D hD with hD | hmem
    · exact hs.registered n D hD
    · -- An alias that was learned has its place at the end, and was new at that time.
      obtain ⟨place, hplace, rfl⟩ := List.mem_map.1 hmem
      obtain ⟨D', -, hnew, hD', -⟩ := h.opened place hplace
      obtain rfl := hD.unique hD'
      exact ⟨hnew.nameable, hnew.proper⟩
  · rw [h.hoisted] at hplace
    rcases List.mem_append.1 hplace with hplace | hplace
    · obtain ⟨D, hD, htext⟩ := hs.places place hplace
      exact ⟨D, h.keeps.knows _ _ hD, htext⟩
    · obtain ⟨D, -, -, hD, htext⟩ := h.opened place hplace
      exact ⟨D, hD, htext⟩

/-- An alias that was settled before has no place at the end. -/
theorem Extended.not_mem (h : Extended met s fresh t) (hn : s.Settles n) :
    n ∉ fresh.map (·.1) := by
  intro hmem
  obtain ⟨place, hplace, rfl⟩ := List.mem_map.1 hmem
  obtain ⟨D, -, hnew, -⟩ := h.opened place hplace
  exact hnew.not_settles hn

/-- A new alias whose definition was left by a fault has an open place. -/
theorem Extended.leave (hmet : (name, definition) ∈ met) (hnew : New s name definition)
    (h : Extended met (s.enter name definition) fresh t) :
    Extended met s ((name, none) :: fresh) t := by
  have hkeeps := keeps_enter definition hnew.unknown
  refine ⟨hkeeps.trans h.keeps, ?_, List.forall_mem_cons.2 ⟨?_, fun place hplace => ?_⟩,
    fun n D hD => ?_⟩
  · rw [h.hoisted]
    exact List.append_assoc _ _ _
  · exact ⟨definition, hmet, hnew, h.keeps.knows _ _ knows_enter, nofun⟩
  · obtain ⟨D, hmet, hnew, hD, htext⟩ := h.opened place hplace
    exact ⟨D, hmet, hnew.of_keeps hkeeps, hD, htext⟩
  · rw [List.map_cons, List.mem_cons]
    rcases h.learned n D hD with hD | hmem
    · -- Entering makes one alias known, the one that has the first place.
      have hdefined : (s.define name definition).Knows n D := hD
      rcases knows_define_iff.1 hdefined with ⟨rfl, -⟩ | ⟨-, hD⟩
      · exact .inr (.inl rfl)
      · exact .inl hD
    · exact .inr (.inr hmem)

/-- A new alias whose definition was checked to its end has a filled place. -/
theorem Extended.fill (hmet : (name, definition) ∈ met) (hnew : New s name definition)
    (hs : Sound scopes s) (h : Extended met (s.enter name definition) fresh t) :
    Extended met s ((name, some (definition.declarationText name)) :: fresh)
      (t.fillPlace name (definition.declarationText name)) := by
  obtain ⟨hkeeps, hhoisted, hopened, hlearned⟩ := h.leave hmet hnew
  rw [List.forall_mem_cons] at hopened
  refine ⟨hkeeps.trans (keeps_fillPlace _ _ _), ?_, List.forall_mem_cons.2 ⟨?_, hopened.2⟩, ?_⟩
  · -- Only the place of this alias is filled: the earlier ones and those inside are of other names.
    rw [fillPlace, hhoisted, List.map_append, List.map_cons, if_pos rfl,
      map_fillPlace_of_not_mem (hs.not_mem hnew.unknown),
      map_fillPlace_of_not_mem (h.not_mem (settles_of_knows knows_enter))]
  · exact ⟨definition, hmet, hnew, h.keeps.knows _ _ knows_enter,
      fun text htext => (Option.some.inj htext).symm⟩
  · exact hlearned

/-- A check, however it ends, adds places at the end; all of them are filled if it ends well. -/
theorem Checks.extended (h : Checks met scopes P x) (hs : Sound scopes s) :
    ∃ fresh, Extended met s fresh (stateOf (x s)) ∧ ∀ t, x s = .ok () t → Filled fresh := by
  -- By induction on the check, for every sound session that it may begin in.
  induction h generalizing s with
  | done => exact ⟨[], .refl s, nofun⟩
  | refuse h => exact ⟨[], .refl s, nofun⟩
  | @seq scopes P Q x y hx hy apart ihx ihy =>
    obtain ⟨fresh, hfirst, hfilled⟩ := ihx hs
    cases hrun : x s with
    | error f t =>
      rw [hrun] at hfirst
      rw [bind_run_of_error _ hrun]
      exact ⟨fresh, hfirst, nofun⟩
    | ok _ t =>
      rw [hrun] at hfirst
      -- The second part begins where the first one ended, which is sound again.
      obtain ⟨later, hsecond, hfilled'⟩ := ihy (hfirst.sound hs)
      rw [bind_run_of_ok _ hrun]
      refine ⟨fresh ++ later, hfirst.trans hsecond, fun u hu => ?_⟩
      exact filled_append.2 ⟨hfilled t hrun, hfilled' u hu⟩
  | @visit scopes P route name definition inside hmet hinside ih =>
    generalize hvisit : Session.visit scopes route name definition inside s = result
    cases visited hs.inside hvisit with
    | refused h => exact ⟨[], .refl s, nofun⟩
    | passed h => exact ⟨[], .refl s, nofun⟩
    | failed hnew hrun =>
      obtain ⟨fresh, hextended, -⟩ := ih (hs.enter hnew)
      rw [hrun] at hextended
      exact ⟨_, hextended.leave hmet hnew, nofun⟩
    | entered hnew hrun =>
      obtain ⟨fresh, hextended, hfilled⟩ := ih (hs.enter hnew)
      rw [hrun] at hextended
      exact ⟨_, hextended.fill hmet hnew hs,
        fun _ _ => List.forall_mem_cons.2 ⟨rfl, hfilled _ hrun⟩⟩
  | mono h hPQ ih => exact ih hs

theorem Checks.extended_of_ok (h : Checks met scopes P x) (hs : Sound scopes s)
    (hx : x s = .ok () t) : ∃ fresh, Extended met s fresh t ∧ Filled fresh := by
  obtain ⟨fresh, hextended, hfilled⟩ := h.extended hs
  rw [hx] at hextended
  exact ⟨fresh, hextended, hfilled t hx⟩

theorem Checks.extended_of_error (h : Checks met scopes P x) (hs : Sound scopes s)
    (hx : x s = .error f t) : ∃ fresh, Extended met s fresh t := by
  obtain ⟨fresh, hextended, -⟩ := h.extended hs
  rw [hx] at hextended
  exact ⟨fresh, hextended⟩

/-! ### A second attempt -/

/-- A check that ended well does nothing ever after. -/
theorem Checks.again (h : Checks met scopes P x) (hs : Sound scopes s) (hx : x s = .ok () t)
    (hw : t.Keeps w) : x w = .ok () w := by
  -- `w` is any later session: the parts of the check meet it one after another, unchanged.
  induction h generalizing s t with
  | done => rfl
  | refuse h => cases hx
  | seq hx' hy apart ihx ihy =>
    obtain ⟨_, u, hfirst, hrest⟩ := bind_run_eq_ok.1 hx
    obtain ⟨_, hextended, -⟩ := hx'.extended_of_ok hs hfirst
    have hu := hextended.sound hs
    obtain ⟨_, hextended, -⟩ := hy.extended_of_ok hu hrest
    rw [bind_run_of_ok _ (ihx hs hfirst (hextended.keeps.trans hw))]
    exact ihy hu hrest hw
  | visit hmet hinside ih =>
    -- Either way the alias is settled by now, so it is passed over.
    cases visited hs.inside hx with
    | passed h => exact visit_of_familiar (h.mono hw)
    | entered hnew hrun =>
      obtain ⟨_, hextended, -⟩ := hinside.extended_of_ok (hs.enter hnew) hrun
      have hkeeps := (hextended.keeps.trans (keeps_fillPlace _ _ _)).trans hw
      exact visit_of_familiar (hnew.familiar hkeeps)
  | mono h hPQ ih => exact ih hs hx hw

/-- A fault of a check comes at one of its routes. -/
theorem Checks.route_of_error (h : Checks met scopes P x) (hs : Sound scopes s)
    (hx : x s = .error f t) : P f.route := by
  induction h generalizing s t with
  | done => cases hx
  | refuse h =>
    cases hx
    exact h
  | seq hx' hy apart ihx ihy =>
    rcases bind_run_eq_error.1 hx with hx | ⟨_, u, hfirst, hx⟩
    · exact .inl (ihx hs hx)
    · obtain ⟨_, hextended, -⟩ := hx'.extended_of_ok hs hfirst
      exact .inr (ihy (hextended.sound hs) hx)
  | visit hmet hinside ih =>
    cases visited hs.inside hx with
    | refused h => exact .inl h.route_eq
    | failed hnew hrun => exact .inr (ih (hs.enter hnew) hrun)
  | mono h hPQ ih => exact hPQ _ (ih hs hx)

theorem Extended.eq_of_hoisted (h : Extended met s fresh t)
    (hhoisted : t.hoisted = s.hoisted ++ later) : later = fresh := by
  rw [h.hoisted] at hhoisted
  exact (List.append_cancel_left hhoisted).symm

/-- A check that failed without leaving a place open fails in the same way ever after. -/
theorem Checks.fails_again (h : Checks met scopes P x) (hs : Sound scopes s)
    (hx : x s = .error f t) (hfresh : t.hoisted = s.hoisted ++ fresh) (hfilled : Filled fresh)
    (hw : t.Keeps w) : x w = .error f w := by
  induction h generalizing s t fresh with
  | done => cases hx
  | refuse h =>
    cases hx
    rfl
  | seq hx' hy apart ihx ihy =>
    rcases bind_run_eq_error.1 hx with hx | ⟨_, u, hfirst, hx⟩
    · exact bind_run_of_error _ (ihx hs hx hfresh hfilled hw)
    · -- The first part ended well, so it is passed over, and the fault is that of the second again.
      obtain ⟨early, hextended, -⟩ := hx'.extended_of_ok hs hfirst
      have hu := hextended.sound hs
      obtain ⟨late, hrest⟩ := hy.extended_of_error hu hx
      obtain rfl := (hextended.trans hrest).eq_of_hoisted hfresh
      rw [bind_run_of_ok _ (hx'.again hs hfirst (hrest.keeps.trans hw))]
      exact ihy hu hx hrest.hoisted (filled_append.1 hfilled).2 hw
  | visit hmet hinside ih =>
    cases visited hs.inside hx with
    | refused h => exact visit_of_refused (h.mono hw)
    | failed hnew hrun =>
      -- A fault inside an alias would have left its place open.
      obtain ⟨later, hextended⟩ := hinside.extended_of_error (hs.enter hnew) hrun
      obtain rfl := (hextended.leave hmet hnew).eq_of_hoisted hfresh
      exact nomatch hfilled _ List.mem_cons_self
  | mono h hPQ ih => exact ih hs hx hfresh hfilled hw

/-- The fault of a check that left a place open never comes back. -/
theorem Checks.never_again (h : Checks met scopes P x) (hs : Sound scopes s)
    (hx : x s = .error f t) (hfresh : t.hoisted = s.hoisted ++ fresh) (hopen : ¬ Filled fresh)
    (hw : t.Keeps w) (hsound : Sound scopes w) : x w ≠ .error f u := by
  induction h generalizing s t u fresh with
  | done => cases hx
  | refuse h =>
    cases hx
    obtain rfl := List.self_eq_append_right.1 hfresh
    exact absurd nofun hopen
  | seq hx' hy apart ihx ihy =>
    intro hagain
    rcases bind_run_eq_error.1 hx with hx | ⟨_, v, hfirst, hx⟩
    · -- The second attempt passes over the alias; a later part has its faults elsewhere.
      rcases bind_run_eq_error.1 hagain with hagain | ⟨_, v, hpassed, hagain⟩
      · exact ihx hs hx hfresh hopen hw hsound hagain
      · obtain ⟨_, hextended, -⟩ := hx'.extended_of_ok hsound hpassed
        exact apart _ (hx'.route_of_error hs hx)
          (hy.route_of_error (hextended.sound hsound) hagain)
    · obtain ⟨early, hextended, hfilled⟩ := hx'.extended_of_ok hs hfirst
      have hv := hextended.sound hs
      obtain ⟨late, hrest⟩ := hy.extended_of_error hv hx
      obtain rfl := (hextended.trans hrest).eq_of_hoisted hfresh
      rw [bind_run_of_ok _ (hx'.again hs hfirst (hrest.keeps.trans hw))] at hagain
      exact ihy hv hx hrest.hoisted (fun h => hopen (filled_append.2 ⟨hfilled, h⟩)) hw hsound hagain
  | visit hmet hinside ih =>
    cases visited hs.inside hx with
    | refused h =>
      obtain rfl := List.self_eq_append_right.1 hfresh
      exact absurd nofun hopen
    | failed hnew hrun =>
      -- The alias with the open place is known, so nothing inside it is looked at again.
      obtain ⟨_, hextended⟩ := hinside.extended_of_error (hs.enter hnew) hrun
      rw [visit_of_familiar (hnew.familiar (hextended.keeps.trans hw))]
      exact nofun
  | mono h hPQ ih => exact ih hs hx hfresh hopen hw hsound

/-! ### Names that a text shows -/

theorem extended_of_check (hs : Sound scopes s) (h : check scopes route e s = .ok () t) :
    ∃ fresh, Extended e.aliases s fresh t ∧ Filled fresh :=
  (checks_check e (fun _ ha => ha) scopes route).extended_of_ok hs h

/-- Checks of types one after another settle what each of the types shows. -/
theorem settles_of_checkAll {jobs : List (Route × TypeExpr)}
    (ih : ∀ job ∈ jobs, ∀ {s t}, Sound scopes s → check scopes job.1 job.2 s = .ok () t →
      job.2.shows n = true → t.Settles n)
    (hs : Sound scopes s) (h : checkAll scopes jobs s = .ok () t) :
    s.Keeps t ∧ ((∃ job ∈ jobs, job.2.shows n = true) → t.Settles n) := by
  induction jobs generalizing s with
  | nil =>
    obtain rfl := checkAll_nil_iff.1 h
    exact ⟨.refl t, fun ⟨_, hjob, _⟩ => absurd hjob List.not_mem_nil⟩
  | cons job rest ihrest =>
    rw [List.forall_mem_cons] at ih
    obtain ⟨u, hcheck, hrest⟩ := checkAll_cons_iff.1 h
    obtain ⟨_, hextended, -⟩ := extended_of_check hs hcheck
    obtain ⟨hkeeps, hsettles⟩ := ihrest ih.2 (hextended.sound hs) hrest
    refine ⟨hextended.keeps.trans hkeeps, ?_⟩
    rintro ⟨other, hother, hshows⟩
    -- What the first type shows is settled by its own check, and stays so.
    rcases List.mem_cons.1 hother with rfl | hother
    · exact hkeeps.settles (ih.1 hs hcheck hshows)
    · exact hsettles ⟨other, hother, hshows⟩

/-- A check that ends well has settled every name that the text of the type shows. -/
theorem settles_of_shows (hs : Sound scopes s) (h : check scopes route e s = .ok () t)
    (hshows : e.shows n = true) : t.Settles n := by
  induction e generalizing scopes route s t with
  | primitive kind =>
    obtain ⟨_, hchild, -⟩ := exists_child_of_shows hshows rfl
    cases hchild
  | literal value =>
    obtain ⟨_, hchild, -⟩ := exists_child_of_shows hshows rfl
    cases hchild
  | reference name =>
    obtain ⟨hmem, rfl⟩ := check_reference_iff.1 h
    rcases (shows_iff rfl).1 hshows with hname | ⟨_, hchild, -⟩
    · exact Option.some.inj hname ▸ hs.inside name hmem
    · cases hchild
  | optional e ih => exact absurd h check_optional_ne_ok
  | listOf e ih =>
    obtain ⟨_, hchild, hinside⟩ := exists_child_of_shows hshows rfl
    obtain rfl := List.mem_singleton.1 hchild
    exact ih hs h hinside
  | dictOf e ih =>
    obtain ⟨_, hchild, hinside⟩ := exists_child_of_shows hshows rfl
    obtain rfl := List.mem_singleton.1 hchild
    exact ih hs h hinside
  | record fields ih =>
    obtain ⟨-, hall⟩ := check_record_iff.1 h
    refine (settles_of_checkAll ?_ hs hall).2 ?_
    · exact List.forall_mem_map.2 fun f hf _ _ => (ih f hf).2
    · obtain ⟨_, hchild, hinside⟩ := exists_child_of_shows hshows rfl
      obtain ⟨f, hf, rfl⟩ := List.mem_map.1 hchild
      exact ⟨_, List.mem_map_of_mem hf, shows_iff_unmarked.1 hinside⟩
  | union variants ih =>
    obtain ⟨-, hall⟩ := check_union_iff.1 h
    refine (settles_of_checkAll ?_ hs hall).2 ?_
    · exact List.forall_mem_map.2 fun v hv _ _ => ih v hv
    · obtain ⟨v, hv, hinside⟩ := shows_union.1 hshows
      exact ⟨_, List.mem_map_of_mem hv, hinside⟩
  | «alias» name definition ih =>
    obtain rfl := shows_alias.1 hshows
    rw [check_alias] at h
    -- The text of an alias shows its name, whatever its definition holds.
    cases visited hs.inside h with
    | passed hfamiliar => exact hfamiliar.settles
    | entered hnew hrun =>
      obtain ⟨_, hextended, -⟩ := extended_of_check (hs.enter hnew) hrun
      exact ((hnew.familiar hextended.keeps).mono (keeps_fillPlace _ _ _)).settles

end BoundaryTypes.Session
