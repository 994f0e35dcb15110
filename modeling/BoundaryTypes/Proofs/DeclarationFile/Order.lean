/-
  `Order` — which names a declaration file binds, and in which order.

  A place is opened when its alias is first met, before its definition is checked, and
  a copy that is met again opens none. So the places stand in the order in which the
  visit of the declared types comes to their names (`Listed`). A declaration keeps this
  (`Listed.declare`): it gives up the place of its own alias, and the order of the others
  is that of the longer visit.

  The name of arbitrary JSON is looked for in the types of the module, not in the
  texts. Both come to the same: a type that mentions the name has it in its own text or in
  that of an alias inside it (`mentions_cases`), and every alias has its text in the file.
-/
import BoundaryTypes.Proofs.DeclarationFile.Closed
import BoundaryTypes.Proofs.TypeExpr.Mentions
import Mathlib.Data.List.Basic

namespace BoundaryTypes

/-! ### The order of places -/

/-- First occurrences may be taken before or after a choice of entries. -/
theorem eraseDups_filter {α : Type} [BEq α] [LawfulBEq α] (p : α → Bool) (entries : List α) :
    (entries.filter p).eraseDups = entries.eraseDups.filter p := by
  match entries with
  | [] => rfl
  | a :: rest =>
    have hrest := eraseDups_filter p (rest.filter fun b => !b == a)
    rw [List.eraseDups_cons]
    cases hp : p a with
    | true =>
      rw [List.filter_cons_of_pos hp, List.filter_cons_of_pos hp, List.eraseDups_cons, ← hrest,
        List.filter_filter, List.filter_filter]
      simp only [Bool.and_comm]
    | false =>
      -- An entry that is not chosen is no copy of a chosen one.
      have hne : ∀ b ∈ rest, (p b && !b == a) = p b := by
        intro b _
        by_cases hb : b = a
        · rw [hb, hp]; rfl
        · simp [hb]
      rw [List.filter_cons_of_neg (by simp [hp]), List.filter_cons_of_neg (by simp [hp]), ← hrest,
        List.filter_filter, List.filter_congr hne]
termination_by entries.length
decreasing_by exact Nat.lt_succ_of_le (List.length_filter_le _ _)

namespace Session

open TypeExpr

variable {s : Session}

theorem settles_meet_iff {a : String × TypeExpr} {n : String} :
    (s.meet a).Settles n ↔ s.Settles n ∨ n = a.1 := by
  by_cases ha : s.Settles a.1
  · rw [meet_of_settles ha]
    exact (or_iff_left_of_imp fun h => h ▸ ha).symm
  · have hdefinition : ((s.meet a).definition? n).isSome = true ↔
        ((s.define a.1 a.2).definition? n).isSome = true := by
      rw [meet_of_not_settles ha]
      rfl
    rw [Settles, hdefinition, definition?_define, Settles]
    split
    · next h => simp [h]
    · next h => simp [h]

/-- The aliases that a session meets get places in the order in which it first meets their
names. -/
theorem map_fst_learn {met : List (String × TypeExpr)} :
    (s.learn met).hoisted.map (·.1) = s.hoisted.map (·.1) ++
      ((met.map (·.1)).filter fun n => ¬ s.Settles n).eraseDups := by
  induction met generalizing s with
  | nil => simp [learn]
  | cons a met ih =>
    rw [learn_cons, ih, List.map_cons]
    -- A name that is settled gets no place. Another one gets the next, and its later copies get
    -- none.
    by_cases ha : s.Settles a.1
    · rw [meet_of_settles ha, List.filter_cons_of_neg (by simpa using ha)]
    · rw [map_fst_meet ha, List.filter_cons_of_pos (by simpa using ha), List.eraseDups_cons,
        List.filter_filter, List.append_assoc, List.singleton_append]
      congr 3
      refine List.filter_congr fun n _ => ?_
      rw [Bool.eq_iff_iff]
      simp [settles_meet_iff, and_comm]

variable {tops : List String} {name : String}

theorem Placed.settles_iff (h : Placed tops s) {n : String} :
    s.Settles n ↔ n = jsonValueName ∨ n ∈ tops ++ s.hoisted.map (·.1) := by
  rw [← h.bound n, Settles, Option.isSome_iff_exists]
  rfl

end Session

namespace DeclarationFile

open Outcome TypeExpr

variable {reserved : List String} {s s' : Session} {done todo : List (String × TypeExpr)}
  {b : String × TypeExpr} {names : DeclarationNames} {d : Descriptor} {f : DeclarationFile}

/-- The names that have no place among the aliases inside declared types: their own, and that of
arbitrary JSON. -/
def boundElsewhere (done : List (String × TypeExpr)) : List String :=
  jsonValueName :: done.map (·.1)

/-- The other names of aliases in declared types, each where the visit of the types first comes to
it. -/
def namesInside (done : List (String × TypeExpr)) : List String :=
  (((done.flatMap fun b => b.2.walk).filterMap fun p => p.alias?.map (·.1)).filter fun n =>
    n ∉ boundElsewhere done).eraseDups

theorem mem_boundElsewhere_append {n : String} :
    n ∈ boundElsewhere (done ++ [b]) ↔ n ∈ boundElsewhere done ∨ n = b.1 := by
  rw [boundElsewhere, List.map_append, ← List.cons_append, List.mem_append]
  exact or_congr_right List.mem_singleton

theorem filterMap_walk (done : List (String × TypeExpr)) :
    ((done.flatMap fun b => b.2.walk).filterMap fun p => p.alias?.map (·.1)) =
      done.flatMap fun b => b.2.aliases.map (·.1) := by
  rw [List.filterMap_flatMap]
  refine congrArg (List.flatMap · done) (funext fun b => ?_)
  rw [walk_eq_preorder, aliases, List.map_filterMap]

/-- The places of a session hold the aliases inside those that it has declared, in the order of the
visit. -/
def Listed (done : List (String × TypeExpr)) (s : Session) : Prop :=
  s.hoisted.map (·.1) = namesInside done

/-- A declaration keeps the order of the places. -/
theorem Listed.declare {text : String} (h : Listed done s)
    (hs : Declaring reserved done.reverse s) (hb : Declarable done.reverse b.1)
    (hdeclare : Session.declare b.1 b.2 [] s = .ok text s') : Listed (done ++ [b]) s' := by
  obtain ⟨new, t, hregistered, hstate⟩ := (Session.declare_sound hb.1 hs.settled hdeclare).state
  have hplaced := hs.placed.declare hb.1 hb.2 hregistered
  have hhoisted : t.hoisted = s.hoisted := by
    cases hregistered <;> rfl
  -- The place of the declared alias is given up, and the others stay in their order.
  have hkept : (t.closePlace b.1).hoisted.map (·.1) =
      ((done.flatMap fun a => a.2.aliases.map (·.1)).filter fun n =>
        n ∉ boundElsewhere (done ++ [b])).eraseDups := by
    rw [Session.map_fst_closePlace, hhoisted, h, namesInside, filterMap_walk, ← eraseDups_filter,
      List.filter_filter]
    congr 2
    funext n
    rw [Bool.eq_iff_iff]
    simp [mem_boundElsewhere_append, and_comm]
  rw [Listed, hstate, Session.map_fst_learn, namesInside, filterMap_walk, List.flatMap_append,
    List.flatMap_singleton, List.filter_append, List.eraseDups_append, hkept]
  congr 2
  rw [List.removeAll, List.filter_filter]
  refine List.filter_congr fun n _ => ?_
  have htops : n = jsonValueName ∨ n ∈ b.1 :: done.reverse.map (·.1) ↔
      n ∈ boundElsewhere (done ++ [b]) := by
    rw [mem_boundElsewhere_append, boundElsewhere, List.map_reverse]
    simp only [List.mem_cons, List.mem_reverse]
    rw [or_assoc, or_comm (a := n ∈ _)]
  -- Settled are the names that have no place, and those of the aliases that were visited.
  have hsettles : (t.closePlace b.1).Settles n ↔ n ∈ boundElsewhere (done ++ [b]) ∨
      n ∈ done.flatMap fun a => a.2.aliases.map (·.1) := by
    rw [hplaced.settles_iff, List.mem_append, ← or_assoc, htops, hkept, List.mem_eraseDups,
      List.mem_filter]
    by_cases hn : n ∈ boundElsewhere (done ++ [b]) <;> simp [hn]
  rw [Bool.eq_iff_iff]
  simp only [decide_not, Bool.not_eq_true', decide_eq_false_iff_not, hsettles, Bool.and_eq_true]
  by_cases hn : n ∈ boundElsewhere (done ++ [b]) <;> simp [hn]

/-- A run of declarations keeps the order of the places. -/
theorem Listed.run {top : List Declaration} (h : Listed done s)
    (hs : Declaring reserved done.reverse s) (htodo : DeclarableAll done.reverse todo)
    (hrun : declareAll todo s = .ok top s') : Listed (done ++ todo) s' := by
  induction todo generalizing done s top with
  | nil =>
    obtain ⟨-, rfl⟩ := pure_run_eq_ok.1 hrun
    rw [List.append_nil]
    exact h
  | cons b rest ih =>
    obtain ⟨text, t, others, htext, hothers, -⟩ := declareAll_cons_iff.1 hrun
    have hreverse : (done ++ [b]).reverse = b :: done.reverse := List.reverse_append
    have ht := ih (h.declare hs htodo.1 htext) (hreverse ▸ (hs.step htodo.1 htext).1)
      (hreverse ▸ htodo.2) hothers
    rw [List.append_assoc] at ht
    exact ht

/-! ### What a file binds -/

/-- The aliases in the places of a session, with the definitions that it knows. -/
def placedAliases (s : Session) : List (String × TypeExpr) :=
  s.hoisted.filterMap fun place => (s.definition? place.1).map (place.1, ·)

theorem map_placedAliases {β : Type} {tops : List String} (h : Session.Placed tops s)
    (g : String × TypeExpr → β) (k : String × Option String → β)
    (hg : ∀ place D, place.2 = some (D.declarationText place.1) → g (place.1, D) = k place) :
    (placedAliases s).map g = s.hoisted.map k := by
  rw [placedAliases, List.map_filterMap, ← List.filterMap_eq_map]
  refine List.filterMap_congr fun place hplace => ?_
  obtain ⟨D, hD, htext⟩ := h.texts place hplace
  rw [hD]
  exact congrArg some (hg place D htext)

theorem map_fst_placedAliases {tops : List String} (h : Session.Placed tops s) :
    (placedAliases s).map (·.1) = s.hoisted.map (·.1) :=
  map_placedAliases h _ _ fun _ _ _ => rfl

theorem map_declaration_placedAliases {tops : List String} (h : Session.Placed tops s) :
    (placedAliases s).map declaration = hoistedDeclarations s := by
  refine map_placedAliases h _ _ fun place D htext => ?_
  rw [htext]
  rfl

/-- The aliases that a file binds before arbitrary JSON are those that its session knows. -/
theorem mem_bound_iff (h : Assembled names d f s) {a : String × TypeExpr} :
    a ∈ tops names d ++ placedAliases s ↔ s.Knows a.1 a.2 := by
  rw [List.mem_append]
  constructor
  · rintro (ha | ha)
    · exact h.knows_top ha
    · obtain ⟨place, -, hplace⟩ := List.mem_filterMap.1 ha
      obtain ⟨D, hD, rfl⟩ := Option.map_eq_some_iff.1 hplace
      exact hD
  · intro ha
    -- A known name is one at the top level or that of a place, and has one definition.
    rcases List.mem_append.1 ((mem_names_iff h).2 ⟨a.2, ha⟩) with hmem | hmem
    · obtain ⟨b, hb, hname⟩ := List.mem_map.1 hmem
      have hknows := h.knows_top hb
      rw [hname] at hknows
      have heq : b = a := Prod.ext hname (hknows.unique ha)
      exact .inl (heq ▸ hb)
    · obtain ⟨place, hplace, hname⟩ := List.mem_map.1 hmem
      refine .inr (List.mem_filterMap.2 ⟨place, hplace, ?_⟩)
      rw [hname, ha]
      rfl

/-- The types of a module mention arbitrary JSON exactly when the text of an alias that the file
binds refers to it. -/
theorem mentions_iff_shows (h : Assembled names d f s) :
    (∃ e ∈ d.types, e.mentions jsonValueName = true) ↔
      ∃ a : String × TypeExpr, s.Knows a.1 a.2 ∧ a.2.shows jsonValueName = true := by
  constructor
  · rintro ⟨e, he, hmentions⟩
    -- The type is that of a declared alias, but for the outermost alias of the flags.
    obtain ⟨b, hb, hinside⟩ : ∃ b ∈ tops names d, b.2.mentions jsonValueName = true := by
      rcases List.mem_cons.1 he with rfl | he
      · exact ⟨_, List.mem_cons_self, hmentions⟩
      · refine ⟨_, List.mem_cons_of_mem _ (List.mem_map_of_mem he), ?_⟩
        cases e with
        | «alias» n definition =>
          by_cases hn : n = names.flags
          · rw [unwrapAlias, if_pos hn]
            rcases mentions_iff_children.1 hmentions with hjson | ⟨c, hc, hinside⟩
            · exact absurd (hn ▸ Option.some.inj hjson) names.flags_usable.2.1
            · rw [List.mem_singleton.1 hc] at hinside
              exact hinside
          · rw [unwrapAlias, if_neg hn]
            exact hmentions
        | _ => exact hmentions
    rcases mentions_cases hinside with hshows | ⟨a, ha, hjson, hshows⟩
    · exact ⟨b, h.knows_top hb, hshows⟩
    · have hknown := everywhere_alias.1 (h.known_top hb)
      exact ⟨a, (hknown.2 _ (mem_aliases.1 ha)).1.bound a.1 a.2 rfl hjson, hshows⟩
  · rintro ⟨a, ha, hshows⟩
    obtain ⟨p, hp, hmentioned⟩ := mentions_iff.1 (mentions_of_shows hshows)
    obtain ⟨e, he, hpe⟩ := exists_type_of_mem_bindings (h.mem_bindings ha) hp
    exact ⟨e, he, mentions_iff.2 ⟨p, hpe, hmentioned⟩⟩

/-- A file that binds aliases of the module in their order, and arbitrary JSON after them if one of
their declarations refers to it. -/
structure InOrder (names : DeclarationNames) (d : Descriptor) (f : DeclarationFile)
    (bound : List (String × TypeExpr)) : Prop where
  /-- The messages come first, then the flags, then the other aliases where they are first met. -/
  names_eq : bound.map (·.1) = names.message :: (d.flags.toList.map fun _ => names.flags) ++
    namesInside (tops names d)
  origin : ∀ a ∈ bound, a ∈ bindings names d
  declarations_eq : f.declarations = bound.map declaration ++
    if ∃ a ∈ bound, a.2.shows jsonValueName = true
    then [⟨jsonValueName, jsonValueDeclaration⟩] else []
  begins : ∀ b ∈ f.declarations, Begins b

/-- **The order of bindings.** A file binds the messages first and then the flags, if there are any;
then every other alias in their definitions but that of arbitrary JSON, once, in the order in which
a visit of the messages and of the flags first comes to its name. Arbitrary JSON comes last, once,
if and only if one of these declarations refers to it. The text of each declaration begins by
binding its name. -/
theorem assemble_order (h : assemble names d = .ok f) : ∃ bound, InOrder names d f bound := by
  obtain ⟨top, s, htop, hdeclarations⟩ := assemble_run h
  obtain ⟨hdeclaring, rfl⟩ := declaring_of_run htop
  have hs : Assembled names d f s := ⟨hdeclarations, hdeclaring⟩
  have hempty : Listed [] (Session.empty [names.app, names.root]) := rfl
  have hplaces : Listed (tops names d) s :=
    hempty.run (declaring_empty _) (declarableAll_tops names d) htop
  -- Looked for in the types, arbitrary JSON is found in the texts of the bound aliases.
  have hjson : jsonValueDeclarations d.types =
      if ∃ a ∈ tops names d ++ placedAliases s, a.2.shows jsonValueName = true
      then [⟨jsonValueName, jsonValueDeclaration⟩] else [] := by
    unfold jsonValueDeclarations
    refine if_congr ?_ rfl rfl
    rw [List.any_eq_true, mentions_iff_shows hs]
    simp only [mem_bound_iff hs]
  refine ⟨tops names d ++ placedAliases s, ?_, fun a ha => ?_, ?_, fun b => begins_of_mem hs⟩
  · rw [List.map_append, map_fst_placedAliases hdeclaring.placed, hplaces, tops, List.map_cons,
      List.map_map]
    rfl
  · exact hs.mem_bindings ((mem_bound_iff hs).1 ha)
  · rw [hdeclarations, hjson, List.map_append, map_declaration_placedAliases hdeclaring.placed]

theorem assemble_order_nested :
    ∃ f, assemble .standard nested = .ok f ∧
      f.declarations.map (·.name) = ["FromElm", "Flags", "Forest", "Tree", "JsonValue"] ∧
      ∃ bound, InOrder .standard nested f bound :=
  ⟨_, rfl, by decide +kernel, assemble_order rfl⟩

end DeclarationFile

end BoundaryTypes
