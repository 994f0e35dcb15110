/-
  `Override` — a module under a name that is asked for.

  A message may name its module, well or badly, or not at all. When a run is asked for a name, the
  name in the message heads the routes of faults in reading it (`Descriptor.labelled_contentsOf`),
  and is gone from the descriptor that is made from it (`renamed`). So two projects whose messages
  differ in the name alone come to the same, but for that label (`override_complete`), as long as
  the file that holds the message is not also looked up as the settings, the template or the target.
-/
import BoundaryTypes.Proofs.Extraction.Readers
import BoundaryTypes.Proofs.Routes
import BoundaryTypes.Proofs.Run.Agreement
import BoundaryTypes.Proofs.Run.Alike
import BoundaryTypes.Proofs.Run.Confinement

namespace BoundaryTypes

open Outcome

/-! ### Messages that differ in the name -/

/-- Outcomes that are the same, but for the first label of the route of a fault. -/
inductive Labelled {α : Type} (label label' : String) :
    Except TypeFault α → Except TypeFault α → Prop
  | ok (v : α) : Labelled label label' (.ok v) (.ok v)
  | error (cause : Cause) (route : Route) :
    Labelled label label' (.error ⟨cause, label :: route⟩) (.error ⟨cause, label' :: route⟩)

namespace Labelled

variable {α β : Type} {label label' : String} {r r' : Except TypeFault α}

theorem bind {f f' : α → Except TypeFault β} (h : Labelled label label' r r')
    (hf : ∀ v, Labelled label label' (f v) (f' v)) :
    Labelled label label' (r >>= f) (r' >>= f') := by
  cases h with
  | ok v => exact hf v
  | error cause route => exact .error cause route

theorem map (h : Labelled label label' r r') (f : α → β) :
    Labelled label label' (r.map f) (r'.map f) := by
  cases h with
  | ok v => exact .ok (f v)
  | error cause route => exact .error cause route

end Labelled

namespace Descriptor

variable {members members' : List (String × Json)} {fallback : Option String} {name name' : String}

/-- The members name no module, or name it by a text that is not empty. -/
def NamedOrNot (members : List (String × Json)) : Prop :=
  ∀ v, Json.member? members "moduleName" = some v → ∃ name, v = .string name ∧ name ≠ ""

/-- Members that differ at most in the name of the module. -/
structure Renaming (members members' : List (String × Json)) : Prop where
  named : NamedOrNot members
  named' : NamedOrNot members'
  same : ∀ key, key ≠ "moduleName" → Json.member? members' key = Json.member? members key

/-- What a message says of its module besides the name. -/
def contentsOf (moduleName : String) (members : List (String × Json)) :
    Except TypeFault (TypeExpr × Option TypeExpr) := do
  let outbound ← outboundOf moduleName members
  let flags ← flagsOf moduleName members
  pure (outbound, flags)

theorem ofJson_of_name (h : moduleNameOf fallback members = .ok name) :
    ofJson fallback (.object members) =
      (contentsOf name members).map fun c => ⟨name, c.1, c.2⟩ := by
  rw [ofJson, h, contentsOf, ok_bind, except_map_bind]
  refine congrArg _ (funext fun outbound => ?_)
  rw [except_map_bind]
  rfl

/-- A message names its module, or the module gets the name that is supplied. -/
theorem exists_name (h : NamedOrNot members) (hname : name ≠ "") :
    ∃ n, moduleNameOf (some name) members = .ok n := by
  unfold moduleNameOf
  cases hmember : Json.member? members "moduleName" with
  | none => exact ⟨name, if_neg hname⟩
  | some v =>
    obtain ⟨n, rfl, hn⟩ := h v hmember
    exact ⟨n, if_neg hn⟩

/-- A node is read alike under both names, with faults whose routes begin with them. -/
theorem labelled_ofJson (name name' : String) (node : Json) (route : Route) : Labelled name name'
    (TypeExpr.ofJson (name :: route) node) (TypeExpr.ofJson (name' :: route) node) := by
  -- A fault is found behind whatever route the reading begins at.
  have hlocated := Node.located_ofJson node
  rw [hlocated.eq_behind (name :: route), hlocated.eq_behind (name' :: route)]
  cases TypeExpr.ofJson [] node with
  | ok e => exact .ok e
  | error f => exact .error f.cause (route ++ f.route)

/-- The outbound union is read alike under both names. -/
theorem labelled_outboundOf (h : Renaming members members') :
    Labelled name name' (outboundOf name members) (outboundOf name' members') := by
  unfold outboundOf
  rw [h.same "outbound" (by decide)]
  cases Json.member? members "outbound" with
  | none => exact .ok _
  | some node =>
    -- That the type is no union is said at the same label.
    have hcheck (e : TypeExpr) : Labelled name name'
        (if e.isUnion then pure e else .error ⟨.outboundNotUnion, [name, "outbound"]⟩)
        (if e.isUnion then pure e else .error ⟨.outboundNotUnion, [name', "outbound"]⟩) := by
      split
      · exact .ok e
      · exact .error _ _
    have hread := (labelled_ofJson name name' node ["outbound"]).bind hcheck
    -- `null` counts as no member at all.
    cases node with
    | null => exact .ok _
    | _ => exact hread

/-- The flags are read alike under both names. -/
theorem labelled_flagsOf (h : Renaming members members') :
    Labelled name name' (flagsOf name members) (flagsOf name' members') := by
  unfold flagsOf
  rw [h.same "flags" (by decide)]
  cases Json.member? members "flags" with
  | none => exact .ok _
  | some node =>
    have hread := (labelled_ofJson name name' node ["flags"]).map some
    cases node with
    | null => exact .ok _
    | _ => exact hread

/-- The name of a module heads the routes of faults, and nothing else of a message depends on it. -/
theorem labelled_contentsOf (h : Renaming members members') :
    Labelled name name' (contentsOf name members) (contentsOf name' members') :=
  (labelled_outboundOf h).bind fun _ => (labelled_flagsOf h).bind fun _ => .ok _

end Descriptor

namespace Run

variable {α β : Type} {host : Host} {tools' : Tools} {request : Request} {path : Path}
  {settings : Settings} {members members' : List (String × Json)} {name : String}
  {d d' : Disk} {K : Place → Prop} {faults : Interruptions} {dryRun : Bool} {p : Plan}

/-! ### Outcomes -/

/-- The same outcome, but for the first label of the route of a fault in reading a message. -/
inductive SameBut (members members' : List (String × Json)) (name : String) :
    Except Failure α → Except Failure α → Prop
  | same (r : Except Failure α) : SameBut members members' name r r
  | reading (cause : Cause) (label label' : String) (route : Route)
    (h : Descriptor.ofJson (some name) (.object members) = .error ⟨cause, label :: route⟩)
    (h' : Descriptor.ofJson (some name) (.object members') = .error ⟨cause, label' :: route⟩) :
    SameBut members members' name (.error (.type ⟨cause, label :: route⟩))
      (.error (.type ⟨cause, label' :: route⟩))

/-- Two sequences come to the same but for the names, if both their steps do. -/
theorem SameBut.bind {r r' : Except Failure α} {f f' : α → Except Failure β}
    (h : SameBut members members' name r r')
    (hf : ∀ v, r = .ok v → SameBut members members' name (f v) (f' v)) :
    SameBut members members' name (r >>= f) (r' >>= f') := by
  cases h with
  | same =>
    cases r with
    | ok v => exact hf v rfl
    | error e => exact .same _
  | reading cause label label' route h h' => exact .reading cause label label' route h h'

/-! ### Sources -/

/-- The source of the descriptor of a project holds a message with these members. -/
def Delivers (host : Host) (d : Disk) (settings : Settings) (path : Path) (request : Request)
    (members : List (String × Json)) : Prop :=
  match descriptorFile? host settings request with
  | some file => ∃ text, d.readText file = .ok text ∧ Json.read text = .ok (.object members)
  | none => settings.extractor.command.isEmpty = false ∧ ∃ printed,
      host.tools.runner d (Extraction.invocation settings.extractor path) = .ok printed ∧
        Json.read (Text.stripBlank printed) = .ok (.object members)

theorem decode_of_read {fallback : Option String} {printed : String} {v : Json}
    (h : Json.read (Text.stripBlank printed) = .ok v) :
    Extraction.decode fallback printed = (Descriptor.ofJson fallback v).mapError .type := by
  have hanswers := Extraction.answers fallback printed
  generalize Extraction.decode fallback printed = r at hanswers
  cases hanswers with
  | document => rw [Extraction.descriptorRead_of_read h]
  | noOutput _ hnot _ | moreThanOne _ _ hnot | notJson _ hnot _ => exact absurd h (hnot v)

/-- The descriptor that a run obtains is read from the members that are delivered to it. -/
theorem obtained_of_delivers (h : Delivers host d settings path request members) :
    obtained host settings path request d =
      (Descriptor.ofJson (fallbackName? settings request) (.object members)).mapError .type := by
  unfold Delivers at h
  unfold obtained
  cases hfile : descriptorFile? host settings request with
  | some file =>
    rw [hfile] at h
    obtain ⟨text, htext, hread⟩ := h
    exact (load_of_readText htext).trans
      (congrArg _ (Extraction.descriptorRead_of_read hread))
  | none =>
    rw [hfile] at h
    -- The message is printed, so the command is there and its output is read.
    obtain ⟨hcommand, printed, hprinted, hread⟩ := h
    dsimp only
    rw [hcommand, if_neg Bool.false_ne_true, extracted, hprinted, ok_bind, decode_of_read hread]

/-! ### A name that is asked for -/

theorem given?_eq_some (hname : name ≠ "") (hasked : request.moduleName = some name) :
    given? request.moduleName = some name := by
  rw [hasked, given?, Option.filter_some, if_pos (decide_eq_true hname)]

/-- With the name asked for, descriptors that differ in the name are the same. -/
theorem sameBut_renamed (hname : name ≠ "") (hasked : request.moduleName = some name)
    (h : Descriptor.Renaming members members')
    (hhere : Delivers host d settings path request members)
    (hthere : Delivers { host with tools := tools' } d' settings path request members') :
    SameBut members members' name
      ((obtained host settings path request d).map (renamed request))
      ((obtained { host with tools := tools' } settings path request d').map
        (renamed request)) := by
  have hgiven := given?_eq_some hname hasked
  have hfallback : fallbackName? settings request = some name := by
    rw [fallbackName?, hgiven, Option.some_or]
  -- The names by which the messages are read are their own, or the one that is asked for; both are
  -- replaced by it in the end.
  obtain ⟨n, hn⟩ := Descriptor.exists_name h.named hname
  obtain ⟨n', hn'⟩ := Descriptor.exists_name h.named' hname
  have hread := Descriptor.ofJson_of_name hn
  have hread' := Descriptor.ofJson_of_name hn'
  rw [obtained_of_delivers hhere, obtained_of_delivers hthere, hfallback]
  have hlabelled : Labelled n n' (Descriptor.contentsOf n members)
      (Descriptor.contentsOf n' members') := Descriptor.labelled_contentsOf h
  generalize Descriptor.contentsOf n members = r, Descriptor.contentsOf n' members' = r'
    at hlabelled hread hread'
  cases hlabelled with
  | ok c =>
    rw [hread, hread']
    -- The names are gone.
    have hsame : renamed request ⟨n', c.1, c.2⟩ = renamed request ⟨n, c.1, c.2⟩ := by
      unfold renamed
      rw [hgiven]
    show SameBut members members' name (.ok (renamed request ⟨n, c.1, c.2⟩))
      (.ok (renamed request ⟨n', c.1, c.2⟩))
    rw [hsame]
    exact .same _
  | error cause route =>
    rw [hread, hread']
    exact .reading cause n n' route hread hread'

/-- The module name of the request is put in place of the reported one before anything is laid out.
-/
theorem made_eq : made host request path d = (do
    let settings ← Settings.load d path host.tools.parser
    let descriptor ← (obtained host settings path request d).map (renamed request)
    let text ← laidOut host settings descriptor d
    pure (settings, descriptor, text)) := by
  unfold made
  cases Settings.load d path host.tools.parser with
  | error f => rfl
  | ok settings =>
    rw [ok_bind, ok_bind]
    cases obtained host settings path request d <;> rfl

/-- What is made of a project has the name that is asked for. -/
theorem moduleName_of_made {made' : Settings × Descriptor × String} (hname : name ≠ "")
    (hasked : request.moduleName = some name) (h : made host request path d = .ok made') :
    made'.2.1.moduleName = name := by
  obtain ⟨settings, -, h⟩ := bind_eq_ok.1 h
  obtain ⟨reported, -, h⟩ := bind_eq_ok.1 h
  obtain ⟨text, -, h⟩ := bind_eq_ok.1 h
  cases h
  show (renamed request reported).moduleName = name
  rw [renamed, given?_eq_some hname hasked]

/-- Two projects hold messages that differ in the name alone, in files of `K` or in the output of
their extractors. Their settings are read alike, and so are their templates rendered. -/
structure Renamed (K : Place → Prop) (host : Host) (tools' : Tools) (request : Request)
    (members members' : List (String × Json)) (d d' : Disk) : Prop where
  parser : tools'.parser = host.tools.parser
  renders : RendersAlike host tools'.engine request d d'
  alike : Disk.Alike K True d d'
  overlooks : Overlooks K True host request d
  messages : Descriptor.Renaming members members'
  here : ∀ path settings, Loads host request d path settings →
    Delivers host d settings path request members
  there : ∀ path settings, Loads host request d path settings →
    Delivers { host with tools := tools' } d' settings path request members'

/-- Up to the text, both runs come to the same: with the name of the request in the descriptor,
nothing depends on the reported one any more. -/
theorem Renamed.sameBut_made (h : Renamed K host tools' request members members' d d')
    (hname : name ≠ "") (hasked : request.moduleName = some name)
    (hpath : project host request = .ok path) :
    SameBut members members' name (made host request path d)
      (made { host with tools := tools' } request path d') := by
  have hload : Settings.load d' path host.tools.parser = Settings.load d path host.tools.parser :=
    h.alike.load (h.overlooks.project path hpath) (h.overlooks.settings path · hpath)
  rw [made_eq, made_eq]
  dsimp only
  rw [h.parser, hload]
  refine (SameBut.same _).bind fun settings hsettings => ?_
  have hloads : Loads host request d path settings := ⟨hpath, hsettings⟩
  refine (sameBut_renamed hname hasked h.messages (h.here path settings hloads)
    (h.there path settings hloads)).bind fun descriptor hdescriptor => ?_
  obtain ⟨reported, hreported, rfl⟩ := map_eq_ok.1 hdescriptor
  -- The engines make the same of the other disk, and neither of them has seen the message there.
  have hlaid : laidOut { host with tools := tools' } settings (renamed request reported) d' =
      laidOut host settings (renamed request reported) d := by
    refine laidOut_congr fun names f hnames hfile => ?_
    have hassembles : Assembles host request d path settings f :=
      ⟨reported, names, hreported, hnames, hfile⟩
    rw [h.renders path settings f hloads hassembles]
    exact h.alike.text fun directory file =>
      h.overlooks.template path settings f directory file hloads hassembles
  rw [hlaid]
  exact .same _

/-- Both runs make the same plan. -/
theorem Renamed.sameBut_planned (h : Renamed K host tools' request members members' d d')
    (hname : name ≠ "") (hasked : request.moduleName = some name) :
    SameBut members members' name (planned host request d)
      (planned { host with tools := tools' } request d') := by
  refine (SameBut.same (project host request)).bind fun path hpath => ?_
  exact (h.sameBut_made hname hasked hpath).bind fun made _ => .same _

/-- Both previews come to the same text. -/
theorem Renamed.sameBut_previewed (h : Renamed K host tools' request members members' d d')
    (hname : name ≠ "") (hasked : request.moduleName = some name) :
    SameBut members members' name (previewed host request d)
      (previewed { host with tools := tools' } request d') := by
  refine (SameBut.same (project host request)).bind fun path hpath => ?_
  exact (h.sameBut_made hname hasked hpath).bind fun made _ => .same _

/-! ### Without a name asked for -/

/-- The name that a module gets from its message, or from the settings if the message has none. -/
def NameUsed (settings : Settings) (members : List (String × Json)) (name : String) : Prop :=
  match Json.member? members "moduleName" with
  | some v => v = .string name
  | none => settings.moduleName = some name

theorem nameUsed_of_moduleNameOf
    (h : Descriptor.moduleNameOf settings.moduleName members = .ok name) :
    NameUsed settings members name := by
  have hname {n : String} (h : (if n = "" then .error ⟨.moduleNameMissing, []⟩ else .ok n :
      Except TypeFault String) = .ok name) : n = name := by
    split at h
    · cases h
    · exact Except.ok.inj h
  unfold Descriptor.moduleNameOf at h
  unfold NameUsed
  -- A name of the message comes first, and only a text is one.
  cases hmember : Json.member? members "moduleName" with
  | none =>
    rw [hmember] at h
    cases hsettings : settings.moduleName with
    | none =>
      rw [hsettings] at h
      cases h
    | some n =>
      rw [hsettings] at h
      exact congrArg some (hname h)
  | some v =>
    rw [hmember] at h
    cases v with
    | string n => exact congrArg Json.string (hname h)
    | _ => cases h

/-- What is made of a project without a name asked for has the name that is used, and its text is
that of the descriptor under this name. -/
theorem nameUsed_of_made {made' : Settings × Descriptor × String}
    (hnone : given? request.moduleName = none)
    (hload : Settings.load d path host.tools.parser = .ok settings)
    (hdelivers : Delivers host d settings path request members)
    (h : made host request path d = .ok made') :
    made'.1 = settings ∧ NameUsed settings members made'.2.1.moduleName ∧
      laidOut host settings made'.2.1 d = .ok made'.2.2 := by
  -- Without a name asked for, a descriptor keeps its own.
  have hrenamed : renamed request = id := by
    funext reported
    rw [renamed, hnone]
    rfl
  have hfallback : fallbackName? settings request = settings.moduleName := by
    rw [fallbackName?, hnone, Option.none_or]
  rw [made_eq, hload, ok_bind, obtained_of_delivers hdelivers, hfallback, hrenamed] at h
  obtain ⟨descriptor, hread, h⟩ := bind_eq_ok.1 h
  obtain ⟨text, htext, h⟩ := bind_eq_ok.1 h
  cases h
  refine ⟨rfl, ?_, htext⟩
  cases hjson : Descriptor.ofJson settings.moduleName (.object members) with
  | error f =>
    rw [hjson] at hread
    cases hread
  | ok reported =>
    rw [hjson] at hread
    cases hread
    obtain ⟨n, hn, hrest⟩ := bind_eq_ok.1 hjson
    obtain ⟨outbound, -, hrest⟩ := bind_eq_ok.1 hrest
    obtain ⟨flags, -, hrest⟩ := bind_eq_ok.1 hrest
    cases hrest
    exact nameUsed_of_moduleNameOf hn

/-! ### Runs -/

/-- A run ends with the declaration file of the module under a name. -/
def EndsAs (settings : Settings) (name : String) (o : Outcome) : Prop :=
  o.moduleName = name ∧ o.path = settings.outputPath (Text.splitOn '.' name)

theorem outcome_of_carried {o : Outcome} {mask : Nat}
    (h : carried faults mask dryRun p d = .ok o) :
    o.moduleName = p.moduleName ∧ o.path = p.target := by
  obtain ⟨current, -, h⟩ := bind_eq_ok.1 h
  -- Written or not, the outcome tells of the plan.
  split at h
  · split at h
    · cases h
    · cases h
      exact ⟨rfl, rfl⟩
  · cases h
    exact ⟨rfl, rfl⟩

/-- A run that ends well ends under the name of the descriptor that was made. -/
theorem exists_made {o : Outcome} {a : Activity}
    (h : valueOf (generateUnder faults host request dryRun a) = .ok o) :
    ∃ path made', project host request = .ok path ∧ made host request path a.disk = .ok made' ∧
      EndsAs made'.1 made'.2.1.moduleName o := by
  rw [valueOf_generateUnder] at h
  obtain ⟨p, hplan, hcarried⟩ := bind_eq_ok.1 h
  obtain ⟨path, hpath, hplan⟩ := bind_eq_ok.1 hplan
  obtain ⟨made', hmade, hp⟩ := bind_eq_ok.1 hplan
  obtain rfl := Except.ok.inj hp
  exact ⟨path, made', hpath, hmade, outcome_of_carried hcarried⟩

/-- **A name that is asked for is used throughout.** Two projects whose messages differ in the name
of the module alone come to the same outcomes, but for the first label of the route of a fault in
reading the message. Without a name asked for, the message's name is used, and the name of the
settings when the message has none. -/
theorem override_complete (host : Host) (request : Request) (members : List (String × Json))
    (a : Activity) :
    (∀ name, name ≠ "" → request.moduleName = some name →
      (∀ K tools' members' a', Renamed K host tools' request members members' a.disk a'.disk →
        SameBut members members' name (valueOf (preview host request a))
          (valueOf (preview { host with tools := tools' } request a')) ∧
        ∀ faults dryRun, SameBut members members' name
          (valueOf (generateUnder faults host request dryRun a))
          (valueOf (generateUnder faults { host with tools := tools' } request dryRun a'))) ∧
      ∀ faults dryRun o, valueOf (generateUnder faults host request dryRun a) = .ok o →
        o.moduleName = name) ∧
    ∀ path settings, given? request.moduleName = none →
      Loads host request a.disk path settings →
      Delivers host a.disk settings path request members →
      (∀ text, valueOf (preview host request a) = .ok text → ∃ descriptor : Descriptor,
        NameUsed settings members descriptor.moduleName ∧
          laidOut host settings descriptor a.disk = .ok text) ∧
      ∀ faults dryRun o, valueOf (generateUnder faults host request dryRun a) = .ok o →
        NameUsed settings members o.moduleName ∧ EndsAs settings o.moduleName o := by
  constructor
  · intro name hname hasked
    constructor
    · -- The two runs are planned alike, and what is carried out never looks at the messages' files.
      intro K tools' members' a' h
      constructor
      · rw [reads_preview.valueOf, reads_preview.valueOf]
        exact h.sameBut_previewed hname hasked
      · intro faults dryRun
        rw [valueOf_generateUnder, valueOf_generateUnder]
        refine (h.sameBut_planned hname hasked).bind fun p hp => ?_
        rw [h.alike.carried (h.overlooks.target p hp)]
        exact .same _
    · intro faults dryRun o h
      obtain ⟨path, made', -, hmade, hends⟩ := exists_made h
      rw [hends.1, moduleName_of_made hname hasked hmade]
  · intro path settings hnone hloads hdelivers
    constructor
    · intro text h
      rw [reads_preview.valueOf, previewed, hloads.project, ok_bind] at h
      obtain ⟨made', hmade, h⟩ := bind_eq_ok.1 h
      obtain rfl := Except.ok.inj h
      obtain ⟨-, hused, htext⟩ := nameUsed_of_made hnone hloads.load hdelivers hmade
      exact ⟨made'.2.1, hused, htext⟩
    · intro faults dryRun o h
      obtain ⟨path', made', hpath, hmade, hends⟩ := exists_made h
      -- The project that the run found is the one that is given.
      cases hpath.symm.trans hloads.project
      obtain ⟨rfl, hused, -⟩ := nameUsed_of_made hnone hloads.load hdelivers hmade
      rw [← hends.1] at hused
      exact ⟨hused, rfl, hends.1 ▸ hends.2⟩

/-! ### Projects -/

/-- The message of the project before its first run. -/
def mainMembers : List (String × Json) :=
  [("moduleName", .string "Main"), ("outbound", (TypeExpr.union []).toJson), ("flags", .null)]

/-- The same message without a name of the module. -/
def namelessMembers : List (String × Json) := mainMembers.tail

/-- The project before its first run, where the message does not name the module. -/
def namelessShop : Activity where
  disk := ⟨[(["shop"], .directory),
    (["shop", "types.json"], .file ((Json.object namelessMembers).write none).toUTF8 0o644)]⟩

/-- The place of the file with the message. -/
def messagePlace : Place := ["shop", "types.json"]

theorem textual_namelessMembers : (Json.object namelessMembers).Textual := by
  refine .object (by simp [namelessMembers, mainMembers]) ?_
  simp only [namelessMembers, mainMembers, List.tail_cons, List.mem_cons, List.not_mem_nil,
    or_false, forall_eq_or_imp, forall_eq]
  exact ⟨TypeExpr.textual_toJson _, .null⟩

/-- A file with a written message delivers it. -/
theorem delivers_of_readBytes {file : Path} (htextual : (Json.object members).Textual)
    (hreturn : '\r' ∉ ((Json.object members).write none).toList) (hnull : file.hasNull = false)
    (hbytes : d.readBytes file = .ok ((Json.object members).write none).toUTF8)
    (hfile : descriptorFile? host settings request = some file) :
    Delivers host d settings path request members := by
  -- Written text is read back as it is, since it holds no carriage return to be translated.
  rw [Delivers, hfile]
  exact ⟨_, Disk.readText_eq_ok.2 ⟨hnull, _, hbytes, Disk.textOf_toUTF8 hreturn⟩,
    Json.read_write none htextual⟩

theorem delivers_newShop (hfile : descriptorFile? shopHost settings request =
    some (shopPath.joinText "types.json")) :
    Delivers shopHost newShop.disk settings path request mainMembers :=
  delivers_of_readBytes (Descriptor.textual_toJson mainDescriptor) (by decide +kernel) rfl rfl hfile

theorem planned_of_gives (h : Gives (plan host request) d p) : planned host request d = .ok p := by
  obtain ⟨b, hb⟩ := h ⟨d, [], []⟩ rfl
  have hplanned := planned_of_run hb
  exact hplanned

theorem renamed_shop : Renamed (· = messagePlace) shopHost shopHost.tools homeRequest mainMembers
    namelessMembers newShop.disk namelessShop.disk where
  parser := rfl
  renders := fun _ _ _ _ _ => rfl
  alike := by
    constructor
    · intro k hk
      have hne : ¬ ["shop", "types.json"] = k := Ne.symm hk
      simp [Disk.entryAt?, newShop, shop, namelessShop, List.find?_cons, hne]
    · rintro - k rfl
      exact ⟨Option.some_ne_none _, Option.some_ne_none _⟩
  overlooks := by
    constructor
    · exact fun _ _ => .inl trivial
    · intro path file hpath hfile
      cases hpath
      cases hfile
      exact ⟨.inl trivial, by decide⟩
    · intro path settings f directory file hloads _ hdirectory
      obtain ⟨hpath, hload⟩ := hloads
      cases hpath
      cases hload
      cases hdirectory
    · -- The plan is known from the first run of the project.
      intro p hp
      obtain ⟨p', hplan, -, htarget⟩ := gives_plan_home
      cases hp.symm.trans (planned_of_gives hplan)
      refine ⟨.inl trivial, ?_, fun _ => .inl trivial⟩
      rw [htarget]
      decide
  messages := by
    refine ⟨?_, ?_, ?_⟩
    · rintro v hv
      cases hv
      exact ⟨"Main", rfl, by decide⟩
    · rintro v hv
      cases hv
    · intro key hkey
      rw [Json.member?, Json.member?, mainMembers,
        List.find?_cons_of_neg (by simpa using hkey.symm)]
      rfl
  here := fun _ _ _ => delivers_newShop rfl
  there := fun _ _ _ =>
    delivers_of_readBytes textual_namelessMembers (by decide +kernel) rfl rfl rfl

theorem override_complete_shop :
    (homeRequest.moduleName = some "Page.Home" ∧
      Renamed (· = messagePlace) shopHost shopHost.tools homeRequest mainMembers namelessMembers
        newShop.disk namelessShop.disk ∧
      ∃ o, valueOf (generateUnder .never shopHost homeRequest true newShop) = .ok o ∧
        valueOf (generateUnder .never shopHost homeRequest true namelessShop) = .ok o ∧
        o.moduleName = "Page.Home") ∧
    given? shopRequest.moduleName = none ∧
      Loads shopHost shopRequest newShop.disk shopPath { root := shopPath } ∧
      Delivers shopHost newShop.disk { root := shopPath } shopPath shopRequest mainMembers ∧
      valueOf (generateUnder .never shopHost shopRequest false newShop) = .ok newShopOutcome ∧
      NameUsed { root := shopPath } mainMembers newShopOutcome.moduleName := by
  constructor
  · refine ⟨rfl, renamed_shop, ?_⟩
    obtain ⟨hsame, hname⟩ := (override_complete shopHost homeRequest mainMembers newShop).1
      "Page.Home" (by decide) rfl
    obtain ⟨p, hplan, -, htarget⟩ := gives_plan_home
    have hmissing : newShop.disk.readExisting p.target = .ok "" := by
      rw [htarget]
      rfl
    have hvalue : valueOf (generateUnder .never shopHost homeRequest true newShop) =
        .ok (p.outcome "" true) := by
      obtain ⟨b, hdry, -⟩ := generateUnder_eq_ok.2 ⟨p, "", hplan, hmissing, rfl, Carried.dry⟩
      rw [hdry]
      rfl
    -- The outcome is none of a fault, so the other project has the very same.
    have hthere := (hsame _ _ _ namelessShop renamed_shop).2 .never true
    rw [hvalue] at hthere
    refine ⟨_, hvalue, ?_, hname .never true _ hvalue⟩
    generalize valueOf (generateUnder .never _ homeRequest true namelessShop) = r at hthere
    cases hthere
    rfl
  · have hvalue : valueOf (generateUnder .never shopHost shopRequest false newShop) =
        .ok newShopOutcome := by
      obtain ⟨a', hrun⟩ := exists_run_newShop
      rw [hrun]
      rfl
    have hloads : Loads shopHost shopRequest newShop.disk shopPath { root := shopPath } :=
      ⟨rfl, rfl⟩
    have hdelivers : Delivers shopHost newShop.disk { root := shopPath } shopPath shopRequest
        mainMembers := delivers_newShop rfl
    have hused := ((override_complete shopHost shopRequest mainMembers newShop).2 shopPath _ rfl
      hloads hdelivers).2 .never false _ hvalue
    exact ⟨rfl, hloads, hdelivers, hvalue, hused.1⟩

/-! ### A message that is also the template -/

/-- A message with a name and nothing else. -/
def namedMembers (name : String) : List (String × Json) := [("moduleName", .string name)]

/-- The place at which the template of a project is looked up, and the message lies. -/
def layoutPlace : Place := ["shop", "layout", Template.fileName]

/-- A project whose message lies where its template is looked up. -/
def layoutShop (name : String) : Activity where
  disk := ⟨[(["shop"], .directory), (["shop", "layout"], .directory),
    (["shop", settingsFileName], .file "\"templates_dir\": \"layout\"\n".toUTF8 0o644),
    (layoutPlace, .file ((Json.object (namedMembers name)).write none).toUTF8 0o644)]⟩

/-- A request for that message under another name. -/
def layoutRequest : Request :=
  { descriptor := some ("layout/" ++ Template.fileName), moduleName := some "Main" }

theorem delivers_layoutShop {name : String} (hreturn : '\r' ∉
      ((Json.object (namedMembers name)).write none).toList) :
    Delivers shopHost (layoutShop name).disk settings path layoutRequest (namedMembers name) := by
  have hfile : descriptorFile? shopHost settings layoutRequest = some (Path.ofRoot layoutPlace) :=
    rfl
  refine delivers_of_readBytes (.object (by simp [namedMembers]) ?_) hreturn rfl rfl hfile
  simp only [namedMembers, List.mem_singleton, forall_eq]
  exact .string name

theorem alike_layoutShop (name name' : String) :
    Disk.Alike (· = layoutPlace) True (layoutShop name).disk (layoutShop name').disk := by
  constructor
  · intro k hk
    simp [Disk.entryAt?, layoutShop, List.find?_cons, Ne.symm hk]
  · rintro - k rfl
    exact ⟨Option.some_ne_none _, Option.some_ne_none _⟩

/-- A preview of the project with that message shows it as it is. -/
theorem preview_layoutShop {name : String} (h : (valueOf (preview shopHost layoutRequest
      (layoutShop name))).toOption = some ((Json.object (namedMembers name)).write none)) :
    valueOf (preview shopHost layoutRequest (layoutShop name)) =
      .ok ((Json.object (namedMembers name)).write none) := by
  generalize valueOf (preview shopHost layoutRequest (layoutShop name)) = r at h
  cases r with
  | ok text => exact congrArg Except.ok (Option.some.inj h)
  | error e => cases h

/-- The reported name is seen when the message is the template too. -/
theorem preview_layout :
    Descriptor.Renaming (namedMembers "A") (namedMembers "B") ∧
      layoutRequest.moduleName = some "Main" ∧
      Disk.Alike (· = layoutPlace) True (layoutShop "A").disk (layoutShop "B").disk ∧
      (∀ path settings, Loads shopHost layoutRequest (layoutShop "A").disk path settings →
        Delivers shopHost (layoutShop "A").disk settings path layoutRequest (namedMembers "A") ∧
          Delivers shopHost (layoutShop "B").disk settings path layoutRequest (namedMembers "B")) ∧
      ∃ text text', valueOf (preview shopHost layoutRequest (layoutShop "A")) = .ok text ∧
        valueOf (preview shopHost layoutRequest (layoutShop "B")) = .ok text' ∧ text ≠ text' := by
  refine ⟨⟨?_, ?_, ?_⟩, rfl, alike_layoutShop _ _, ?_, ?_⟩
  · rintro v hv
    cases hv
    exact ⟨"A", rfl, by decide⟩
  · rintro v hv
    cases hv
    exact ⟨"B", rfl, by decide⟩
  · intro key hkey
    simp [Json.member?, namedMembers, hkey.symm]
  · exact fun _ _ _ => ⟨delivers_layoutShop (by decide), delivers_layoutShop (by decide)⟩
  · exact ⟨_, _, preview_layoutShop (by decide +kernel), preview_layoutShop (by decide +kernel),
      by decide +kernel⟩

end Run

end BoundaryTypes
