/-
  `Agreement` — the service and a preview agree.

  The service reads names and a message from one body. A preview reads the names from the
  settings of a project and the message from a file. The settings are loaded first, and names
  that cannot be used end the loading; the service resolves the names first, too. From there on
  both read the same message and assemble the same file. So each comes to what can be said of
  the order alone (`Order.outcome`): the service puts it into an answer, and the run into its
  end. Settings that are refused for anything but the names end a preview alone
  (`pathName_disagrees`).
-/
import BoundaryTypes.Proofs.Run.Repetition
import BoundaryTypes.Proofs.Service.Delivery
import BoundaryTypes.Proofs.Settings.Acceptance

namespace BoundaryTypes

open Outcome

/-! ### How a step ends -/

namespace Run

variable {α β : Type} {x : RunM α} {f : α → RunM β} {d : Disk}

/-- The end of a step with a result, after some activity. -/
def ending (r : Except Failure α) (a : Activity) : EStateM.Result Failure Activity α :=
  match r with
  | .ok v => .ok v a
  | .error e => .error e a

/-- A step ends with a result on a disk and leaves the disk alone, whatever was done before. -/
def Ends (x : RunM α) (d : Disk) (r : Except Failure α) : Prop :=
  ∀ a : Activity, a.disk = d → ∃ a', a'.disk = d ∧ x a = ending r a'

theorem Reads.ends {r : Disk → Except Failure α} (h : Reads x r) (d : Disk) : Ends x d (r d) := by
  rintro a rfl
  rcases h a with ⟨v, a', hrun, hr, hdisk⟩ | ⟨e, a', hrun, hr, hdisk⟩
  · exact ⟨a', hdisk, by rw [hr]; exact hrun⟩
  · exact ⟨a', hdisk, by rw [hr]; exact hrun⟩

/-- A step that ends well is followed by the next one. -/
theorem Ends.bind {v : α} {r : Except Failure β} (hx : Ends x d (.ok v)) (hf : Ends (f v) d r) :
    Ends (x >>= f) d r := by
  intro a ha
  obtain ⟨t, ht, hrun⟩ := hx a ha
  rw [bind_run_of_ok f hrun]
  exact hf t ht

/-- Nothing follows a step that fails. -/
theorem Ends.bind_error {e : Failure} (hx : Ends x d (.error e)) : Ends (x >>= f) d (.error e) := by
  intro a ha
  obtain ⟨t, ht, hrun⟩ := hx a ha
  exact ⟨t, ht, bind_run_of_error f hrun⟩

theorem ends_pure (v : α) : Ends (pure v) d (.ok v) := (reads_pure v).ends d

theorem ends_fromDisk (g : Disk → Except Failure α) : Ends (fromDisk g) d (g d) :=
  (reads_fromDisk g).ends d

theorem ends_lift (r : Except Failure α) : Ends (lift r) d r := ends_fromDisk fun _ => r

theorem ends_throw (e : Failure) : Ends (throw e : RunM α) d (.error e) :=
  fun a ha => ⟨a, ha, rfl⟩

/-- Reports do not change how a sequence ends. -/
theorem ends_report_then {r : Except Failure α} (e : Event) (h : Ends x d r) :
    Ends (do report e; x) d r :=
  Ends.bind ((reads_report e).ends d) h

theorem ends_reports (events : List Event) :
    Ends (forIn events PUnit.unit fun e _ => do report e; pure (.yield .unit)) d (.ok .unit) := by
  induction events with
  | nil => exact ends_pure _
  | cons e rest ih =>
    rw [List.forIn_cons]
    exact (ends_report_then e (ends_pure _)).bind ih

variable {host : Host} {settings : Settings} {path file : Path} {request : Request}
  {descriptor : Descriptor} {names : DeclarationNames} {message : String}

/-- A descriptor that a file holds as a text is the one that the text is read as. -/
theorem ends_obtain (hfile : descriptorFile? host settings request = some file)
    (htext : d.readText file = .ok message) :
    Ends (obtain host settings path request) d
      ((Descriptor.read (fallbackName? settings request) message).mapError .type) := by
  have hread : Ends (readDescriptor (fallbackName? settings request) file) d
      ((Descriptor.read (fallbackName? settings request) message).mapError .type) := by
    have hload := ends_fromDisk (d := d)
      fun d => Extraction.load d (fallbackName? settings request) file
    rw [load_of_readText htext] at hload
    exact ends_report_then _ hload
  rw [descriptorFile?] at hfile
  rw [obtain]
  dsimp only
  -- The file is named by the request, or by the settings, or there is none.
  split
  · next name hgiven =>
    rw [hgiven] at hfile
    cases hfile
    exact hread
  · next stated hnone hstated =>
    rw [hnone, hstated] at hfile
    cases hfile
    exact hread
  · next hnone hstated =>
    rw [hnone, hstated] at hfile
    cases hfile

/-- Without a template of its own, the text of a project is that of the standard template. -/
theorem ends_assemble (hnames : settings.names.resolve = .ok names)
    (htemplates : settings.templates = none) :
    Ends (assemble host settings descriptor) d
      ((generateDeclaration names descriptor).mapError .type) := by
  have hresolve : (settings.names.resolve.mapError fun f => Failure.settings (.names f)) =
      .ok names := by
    rw [hnames]
    rfl
  refine (hresolve ▸ ends_lift _ : Ends _ d (.ok names)).bind ?_
  rw [generateDeclaration]
  cases DeclarationFile.assemble names descriptor with
  | error f => exact (ends_reports _).bind (ends_throw _)
  | ok file =>
    rw [htemplates]
    exact ends_report_then _ (ends_fromDisk _)

end Run

/-! ### The settings of a project -/

namespace Settings

variable {d : Disk} {path root file : Path} {entries : List (String × Yaml.Value)}
  {names : DeclarationNames} {f : NamesFault} {parser : Yaml.Parser}

/-- The entries of the settings file of a project and its root: none if there is no such file. -/
inductive Configured (parser : Yaml.Parser) (d : Disk) (path : Path) :
    Path → List (String × Yaml.Value) → Prop
  | missing {file : Path} (hfile : fileOf d path = .ok file) (h : d.status file = .ok none) :
    Configured parser d path file.parent []
  | written {file : Path} {entry : Entry} {text : String} {v : Yaml.Value}
    {entries : List (String × Yaml.Value)}
    (hfile : fileOf d path = .ok file) (h : d.status file = .ok (some entry))
    (htext : d.readText file = .ok text) (hv : documentOf parser text = .ok v)
    (hentries : entries? v = some entries) : Configured parser d path file.parent entries

/-- A project without settings has the standard ones. -/
theorem ofEntries_nil (root : Path) : ofEntries root [] = .ok { root } := by
  have hextractor : extractorOf root [] = .ok {} := rfl
  have hnames : namesOf [] = .ok {} := rfl
  have hname : isPathName "index.d.ts" = false := by decide
  show (do
    if isPathName "index.d.ts" then throw (.settings .outputNameIsPath)
    let extractor ← extractorOf root []
    let names ← namesOf []
    pure { root, extractor, names } : Except Failure Settings) = _
  rw [hextractor, hnames, hname]
  rfl

theorem Configured.load (h : Configured parser d path root entries) :
    load d path parser = ofEntries root entries := by
  cases h with
  | missing hfile h =>
    rw [ofEntries_nil]
    simp only [Settings.load, hfile, h, Failure.ofSystem, Except.mapError, bind, Except.bind]
    rfl
  | @written file _ text _ _ hfile h htext hv hentries =>
    have hgives : ofText file.parent text parser = ofEntries file.parent entries := by
      rw [ofText_of_document hv, ofValue_eq, hentries]
    rw [← hgives]
    simp only [Settings.load, hfile, h, htext, Failure.ofSystem, Except.mapError, bind, Except.bind]

/-- The names in the entries of a settings file. -/
def namesIn (entries : List (String × Yaml.Value)) : NameOverrides :=
  let given := entriesOf (value? entries "names")
  ⟨text? given NamedPart.message.word, text? given NamedPart.flags.word,
    text? given NamedPart.app.word, text? given NamedPart.root.word⟩

/-- The section of the names is judged by the names that it gives. -/
theorem namesOf_eq (entries : List (String × Yaml.Value)) :
    namesOf (entriesOf (value? entries "names")) =
      ((namesIn entries).resolve.map fun _ => namesIn entries).mapError
        fun f => .settings (.names f) := by
  have hgiven : namesIn entries =
      ⟨text? (entriesOf (value? entries "names")) "message",
        text? (entriesOf (value? entries "names")) "flags",
        text? (entriesOf (value? entries "names")) "app",
        text? (entriesOf (value? entries "names")) "root"⟩ := rfl
  unfold namesOf
  rw [hgiven]
  dsimp only
  split
  · next hnames => rw [hnames]; rfl
  · next hnames => rw [hnames]; rfl

/-- The settings that are judged before the names are usable. -/
structure UpToNames (root : Path) (entries : List (String × Yaml.Value)) : Prop where
  outputName : isPathName (outputNameOf entries) = false
  extractor : ∃ e, extractorOf root (extractorEntries entries) = .ok e

/-- Names that cannot be used make the settings unusable. -/
theorem ofEntries_of_unusable (h : UpToNames root entries)
    (hnames : (namesIn entries).resolve = .error f) :
    ofEntries root entries = .error (.settings (.names f)) := by
  obtain ⟨e, he⟩ := h.extractor
  rw [extractorEntries] at he
  have hfault : namesOf (entriesOf (value? entries "names")) = .error (.settings (.names f)) := by
    rw [namesOf_eq, hnames]
    rfl
  have hname : isPathName ((filled? entries "output_name").getD
    ({ root } : Settings).outputName) = false := h.outputName
  rw [ofEntries]
  dsimp only
  rw [hname, he, hfault]
  rfl

/-- So does a path as the name of the target, whatever the names are. -/
theorem ofEntries_of_pathName
    (h : isPathName (outputNameOf entries) = true) :
    ofEntries root entries = .error (.settings .outputNameIsPath) := by
  have hname : isPathName ((filled? entries "output_name").getD
    ({ root } : Settings).outputName) = true := h
  rw [ofEntries]
  dsimp only
  rw [hname]
  rfl

theorem ofEntries_of_usable (h : UpToNames root entries)
    (hnames : (namesIn entries).resolve = .ok names) :
    ∃ settings, ofEntries root entries = .ok settings ∧ settings.names = namesIn entries ∧
      settings.moduleName = text? entries "module" ∧
      settings.descriptor = (filled? entries "descriptor").map root.joinText ∧
      settings.templates = (filled? entries "templates_dir").map root.joinText := by
  obtain ⟨e, he⟩ := h.extractor
  rw [extractorEntries] at he
  have hok : namesOf (entriesOf (value? entries "names")) = .ok (namesIn entries) := by
    rw [namesOf_eq, hnames]
    rfl
  have hname : isPathName ((filled? entries "output_name").getD
    ({ root } : Settings).outputName) = false := h.outputName
  rw [ofEntries]
  dsimp only
  rw [hname, he, hok]
  exact ⟨_, rfl, rfl, rfl, rfl, rfl⟩

end Settings

/-! ### Orders -/

namespace Service

/-- What an order comes to: its text, or why there is none, as a run would say it. -/
def Order.outcome (o : Order) : Except Failure String :=
  match o.names.resolve with
  | .error f => .error (.settings (.names f))
  | .ok names =>
    match Descriptor.ofJson none (.object o.message) with
    | .error f => .error (.type f)
    | .ok d => (generateDeclaration names d).mapError .type

/-- The module that a text is made for has the name that its message gives it. -/
theorem moduleName_of_ofJson {members : List (String × Json)} {d : Descriptor}
    (h : Descriptor.ofJson none (.object members) = .ok d) :
    Json.member? members "moduleName" = some (.string d.moduleName) := by
  obtain ⟨name, hname, h⟩ := bind_eq_ok.1 h
  obtain ⟨outbound, -, h⟩ := bind_eq_ok.1 h
  obtain ⟨flags, -, h⟩ := bind_eq_ok.1 h
  cases h
  unfold Descriptor.moduleNameOf at hname
  dsimp only at hname
  split at hname
  · next text hnamed =>
    split at hname
    · cases hname
    · cases hname
      split at hnamed
      · next heq => cases hnamed; exact heq
      · cases hnamed
      · cases hnamed
  · cases hname

/-- A project that stands for an order: its descriptor file holds the message, and its settings have
the names. They name no module and no templates, and no other module is asked for. No string of the
message holds half of a surrogate pair. -/
structure Poses (o : Order) (host : Host) (request : Request) (d : Disk) (root : Path)
    (entries : List (String × Yaml.Value)) : Prop where
  configured : ∃ path, Run.project host request = .ok path ∧
    Settings.Configured host.tools.parser d path root entries
  names : Settings.namesIn entries = o.names
  noModule : Settings.text? entries "module" = none
  noTemplates : Settings.filled? entries "templates_dir" = none
  noOtherModule : Run.given? request.moduleName = none
  message : ∃ file text, ((Run.given? request.descriptor).map host.directory.joinText).or
      ((Settings.filled? entries "descriptor").map root.joinText) = some file ∧
    d.readText file = .ok text ∧ Json.read text = .ok (.object o.message) ∧ Json.isWhole text = true

variable {o : Order} {host : Host} {request : Request} {d : Disk} {root : Path}
  {entries : List (String × Yaml.Value)}

/-- The descriptor of such a project is the one that the message is read as. -/
theorem Poses.obtain_ends {settings : Settings} (h : Poses o host request d root entries)
    (path : Path) (hmodule : settings.moduleName = Settings.text? entries "module")
    (hdescriptor : settings.descriptor =
      (Settings.filled? entries "descriptor").map root.joinText) :
    Run.Ends (Run.obtain host settings path request) d
      ((Descriptor.ofJson none (.object o.message)).mapError .type) := by
  obtain ⟨file, text, hfile, htext, hjson, -⟩ := h.message
  have hfile : Run.descriptorFile? host settings request = some file := by
    rw [Run.descriptorFile?, hdescriptor]
    exact hfile
  have hfallback : Run.fallbackName? settings request = none := by
    rw [Run.fallbackName?, h.noOtherModule, hmodule, h.noModule]
    rfl
  have hread : Descriptor.read none text = Descriptor.ofJson none (.object o.message) := by
    rw [Descriptor.read, hjson]
  have hobtain : Run.Ends (Run.obtain host settings path request) d _ :=
    Run.ends_obtain hfile htext
  rwa [hfallback, hread] at hobtain

/-- Nothing of such a project is looked at if its settings are refused. -/
theorem Poses.preview_ends_of_refused {e : Failure} (h : Poses o host request d root entries)
    (hrefused : Settings.ofEntries root entries = .error e) :
    Run.Ends (Run.preview host request) d (.error e) := by
  obtain ⟨path, hproject, hconfigured⟩ := h.configured
  have hpath : Run.Ends (Run.lift (Run.project host request)) d (.ok path) :=
    hproject ▸ Run.ends_lift _
  have hload : Run.Ends (Run.fromDisk fun d => Settings.load d path host.tools.parser) d
      (.error e) := hrefused ▸ hconfigured.load ▸ Run.ends_fromDisk _
  exact hpath.bind (Run.Ends.bind_error hload).bind_error

/-- If the settings are usable but for the names, a preview of such a project comes to what the
order comes to. -/
theorem Poses.preview_ends (h : Poses o host request d root entries)
    (hupTo : Settings.UpToNames root entries) :
    Run.Ends (Run.preview host request) d o.outcome := by
  rw [Order.outcome, ← h.names]
  cases hnames : (Settings.namesIn entries).resolve with
  | error f => exact h.preview_ends_of_refused (Settings.ofEntries_of_unusable hupTo hnames)
  | ok names =>
    obtain ⟨settings, hsettings, hsame, hmodule, hdescriptor, htemplates⟩ :=
      Settings.ofEntries_of_usable hupTo hnames
    obtain ⟨path, hproject, hconfigured⟩ := h.configured
    have hpath : Run.Ends (Run.lift (Run.project host request)) d (.ok path) :=
      hproject ▸ Run.ends_lift _
    have hload : Run.Ends (Run.fromDisk fun d => Settings.load d path host.tools.parser) d
        (.ok settings) := hsettings ▸ hconfigured.load ▸ Run.ends_fromDisk _
    refine hpath.bind ?_
    rw [h.noTemplates] at htemplates
    have hobtain := h.obtain_ends path hmodule hdescriptor
    -- The settings are loaded, so the message decides next.
    dsimp only
    cases hmessage : Descriptor.ofJson none (.object o.message) with
    | error f =>
      rw [hmessage] at hobtain
      exact (hload.bind hobtain.bind_error).bind_error
    | ok descriptor =>
      rw [hmessage] at hobtain
      have hrename : Run.Ends (Run.rename request descriptor) d (.ok descriptor) := by
        rw [Run.rename, h.noOtherModule]
        exact Run.ends_pure _
      have hassemble : Run.Ends (Run.assemble host settings descriptor) d _ :=
        Run.ends_assemble (hsame ▸ hnames) htemplates
      dsimp only
      cases htext : generateDeclaration names descriptor with
      | error f =>
        rw [htext] at hassemble
        exact (hload.bind (hobtain.bind (hrename.bind hassemble.bind_error))).bind_error
      | ok text =>
        rw [htext] at hassemble
        -- Nothing fails any more, and a preview shows the text that was made.
        have hmake : Run.Ends (Run.make host path request) d (.ok (settings, descriptor, text)) :=
          hload.bind (hobtain.bind (hrename.bind (hassemble.bind (Run.ends_pure _))))
        exact hmake.bind (Run.ends_pure _)

/-! ### Answers -/

/-- What an order comes to, as the application answers it. -/
inductive Told (message : List (String × Json)) : Answer → Except Failure String → Prop
  | unusable (f : NamesFault) : Told message (.unusableNames f) (.error (.settings (.names f)))
  | refused (f : TypeFault) : Told message (.refused f) (.error (.type f))
  | made {name : String} (text : String)
    (hname : Json.member? message "moduleName" = some (.string name)) :
    Told message (.declaration name text) (.ok text)

theorem told_answer (o : Order) : Told o.message o.answer o.outcome := by
  rw [Order.answer, Order.outcome]
  -- Answer and outcome are told by the same three steps: names, message, declarations.
  cases o.names.resolve with
  | error f => exact .unusable f
  | ok names =>
    dsimp only
    cases hmessage : Descriptor.ofJson none (.object o.message) with
    | error f => exact .refused f
    | ok d =>
      dsimp only
      cases generateDeclaration names d with
      | error f => exact .refused f
      | ok text => exact .made text (moduleName_of_ofJson hmessage)

/-- A status and a body that say how a preview ended. -/
structure Agrees (message : List (String × Json)) (status : Nat) (body : Json)
    (shown : EStateM.Result Failure Activity String) : Prop where
  unusable : ∀ text, status = 400 ∧ body = .object [("detail", .string text)] ↔
    ∃ f a, shown = .error (.settings f) a ∧ f.message = text
  refused : ∀ detail route error, status = 422 ∧ body = .object [("detail", .string detail),
      ("path", .array (route.map .string)), ("error", .string error)] ↔
    ∃ f a, shown = .error (.type f) a ∧ f.detail = detail ∧ f.route = route ∧
      f.cause.category.name = error
  made : ∀ name text, status = 200 ∧ body = .object [("module", .string name),
      ("declaration", .string text)] ↔
    (∃ a, shown = .ok text a) ∧ Json.member? message "moduleName" = some (.string name)
  /-- There is no other status, and no preview ends otherwise. -/
  complete : (status = 400 ∧ ∃ f a, shown = .error (.settings f) a) ∨
    (status = 422 ∧ ∃ f a, shown = .error (.type f) a) ∨
    (status = 200 ∧ ∃ text a, shown = .ok text a)

theorem Told.agrees {message : List (String × Json)} {answer : Answer}
    {outcome : Except Failure String} (h : Told message answer outcome) (a : Activity) :
    Agrees message answer.status answer.body (Run.ending outcome a) := by
  -- One status for each way to end: the other two ways are refuted by their bodies.
  cases h with
  | unusable f =>
    refine ⟨fun text => ⟨?_, ?_⟩, ?_, ?_, .inl ⟨rfl, _, _, rfl⟩⟩
    · rintro ⟨-, hbody⟩
      cases hbody
      exact ⟨_, _, rfl, rfl⟩
    · rintro ⟨_, _, hshown, rfl⟩
      cases hshown
      exact ⟨rfl, rfl⟩
    · exact fun _ _ _ => ⟨nofun, nofun⟩
    · exact fun _ _ => ⟨nofun, nofun⟩
  | refused f =>
    refine ⟨fun _ => ⟨nofun, nofun⟩, fun detail route error => ⟨?_, ?_⟩, fun _ _ => ⟨nofun, nofun⟩,
      .inr (.inl ⟨rfl, _, _, rfl⟩)⟩
    · rintro ⟨-, hbody⟩
      simp only [Answer.body, Json.object.injEq, List.cons.injEq, Prod.mk.injEq, true_and,
        Json.string.injEq, Json.array.injEq, and_true] at hbody
      obtain ⟨rfl, hroute, rfl⟩ := hbody
      exact ⟨f, a, rfl, rfl, List.map_injective_iff.2 (fun _ _ => Json.string.inj) hroute, rfl⟩
    · rintro ⟨_, _, hshown, rfl, rfl, rfl⟩
      cases hshown
      exact ⟨rfl, rfl⟩
  | made text hname =>
    refine ⟨fun _ => ⟨nofun, nofun⟩, fun _ _ _ => ⟨nofun, nofun⟩, fun name other => ⟨?_, ?_⟩,
      .inr (.inr ⟨rfl, _, _, rfl⟩)⟩
    · rintro ⟨-, hbody⟩
      cases hbody
      exact ⟨⟨a, rfl⟩, hname⟩
    · rintro ⟨⟨_, hshown⟩, hother⟩
      cases hshown
      cases hname.symm.trans hother
      exact ⟨rfl, rfl⟩

variable {body : String} {a : Activity}

/-- **The service and a preview agree.** If a project stands for an order and its settings are
usable but for the names, the response of a faithful framework to a request with that order tells
how a preview of the project ends: the status is 400 with the words for unusable settings exactly
if the preview fails with such settings, it is 422 with the detail, the route and the name of a
refused type exactly if the preview fails with that type, and otherwise it is 200 with the name of
the module and the text of the preview. -/
theorem respond_agrees {w : Framework} (hw : w.Faithful) (hbody : Orders body o)
    (h : Poses o host request a.disk root entries) (hupTo : Settings.UpToNames root entries) :
    Agrees o.message (w.respond (posted body)).status (w.respond (posted body)).body
      (Run.preview host request a) := by
  obtain ⟨a', -, hshown⟩ := h.preview_ends hupTo a rfl
  rw [hw.respond hbody, hshown]
  exact (told_answer o).agrees a'

/-! ### Projects and requests -/

/-- An order for a module without messages, with names. -/
def mainOrder (names : NameOverrides) : Order := ⟨Run.mainDescriptor.members, names⟩

theorem textual_mainOrder (names : NameOverrides) : (orderBody (mainOrder names)).Textual := by
  have htext : ∀ text, (textOrNull text).Textual := by
    rintro (_ | text)
    · exact .null
    · exact .string text
  have hkeys : ["descriptor", "names"].Nodup := by decide
  have hparts : ([.message, .flags, .app, .root].map NamedPart.word).Nodup := by decide
  refine .object hkeys ?_
  simp only [List.forall_mem_cons]
  refine ⟨Run.mainDescriptor.textual_toJson, .object hparts ?_, nofun⟩
  simp only [List.forall_mem_cons]
  exact ⟨htext _, htext _, htext _, htext _, nofun⟩

/-- The project in the shop, with the text of a settings file. -/
def shopWith (text : String) : Activity :=
  Run.shop [(["shop", ".portgen.yml"], .file text.toUTF8 0o644)]

/-- With a file for the message and with names it stands for an order. -/
theorem poses_shopWith {text : String} {names : NameOverrides} {v : Yaml.Value}
    (hv : Settings.documentOf Settings.parser text = .ok v)
    (hentries : Settings.entries? v = some entries) (hlines : '\r' ∉ text.toList)
    (hnames : Settings.namesIn entries = names)
    (hdescriptor : Settings.filled? entries "descriptor" = some "types.json")
    (hmodule : Settings.text? entries "module" = none)
    (htemplates : Settings.filled? entries "templates_dir" = none) :
    Poses (mainOrder names) Run.shopHost {} (shopWith text).disk Run.shopPath entries := by
  have hsettings : (shopWith text).disk.readText (Run.shopPath.joinText settingsFileName) =
      .ok text :=
    Disk.readText_eq_ok.2 ⟨by decide, _, rfl, Disk.textOf_toUTF8 hlines⟩
  have hroot : (Run.shopPath.joinText settingsFileName).parent = Run.shopPath := by decide
  have hconfigured : Settings.Configured Settings.parser (shopWith text).disk Run.shopPath
      (Run.shopPath.joinText settingsFileName).parent entries :=
    .written rfl rfl hsettings hv hentries
  have hmessage : (shopWith text).disk.readText (Run.shopPath.joinText "types.json") =
      .ok (Run.mainDescriptor.write none) :=
    Disk.readText_eq_ok.2 ⟨by decide, _, rfl, Disk.textOf_toUTF8 (by decide +kernel)⟩
  refine ⟨⟨Run.shopPath, rfl, hroot ▸ hconfigured⟩, hnames, hmodule, htemplates, rfl, _, _, ?_,
    hmessage, Json.read_write none Run.mainDescriptor.textual_toJson, by decide +kernel⟩
  rw [hdescriptor]
  rfl

/-- Whether a document gives entries with a property. -/
def givesWith {ε : Type} (p : List (String × Yaml.Value) → Bool) : Except ε Yaml.Value → Bool
  | .ok v => (Settings.entries? v).any p
  | .error _ => false

theorem exists_entries {ε : Type} {p : List (String × Yaml.Value) → Bool}
    {document : Except ε Yaml.Value} (h : givesWith p document = true) :
    ∃ v entries, document = .ok v ∧ Settings.entries? v = some entries ∧ p entries = true := by
  unfold givesWith at h
  split at h
  · next v =>
    obtain ⟨entries, hentries, hp⟩ := (Option.any_eq_true _ _).1 h
    exact ⟨v, entries, rfl, hentries, hp⟩
  · cases h

/-- Settings with a name and with the file of a message. -/
def namedText : String :=
  "\"descriptor\": \"types.json\"\n\"names\": \x7b\"message\": \"Out\"\x7d\n"

/-- The name in these settings. -/
def outNames : NameOverrides := { message := some "Out" }

theorem poses_named : ∃ entries,
    Poses (mainOrder outNames) Run.shopHost {} (shopWith namedText).disk Run.shopPath entries ∧
      Settings.UpToNames Run.shopPath entries := by
  obtain ⟨v, entries, hv, hentries, h⟩ := exists_entries (p := fun entries =>
    Settings.namesIn entries = outNames ∧
    Settings.filled? entries "descriptor" = some "types.json" ∧
    Settings.filled? entries "templates_dir" = none ∧ Settings.text? entries "module" = none ∧
    Settings.isPathName (Settings.outputNameOf entries) = false ∧
    (Settings.value? entries "extractor").isNone = true)
    (show givesWith _ (Settings.documentOf Settings.parser namedText) = true by decide +kernel)
  -- All conditions on the entries are decided together, so that the settings are read once.
  obtain ⟨hnames, hdescriptor, htemplates, hmodule, houtput, hextractor⟩ := of_decide_eq_true h
  have hextractor : Settings.extractorOf Run.shopPath
      (Settings.entriesOf (Settings.value? entries "extractor")) = .ok {} := by
    rw [Option.isNone_iff_eq_none.1 hextractor]
    rfl
  exact ⟨entries, poses_shopWith hv hentries (by decide) hnames hdescriptor hmodule htemplates,
    houtput, _, hextractor⟩

theorem respond_agrees_named :
    ∃ entries,
      Poses (mainOrder outNames) Run.shopHost {} (shopWith namedText).disk Run.shopPath entries ∧
      Settings.UpToNames Run.shopPath entries ∧ router.Faithful ∧
      Orders ((orderBody (mainOrder outNames)).write none) (mainOrder outNames) ∧
      ∃ text a, Run.preview Run.shopHost {} (shopWith namedText) = .ok text a ∧
        (router.respond (posted ((orderBody (mainOrder outNames)).write none))).body =
          .object [("module", .string "Main"), ("declaration", .string text)] := by
  have hbody := orders_write (o := mainOrder outNames) (by decide +kernel) (textual_mainOrder _)
  obtain ⟨entries, hposes, hupTo⟩ := poses_named
  have hagrees := respond_agrees router_faithful hbody hposes hupTo
  refine ⟨entries, hposes, hupTo, router_faithful, hbody, ?_⟩
  obtain ⟨text, hmade⟩ : ∃ text, (mainOrder outNames).answer = .declaration "Main" text := ⟨_, rfl⟩
  rw [router_faithful.respond hbody, hmade] at hagrees ⊢
  obtain ⟨⟨a, ha⟩, -⟩ := (hagrees.made "Main" text).1 ⟨rfl, rfl⟩
  exact ⟨text, a, ha, rfl⟩

/-- Settings with a path as the name of the target. -/
def pathNameText : String := "\"descriptor\": \"types.json\"\n\"output_name\": \"a/b\"\n"

/-- Settings that are refused for something else than names end a preview of a project that stands
for an order, and the service, which has no such settings, makes the file. -/
theorem pathName_disagrees :
    ∃ entries,
      Poses (mainOrder {}) Run.shopHost {} (shopWith pathNameText).disk Run.shopPath entries ∧
      router.Faithful ∧ Orders ((orderBody (mainOrder {})).write none) (mainOrder {}) ∧
      (∃ a, Run.preview Run.shopHost {} (shopWith pathNameText) =
        .error (.settings .outputNameIsPath) a) ∧
      (router.respond (posted ((orderBody (mainOrder {})).write none))).status = 200 ∧
      ¬ Agrees (mainOrder {}).message
        (router.respond (posted ((orderBody (mainOrder {})).write none))).status
        (router.respond (posted ((orderBody (mainOrder {})).write none))).body
        (Run.preview Run.shopHost {} (shopWith pathNameText)) := by
  have hbody := orders_write (o := mainOrder {}) (by decide +kernel) (textual_mainOrder _)
  obtain ⟨v, entries, hv, hentries, h⟩ := exists_entries (p := fun entries =>
    Settings.namesIn entries = {} ∧ Settings.filled? entries "descriptor" = some "types.json" ∧
    Settings.filled? entries "templates_dir" = none ∧ Settings.text? entries "module" = none ∧
    Settings.isPathName (Settings.outputNameOf entries) = true)
    (show givesWith _ (Settings.documentOf Settings.parser pathNameText) = true by decide +kernel)
  obtain ⟨hnames, hdescriptor, htemplates, hmodule, houtput⟩ := of_decide_eq_true h
  have hposes := poses_shopWith hv hentries (by decide) hnames hdescriptor hmodule htemplates
  obtain ⟨a, -, hshown⟩ := hposes.preview_ends_of_refused (Settings.ofEntries_of_pathName houtput)
    (shopWith pathNameText) rfl
  obtain ⟨text, hmade⟩ : ∃ text, (mainOrder {}).answer = .declaration "Main" text := ⟨_, rfl⟩
  have hrespond := router_faithful.respond hbody
  rw [hmade] at hrespond
  refine ⟨entries, hposes, router_faithful, hbody, ⟨a, hshown⟩, by rw [hrespond]; rfl, ?_⟩
  intro hagrees
  rw [hrespond] at hagrees
  obtain ⟨⟨b, hmade⟩, -⟩ := (hagrees.made "Main" text).1 ⟨rfl, rfl⟩
  rw [hshown] at hmade
  cases hmade

end Service

end BoundaryTypes
