/-
  `Acceptance` — what becomes of a settings file.

  A settings file gives settings, or a fault of settings that says what is wrong with it. Two
  values slip through the checks and fail as something else (`Strays`): a command line that
  cannot be cut into words, and a limit that no double can hold. So do the faults of the parser
  that do not call a text malformed (`Slips`). Two more values pass: a root that counts as nothing
  though it is no mapping, and a limit that is no number. `load_ends` says that there are no
  others.
-/
import BoundaryTypes.Proofs.Disk.Lookups
import BoundaryTypes.Settings.Load

namespace BoundaryTypes

open Outcome

/-- A double that is not at most zero is above zero, or no number. -/
theorem not_le_zero_iff (x : Float) : ¬ x ≤ 0.0 ↔ 0.0 < x ∨ x.isNaN = true := by
  -- Comparison is decided on the unpacked double, one case for each of its forms.
  have hzero : (0.0 : Float).toModel.unpack = .zero .positive := rfl
  show ¬ decide (x.toModel ≤ (0.0 : Float).toModel) = true ↔
    decide ((0.0 : Float).toModel < x.toModel) = true ∨ x.toModel.unpack.isNaN = true
  rw [decide_eq_true_iff, decide_eq_true_iff]
  show ¬ x.toModel.unpack.le (0.0 : Float).toModel.unpack = true ↔
    (0.0 : Float).toModel.unpack.lt x.toModel.unpack = true ∨ x.toModel.unpack.isNaN = true
  rw [hzero]
  cases x.toModel.unpack with
  | infinity sign => cases sign <;> decide
  | notANumber => decide
  | zero sign => cases sign <;> decide
  | finite sign =>
    cases sign with
    | positive => exact iff_of_true Bool.false_ne_true (.inl rfl)
    | negative =>
      exact iff_of_false (fun h => h rfl) fun h => h.elim Bool.false_ne_true Bool.false_ne_true

namespace Path

theorem mem_of_mem_collapse {parts : List String} {x : String} (h : x ∈ collapse parts) :
    x ∈ parts := by
  -- The parts kept so far are a parameter of the fold.
  suffices hacc : ∀ acc : List String, x ∈ parts.foldl
      (fun acc part => if part = ".." then acc.dropLast else acc ++ [part]) acc →
      x ∈ acc ∨ x ∈ parts from (hacc [] h).resolve_left List.not_mem_nil
  clear h
  induction parts with
  | nil => exact fun acc h => .inl h
  | cons part rest ih =>
    intro acc h
    rw [List.foldl_cons] at h
    rcases ih _ h with hx | hx
    · split at hx
      · exact .inl (List.dropLast_subset _ hx)
      · rcases List.mem_append.1 hx with hx | hx
        · exact .inl hx
        · exact .inr (List.mem_singleton.1 hx ▸ List.mem_cons_self)
    · exact .inr (List.mem_cons_of_mem _ hx)

theorem noNull_resolve {p : Path} (h : p.hasNull = false) : (resolve p p).hasNull = false := by
  rw [hasNull_eq_false] at h ⊢
  intro part hpart
  refine h part ?_
  have hmem : part ∈ (p.join p).parts := mem_of_mem_collapse hpart
  unfold join at hmem
  split at hmem
  · exact hmem
  · exact (List.mem_append.1 hmem).elim id id

end Path

namespace Settings

variable {root : Path} {entries : List (String × Yaml.Value)} {settings : Settings}
  {extractor : ExtractorSettings} {v : Yaml.Value} {text : String} {e : Failure} {f : ValueFault}
  {parser : Yaml.Parser}

/-- The value that the text of a settings file holds; a text of blanks holds nothing. -/
def documentOf (parser : Yaml.Parser) (text : String) : Except Yaml.Fault Yaml.Value :=
  if (Text.stripBlank text).isEmpty then .ok .null else parser text

/-- The entries that a value gives to settings: those of a mapping, and none when it counts as
nothing. -/
def entries? (v : Yaml.Value) : Option (List (String × Yaml.Value)) :=
  if v.isNothing then some []
  else
    match v with
    | .mapping entries => some entries
    | _ => none

/-- The name that entries give to the output file. -/
def outputNameOf (entries : List (String × Yaml.Value)) : String :=
  (filled? entries "output_name").getD "index.d.ts"

/-- The entries for the extractor. -/
def extractorEntries (entries : List (String × Yaml.Value)) : List (String × Yaml.Value) :=
  entriesOf (value? entries "extractor")

/-- What is wrong with the settings of an extractor, but is not told as a fault of settings: the
command line cannot be cut into words, or the limit is an integer that no double can hold. -/
inductive Strays (entries : List (String × Yaml.Value)) : ValueFault → Prop
  | words {line : String} {f : Text.WordsFault} (h : value? entries "command" = some (.text line))
      (hwords : Text.words line = .error f) : Strays entries (.words f)
  | limit {command : List String} {n : Int}
      (hcommand : commandOf (value? entries "command") = .ok command)
      (h : value? entries "timeout" = some (.int n)) (hn : Decimal.floatOfInt? n = none) :
      Strays entries .integerBeyondFloats

/-- What a document leads to that is neither settings nor a fault of settings: it cannot be read,
though it is not malformed, or it names the output file well, and the settings of its extractor
stray. -/
inductive Slips (document : Except Yaml.Fault Yaml.Value) : ValueFault → Prop
  | unread {g : Yaml.Fault} (h : document = .error g) (hg : g ≠ .malformed) :
    Slips document (.yaml g)
  | strays {v : Yaml.Value} {entries : List (String × Yaml.Value)} {f : ValueFault}
      (hv : document = .ok v) (hentries : entries? v = some entries)
      (hname : isPathName (outputNameOf entries) = false)
      (hstrays : Strays (extractorEntries entries) f) : Slips document f

/-! ### The extractor -/

/-- A command is refused for its shape, unless it is a text that cannot be cut into words. -/
theorem commandOf_eq_error {given : Option Yaml.Value} (h : commandOf given = .error e) :
    e = .settings .commandShape ∨
      ∃ line f, given = some (.text line) ∧ Text.words line = .error f ∧ e = .value (.words f) := by
  unfold commandOf at h
  split at h
  · cases h
  · cases h
  · next line =>
    cases hwords : Text.words line with
    | ok command =>
      rw [hwords] at h
      cases h
    | error f =>
      rw [hwords] at h
      cases h
      exact .inr ⟨line, f, rfl, hwords, rfl⟩
  · split at h
    · cases h
    · cases h
      exact .inl rfl
  · cases h
    exact .inl rfl

/-- A timeout cannot be read only if it is an integer beyond the floats. -/
theorem secondsOf_eq_error {given : Option Yaml.Value} (h : secondsOf given = .error e) :
    ∃ n, given = some (.int n) ∧ Decimal.floatOfInt? n = none ∧
      e = .value .integerBeyondFloats := by
  unfold secondsOf at h
  split at h
  · next n =>
    split at h
    · cases h
    · next hn =>
      cases h
      exact ⟨n, rfl, hn, rfl⟩
  · cases h
  · cases h
  · cases h

theorem checkTimeout_eq_error {seconds : Float} (h : checkTimeout seconds = .error e) :
    e = .settings .timeoutNotPositive := by
  unfold checkTimeout at h
  split at h
  · cases h
    rfl
  · cases h

/-- A limit that passes the check is above zero, or no number. -/
theorem checkTimeout_eq_ok {seconds limit : Float} (h : checkTimeout seconds = .ok limit) :
    0.0 < limit ∨ limit.isNaN = true := by
  unfold checkTimeout at h
  split at h
  · cases h
  · next hpositive =>
    cases h
    exact (not_le_zero_iff _).1 hpositive

/-- Unless it strays, a fault of the extractor's settings is one of settings. -/
theorem extractorOf_eq_error (h : extractorOf root entries = .error e) :
    (∃ g, e = .settings g ∧ g ≠ .notMapping) ∨ ∃ f, Strays entries f ∧ e = .value f := by
  unfold extractorOf at h
  dsimp only at h
  cases hcommand : commandOf (value? entries "command") with
  | error e' =>
    rw [hcommand] at h
    cases h
    -- The command comes first: its fault is told whatever the limit is.
    rcases commandOf_eq_error hcommand with hshape | ⟨line, f, hline, hwords, rfl⟩
    · exact .inl ⟨_, hshape, nofun⟩
    · exact .inr ⟨_, .words hline hwords, rfl⟩
  | ok command =>
    rw [hcommand, ok_bind] at h
    cases hseconds : secondsOf (value? entries "timeout") with
    | error e' =>
      rw [hseconds] at h
      cases h
      -- A limit is read before it is compared, and an integer may be beyond all doubles.
      obtain ⟨n, hn, hbeyond, rfl⟩ := secondsOf_eq_error hseconds
      exact .inr ⟨_, .limit hcommand hn hbeyond, rfl⟩
    | ok given =>
      rw [hseconds, ok_bind] at h
      cases given with
      | none => cases h
      | some seconds =>
        cases hchecked : checkTimeout seconds with
        | error e' =>
          dsimp only at h
          rw [hchecked] at h
          cases h
          exact .inl ⟨_, checkTimeout_eq_error hchecked, nofun⟩
        | ok limit =>
          dsimp only at h
          rw [hchecked] at h
          cases h

/-- What strays is what the run fails with. -/
theorem Strays.extractorOf (h : Strays entries f) (root : Path) :
    extractorOf root entries = .error (.value f) := by
  unfold Settings.extractorOf
  cases h with
  | words hline hwords =>
    rw [hline, commandOf, hwords]
    rfl
  | limit hcommand hn hbeyond =>
    rw [hcommand, hn, secondsOf, hbeyond]
    rfl

/-- An accepted timeout is positive or not a number, since no comparison with the latter holds. -/
theorem limit_of_extractorOf (h : extractorOf root entries = .ok extractor) :
    0.0 < extractor.timeout ∨ extractor.timeout.isNaN = true := by
  obtain ⟨command, -, h⟩ := bind_eq_ok.1 h
  obtain ⟨given, -, h⟩ := bind_eq_ok.1 h
  split at h
  · cases h
    -- Without a limit of its own, an extractor has two minutes.
    exact .inl (show (0.0 : Float) < 120.0 by decide)
  · obtain ⟨limit, hlimit, h⟩ := bind_eq_ok.1 h
    cases h
    exact checkTimeout_eq_ok hlimit

/-! ### The names -/

theorem namesOf_eq_error (h : namesOf entries = .error e) :
    ∃ g, e = .settings g ∧ g ≠ .notMapping := by
  unfold namesOf at h
  dsimp only at h
  split at h
  · cases h
  · cases h
    exact ⟨_, rfl, nofun⟩

/-- Accepted names can be used. -/
theorem resolve_of_namesOf {names : NameOverrides} (h : namesOf entries = .ok names) :
    ∃ resolved, names.resolve = .ok resolved := by
  unfold namesOf at h
  dsimp only at h
  split at h
  · next resolved hresolved =>
    cases h
    exact ⟨resolved, hresolved⟩
  · cases h

/-! ### All settings -/

/-- What settings promise to those who use them. -/
structure Sound (settings : Settings) : Prop where
  /-- The limit of the extractor is above zero, or no number. -/
  limit : 0.0 < settings.extractor.timeout ∨ settings.extractor.timeout.isNaN = true
  /-- The output file has a name without separators. -/
  outputName : '/' ∉ settings.outputName.toList ∧ '\\' ∉ settings.outputName.toList
  /-- The names of the declaration file can be used. -/
  names : ∃ resolved, settings.names.resolve = .ok resolved

theorem not_mem_of_isPathName {name : String} (h : isPathName name = false) :
    '/' ∉ name.toList ∧ '\\' ∉ name.toList := by
  unfold isPathName at h
  rw [List.any_eq_false] at h
  exact ⟨fun hmem => h _ hmem rfl, fun hmem => h _ hmem rfl⟩

/-- Accepted entries make settings that are sound. -/
theorem sound_of_ofEntries (h : ofEntries root entries = .ok settings) : settings.Sound := by
  unfold ofEntries at h
  dsimp only at h
  split at h
  · cases h
  · next hname =>
    obtain ⟨extractor, hextractor, h⟩ := bind_eq_ok.1 h
    obtain ⟨names, hnames, h⟩ := bind_eq_ok.1 h
    cases h
    exact ⟨limit_of_extractorOf hextractor, not_mem_of_isPathName (Bool.eq_false_iff.2 hname),
      resolve_of_namesOf hnames⟩

/-- Entries fail with something else than a fault of settings exactly if the name of the output file
is accepted and the extractor's settings stray. -/
theorem ofEntries_eq_error (h : ofEntries root entries = .error e) :
    (∃ g, e = .settings g ∧ g ≠ .notMapping) ∨
      isPathName (outputNameOf entries) = false ∧
        ∃ f, Strays (extractorEntries entries) f ∧ e = .value f := by
  unfold ofEntries at h
  dsimp only at h
  split at h
  · cases h
    exact .inl ⟨_, rfl, nofun⟩
  · next hname =>
    -- From here on the name is accepted, and the extractor comes before the names.
    have hname : isPathName (outputNameOf entries) = false := Bool.eq_false_iff.2 hname
    cases hextractor : extractorOf root (extractorEntries entries) with
    | error e' =>
      rw [extractorEntries] at hextractor
      rw [hextractor] at h
      cases h
      exact (extractorOf_eq_error hextractor).imp_right fun hstrays => ⟨hname, hstrays⟩
    | ok extractor =>
      rw [extractorEntries] at hextractor
      rw [hextractor] at h
      cases hnames : namesOf (entriesOf (value? entries "names")) with
      | error e' =>
        rw [hnames] at h
        cases h
        exact .inl (namesOf_eq_error hnames)
      | ok names =>
        rw [hnames] at h
        cases h

/-- Entries that stray are refused with the very fault in which they stray. -/
theorem ofEntries_of_strays (hname : isPathName (outputNameOf entries) = false)
    (h : Strays (extractorEntries entries) f) (root : Path) :
    ofEntries root entries = .error (.value f) := by
  have hgiven : isPathName ((filled? entries "output_name").getD "index.d.ts") = false := hname
  have hextractor : extractorOf root (entriesOf (value? entries "extractor")) = .error (.value f) :=
    h.extractorOf root
  unfold ofEntries
  dsimp only
  rw [hgiven, if_neg Bool.false_ne_true, hextractor]
  rfl

/-! ### The text of a settings file -/

theorem ofValue_eq (root : Path) (v : Yaml.Value) :
    ofValue root v =
      match entries? v with
      | some entries => ofEntries root entries
      | none => .error (.settings .notMapping) := by
  unfold ofValue entries?
  split
  · rfl
  · cases v <;> rfl

theorem ofText_eq (root : Path) (text : String) (parser : Yaml.Parser) :
    ofText root text parser =
      match documentOf parser text with
      | .ok v => ofValue root v
      | .error f => .error (ofYamlFault f) := by
  unfold ofText documentOf
  split
  · rfl
  · rfl

theorem ofYamlFault_of_ne {g : Yaml.Fault} (h : g ≠ .malformed) :
    ofYamlFault g = .value (.yaml g) := by
  unfold ofYamlFault
  split
  · exact absurd rfl h
  · rfl

theorem ofText_of_document (h : documentOf parser text = .ok v) (root : Path) :
    ofText root text parser = ofValue root v := by
  rw [ofText_eq, h]

theorem entries?_eq_none :
    entries? v = none ↔ v.isNothing = false ∧ ∀ entries, v ≠ .mapping entries := by
  unfold entries?
  cases hnothing : v.isNothing with
  | true => simp
  | false =>
    rw [if_neg Bool.false_ne_true]
    cases v <;> simp

/-- A value is refused as no mapping exactly if it is none and does not count as nothing. -/
theorem ofValue_eq_notMapping :
    ofValue root v = .error (.settings .notMapping) ↔
      v.isNothing = false ∧ ∀ entries, v ≠ .mapping entries := by
  rw [ofValue_eq, ← entries?_eq_none]
  cases hentries : entries? v with
  | none => simp
  | some entries =>
    refine iff_of_false (fun h => ?_) nofun
    rcases ofEntries_eq_error h with ⟨g, hg, hne⟩ | ⟨-, f, -, hf⟩
    · exact hne (Failure.settings.inj hg).symm
    · cases hf

/-- Unless its document slips through, a text fails with a fault of settings. -/
theorem ofText_eq_error (h : ofText root text parser = .error e) :
    (∃ g, e = .settings g) ∨ ∃ f, Slips (documentOf parser text) f ∧ e = .value f := by
  cases hdocument : documentOf parser text with
  | error g =>
    rw [ofText_eq, hdocument] at h
    by_cases hg : g = .malformed
    · -- A malformed text is a fault of settings by definition.
      subst hg
      cases h
      exact .inl ⟨_, rfl⟩
    · cases h
      exact .inr ⟨_, .unread rfl hg, ofYamlFault_of_ne hg⟩
  | ok v =>
    rw [ofText_of_document hdocument, ofValue_eq] at h
    cases hentries : entries? v with
    | none =>
      rw [hentries] at h
      cases h
      exact .inl ⟨_, rfl⟩
    | some entries =>
      rw [hentries] at h
      rcases ofEntries_eq_error h with ⟨g, hg, -⟩ | ⟨hname, f, hstrays, hf⟩
      · exact .inl ⟨g, hg⟩
      · exact .inr ⟨f, .strays rfl hentries hname hstrays, hf⟩

/-- What slips through is what the text fails with. -/
theorem ofText_of_slips (h : Slips (documentOf parser text) f) (root : Path) :
    ofText root text parser = .error (.value f) := by
  cases h with
  | @unread g hg hne =>
    rw [ofText_eq, hg]
    exact congrArg Except.error (ofYamlFault_of_ne hne)
  | strays hv hentries hname hstrays =>
    rw [ofText_of_document hv, ofValue_eq, hentries]
    exact ofEntries_of_strays hname hstrays root

/-- A text whose document can be read fails with something else than a fault of settings exactly if
the entries that it gives do. -/
theorem ofText_eq_error_iff (hyaml : ∀ f, documentOf parser text = .error f → f = .malformed) :
    (∀ e, ofText root text parser = .error e → ∃ g, e = .settings g) ↔
      ∀ v entries, documentOf parser text = .ok v → entries? v = some entries →
        isPathName (outputNameOf entries) = false → ∀ f, ¬ Strays (extractorEntries entries) f := by
  constructor
  · intro h v entries hv hentries hname f hstrays
    -- What strays would be a failure that is none of settings.
    obtain ⟨g, hg⟩ := h _ (ofText_of_slips (.strays hv hentries hname hstrays) root)
    cases hg
  · intro h e he
    refine (ofText_eq_error he).resolve_right ?_
    rintro ⟨f, hslips, -⟩
    cases hslips with
    | unread hg hne => exact hne (hyaml _ hg)
    | strays hv hentries hname hstrays => exact h _ _ hv hentries hname f hstrays

theorem sound_of_ofText (h : ofText root text parser = .ok settings) : settings.Sound := by
  rw [ofText_eq] at h
  split at h
  · rw [ofValue_eq] at h
    split at h
    · exact sound_of_ofEntries h
    · cases h
  · cases h

variable {d : Disk} {p file : Path} {bytes : ByteArray} {s : String}

/-- The settings file that a path asks for, when it leads to a directory and when it does not. -/
def namedFile (p : Path) (isDirectory : Bool) : Path :=
  if isDirectory then p.joinText settingsFileName
  else if p.name ≠ settingsFileName then p.parent.joinText settingsFileName
  else p

/-- The settings file lies in the path that is given if that is a directory; else it lies beside it,
unless it is that path itself. -/
theorem fileOf_eq (d : Disk) (p : Path) :
    fileOf d p = (if p.hasNull then .ok false else Failure.ofSystem (d.isDirectory p)) >>=
      fun isDirectory => Failure.checkName (namedFile p isDirectory) >>=
        fun _ => .ok (Path.resolve (namedFile p isDirectory) (namedFile p isDirectory)) := by
  unfold fileOf
  cases p.hasNull <;> rfl

theorem noNull_of_fileOf (h : fileOf d p = .ok file) : file.hasNull = false := by
  rw [fileOf_eq] at h
  obtain ⟨isDirectory, -, h⟩ := bind_eq_ok.1 h
  obtain ⟨_, hname, h⟩ := bind_eq_ok.1 h
  cases h
  exact Path.noNull_resolve (Replacement.checkName_eq_ok.1 hname)

/-- A settings file that is there gives the settings of its text. -/
theorem load_of_file (hfile : fileOf d p = .ok file) (hbytes : d.readBytes file = .ok bytes)
    (hutf8 : Text.Utf8.decode bytes = .ok s) :
    load d p parser = ofText file.parent (Text.withUniformLineEnds s) parser := by
  obtain ⟨k, mode, hplace, hentry⟩ := Disk.readBytes_eq_ok.1 hbytes
  -- The file is there, so its text is read, and the text is that of its bytes.
  have hstatus : Failure.ofSystem (d.status file) = .ok (some (.file bytes mode)) := by
    rw [Disk.status_of_place hplace, hentry]
    rfl
  have htext : d.readText file = .ok (Text.withUniformLineEnds s) := by
    refine Disk.readText_eq_ok.2 ⟨noNull_of_fileOf hfile, bytes, hbytes, ?_⟩
    rw [Disk.textOf, hutf8]
    rfl
  rw [load, hfile, ok_bind, hstatus, ok_bind]
  dsimp only
  rw [htext, ok_bind]

/-- **What a settings file leads to.** Let the settings file of a project be UTF-8. It leads to
settings, to a fault of settings, or to the fault of a value, and to the last exactly if its
document slips through with that very fault. So if the document is malformed or readable, settings
and faults of settings are all that becomes of it, unless the settings of the extractor stray. A
document that is no mapping and does not count as nothing is refused for that. And settings that
are given have a name without separators for the output file, names that can be used, and a limit
above zero, or one that is no number. -/
theorem load_ends (hfile : fileOf d p = .ok file) (hbytes : d.readBytes file = .ok bytes)
    (hutf8 : Text.Utf8.decode bytes = .ok s) :
    let document := documentOf parser (Text.withUniformLineEnds s)
    (∀ e, load d p parser = .error e → (∃ g, e = .settings g) ∨ ∃ f, e = .value f) ∧
    (∀ f, load d p parser = .error (.value f) ↔ Slips document f) ∧
    ((∀ f, document = .error f → f = .malformed) →
      ((∀ e, load d p parser = .error e → ∃ g, e = .settings g) ↔
        ∀ v entries, document = .ok v → entries? v = some entries →
          isPathName (outputNameOf entries) = false →
          ∀ f, ¬ Strays (extractorEntries entries) f)) ∧
    (∀ v, document = .ok v →
      (load d p parser = .error (.settings .notMapping) ↔
        v.isNothing = false ∧ ∀ entries, v ≠ .mapping entries)) ∧
    ∀ settings, load d p parser = .ok settings → settings.Sound := by
  intro document
  rw [load_of_file hfile hbytes hutf8]
  refine ⟨fun e he => ?_, fun f => ⟨fun h => ?_, fun h => ofText_of_slips h _⟩,
    ofText_eq_error_iff, fun v hv => ?_, fun settings => sound_of_ofText⟩
  · exact (ofText_eq_error he).imp_right fun ⟨f, _, hf⟩ => ⟨f, hf⟩
  · -- The fault of a value is none of settings, and it is the one that slips through.
    rcases ofText_eq_error h with ⟨g, hg⟩ | ⟨f', hslips, hf⟩
    · cases hg
    · cases hf
      exact hslips
  · rw [ofText_of_document hv]
    exact ofValue_eq_notMapping

/-! ### Two settings files -/

/-- The disk of a project with a settings file. -/
def projectWith (text : String) : Disk :=
  ⟨[(["shop"], .directory), (["shop", settingsFileName], .file text.toUTF8 0o644)]⟩

/-- The settings file of that project. -/
def projectFile : Path := Path.ofRoot ["shop", settingsFileName]

/-- The value with which an outcome fails, if it fails with one. -/
def valueFault? {α : Type} : Except Failure α → Option ValueFault
  | .error (.value f) => some f
  | _ => none

theorem valueFault?_eq_some {α : Type} {x : Except Failure α} :
    valueFault? x = some f ↔ x = .error (.value f) := by
  unfold valueFault?
  split
  · next g => simp
  · next h => exact iff_of_false nofun (h f)

/-- Settings with a command line and a limit. -/
def runText : String :=
  "\"extractor\":\n  \"command\": \"node 'run it.js'\"\n  \"timeout\": \"30\"\n"

/-- Settings with a command line that ends within a quotation. -/
def quoteText : String := "\"extractor\":\n  \"command\": \"it's\"\n"

theorem exists_document {text : String} (h : (documentOf Settings.parser text).isOk = true) :
    ∃ v, documentOf Settings.parser text = .ok v := by
  cases hdocument : documentOf Settings.parser text with
  | ok v => exact ⟨v, rfl⟩
  | error f =>
    rw [hdocument] at h
    cases h

/-- Settings that are given, with a limit above zero. -/
theorem load_ends_run : ∃ settings,
    load (projectWith runText) (Path.ofRoot ["shop"]) = .ok settings ∧
    settings.extractor.command = ["node", "run it.js"] ∧ settings.Sound := by
  -- Only the command is decided: settings hold a double, and doubles have no decidable equality.
  have hcommand : (load (projectWith runText) (Path.ofRoot ["shop"])).toOption.map
      (·.extractor.command) = some ["node", "run it.js"] := by
    decide +kernel
  have hfile : fileOf (projectWith runText) (Path.ofRoot ["shop"]) = .ok projectFile := rfl
  obtain ⟨-, -, -, -, hsound⟩ := load_ends hfile rfl (Text.Utf8.decode_toUTF8 runText)
  cases hload : load (projectWith runText) (Path.ofRoot ["shop"]) with
  | error e =>
    rw [hload] at hcommand
    cases hcommand
  | ok settings =>
    rw [hload] at hcommand
    exact ⟨settings, rfl, Option.some.inj hcommand, hsound settings hload⟩

/-- Settings that can be read, and still end in a failure that is none of settings. -/
theorem load_quote : fileOf (projectWith quoteText) (Path.ofRoot ["shop"]) = .ok projectFile ∧
    (projectWith quoteText).readBytes projectFile = .ok quoteText.toUTF8 ∧
    Text.Utf8.decode quoteText.toUTF8 = .ok quoteText ∧
    (∃ v, documentOf Settings.parser (Text.withUniformLineEnds quoteText) = .ok v) ∧
    load (projectWith quoteText) (Path.ofRoot ["shop"]) = .error (.value (.words .unclosedQuote)) :=
  ⟨rfl, rfl, Text.Utf8.decode_toUTF8 quoteText, exists_document (by decide +kernel),
    valueFault?_eq_some.1 (by decide +kernel)⟩

end Settings

end BoundaryTypes
