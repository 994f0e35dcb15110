/-
  `Wholesale` — when a run leaves exactly the bytes of its text.

  A run compares the text that it made with the text of the file that is there, where
  line ends are uniform, and rewrites the file when they differ. So it leaves the bytes
  of its text for every file but two kinds (`generate_wholesale`): a file that is no
  UTF-8 makes the run fail, and a file that differs from the text in its line ends alone
  counts as up to date and stays (`generate_keeps_line_ends`).
-/
import BoundaryTypes.Proofs.DeclarationFile.Nesting
import BoundaryTypes.Proofs.Descriptor.RoundTrip
import BoundaryTypes.Proofs.Disk.Lookups
import BoundaryTypes.Proofs.Run.Failing

namespace BoundaryTypes

open Outcome Text

namespace Run

variable {host : Host} {request : Request} {a a' : Activity} {p : Plan} {current text : String}

/-- A run ends with exactly the bytes of a text in a file, and it says that nothing changed only if
they were there before. -/
def Writes (run : RunM Outcome) (a : Activity) (file : Path) (text : String) : Prop :=
  ∃ o a', run a = .ok o a' ∧ a'.disk.readBytes file = .ok text.toUTF8 ∧
    (o.changed = false → a.disk.readBytes file = .ok text.toUTF8)

/-! ### Carrying out a plan -/

/-- A target that cannot be read makes the run fail. -/
theorem not_writes_of_unread {f : Failure} (h : a.disk.readExisting p.target = .error f) :
    ¬ Writes (carryOut .never host false p) a p.target p.content := by
  rintro ⟨o, a', hrun, -⟩
  rw [carryOut, bind_run_of_error _ (fromDisk_run_of_error h)] at hrun
  cases hrun

/-- A target that reads as the planned text is not touched. -/
theorem carryOut_upToDate (h : a.disk.readExisting p.target = .ok p.content) :
    ∃ o a', carryOut .never host false p a = .ok o a' ∧ o.changed = false ∧ a'.disk = a.disk := by
  have hread : fromDisk (fun d => d.readExisting p.target) a = .ok p.content a :=
    fromDisk_run_of_ok h
  have hsame : (p.content != p.content) = false := bne_self_eq_false _
  rw [carryOut, bind_run_of_ok _ hread]
  dsimp only
  rw [hsame]
  exact ⟨_, _, rfl, rfl, rfl⟩

/-- A run that reads its text in the target leaves the target alone, so it ends with the bytes of
the text exactly if they were there before. -/
theorem writes_iff_of_upToDate (h : a.disk.readExisting p.target = .ok p.content) :
    Writes (carryOut .never host false p) a p.target p.content ↔
      a.disk.readBytes p.target = .ok p.content.toUTF8 := by
  obtain ⟨o, a', hrun, -, hdisk⟩ : ∃ o a', carryOut .never host false p a = .ok o a' ∧
      o.changed = false ∧ a'.disk = a.disk := carryOut_upToDate h
  constructor
  · rintro ⟨o', b, hrun', hbytes, -⟩
    rw [hrun] at hrun'
    cases hrun'
    exact hdisk ▸ hbytes
  · intro hbytes
    exact ⟨o, a', hrun, hdisk ▸ hbytes, fun _ => hbytes⟩

/-- A target that reads otherwise is replaced. -/
theorem writes_of_other (h : a.disk.readExisting p.target = .ok current)
    (hother : current ≠ p.content)
    (hwrite : (Disk.writeUnder .never a.disk host.mask p.target p.content).fault = none) :
    Writes (carryOut .never host false p) a p.target p.content := by
  have hread : fromDisk (fun d => d.readExisting p.target) a = .ok current a :=
    fromDisk_run_of_ok h
  have hchanged : (current != p.content) = true := bne_iff_ne.2 hother
  have hrun := write_run .never host p.target p.content a
  dsimp only at hrun
  rw [hwrite] at hrun
  rw [Writes, carryOut, bind_run_of_ok _ hread]
  dsimp only
  -- The run is no dry one, and the target differs, so it is written.
  rw [hchanged, if_neg Bool.false_ne_true, if_pos rfl, bind_run_of_ok _ hrun]
  exact ⟨_, _, report_run _ _ _, Disk.readBytes_writeUnder hwrite,
    fun h => absurd h.symm Bool.false_ne_true⟩

/-- A plan leaves exactly the bytes of its text, unless the target is no UTF-8, or is the text with
other line ends. -/
theorem carryOut_writes_iff (h : a.disk.Replaceable p.target) (hcontent : p.content ≠ "") :
    Writes (carryOut .never host false p) a p.target p.content ↔
      ∀ bytes, a.disk.readBytes p.target = .ok bytes →
        ∃ s, Utf8.decode bytes = .ok s ∧ (withUniformLineEnds s = p.content → s = p.content) := by
  have hwrite := h.writes host.mask hcontent
  rcases h.readExisting with ⟨bytes, hbytes, hread⟩ | ⟨hmissing, hread⟩
  · have honly : ∀ other, a.disk.readBytes p.target = .ok other → other = bytes := by
      intro other hother
      rw [hbytes] at hother
      exact (Except.ok.inj hother).symm
    rw [Disk.textOf] at hread
    -- A file that is no UTF-8 cannot be compared with the text.
    cases hdecode : Utf8.decode bytes with
    | error f =>
      rw [hdecode] at hread
      refine iff_of_false (not_writes_of_unread hread) fun hall => ?_
      obtain ⟨s, hs, -⟩ := hall bytes hbytes
      rw [hdecode] at hs
      cases hs
    | ok s =>
      rw [hdecode] at hread
      have hexact : bytes = s.toUTF8 := Utf8.decode_eq_ok.1 hdecode
      -- What is compared has uniform line ends, so a file may be equal without having the same
      -- bytes.
      by_cases hsame : withUniformLineEnds s = p.content
      · have hread : a.disk.readExisting p.target = .ok p.content := hread.trans (hsame ▸ rfl)
        rw [writes_iff_of_upToDate hread]
        constructor
        · intro hwritten other hother
          rw [hwritten] at hother
          cases hother
          exact ⟨p.content, Utf8.decode_toUTF8 _, fun _ => rfl⟩
        · intro hall
          obtain ⟨t, ht, htext⟩ := hall bytes hbytes
          rw [hdecode] at ht
          cases ht
          rw [hbytes, hexact, htext hsame]
      · refine iff_of_true (writes_of_other hread hsame hwrite) fun other hother => ?_
        obtain rfl := honly other hother
        exact ⟨s, hdecode, fun heq => absurd heq hsame⟩
  · exact iff_of_true (writes_of_other hread hcontent.symm hwrite)
      fun bytes hbytes => absurd hbytes (hmissing bytes)

/-! ### The whole run -/

/-- What is made for a project is planned for its file. -/
theorem plan_of_make {path : Path} {settings : Settings} {d : Descriptor} {t u : Activity}
    (hpath : (lift (project host request) : RunM Path) a = .ok path t)
    (hmake : make host path request t = .ok (settings, d, text) u) :
    ∃ b, plan host request a =
      .ok ⟨settings.outputPath d.modulePath, d.moduleName, text⟩ b := by
  have hreport : report (.starting path) t =
      .ok () { t with events := t.events ++ [.starting path] } := rfl
  -- A plan reports its start first, which leaves the disk as it is.
  have hdisk : ({ t with events := t.events ++ [.starting path] } : Activity).disk = t.disk := rfl
  obtain ⟨b, hb⟩ := (readsOnly_make host path request).ok_of_disk_eq hmake hdisk
  refine ⟨b, ?_⟩
  rw [plan, bind_run_of_ok _ hpath, bind_run_of_ok _ hreport, bind_run_of_ok _ hb]
  rfl

/-- A preview that ends well has a plan for the same text. -/
theorem exists_plan (h : preview host request a = .ok text a') :
    ∃ p b, plan host request a = .ok p b ∧ p.content = text := by
  rw [preview, bind_run_eq_ok] at h
  obtain ⟨path, t, hpath, h⟩ := h
  rw [bind_run_eq_ok] at h
  obtain ⟨⟨settings, d, content⟩, u, hmake, h⟩ := h
  obtain ⟨rfl, -⟩ := pure_run_eq_ok.1 h
  obtain ⟨b, hb⟩ := plan_of_make hpath hmake
  exact ⟨_, b, hb, rfl⟩

/-- A run leaves what carrying out its plan leaves. -/
theorem generate_writes_iff {b : Activity} (hplan : plan host request a = .ok p b)
    (h : a.disk.Replaceable p.target) (hcontent : p.content ≠ "") :
    Writes (generate host request false) a p.target p.content ↔
      ∀ bytes, a.disk.readBytes p.target = .ok bytes →
        ∃ s, Utf8.decode bytes = .ok s ∧
          (withUniformLineEnds s = p.content → s = p.content) := by
  have hdisk := (readsOnly_plan host request).disk_of_ok hplan
  rw [← hdisk] at h ⊢
  rw [← carryOut_writes_iff h hcontent]
  rw [Writes, Writes, generate, generateUnder, bind_run_of_ok _ hplan, hdisk]

/-! ### A project whose file has other line ends -/

/-- A text whose lines end in `\r\n`. -/
def withReturns (s : String) : String :=
  String.ofList (s.toList.flatMap fun c => if c = '\n' then ['\r', '\n'] else [c])

/-- Carriage returns before line ends are lost in reading. -/
theorem withUniformLineEnds_withReturns {s : String} (h : '\r' ∉ s.toList) :
    withUniformLineEnds (withReturns s) = s := by
  -- Character by character: a line feed became two, which are one line end again.
  have hchars : ∀ cs : List Char, '\r' ∉ cs →
      unifyLineEnds (cs.flatMap fun c => if c = '\n' then ['\r', '\n'] else [c]) = cs := by
    intro cs hcs
    induction cs with
    | nil => rfl
    | cons c rest ih =>
      rw [List.mem_cons, not_or] at hcs
      rw [List.flatMap_cons]
      by_cases hc : c = '\n'
      · rw [if_pos hc, hc]
        exact congrArg ('\n' :: ·) (ih hcs.2)
      · rw [if_neg hc, List.singleton_append, unifyLineEnds]
        · rw [ih hcs.2, if_neg (Ne.symm hcs.1)]
        · rintro r rfl
          exact absurd rfl hcs.1
  rw [withUniformLineEnds, withReturns, String.toList_ofList, hchars _ h, String.ofList_toList]

/-- A text with line ends is not the one with returns before them. -/
theorem withReturns_ne {s : String} (hreturn : '\r' ∉ s.toList) (hline : '\n' ∈ s.toList) :
    withReturns s ≠ s := by
  intro h
  have hmem : '\r' ∈ (withReturns s).toList := by
    rw [withReturns, String.toList_ofList, List.mem_flatMap]
    exact ⟨'\n', hline, by decide⟩
  rw [h] at hmem
  exact hreturn hmem

/-- A module that sends no messages. -/
def mainDescriptor : Descriptor := ⟨"Main", .union [], none⟩

def mainFile : DeclarationFile where
  names := .standard
  declarations := [⟨"FromElm", TypeExpr.declarationText "FromElm" (.union [])⟩]
  segments := ["Main"]
  flagsType := DeclarationFile.unitType

def mainText : String := mainFile.render

theorem assemble_main : DeclarationFile.assemble .standard mainDescriptor = .ok mainFile := by
  have hjson : DeclarationFile.jsonValueDeclarations mainDescriptor.types = [] := by
    decide +kernel
  have hfile : DeclarationFile.assemble .standard mainDescriptor = .ok
      { mainFile with
        declarations := mainFile.declarations ++
          DeclarationFile.jsonValueDeclarations mainDescriptor.types } := rfl
  rw [hfile, hjson]
  rfl

def shopHost : Host := ⟨Path.ofRoot ["shop"], 0o022, { runner := fun _ _ => .ok "" }⟩

def shopPath : Path := Path.ofRoot ["shop"]

def shopTarget : Path := Path.ofRoot ["shop", "src", "Main", "index.d.ts"]

def shopRequest : Request := { descriptor := some "types.json" }

/-- A project with the descriptor of the module, and with other entries. -/
def shop (others : List (Place × Entry)) : Activity where
  disk := ⟨(["shop"], .directory) ::
    (["shop", "types.json"], .file (mainDescriptor.write none).toUTF8 0o644) :: others⟩

theorem make_shop {a : Activity}
    (hsettings : Settings.load a.disk shopPath = .ok { root := shopPath })
    (hload : Extraction.load a.disk none (shopPath.joinText "types.json") = .ok mainDescriptor) :
    ∃ b, make shopHost shopPath shopRequest a =
      .ok ({ root := shopPath }, mainDescriptor, mainText) b := by
  let t : Activity :=
    { a with events := a.events ++ [.readingDescriptor (shopPath.joinText "types.json")] }
  -- The descriptor is read from the file of the request, and keeps its name.
  have ht : obtain shopHost { root := shopPath } shopPath shopRequest a = .ok mainDescriptor t := by
    have hreport : report (.readingDescriptor (shopPath.joinText "types.json")) a = .ok () t := rfl
    show readDescriptor none (shopPath.joinText "types.json") a = _
    rw [readDescriptor, bind_run_of_ok _ hreport]
    exact fromDisk_run_of_ok hload
  have hrename : rename shopRequest mainDescriptor t = .ok mainDescriptor t := rfl
  have hnames : (lift (({} : NameOverrides).resolve.mapError fun f => .settings (.names f)) :
      RunM DeclarationNames) t = .ok .standard t := rfl
  have hassemble : ∃ b,
      assemble shopHost { root := shopPath } mainDescriptor t = .ok mainText b := by
    rw [assemble, bind_run_of_ok _ hnames, assemble_main]
    exact ⟨_, rfl⟩
  obtain ⟨b, hb⟩ := hassemble
  refine ⟨b, ?_⟩
  rw [make, bind_run_of_ok _ (fromDisk_run_of_ok hsettings), bind_run_of_ok _ ht,
    bind_run_of_ok _ hrename, bind_run_of_ok _ hb]
  rfl

theorem read_mainDescriptor (fallback : Option String) :
    Descriptor.read fallback (mainDescriptor.write none) = .ok mainDescriptor := by
  have hparts : ∀ e ∈ mainDescriptor.types, e.Everywhere TypeExpr.Encodable := by
    refine List.forall_mem_singleton.2 ?_
    exact TypeExpr.everywhere_union.2 ⟨fun _ hv => absurd hv List.not_mem_nil,
      fun _ hv => absurd hv List.not_mem_nil⟩
  have h : mainDescriptor.Encodable := ⟨by decide, rfl, hparts⟩
  exact (Descriptor.read_write_iff mainDescriptor none fallback mainDescriptor).2 ⟨rfl, h⟩

/-- The descriptor of a file is the one that its text is read as. -/
theorem load_of_readText {d : Disk} {file : Path} {fallback : Option String} {text : String}
    (h : d.readText file = .ok text) :
    Extraction.load d fallback file = (Descriptor.read fallback text).mapError .type := by
  rw [Extraction.load, h]
  rfl

theorem load_shop {d : Disk} {path : Path} {fallback : Option String} (hnull : path.hasNull = false)
    (hbytes : d.readBytes path = .ok (mainDescriptor.write none).toUTF8) :
    Extraction.load d fallback path = .ok mainDescriptor := by
  have hreturn : '\r' ∉ (mainDescriptor.write none).toList := by decide +kernel
  have htext : d.readText path = .ok (mainDescriptor.write none) :=
    Disk.readText_eq_ok.2 ⟨hnull, _, hbytes, Disk.textOf_toUTF8 hreturn⟩
  rw [load_of_readText htext, read_mainDescriptor]
  rfl

/-- The project before its first run. -/
def newShop : Activity := shop []

/-- The project after a tool has changed the line ends of its file. -/
def returnedShop : Activity := shop
  [(["shop", "src"], .directory), (["shop", "src", "Main"], .directory),
    (["shop", "src", "Main", "index.d.ts"], .file (withReturns mainText).toUTF8 0o644)]

theorem make_newShop : ∃ b, make shopHost shopPath shopRequest newShop =
    .ok ({ root := shopPath }, mainDescriptor, mainText) b :=
  make_shop rfl (load_shop rfl rfl)

theorem make_returnedShop : ∃ b, make shopHost shopPath shopRequest returnedShop =
    .ok ({ root := shopPath }, mainDescriptor, mainText) b :=
  make_shop rfl (load_shop rfl rfl)

theorem lift_project_shop (a : Activity) :
    (lift (project shopHost shopRequest) : RunM Path) a = .ok shopPath a := rfl

theorem preview_shop {a : Activity} (h : ∃ b, make shopHost shopPath shopRequest a =
    .ok ({ root := shopPath }, mainDescriptor, mainText) b) :
    ∃ a', preview shopHost shopRequest a = .ok mainText a' := by
  obtain ⟨b, hb⟩ := h
  refine ⟨b, ?_⟩
  rw [preview, bind_run_of_ok _ (lift_project_shop a), bind_run_of_ok _ hb]
  rfl

theorem plan_shop {a : Activity} (h : ∃ b, make shopHost shopPath shopRequest a =
    .ok ({ root := shopPath }, mainDescriptor, mainText) b) :
    ∃ b, plan shopHost shopRequest a = .ok ⟨shopTarget, "Main", mainText⟩ b := by
  obtain ⟨b, hb⟩ := h
  exact plan_of_make (lift_project_shop a) hb

theorem mainText_eq : mainText =
    DeclarationFile.declarationsText mainFile.declarations
      ++ DeclarationFile.interfaceText "ElmApp" "FromElm" ++ "\n"
      ++ DeclarationFile.constantText "Elm" (DeclarationFile.initText "ElmApp" "null") ["Main"] :=
  rfl

theorem not_mem_mainText : '\r' ∉ mainText.toList :=
  (DeclarationFile.legible_render assemble_main).not_mem_return

theorem mem_mainText : '\n' ∈ mainText.toList := by
  rw [mainText_eq, String.toList_append, String.toList_append]
  exact List.mem_append_left _ (List.mem_append_right _ (by decide))

theorem mainText_ne : mainText ≠ "" := by
  intro h
  have hmem := mem_mainText
  rw [h] at hmem
  exact absurd hmem List.not_mem_nil

theorem replaceable_newShop : newShop.disk.Replaceable shopTarget :=
  Disk.replaceable_of_length 4 rfl rfl rfl (by decide) rfl (by decide)

theorem replaceable_returnedShop : returnedShop.disk.Replaceable shopTarget :=
  Disk.replaceable_of_length 5 rfl rfl rfl (by decide) rfl (by decide)

/-! ### Regeneration -/

/-- **Wholesale regeneration.** If a project has a text and its target can be replaced, a run leaves
exactly the bytes of the text, and says that nothing changed only if they were there before, if and
only if the target was missing, or was UTF-8 and not the text with other line ends. -/
theorem generate_wholesale (host : Host) (request : Request) (a a' : Activity) (text : String)
    (hpreview : preview host request a = .ok text a') (htext : text ≠ "") :
    ∃ p b, plan host request a = .ok p b ∧ p.content = text ∧
      (a.disk.Replaceable p.target →
        (Writes (generate host request false) a p.target text ↔
          ∀ bytes, a.disk.readBytes p.target = .ok bytes →
            ∃ s, Utf8.decode bytes = .ok s ∧ (withUniformLineEnds s = text → s = text))) := by
  obtain ⟨p, b, hplan, rfl⟩ := exists_plan hpreview
  exact ⟨p, b, hplan, rfl, fun h => generate_writes_iff hplan h htext⟩

theorem generate_wholesale_newShop :
    (∃ a', preview shopHost shopRequest newShop = .ok mainText a') ∧ mainText ≠ "" ∧
      newShop.disk.Replaceable shopTarget ∧
      Writes (generate shopHost shopRequest false) newShop shopTarget mainText := by
  obtain ⟨a', hpreview⟩ := preview_shop make_newShop
  obtain ⟨b, hplan⟩ := plan_shop make_newShop
  obtain ⟨p, c, hp, -, hwhole⟩ :=
    generate_wholesale shopHost shopRequest newShop a' mainText hpreview mainText_ne
  rw [hplan] at hp
  cases hp
  refine ⟨⟨a', hpreview⟩, mainText_ne, replaceable_newShop, ?_⟩
  refine (hwhole replaceable_newShop).2 fun bytes hbytes => ?_
  cases hbytes

/-- A file whose line ends were changed counts as up to date, and it keeps its bytes. -/
theorem generate_keeps_line_ends :
    (∃ a', preview shopHost shopRequest returnedShop = .ok mainText a') ∧ mainText ≠ "" ∧
      returnedShop.disk.Replaceable shopTarget ∧ withReturns mainText ≠ mainText ∧
      ∃ o a', generate shopHost shopRequest false returnedShop = .ok o a' ∧ o.changed = false ∧
        a'.disk.readBytes shopTarget = .ok (withReturns mainText).toUTF8 := by
  obtain ⟨b, hplan⟩ := plan_shop make_returnedShop
  have hdisk := (readsOnly_plan shopHost shopRequest).disk_of_ok hplan
  have hbytes : b.disk.readBytes shopTarget = .ok (withReturns mainText).toUTF8 := by
    rw [hdisk]
    rfl
  -- The text of the file is the planned one, once its line ends are uniform.
  have hread : b.disk.readExisting shopTarget = .ok mainText := by
    rw [Disk.readExisting_of_bytes rfl hbytes, Disk.textOf, Utf8.decode_toUTF8]
    exact congrArg Except.ok (withUniformLineEnds_withReturns not_mem_mainText)
  obtain ⟨o, a', hrun, hchanged, hkept⟩ : ∃ o a',
      carryOut .never shopHost false ⟨shopTarget, "Main", mainText⟩ b = .ok o a' ∧
        o.changed = false ∧ a'.disk = b.disk := carryOut_upToDate hread
  have hgenerate : generate shopHost shopRequest false returnedShop = .ok o a' := by
    rw [generate, generateUnder, bind_run_of_ok _ hplan]
    exact hrun
  refine ⟨preview_shop make_returnedShop, mainText_ne, replaceable_returnedShop,
    withReturns_ne not_mem_mainText mem_mainText, o, a', hgenerate, hchanged, ?_⟩
  rw [hkept]
  exact hbytes

end Run

end BoundaryTypes
