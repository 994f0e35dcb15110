/-
  `Writing` — the texts of a declaration file, as a translator writes them.

  A declaration file is made in a session, which checks the types and leaves the texts to
  `TypeExpr.declarationText`. A translator that is asked for the messages and then for the flags
  writes their declarations as it goes, and keeps those of the aliases inside. It follows the
  session, so it comes to the same texts in the same order, or to the same fault
  (`texts_declarationsOf`, `texts_assemble`).
-/
import BoundaryTypes.DeclarationFile
import BoundaryTypes.Proofs.Outcome
import BoundaryTypes.Proofs.Translator.OnePass

namespace BoundaryTypes.DeclarationFile

open Translator

/-- A translator writes the declaration of the flags, if there are any. -/
def writeFlags (names : DeclarationNames) : Option TypeExpr → TranslatorM (List String)
  | none => pure []
  | some flags => do
    let text ← Translator.declare names.flags (unwrapAlias names.flags flags) []
    pure [text]

/-- A translator writes the declarations of a file in their order. -/
def write (names : DeclarationNames) (d : Descriptor) : TranslatorM (List String) := do
  let text ← Translator.declare names.message d.outbound []
  let flags ← writeFlags names d.flags
  let t ← get
  pure (text :: flags ++ t.hoistedTexts ++ (jsonValueDeclarations d.types).map (·.text))

/-- What steps come to, whatever state they leave. -/
def resultOf {ε σ α : Type} : EStateM.Result ε σ α → Except ε α
  | .ok a _ => .ok a
  | .error e _ => .error e

/-- The declarations that the session keeps have the texts that the translator keeps. -/
theorem follows_collect (b : Declaration) (flags json : List Declaration) :
    Follows [] (do
        let t ← get
        pure (b.text :: flags.map (·.text) ++ t.hoistedTexts ++ json.map (·.text)))
      (do
        let s ← get
        pure ((b :: flags ++ hoistedDeclarations s ++ json).map (·.text))) := by
  intro s
  have hhoisted : (hoistedDeclarations s).map (·.text) = s.hoistedTexts := List.map_map
  show EStateM.Result.ok _ _ = EStateM.Result.ok _ _
  rw [List.map_append, List.map_append, List.map_cons, hhoisted]
  rfl

/-- A translator that writes a file follows the session in which the file is made. -/
theorem follows_write (names : DeclarationNames) (d : Descriptor) :
    Follows [] (write names d) (do
      let declarations ← declare names d
      pure (declarations.map (·.text))) := by
  rw [write, declare, bind_assoc]
  refine (follows_perform (.declare names.message d.outbound [])).seq fun text => ?_
  rw [bind_assoc]
  generalize jsonValueDeclarations d.types = json
  cases d.flags with
  | none => exact follows_collect ⟨names.message, text⟩ [] json
  | some flags =>
    rw [writeFlags, declareFlags, bind_assoc, bind_assoc]
    refine (follows_perform (.declare names.flags _ [])).seq fun flagsText => ?_
    exact follows_collect ⟨names.message, text⟩ [⟨names.flags, flagsText⟩] json

/-- The texts of the bindings are those that a translator writes. -/
theorem texts_declarationsOf (names : DeclarationNames) (d : Descriptor) :
    (declarationsOf names d).map (List.map (·.text)) =
      resultOf (write names d (.new [names.app, names.root])) := by
  have hwrite := follows_write names d (Session.empty [names.app, names.root])
  rw [Translator.new, hwrite, declarationsOf, EStateM.run]
  cases hdeclare : declare names d (Session.empty [names.app, names.root]) with
  | ok declarations s =>
    rw [Outcome.bind_run_of_ok _ hdeclare]
    rfl
  | error fault s =>
    rw [Outcome.bind_run_of_error _ hdeclare]
    rfl

/-- **A declaration file holds what a translator writes.** Once the name of the module and the form
of its messages are accepted, the texts of a file are those that a new translator writes for it, or
there is no file, and the translator ends in the same fault. -/
theorem texts_assemble (names : DeclarationNames) (d : Descriptor) :
    (assemble names d).map (fun f => f.declarations.map (·.text)) =
      if !d.modulePath.all isIdentifier then .error ⟨.invalidModuleName d.moduleName, []⟩
      else if !d.outbound.isUnion then
        .error ⟨.messageNotUnion d.outbound.formName, [names.message]⟩
      else resultOf (write names d (.new [names.app, names.root])) := by
  rw [assemble, ← texts_declarationsOf]
  split
  · rfl
  split
  · rfl
  · cases declarationsOf names d <;> rfl

end BoundaryTypes.DeclarationFile
