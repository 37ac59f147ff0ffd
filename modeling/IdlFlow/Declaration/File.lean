/-
  Declaration files: what is written for the entry document of a program.

  A file has a header with the time, an import for every other document of the
  program, and a block of declarations for every definition, all in the order
  of the program.  Definitions without declarations are skipped, which is worth
  a warning.
-/
import IdlFlow.Declaration.Basic
import IdlFlow.Idl.Program
import IdlFlow.Layout
import IdlFlow.Naming

namespace IdlFlow

/-! ## Imports -/

/-- An import of all that a module exports, under one name. -/
structure Import where
  binding : Text
  module : Text
  deriving DecidableEq, Repr

namespace Import

def text (i : Import) : Text :=
  "import * as " ++ i.binding ++ " from '" ++ i.module ++ ".js';"

/-- The ending of interface files. -/
def sourceEnding : Text := ".thrift"

/-- The import of the document at a path relative to the importing one.  The
    module is the path without the ending of interface files, in the directory
    of the importing one unless it names another. -/
def ofPath (path : Text) : Import :=
  let path := Path.tidy path
  let name := Path.fileName path
  let module := Path.join (Path.directory path) ((Text.dropEnding? sourceEnding name).getD name)
  let module := if Path.slash ∈ module then module else "./" ++ module
  ⟨Path.fileName module, module⟩

end Import

/-! ## Blocks -/

/-- A definition that has no declaration: its sort and name. -/
structure Skipped where
  what : Text
  name : Text
  deriving DecidableEq, Repr

/-- The blocks of definitions, up to one that cannot be written, and the
    definitions skipped up to there. -/
structure Blocks where
  skipped : List Skipped
  texts : Except WriteError (List Text)

/-- The sort of a definition that has no declaration. -/
def Definition.skipped? : Definition → Option Skipped
  | .unsupported what name => some ⟨what, name⟩
  | _ => none

/-- The text of a definition's declarations; none if it has none. -/
def Definition.block? (scope : Scope) (d : Definition) : Option (Except WriteError Text) :=
  (d.declarations? scope).map Declaration.block

def Blocks.ofDefinitions (scope : Scope) : List Definition → Blocks
  | [] => ⟨[], .ok []⟩
  | d :: ds =>
    match d.block? scope with
    | none =>
      let others := ofDefinitions scope ds
      { others with skipped := d.skipped?.toList ++ others.skipped }
    | some (.error e) => ⟨[], .error e⟩
    | some (.ok block) =>
      let others := ofDefinitions scope ds
      { others with texts := (block :: ·) <$> others.texts }

/-! ## Files -/

/-- The choices for declaration files. -/
structure FileOptions where
  rule : NameRule
  /-- Whether the plain name of an enum is that of its numbers. -/
  enumNumbers : Bool
  /-- Whether the header names the entry path. -/
  withSource : Bool

def FileOptions.default : FileOptions := ⟨.plain, false, false⟩

/-- The scope of the definitions of a document. -/
def FileOptions.scope (options : FileOptions) (definitions : List Definition) : Scope :=
  ⟨options.rule.apply, enumKeys definitions, options.enumNumbers⟩

/-- A file before its layout. -/
structure DeclarationFile where
  timestamp : Text
  source : Option Text
  imports : List Import
  blocks : List Text

namespace DeclarationFile

/-- A text as a line with its line feed. -/
def line (s : Text) : Text := s ++ ['\n']

/-- The lines above the imports. -/
def header (f : DeclarationFile) : Text :=
  line "// @flow" ++ line "" ++ line ("// Generated by thrift2flow at " ++ f.timestamp) ++
    f.source.elim [] (fun path => line ("// Source: " ++ path)) ++ line ""

def text (f : DeclarationFile) : Text :=
  f.header ++ f.imports.flatMap (fun i => line i.text) ++
    f.blocks.flatMap fun block => line "" ++ line block

end DeclarationFile

/-- Why a file cannot be made. -/
inductive GenerateError
  | write (e : WriteError)
  /-- A document has an empty path. -/
  | emptyPath
  deriving DecidableEq, Repr

def GenerateError.message : GenerateError → Text
  | write e => e.message
  | emptyPath => "no path specified"

/-- What making a file gives: the file or the reason that there is none, and
    the definitions skipped up to there. -/
structure Generated where
  skipped : List Skipped
  text : Except GenerateError Text

namespace Program

/-- The imports of the documents other than the entry; none if one has an
    empty path. -/
def imports? (here : Text) (p : Program) : Option (List Import) :=
  (p.paths.filter (· ≠ p.entry)).mapM fun path =>
    (Path.relative? here path (Path.directory p.entry)).map Import.ofPath

/-- The blocks of the entry document. -/
def blocks (options : FileOptions) (p : Program) : Blocks :=
  .ofDefinitions (options.scope p.definitions) p.definitions

/-- The declaration file of a program. -/
def generate (here timestamp : Text) (options : FileOptions) (p : Program) : Generated :=
  let blocks := p.blocks options
  ⟨blocks.skipped, do
    let texts ← blocks.texts.mapError GenerateError.write
    let imports ← (p.imports? here).elim (.error .emptyPath) .ok
    let source := if options.withSource ∧ p.entry ≠ [] then some p.entry else none
    return Layout.format (DeclarationFile.text ⟨timestamp, source, imports, texts⟩)⟩

/-- The warning that a definition of the entry document is skipped. -/
def warning (p : Program) (s : Skipped) : Text :=
  Path.fileName p.entry ++ ": Skipping " ++ s.what ++ " " ++ s.name

end Program

end IdlFlow
