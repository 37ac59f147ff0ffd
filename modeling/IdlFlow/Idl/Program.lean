/-
  Programs: a document together with all documents that it includes, directly
  or not.

  `load` reads the file at the entry path, then visits its includes in the
  order of declaration, each with its own includes before the next one.  A
  file is read once, under its absolute path; the documents are in the order
  of reading.  A failure tells its cause and what was read before it.
-/
import IdlFlow.FileTree
import IdlFlow.Idl.Parser

namespace IdlFlow

/-! ## Programs -/

structure Program where
  /-- The path of the document that declarations are made for. -/
  entry : Text
  /-- The documents by their absolute paths. -/
  documents : Assoc Text Document
  deriving DecidableEq

namespace Program

/-- The definitions of the entry document. -/
def definitions (p : Program) : List Definition :=
  (p.documents.find? p.entry).elim [] Document.definitions

def paths (p : Program) : List Text := p.documents.keys

/-- A program of one document. -/
def single (path : Text) (document : Document) : Program := ⟨path, [(path, document)]⟩

end Program

/-! ## Failures -/

/-- Why a program cannot be loaded. -/
inductive LoadError
  | unreadable (path : Text) (e : FileError)
  | malformed (path : Text) (e : ParseError)
  /-- An include leads to no file. -/
  | missingInclude (includer path place : Text)
  deriving DecidableEq, Repr

namespace LoadError

/-- The file that was being read; none if there was none to read. -/
def readPath? : LoadError → Option Text
  | unreadable path _ | malformed path _ => some path
  | missingInclude .. => none

/-- The message of a failure that sources are to blame for: what is unexpected
    in a file, or an include of no file. -/
def sourceMessage? : LoadError → Option Text
  | malformed path (.unexpected wanted found position) =>
    some (path ++ ": " ++ (ParseError.unexpected wanted found position).message)
  | missingInclude includer path place =>
    some (includer ++ ": included file '" ++ path ++ "' not found (looked for " ++ place ++ ")")
  | malformed _ (.numeral _) | unreadable _ _ => none

end LoadError

/-- A failure with the documents loaded before it. -/
structure LoadFailure where
  cause : LoadError
  loaded : Assoc Text Document
  deriving DecidableEq

/-- The paths that loading has read or tried to read, in order. -/
def LoadFailure.attempted (f : LoadFailure) : List Text :=
  f.loaded.keys ++ f.cause.readPath?.toList

/-! ## Loading -/

/-- The document in one file; its path is taken as it is. -/
def FileTree.readDocument (tree : FileTree) (path : Text) : Except LoadError Document := do
  match tree.readText (Path.tidy path) with
  | .error e => throw (.unreadable path e)
  | .ok s =>
    match Document.parse s with
    | .error e => throw (.malformed path e)
    | .ok document => return document

/-- The absolute path of an include in the file at `includer`. -/
def includePath (here includer path : Text) : Text :=
  Path.absolute here (Path.join (Path.directory includer) path)

/-- Loads the file at an absolute path, unless it is loaded, and after it the
    files that it includes, at most `bound` levels deep. -/
def loadUpTo (tree : FileTree) : Nat → Text → Assoc Text Document →
    Except LoadFailure (Assoc Text Document)
  | 0, _, loaded => .ok loaded
  | bound + 1, path, loaded =>
    if (loaded.find? path).isSome then .ok loaded
    else match tree.readDocument path with
      | .error cause => .error ⟨cause, loaded⟩
      | .ok document =>
        document.includes.foldlM (fun loaded included =>
          let place := includePath tree.here path included
          if tree.isFile place then loadUpTo tree bound place loaded
          else .error ⟨.missingInclude path included place, loaded⟩)
          (loaded.insert path document)

/-- The levels that includes can reach: each new level needs a file that no
    level before it has read, under one of the two absolute paths of a file. -/
def FileTree.depth (tree : FileTree) : Nat := 2 * tree.nodes.length + 1

/-- The program whose entry is at a path. -/
def FileTree.load (tree : FileTree) (path : Text) : Except LoadFailure Program := do
  let entry := Path.absolute tree.here path
  return ⟨entry, ← loadUpTo tree tree.depth entry []⟩

end IdlFlow
