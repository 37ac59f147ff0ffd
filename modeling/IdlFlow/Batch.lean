/-
  Batches: declaration files for all interface files below a folder.

  `run` finds the interface files, and for one after the other, in ascending
  order of paths, loads its program, makes its declaration file and writes it
  to the corresponding place below the output folder.  It stops at the first
  failure; what was written and reported before stays.
-/
import IdlFlow.Declaration.File

namespace IdlFlow

/-! ## Output paths -/

/-- The ending of declaration files. -/
def outputEnding : Text := ".js.flow"

/-- The path of the declaration file for an interface file: at the same place
    below the output folder as the interface file below the working folder.
    There is none for an empty path. -/
def outputPath? (here file working output : Text) : Option Text :=
  (Path.relative? here file working).map fun relative =>
    Path.join output ((Path.splitEnding relative).1 ++ outputEnding)

/-! ## Batches -/

structure Batch where
  working : Text
  /-- The output folder; by default, and if empty, the working folder. -/
  output : Option Text
  options : FileOptions
  timestamp : Text

def Batch.outputFolder (b : Batch) : Text :=
  match b.output with
  | none | some [] => b.working
  | some folder => folder

/-- An entry of the log. -/
inductive LogEntry
  /-- A file is about to be read. -/
  | parsing (path : Text)
  | warning (message : Text)
  /-- The batch stops for a fault of the sources. -/
  | fatal (message : Text)
  deriving DecidableEq, Repr

/-- A failure that is no fault of the sources, or of their numbers only. -/
inductive Crash
  /-- There is no path to work on. -/
  | noWorkingPath
  | load (e : LoadError)
  | generate (e : GenerateError)
  | file (e : FileError)
  deriving DecidableEq, Repr

/-- How a batch ends. -/
inductive Ending
  | done
  | noFiles
  | fatal
  | crash (e : Crash)
  deriving DecidableEq, Repr

/-- What a batch leaves. -/
structure Outcome where
  tree : FileTree
  /-- The paths of the files written. -/
  written : List Text
  log : List LogEntry
  ending : Ending

/-- What is left by a batch that treats no file. -/
def Outcome.untouched (tree : FileTree) (ending : Ending) : Outcome := ⟨tree, [], [], ending⟩

namespace Batch

/-- Writes the file of one program to its place: the tree that is left, and the
    path of the file.  Folders that are made for it stay if it cannot be
    written. -/
def write (b : Batch) (tree : FileTree) (file text : Text) : FileTree × Except Crash Text :=
  match outputPath? tree.here file b.working b.outputFolder with
  | none => (tree, .error (.generate .emptyPath))
  | some path =>
    match tree.makeFolders (Path.directory path) with
    | (tree, some e) => (tree, .error (.file e))
    | (tree, none) =>
      match tree.writeText path text with
      | .error e => (tree, .error (.file e))
      | .ok tree => (tree, .ok path)

/-- Treats the interface files in order. -/
def runFiles (b : Batch) (tree : FileTree) : List Text → Outcome
  | [] => .untouched tree .done
  | file :: files =>
    match tree.load file with
    | .error failure =>
      let read := failure.attempted.map LogEntry.parsing
      match failure.cause.sourceMessage? with
      | some message => ⟨tree, [], read ++ [.fatal message], .fatal⟩
      | none => ⟨tree, [], read, .crash (.load failure.cause)⟩
    | .ok program =>
      let generated := program.generate tree.here b.timestamp b.options
      let log := program.paths.map LogEntry.parsing ++
        generated.skipped.map fun s => LogEntry.warning (program.warning s)
      match generated.text with
      | .error e => ⟨tree, [], log, .crash (.generate e)⟩
      | .ok text =>
        match b.write tree file text with
        | (tree, .error e) => ⟨tree, [], log, .crash e⟩
        | (tree, .ok path) =>
          let others := b.runFiles tree files
          { others with written := path :: others.written, log := log ++ others.log }

/-- The interface files of a batch. -/
def files (b : Batch) (tree : FileTree) : Except FileError (List Text) :=
  tree.findEnding b.working Import.sourceEnding

def run (b : Batch) (tree : FileTree) : Outcome :=
  match b.files tree with
  | .error e => .untouched tree (.crash (.file e))
  | .ok [] => .untouched tree .noFiles
  | .ok files => b.runFiles tree files

/-! ## Reports -/

/-- How many interface files there are. -/
def foundLine (count : Nat) : Text := "Found " ++ Decimal.digits count ++ " thrift file(s)"

/-- That a file is written. -/
def writtenLine (path : Text) : Text := "  Generated " ++ path

/-- That there are no interface files. -/
def noFilesLine (b : Batch) : Text := "No .thrift files found under " ++ b.working

/-- That all files are written. -/
def doneLine : Text := "Done!"

/-- The lines that a batch prints: none before its search has an answer. -/
def report (b : Batch) (tree : FileTree) (outcome : Outcome) : List Text :=
  match b.files tree with
  | .error _ => []
  | .ok [] => [b.noFilesLine]
  | .ok files => foundLine files.length :: outcome.written.map writtenLine ++
    if outcome.ending = .done then [doneLine] else []

end Batch

end IdlFlow
