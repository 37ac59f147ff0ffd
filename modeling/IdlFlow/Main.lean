/-
  The program: reads the files that a command line is about into a file tree,
  runs the batch on it, and writes what the batch has changed.
-/
import IdlFlow.CommandLine
import IdlFlow.Timestamp
import Std.Time.Zoned

namespace IdlFlow

/-! ## Reading the disk -/

/-- Adds what stands at a place of the disk, with all below it. -/
partial def scan (tree : FileTree) (place : Place) : IO FileTree := do
  let path := (← IO.currentDir) / String.ofList (Path.slash :: Path.ofNames place)
  if ← path.isDir then
    (← path.readDir).foldlM (fun tree entry => scan tree (place ++ [entry.fileName.toList]))
      (tree.put place .folder)
  else if ← path.pathExists then
    return tree.put place (.file (← IO.FS.readBinFile path))
  else return tree

/-- Adds the folders above a place of the disk. -/
def scanAbove (tree : FileTree) (place : Place) : IO FileTree :=
  (List.range place.length).foldlM (fun tree count => do
    let above := place.take count
    let path := (← IO.currentDir) / String.ofList (Path.slash :: Path.ofNames above)
    return if ← path.isDir then tree.put above .folder else tree) tree

/-- The places that includes in the files of a tree lead to. -/
def includedPlaces (tree : FileTree) : List Place :=
  tree.nodes.flatMap fun (place, node) =>
    match node with
    | .folder => []
    | .file _ =>
      let path := Path.slash :: Path.ofNames place
      match tree.readDocument path with
      | .error _ => []
      | .ok document => document.includes.map fun included =>
          Path.names (includePath tree.here path included)

/-- Adds the files that are included from the tree, until there are none that
    it lacks. -/
partial def scanIncluded (tree : FileTree) : IO FileTree := do
  let lacking := (includedPlaces tree).filter fun place => (tree.node? place).isNone
  let larger ← lacking.foldlM (fun tree place => do scan (← scanAbove tree place) place) tree
  if larger.nodes.length = tree.nodes.length then return tree else scanIncluded larger

/-- The tree that a run works on. -/
def scanFolders (a : Arguments) : IO FileTree := do
  let here := (← IO.currentDir).toString.toList
  let folders := (a.batch? []).elim [] fun b => [b.working, b.outputFolder]
  let places := folders.map fun path => Path.names (Path.absolute here path)
  let tree ← places.foldlM (fun tree place => do scan (← scanAbove tree place) place)
    (FileTree.empty here)
  scanIncluded tree

/-! ## Writing the disk -/

/-- Writes the files that a batch has changed. -/
def writeChanges (old new : FileTree) : IO Unit := do
  for (place, content) in FileTree.changedFiles old new do
    let path := (← IO.currentDir) / String.ofList (Path.slash :: Path.ofNames place)
    if let some folder := path.parent then IO.FS.createDirAll folder
    IO.FS.writeBinFile path content

/-- The local time. -/
def currentTimestamp : IO Text := do
  let now ← Std.Time.DateTime.now
  let time : LocalTime := ⟨now.year.toInt.toNat, now.month.toNat, now.day.toNat, now.hour.toNat,
    now.minute.toNat, now.second.toNat⟩
  return Timestamp.text time ⟨now.timezone.abbreviation.toList, now.offset.second.val⟩

/-! ## Running -/

/-- The words for a failure that is no fault of the sources. -/
def Crash.message : Crash → Text
  | .noWorkingPath => "no working path"
  | .load (.unreadable path e) => path ++ ": " ++ e.message
  | .load (.malformed path e) => path ++ ": " ++ e.message
  | .load (.missingInclude includer path _) => includer ++ ": " ++ path
  | .generate e => e.message
  | .file e => e.message

/-- Runs what a command line asks for. -/
def runArguments (a : Arguments) : IO UInt32 := do
  let tree ← scanFolders a
  let (outcome, report) := a.run (← currentTimestamp) tree
  writeChanges tree outcome.tree
  for line in report do
    IO.println (String.ofList line)
  for line in outcome.log.filterMap (LogEntry.line? (.leveled a.verbose)) do
    IO.eprintln (String.ofList line)
  if let .crash e := outcome.ending then IO.eprintln (String.ofList e.message)
  return outcome.ending.exitCode.toUInt32

end IdlFlow

/-- The command-line program. -/
def main (words : List String) : IO UInt32 := do
  match IdlFlow.Request.ofWords (words.map String.toList) with
  | .ok .help =>
    for line in IdlFlow.helpText do
      IO.println (String.ofList line)
    return 0
  | .ok (.run a) => IdlFlow.runArguments a
  | .error e =>
    for line in IdlFlow.usageText do
      IO.eprintln (String.ofList line)
    IO.eprintln (String.ofList e.message)
    return 2
