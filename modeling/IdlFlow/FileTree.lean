/-
  File trees: folders and files at their places below the root, with a working
  directory.

  A place is the list of names that lead to it from the root.  `locate` follows
  a path step by step; every step but the last must start in a folder, and
  neither a name nor a path may be too long.  The trees are values: writing
  gives a new one, and `changedFiles` tells two apart.
-/
import IdlFlow.Assoc
import IdlFlow.Path
import IdlFlow.Text.Lines

namespace IdlFlow

/-- What stands at a place. -/
inductive Node
  | folder
  | file (content : ByteArray)

/-- The names that lead to a place from the root. -/
abbrev Place := List Text

structure FileTree where
  here : Text
  nodes : Assoc Place Node

/-- Why a file cannot be read or written. -/
inductive FileError
  | noSuchFile
  | isFolder
  | notFolder
  | exists_
  /-- The bytes are no text. -/
  | notText
  /-- The path has a null character, which no path can have. -/
  | nullCharacter
  /-- The path, or a name that is looked up in a folder, is beyond its limit. -/
  | tooLong
  deriving DecidableEq, Repr

def FileError.message : FileError → Text
  | noSuchFile => "no such file or folder"
  | isFolder => "is a folder"
  | notFolder => "is no folder"
  | exists_ => "exists already"
  | notText => "is no text in UTF-8"
  | nullCharacter => "embedded null byte"
  | tooLong => "name or path too long"

namespace FileTree

/-! ## Looking up -/

/-- What stands at a place; the root is a folder. -/
def node? (tree : FileTree) : Place → Option Node
  | [] => some .folder
  | place => tree.nodes.find? place

/-- The most bytes that a name in a folder may have. -/
def nameLimit : Nat := 255

/-- The most bytes that a path may have. -/
def pathLimit : Nat := 4095

/-- The place that steps lead to.  An empty step or a single dot stays. -/
def walk (tree : FileTree) (place : Place) : List Text → Except FileError Place
  | [] => .ok place
  | step :: steps =>
    match tree.node? place with
    | none => .error .noSuchFile
    | some (.file _) => .error .notFolder
    | some .folder =>
      if step = [] ∨ step = Path.current then tree.walk place steps
      else if step = Path.parent then tree.walk place.dropLast steps
      else if nameLimit < step.byteCount then .error .tooLong
      else tree.walk (place ++ [step]) steps

/-- The place of a path. -/
def locate (tree : FileTree) (path : Text) : Except FileError Place :=
  if path = [] then .error .noSuchFile
  else if '\x00' ∈ path then .error .nullCharacter
  else if pathLimit < path.byteCount then .error .tooLong
  else if Path.isAbsolute path then tree.walk [] (Text.splitOn Path.slash path)
  else tree.walk (Path.names tree.here) (Text.splitOn Path.slash path)

/-- What stands at a path. -/
def at? (tree : FileTree) (path : Text) : Option Node :=
  match tree.locate path with
  | .ok place => tree.node? place
  | .error _ => none

def isFile (tree : FileTree) (path : Text) : Bool := tree.at? path matches some (.file _)

def isFolder (tree : FileTree) (path : Text) : Bool := tree.at? path matches some .folder

/-- The bytes of a file. -/
def read (tree : FileTree) (path : Text) : Except FileError ByteArray := do
  match tree.node? (← tree.locate path) with
  | some (.file content) => return content
  | some .folder => throw .isFolder
  | none => throw .noSuchFile

/-- The text of a file, with line feeds as its line ends. -/
def readText (tree : FileTree) (path : Text) : Except FileError Text := do
  match String.fromUTF8? (← tree.read path) with
  | some s => return Text.unifyLineEnds s.toList
  | none => throw .notText

/-! ## Searching -/

/-- The steps from a place to one at or below it. -/
def below? : Place → Place → Option Place
  | [], place => some place
  | _, [] => none
  | a :: as, b :: bs => if a = b then below? as bs else none

/-- What stands below a place, by the steps from there. -/
def below (tree : FileTree) (place : Place) : Assoc Place Node :=
  tree.nodes.filterMap fun (other, node) =>
    match below? place other with
    | none | some [] => none
    | some steps => some (steps, node)

/-- The path of steps below a folder.  It continues the path of the folder;
    from the working directory itself it has nothing in front. -/
def pathBelow (folder : Text) (steps : Place) : Text :=
  if folder = Path.current then Path.ofNames steps else Path.join folder (Path.ofNames steps)

/-- The paths of everything below a folder whose name has the given ending, in
    ascending order.  Where there is no folder there are none.  All folders
    below are followed by their paths, so none of these may be too long. -/
def findEnding (tree : FileTree) (folder ending : Text) : Except FileError (List Text) :=
  let folder := Path.tidy folder
  match tree.locate folder with
  | .error .tooLong => .error .tooLong
  | .error _ => .ok []
  | .ok place =>
    match tree.node? place with
    | some .folder =>
      let entries := tree.below place
      if entries.any fun (steps, node) =>
          (node matches .folder) && pathLimit < (pathBelow folder steps).byteCount then
        .error .tooLong
      else
        let found := entries.keys.filter fun steps => ending.isSuffixOf (steps.getLastD [])
        .ok ((found.map (pathBelow folder)).mergeSort Text.notAfter)
    | _ => .ok []

/-! ## Writing -/

/-- The tree with a node at a place. -/
def put (tree : FileTree) (place : Place) (node : Node) : FileTree :=
  { tree with nodes := tree.nodes.insert place node }

/-- Makes one folder; its parent must exist. -/
def makeFolder (tree : FileTree) (path : Text) : Except FileError FileTree := do
  let place ← tree.locate path
  match tree.node? place with
  | some _ => throw .exists_
  | none => return tree.put place .folder

/-- Makes a folder that may exist already: the tree, and the failure if it
    cannot be made. -/
def ensureFolder (tree : FileTree) (path : Text) : FileTree × Option FileError :=
  match tree.makeFolder path with
  | .ok tree => (tree, none)
  | .error e => (tree, if tree.isFolder path then none else some e)

/-- Makes a folder and those above it that do not exist, at most `bound`
    levels up: the tree, and the failure if there is one.  Going on does not
    depend on a folder above being new, so that it exists is no failure yet.
    A path that ends in a single dot is made with its parent. -/
def makeFoldersUpTo : Nat → FileTree → Text → FileTree × Option FileError
  | 0, tree, path => tree.ensureFolder path
  | bound + 1, tree, path =>
    let (parent, name) := Path.split path
    let (parent, name) := if name = [] then Path.split parent else (parent, name)
    if parent = [] ∨ name = [] ∨ (tree.at? parent).isSome then tree.ensureFolder path
    else
      match makeFoldersUpTo bound tree parent with
      | (tree, none) | (tree, some .exists_) =>
        if name = Path.current then (tree, none) else tree.ensureFolder path
      | failed => failed

/-- Makes a folder and all folders above it that do not exist: the tree, and the
    failure if there is one, before which some of them may have been made. -/
def makeFolders (tree : FileTree) (path : Text) : FileTree × Option FileError :=
  makeFoldersUpTo path.length tree path

/-- Writes a text to a file, which is made if it does not exist; its folder
    must. -/
def writeText (tree : FileTree) (path content : Text) : Except FileError FileTree := do
  let place ← tree.locate (Path.tidy path)
  match tree.node? place with
  | some .folder => throw .isFolder
  | _ => return tree.put place (.file (String.ofList content).toUTF8)

/-! ## Building and comparing -/

/-- The tree with only the folders down to the working directory. -/
def empty (here : Text) : FileTree :=
  let names := Path.names here
  { here
    nodes := (List.range names.length).map fun count => (names.take (count + 1), .folder) }

/-- The tree with a node at steps below the working directory, and folders on
    the way. -/
def add (tree : FileTree) (steps : Place) (node : Node) : FileTree :=
  let start := Path.names tree.here
  let folders := (List.range (steps.length - 1)).map fun count =>
    start ++ steps.take (count + 1)
  let withFolders := folders.foldl (fun tree place =>
    if (tree.node? place).isSome then tree else tree.put place .folder) tree
  withFolders.put (start ++ steps) node

/-- The files of a tree that another one does not hold at the same place with
    the same bytes. -/
def changedFiles (old new : FileTree) : List (Place × ByteArray) :=
  new.nodes.filterMap fun (place, node) =>
    match node with
    | .folder => none
    | .file content =>
      match old.nodes.find? place with
      | some (.file before) => if before.data = content.data then none else some (place, content)
      | _ => some (place, content)

end FileTree

end IdlFlow
