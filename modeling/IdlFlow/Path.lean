/-
  Paths as texts.

  A path is absolute if it begins with a slash, and exactly two slashes in
  front are kept as two.

  * `split` cuts off the last name, `splitEnding` the ending of the last name;
  * `join` continues a directory by a path;
  * `normalize` resolves dots and repeated slashes by the text alone, `tidy`
    removes single dots and repeated slashes and keeps parents;
  * `absolute` starts from a working directory, `relative?` leads from one
    directory to a path.
-/
import IdlFlow.Text.Basic

namespace IdlFlow.Path

def slash : Char := '/'

/-- The directory that a path stands in by itself. -/
def current : Text := ['.']

/-- The directory above. -/
def parent : Text := ['.', '.']

/-- The slashes that begin a path: none, two if there are exactly two, else
    one. -/
def root : Text → Text
  | '/' :: '/' :: '/' :: _ => ['/']
  | '/' :: '/' :: _ => ['/', '/']
  | '/' :: _ => ['/']
  | _ => []

def isAbsolute (path : Text) : Bool := path.head? = some slash

/-- The names in a path, without empty ones and single dots. -/
def names (path : Text) : List Text :=
  (Text.splitOn slash path).filter fun name => name ≠ [] ∧ name ≠ current

/-- Names one below the other. -/
def ofNames (names : List Text) : Text := [slash].intercalate names

/-! ## Joining and splitting -/

/-- A path continued from a directory; an absolute one stands for itself. -/
def join (directory path : Text) : Text :=
  if isAbsolute path then path
  else if directory = [] ∨ directory.getLast? = some slash then directory ++ path
  else directory ++ slash :: path

/-- A path without the slashes at its end, if there is anything else. -/
def dropSlashes (path : Text) : Text :=
  if path.all (· = slash) then path else (path.reverse.dropWhile (· = slash)).reverse

/-- The directory and the last name of a path; the name is empty if the path
    ends in a slash. -/
def split (path : Text) : Text × Text :=
  match Text.cutLast slash path with
  | some (directory, name) => (dropSlashes (directory ++ [slash]), name)
  | none => ([], path)

def directory (path : Text) : Text := (split path).1

def fileName (path : Text) : Text := (split path).2

/-- A path without its ending, and the ending: from the last dot of the last
    name on, unless only dots come before it there. -/
def splitEnding (path : Text) : Text × Text :=
  match Text.cutLast '.' (fileName path) with
  | some (stem, ending) =>
    if stem.all (· = '.') then (path, [])
    else (path.take (path.length - (ending.length + 1)), '.' :: ending)
  | none => (path, [])

/-! ## Normal forms -/

/-- One more name below those before it, the last of them first: a parent takes
    the name before it away, and stays only in front of a relative path. -/
def below (absolute : Bool) (before : List Text) (name : Text) : List Text :=
  if name ≠ parent then name :: before
  else match before with
    | [] => if absolute then [] else [name]
    | last :: others => if last = parent then name :: before else others

/-- Names without steps back. -/
def collapse (absolute : Bool) (names : List Text) : List Text :=
  (names.foldl (below absolute) []).reverse

/-- A path given by its root and names; the current directory if it has
    neither. -/
def assemble (root : Text) (names : List Text) : Text :=
  let path := root ++ ofNames names
  if path = [] then current else path

/-- The path with dots, parents and repeated slashes resolved. -/
def normalize (path : Text) : Text :=
  assemble (root path) (collapse (isAbsolute path) (names path))

/-- The path without single dots and repeated slashes. -/
def tidy (path : Text) : Text := assemble (root path) (names path)

/-- The absolute normal form of a path seen from a working directory. -/
def absolute (here path : Text) : Text := normalize (join here path)

/-! ## Relative paths -/

/-- What is left of two lists after the part in front that they share. -/
def dropShared : List Text → List Text → List Text × List Text
  | a :: as, b :: bs => if a = b then dropShared as bs else (a :: as, b :: bs)
  | as, bs => (as, bs)

/-- The path that leads from a directory to `path`: up to the directory that
    both share, then down.  There is none to the empty path. -/
def relative? (here path start : Text) : Option Text :=
  if path = [] then none
  else
    let (up, down) := dropShared (names (absolute here start)) (names (absolute here path))
    some (assemble [] (up.map (fun _ => parent) ++ down))

end IdlFlow.Path
