/-
  Layout of declaration files.

  `format` trims every line, leaves at most one blank line between two others
  and none at the ends, and indents each line by the brackets open at its
  start.  Brackets in string literals do not count, nor do those of a comment
  line; closing brackets in front of a line count for the line itself.
-/
import IdlFlow.Text.Blank
import IdlFlow.Text.Lines

namespace IdlFlow.Layout

/-! ## Blank lines -/

/-- Trimmed lines with every run of blank ones made a single one, and none in
    front or behind.  `started` says whether a line came before, `gap` whether
    blank ones came after it. -/
def collapseFrom : (started gap : Bool) → List Text → List Text
  | _, _, [] => []
  | started, gap, line :: lines =>
    if line = [] then collapseFrom started started lines
    else (if gap then [[]] else []) ++ line :: collapseFrom true false lines

/-- The lines of a text, trimmed, with single blank lines between them. -/
def collapsedLines (s : Text) : List Text :=
  collapseFrom false false ((Text.lines s).map Text.trim)

/-! ## Brackets -/

def isOpener (c : Char) : Bool := c = '{' || c = '(' || c = '['

def isCloser (c : Char) : Bool := c = '}' || c = ')' || c = ']'

/-- The brackets of a line: how many open, how many close, and how many of
    these come before anything else. -/
structure Brackets where
  opens : Nat
  closes : Nat
  leading : Nat
  deriving DecidableEq, Repr

/-- Where in a line the counting is. -/
inductive Mode
  /-- Nothing but closing brackets, bars and spaces so far. -/
  | leading
  | code
  | quoted (quote : Char)
  /-- After a backslash in a string literal. -/
  | escaped (quote : Char)
  deriving DecidableEq, Repr

/-- Counts on over one character. -/
def count : Mode × Brackets → Char → Mode × Brackets
  | (.escaped quote, b), _ => (.quoted quote, b)
  | (.quoted quote, b), c =>
    (if c = '\\' then .escaped quote else if c = quote then .code else .quoted quote, b)
  | (mode, b), c =>
    if c = '\'' ∨ c = '"' then (.quoted c, b)
    else if isOpener c then (.code, { b with opens := b.opens + 1 })
    else if isCloser c then
      (mode, { b with
        closes := b.closes + 1
        leading := if mode = .leading then b.leading + 1 else b.leading })
    else if c = '|' ∨ c = ' ' then (mode, b)
    else (.code, b)

/-- The brackets of a line. -/
def brackets (line : Text) : Brackets := (line.foldl count (.leading, ⟨0, 0, 0⟩)).2

/-! ## Indentation -/

def isComment (line : Text) : Bool := ['/', '/'].isPrefixOf line

/-- A line two spaces to the right per level. -/
def indent (depth : Nat) (line : Text) : Text := List.replicate (2 * depth) ' ' ++ line

/-- Lines indented by the brackets open before them, `depth` to begin with.
    Neither a level nor the depth goes below zero. -/
def reindentFrom : Nat → List Text → List Text
  | _, [] => []
  | depth, line :: lines =>
    if line = [] then [] :: reindentFrom depth lines
    else if isComment line then indent depth line :: reindentFrom depth lines
    else
      let b := brackets line
      indent (depth - b.leading) line :: reindentFrom (depth + b.opens - b.closes) lines

def reindent (lines : List Text) : List Text := reindentFrom 0 lines

/-- The text in its layout; it ends in a line feed. -/
def format (s : Text) : Text := ['\n'].intercalate (reindent (collapsedLines s)) ++ ['\n']

end IdlFlow.Layout
