/-
  The command line.

  `Switch` lists the options.  Words are first classified one by one
  (`classify`), which finds abbreviations and attached values; then they are
  taken in order (`takeWords`).  A word that begins with a dash is never the
  value of the option before it, unless it is a negative number or holds a
  space.  The help switch wins over all that comes after it, but not over an
  ambiguous word.

  Two dashes as an attached value give the option, but no text
  (`OptionValue`).  Then there is no path to work on, the output folder is the
  default one, and names show a pair of brackets if they change at all
  (`Arguments.rule`).

  `Arguments.rule_of_texts`: values with texts name things as given.
-/
import IdlFlow.Batch
import IdlFlow.Text.Quoted

namespace IdlFlow

/-! ## Switches -/

/-- An option of the program. -/
inductive Switch
  | help | workingPath | outputFolder | enumNumbers | withSource | before | after | camelCase
  | verbose
  deriving DecidableEq, Repr

namespace Switch

/-- The names of an option, the short one first. -/
def names : Switch → List Text
  | help => ["-h", "--help"]
  | workingPath => ["--working-path"]
  | outputFolder => ["--output-dir"]
  | enumNumbers => ["--enumvalues"]
  | withSource => ["--withsource"]
  | before => ["--prefix"]
  | after => ["--suffix"]
  | camelCase => ["--camel-case"]
  | verbose => ["-v", "--verbose"]

/-- Every option once, in the order of the help text. -/
def all : List Switch :=
  [help, workingPath, outputFolder, enumNumbers, withSource, before, after, camelCase, verbose]

/-- Whether the option has a value. -/
def takesValue : Switch → Bool
  | workingPath | outputFolder | before | after => true
  | help | enumNumbers | withSource | camelCase | verbose => false

/-- Every name with its option. -/
def named : List (Text × Switch) := all.flatMap fun s => s.names.map fun name => (name, s)

/-- The option of a name. -/
def ofName? (name : Text) : Option Switch := Assoc.find? name named

/-- The names of an option, as messages show them. -/
def title (s : Switch) : Text := ['/'].intercalate s.names

end Switch

/-! ## Wrong usage -/

/-- Why a command line is refused. -/
inductive UsageError
  | ambiguous (word : Text) (matching : List Text)
  | missingValue (s : Switch)
  /-- A value is attached to an option that has none. -/
  | ignoredValue (s : Switch) (value : Text)
  | missingOptions (missing : List Switch)
  | unrecognized (words : List Text)
  deriving DecidableEq, Repr

/-- The name of the program. -/
def programName : Text := "thrift2flow"

namespace UsageError

def cause : UsageError → Text
  | ambiguous word matching =>
    "ambiguous option: " ++ word ++ " could match " ++ joined ", " matching
  | missingValue s => "argument " ++ s.title ++ ": expected one argument"
  | ignoredValue s value =>
    "argument " ++ s.title ++ ": ignored explicit argument " ++ Text.quoted value
  | missingOptions missing =>
    "the following arguments are required: " ++ joined ", " (missing.map Switch.title)
  | unrecognized words => "unrecognized arguments: " ++ joined " " words

def message (e : UsageError) : Text := programName ++ ": error: " ++ e.cause

end UsageError

/-! ## Classification -/

/-- What long names begin with; as a word by itself it ends the options. -/
def dashes : Text := ['-', '-']

/-- What a word is taken for. -/
inductive Word
  /-- No option. -/
  | plain
  /-- The first `--`; all words after it are plain. -/
  | terminator
  /-- Looks like an option, but is none. -/
  | unknown
  /-- An option by one of its names, perhaps with a text attached: after an
      equals sign, or right behind a short name. -/
  | option (s : Switch) (name : Text) (attached : Option Text)
  deriving DecidableEq, Repr

/-- The texts before and after the first equals sign. -/
def cutEquals (word : Text) : Option (Text × Text) :=
  if '=' ∈ word then some (word.takeWhile (· ≠ '='), (word.dropWhile (· ≠ '=')).drop 1) else none

/-- Whether a word is a negative number: a minus and digits, perhaps with a
    point before the last ones. -/
def isNegativeNumber : Text → Bool
  | '-' :: s =>
    let s := if s.getLast? = some '\n' then s.dropLast else s
    let isDigit := fun c => (Text.decimalValue? c).isSome
    match s.dropWhile isDigit with
    | [] => s ≠ []
    | '.' :: fraction => fraction ≠ [] && fraction.all isDigit
    | _ => false
  | _ => false

/-- The options that a word could mean by abbreviation, or by a short name
    with something behind it. -/
def candidates (word : Text) : List (Switch × Text × Option Text) :=
  if dashes.isPrefixOf word then
    let (name, attached) := match cutEquals word with
      | some (name, value) => (name, some value)
      | none => (word, none)
    (Switch.named.filter fun entry => name.isPrefixOf entry.1).map fun (full, s) =>
      (s, full, attached)
  else
    (Switch.named.filter fun entry => entry.1 = word.take 2).map fun (short, s) =>
      (s, short, some (word.drop 2))

/-- What a word by itself is taken for. -/
def classify (word : Text) : Except UsageError Word :=
  if word.length ≤ 1 ∨ word.head? ≠ some '-' then .ok .plain
  else match Switch.ofName? word with
  | some s => .ok (.option s word none)
  | none =>
    match (cutEquals word).bind fun (name, value) =>
      (Switch.ofName? name).map fun s => Word.option s name (some value) with
    | some found => .ok found
    | none =>
      match candidates word with
      | [(s, name, attached)] => .ok (.option s name attached)
      | [] => .ok (if isNegativeNumber word ∨ ' ' ∈ word then .plain else .unknown)
      | several => .error (.ambiguous word (several.map fun (_, name, _) => name))

/-- What the words of a command line are taken for. -/
def classifyAll : List Text → Except UsageError (List (Text × Word))
  | [] => .ok []
  | word :: words =>
    if word = dashes then .ok ((word, .terminator) :: words.map fun w => (w, .plain))
    else do
      let first ← classify word
      return (word, first) :: (← classifyAll words)

/-! ## Reading -/

/-- The value of an option. -/
inductive OptionValue
  | text (s : Text)
  /-- The option is given, but there is no text. -/
  | nothing
  deriving DecidableEq, Repr

namespace OptionValue

/-- The value that an attached text stands for: two dashes are no text. -/
def ofAttached (s : Text) : OptionValue := if s = dashes then nothing else text s

def text? : OptionValue → Option Text
  | text s => some s
  | nothing => none

def isEmpty (v : OptionValue) : Bool := v.text?.getD [] = []

/-- The value as a part of names, which shows a missing text as a pair of
    brackets. -/
def part : OptionValue → Text
  | text s => s
  | nothing => ['[', ']']

end OptionValue

/-- The choices made on a command line. -/
structure Arguments where
  workingPath : Option OptionValue
  outputFolder : OptionValue
  before : OptionValue
  after : OptionValue
  camelCase : Bool
  enumNumbers : Bool
  withSource : Bool
  verbose : Bool

namespace Arguments

/-- No option is given. -/
def initial : Arguments := ⟨none, .text [], .text [], .text [], false, false, false, false⟩

/-- The choices with the value of an option added; the last value counts. -/
def give (a : Arguments) (s : Switch) (value : OptionValue) : Arguments :=
  match s with
  | .workingPath => { a with workingPath := some value }
  | .outputFolder => { a with outputFolder := value }
  | .before => { a with before := value }
  | .after => { a with after := value }
  | .help | .enumNumbers | .withSource | .camelCase | .verbose => a

/-- The choices with an option added that has no value. -/
def turnOn (a : Arguments) : Switch → Arguments
  | .enumNumbers => { a with enumNumbers := true }
  | .withSource => { a with withSource := true }
  | .camelCase => { a with camelCase := true }
  | .verbose => { a with verbose := true }
  | .help | .workingPath | .outputFolder | .before | .after => a

/-- The rule for names.  It is plain unless there is something to do; only
    then does a missing text show. -/
def rule (a : Arguments) : NameRule :=
  if a.before.isEmpty && a.after.isEmpty && !a.camelCase then .plain
  else ⟨a.before.part, a.after.part, a.camelCase⟩

/-- Two texts are the rule's own, be they empty or not. -/
theorem rule_of_texts {a : Arguments} {before after : Text} (hb : a.before = .text before)
    (ha : a.after = .text after) : a.rule = ⟨before, after, a.camelCase⟩ := by
  unfold rule
  split
  · simp_all [OptionValue.isEmpty, OptionValue.text?, NameRule.plain]
  · simp [hb, ha, OptionValue.part]

/-- What is chosen about the files. -/
def options (a : Arguments) : FileOptions := ⟨a.rule, a.enumNumbers, a.withSource⟩

end Arguments

/-- What a command line asks for. -/
inductive Request
  | help
  | run (a : Arguments)

/-- The options written behind one dash, a letter each: the first one, and
    those of the text behind it.  No short name belongs to an option that has
    a value. -/
def cluster (s : Switch) : Text → Except UsageError (List Switch)
  | [] => .error (.ignoredValue s [])
  | c :: rest =>
    match Switch.ofName? ['-', c] with
    | none => .error (.ignoredValue s (c :: rest))
    | some next => if rest = [] then .ok [s, next] else (s :: ·) <$> cluster next rest

/-- Takes the words in order.  `extras` are those that belong to no option. -/
def takeWords (a : Arguments) (extras : List Text) :
    List (Text × Word) → Except UsageError Request
  | [] =>
    if a.workingPath.isNone then .error (.missingOptions [.workingPath])
    else if extras ≠ [] then .error (.unrecognized extras)
    else .ok (.run a)
  | (word, .plain) :: words | (word, .terminator) :: words | (word, .unknown) :: words =>
    takeWords a (extras ++ [word]) words
  | (_, .option s _ none) :: words =>
    if s.takesValue then
      match words with
      | (value, .plain) :: words => takeWords (a.give s (.text value)) extras words
      | _ => .error (.missingValue s)
    else if s = .help then .ok .help
    else takeWords (a.turnOn s) extras words
  | (_, .option s name (some attached)) :: words =>
    if s.takesValue then takeWords (a.give s (.ofAttached attached)) extras words
    else if dashes.isPrefixOf name then .error (.ignoredValue s attached)
    else do
      let found ← cluster s attached
      if found.contains .help then .ok .help
      else takeWords (found.foldl Arguments.turnOn a) extras words

/-- What the words of a command line ask for. -/
def Request.ofWords (words : List Text) : Except UsageError Request := do
  takeWords .initial [] (← classifyAll words)

/-! ## Running -/

/-- The lines that show how the program is called. -/
def usageText : List Text := [
  "usage: thrift2flow [-h] --working-path WORKING_PATH [--output-dir OUTPUT_DIR]",
  "                   [--enumvalues] [--withsource] [--prefix PREFIX]",
  "                   [--suffix SUFFIX] [--camel-case] [-v]"]

/-- The lines that say what the options are for. -/
def optionsText : List Text := [
  "Thrift IDL to Flow type declarations",
  "",
  "options:",
  "  -h, --help            show this help message and exit",
  "  --working-path WORKING_PATH",
  "                        Path to scan for .thrift files",
  "  --output-dir OUTPUT_DIR",
  "                        Directory for generated .js.flow files (default: the",
  "                        working path)",
  "  --enumvalues          Give an enum's plain name to its values; keys go to",
  "                        <Name>Keys",
  "  --withsource          Include the absolute Thrift source path in the header",
  "  --prefix PREFIX       Prefix for generated type names",
  "  --suffix SUFFIX       Suffix for generated type names",
  "  --camel-case          Convert generated type names to UpperCamelCase",
  "  -v, --verbose         Enable debug logging"]

/-- The help text. -/
def helpText : List Text := usageText ++ [] :: optionsText

/-- The batch that a command line asks for, at a given time.  There is none if
    the working path has no text. -/
def Arguments.batch? (a : Arguments) (timestamp : Text) : Option Batch :=
  (a.workingPath.bind OptionValue.text?).map fun working =>
    ⟨working, a.outputFolder.text?, a.options, timestamp⟩

/-- Runs what a command line asks for: the outcome and the lines printed. -/
def Arguments.run (a : Arguments) (timestamp : Text) (tree : FileTree) : Outcome × List Text :=
  match a.batch? timestamp with
  | some b => (b.run tree, b.report tree (b.run tree))
  | none => (.untouched tree (.crash .noWorkingPath), [])

/-- How log entries are shown. -/
inductive LogStyle
  /-- Warnings only, by their message. -/
  | bare
  /-- With the level in front; what is being read only on request. -/
  | leveled (verbose : Bool)
  deriving DecidableEq, Repr

/-- The line of a log entry; none if it is not shown. -/
def LogEntry.line? (style : LogStyle) : LogEntry → Option Text
  | .parsing path =>
    if style = .leveled true then some ("DEBUG: Parsing " ++ path) else none
  | .warning message => some (if style = .bare then message else "WARNING: " ++ message)
  | .fatal message => some ("FATAL: " ++ message)

/-- The exit code of a batch: one unless it is done. -/
def Ending.exitCode : Ending → Nat
  | .done => 0
  | .noFiles | .fatal | .crash _ => 1

end IdlFlow
