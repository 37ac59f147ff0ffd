/-
  Value expressions of declarations, and the one that a constant value stands
  for.

  A key of an enum of the same document becomes the quoted key, which is what
  the type of its keys admits.  Any other reference is a name and goes through
  the naming in use, unless it has more than two segments.
-/
import IdlFlow.Declaration.TypeExpr
import IdlFlow.Number.Shortest

namespace IdlFlow

/-- A value expression. -/
inductive ValueExpr
  | string (content : Text)
  | integer (value : Int)
  | double (value : Binary64)
  | bool (value : Bool)
  | name (n : Text)
  | array (items : List ValueExpr)
  | object (entries : List (ValueExpr × ValueExpr))
  | verbatim (text : Text)
  deriving Repr, Inhabited

/-- Why a declaration has no text. -/
inductive WriteError
  /-- An integer has more digits than may be written. -/
  | tooManyDigits
  deriving DecidableEq, Repr

def WriteError.message : WriteError → Text
  | tooManyDigits =>
    "Exceeds the limit (" ++ Decimal.digits digitLimit ++ " digits) for integer string " ++
      "conversion; use sys.set_int_max_str_digits() to increase the limit"

/-- The text of an integer. -/
def writeInteger (i : Int) : Except WriteError Text :=
  match Decimal.numeral? i with
  | some s => .ok s
  | none => .error .tooManyDigits

namespace ValueExpr

/-! ## Written form -/

/-- The content of a string between single quotes.  Its escapes stay; a bare
    single quote and bare line breaks become escapes. -/
def quoteContent : Text → Text
  | [] => []
  | ['\\'] => ['\\']
  | '\\' :: c :: s => '\\' :: c :: quoteContent s
  | '\'' :: s => '\\' :: '\'' :: quoteContent s
  | '\n' :: s => '\\' :: 'n' :: quoteContent s
  | '\r' :: s => '\\' :: 'r' :: quoteContent s
  | c :: s => c :: quoteContent s

/-- A string literal. -/
def quote (content : Text) : Text := '\'' :: quoteContent content ++ ['\'']

/-- The words for doubles that no digits write. -/
def doubleWords : Binary64.Words := ⟨"Infinity", "NaN"⟩

mutual

def text : ValueExpr → Except WriteError Text
  | string content => .ok (quote content)
  | integer i => writeInteger i
  | double x => .ok (x.text doubleWords)
  | bool b => .ok (if b then "true" else "false")
  | name n => .ok n
  | array items => do return "[" ++ [',', ' '].intercalate (← texts items) ++ "]"
  | object entries => do
    return "\x7b" ++ [',', ' '].intercalate (← entryTexts entries) ++ "\x7d"
  | verbatim s => .ok s

def texts : List ValueExpr → Except WriteError (List Text)
  | [] => .ok []
  | item :: items => do
    let first ← item.text
    return first :: (← texts items)

def entryTexts : List (ValueExpr × ValueExpr) → Except WriteError (List Text)
  | [] => .ok []
  | (key, value) :: entries => do
    let key ← key.text
    let value ← value.text
    return (key ++ ": " ++ value) :: (← entryTexts entries)

end

/-! ## Constant values -/

/-- What an identifier in a constant value refers to. -/
def ofReference (rename : Text → Text) (keys : EnumKeys) (reference : Text) : ValueExpr :=
  let plain := if 1 < reference.count '.' then reference else rename reference
  match Text.cutLast '.' reference with
  | some (enum, key) => if ((keys enum).getD []).contains key then .string key else .name plain
  | none => .name plain

mutual

/-- The value expression of a constant value. -/
def ofConst (rename : Text → Text) (keys : EnumKeys) : ConstValue → ValueExpr
  | .string content => .string content
  | .integer i => .integer i
  | .double x => .double x
  | .bool b => .bool b
  | .identifier reference => ofReference rename keys reference
  | .list items => .array (ofConsts rename keys items)
  | .map entries => .object (ofEntries rename keys entries)
  | .verbatim s => .verbatim s

def ofConsts (rename : Text → Text) (keys : EnumKeys) : List ConstValue → List ValueExpr
  | [] => []
  | item :: items => ofConst rename keys item :: ofConsts rename keys items

def ofEntries (rename : Text → Text) (keys : EnumKeys) :
    List (ConstValue × ConstValue) → List (ValueExpr × ValueExpr)
  | [] => []
  | (key, value) :: entries =>
    (ofConst rename keys key, ofConst rename keys value) :: ofEntries rename keys entries

end

end ValueExpr

end IdlFlow
