/-
  Reading documents from tokens.

  A `Parser` takes what it reads off the front of the tokens left and fails at
  the first token that cannot be right.  No parser looks further ahead than
  one token.  The recursive ones carry a bound on the tokens left, which
  `manyUntil`, `typeRef` and `constValue` set to their number: with that bound
  it never runs out before the tokens do, and with no tokens left the answer
  without recursion is the right one.

  * `document` reads all tokens of a text;
  * `Document.parse` reads a text, with the failure placed in it.
-/
import IdlFlow.Idl.Token
import IdlFlow.Idl.Document

namespace IdlFlow

/-! ## Failures -/

/-- What a parser could have read at a failure. -/
inductive Wanted
  | kind (k : Kind)
  | constantValue
  | definition
  deriving DecidableEq, Repr

/-- Why a text is no document. -/
inductive ParseError
  /-- A token, or the end of the text, stands where something else was
      wanted. -/
  | unexpected (wanted : Wanted) (found : Option Lexeme) (position : Position)
  /-- A numeral has no value. -/
  | numeral (e : NumeralError)
  deriving DecidableEq, Repr

/-- The class and text of what was found, as messages show it. -/
def foundText (found : Option Lexeme) : Text :=
  (found.elim endName (·.kind.name)) ++ " (" ++ Text.quoted (found.elim [] Lexeme.value) ++ ")"

def Wanted.message (found : Option Lexeme) : Wanted → Text
  | kind k => "Expected " ++ k.name ++ ", got " ++ foundText found
  | constantValue => "Expected constant value, got " ++ foundText found
  | definition => "Unexpected " ++ foundText found ++ " at top level"

def ParseError.message : ParseError → Text
  | unexpected wanted found position =>
    "Line " ++ Decimal.digits position.line ++ ":" ++ Decimal.digits position.column ++ ": " ++
      wanted.message found
  | numeral e => e.message

/-- A failure among tokens: `rest` starts with the token that is wrong and is
    empty at the end. -/
inductive Failure
  | unexpected (wanted : Wanted) (rest : List Token)
  | numeral (e : NumeralError)
  deriving DecidableEq, Repr

/-- Reads from the tokens left. -/
abbrev Parser := StateT (List Token) (Except Failure)

namespace Parser

variable {α : Type}

/-! ## Single tokens -/

/-- Fails at the next token. -/
def fail (wanted : Wanted) : Parser α := fun tokens => .error (.unexpected wanted tokens)

/-- What the next token says; none at the end. -/
def peek : Parser (Option Lexeme) := fun tokens => .ok (tokens.head?.map Token.lexeme, tokens)

/-- Takes the next token off. -/
def advance : Parser Unit := fun tokens => .ok ((), tokens.drop 1)

/-- The value of a numeral just read. -/
def valued (value : Except NumeralError α) : Parser α := fun tokens =>
  match value with
  | .ok a => .ok (a, tokens)
  | .error e => .error (.numeral e)

/-- The given mark. -/
def mark (m : Mark) : Parser Unit := do
  if (← peek) = some (.mark m) then advance else fail (.kind (.mark m))

/-- Whether the given mark is next; if so, it is taken. -/
def mark? (m : Mark) : Parser Bool := do
  if (← peek) = some (.mark m) then
    advance
    return true
  else return false

/-- Whether the given keyword is next; if so, it is taken. -/
def keyword? (k : Keyword) : Parser Bool := do
  if (← peek) = some (.keyword k) then
    advance
    return true
  else return false

/-- Whether the given identifier is next; if so, it is taken. -/
def identifier? (name : Text) : Parser Bool := do
  if (← peek) = some (.identifier name) then
    advance
    return true
  else return false

/-- Any identifier. -/
def identifier : Parser Text := do
  match ← peek with
  | some (.identifier name) =>
    advance
    return name
  | _ => fail (.kind .identifier)

/-- A quoted text. -/
def string : Parser Text := do
  match ← peek with
  | some (.string content) =>
    advance
    return content
  | _ => fail (.kind .string)

/-- An integer. -/
def integer : Parser Int := do
  match ← peek with
  | some (.numeral n) =>
    if n.isInteger then
      advance
      valued n.integer
    else fail (.kind .integer)
  | _ => fail (.kind .integer)

/-- Any token, by its text; the end of the text counts as an empty one. -/
def anyToken : Parser Text := do
  let next ← peek
  advance
  return next.elim [] Lexeme.value

/-- At most one comma or semicolon. -/
def separator : Parser Unit := do
  let next ← peek
  if next = some (.mark .comma) ∨ next = some (.mark .semicolon) then advance

/-! ## Repetition -/

/-- Whether the tokens have come to an end or to the closing mark. -/
def atClosing (closing : Option Mark) : Parser Bool := do
  match ← peek with
  | none => return true
  | some lexeme => return closing.any fun m => lexeme = .mark m

/-- At most `bound` items, up to the closing mark or the end. -/
def manyUpTo (closing : Option Mark) (item : Parser α) : Nat → Parser (List α)
  | 0 => return []
  | bound + 1 => do
    if ← atClosing closing then return []
    else
      let first ← item
      let others ← manyUpTo closing item bound
      return first :: others

/-- Items up to the closing mark, which stays, or the end. -/
def manyUntil (closing : Option Mark) (item : Parser α) : Parser (List α) := fun tokens =>
  manyUpTo closing item tokens.length tokens

/-- Items and their closing mark. -/
def manyClosed (closing : Mark) (item : Parser α) : Parser (List α) := do
  let items ← manyUntil (some closing) item
  mark closing
  return items

/-! ## Annotations and types -/

/-- One annotation: a key, which any token can be, and perhaps a value. -/
def annotation : Parser (Text × Text) := do
  let key ← anyToken
  let value ← if ← mark? .equals then string else pure []
  separator
  return (key, value)

/-- An optional list of annotations; the last one of a key counts. -/
def annotations : Parser (Assoc Text Text) := do
  if ← mark? .leftParen then
    return .ofList (← manyClosed .rightParen annotation)
  else return []

/-- An optional `cpp_type` with its quoted text, which says nothing here. -/
def nativeType : Parser Unit := do
  if ← identifier? "cpp_type" then discard string

/-- The part of a container type after its keyword: what it contains, between
    angles. -/
def contained (content : Parser α) : Parser α := do
  nativeType
  mark .leftAngle
  let a ← content
  mark .rightAngle
  discard annotations
  return a

/-- A base type or the name of another one. -/
def typeName : Parser TypeRef := do
  let name ← identifier
  let annotations ← annotations
  return if TypeRef.baseTags.contains name then .base name annotations else .named name

/-- A reference to a type, given how those in it are read. -/
def typeRefOver (inner : Parser TypeRef) : Parser TypeRef := do
  match ← peek with
  | some (.keyword .list) =>
    advance
    return .list (← contained inner)
  | some (.keyword .set) =>
    advance
    return .set (← contained inner)
  | some (.keyword .map) =>
    advance
    contained do
      let key ← inner
      mark .comma
      let value ← inner
      return .map key value
  | _ => typeName

/-- A reference to a type with at most `bound` levels of nesting. -/
def typeRefUpTo : Nat → Parser TypeRef
  | 0 => fail (.kind .identifier)
  | bound + 1 => typeRefOver (typeRefUpTo bound)

/-- A reference to a type. -/
def typeRef : Parser TypeRef := fun tokens => typeRefUpTo tokens.length tokens

/-! ## Constant values -/

/-- A constant value, given how those in it are read. -/
def constValueOver (inner : Parser ConstValue) : Parser ConstValue := do
  match ← peek with
  | some (.numeral n) =>
    advance
    if n.isInteger then return .integer (← valued n.integer)
    else return .double (← valued n.double)
  | some (.string content) =>
    advance
    return .string content
  | some (.keyword .trueValue) =>
    advance
    return .bool true
  | some (.keyword .falseValue) =>
    advance
    return .bool false
  | some (.identifier name) =>
    advance
    return .identifier name
  | some (.mark .leftBracket) =>
    advance
    return .list (← manyClosed .rightBracket do
      let item ← inner
      separator
      return item)
  | some (.mark .leftBrace) =>
    advance
    return .map (← manyClosed .rightBrace do
      let key ← inner
      mark .colon
      let value ← inner
      separator
      return (key, value))
  | _ => fail .constantValue

/-- A constant value with at most `bound` levels of nesting. -/
def constValueUpTo : Nat → Parser ConstValue
  | 0 => fail .constantValue
  | bound + 1 => constValueOver (constValueUpTo bound)

/-- A constant value. -/
def constValue : Parser ConstValue := fun tokens => constValueUpTo tokens.length tokens

/-! ## Fields and functions -/

/-- An optional field number with its colon. -/
def fieldId : Parser (Option Int) := do
  match ← peek with
  | some (.numeral n) =>
    if n.isInteger then
      let id ← integer
      mark .colon
      return some id
    else return none
  | _ => return none

/-- Whether a field is marked optional; the mark for required ones is taken as
    well. -/
def optionality : Parser Bool := do
  if ← keyword? .optional then return true
  else
    discard (keyword? .required)
    return false

def field : Parser Field := do
  let id ← fieldId
  let optional ← optionality
  let type ← typeRef
  let name ← identifier
  let default ← if ← mark? .equals then some <$> constValue else pure none
  discard annotations
  separator
  return { name, type, id, optional, default }

/-- The result type of a function. -/
def resultType : Parser TypeRef := do
  if ← identifier? TypeRef.voidTag then return .base TypeRef.voidTag []
  else typeRef

/-- Fields between parentheses. -/
def parameters : Parser (List Field) := do
  mark .leftParen
  manyClosed .rightParen field

def function : Parser Function := do
  let oneway ← keyword? .oneway
  let returns ← resultType
  let name ← identifier
  let inputs ← parameters
  let throws ← if ← keyword? .throws then parameters else pure []
  discard annotations
  separator
  return { name, returns, parameters := inputs, throws, oneway }

/-! ## Definitions -/

/-- The part of a record after its keyword. -/
def record (form : RecordForm) : Parser Definition := do
  let name ← identifier
  discard (identifier? "xsd_all")
  mark .leftBrace
  let fields ← manyClosed .rightBrace field
  discard annotations
  return .record form name fields

def enumValue : Parser EnumValue := do
  let name ← identifier
  let number ← if ← mark? .equals then some <$> integer else pure none
  discard annotations
  separator
  return { name, number }

/-- The part of an enum after its keyword. -/
def enum : Parser Definition := do
  let name ← identifier
  mark .leftBrace
  let values ← manyClosed .rightBrace enumValue
  discard annotations
  return .enum name values

/-- The part of an enum of strings after its keyword. -/
def stringEnum : Parser Definition := do
  let name ← identifier
  mark .leftBrace
  discard (manyClosed .rightBrace do
    discard string
    separator)
  discard annotations
  return .unsupported "Senum" name

/-- The part of a typedef after its keyword. -/
def typedef : Parser Definition := do
  let type ← typeRef
  let name ← identifier
  discard annotations
  separator
  return .typedef name type

/-- The part of a service after its keyword. -/
def service : Parser Definition := do
  let name ← identifier
  let base ← if ← keyword? .extendsService then some <$> identifier else pure none
  mark .leftBrace
  let functions ← manyClosed .rightBrace function
  discard annotations
  return .service name base functions

/-- The part of a constant after its keyword. -/
def const : Parser Definition := do
  let type ← typeRef
  let name ← identifier
  mark .equals
  let value ← constValue
  separator
  return .const name type value

/-! ## Documents -/

/-- The part of a statement after its first token. -/
def statementOf : Keyword → Option (Parser Statement)
  | .includeFile => some (.include_ <$> string)
  | .includeNative => some (.includeNative <$> string)
  | .namespaceOf => some do
    let scope ← anyToken
    return .namespace_ scope (← identifier)
  | .const => some (.definition <$> const)
  | .typedef => some (.definition <$> typedef)
  | .enum => some (.definition <$> enum)
  | .senum => some (.definition <$> stringEnum)
  | .struct => some (.definition <$> record .struct)
  | .union => some (.definition <$> record .union)
  | .exception => some (.definition <$> record .exception)
  | .service => some (.definition <$> service)
  | _ => none

def statement : Parser Statement := do
  match ← peek with
  | some (.mark .comma) | some (.mark .semicolon) =>
    advance
    return .separator
  | some (.keyword k) =>
    match statementOf k with
    | some rest =>
      advance
      rest
    | none => fail .definition
  | _ => fail .definition

/-- All statements. -/
def document : Parser Document := do
  return .ofStatements (← manyUntil none statement)

end Parser

/-- A failure among the tokens of a stream, placed in its text. -/
def Failure.inStream (stream : TokenStream) : Failure → ParseError
  | unexpected wanted rest =>
    .unexpected wanted (rest.head?.map Token.lexeme)
      (rest.head?.elim stream.finish Token.position)
  | numeral e => .numeral e

/-- The document that tokens make up. -/
def TokenStream.parse (stream : TokenStream) : Except ParseError Document :=
  match Parser.document stream.tokens with
  | .ok (document, _) => .ok document
  | .error failure => .error (failure.inStream stream)

/-- The document that a text declares. -/
def Document.parse (s : Text) : Except ParseError Document := (TokenStream.ofText s).parse

end IdlFlow
