/-
  Reading by places, with guards.

  A guarded parser goes through the entries of a stream as a parser goes through
  the tokens left: the entry at the place in use is the next token, or the end,
  which stays where it is.  It counts its steps, which are its calls, the turns
  of its loops and every look at an entry, and it stops at a fault:

  * `Fault.outside`: an entry is looked at, or a call made, where there is none;
  * `Fault.idle`: a turn of a loop, or one of the routines for types, values,
    fields and functions, has ended where it began;
  * `Fault.exhausted`: a loop has turned, or a recursion gone down, more often
    than there are entries.

  `Guarded.parse` is the guarded form of reading a stream.  There is one guarded
  routine for each parser and of the same text, but for what is guarded.
-/
import IdlFlow.Idl.Parser
import IdlFlow.Proofs.Lexing

namespace IdlFlow

/-- A token with its place in the text, or the end with its place. -/
abbrev Entry := Option Lexeme × Position

/-- What must not happen while entries are read. -/
inductive Fault
  | outside
  | idle
  | exhausted
  deriving DecidableEq, Repr

/-- Why a guarded parser stops. -/
inductive Stop
  | fault (f : Fault)
  | refused (e : ParseError)
  deriving DecidableEq, Repr

/-- The place in use, and the steps so far. -/
structure Meter where
  place : Nat
  steps : Nat
  deriving DecidableEq, Repr

/-- Reads from entries at a place. -/
def Guarded (α : Type) : Type := List Entry → Meter → Except Stop α × Meter

namespace Guarded

variable {α : Type}

instance : Monad Guarded where
  pure a := fun _ meter => (.ok a, meter)
  bind p f := fun entries meter =>
    match p entries meter with
    | (.ok a, meter) => f a entries meter
    | (.error stop, meter) => (.error stop, meter)

def stop (why : Stop) : Guarded α := fun _ meter => (.error why, meter)

section
variable {β : Type} {p : Guarded α} {entries : List Entry} {before after : Meter}

theorem bind_ok {a : α} (run : p entries before = (.ok a, after)) (f : α → Guarded β) :
    (p >>= f) entries before = f a entries after := by
  simp only [bind, run]

theorem bind_error {why : Stop} (run : p entries before = (.error why, after))
    (f : α → Guarded β) : (p >>= f) entries before = (.error why, after) := by
  simp only [bind, run]

end

/-! ## Guards -/

/-- The entry at the place in use. -/
def entry : Guarded Entry := fun entries meter =>
  match entries[meter.place]? with
  | some e => (.ok e, { meter with steps := meter.steps + 1 })
  | none => (.error (.fault .outside), { meter with steps := meter.steps + 1 })

/-- A call counts, and is made at an entry. -/
def call (p : Guarded α) : Guarded α := do
  let _ ← entry
  p

/-- The parser must not end where it began. -/
def consuming (p : Guarded α) : Guarded α := fun entries meter =>
  match p entries meter with
  | (.ok a, after) =>
    if meter.place < after.place then (.ok a, after) else (.error (.fault .idle), after)
  | (.error stop, after) => (.error stop, after)

/-! ## Single entries -/

def peek : Guarded (Option Lexeme) := do return (← entry).1

def move : Guarded Unit := fun _ meter => (.ok (), { meter with place := meter.place + 1 })

/-- Goes to the next place, but not past the end. -/
def advance : Guarded Unit := do
  if (← entry).1.isSome then move

def fail (wanted : Wanted) : Guarded α := do
  let found ← entry
  stop (.refused (.unexpected wanted found.1 found.2))

def valued : Except NumeralError α → Guarded α
  | .ok a => pure a
  | .error e => stop (.refused (.numeral e))

section
variable {β : Type} {entries : List Entry} {place steps : Nat} {e : Entry}

theorem entry_bind (look : entries[place]? = some e) (f : Entry → Guarded β) :
    (entry >>= f) entries ⟨place, steps⟩ = f e entries ⟨place, steps + 1⟩ := by
  simp only [bind, entry, look]

theorem call_eq (look : entries[place]? = some e) (p : Guarded α) :
    call p entries ⟨place, steps⟩ = p entries ⟨place, steps + 1⟩ := entry_bind look _

theorem peek_bind (look : entries[place]? = some e) (f : Option Lexeme → Guarded β) :
    (peek >>= f) entries ⟨place, steps⟩ = f e.1 entries ⟨place, steps + 1⟩ := by
  simp only [peek, pure, bind, entry, look]

theorem advance_bind (look : entries[place]? = some e) (token : e.1.isSome = true)
    (f : Unit → Guarded β) :
    (advance >>= f) entries ⟨place, steps⟩ = f () entries ⟨place + 1, steps + 1⟩ := by
  simp only [advance, bind, entry, look]
  rw [if_pos token]
  rfl

theorem advance_eq (look : entries[place]? = some e) (token : e.1.isSome = true) :
    advance entries ⟨place, steps⟩ = (.ok (), ⟨place + 1, steps + 1⟩) := by
  simp only [advance, bind, entry, look]
  rw [if_pos token]
  rfl

/-- The end stays. -/
theorem advance_bind_none (look : entries[place]? = some e) (finish : e.1 = none)
    (f : Unit → Guarded β) :
    (advance >>= f) entries ⟨place, steps⟩ = f () entries ⟨place, steps + 1⟩ := by
  simp only [advance, bind, entry, look]
  rw [if_neg (by simp [finish])]
  rfl

theorem fail_eq (look : entries[place]? = some e) (wanted : Wanted) :
    (fail wanted : Guarded α) entries ⟨place, steps⟩ =
      (.error (.refused (.unexpected wanted e.1 e.2)), ⟨place, steps + 1⟩) := by
  simp only [fail, bind, entry, look, stop]

end

def mark (m : Mark) : Guarded Unit := call do
  if (← peek) = some (.mark m) then advance else fail (.kind (.mark m))

def next? (l : Lexeme) : Guarded Bool := call do
  if (← peek) = some l then
    advance
    return true
  else return false

def optionally (l : Lexeme) (p : Guarded α) : Guarded (Option α) := do
  if ← next? l then some <$> p else return none

def identifier : Guarded Text := call do
  match ← peek with
  | some (.identifier name) =>
    advance
    return name
  | _ => fail (.kind .identifier)

def string : Guarded Text := call do
  match ← peek with
  | some (.string content) =>
    advance
    return content
  | _ => fail (.kind .string)

def integer : Guarded Int := call do
  match ← peek with
  | some (.numeral n) =>
    if n.isInteger then
      advance
      valued n.integer
    else fail (.kind .integer)
  | _ => fail (.kind .integer)

def anyToken : Guarded Text := call do
  let next ← peek
  advance
  return next.elim [] Lexeme.value

def separator : Guarded Unit := call do
  let next ← peek
  if next = some (.mark .comma) ∨ next = some (.mark .semicolon) then advance

/-! ## Repetition -/

def atClosing (closing : Option Mark) : Guarded Bool := call do
  match ← peek with
  | none => return true
  | some lexeme => return closing.any fun m => lexeme = .mark m

/-- At most `bound` turns, each of which must take an entry. -/
def manyUpTo (closing : Option Mark) (item : Guarded α) : Nat → Guarded (List α)
  | 0 => stop (.fault .exhausted)
  | bound + 1 => do
    if ← atClosing closing then return []
    else
      let first ← consuming (call item)
      let others ← manyUpTo closing item bound
      return first :: others

def manyUntil (closing : Option Mark) (item : Guarded α) : Guarded (List α) :=
  call fun entries => manyUpTo closing item entries.length entries

def manyClosed (closing : Mark) (item : Guarded α) : Guarded (List α) := do
  let items ← manyUntil (some closing) item
  mark closing
  return items

/-! ## Annotations and types -/

def annotation : Guarded (Text × Text) := do
  let key ← anyToken
  let value ← optionally (.mark .equals) string
  separator
  return (key, value.getD [])

def annotations : Guarded (Assoc Text Text) := call do
  if ← next? (.mark .leftParen) then
    return .ofList (← manyClosed .rightParen annotation)
  else return []

def nativeType : Guarded Unit := call do
  if ← next? (.identifier "cpp_type") then discard string

def contained (content : Guarded α) : Guarded α := do
  nativeType
  mark .leftAngle
  let a ← content
  mark .rightAngle
  discard annotations
  return a

def typeName : Guarded TypeRef := do
  let name ← identifier
  let annotations ← annotations
  return if TypeRef.baseTags.contains name then .base name annotations else .named name

def typeRefOver (inner : Guarded TypeRef) : Guarded TypeRef := do
  match ← peek with
  | some (.keyword .list) =>
    advance
    return .list (← contained inner)
  | some (.keyword .set) =>
    advance
    return .set (← contained inner)
  | some (.keyword .map) =>
    advance
    contained do
      let key ← inner
      mark .comma
      let value ← inner
      return .map key value
  | _ => typeName

def typeRefUpTo : Nat → Guarded TypeRef
  | 0 => stop (.fault .exhausted)
  | bound + 1 => consuming (call (typeRefOver (typeRefUpTo bound)))

def typeRef : Guarded TypeRef := fun entries => typeRefUpTo entries.length entries

/-! ## Constant values -/

def constValueOver (inner : Guarded ConstValue) : Guarded ConstValue := do
  match ← peek with
  | some (.numeral n) =>
    advance
    if n.isInteger then return .integer (← valued n.integer)
    else return .double (← valued n.double)
  | some (.string content) =>
    advance
    return .string content
  | some (.keyword .trueValue) =>
    advance
    return .bool true
  | some (.keyword .falseValue) =>
    advance
    return .bool false
  | some (.identifier name) =>
    advance
    return .identifier name
  | some (.mark .leftBracket) =>
    advance
    return .list (← manyClosed .rightBracket do
      let item ← inner
      separator
      return item)
  | some (.mark .leftBrace) =>
    advance
    return .map (← manyClosed .rightBrace do
      let key ← inner
      mark .colon
      let value ← inner
      separator
      return (key, value))
  | _ => fail .constantValue

def constValueUpTo : Nat → Guarded ConstValue
  | 0 => stop (.fault .exhausted)
  | bound + 1 => consuming (call (constValueOver (constValueUpTo bound)))

def constValue : Guarded ConstValue := fun entries => constValueUpTo entries.length entries

/-! ## Fields and functions -/

def fieldId : Guarded (Option Int) := do
  match ← peek with
  | some (.numeral n) =>
    if n.isInteger then
      let id ← integer
      mark .colon
      return some id
    else return none
  | _ => return none

def optionality : Guarded Bool := do
  if ← next? (.keyword .optional) then return true
  else
    discard (next? (.keyword .required))
    return false

def field : Guarded Field := consuming <| call do
  let id ← fieldId
  let optional ← optionality
  let type ← typeRef
  let name ← identifier
  let default ← optionally (.mark .equals) constValue
  discard annotations
  separator
  return { name, type, id, optional, default }

def resultType : Guarded TypeRef := do
  if ← next? (.identifier TypeRef.voidTag) then return .base TypeRef.voidTag []
  else typeRef

def parameters : Guarded (List Field) := do
  mark .leftParen
  manyClosed .rightParen field

def function : Guarded Function := consuming <| call do
  let oneway ← next? (.keyword .oneway)
  let returns ← resultType
  let name ← identifier
  let inputs ← parameters
  let throws ← optionally (.keyword .throws) parameters
  discard annotations
  separator
  return { name, returns, parameters := inputs, throws := throws.getD [], oneway }

/-! ## Definitions -/

def record (form : RecordForm) : Guarded Definition := call do
  let name ← identifier
  discard (next? (.identifier "xsd_all"))
  mark .leftBrace
  let fields ← manyClosed .rightBrace field
  discard annotations
  return .record form name fields

def enumValue : Guarded EnumValue := do
  let name ← identifier
  let number ← optionally (.mark .equals) integer
  discard annotations
  separator
  return { name, number }

def enum : Guarded Definition := call do
  let name ← identifier
  mark .leftBrace
  let values ← manyClosed .rightBrace enumValue
  discard annotations
  return .enum name values

def enumString : Guarded Unit := do
  discard string
  separator

def stringEnum : Guarded Definition := call do
  let name ← identifier
  mark .leftBrace
  discard (manyClosed .rightBrace enumString)
  discard annotations
  return .unsupported "Senum" name

def typedef : Guarded Definition := call do
  let type ← typeRef
  let name ← identifier
  discard annotations
  separator
  return .typedef name type

def service : Guarded Definition := call do
  let name ← identifier
  let base ← optionally (.keyword .extendsService) identifier
  mark .leftBrace
  let functions ← manyClosed .rightBrace function
  discard annotations
  return .service name base functions

def const : Guarded Definition := call do
  let type ← typeRef
  let name ← identifier
  mark .equals
  let value ← constValue
  separator
  return .const name type value

/-! ## Documents -/

def statementOf : Keyword → Option (Guarded Statement)
  | .includeFile => some (.include_ <$> string)
  | .includeNative => some (.includeNative <$> string)
  | .namespaceOf => some do
    let scope ← anyToken
    return .namespace_ scope (← identifier)
  | .const => some (.definition <$> const)
  | .typedef => some (.definition <$> typedef)
  | .enum => some (.definition <$> enum)
  | .senum => some (.definition <$> stringEnum)
  | .struct => some (.definition <$> record .struct)
  | .union => some (.definition <$> record .union)
  | .exception => some (.definition <$> record .exception)
  | .service => some (.definition <$> service)
  | _ => none

def statement : Guarded Statement := do
  match ← peek with
  | some (.mark .comma) | some (.mark .semicolon) =>
    advance
    return .separator
  | some (.keyword k) =>
    match statementOf k with
    | some rest =>
      advance
      rest
    | none => fail .definition
  | _ => fail .definition

def document : Guarded Document := do
  return .ofStatements (← manyUntil none statement)

/-- What entries make up, with the place and the steps at the end. -/
def parse (entries : List Entry) : Except Stop Document × Meter := document entries ⟨0, 0⟩

end Guarded

end IdlFlow
