/-
  Type expressions of declarations, and the one that a type reference stands
  for.

  Lists and sets are arrays; a reference to an enum of the same document asks
  for its keys; a base type has a fixed name, but 64-bit integers can be
  annotated as another.  Other names go through the naming in use.
-/
import IdlFlow.Idl.Document

namespace IdlFlow

/-- A type expression. -/
inductive TypeExpr
  | name (n : Text)
  /-- The keys of an object with the given name. -/
  | keysOf (n : Text)
  | array (item : TypeExpr)
  | dictionary (key value : TypeExpr)
  deriving DecidableEq, Repr

/-- The keys of the enum that a name stands for, in a document. -/
abbrev EnumKeys := Text → Option (List Text)

/-- The keys of an enum definition. -/
def Definition.enumKeys? : Definition → Option (List Text)
  | .enum _ values => some (values.map EnumValue.name)
  | _ => none

/-- The enums of a document; of several definitions with one name the last
    counts. -/
def enumKeys (definitions : List Definition) : EnumKeys := fun name =>
  (definitions.reverse.find? (·.name = name)).bind Definition.enumKeys?

namespace TypeExpr

def text : TypeExpr → Text
  | name n => n
  | keysOf n => "$Keys<typeof " ++ n ++ ">"
  | array item => item.text ++ "[]"
  | dictionary key value => "\x7b[" ++ key.text ++ "]: " ++ value.text ++ "\x7d"

/-- The names of the base types. -/
def baseNames : Assoc Text Text :=
  [("binary", "Buffer"), ("bool", "boolean"), ("byte", "number"), ("i8", "number"),
    ("i16", "number"), ("i32", "number"), ("i64", "Buffer"), ("double", "number"),
    ("string", "string"), ("void", "void")]

/-- The annotation that gives a 64-bit integer another name. -/
def annotationKey : Text := "js.type"

/-- The names that the annotation can give. -/
def annotatedNames : List Text := ["Long", "Date"]

/-- The name that annotations give to a base type. -/
def annotatedName? (tag : Text) (annotations : Assoc Text Text) : Option Text :=
  if tag = "i64" then (annotations.find? annotationKey).filter annotatedNames.contains else none

/-- The type expression of a type reference. -/
def ofTypeRef (rename : Text → Text) (keys : EnumKeys) : TypeRef → TypeExpr
  | .base tag annotations =>
    .name ((annotatedName? tag annotations).getD ((baseNames.find? tag).getD (rename tag)))
  | .named n => if (keys n).isSome then .keysOf (rename n) else .name (rename n)
  | .list item | .set item => .array (ofTypeRef rename keys item)
  | .map key value => .dictionary (ofTypeRef rename keys key) (ofTypeRef rename keys value)

end TypeExpr

end IdlFlow
