/-
  Declarations, and those that a definition stands for.

  A definition becomes one declaration, an enum two: the union of its keys and
  the union of its numbers.  `Definition.declarations?` gives them as data,
  `Declaration.text` writes one.
-/
import IdlFlow.Declaration.ValueExpr

namespace IdlFlow

/-! ## Declarations -/

/-- A property of an object type. -/
structure Property where
  name : Text
  optional : Bool
  type : TypeExpr
  deriving DecidableEq, Repr

/-- A function property of an object type. -/
structure Method where
  name : Text
  parameters : List (Text × TypeExpr)
  returns : TypeExpr
  deriving DecidableEq, Repr

/-- What a declared type is. -/
inductive TypeBody
  | expression (type : TypeExpr)
  /-- An exact object with the given properties. -/
  | object (properties : List Property)
  /-- One of several exact objects of one property each. -/
  | choice (alternatives : List (Text × TypeExpr))
  /-- One of several texts. -/
  | keys (names : List Text)
  /-- One of several integers. -/
  | numbers (values : List Int)
  /-- An exact object with the given functions. -/
  | methods (functions : List Method)
  deriving Repr

/-- An exported declaration. -/
inductive Declaration
  | type (name : Text) (body : TypeBody)
  | const (name : Text) (type : TypeExpr) (value : ValueExpr)
  deriving Repr

/-! ## Written form -/

/-- Texts side by side. -/
def joined (separator : Text) (texts : List Text) : Text := separator.intercalate texts

/-- Alternatives of a union; a union of none is the empty type. -/
def unionText (alternatives : List Text) : Text :=
  if alternatives.isEmpty then "empty" else joined " | " alternatives

def Property.text (p : Property) : Text :=
  p.name ++ (if p.optional then "?" else "") ++ ": " ++ p.type.text ++ ";"

def Method.text (m : Method) : Text :=
  m.name ++ ": (" ++ joined ", " (m.parameters.map fun (name, type) => name ++ ": " ++ type.text)
    ++ ") => " ++ m.returns.text

namespace TypeBody

/-- An exact object on lines of its own. -/
def block (separator : Text) (lines : List Text) : Text :=
  "\x7b|\n" ++ joined separator lines ++ "\n|\x7d"

def text : TypeBody → Except WriteError Text
  | expression type => .ok type.text
  | object [] => .ok "\x7b||\x7d"
  | object [p] => .ok ("\x7b|" ++ p.text ++ "|\x7d")
  | object properties => .ok (block "\n" (properties.map Property.text))
  | choice [] => .ok "\x7b||\x7d"
  | choice alternatives => .ok (joined " | " (alternatives.map fun (name, type) =>
      "\x7b|" ++ name ++ ": " ++ type.text ++ "|\x7d"))
  | keys names => .ok (unionText (names.map fun name => '"' :: name ++ ['"']))
  | numbers values => do return unionText (← values.mapM writeInteger)
  | methods [] => .ok "\x7b||\x7d"
  | methods functions => .ok (block ",\n" (functions.map Method.text))

end TypeBody

namespace Declaration

/-- The name that a declaration exports. -/
def name : Declaration → Text
  | .type name _ | .const name _ _ => name

def text : Declaration → Except WriteError Text
  | .type name body => do return "export type " ++ name ++ " = " ++ (← body.text) ++ ";"
  | .const name t value => do
    return "export const " ++ name ++ ": " ++ t.text ++ " = " ++ (← value.text) ++ ";"

/-- Declarations one below the other. -/
def block (declarations : List Declaration) : Except WriteError Text := do
  return joined "\n" (← declarations.mapM text)

end Declaration

/-! ## Declarations of definitions -/

/-- What declarations are made with: the naming in use, the enums of the
    document, and whether an enum's plain name is that of its numbers. -/
structure Scope where
  rename : Text → Text
  keys : EnumKeys
  enumNumbers : Bool

namespace Scope

def type (scope : Scope) : TypeRef → TypeExpr := TypeExpr.ofTypeRef scope.rename scope.keys

def value (scope : Scope) : ConstValue → ValueExpr := ValueExpr.ofConst scope.rename scope.keys

def property (scope : Scope) (f : Field) : Property := ⟨f.name, f.optional, scope.type f.type⟩

/-- A field by its name and type alone. -/
def parameter (scope : Scope) (f : Field) : Text × TypeExpr := (f.name, scope.type f.type)

def method (scope : Scope) (f : Function) : Method :=
  ⟨f.name, f.parameters.map scope.parameter, scope.type f.returns⟩

end Scope

/-- The numbers of enum values; one without a number has its index. -/
def EnumValue.numbers (values : List EnumValue) : List Int :=
  values.mapIdx fun index value => value.number.getD index

/-- The keys and the numbers of an enum. -/
def enumDeclarations (scope : Scope) (name : Text) (values : List EnumValue) :
    List Declaration :=
  let numbers := TypeBody.numbers (EnumValue.numbers values)
  let keys := TypeBody.keys (values.map EnumValue.name)
  let name := scope.rename name
  if scope.enumNumbers then [.type name numbers, .type (name ++ "Keys") keys]
  else [.type (name ++ "Values") numbers, .type name keys]

/-- The declarations of a definition; none if there is no way to declare it. -/
def Definition.declarations? (scope : Scope) : Definition → Option (List Declaration)
  | .record .union name fields =>
    some [.type (scope.rename name) (.choice (fields.map scope.parameter))]
  | .record _ name fields =>
    some [.type (scope.rename name) (.object (fields.map scope.property))]
  | .enum name values => some (enumDeclarations scope name values)
  | .typedef name type => some [.type (scope.rename name) (.expression (scope.type type))]
  | .service name _ functions =>
    some [.type (scope.rename name) (.methods (functions.map scope.method))]
  | .const name type value =>
    some [.const (scope.rename name) (scope.type type) (scope.value value)]
  | .unsupported _ _ => none

end IdlFlow
