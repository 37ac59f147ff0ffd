/-
  Interface documents: what an interface text declares.

  A document has the files it includes, the names it takes in other languages'
  namespaces, and its definitions in order.  Whether two documents are the same
  can be decided.
-/
import IdlFlow.Assoc
import IdlFlow.Text.Basic
import IdlFlow.Number.Binary64

namespace IdlFlow

/-! ## Types and values -/

/-- A reference to a type.  Base types keep their tag as it is written. -/
inductive TypeRef
  | base (tag : Text) (annotations : Assoc Text Text)
  | named (name : Text)
  | list (item : TypeRef)
  | set (item : TypeRef)
  | map (key value : TypeRef)
  deriving DecidableEq, Repr, Inhabited

/-- The tags of the base types of fields. -/
def TypeRef.baseTags : List Text :=
  ["bool", "byte", "i8", "i16", "i32", "i64", "double", "string", "binary"]

/-- The tag of the type of functions without result. -/
def TypeRef.voidTag : Text := "void"

/-- A constant value. -/
inductive ConstValue
  /-- The text between the quotes, its escapes untouched. -/
  | string (content : Text)
  | integer (value : Int)
  | double (value : Binary64)
  | bool (value : Bool)
  /-- Another constant or a key of an enum, possibly dotted. -/
  | identifier (name : Text)
  | list (items : List ConstValue)
  | map (entries : List (ConstValue × ConstValue))
  /-- A value written out beforehand. -/
  | verbatim (text : Text)
  deriving Repr, Inhabited

namespace ConstValue

mutual

/-- Whether two values are the same. -/
def same : ConstValue → ConstValue → Bool
  | string s, string t => s = t
  | integer m, integer n => m = n
  | double x, double y => x = y
  | bool a, bool b => a = b
  | identifier s, identifier t => s = t
  | list vs, list ws => sameItems vs ws
  | map es, map fs => sameEntries es fs
  | verbatim s, verbatim t => s = t
  | _, _ => false

def sameItems : List ConstValue → List ConstValue → Bool
  | [], [] => true
  | v :: vs, w :: ws => same v w && sameItems vs ws
  | _, _ => false

def sameEntries : List (ConstValue × ConstValue) → List (ConstValue × ConstValue) → Bool
  | [], [] => true
  | (k, v) :: es, (l, w) :: fs => same k l && same v w && sameEntries es fs
  | _, _ => false

end

mutual

theorem same_iff : ∀ v w : ConstValue, same v w = true ↔ v = w
  | string _, w | integer _, w | double _, w | bool _, w | identifier _, w | verbatim _, w => by
    cases w <;> simp [same]
  | list vs, w => by
    cases w <;> simp [same, sameItems_iff vs]
  | map es, w => by
    cases w <;> simp [same, sameEntries_iff es]

theorem sameItems_iff : ∀ vs ws : List ConstValue, sameItems vs ws = true ↔ vs = ws
  | [], ws => by cases ws <;> simp [sameItems]
  | v :: vs, ws => by cases ws <;> simp [sameItems, same_iff v, sameItems_iff vs]

theorem sameEntries_iff :
    ∀ es fs : List (ConstValue × ConstValue), sameEntries es fs = true ↔ es = fs
  | [], fs => by cases fs <;> simp [sameEntries]
  | (k, v) :: es, fs => by
    cases fs <;> simp [sameEntries, same_iff k, same_iff v, sameEntries_iff es, Prod.ext_iff]

end

instance : DecidableEq ConstValue := fun v w => decidable_of_iff _ (same_iff v w)

end ConstValue

/-! ## Definitions -/

/-- A field, parameter or alternative. -/
structure Field where
  name : Text
  type : TypeRef
  id : Option Int
  optional : Bool
  default : Option ConstValue
  deriving DecidableEq, Repr, Inhabited

/-- A key of an enum, with its number if one is given. -/
structure EnumValue where
  name : Text
  number : Option Int
  deriving DecidableEq, Repr, Inhabited

/-- A function of a service. -/
structure Function where
  name : Text
  returns : TypeRef
  parameters : List Field
  throws : List Field
  oneway : Bool
  deriving DecidableEq, Repr, Inhabited

/-- The three definitions that consist of fields. -/
inductive RecordForm
  | struct | exception | union
  deriving DecidableEq, Repr, Inhabited

/-- A definition of a document. -/
inductive Definition
  | record (form : RecordForm) (name : Text) (fields : List Field)
  | enum (name : Text) (values : List EnumValue)
  | typedef (name : Text) (type : TypeRef)
  | service (name : Text) (base : Option Text) (functions : List Function)
  | const (name : Text) (type : TypeRef) (value : ConstValue)
  /-- A definition that has no declaration; `what` names its sort. -/
  | unsupported (what : Text) (name : Text)
  deriving DecidableEq, Repr, Inhabited

def Definition.name : Definition → Text
  | record _ name _ | enum name _ | typedef name _ | service name _ _ | const name _ _
  | unsupported _ name => name

/-! ## Documents -/

/-- What one interface text declares. -/
structure Document where
  includes : List Text
  namespaces : Assoc Text Text
  definitions : List Definition
  deriving DecidableEq, Repr, Inhabited

/-- A part of a document. -/
inductive Statement
  | include_ (path : Text)
  /-- An include for another language's compiler. -/
  | includeNative (path : Text)
  | namespace_ (scope name : Text)
  | definition (d : Definition)
  | separator
  deriving Repr, Inhabited

namespace Statement

def includedPath? : Statement → Option Text
  | include_ path => some path
  | _ => none

def namespace? : Statement → Option (Text × Text)
  | namespace_ scope name => some (scope, name)
  | _ => none

def definition? : Statement → Option Definition
  | definition d => some d
  | _ => none

end Statement

/-- The document that statements make up; the last namespace of a scope
    counts. -/
def Document.ofStatements (statements : List Statement) : Document where
  includes := statements.filterMap Statement.includedPath?
  namespaces := .ofList (statements.filterMap Statement.namespace?)
  definitions := statements.filterMap Statement.definition?

end IdlFlow
