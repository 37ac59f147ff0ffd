/-
  Names of declarations.

  A `NameRule` changes every name of a definition and every reference to it in
  the same way: perhaps to camel case, then between two given texts.  It
  touches the last segment of a dotted name only, since the segments before it
  name the module that the definition comes from.

  `plain_apply`: the plain rule changes no name.
-/
import IdlFlow.Text.Uppercase

namespace IdlFlow

/-- The text with a capital in front. -/
def capitalise : Text → Text
  | [] => []
  | c :: s => Text.capital c ++ s

/-- A name of words joined by underscores as words that each begin with a
    capital. -/
def upperCamel (name : Text) : Text := (Text.splitOn '_' name).flatMap capitalise

/-- A function on names, applied to the last segment of a dotted name. -/
def onLastSegment (f : Text → Text) (name : Text) : Text :=
  match Text.cutLast '.' name with
  | some (segments, last) => segments ++ '.' :: f last
  | none => f name

theorem onLastSegment_of_no_dot {f : Text → Text} {name : Text} (h : '.' ∉ name) :
    onLastSegment f name = f name := by
  rw [onLastSegment, Text.cutLast_of_not_mem h]

theorem onLastSegment_append {f : Text → Text} {module name : Text} (h : '.' ∉ name) :
    onLastSegment f (module ++ '.' :: name) = module ++ '.' :: f name := by
  rw [onLastSegment, Text.cutLast_append h]

/-- How names are changed. -/
structure NameRule where
  before : Text
  after : Text
  camelCase : Bool
  deriving DecidableEq, Repr

namespace NameRule

/-- Changes nothing. -/
def plain : NameRule := ⟨[], [], false⟩

/-- The name of a definition, changed. -/
def segment (rule : NameRule) (name : Text) : Text :=
  rule.before ++ (if rule.camelCase then upperCamel name else name) ++ rule.after

theorem segment_eq_append {rule : NameRule} (h : rule.camelCase = false) (name : Text) :
    rule.segment name = rule.before ++ name ++ rule.after := by
  simp [segment, h]

/-- A possibly dotted name, changed. -/
def apply (rule : NameRule) (name : Text) : Text := onLastSegment rule.segment name

theorem plain_apply (name : Text) : plain.apply name = name := by
  unfold apply onLastSegment
  cases h : Text.cutLast '.' name with
  | none => simp [segment, plain]
  | some p => simp [segment, plain, Text.append_of_cutLast h]

end NameRule

end IdlFlow
