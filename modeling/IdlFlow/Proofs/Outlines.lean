/-
  Outlines of declarations: what a definition writes, with every name, type and
  value still to be filled in.

  * `Stretch`, `Outline`: a declaration part by part, each either a text that is
    the same in every scope, or a name, type or value that a scope fills in;
  * `TypeRef.leaves`, `ConstValue.leaves`: what types and values are made of,
    `Definition.types` and `Definition.values`: what a definition is declared
    with;
  * `Definition.outlines?`: the outlines of a definition's declarations.

  Main statements: the block of a definition is written from its outlines
  (`Definition.block?_eq_outlines`); what scopes fill in there are the leaves of
  the definition's types and values, in their order, and nothing else
  (`Definition.filled_outlines`); and one outline exports the plain name
  (`Definition.exists_outlines`).
-/
import IdlFlow.Proofs.Parts

namespace IdlFlow

/-! ## Outlines -/

/-- A part of a declaration. -/
inductive Stretch
  | fixed (s : Text)
  /-- The name that a definition is exported under. -/
  | declared (name : Text)
  /-- A type without parts. -/
  | type (t : TypeRef)
  /-- A value without parts. -/
  | value (v : ConstValue)
  deriving DecidableEq, Repr

/-- A declaration part by part. -/
abbrev Outline := List Stretch

namespace Stretch

/-- What a scope writes for a part. -/
def text (scope : Scope) : Stretch → Except WriteError Text
  | fixed s => .ok s
  | declared name => .ok (scope.rename name)
  | type t => .ok (scope.type t).text
  | value v => (scope.value v).text

/-- Whether a scope fills in a type or a value. -/
def isFilled : Stretch → Bool
  | fixed _ | declared _ => false
  | type _ | value _ => true

end Stretch

namespace Outline

/-- What a scope writes for an outline: its parts side by side. -/
def text (scope : Scope) (o : Outline) : Except WriteError Text := do
  return (← o.mapM (Stretch.text scope)).flatten

/-- Outlines one below the other. -/
def block (scope : Scope) (os : List Outline) : Except WriteError Text := do
  return joined "\n" (← os.mapM (text scope))

/-- The types and values that a scope fills in. -/
def filled (o : Outline) : List Stretch := o.filter Stretch.isFilled

/-- An outline between two texts. -/
def between (front back : Text) (o : Outline) : Outline := .fixed front :: (o ++ [.fixed back])

/-- Outlines side by side. -/
def join (separator : Text) (os : List Outline) : Outline :=
  [Stretch.fixed separator].intercalate os

section Text

variable (scope : Scope)

theorem text_single (part : Stretch) : text scope [part] = part.text scope := by
  simp only [text, List.mapM_cons, List.mapM_nil, pure_bind, bind_assoc, List.flatten_cons,
    List.flatten_nil, List.append_nil, bind_pure]

theorem text_cons (part : Stretch) (o : Outline) : text scope (part :: o) = do
    let s ← part.text scope
    let t ← text scope o
    return s ++ t := by
  simp only [text, List.mapM_cons, bind_assoc, pure_bind, List.flatten_cons]

theorem text_fixed (s : Text) (o : Outline) : text scope (.fixed s :: o) = do
    let t ← text scope o
    return s ++ t :=
  text_cons scope (.fixed s) o

theorem text_append (o o' : Outline) : text scope (o ++ o') = do
    let s ← text scope o
    let t ← text scope o'
    return s ++ t := by
  simp only [text, List.mapM_append, bind_assoc, pure_bind, List.flatten_append]

theorem text_between (front back : Text) (o : Outline) : text scope (between front back o) = do
    let s ← text scope o
    return front ++ s ++ back := by
  have last : text scope [.fixed back] = pure back := text_single scope (.fixed back)
  rw [between, text_fixed, text_append, last]
  simp only [bind_assoc, pure_bind, List.append_assoc]

theorem text_join (separator : Text) (os : List Outline) : text scope (join separator os) = do
    let texts ← os.mapM (text scope)
    return joined separator texts := by
  induction os with
  | nil => rfl
  | cons o os ih =>
    cases os with
    | nil =>
      rw [join, List.intercalate_singleton, List.mapM_cons]
      simp only [List.mapM_nil, pure_bind, bind_assoc, joined, List.intercalate_singleton,
        bind_pure]
    | cons next os =>
      have cut : join separator (o :: next :: os) =
          o ++ .fixed separator :: join separator (next :: os) := by
        rw [join, List.intercalate_cons_cons, List.append_assoc]
        rfl
      rw [cut, text_append, text_fixed, ih]
      simp only [List.mapM_cons, bind_assoc, pure_bind, joined, List.intercalate_cons_cons,
        List.append_assoc]

/-- The texts of outlines that nothing can go wrong with. -/
theorem mapM_text {α : Type} {f : α → Outline} {s : α → Text}
    (h : ∀ a, text scope (f a) = .ok (s a)) (as : List α) :
    (as.map f).mapM (text scope) = .ok (as.map s) := by
  rw [mapM_eq_ok, List.map_map, List.map_map]
  exact List.map_congr_left fun a _ => h a

end Text

section Filled

variable (front back separator : Text) (o o' : Outline) (os : List Outline)

@[simp] theorem filled_nil : filled [] = [] := rfl

@[simp] theorem filled_fixed (s : Text) : filled (.fixed s :: o) = filled o := rfl

@[simp] theorem filled_declared (name : Text) : filled (.declared name :: o) = filled o := rfl

@[simp] theorem filled_append : filled (o ++ o') = filled o ++ filled o' := List.filter_append ..

@[simp] theorem filled_between : filled (between front back o) = filled o := by
  simp [between]

@[simp] theorem filled_join : filled (join separator os) = os.flatMap filled := by
  induction os with
  | nil => rfl
  | cons o os ih =>
    rw [List.flatMap_cons, ← ih]
    cases os with
    | nil => simp [join, List.intercalate_singleton]
    | cons next os => simp [join, List.intercalate_cons_cons]

end Filled

end Outline

/-! ## Types -/

namespace TypeRef

/-- The types without parts that a type is made of. -/
def leaves : TypeRef → List TypeRef
  | list item | set item => item.leaves
  | map key value => key.leaves ++ value.leaves
  | base tag annotations => [base tag annotations]
  | named name => [named name]

/-- How a type is written. -/
def outline : TypeRef → Outline
  | list item | set item => item.outline ++ [.fixed "[]"]
  | map key value =>
    .between "\x7b[" "\x7d" (key.outline ++ .fixed "]: " :: value.outline)
  | base tag annotations => [.type (base tag annotations)]
  | named name => [.type (named name)]

variable (t : TypeRef)

/-- **A type is written from its outline.** -/
theorem text_outline (scope : Scope) : Outline.text scope t.outline = .ok (scope.type t).text := by
  induction t with
  | base | named => exact Outline.text_single scope _
  | list item ih | set item ih =>
    rw [outline, Outline.text_append, ih, Outline.text_single]
    rfl
  | map key value ihk ihv =>
    have whole :
        "\x7b[" ++ ((scope.type key).text ++ ("]: " ++ (scope.type value).text)) ++ "\x7d" =
          (scope.type (map key value)).text := by
      simp only [← List.append_assoc]
      rfl
    rw [outline, Outline.text_between, Outline.text_append, Outline.text_fixed, ihk, ihv, ← whole]
    rfl

/-- **The outline of a type fills in its leaves.** -/
theorem filled_outline : Outline.filled t.outline = t.leaves.map .type := by
  induction t with
  | base | named => rfl
  | list item ih | set item ih => simpa [outline, leaves] using ih
  | map key value ihk ihv => simp [outline, leaves, ihk, ihv]

/-- A name is a leaf if it stands at some place of the type. -/
theorem named_mem_leaves {name : Text} {t : TypeRef} :
    named name ∈ t.leaves ↔ ∃ place, descend parts place t = some (named name) := by
  induction t with
  | base | named =>
    rw [exists_descend_iff]
    simp [leaves, parts, eq_comm]
  | list item ih | set item ih =>
    rw [exists_descend_iff]
    simpa [leaves, parts] using ih
  | map key value ihk ihv =>
    rw [exists_descend_iff]
    simp [leaves, parts, ihk, ihv]

end TypeRef

/-! ## Values -/

namespace ConstValue

mutual

/-- The values without parts that a value is made of. -/
def leaves : ConstValue → List ConstValue
  | list items => leavesOfItems items
  | map entries => leavesOfEntries entries
  | v => [v]

def leavesOfItems : List ConstValue → List ConstValue
  | [] => []
  | item :: items => item.leaves ++ leavesOfItems items

def leavesOfEntries : List (ConstValue × ConstValue) → List ConstValue
  | [] => []
  | (key, value) :: entries => key.leaves ++ value.leaves ++ leavesOfEntries entries

end

mutual

/-- How a value is written. -/
def outline : ConstValue → Outline
  | list items => .between "[" "]" (.join ", " (outlinesOfItems items))
  | map entries => .between "\x7b" "\x7d" (.join ", " (outlinesOfEntries entries))
  | v => [.value v]

def outlinesOfItems : List ConstValue → List Outline
  | [] => []
  | item :: items => item.outline :: outlinesOfItems items

def outlinesOfEntries : List (ConstValue × ConstValue) → List Outline
  | [] => []
  | (key, value) :: entries =>
    (key.outline ++ .fixed ": " :: value.outline) :: outlinesOfEntries entries

end

section Text

variable (scope : Scope)

mutual

/-- **A value is written from its outline.** -/
theorem text_outline : ∀ v, Outline.text scope (outline v) = (scope.value v).text
  | string _ | integer _ | double _ | bool _ | identifier _ | verbatim _ =>
    Outline.text_single scope _
  | list items => by
    have array : (scope.value (list items)).text = do
        let texts ← ValueExpr.texts (ValueExpr.ofConsts scope.rename scope.keys items)
        return "[" ++ joined ", " texts ++ "]" := rfl
    rw [outline, Outline.text_between, Outline.text_join, mapM_outlinesOfItems items, array]
    simp only [bind_assoc, pure_bind]
  | map entries => by
    have object : (scope.value (map entries)).text = do
        let texts ← ValueExpr.entryTexts (ValueExpr.ofEntries scope.rename scope.keys entries)
        return "\x7b" ++ joined ", " texts ++ "\x7d" := rfl
    rw [outline, Outline.text_between, Outline.text_join, mapM_outlinesOfEntries entries, object]
    simp only [bind_assoc, pure_bind]

theorem mapM_outlinesOfItems : ∀ items, (outlinesOfItems items).mapM (Outline.text scope) =
    ValueExpr.texts (ValueExpr.ofConsts scope.rename scope.keys items)
  | [] => rfl
  | item :: items => by
    rw [outlinesOfItems, List.mapM_cons, text_outline item, mapM_outlinesOfItems items]
    rfl

theorem mapM_outlinesOfEntries : ∀ entries,
    (outlinesOfEntries entries).mapM (Outline.text scope) =
      ValueExpr.entryTexts (ValueExpr.ofEntries scope.rename scope.keys entries)
  | [] => rfl
  | (key, value) :: entries => by
    rw [outlinesOfEntries, List.mapM_cons, Outline.text_append, Outline.text_fixed,
      text_outline key, text_outline value, mapM_outlinesOfEntries entries]
    simp only [bind_assoc, pure_bind, ← List.append_assoc]
    rfl

end

end Text

mutual

/-- **The outline of a value fills in its leaves.** -/
theorem filled_outline : ∀ v, Outline.filled (outline v) = (leaves v).map .value
  | string _ | integer _ | double _ | bool _ | identifier _ | verbatim _ => rfl
  | list items => by
    rw [outline, Outline.filled_between, Outline.filled_join, filled_outlinesOfItems items, leaves]
  | map entries => by
    rw [outline, Outline.filled_between, Outline.filled_join, filled_outlinesOfEntries entries,
      leaves]

theorem filled_outlinesOfItems : ∀ items,
    (outlinesOfItems items).flatMap Outline.filled = (leavesOfItems items).map .value
  | [] => rfl
  | item :: items => by
    rw [outlinesOfItems, List.flatMap_cons, filled_outline item, filled_outlinesOfItems items,
      leavesOfItems, List.map_append]

theorem filled_outlinesOfEntries : ∀ entries,
    (outlinesOfEntries entries).flatMap Outline.filled = (leavesOfEntries entries).map .value
  | [] => rfl
  | (key, value) :: entries => by
    rw [outlinesOfEntries, List.flatMap_cons, Outline.filled_append, Outline.filled_fixed,
      filled_outline key, filled_outline value, filled_outlinesOfEntries entries, leavesOfEntries,
      List.map_append, List.map_append]

end

section Places

variable {name : Text}

mutual

/-- A reference is a leaf if it stands at some place of the value. -/
theorem identifier_mem_leaves : ∀ v : ConstValue,
    identifier name ∈ v.leaves ↔ ∃ place, descend parts place v = some (identifier name)
  | string _ | integer _ | double _ | bool _ | identifier _ | verbatim _ => by
    rw [exists_descend_iff]
    simp [leaves, parts, eq_comm]
  | list items => by
    rw [exists_descend_iff, leaves, identifier_mem_leavesOfItems items]
    simp [parts]
  | map entries => by
    rw [exists_descend_iff, leaves, identifier_mem_leavesOfEntries entries]
    simp [parts]

theorem identifier_mem_leavesOfItems : ∀ items, identifier name ∈ leavesOfItems items ↔
    ∃ item ∈ items, ∃ place, descend parts place item = some (identifier name)
  | [] => by simp [leavesOfItems]
  | item :: items => by
    rw [leavesOfItems, List.mem_append, identifier_mem_leaves item,
      identifier_mem_leavesOfItems items, List.exists_mem_cons_iff]

theorem identifier_mem_leavesOfEntries : ∀ entries, identifier name ∈ leavesOfEntries entries ↔
    ∃ part ∈ entries.flatMap fun entry => [entry.1, entry.2],
      ∃ place, descend parts place part = some (identifier name)
  | [] => by simp [leavesOfEntries]
  | (key, value) :: entries => by
    rw [leavesOfEntries, List.append_assoc, List.mem_append, List.mem_append,
      identifier_mem_leaves key, identifier_mem_leaves value,
      identifier_mem_leavesOfEntries entries, List.flatMap_cons, List.cons_append, List.cons_append,
      List.nil_append, List.exists_mem_cons_iff, List.exists_mem_cons_iff]

end

end Places

end ConstValue

/-! ## Bodies -/

/-- A property of an object. -/
def Field.propertyOutline (f : Field) : Outline :=
  .between (f.name ++ (if f.optional then "?" else "") ++ ": ") ";" f.type.outline

/-- A field by its name and type alone. -/
def Field.outline (f : Field) : Outline := .fixed (f.name ++ ": ") :: f.type.outline

def Function.outline (f : Function) : Outline :=
  .between (f.name ++ ": (") ") => " (.join ", " (f.parameters.map Field.outline)) ++
    f.returns.outline

namespace Outline

/-- An exact object on lines of its own. -/
def rows (separator : Text) (os : List Outline) : Outline :=
  between "\x7b|\n" "\n|\x7d" (join separator os)

def object : List Outline → Outline
  | [] => [.fixed "\x7b||\x7d"]
  | [property] => between "\x7b|" "|\x7d" property
  | first :: next :: others => rows "\n" (first :: next :: others)

def choice : List Outline → Outline
  | [] => [.fixed "\x7b||\x7d"]
  | first :: others => join " | " ((first :: others).map (between "\x7b|" "|\x7d"))

def methods : List Outline → Outline
  | [] => [.fixed "\x7b||\x7d"]
  | first :: others => rows ",\n" (first :: others)

/-- One of several integers. -/
def numbers : List Int → Outline
  | [] => [.fixed "empty"]
  | first :: others => join " | " ((first :: others).map fun i => [.value (.integer i)])

section Text

variable (scope : Scope)

theorem text_propertyOutline (f : Field) :
    text scope f.propertyOutline = .ok (scope.property f).text := by
  rw [Field.propertyOutline, text_between, f.type.text_outline]
  rfl

theorem text_outline (f : Field) : text scope f.outline =
    .ok ((scope.parameter f).1 ++ ": " ++ (scope.parameter f).2.text) := by
  rw [Field.outline, text_fixed, f.type.text_outline]
  rfl

theorem text_function (f : Function) : text scope f.outline = .ok (scope.method f).text := by
  rw [Function.outline, text_append, text_between, text_join, mapM_text scope (text_outline scope),
    f.returns.text_outline]
  simp only [Method.text, Scope.method, List.map_map]
  rfl

theorem text_rows {os : List Outline} {texts : List Text}
    (h : os.mapM (text scope) = .ok texts) (separator : Text) :
    text scope (rows separator os) = .ok (TypeBody.block separator texts) := by
  rw [rows, text_between, text_join, h]
  rfl

theorem text_object (fields : List Field) :
    text scope (object (fields.map Field.propertyOutline)) =
      (TypeBody.object (fields.map scope.property)).text := by
  have all : (fields.map Field.propertyOutline).mapM (text scope) =
      .ok ((fields.map scope.property).map Property.text) := by
    rw [List.map_map]
    exact mapM_text scope (text_propertyOutline scope) fields
  rcases fields with _ | ⟨f, _ | ⟨g, fields⟩⟩
  · exact text_single scope _
  · rw [List.map_singleton, object, text_between, text_propertyOutline]
    rfl
  · exact text_rows scope all "\n"

theorem text_choice (fields : List Field) :
    text scope (choice (fields.map Field.outline)) =
      (TypeBody.choice (fields.map scope.parameter)).text := by
  have single (f : Field) : text scope (between "\x7b|" "|\x7d" f.outline) =
      .ok ("\x7b|" ++ f.name ++ ": " ++ (scope.type f.type).text ++ "|\x7d") := by
    rw [text_between, text_outline]
    refine congrArg Except.ok ?_
    simp only [Scope.parameter, List.append_assoc]
  have all : ((fields.map Field.outline).map (between "\x7b|" "|\x7d")).mapM (text scope) =
      .ok ((fields.map scope.parameter).map fun p =>
        "\x7b|" ++ p.1 ++ ": " ++ p.2.text ++ "|\x7d") := by
    rw [List.map_map, List.map_map]
    exact mapM_text scope single fields
  rcases fields with _ | ⟨f, fields⟩
  · exact text_single scope _
  · refine (text_join scope " | " _).trans ?_
    rw [← List.map_cons, all]
    rfl

theorem text_methods (functions : List Function) :
    text scope (methods (functions.map Function.outline)) =
      (TypeBody.methods (functions.map scope.method)).text := by
  have all : (functions.map Function.outline).mapM (text scope) =
      .ok ((functions.map scope.method).map Method.text) := by
    rw [List.map_map]
    exact mapM_text scope (text_function scope) functions
  rcases functions with _ | ⟨f, functions⟩
  · exact text_single scope _
  · exact text_rows scope all ",\n"

theorem text_numbers (values : List Int) :
    text scope (numbers values) = (TypeBody.numbers values).text := by
  have all : text scope ∘ (fun i => [.value (.integer i)]) = writeInteger :=
    funext fun i => text_single scope _
  rcases values with _ | ⟨i, values⟩
  · exact text_single scope _
  · rw [numbers, text_join, List.mapM_map, all, TypeBody.text]
    simp only [List.mapM_cons, bind_assoc, pure_bind]
    rfl

end Text

end Outline

/-! ## Definitions -/

namespace Outline

/-- An exported type, under a name and a word behind it. -/
def ofType (name word : Text) (body : Outline) : Outline :=
  .fixed "export type " :: .declared name :: between (word ++ " = ") ";" body

/-- An exported constant. -/
def ofConst (name : Text) (type : TypeRef) (value : ConstValue) : Outline :=
  .fixed "export const " :: .declared name ::
    between ": " ";" (type.outline ++ .fixed " = " :: value.outline)

variable (scope : Scope) (name : Text)

theorem text_ofType (word : Text) {o : Outline} {body : TypeBody} (h : text scope o = body.text) :
    text scope (ofType name word o) =
      (Declaration.type (scope.rename name ++ word) body).text := by
  have named : (Stretch.declared name).text scope = pure (scope.rename name) := rfl
  rw [ofType, text_fixed, text_cons, text_between, h, named, Declaration.text]
  simp only [bind_assoc, pure_bind, List.append_assoc]

theorem text_plain {o : Outline} {body : TypeBody} (h : text scope o = body.text) :
    text scope (ofType name [] o) = (Declaration.type (scope.rename name) body).text := by
  rw [text_ofType scope name [] h, List.append_nil]

theorem text_ofConst (type : TypeRef) (value : ConstValue) :
    text scope (ofConst name type value) =
      (Declaration.const (scope.rename name) (scope.type type) (scope.value value)).text := by
  have named : (Stretch.declared name).text scope = pure (scope.rename name) := rfl
  have typed : text scope type.outline = pure (scope.type type).text := type.text_outline scope
  rw [ofConst, text_fixed, text_cons, text_between, text_append, text_fixed, named, typed,
    value.text_outline, Declaration.text]
  simp only [bind_assoc, pure_bind, List.append_assoc]

/-- Outlines that are written like declarations make up the same block. -/
theorem block_eq {os : List Outline} {declarations : List Declaration}
    (h : os.map (text scope) = declarations.map Declaration.text) :
    block scope os = Declaration.block declarations := by
  have each {α : Type} (f : α → Except WriteError Text) (as : List α) :
      as.mapM f = (as.map f).mapM id := by
    rw [List.mapM_map]
    rfl
  rw [block, each, h, ← each, Declaration.block]

end Outline

namespace Definition

/-- The types that a definition is declared with.  What functions throw is not
    declared. -/
def types : Definition → List TypeRef
  | record _ _ fields => fields.map Field.type
  | typedef _ type | const _ type _ => [type]
  | service _ _ functions =>
    functions.flatMap fun f => f.parameters.map Field.type ++ [f.returns]
  | enum _ _ | unsupported _ _ => []

/-- The values that a definition is declared with.  Defaults of fields are not
    declared. -/
def values : Definition → List ConstValue
  | const _ _ value => [value]
  | enum _ values => (EnumValue.numbers values).map .integer
  | record _ _ _ | typedef _ _ | service _ _ _ | unsupported _ _ => []

/-- The outlines of a definition's declarations; none if there is no way to
    declare it.  `numbers` tells which union an enum gives its plain name to. -/
def outlines? (numbers : Bool) : Definition → Option (List Outline)
  | record .union name fields => some [.ofType name [] (.choice (fields.map Field.outline))]
  | record .struct name fields | record .exception name fields =>
    some [.ofType name [] (.object (fields.map Field.propertyOutline))]
  | enum name values =>
    let byNumber := Outline.numbers (EnumValue.numbers values)
    let byKey := [.fixed (unionText (values.map fun v => '"' :: v.name ++ ['"']))]
    some (if numbers then [.ofType name [] byNumber, .ofType name "Keys" byKey]
      else [.ofType name "Values" byNumber, .ofType name [] byKey])
  | typedef name type => some [.ofType name [] type.outline]
  | service name _ functions => some [.ofType name [] (.methods (functions.map Function.outline))]
  | const name type value => some [.ofConst name type value]
  | unsupported _ _ => none

theorem block?_enum (scope : Scope) (name : Text) (values : List EnumValue) :
    (enum name values).block? scope =
      ((enum name values).outlines? scope.enumNumbers).map (Outline.block scope) := by
  have byNumber := Outline.text_numbers scope (EnumValue.numbers values)
  have byKey : Outline.text scope
      [.fixed (unionText (values.map fun v => '"' :: v.name ++ ['"']))] =
        (TypeBody.keys (values.map EnumValue.name)).text := by
    rw [Outline.text_single, TypeBody.text, List.map_map]
    rfl
  refine congrArg some (Outline.block_eq scope ?_).symm
  unfold enumDeclarations
  cases scope.enumNumbers with
  | true =>
    simp only [reduceIte, List.map_cons, List.map_nil, Outline.text_plain scope name byNumber,
      Outline.text_ofType scope name _ byKey]
  | false =>
    simp only [Bool.false_eq_true, reduceIte, List.map_cons, List.map_nil,
      Outline.text_plain scope name byKey, Outline.text_ofType scope name _ byNumber]

/-- **The block of a definition is written from its outlines.** -/
theorem block?_eq_outlines (d : Definition) (scope : Scope) :
    d.block? scope = (d.outlines? scope.enumNumbers).map (Outline.block scope) := by
  have single {o : Outline} {declaration : Declaration}
      (h : Outline.text scope o = declaration.text) :
      some (Declaration.block [declaration]) = some (Outline.block scope [o]) := by
    refine congrArg some (Outline.block_eq scope ?_).symm
    rw [List.map_singleton, List.map_singleton, h]
  cases d with
  | record form name fields =>
    cases form with
    | union => exact single (Outline.text_plain scope name (Outline.text_choice scope fields))
    | struct | exception =>
      exact single (Outline.text_plain scope name (Outline.text_object scope fields))
  | enum name values => exact block?_enum scope name values
  | typedef name t => exact single (Outline.text_plain scope name (t.text_outline scope))
  | service name base functions =>
    exact single (Outline.text_plain scope name (Outline.text_methods scope functions))
  | const name t v => exact single (Outline.text_ofConst scope name t v)
  | unsupported what name => rfl

end Definition

/-! ## What scopes fill in -/

namespace Outline

variable (os : List Outline)

@[simp] theorem filled_rows (separator : Text) :
    filled (rows separator os) = os.flatMap filled := by
  simp [rows]

@[simp] theorem filled_object : filled (object os) = os.flatMap filled := by
  rcases os with _ | ⟨first, _ | ⟨next, others⟩⟩ <;> simp [object]

@[simp] theorem filled_methods : filled (methods os) = os.flatMap filled := by
  cases os <;> simp [methods]

@[simp] theorem filled_choice : filled (choice os) = os.flatMap filled := by
  cases os <;> simp [choice, List.flatMap_map]

@[simp] theorem filled_numbers (values : List Int) :
    filled (numbers values) = values.map fun i => .value (.integer i) := by
  have single (i : Int) : filled [.value (.integer i)] = [.value (.integer i)] := rfl
  rw [List.map_eq_flatMap]
  cases values <;> simp [numbers, single, List.flatMap_map]

@[simp] theorem filled_ofType (name word : Text) (o : Outline) :
    filled (ofType name word o) = filled o := by
  simp [ofType]

@[simp] theorem filled_field (f : Field) : filled f.outline = f.type.leaves.map .type := by
  simp [Field.outline, f.type.filled_outline]

@[simp] theorem filled_property (f : Field) :
    filled f.propertyOutline = f.type.leaves.map .type := by
  simp [Field.propertyOutline, f.type.filled_outline]

@[simp] theorem filled_function (f : Function) : filled f.outline =
    ((f.parameters.map Field.type ++ [f.returns]).flatMap TypeRef.leaves).map .type := by
  simp [Function.outline, f.returns.filled_outline, List.flatMap_map, List.map_flatMap]

end Outline

namespace Definition

variable {d : Definition} {numbers : Bool} {os : List Outline}

/-- **Outlines fill in the leaves of a definition's types and values**, and
    nothing else. -/
theorem filled_outlines (h : d.outlines? numbers = some os) :
    os.flatMap Outline.filled = (d.types.flatMap TypeRef.leaves).map .type ++
      (d.values.flatMap ConstValue.leaves).map .value := by
  cases d with
  | record form name fields =>
    cases form with
    | union | struct | exception =>
      cases h
      simp [types, values, List.flatMap_map, List.map_flatMap]
  | enum name values =>
    have leaves : ((EnumValue.numbers values).map ConstValue.integer).flatMap ConstValue.leaves =
        (EnumValue.numbers values).map .integer := by
      rw [List.flatMap_map, List.map_eq_flatMap]
      rfl
    cases h
    cases numbers with
    | true | false => simp [types, Definition.values, leaves]
  | typedef name t =>
    cases h
    simp [types, values, t.filled_outline]
  | service name base functions =>
    cases h
    simp [types, values, List.flatMap_map, List.map_flatMap, List.flatMap_assoc]
  | const name t v =>
    cases h
    simp [types, values, Outline.ofConst, t.filled_outline, v.filled_outline]
  | unsupported what name => cases h

end Definition

/-! ## Exported names -/

namespace Outline

variable {name : Text} {o : Outline} {type : TypeRef} {value : ConstValue}

/-- The outline exports the name by itself. -/
def IsPlain (name : Text) (o : Outline) : Prop :=
  [.fixed "export type ", .declared name, .fixed " = "] <+: o ∨
    [.fixed "export const ", .declared name, .fixed ": "] <+: o

/-- The outline exports the name with one of the words that enums add. -/
def IsDerived (name : Text) (o : Outline) : Prop :=
  ∃ word : Text, (word = "Keys" ∨ word = "Values") ∧
    [.fixed "export type ", .declared name, .fixed (word ++ " = ")] <+: o

theorem isPlain_ofType : IsPlain name (ofType name [] o) := .inl ⟨o ++ [.fixed ";"], rfl⟩

theorem isPlain_ofConst : IsPlain name (ofConst name type value) := .inr ⟨_, rfl⟩

theorem isDerived_ofType {word : Text} (h : word = "Keys" ∨ word = "Values") :
    IsDerived name (ofType name word o) :=
  ⟨word, h, o ++ [.fixed ";"], rfl⟩

end Outline

/-- **One outline of a definition exports its plain name.**  There is another
    one for enums only. -/
theorem Definition.exists_outlines {d : Definition} (supported : d.skipped? = none)
    (numbers : Bool) : ∃ os, d.outlines? numbers = some os ∧
      ∃ plain ∈ os, plain.IsPlain d.name ∧
        ∀ other ∈ os, other = plain ∨ d.enumKeys?.isSome = true ∧ other.IsDerived d.name := by
  have single {o : Outline} (plain : o.IsPlain d.name) : ∃ plain ∈ [o], plain.IsPlain d.name ∧
      ∀ other ∈ [o], other = plain ∨ d.enumKeys?.isSome = true ∧ other.IsDerived d.name :=
    ⟨o, List.mem_singleton_self o, plain, fun other mem => .inl (List.mem_singleton.1 mem)⟩
  cases d with
  | record form name fields =>
    cases form with
    | union | struct | exception => exact ⟨_, rfl, single Outline.isPlain_ofType⟩
  | enum name values =>
    cases numbers with
    | true =>
      refine ⟨_, rfl, _, .head _, Outline.isPlain_ofType, fun other mem => ?_⟩
      rcases List.mem_cons.1 mem with rfl | mem
      · exact .inl rfl
      · rw [List.mem_singleton.1 mem]
        exact .inr ⟨rfl, Outline.isDerived_ofType (.inl rfl)⟩
    | false =>
      refine ⟨_, rfl, _, .tail _ (.head _), Outline.isPlain_ofType, fun other mem => ?_⟩
      rcases List.mem_cons.1 mem with rfl | mem
      · exact .inr ⟨rfl, Outline.isDerived_ofType (.inr rfl)⟩
      · exact .inl (List.mem_singleton.1 mem)
  | typedef name type => exact ⟨_, rfl, single Outline.isPlain_ofType⟩
  | service name base functions => exact ⟨_, rfl, single Outline.isPlain_ofType⟩
  | const name type value => exact ⟨_, rfl, single Outline.isPlain_ofConst⟩
  | unsupported what name => cases supported

/-- What a definition is made of is a part of its outlines. -/
theorem Definition.mem_outlines {d : Definition} {part : Stretch}
    (leaf : part ∈ (d.types.flatMap TypeRef.leaves).map .type ++
      (d.values.flatMap ConstValue.leaves).map .value) (numbers : Bool) :
    ∃ os, d.outlines? numbers = some os ∧ ∃ o ∈ os, part ∈ o := by
  have supported : d.skipped? = none := by
    cases d with
    | unsupported what name => cases leaf
    | _ => rfl
  obtain ⟨os, made, -⟩ := exists_outlines supported numbers
  rw [← filled_outlines made] at leaf
  obtain ⟨o, mem, leaf⟩ := List.mem_flatMap.1 leaf
  exact ⟨os, made, o, mem, (List.mem_filter.1 leaf).1⟩

end IdlFlow
