/-
  The grammar of interface documents.

  A form relates lexemes to what they are the written form of.  The forms are
  the productions of the language, with nothing of how a text is read: an
  optional part is there or not, a repetition has any number of items, and the
  parts of a production stand one after the other.

  * `TypeForm`, `ValueForm`, `FieldForm`, `FunctionForm`, `DefinitionForm` and
    `StatementForm` are the productions, `DocumentForm` that of whole documents;
  * `AnnotationsForm` is the one production that says which of two readings
    counts, since any lexeme can be the key of an annotation.
-/
import IdlFlow.Idl.Parser

namespace IdlFlow.Grammar

variable {α : Type}

/-! ## Parts of productions -/

/-- `[sep]`: at most one comma or semicolon. -/
inductive SeparatorForm : List Lexeme → Prop
  | none : SeparatorForm []
  | comma : SeparatorForm [.mark .comma]
  | semicolon : SeparatorForm [.mark .semicolon]

/-- `Item [sep]` -/
inductive Separated (Item : List Lexeme → α → Prop) : List Lexeme → α → Prop
  | mk {s t a} : Item s a → SeparatorForm t → Separated Item (s ++ t) a

/-- `Item*` -/
inductive Many (Item : List Lexeme → α → Prop) : List Lexeme → List α → Prop
  | nil : Many Item [] []
  | cons {s t a as} : Item s a → Many Item t as → Many Item (s ++ t) (a :: as)

/-- `Item* closing` -/
inductive Closed (closing : Mark) (Item : List Lexeme → α → Prop) : List Lexeme → List α → Prop
  | mk {s as} : Many Item s as → Closed closing Item (s ++ [.mark closing]) as

theorem Many.map {β : Type} {Item : List Lexeme → α → Prop} {Item' : List Lexeme → β → Prop}
    {g : α → β} (hg : ∀ s a, Item s a → Item' s (g a)) {s : List Lexeme} {as : List α}
    (h : Many Item s as) : Many Item' s (as.map g) := by
  induction h with
  | nil => exact .nil
  | cons h _ ih => exact .cons (hg _ _ h) ih

theorem Closed.exists {β : Type} {closing : Mark} {Item : List Lexeme → β → Prop}
    {s : List Lexeme} {as : List α} (h : Closed closing (fun s _ => ∃ b, Item s b) s as) :
    ∃ bs, Closed closing Item s bs := by
  obtain ⟨h⟩ := h
  suffices ∃ bs, Many Item _ bs from this.imp fun _ => .mk
  induction h with
  | nil => exact ⟨[], .nil⟩
  | cons h _ ih =>
    obtain ⟨b, hb⟩ := h
    obtain ⟨bs, hbs⟩ := ih
    exact ⟨b :: bs, .cons hb hbs⟩

/-- `[opening Item]` -/
inductive After (opening : Lexeme) (Item : List Lexeme → α → Prop) : List Lexeme → Option α → Prop
  | none : After opening Item [] none
  | some {s a} : Item s a → After opening Item (opening :: s) (some a)

/-- `IDENT` -/
inductive IdentifierForm : List Lexeme → Text → Prop
  | mk (name) : IdentifierForm [.identifier name] name

/-- `STRING_LIT` -/
inductive StringForm : List Lexeme → Text → Prop
  | mk (content) : StringForm [.string content] content

/-- `INT`, with the integer that it stands for -/
inductive IntegerForm : List Lexeme → Int → Prop
  | mk {n i} : n.isInteger = true → n.integer = .ok i → IntegerForm [.numeral n] i

/-! ## Annotations -/

/-- `(key [EQUALS STRING_LIT] [sep])* RPAREN`: any lexeme but the closing
    parenthesis can be a key, and an annotation without a value has the empty
    text.  An equals sign right after a key always introduces a value, and a
    separator right after an annotation always ends it. -/
inductive AnnotationEntries : List Lexeme → List (Text × Text) → Prop
  | nil : AnnotationEntries [.mark .rightParen] []
  | cons {key value content sep others entries} :
      key ≠ .mark .rightParen →
      After (.mark .equals) StringForm value content →
      SeparatorForm sep →
      (value = [] → (sep ++ others).head? ≠ some (.mark .equals)) →
      (sep = [] → others.head? ≠ some (.mark .comma) ∧ others.head? ≠ some (.mark .semicolon)) →
      AnnotationEntries others entries →
      AnnotationEntries (key :: value ++ sep ++ others) ((key.value, content.getD []) :: entries)

theorem AnnotationEntries.ne_nil {s : List Lexeme} {entries : List (Text × Text)}
    (h : AnnotationEntries s entries) : s ≠ [] := by
  cases h <;> simp

/-- `[LPAREN Annotation* RPAREN]`: of annotations with one key the last
    counts. -/
inductive AnnotationsForm : List Lexeme → Assoc Text Text → Prop
  | none : AnnotationsForm [] []
  | some {s entries} : AnnotationEntries s entries →
      AnnotationsForm (.mark .leftParen :: s) (.ofList entries)

/-! ## Types -/

/-- `[cpp_type STRING_LIT]` -/
inductive NativeTypeForm : List Lexeme → Prop
  | none : NativeTypeForm []
  | some (content) : NativeTypeForm [.identifier "cpp_type", .string content]

/-- `[cpp_type STRING_LIT] LANGLE Content RANGLE [annotations]` -/
inductive Contained (Content : List Lexeme → α → Prop) : List Lexeme → α → Prop
  | mk {native s a ann annotations} :
      NativeTypeForm native → Content s a → AnnotationsForm ann annotations →
      Contained Content (native ++ .mark .leftAngle :: s ++ .mark .rightAngle :: ann) a

/-- `Key COMMA Value`, for a map. -/
inductive MapContent (Item : List Lexeme → TypeRef → Prop) : List Lexeme → TypeRef → Prop
  | mk {s t key value} : Item s key → Item t value →
      MapContent Item (s ++ .mark .comma :: t) (.map key value)

/-- A reference to a type. -/
inductive TypeForm : List Lexeme → TypeRef → Prop
  | base {name ann annotations} : name ∈ TypeRef.baseTags → AnnotationsForm ann annotations →
      TypeForm (.identifier name :: ann) (.base name annotations)
  | named {name ann annotations} : name ∉ TypeRef.baseTags → AnnotationsForm ann annotations →
      TypeForm (.identifier name :: ann) (.named name)
  | list {s t} : Contained TypeForm s t → TypeForm (.keyword .list :: s) (.list t)
  | set {s t} : Contained TypeForm s t → TypeForm (.keyword .set :: s) (.set t)
  | map {s t} : Contained (MapContent TypeForm) s t → TypeForm (.keyword .map :: s) t

theorem TypeForm.ne_nil {s : List Lexeme} {t : TypeRef} (h : TypeForm s t) : s ≠ [] := by
  cases h <;> simp

/-! ## Constant values -/

/-- `Key COLON Value` -/
inductive EntryForm (Value : List Lexeme → ConstValue → Prop) :
    List Lexeme → ConstValue × ConstValue → Prop
  | mk {s t key value} : Value s key → Value t value →
      EntryForm Value (s ++ .mark .colon :: t) (key, value)

/-- A constant value. -/
inductive ValueForm : List Lexeme → ConstValue → Prop
  | integer {n i} : n.isInteger = true → n.integer = .ok i → ValueForm [.numeral n] (.integer i)
  | double {n x} : n.isInteger = false → n.double = .ok x → ValueForm [.numeral n] (.double x)
  | string (content) : ValueForm [.string content] (.string content)
  | true : ValueForm [.keyword .trueValue] (.bool true)
  | false : ValueForm [.keyword .falseValue] (.bool false)
  | identifier (name) : ValueForm [.identifier name] (.identifier name)
  | list {s items} : Closed .rightBracket (Separated ValueForm) s items →
      ValueForm (.mark .leftBracket :: s) (.list items)
  | map {s entries} : Closed .rightBrace (Separated (EntryForm ValueForm)) s entries →
      ValueForm (.mark .leftBrace :: s) (.map entries)

theorem ValueForm.ne_nil {s : List Lexeme} {v : ConstValue} (h : ValueForm s v) : s ≠ [] := by
  cases h <;> simp

/-! ## Fields and functions -/

/-- `[INT COLON]` -/
inductive FieldIdForm : List Lexeme → Option Int → Prop
  | none : FieldIdForm [] none
  | some {s i} : IntegerForm s i → FieldIdForm (s ++ [.mark .colon]) (some i)

/-- `[REQUIRED | OPTIONAL]` -/
inductive OptionalityForm : List Lexeme → Bool → Prop
  | none : OptionalityForm [] false
  | required : OptionalityForm [.keyword .required] false
  | optional : OptionalityForm [.keyword .optional] true

/-- `[INT COLON] [REQUIRED | OPTIONAL] Type IDENT [EQUALS Value] [annotations] [sep]` -/
inductive FieldForm : List Lexeme → Field → Prop
  | mk {s₁ id s₂ optional s₃ type name s₄ default s₅ annotations s₆} :
      FieldIdForm s₁ id → OptionalityForm s₂ optional → TypeForm s₃ type →
      After (.mark .equals) ValueForm s₄ default → AnnotationsForm s₅ annotations →
      SeparatorForm s₆ →
      FieldForm (s₁ ++ s₂ ++ s₃ ++ .identifier name :: s₄ ++ s₅ ++ s₆)
        ⟨name, type, id, optional, default⟩

/-- `void | Type`: the word `void` alone is the type of no result. -/
inductive ResultForm : List Lexeme → TypeRef → Prop
  | void : ResultForm [.identifier TypeRef.voidTag] (.base TypeRef.voidTag [])
  | type {s t} : s.head? ≠ some (.identifier TypeRef.voidTag) → TypeForm s t → ResultForm s t

/-- `LPAREN Field* RPAREN` -/
inductive ParametersForm : List Lexeme → List Field → Prop
  | mk {s fields} : Closed .rightParen FieldForm s fields →
      ParametersForm (.mark .leftParen :: s) fields

/-- `[ONEWAY]` -/
inductive OnewayForm : List Lexeme → Bool → Prop
  | none : OnewayForm [] false
  | some : OnewayForm [.keyword .oneway] true

/-- `[ONEWAY] Result IDENT Parameters [THROWS Parameters] [annotations] [sep]` -/
inductive FunctionForm : List Lexeme → Function → Prop
  | mk {s₁ oneway s₂ returns name s₃ parameters s₄ throws s₅ annotations s₆} :
      OnewayForm s₁ oneway → ResultForm s₂ returns → ParametersForm s₃ parameters →
      After (.keyword .throws) ParametersForm s₄ throws → AnnotationsForm s₅ annotations →
      SeparatorForm s₆ →
      FunctionForm (s₁ ++ s₂ ++ .identifier name :: s₃ ++ s₄ ++ s₅ ++ s₆)
        ⟨name, returns, parameters, throws.getD [], oneway⟩

/-! ## Definitions -/

/-- `IDENT [EQUALS INT] [annotations] [sep]` -/
inductive EnumValueForm : List Lexeme → EnumValue → Prop
  | mk {name s₁ number s₂ annotations s₃} :
      After (.mark .equals) IntegerForm s₁ number → AnnotationsForm s₂ annotations →
      SeparatorForm s₃ →
      EnumValueForm (.identifier name :: s₁ ++ s₂ ++ s₃) ⟨name, number⟩

/-- `[xsd_all]` -/
inductive AllForm : List Lexeme → Prop
  | none : AllForm []
  | some : AllForm [.identifier "xsd_all"]

/-- The keyword that begins a record. -/
def recordKeyword : RecordForm → Keyword
  | .struct => .struct
  | .exception => .exception
  | .union => .union

/-- A definition. -/
inductive DefinitionForm : List Lexeme → Definition → Prop
  /-- `CONST Type IDENT EQUALS Value [sep]` -/
  | const {s₁ type name s₂ value s₃} :
      TypeForm s₁ type → ValueForm s₂ value → SeparatorForm s₃ →
      DefinitionForm (.keyword .const :: s₁ ++ .identifier name :: .mark .equals :: s₂ ++ s₃)
        (.const name type value)
  /-- `TYPEDEF Type IDENT [annotations] [sep]` -/
  | typedef {s₁ type name s₂ annotations s₃} :
      TypeForm s₁ type → AnnotationsForm s₂ annotations → SeparatorForm s₃ →
      DefinitionForm (.keyword .typedef :: s₁ ++ .identifier name :: s₂ ++ s₃)
        (.typedef name type)
  /-- `ENUM IDENT LBRACE EnumValue* RBRACE [annotations]` -/
  | enum {name s₁ values s₂ annotations} :
      Closed .rightBrace EnumValueForm s₁ values → AnnotationsForm s₂ annotations →
      DefinitionForm (.keyword .enum :: .identifier name :: .mark .leftBrace :: s₁ ++ s₂)
        (.enum name values)
  /-- `SENUM IDENT LBRACE (STRING_LIT [sep])* RBRACE [annotations]` -/
  | senum {name s₁ contents s₂ annotations} :
      Closed .rightBrace (Separated StringForm) s₁ contents → AnnotationsForm s₂ annotations →
      DefinitionForm (.keyword .senum :: .identifier name :: .mark .leftBrace :: s₁ ++ s₂)
        (.unsupported "Senum" name)
  /-- `(STRUCT | UNION | EXCEPTION) IDENT [xsd_all] LBRACE Field* RBRACE [annotations]` -/
  | record {name s₁ s₂ fields s₃ annotations} (form) :
      AllForm s₁ → Closed .rightBrace FieldForm s₂ fields → AnnotationsForm s₃ annotations →
      DefinitionForm (.keyword (recordKeyword form) :: .identifier name :: s₁ ++
        .mark .leftBrace :: s₂ ++ s₃) (.record form name fields)
  /-- `SERVICE IDENT [EXTENDS IDENT] LBRACE Function* RBRACE [annotations]` -/
  | service {name s₁ base s₂ functions s₃ annotations} :
      After (.keyword .extendsService) IdentifierForm s₁ base →
      Closed .rightBrace FunctionForm s₂ functions → AnnotationsForm s₃ annotations →
      DefinitionForm (.keyword .service :: .identifier name :: s₁ ++ .mark .leftBrace :: s₂ ++ s₃)
        (.service name base functions)

/-! ## Documents -/

/-- A part of a document. -/
inductive StatementForm : List Lexeme → Statement → Prop
  /-- `INCLUDE STRING_LIT` -/
  | include_ (path) : StatementForm [.keyword .includeFile, .string path] (.include_ path)
  /-- `CPP_INCLUDE STRING_LIT` -/
  | includeNative (path) :
      StatementForm [.keyword .includeNative, .string path] (.includeNative path)
  /-- `NAMESPACE scope IDENT`, where any lexeme can be the scope. -/
  | namespace_ (scope name) :
      StatementForm [.keyword .namespaceOf, scope, .identifier name]
        (.namespace_ scope.value name)
  | definition {s d} : DefinitionForm s d → StatementForm s (.definition d)
  | comma : StatementForm [.mark .comma] .separator
  | semicolon : StatementForm [.mark .semicolon] .separator

/-- `Statement*` -/
inductive DocumentForm : List Lexeme → Document → Prop
  | mk {s statements} : Many StatementForm s statements →
      DocumentForm s (.ofStatements statements)

end IdlFlow.Grammar
