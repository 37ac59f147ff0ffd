/-
  Parsers do not see where tokens stand.

  * `Token.unplaced`, `Failure.unplaced`: the same without its position, or
    without those of its tokens;
  * `Blind p`: `p` reads tokens without their positions as it reads the tokens;
  * `Alike`: the same document, or failures that differ in their position only.

  Main statements: the parser of documents is blind (`blind_document`), so
  streams that say the same come out alike (`parse_alike`).
-/
import IdlFlow.Proofs.Soundness

namespace IdlFlow

/-- The token at the start. -/
def Token.unplaced (t : Token) : Token := { t with position := .start }

def Failure.unplaced : Failure → Failure
  | unexpected wanted rest => .unexpected wanted (rest.map Token.unplaced)
  | numeral e => .numeral e

/-- What two texts come out as if they differ in positions only. -/
inductive Alike : Except ParseError Document → Except ParseError Document → Prop
  | document (d : Document) : Alike (.ok d) (.ok d)
  | unexpected (wanted : Wanted) (found : Option Lexeme) (p q : Position) :
    Alike (.error (.unexpected wanted found p)) (.error (.unexpected wanted found q))
  | numeral (e : NumeralError) : Alike (.error (.numeral e)) (.error (.numeral e))

namespace Parser

variable {α β : Type}

/-! ## Blind parsers -/

/-- What a run comes out as, without positions. -/
def unplaced : Except Failure (α × List Token) → Except Failure (α × List Token)
  | .ok (a, rest) => .ok (a, rest.map Token.unplaced)
  | .error failure => .error failure.unplaced

/-- Positions do not change what the parser does. -/
def Blind (p : Parser α) : Prop :=
  ∀ tokens, p (tokens.map Token.unplaced) = unplaced (p tokens)

namespace Blind

variable {p : Parser α}

theorem pure (a : α) : Blind (pure a : Parser α) := fun _ => rfl

theorem fail (wanted : Wanted) : Blind (fail wanted : Parser α) := fun _ => rfl

theorem valued (value : Except NumeralError α) : Blind (valued value) := by
  intro tokens
  cases value <;> rfl

theorem bind (hp : Blind p) {f : α → Parser β} (hf : ∀ a, Blind (f a)) : Blind (p >>= f) := by
  intro tokens
  show (p (tokens.map Token.unplaced) >>= fun x => f x.1 x.2) =
    unplaced (p tokens >>= fun x => f x.1 x.2)
  rw [hp tokens]
  cases p tokens with
  | error failure => rfl
  | ok x => exact hf x.1 x.2

theorem map (hp : Blind p) (g : α → β) : Blind (g <$> p) := hp.bind fun _ => .pure _

theorem discard (hp : Blind p) : Blind (discard p) := hp.bind fun _ => .pure ()

/-- A bound on the tokens left is none on their positions. -/
theorem of_length {p : Nat → Parser α} (h : ∀ n, Blind (p n)) :
    Blind fun tokens => p tokens.length tokens := by
  intro tokens
  show p (tokens.map Token.unplaced).length _ = _
  rw [List.length_map]
  exact h _ tokens

end Blind

/-! ## Single tokens -/

theorem blind_peek : Blind peek := by
  intro tokens
  cases tokens <;> rfl

theorem blind_advance : Blind advance := by
  intro tokens
  cases tokens <;> rfl

theorem blind_mark (m : Mark) : Blind (mark m) := by
  refine blind_peek.bind fun next => ?_
  split
  · exact blind_advance
  · exact .fail _

theorem blind_next? (l : Lexeme) : Blind (next? l) := by
  refine blind_peek.bind fun next => ?_
  split
  · exact blind_advance.bind fun _ => .pure _
  · exact .pure _

theorem blind_optionally (l : Lexeme) {p : Parser α} (hp : Blind p) : Blind (optionally l p) := by
  refine (blind_next? l).bind fun b => ?_
  split
  · exact hp.map some
  · exact .pure _

theorem blind_identifier : Blind identifier := by
  refine blind_peek.bind fun next => ?_
  split
  · exact blind_advance.bind fun _ => .pure _
  · exact .fail _

theorem blind_string : Blind string := by
  refine blind_peek.bind fun next => ?_
  split
  · exact blind_advance.bind fun _ => .pure _
  · exact .fail _

theorem blind_integer : Blind integer := by
  refine blind_peek.bind fun next => ?_
  split
  · split
    · exact blind_advance.bind fun _ => .valued _
    · exact .fail _
  · exact .fail _

theorem blind_anyToken : Blind anyToken :=
  blind_peek.bind fun _ => blind_advance.bind fun _ => .pure _

theorem blind_separator : Blind separator := by
  refine blind_peek.bind fun next => ?_
  split
  · exact blind_advance
  · exact .pure _

/-! ## Repetition -/

theorem blind_atClosing (closing : Option Mark) : Blind (atClosing closing) := by
  refine blind_peek.bind fun next => ?_
  split <;> exact .pure _

section
variable {item : Parser α}

theorem blind_manyUpTo (closing : Option Mark) (h : Blind item) (bound : Nat) :
    Blind (manyUpTo closing item bound) := by
  induction bound with
  | zero => exact .pure _
  | succ bound ih =>
    refine (blind_atClosing closing).bind fun b => ?_
    split
    · exact .pure _
    · exact h.bind fun _ => ih.bind fun _ => .pure _

theorem blind_manyUntil (closing : Option Mark) (h : Blind item) :
    Blind (manyUntil closing item) :=
  .of_length (blind_manyUpTo closing h)

theorem blind_manyClosed (closing : Mark) (h : Blind item) : Blind (manyClosed closing item) :=
  (blind_manyUntil _ h).bind fun _ => (blind_mark _).bind fun _ => .pure _

end

/-! ## Annotations and types -/

theorem blind_annotation : Blind annotation := by
  rw [annotation_eq]
  refine blind_anyToken.bind fun _ => (blind_optionally _ blind_string).bind fun _ => ?_
  exact blind_separator.bind fun _ => .pure _

theorem blind_annotations : Blind annotations := by
  refine (blind_next? (.mark .leftParen)).bind fun b => ?_
  split
  · exact (blind_manyClosed _ blind_annotation).bind fun _ => .pure _
  · exact .pure _

theorem blind_nativeType : Blind nativeType := by
  refine (blind_next? (.identifier "cpp_type")).bind fun b => ?_
  split
  · exact blind_string.discard
  · exact .pure _

theorem blind_contained {content : Parser α} (h : Blind content) : Blind (contained content) := by
  refine blind_nativeType.bind fun _ => (blind_mark _).bind fun _ => h.bind fun _ => ?_
  exact (blind_mark _).bind fun _ => blind_annotations.discard.bind fun _ => .pure _

theorem blind_typeName : Blind typeName :=
  blind_identifier.bind fun _ => blind_annotations.bind fun _ => .pure _

theorem blind_typeRefOver {inner : Parser TypeRef} (h : Blind inner) :
    Blind (typeRefOver inner) := by
  refine blind_peek.bind fun next => ?_
  split
  · exact blind_advance.bind fun _ => (blind_contained h).bind fun _ => .pure _
  · exact blind_advance.bind fun _ => (blind_contained h).bind fun _ => .pure _
  · refine blind_advance.bind fun _ => blind_contained ?_
    exact h.bind fun _ => (blind_mark _).bind fun _ => h.bind fun _ => .pure _
  · exact blind_typeName

theorem blind_typeRef : Blind typeRef := by
  refine .of_length fun bound => ?_
  induction bound with
  | zero => exact .fail _
  | succ bound ih => exact blind_typeRefOver ih

/-! ## Constant values -/

theorem blind_constValueOver {inner : Parser ConstValue} (h : Blind inner) :
    Blind (constValueOver inner) := by
  have item : Blind (do
      let item ← inner
      separator
      return item) :=
    h.bind fun _ => blind_separator.bind fun _ => .pure _
  have entry : Blind (do
      let key ← inner
      mark .colon
      let value ← inner
      separator
      return (key, value)) :=
    h.bind fun _ => (blind_mark _).bind fun _ => h.bind fun _ =>
      blind_separator.bind fun _ => .pure _
  refine blind_peek.bind fun next => ?_
  split
  · refine blind_advance.bind fun _ => ?_
    split <;> exact (Blind.valued _).bind fun _ => .pure _
  · exact blind_advance.bind fun _ => .pure _
  · exact blind_advance.bind fun _ => .pure _
  · exact blind_advance.bind fun _ => .pure _
  · exact blind_advance.bind fun _ => .pure _
  · exact blind_advance.bind fun _ => (blind_manyClosed _ item).bind fun _ => .pure _
  · exact blind_advance.bind fun _ => (blind_manyClosed _ entry).bind fun _ => .pure _
  · exact .fail _

theorem blind_constValue : Blind constValue := by
  refine .of_length fun bound => ?_
  induction bound with
  | zero => exact .fail _
  | succ bound ih => exact blind_constValueOver ih

/-! ## Fields and functions -/

theorem blind_fieldId : Blind fieldId := by
  refine blind_peek.bind fun next => ?_
  split
  · split
    · exact blind_integer.bind fun _ => (blind_mark _).bind fun _ => .pure _
    · exact .pure _
  · exact .pure _

theorem blind_optionality : Blind optionality := by
  refine (blind_next? (.keyword .optional)).bind fun b => ?_
  split
  · exact .pure _
  · exact (blind_next? (.keyword .required)).discard.bind fun _ => .pure _

theorem blind_field : Blind field := by
  rw [field_eq]
  refine blind_fieldId.bind fun _ => blind_optionality.bind fun _ => ?_
  refine blind_typeRef.bind fun _ => blind_identifier.bind fun _ => ?_
  refine (blind_optionally _ blind_constValue).bind fun _ => ?_
  exact blind_annotations.discard.bind fun _ => blind_separator.bind fun _ => .pure _

theorem blind_resultType : Blind resultType := by
  refine (blind_next? (.identifier TypeRef.voidTag)).bind fun b => ?_
  split
  · exact .pure _
  · exact blind_typeRef

theorem blind_parameters : Blind parameters :=
  (blind_mark _).bind fun _ => blind_manyClosed _ blind_field

theorem blind_function : Blind function := by
  rw [function_eq]
  refine (blind_next? _).bind fun _ => blind_resultType.bind fun _ => ?_
  refine blind_identifier.bind fun _ => blind_parameters.bind fun _ => ?_
  refine (blind_optionally _ blind_parameters).bind fun _ => ?_
  exact blind_annotations.discard.bind fun _ => blind_separator.bind fun _ => .pure _

/-! ## Definitions -/

theorem blind_record (form : RecordForm) : Blind (record form) := by
  refine blind_identifier.bind fun _ => ?_
  refine (blind_next? (.identifier "xsd_all")).discard.bind fun _ => (blind_mark _).bind fun _ => ?_
  refine (blind_manyClosed _ blind_field).bind fun _ => ?_
  exact blind_annotations.discard.bind fun _ => .pure _

theorem blind_enumValue : Blind enumValue := by
  rw [enumValue_eq]
  refine blind_identifier.bind fun _ => (blind_optionally _ blind_integer).bind fun _ => ?_
  exact blind_annotations.discard.bind fun _ => blind_separator.bind fun _ => .pure _

theorem blind_enum : Blind enum := by
  refine blind_identifier.bind fun _ => (blind_mark _).bind fun _ => ?_
  refine (blind_manyClosed _ blind_enumValue).bind fun _ => ?_
  exact blind_annotations.discard.bind fun _ => .pure _

theorem blind_stringEnum : Blind stringEnum := by
  have item : Blind (do
      discard string
      separator) := blind_string.discard.bind fun _ => blind_separator
  refine blind_identifier.bind fun _ => (blind_mark _).bind fun _ => ?_
  refine (blind_manyClosed _ item).discard.bind fun _ => ?_
  exact blind_annotations.discard.bind fun _ => .pure _

theorem blind_typedef : Blind typedef := by
  refine blind_typeRef.bind fun _ => blind_identifier.bind fun _ => ?_
  exact blind_annotations.discard.bind fun _ => blind_separator.bind fun _ => .pure _

theorem blind_service : Blind service := by
  rw [service_eq]
  refine blind_identifier.bind fun _ => (blind_optionally _ blind_identifier).bind fun _ => ?_
  refine (blind_mark _).bind fun _ => (blind_manyClosed _ blind_function).bind fun _ => ?_
  exact blind_annotations.discard.bind fun _ => .pure _

theorem blind_const : Blind const := by
  refine blind_typeRef.bind fun _ => blind_identifier.bind fun _ => (blind_mark _).bind fun _ => ?_
  exact blind_constValue.bind fun _ => blind_separator.bind fun _ => .pure _

/-! ## Documents -/

theorem blind_statementOf {k : Keyword} {p : Parser Statement} (h : statementOf k = some p) :
    Blind p := by
  cases k <;> cases h
  case includeFile => exact blind_string.map _
  case includeNative => exact blind_string.map _
  case namespaceOf => exact blind_anyToken.bind fun _ => blind_identifier.bind fun _ => .pure _
  case const => exact blind_const.map _
  case typedef => exact blind_typedef.map _
  case enum => exact blind_enum.map _
  case senum => exact blind_stringEnum.map _
  case struct => exact (blind_record .struct).map _
  case union => exact (blind_record .union).map _
  case exception => exact (blind_record .exception).map _
  case service => exact blind_service.map _

theorem blind_statement : Blind statement := by
  refine blind_peek.bind fun next => ?_
  split
  · exact blind_advance.bind fun _ => .pure _
  · exact blind_advance.bind fun _ => .pure _
  · split
    · next rest h => exact blind_advance.bind fun _ => blind_statementOf h
    · exact .fail _
  · exact .fail _

/-- **Documents are read without a look at positions.** -/
theorem blind_document : Blind document :=
  (blind_manyUntil none blind_statement).bind fun _ => .pure _

/-! ## Streams that say the same -/

/-- Tokens without positions are what they say. -/
theorem map_unplaced (tokens : List Token) :
    tokens.map Token.unplaced = (lexemes tokens).map fun l => ⟨l, .start⟩ := by
  rw [lexemes, List.map_map]
  rfl

/-- The same failure in two streams names the same token. -/
theorem alike_inStream {failure failure' : Failure} (h : failure.unplaced = failure'.unplaced)
    (stream other : TokenStream) :
    Alike (.error (failure.inStream stream)) (.error (failure'.inStream other)) := by
  cases failure with
  | numeral e =>
    cases failure' with
    | numeral e' =>
      cases h
      exact .numeral e
    | unexpected => cases h
  | unexpected wanted rest =>
    cases failure' with
    | numeral => cases h
    | unexpected wanted' rest' =>
      obtain ⟨rfl, same⟩ := Failure.unexpected.inj h
      have found : rest.head?.map Token.lexeme = rest'.head?.map Token.lexeme := by
        have first := congrArg (fun tokens => tokens.head?.map Token.lexeme) same
        simp only [List.head?_map, Option.map_map] at first
        exact first
      rw [Failure.inStream, Failure.inStream, found]
      exact .unexpected ..

/-- **Streams that say the same come out alike.** -/
theorem parse_alike {stream other : TokenStream}
    (h : lexemes stream.tokens = lexemes other.tokens) : Alike stream.parse other.parse := by
  have same : unplaced (document stream.tokens) = unplaced (document other.tokens) := by
    rw [← blind_document, ← blind_document, map_unplaced, map_unplaced, h]
  unfold TokenStream.parse
  cases hs : document stream.tokens with
  | ok x =>
    obtain ⟨d, rest⟩ := x
    cases ho : document other.tokens with
    | ok y =>
      obtain ⟨d', rest'⟩ := y
      rw [hs, ho] at same
      obtain ⟨rfl, -⟩ := Prod.mk.inj (Except.ok.inj same)
      exact .document d
    | error failure =>
      rw [hs, ho] at same
      cases same
  | error failure =>
    cases ho : document other.tokens with
    | ok y =>
      rw [hs, ho] at same
      cases same
    | error failure' =>
      rw [hs, ho] at same
      exact alike_inStream (Except.error.inj same) stream other

end Parser

end IdlFlow
