/-
  Whatever a parser takes off the tokens is a form of what it returns.

  One lemma for each parser, in the order of the productions; `sound_statement`
  covers every part of a document.
-/
import Mathlib.Data.List.Basic
import IdlFlow.Proofs.Reading

namespace IdlFlow.Parser

open Grammar

variable {α : Type}

/-! ## Annotations -/

theorem annotation_eq : annotation = do
    let key ← anyToken
    let value ← optionally (.mark .equals) string
    separator
    return (key, value.getD []) := by
  simp only [ annotation, optionally_bind, mark?_eq, bind_map_left, pure_bind, Option.getD_some,
    Option.getD_none]

/-- One annotation, with what the next lexemes cannot be. -/
theorem of_annotated {key : Lexeme} {r : List Lexeme} {entry : Text × Text}
    {tokens rest : List Token} (h : annotation tokens = .ok (entry, rest))
    (first : lexemes tokens = key :: r) :
    ∃ value content sep, lexemes tokens = key :: value ++ sep ++ lexemes rest ∧
      entry = (key.value, content.getD []) ∧ After (.mark .equals) StringForm value content ∧
      SeparatorForm sep ∧ (value = [] → (sep ++ lexemes rest).head? ≠ some (.mark .equals)) ∧
      (sep = [] → (lexemes rest).head? ≠ some (.mark .comma) ∧
        (lexemes rest).head? ≠ some (.mark .semicolon)) := by
  have head : (lexemes tokens).head? = some key := by rw [first]; rfl
  rw [annotation_eq, anyToken_bind head] at h
  obtain ⟨content, mid, hc, h⟩ := bind_eq_ok.1 h
  obtain ⟨value, e₁, hvalue⟩ := sound_optionally sound_string hc
  obtain ⟨u, _, hs, h⟩ := bind_eq_ok.1 h
  obtain ⟨sep, e₂, hsep, stop⟩ := of_separator hs
  obtain ⟨rfl, rfl⟩ := pure_eq_ok.1 h
  refine ⟨value, content, sep, ?_, rfl, hvalue, hsep, ?_, stop⟩
  · rw [lexemes_drop head, e₁, e₂]; simp
  · rintro rfl
    cases hvalue with
    | none => rw [← e₂]; exact head_of_optionally hc

theorem sound_entries {bound : Nat} {entries : List (Text × Text)} {tokens mid rest : List Token}
    (h : manyUpTo (some .rightParen) annotation bound tokens = .ok (entries, mid))
    (h' : mark .rightParen mid = .ok ((), rest)) :
    ∃ s, lexemes tokens = s ++ lexemes rest ∧ AnnotationEntries s entries := by
  induction bound generalizing tokens entries with
  | zero =>
    obtain ⟨rfl, rfl⟩ := pure_eq_ok.1 h
    obtain ⟨s, e, rfl⟩ := sound_mark _ h'
    exact ⟨_, e, .nil⟩
  | succ bound ih =>
    rw [manyUpTo, atClosing_bind] at h
    split at h
    · obtain ⟨rfl, rfl⟩ := pure_eq_ok.1 h
      obtain ⟨s, e, rfl⟩ := sound_mark _ h'
      exact ⟨_, e, .nil⟩
    · next open_ =>
      obtain ⟨entry, ts, h₁, h⟩ := bind_eq_ok.1 h
      obtain ⟨others, ts₂, h₂, h⟩ := bind_eq_ok.1 h
      obtain ⟨rfl, rfl⟩ := pure_eq_ok.1 h
      obtain ⟨t, e₂, ht⟩ := ih h₂
      cases first : lexemes tokens with
      | nil => simp [first] at open_
      | cons key r =>
        obtain ⟨value, content, sep, e₁, rfl, hvalue, hsep, noValue, noSep⟩ :=
          of_annotated h₁ first
        refine ⟨key :: value ++ sep ++ t, ?_, .cons ?_ hvalue hsep ?_ ?_ ht⟩
        · rw [← first, e₁, e₂]; simp
        · rintro rfl; simp [first] at open_
        · intro hv
          have := noValue hv
          rwa [e₂, ← List.append_assoc, List.head?_append_of_ne_nil _ (by simp [ht.ne_nil])] at this
        · intro hs
          have := noSep hs
          rwa [e₂, List.head?_append_of_ne_nil _ ht.ne_nil] at this

theorem sound_annotations : Sound annotations AnnotationsForm := by
  intro tokens entries rest h
  rw [annotations, mark?_eq] at h
  obtain ⟨b, mid, hb, h⟩ := bind_eq_ok.1 h
  rcases of_next? hb with ⟨rfl, e⟩ | ⟨rfl, rfl, -⟩
  · rw [if_pos rfl] at h
    obtain ⟨pairs, ts, hc, h⟩ := bind_eq_ok.1 h
    obtain ⟨rfl, rfl⟩ := pure_eq_ok.1 h
    obtain ⟨items, ts₁, h₁, hc⟩ := bind_eq_ok.1 hc
    obtain ⟨u, ts₂, h₂, hc⟩ := bind_eq_ok.1 hc
    obtain ⟨rfl, rfl⟩ := pure_eq_ok.1 hc
    obtain ⟨s, e', hs⟩ := sound_entries h₁ h₂
    exact ⟨_, by rw [e, e']; rfl, .some hs⟩
  · obtain ⟨rfl, rfl⟩ := pure_eq_ok.1 h
    exact ⟨[], rfl, .none⟩

/-! ## Types -/

theorem sound_nativeType : Sound nativeType fun s _ => NativeTypeForm s := by
  intro tokens u rest h
  rw [nativeType, identifier?_eq] at h
  obtain ⟨b, mid, hb, h⟩ := bind_eq_ok.1 h
  rcases of_next? hb with ⟨rfl, e⟩ | ⟨rfl, rfl, -⟩
  · obtain ⟨_, e', content, ⟨⟩⟩ := sound_string.discard h
    exact ⟨_, by rw [e, e']; rfl, .some content⟩
  · obtain ⟨-, rfl⟩ := pure_eq_ok.1 h
    exact ⟨[], rfl, .none⟩

theorem sound_contained {content : Parser α} {Content : List Lexeme → α → Prop}
    (hc : Sound content Content) : Sound (contained content) (Contained Content) := by
  intro tokens a rest h
  rw [contained] at h
  obtain ⟨-, native, ts₁, h₁, e₁, h⟩ := sound_nativeType.bind h
  obtain ⟨-, _, ts₂, rfl, e₂, h⟩ := (sound_mark _).bind h
  obtain ⟨a, s, ts₃, h₃, e₃, h⟩ := hc.bind h
  obtain ⟨-, _, ts₄, rfl, e₄, h⟩ := (sound_mark _).bind h
  obtain ⟨-, ann, ts₅, ⟨annotations, h₅⟩, e₅, h⟩ := sound_annotations.discard.bind h
  obtain ⟨rfl, rfl⟩ := pure_eq_ok.1 h
  exact ⟨_, by simp [e₁, e₂, e₃, e₄, e₅], .mk h₁ h₃ h₅⟩

theorem sound_typeName : Sound typeName TypeForm := by
  intro tokens t rest h
  rw [typeName] at h
  obtain ⟨name, _, ts₁, ⟨⟩, e₁, h⟩ := sound_identifier.bind h
  obtain ⟨annotations, ann, ts₂, h₂, e₂, h⟩ := sound_annotations.bind h
  obtain ⟨rfl, rfl⟩ := pure_eq_ok.1 h
  refine ⟨.identifier name :: ann, by simp [e₁, e₂], ?_⟩
  split
  · next base => exact .base (by simpa using base) h₂
  · next base => exact .named (by simpa using base) h₂

theorem sound_mapContent {item : Parser TypeRef} (hi : Sound item TypeForm) :
    Sound (do
      let key ← item
      mark .comma
      let value ← item
      return TypeRef.map key value) (MapContent TypeForm) := by
  intro tokens t rest h
  obtain ⟨key, s₁, ts₁, h₁, e₁, h⟩ := hi.bind h
  obtain ⟨-, _, ts₂, rfl, e₂, h⟩ := (sound_mark _).bind h
  obtain ⟨value, s₃, ts₃, h₃, e₃, h⟩ := hi.bind h
  obtain ⟨rfl, rfl⟩ := pure_eq_ok.1 h
  exact ⟨_, by simp [e₁, e₂, e₃], .mk h₁ h₃⟩

theorem sound_typeRefUpTo (bound : Nat) : Sound (typeRefUpTo bound) TypeForm := by
  induction bound with
  | zero => intro tokens t rest h; exact absurd h fail_ne_ok
  | succ bound ih =>
    intro tokens t rest h
    rw [typeRefUpTo, typeRefOver, peek_bind] at h
    rcases head : (lexemes tokens).head? with _ | (k | _ | _ | _ | _) <;> rw [head] at h
    case some.keyword =>
      cases k
      case list =>
        obtain ⟨s, e, hs⟩ := (sound_contained ih).map (fun _ _ => TypeForm.list) h
        exact ⟨_, by rw [lexemes_drop head, e]; rfl, hs⟩
      case set =>
        obtain ⟨s, e, hs⟩ := (sound_contained ih).map (fun _ _ => TypeForm.set) h
        exact ⟨_, by rw [lexemes_drop head, e]; rfl, hs⟩
      case map =>
        obtain ⟨s, e, hs⟩ := sound_contained (sound_mapContent ih) h
        exact ⟨_, by rw [lexemes_drop head, e]; rfl, .map hs⟩
      all_goals exact sound_typeName h
    all_goals exact sound_typeName h

theorem sound_typeRef : Sound typeRef TypeForm :=
  fun tokens _ _ h => sound_typeRefUpTo tokens.length h

/-! ## Constant values -/

theorem sound_separated {item : Parser α} {Item : List Lexeme → α → Prop} (hi : Sound item Item) :
    Sound (do
      let a ← item
      separator
      return a) (Separated Item) := by
  intro tokens a rest h
  obtain ⟨a, s, ts₁, h₁, e₁, h⟩ := hi.bind h
  obtain ⟨-, t, ts₂, h₂, e₂, h⟩ := sound_separator.bind h
  obtain ⟨rfl, rfl⟩ := pure_eq_ok.1 h
  exact ⟨_, by rw [e₁, e₂, List.append_assoc], .mk h₁ h₂⟩

theorem sound_entry {value : Parser ConstValue} (hv : Sound value ValueForm) :
    Sound (do
      let key ← value
      mark .colon
      let a ← value
      separator
      return (key, a)) (Separated (EntryForm ValueForm)) := by
  intro tokens a rest h
  obtain ⟨key, s₁, ts₁, h₁, e₁, h⟩ := hv.bind h
  obtain ⟨-, _, ts₂, rfl, e₂, h⟩ := (sound_mark _).bind h
  obtain ⟨a, s₃, ts₃, h₃, e₃, h⟩ := hv.bind h
  obtain ⟨-, s₄, ts₄, h₄, e₄, h⟩ := sound_separator.bind h
  obtain ⟨rfl, rfl⟩ := pure_eq_ok.1 h
  exact ⟨_, by simp [e₁, e₂, e₃, e₄], .mk (.mk h₁ h₃) h₄⟩

theorem sound_constValueUpTo (bound : Nat) : Sound (constValueUpTo bound) ValueForm := by
  induction bound with
  | zero => intro tokens v rest h; exact absurd h fail_ne_ok
  | succ bound ih =>
    intro tokens v rest h
    rw [constValueUpTo, constValueOver, peek_bind] at h
    rcases head : (lexemes tokens).head? with _ | (k | m | name | n | content) <;> rw [head] at h
    case some.keyword =>
      cases k
      case trueValue => cases h; exact ⟨_, lexemes_drop head, .true⟩
      case falseValue => cases h; exact ⟨_, lexemes_drop head, .false⟩
      all_goals exact absurd h fail_ne_ok
    case some.mark =>
      cases m
      case leftBracket =>
        obtain ⟨s, e, hs⟩ :=
          (sound_manyClosed (sound_separated ih) _).map (fun _ _ => ValueForm.list) h
        exact ⟨_, by rw [lexemes_drop head, e]; rfl, hs⟩
      case leftBrace =>
        obtain ⟨s, e, hs⟩ := (sound_manyClosed (sound_entry ih) _).map (fun _ _ => ValueForm.map) h
        exact ⟨_, by rw [lexemes_drop head, e]; rfl, hs⟩
      all_goals exact absurd h fail_ne_ok
    case some.identifier => cases h; exact ⟨_, lexemes_drop head, .identifier name⟩
    case some.string => cases h; exact ⟨_, lexemes_drop head, .string content⟩
    case some.numeral =>
      change (if n.isInteger = true then _ else _ : Parser ConstValue) (tokens.drop 1) = _ at h
      split at h
      · next whole =>
        obtain ⟨i, mid, hv, h⟩ := bind_eq_ok.1 h
        obtain ⟨rfl, rfl⟩ := pure_eq_ok.1 h
        obtain ⟨value, rfl⟩ := valued_eq_ok.1 hv
        exact ⟨_, lexemes_drop head, .integer whole value⟩
      · next whole =>
        obtain ⟨x, mid, hv, h⟩ := bind_eq_ok.1 h
        obtain ⟨rfl, rfl⟩ := pure_eq_ok.1 h
        obtain ⟨value, rfl⟩ := valued_eq_ok.1 hv
        exact ⟨_, lexemes_drop head, .double (by simpa using whole) value⟩
    case none => exact absurd h fail_ne_ok

theorem sound_constValue : Sound constValue ValueForm :=
  fun tokens _ _ h => sound_constValueUpTo tokens.length h

/-! ## Fields and functions -/

theorem sound_fieldId : Sound fieldId FieldIdForm := by
  intro tokens id rest h
  rw [fieldId, peek_bind] at h
  rcases head : (lexemes tokens).head? with _ | (_ | _ | _ | n | _) <;> rw [head] at h
  case some.numeral =>
    change (if n.isInteger = true then _ else _ : Parser (Option Int)) tokens = _ at h
    split at h
    · obtain ⟨i, s, ts₁, h₁, e₁, h⟩ := sound_integer.bind h
      obtain ⟨-, _, ts₂, rfl, e₂, h⟩ := (sound_mark _).bind h
      obtain ⟨rfl, rfl⟩ := pure_eq_ok.1 h
      exact ⟨_, by simp [e₁, e₂], .some h₁⟩
    · obtain ⟨rfl, rfl⟩ := pure_eq_ok.1 h
      exact ⟨[], rfl, .none⟩
  all_goals
    obtain ⟨rfl, rfl⟩ := pure_eq_ok.1 h
    exact ⟨[], rfl, .none⟩

theorem sound_optionality : Sound optionality OptionalityForm := by
  intro tokens optional rest h
  rw [optionality, keyword?_eq] at h
  obtain ⟨b, mid, hb, h⟩ := bind_eq_ok.1 h
  rcases of_next? hb with ⟨rfl, e⟩ | ⟨rfl, rfl, -⟩
  · obtain ⟨rfl, rfl⟩ := pure_eq_ok.1 h
    exact ⟨_, e, .optional⟩
  · rw [if_neg Bool.false_ne_true, keyword?_eq, discard_eq, bind_assoc] at h
    obtain ⟨b, mid, hb, h⟩ := bind_eq_ok.1 h
    obtain ⟨rfl, rfl⟩ := pure_eq_ok.1 h
    rcases of_next? hb with ⟨rfl, e⟩ | ⟨rfl, rfl, -⟩
    · exact ⟨_, e, .required⟩
    · exact ⟨[], rfl, .none⟩

theorem field_eq : field = do
    let id ← fieldId
    let optional ← optionality
    let type ← typeRef
    let name ← identifier
    let default ← optionally (.mark .equals) constValue
    discard annotations
    separator
    return { name, type, id, optional, default } := by
  simp only [field, optionally_bind, mark?_eq]

theorem sound_field : Sound field FieldForm := by
  intro tokens f rest h
  rw [field_eq] at h
  obtain ⟨id, s₁, ts₁, h₁, e₁, h⟩ := sound_fieldId.bind h
  obtain ⟨optional, s₂, ts₂, h₂, e₂, h⟩ := sound_optionality.bind h
  obtain ⟨type, s₃, ts₃, h₃, e₃, h⟩ := sound_typeRef.bind h
  obtain ⟨name, _, ts₄, ⟨⟩, e₄, h⟩ := sound_identifier.bind h
  obtain ⟨default, s₅, ts₅, h₅, e₅, h⟩ := (sound_optionally sound_constValue).bind h
  obtain ⟨-, s₆, ts₆, ⟨annotations, h₆⟩, e₆, h⟩ := sound_annotations.discard.bind h
  obtain ⟨-, s₇, ts₇, h₇, e₇, h⟩ := sound_separator.bind h
  obtain ⟨rfl, rfl⟩ := pure_eq_ok.1 h
  exact ⟨_, by simp [e₁, e₂, e₃, e₄, e₅, e₆, e₇], .mk h₁ h₂ h₃ h₅ h₆ h₇⟩

theorem sound_resultType : Sound resultType ResultForm := by
  intro tokens t rest h
  rw [resultType, identifier?_eq] at h
  obtain ⟨b, mid, hb, h⟩ := bind_eq_ok.1 h
  rcases of_next? hb with ⟨rfl, e⟩ | ⟨rfl, rfl, notVoid⟩
  · obtain ⟨rfl, rfl⟩ := pure_eq_ok.1 h
    exact ⟨_, e, .void⟩
  · obtain ⟨s, e, hs⟩ := sound_typeRef h
    refine ⟨s, e, .type ?_ hs⟩
    rwa [e, List.head?_append_of_ne_nil _ hs.ne_nil] at notVoid

theorem sound_parameters : Sound parameters ParametersForm := by
  intro tokens fields rest h
  rw [parameters] at h
  obtain ⟨-, _, ts₁, rfl, e₁, h⟩ := (sound_mark _).bind h
  obtain ⟨s, e, hs⟩ := sound_manyClosed sound_field _ h
  exact ⟨_, by rw [e₁, e]; rfl, .mk hs⟩

theorem function_eq : function = do
    let oneway ← next? (.keyword .oneway)
    let returns ← resultType
    let name ← identifier
    let inputs ← parameters
    let throws ← optionally (.keyword .throws) parameters
    discard annotations
    separator
    return { name, returns, parameters := inputs, throws := throws.getD [], oneway } := by
  simp only [function, optionally_bind, keyword?_eq, bind_map_left, pure_bind, Option.getD_some,
    Option.getD_none]

theorem sound_oneway : Sound (next? (.keyword .oneway)) OnewayForm := by
  intro tokens oneway rest h
  rcases of_next? h with ⟨rfl, e⟩ | ⟨rfl, rfl, -⟩
  · exact ⟨_, e, .some⟩
  · exact ⟨[], rfl, .none⟩

theorem sound_function : Sound function FunctionForm := by
  intro tokens f rest h
  rw [function_eq] at h
  obtain ⟨oneway, s₁, ts₁, h₁, e₁, h⟩ := sound_oneway.bind h
  obtain ⟨returns, s₂, ts₂, h₂, e₂, h⟩ := sound_resultType.bind h
  obtain ⟨name, _, ts₃, ⟨⟩, e₃, h⟩ := sound_identifier.bind h
  obtain ⟨inputs, s₄, ts₄, h₄, e₄, h⟩ := sound_parameters.bind h
  obtain ⟨throws, s₅, ts₅, h₅, e₅, h⟩ := (sound_optionally sound_parameters).bind h
  obtain ⟨-, s₆, ts₆, ⟨annotations, h₆⟩, e₆, h⟩ := sound_annotations.discard.bind h
  obtain ⟨-, s₇, ts₇, h₇, e₇, h⟩ := sound_separator.bind h
  obtain ⟨rfl, rfl⟩ := pure_eq_ok.1 h
  exact ⟨_, by simp [e₁, e₂, e₃, e₄, e₅, e₆, e₇], .mk h₁ h₂ h₄ h₅ h₆ h₇⟩

/-! ## Definitions -/

theorem sound_all : Sound (discard (identifier? "xsd_all")) fun s _ => AllForm s := by
  intro tokens u rest h
  rw [identifier?_eq, discard_eq] at h
  obtain ⟨b, mid, hb, h⟩ := bind_eq_ok.1 h
  obtain ⟨-, rfl⟩ := pure_eq_ok.1 h
  rcases of_next? hb with ⟨rfl, e⟩ | ⟨rfl, rfl, -⟩
  · exact ⟨_, e, .some⟩
  · exact ⟨[], rfl, .none⟩

theorem sound_record (form : RecordForm) :
    Sound (record form) fun s d => DefinitionForm (.keyword (recordKeyword form) :: s) d := by
  intro tokens d rest h
  rw [record] at h
  obtain ⟨name, _, ts₁, ⟨⟩, e₁, h⟩ := sound_identifier.bind h
  obtain ⟨-, s₂, ts₂, h₂, e₂, h⟩ := sound_all.bind h
  obtain ⟨-, _, ts₃, rfl, e₃, h⟩ := (sound_mark _).bind h
  obtain ⟨fields, s₄, ts₄, h₄, e₄, h⟩ := (sound_manyClosed sound_field _).bind h
  obtain ⟨-, s₅, ts₅, ⟨annotations, h₅⟩, e₅, h⟩ := sound_annotations.discard.bind h
  obtain ⟨rfl, rfl⟩ := pure_eq_ok.1 h
  exact ⟨_, by simp [e₁, e₂, e₃, e₄, e₅], .record form h₂ h₄ h₅⟩

theorem enumValue_eq : enumValue = do
    let name ← identifier
    let number ← optionally (.mark .equals) integer
    discard annotations
    separator
    return { name, number } := by
  simp only [enumValue, optionally_bind, mark?_eq]

theorem sound_enumValue : Sound enumValue EnumValueForm := by
  intro tokens v rest h
  rw [enumValue_eq] at h
  obtain ⟨name, _, ts₁, ⟨⟩, e₁, h⟩ := sound_identifier.bind h
  obtain ⟨number, s₂, ts₂, h₂, e₂, h⟩ := (sound_optionally sound_integer).bind h
  obtain ⟨-, s₃, ts₃, ⟨annotations, h₃⟩, e₃, h⟩ := sound_annotations.discard.bind h
  obtain ⟨-, s₄, ts₄, h₄, e₄, h⟩ := sound_separator.bind h
  obtain ⟨rfl, rfl⟩ := pure_eq_ok.1 h
  exact ⟨_, by simp [e₁, e₂, e₃, e₄], .mk h₂ h₃ h₄⟩

theorem sound_enum : Sound enum fun s d => DefinitionForm (.keyword .enum :: s) d := by
  intro tokens d rest h
  rw [enum] at h
  obtain ⟨name, _, ts₁, ⟨⟩, e₁, h⟩ := sound_identifier.bind h
  obtain ⟨-, _, ts₂, rfl, e₂, h⟩ := (sound_mark _).bind h
  obtain ⟨values, s₃, ts₃, h₃, e₃, h⟩ := (sound_manyClosed sound_enumValue _).bind h
  obtain ⟨-, s₄, ts₄, ⟨annotations, h₄⟩, e₄, h⟩ := sound_annotations.discard.bind h
  obtain ⟨rfl, rfl⟩ := pure_eq_ok.1 h
  exact ⟨_, by simp [e₁, e₂, e₃, e₄], .enum h₃ h₄⟩

theorem sound_enumString : Sound (do
    discard string
    separator) fun s _ => ∃ content, Separated StringForm s content := by
  intro tokens u rest h
  obtain ⟨-, s, ts₁, ⟨content, h₁⟩, e₁, h⟩ := sound_string.discard.bind h
  obtain ⟨t, e₂, h₂⟩ := sound_separator h
  exact ⟨_, by rw [e₁, e₂, List.append_assoc], content, .mk h₁ h₂⟩

theorem sound_stringEnum : Sound stringEnum fun s d => DefinitionForm (.keyword .senum :: s) d := by
  intro tokens d rest h
  rw [stringEnum] at h
  obtain ⟨name, _, ts₁, ⟨⟩, e₁, h⟩ := sound_identifier.bind h
  obtain ⟨-, _, ts₂, rfl, e₂, h⟩ := (sound_mark _).bind h
  obtain ⟨-, s₃, ts₃, ⟨units, h₃⟩, e₃, h⟩ := (sound_manyClosed sound_enumString _).discard.bind h
  obtain ⟨-, s₄, ts₄, ⟨annotations, h₄⟩, e₄, h⟩ := sound_annotations.discard.bind h
  obtain ⟨rfl, rfl⟩ := pure_eq_ok.1 h
  obtain ⟨contents, h₃⟩ := h₃.exists
  exact ⟨_, by simp [e₁, e₂, e₃, e₄], .senum h₃ h₄⟩

theorem sound_typedef : Sound typedef fun s d => DefinitionForm (.keyword .typedef :: s) d := by
  intro tokens d rest h
  rw [typedef] at h
  obtain ⟨type, s₁, ts₁, h₁, e₁, h⟩ := sound_typeRef.bind h
  obtain ⟨name, _, ts₂, ⟨⟩, e₂, h⟩ := sound_identifier.bind h
  obtain ⟨-, s₃, ts₃, ⟨annotations, h₃⟩, e₃, h⟩ := sound_annotations.discard.bind h
  obtain ⟨-, s₄, ts₄, h₄, e₄, h⟩ := sound_separator.bind h
  obtain ⟨rfl, rfl⟩ := pure_eq_ok.1 h
  exact ⟨_, by simp [e₁, e₂, e₃, e₄], .typedef h₁ h₃ h₄⟩

theorem service_eq : service = do
    let name ← identifier
    let base ← optionally (.keyword .extendsService) identifier
    mark .leftBrace
    let functions ← manyClosed .rightBrace function
    discard annotations
    return .service name base functions := by
  simp only [service, optionally_bind, keyword?_eq]

theorem sound_service : Sound service fun s d => DefinitionForm (.keyword .service :: s) d := by
  intro tokens d rest h
  rw [service_eq] at h
  obtain ⟨name, _, ts₁, ⟨⟩, e₁, h⟩ := sound_identifier.bind h
  obtain ⟨base, s₂, ts₂, h₂, e₂, h⟩ := (sound_optionally sound_identifier).bind h
  obtain ⟨-, _, ts₃, rfl, e₃, h⟩ := (sound_mark _).bind h
  obtain ⟨functions, s₄, ts₄, h₄, e₄, h⟩ := (sound_manyClosed sound_function _).bind h
  obtain ⟨-, s₅, ts₅, ⟨annotations, h₅⟩, e₅, h⟩ := sound_annotations.discard.bind h
  obtain ⟨rfl, rfl⟩ := pure_eq_ok.1 h
  exact ⟨_, by simp [e₁, e₂, e₃, e₄, e₅], .service h₂ h₄ h₅⟩

theorem sound_const : Sound const fun s d => DefinitionForm (.keyword .const :: s) d := by
  intro tokens d rest h
  rw [const] at h
  obtain ⟨type, s₁, ts₁, h₁, e₁, h⟩ := sound_typeRef.bind h
  obtain ⟨name, _, ts₂, ⟨⟩, e₂, h⟩ := sound_identifier.bind h
  obtain ⟨-, _, ts₃, rfl, e₃, h⟩ := (sound_mark _).bind h
  obtain ⟨value, s₄, ts₄, h₄, e₄, h⟩ := sound_constValue.bind h
  obtain ⟨-, s₅, ts₅, h₅, e₅, h⟩ := sound_separator.bind h
  obtain ⟨rfl, rfl⟩ := pure_eq_ok.1 h
  exact ⟨_, by simp [e₁, e₂, e₃, e₄, e₅], .const h₁ h₄ h₅⟩

/-! ## Statements -/

theorem sound_namespace : Sound (do
    let scope ← anyToken
    return Statement.namespace_ scope (← identifier))
    fun s statement => StatementForm (.keyword .namespaceOf :: s) statement := by
  intro tokens statement rest h
  cases tokens with
  | nil => exact absurd h fail_ne_ok
  | cons t ts =>
    rw [anyToken_bind (l := t.lexeme) rfl] at h
    obtain ⟨name, _, ts₁, ⟨⟩, e₁, h⟩ := sound_identifier.bind h
    obtain ⟨rfl, rfl⟩ := pure_eq_ok.1 h
    exact ⟨[t.lexeme, _], congrArg (t.lexeme :: ·) e₁, .namespace_ t.lexeme name⟩

theorem sound_statementOf {k : Keyword} {p : Parser Statement} (h : statementOf k = some p) :
    Sound p fun s statement => StatementForm (.keyword k :: s) statement := by
  cases k <;> cases h
  case includeFile => exact sound_string.map fun _ path ⟨_⟩ => .include_ path
  case includeNative => exact sound_string.map fun _ path ⟨_⟩ => .includeNative path
  case namespaceOf => exact sound_namespace
  case const => exact sound_const.map fun _ _ => .definition
  case typedef => exact sound_typedef.map fun _ _ => .definition
  case enum => exact sound_enum.map fun _ _ => .definition
  case senum => exact sound_stringEnum.map fun _ _ => .definition
  case struct => exact (sound_record .struct).map fun _ _ => .definition
  case union => exact (sound_record .union).map fun _ _ => .definition
  case exception => exact (sound_record .exception).map fun _ _ => .definition
  case service => exact sound_service.map fun _ _ => .definition

theorem sound_statement : Sound statement StatementForm := by
  intro tokens a rest h
  rw [statement, peek_bind] at h
  rcases head : (lexemes tokens).head? with _ | (k | m | _ | _ | _) <;> rw [head] at h
  case some.keyword =>
    dsimp only at h
    cases hk : statementOf k with
    | none => rw [hk] at h; exact absurd h fail_ne_ok
    | some p =>
      rw [hk] at h
      obtain ⟨s, e, hs⟩ := sound_statementOf hk h
      exact ⟨_, by rw [lexemes_drop head, e]; rfl, hs⟩
  case some.mark =>
    cases m
    case comma => cases h; exact ⟨_, lexemes_drop head, .comma⟩
    case semicolon => cases h; exact ⟨_, lexemes_drop head, .semicolon⟩
    all_goals exact absurd h fail_ne_ok
  all_goals exact absurd h fail_ne_ok

end IdlFlow.Parser
