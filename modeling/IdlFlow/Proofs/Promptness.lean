/-
  Every parser is exact.

  One lemma for each parser, in the order of the productions.  A parser that
  looks at the next token is a choice by it (`exact_moving`), a sequence is
  exact since its parts are, and the recursive ones go by the number of tokens.
-/
import IdlFlow.Proofs.Exactness

namespace IdlFlow.Parser

open Grammar

variable {α : Type} {n : Nat}

/-! ## Single tokens -/

/-- A choice that takes a token by itself. -/
theorem exact_taking {move : Lexeme → Move α} {otherwise : Parser α} (idle : Idle otherwise)
    {l : Lexeme} {a : α} (first : move l = .go (pure a))
    (stop : ∀ m : Numeral, move (.numeral m) = .stop ↔
      move (.numeral (.sample m.isInteger)) = .stop)
    (only : ∀ l, move l = .stop ∨ ∃ b, move l = .go (pure b)) :
    Exact n (moving move otherwise) := by
  refine exact_moving idle (completes_go first (Exact.pure (n := 0) a).start) stop ?_ ?_
  · intro l q h m _
    rcases only l with e | ⟨b, e⟩
    · rw [e] at h
      cases h
    · rw [e] at h
      cases h
      exact .pure b
  · intro l v h
    rcases only l with e | ⟨b, e⟩ <;> rw [e] at h <;> cases h

theorem exact_mark (m : Mark) : Exact n (mark m) := by
  have eq : mark m = moving (fun l => if l = .mark m then .go (pure ()) else .stop)
      (fail (.kind (.mark m))) := by
    funext tokens
    cases tokens with
    | nil => rfl
    | cons t ts =>
      rw [mark, peek_bind]
      by_cases h : t.lexeme = .mark m
      · simp [moving, h]
        rfl
      · simp [moving, h]
  rw [eq]
  refine exact_taking (.fail _) (l := .mark m) (a := ()) (by simp) (by simp) fun l => ?_
  by_cases h : l = .mark m <;> simp [h]

theorem exact_identifier : Exact n identifier := by
  have eq : identifier = moving (fun
      | .identifier name => .go (pure name)
      | .keyword _ | .mark _ | .numeral _ | .string _ => .stop) (fail (.kind .identifier)) := by
    funext tokens
    rcases tokens with _ | ⟨⟨_ | _ | _ | _ | _, position⟩, ts⟩ <;> rfl
  rw [eq]
  refine exact_taking (.fail _) (l := .identifier []) rfl (fun _ => Iff.rfl) fun l => ?_
  cases l <;> simp

theorem exact_string : Exact n string := by
  have eq : string = moving (fun
      | .string content => .go (pure content)
      | .keyword _ | .mark _ | .identifier _ | .numeral _ => .stop) (fail (.kind .string)) := by
    funext tokens
    rcases tokens with _ | ⟨⟨_ | _ | _ | _ | _, position⟩, ts⟩ <;> rfl
  rw [eq]
  refine exact_taking (.fail _) (l := .string []) rfl (fun _ => Iff.rfl) fun l => ?_
  cases l <;> simp

theorem exact_anyToken : Exact n anyToken := by
  have eq : anyToken = moving (fun l => .go (pure l.value)) (pure []) := by
    funext tokens
    cases tokens <;> rfl
  rw [eq]
  exact exact_taking (.pure _) (l := .string []) rfl (by simp) (by simp)

theorem exact_separator : Exact n separator := by
  have eq : separator = moving (fun l =>
      if l = .mark .comma ∨ l = .mark .semicolon then .go (pure ()) else .stop) (pure ()) := by
    funext tokens
    cases tokens with
    | nil => rfl
    | cons t ts =>
      rw [separator, peek_bind]
      by_cases h : t.lexeme = .mark .comma ∨ t.lexeme = .mark .semicolon
      · simp [moving, h]
        rfl
      · simp [moving, h]
  rw [eq]
  refine exact_taking (.pure _) (l := .mark .comma) (a := ()) (by simp) (by simp) fun l => ?_
  by_cases h : l = .mark .comma ∨ l = .mark .semicolon <;> simp [h]

/-- A lexeme that is not a numeral can be asked for. -/
theorem exact_next? {l : Lexeme} (hl : ∀ m, l ≠ .numeral m) : Exact n (next? l) := by
  have eq : next? l = moving (fun l' => if l' = l then .go (pure true) else .stop)
      (pure false) := by
    funext tokens
    cases tokens with
    | nil => rfl
    | cons t ts =>
      rw [next?, peek_bind]
      by_cases h : t.lexeme = l
      · simp [moving, h]
        rfl
      · simp [moving, h]
  rw [eq]
  refine exact_taking (.pure _) (l := l) (a := true) (by simp) ?_ fun l' => ?_
  · intro m
    simp [Ne.symm (hl m), Ne.symm (hl (.sample m.isInteger))]
  · by_cases h : l' = l <;> simp [h]

theorem exact_optionally {l : Lexeme} (hl : ∀ m, l ≠ .numeral m) {p : Parser α}
    (hp : Exact n p) : Exact n (optionally l p) := by
  refine (exact_next? hl).bind fun b => ?_
  cases b with
  | true => exact hp.map some
  | false => exact .pure none

/-! ## Integers -/

/-- The value of a numeral of an integer, if one is next. -/
def integerMove (g : Int → α) : Lexeme → Move α
  | .numeral m => if m.isInteger then .value (g <$> m.integer) else .stop
  | _ => .stop

theorem error_of_map {β : Type} {g : α → β} {x : Except NumeralError α} {e : NumeralError}
    (h : g <$> x = .error e) : x = .error e := by
  cases x with
  | ok a => cases h
  | error e' =>
    cases h
    rfl

theorem exact_integerMove {otherwise : Parser α} (idle : Idle otherwise) (g : Int → α) :
    Exact n (moving (integerMove g) otherwise) := by
  have first : integerMove g (.numeral (.sample true)) = .value (.ok (g 0)) := rfl
  refine exact_moving idle (completes_value first) ?_ ?_ ?_
  · intro m
    cases h : m.isInteger <;> simp [integerMove, h]
  · intro l q h
    cases l with
    | numeral m => cases hm : m.isInteger <;> simp [integerMove, hm] at h
    | _ => cases h
  · intro l v h
    cases l with
    | numeral m =>
      cases hm : m.isInteger with
      | false => simp [integerMove, hm] at h
      | true =>
        simp only [integerMove, hm, if_true, Move.value.injEq] at h
        refine ⟨m, rfl, fun e he => ?_, g 0, by rw [hm, first]⟩
        rw [← h] at he
        simpa [Numeral.Fails, hm] using error_of_map he
    | _ => cases h

theorem integer_eq : integer = moving (integerMove id) (fail (.kind .integer)) := by
  funext tokens
  rcases tokens with _ | ⟨⟨_ | _ | _ | m | _, position⟩, ts⟩
  case cons.numeral =>
    rw [integer, peek_bind]
    cases hm : m.isInteger <;> simp [moving, integerMove, hm]
    cases hi : m.integer <;> rfl
  all_goals rfl

theorem exact_integer : Exact n integer := by
  rw [integer_eq]
  exact exact_integerMove (.fail _) id

theorem fieldId_eq : fieldId = moving (integerMove some) (pure none) >>= fun
    | some i => do
      mark .colon
      return some i
    | none => return none := by
  funext tokens
  rcases tokens with _ | ⟨⟨_ | _ | _ | m | _, position⟩, ts⟩
  case cons.numeral =>
    rw [fieldId, peek_bind, integer_eq]
    cases hm : m.isInteger with
    | false =>
      have none_ : moving (integerMove some) (pure none) (⟨.numeral m, position⟩ :: ts) =
          .ok (none, ⟨.numeral m, position⟩ :: ts) := by
        simp [moving, integerMove, hm]
        rfl
      rw [bind_of_ok none_]
      simp [hm]
    | true =>
      have run {β : Type} (g : Int → β) (otherwise : Parser β) :
          moving (integerMove g) otherwise (⟨.numeral m, position⟩ :: ts) =
            valued (g <$> m.integer) ts := by simp [moving, integerMove, hm]
      dsimp only [lexemes_cons, List.head?_cons]
      rw [if_pos hm]
      change (moving (integerMove id) _ (⟨.numeral m, position⟩ :: ts) >>= fun x => _) =
        (moving (integerMove some) _ (⟨.numeral m, position⟩ :: ts) >>= fun x => _)
      rw [run, run]
      cases m.integer <;> rfl
  all_goals rfl

theorem exact_fieldId : Exact n fieldId := by
  rw [fieldId_eq]
  refine (exact_integerMove (.pure none) some).bind fun o => ?_
  cases o with
  | none => exact .pure none
  | some i => exact (exact_mark _).bind fun _ => .pure _

/-! ## Repetition -/

theorem completes_manyClosed (m : Mark) (item : Parser α) : Completes (manyClosed m item) [] :=
  ⟨[⟨.mark m, .start⟩], [], fun rest => manyClosed_closing rfl item rest⟩

/-- Items that each take a token, and their closing mark. -/
theorem exact_manyClosed (m : Mark) {item : Parser α} (hi : Exact n item)
    (progress : Progresses item) : Exact n (manyClosed m item) where
  start := completes_manyClosed m item
  on tokens le := by
    induction len : tokens.length using Nat.strongRecOn generalizing tokens with
    | ind k ih =>
      cases tokens with
      | nil =>
        refine .unexpected [] [] (.kind (.mark m)) (completes_manyClosed m item) fun rest' e => ?_
        cases rest' with
        | nil => exact manyClosed_nil m item
        | cons t ts => simp [look] at e
      | cons t ts =>
        by_cases ht : t.lexeme = .mark m
        · exact .ok [t] ts [] ⟨[], [], fun r => manyClosed_closing ht item r⟩
            fun r _ => manyClosed_closing ht item r
        · refine .congr (C := fun l => l ≠ none ∧ l ≠ some (.mark m)) ?_ ?_
            (completes_manyClosed m item) ((hi.on _ le).bind ?_ ?_)
            (q := item >>= fun a => (a :: ·) <$> manyClosed m item)
          · rintro (_ | ⟨t', ts'⟩) ⟨some, other⟩
            · exact absurd rfl some
            · refine manyClosed_cons progress fun e => other ?_
              simp [look, e, Lexeme.shape]
          · refine ⟨by simp [look], fun e => ht ?_⟩
            rcases t with ⟨_ | _ | _ | _ | _, position⟩ <;> simp_all [look, Lexeme.shape]
          · intro a rest run
            have shorter := progress run
            simp only [List.length_cons] at le len
            exact (ih rest.length (by omega) rest (by omega) rfl).bind
              (fun _ r _ => (Exact.pure _).on r (Nat.le_refl _)) fun _ => (Exact.pure (n := 0) _).start
          · intro a
            exact (completes_manyClosed m item).bind_left fun _ => (Exact.pure (n := 0) _).start

/-! ## Annotations and types -/

theorem exact_annotated : Exact n annotation := by
  rw [annotation_eq]
  refine exact_anyToken.bind fun key => (exact_optionally (by simp) exact_string).bind fun _ => ?_
  exact exact_separator.bind fun _ => .pure _

theorem progresses_annotated : Progresses annotation := by
  intro t ts a rest h
  obtain ⟨value, content, sep, e, -⟩ := of_annotated h rfl
  have := congrArg List.length e
  simp at this
  omega

theorem exact_annotations : Exact n annotations := by
  refine (exact_next? (l := .mark .leftParen) (by simp)).bind fun b => ?_
  cases b with
  | true => exact (exact_manyClosed _ exact_annotated progresses_annotated).bind fun _ => .pure _
  | false => exact .pure _

theorem exact_nativeType : Exact n nativeType := by
  refine (exact_next? (l := .identifier "cpp_type") (by simp)).bind fun b => ?_
  cases b with
  | true => exact exact_string.discard
  | false => exact .pure _

theorem exact_contained {content : Parser α} (hc : Exact n content) :
    Exact n (contained content) := by
  refine exact_nativeType.bind fun _ => (exact_mark _).bind fun _ => hc.bind fun _ => ?_
  exact (exact_mark _).bind fun _ => exact_annotations.discard.bind fun _ => .pure _

/-- How a type goes on behind its first token. -/
def typeMove (inner : Parser TypeRef) : Lexeme → Move TypeRef
  | .keyword .list => .go (TypeRef.list <$> contained inner)
  | .keyword .set => .go (TypeRef.set <$> contained inner)
  | .keyword .map => .go (contained do
      let key ← inner
      mark .comma
      let value ← inner
      return .map key value)
  | .identifier name => .go do
      let annotations ← annotations
      return if TypeRef.baseTags.contains name then .base name annotations else .named name
  | _ => .stop

theorem typeRefOver_eq (inner : Parser TypeRef) :
    typeRefOver inner = moving (typeMove inner) (fail (.kind .identifier)) := by
  funext tokens
  rcases tokens with _ | ⟨⟨k | _ | _ | m | _, position⟩, ts⟩
  case cons.keyword => cases k <;> rfl
  all_goals rfl

theorem exact_typeMove {inner : Parser TypeRef} (h : Exact n inner) {l : Lexeme}
    {q : Parser TypeRef} (hq : typeMove inner l = .go q) : Exact n q := by
  have base (name : Text) : Exact n (do
      let annotations ← annotations
      return if TypeRef.baseTags.contains name then TypeRef.base name annotations
        else TypeRef.named name) :=
    exact_annotations.bind fun _ => .pure _
  have content : Exact n (do
      let key ← inner
      mark .comma
      let value ← inner
      return TypeRef.map key value) :=
    h.bind fun _ => (exact_mark _).bind fun _ => h.bind fun _ => .pure _
  rcases l with k | _ | name | _ | _
  case keyword =>
    cases k <;> cases hq
    · exact (exact_contained h).map _
    · exact (exact_contained h).map _
    · exact exact_contained content
  case identifier =>
    cases hq
    exact base name
  all_goals cases hq

theorem exact_typeRef : Exact n typeRef := by
  induction n using Nat.strongRecOn with
  | ind n ih =>
    rw [typeRef_eq, typeRefOver_eq]
    refine exact_moving (.fail _) (completes_go (l := .identifier []) rfl ?_) (fun _ => Iff.rfl)
      (fun l q h m lt => exact_typeMove (ih m lt) h) ?_
    · exact (exact_annotations (n := 0)).start.bind_left fun _ => (Exact.pure (n := 0) _).start
    · intro l v h
      rcases l with k | _ | _ | _ | _
      case keyword => cases k <;> cases h
      all_goals cases h

/-! ## Constant values -/

theorem exact_separated {item : Parser α} (hi : Exact n item) : Exact n (do
    let a ← item
    separator
    return a) :=
  hi.bind fun _ => exact_separator.bind fun _ => .pure _

theorem exact_entry {value : Parser ConstValue} (hv : Exact n value) : Exact n (do
    let key ← value
    mark .colon
    let a ← value
    separator
    return (key, a)) :=
  hv.bind fun _ => (exact_mark _).bind fun _ => hv.bind fun _ =>
    exact_separator.bind fun _ => .pure _

/-- How a constant value goes on behind its first token. -/
def valueMove (inner : Parser ConstValue) : Lexeme → Move ConstValue
  | .numeral m =>
    if m.isInteger then .value (ConstValue.integer <$> m.integer)
    else .value (ConstValue.double <$> m.double)
  | .string content => .go (pure (.string content))
  | .keyword .trueValue => .go (pure (.bool true))
  | .keyword .falseValue => .go (pure (.bool false))
  | .identifier name => .go (pure (.identifier name))
  | .mark .leftBracket => .go (ConstValue.list <$> manyClosed .rightBracket do
      let item ← inner
      separator
      return item)
  | .mark .leftBrace => .go (ConstValue.map <$> manyClosed .rightBrace do
      let key ← inner
      mark .colon
      let value ← inner
      separator
      return (key, value))
  | _ => .stop

theorem constValueOver_eq (inner : Parser ConstValue) :
    constValueOver inner = moving (valueMove inner) (fail .constantValue) := by
  funext tokens
  rcases tokens with _ | ⟨⟨k | m | _ | m | _, position⟩, ts⟩
  case cons.keyword => cases k <;> rfl
  case cons.mark => cases m <;> rfl
  case cons.numeral =>
    rw [constValueOver, peek_bind]
    dsimp only [lexemes_cons, List.head?_cons]
    rw [advance_bind, moving, valueMove]
    cases m.isInteger with
    | true => cases m.integer <;> simp <;> rfl
    | false => cases m.double <;> simp <;> rfl
  all_goals rfl

theorem exact_valueMove {inner : Parser ConstValue} (h : Exact n inner)
    (hv : Sound inner ValueForm) {l : Lexeme} {q : Parser ConstValue}
    (hq : valueMove inner l = .go q) : Exact n q := by
  rcases l with k | m | _ | m | _
  case keyword => cases k <;> cases hq <;> exact .pure _
  case mark =>
    cases m <;> cases hq
    · refine (exact_manyClosed _ (exact_entry h) ((sound_entry hv).progresses ?_)).map _
      rintro _ _ ⟨⟨hk, -⟩, -⟩
      simp
    · refine (exact_manyClosed _ (exact_separated h) ((sound_separated hv).progresses ?_)).map _
      rintro _ _ ⟨hi, -⟩
      simp [ValueForm.ne_nil hi]
  case numeral => cases hm : m.isInteger <;> simp [valueMove, hm] at hq
  all_goals
    cases hq
    exact .pure _

theorem exact_constValue : Exact n constValue := by
  induction n using Nat.strongRecOn with
  | ind n ih =>
    rw [constValue_eq, constValueOver_eq]
    refine exact_moving (.fail _) (completes_go (l := .string []) rfl ?_) ?_
      (fun l q h m lt => exact_valueMove (ih m lt) sound_constValue h) ?_
    · exact (Exact.pure (n := 0) _).start
    · intro m
      cases hm : m.isInteger <;> simp [valueMove, hm]
    · intro l v h
      rcases l with k | m | _ | m | _
      case keyword => cases k <;> cases h
      case mark => cases m <;> cases h
      case numeral =>
        refine ⟨m, rfl, fun e he => ?_, ?_⟩
        · subst he
          cases hm : m.isInteger <;>
            simp only [valueMove, hm, if_true, if_false, Bool.false_eq_true, Move.value.injEq] at h
          · simpa [Numeral.Fails, hm] using error_of_map h
          · simpa [Numeral.Fails, hm] using error_of_map h
        · cases m.isInteger with
          | true => exact ⟨.integer 0, rfl⟩
          | false => exact ⟨.double (.ofDecimal false 0 (-1)), rfl⟩
      all_goals cases h

/-! ## Fields and functions -/

theorem exact_optionality : Exact n optionality := by
  refine (exact_next? (l := .keyword .optional) (by simp)).bind fun b => ?_
  cases b with
  | true => exact .pure _
  | false => exact (exact_next? (l := .keyword .required) (by simp)).discard.bind fun _ => .pure _

theorem exact_field : Exact n field := by
  rw [field_eq]
  refine exact_fieldId.bind fun _ => exact_optionality.bind fun _ => ?_
  refine exact_typeRef.bind fun _ => exact_identifier.bind fun _ => ?_
  refine (exact_optionally (by simp) exact_constValue).bind fun _ => ?_
  exact exact_annotations.discard.bind fun _ => exact_separator.bind fun _ => .pure _

theorem progresses_field : Progresses field := by
  refine sound_field.progresses ?_
  rintro _ _ ⟨-, -, -, -, -, -⟩
  simp

theorem exact_resultType : Exact n resultType := by
  refine (exact_next? (l := .identifier TypeRef.voidTag) (by simp)).bind fun b => ?_
  cases b with
  | true => exact .pure _
  | false => exact exact_typeRef

theorem exact_parameters : Exact n parameters :=
  (exact_mark _).bind fun _ => exact_manyClosed _ exact_field progresses_field

theorem exact_function : Exact n function := by
  rw [function_eq]
  refine (exact_next? (by simp)).bind fun _ => exact_resultType.bind fun _ => ?_
  refine exact_identifier.bind fun _ => exact_parameters.bind fun _ => ?_
  refine (exact_optionally (by simp) exact_parameters).bind fun _ => ?_
  exact exact_annotations.discard.bind fun _ => exact_separator.bind fun _ => .pure _

theorem progresses_function : Progresses function := by
  refine sound_function.progresses ?_
  rintro _ _ ⟨-, -, -, -, -, -⟩
  simp

/-! ## Definitions -/

theorem exact_record (form : RecordForm) : Exact n (record form) := by
  refine exact_identifier.bind fun _ => ?_
  refine (exact_next? (l := .identifier "xsd_all") (by simp)).discard.bind fun _ => ?_
  refine (exact_mark _).bind fun _ => (exact_manyClosed _ exact_field progresses_field).bind fun _ => ?_
  exact exact_annotations.discard.bind fun _ => .pure _

theorem exact_enumValue : Exact n enumValue := by
  rw [enumValue_eq]
  refine exact_identifier.bind fun _ => (exact_optionally (by simp) exact_integer).bind fun _ => ?_
  exact exact_annotations.discard.bind fun _ => exact_separator.bind fun _ => .pure _

theorem progresses_enumValue : Progresses enumValue := by
  refine sound_enumValue.progresses ?_
  rintro _ _ ⟨-, -, -⟩
  simp

theorem exact_enum : Exact n enum := by
  refine exact_identifier.bind fun _ => (exact_mark _).bind fun _ => ?_
  refine (exact_manyClosed _ exact_enumValue progresses_enumValue).bind fun _ => ?_
  exact exact_annotations.discard.bind fun _ => .pure _

theorem progresses_enumString : Progresses (do
    discard string
    separator) := by
  refine sound_enumString.progresses ?_
  rintro _ _ ⟨_, ⟨⟨⟩, -⟩⟩
  simp

theorem exact_stringEnum : Exact n stringEnum := by
  have item : Exact n (do
      discard string
      separator) := exact_string.discard.bind fun _ => exact_separator
  refine exact_identifier.bind fun _ => (exact_mark _).bind fun _ => ?_
  refine (exact_manyClosed _ item progresses_enumString).discard.bind fun _ => ?_
  exact exact_annotations.discard.bind fun _ => .pure _

theorem exact_typedef : Exact n typedef := by
  refine exact_typeRef.bind fun _ => exact_identifier.bind fun _ => ?_
  exact exact_annotations.discard.bind fun _ => exact_separator.bind fun _ => .pure _

theorem exact_service : Exact n service := by
  rw [service_eq]
  refine exact_identifier.bind fun _ => (exact_optionally (by simp) exact_identifier).bind fun _ => ?_
  refine (exact_mark _).bind fun _ => ?_
  refine (exact_manyClosed _ exact_function progresses_function).bind fun _ => ?_
  exact exact_annotations.discard.bind fun _ => .pure _

theorem exact_const : Exact n const := by
  refine exact_typeRef.bind fun _ => exact_identifier.bind fun _ => (exact_mark _).bind fun _ => ?_
  exact exact_constValue.bind fun _ => exact_separator.bind fun _ => .pure _

/-! ## Statements -/

theorem exact_statementOf {k : Keyword} {p : Parser Statement} (h : statementOf k = some p) :
    Exact n p := by
  cases k <;> cases h
  case includeFile => exact exact_string.map _
  case includeNative => exact exact_string.map _
  case namespaceOf => exact exact_anyToken.bind fun _ => exact_identifier.bind fun _ => .pure _
  case const => exact exact_const.map _
  case typedef => exact exact_typedef.map _
  case enum => exact exact_enum.map _
  case senum => exact exact_stringEnum.map _
  case struct => exact (exact_record .struct).map _
  case union => exact (exact_record .union).map _
  case exception => exact (exact_record .exception).map _
  case service => exact exact_service.map _

/-- How a statement goes on behind its first token. -/
def statementMove : Lexeme → Move Statement
  | .mark .comma | .mark .semicolon => .go (pure .separator)
  | .keyword k => (statementOf k).elim .stop .go
  | _ => .stop

theorem statement_eq : statement = moving statementMove (fail .definition) := by
  funext tokens
  rcases tokens with _ | ⟨⟨k | m | _ | _ | _, position⟩, ts⟩
  case cons.keyword => cases k <;> rfl
  case cons.mark => cases m <;> rfl
  all_goals rfl

/-- **Every part of a document is read exactly.** -/
theorem exact_statement : Exact n statement := by
  rw [statement_eq]
  refine exact_moving (.fail _) (completes_go (l := .mark .comma) rfl ?_) (fun _ => Iff.rfl) ?_ ?_
  · exact (Exact.pure (n := 0) _).start
  · intro l q h m _
    rcases l with k | m | _ | _ | _
    case keyword =>
      cases hk : statementOf k with
      | none => simp [statementMove, hk] at h
      | some p =>
        simp only [statementMove, hk, Option.elim, Move.go.injEq] at h
        exact h ▸ exact_statementOf hk
    case mark => cases m <;> cases h <;> exact .pure _
    all_goals cases h
  · intro l v h
    rcases l with k | m | _ | _ | _
    case keyword => cases hk : statementOf k <;> simp [statementMove, hk] at h
    case mark => cases m <;> cases h
    all_goals cases h

end IdlFlow.Parser
