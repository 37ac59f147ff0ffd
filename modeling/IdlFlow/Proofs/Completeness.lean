/-
  Whatever is a form of something, a parser reads as that.

  A parser stops where its form ends if what follows cannot go on the form.
  `Stops` says this for the items of all lists; types and annotations need
  only that no annotations follow.  The bounds of the recursive parsers never
  run out, since every level and every item takes a lexeme.
-/
import Mathlib.Data.List.Basic
import IdlFlow.Proofs.Soundness

namespace IdlFlow.Parser

open Grammar

variable {α : Type}

/-! ## First lexemes -/

/-- The text begins with a lexeme of the given sort. -/
def Begins (P : Lexeme → Bool) (s : List Lexeme) : Prop := ∃ l, s.head? = some l ∧ P l = true

namespace Begins

variable {P Q : Lexeme → Bool} {s : List Lexeme}

theorem append (h : Begins P s) (t : List Lexeme) : Begins P (s ++ t) := by
  obtain ⟨l, hl, hP⟩ := h
  exact ⟨l, by simp [hl], hP⟩

theorem head_ne (h : Begins P s) {l : Lexeme} (hl : P l = false) : s.head? ≠ some l := by
  obtain ⟨l', hl', hP⟩ := h
  rintro e
  rw [hl'] at e
  cases e
  rw [hl] at hP
  cases hP

theorem mono (h : Begins P s) (hQ : ∀ l, P l = true → Q l = true) : Begins Q s := by
  obtain ⟨l, hl, hP⟩ := h
  exact ⟨l, hl, hQ l hP⟩

theorem length_pos (h : Begins P s) : 0 < s.length := by
  obtain ⟨l, hl, -⟩ := h
  cases s <;> simp_all

end Begins

/-- The lexemes that a type begins with. -/
def startsType : Lexeme → Bool
  | .identifier _ | .keyword .list | .keyword .set | .keyword .map => true
  | _ => false

/-- The lexemes that an item of a list can begin with. -/
def startsItem : Lexeme → Bool
  | .keyword k => k ≠ .throws
  | .mark m => m = .leftBracket ∨ m = .leftBrace
  | .identifier _ | .numeral _ | .string _ => true

theorem startsItem_of_startsType (l : Lexeme) (h : startsType l = true) : startsItem l = true := by
  rcases l with k | _ | _ | _ | _
  · cases k <;> first | rfl | cases h
  all_goals first | rfl | cases h

theorem begins_type {s : List Lexeme} {t : TypeRef} (h : TypeForm s t) : Begins startsType s := by
  cases h <;> exact ⟨_, rfl, rfl⟩

theorem begins_value {s : List Lexeme} {v : ConstValue} (h : ValueForm s v) :
    Begins startsItem s := by
  cases h <;> exact ⟨_, rfl, by rfl⟩

theorem begins_separated {Item : List Lexeme → α → Prop}
    (hi : ∀ s a, Item s a → Begins startsItem s) {s : List Lexeme} {a : α}
    (h : Separated Item s a) : Begins startsItem s := by
  obtain ⟨h, -⟩ := h
  exact (hi _ _ h).append _

theorem begins_field {s : List Lexeme} {f : Field} (h : FieldForm s f) : Begins startsItem s := by
  obtain ⟨h₁, h₂, h₃, -, -, -⟩ := h
  simp only [List.append_assoc]
  cases h₁ with
  | some h₁ => cases h₁; exact ⟨_, rfl, rfl⟩
  | none =>
    cases h₂ with
    | none => exact ((begins_type h₃).mono startsItem_of_startsType).append _
    | required => exact ⟨_, rfl, rfl⟩
    | optional => exact ⟨_, rfl, rfl⟩

theorem begins_function {s : List Lexeme} {f : Function} (h : FunctionForm s f) :
    Begins startsItem s := by
  obtain ⟨h₁, h₂, -, -, -, -⟩ := h
  simp only [List.append_assoc]
  cases h₁ with
  | some => exact ⟨_, rfl, rfl⟩
  | none =>
    cases h₂ with
    | void => exact ⟨_, rfl, rfl⟩
    | type _ h₂ => exact ((begins_type h₂).mono startsItem_of_startsType).append _

theorem begins_enumValue {s : List Lexeme} {v : EnumValue} (h : EnumValueForm s v) :
    Begins startsItem s := by
  cases h; exact ⟨_, rfl, rfl⟩

/-! ## What follows -/

/-- The lexemes that could go on an item of a list. -/
def continuing : List Lexeme :=
  [.mark .equals, .mark .leftParen, .mark .comma, .mark .semicolon, .keyword .throws]

/-- What follows an item of a list does not go on it. -/
def Stops (r : List Lexeme) : Prop := ∀ l ∈ continuing, r.head? ≠ some l

theorem Begins.stops {s : List Lexeme} (h : Begins startsItem s) : Stops s :=
  fun _ hl => h.head_ne ((by decide : ∀ l ∈ continuing, startsItem l = false) _ hl)

namespace Stops

variable {r : List Lexeme} (h : Stops r)
include h

theorem equals : r.head? ≠ some (.mark .equals) := h _ (by decide)

theorem leftParen : r.head? ≠ some (.mark .leftParen) := h _ (by decide)

theorem throws : r.head? ≠ some (.keyword .throws) := h _ (by decide)

theorem separator : r.head? ≠ some (.mark .comma) ∧ r.head? ≠ some (.mark .semicolon) :=
  ⟨h _ (by decide), h _ (by decide)⟩

end Stops

/-! ## Repetition -/

theorem reads_atClosing (closing : Option Mark) (s : List Lexeme) :
    Reads (atClosing closing) s
      (s.head?.elim true fun l => closing.any fun m => l = .mark m) s := by
  refine (reads_peek s).bind ?_
  cases s.head? <;> exact .pure _ _

/-- What a mark must be for the repetition that it closes to end at it, and
    only there. -/
structure Closes (m : Mark) : Prop where
  startsItem : startsItem (.mark m) = false
  notMem : .mark m ∉ continuing

namespace Closes

variable {m : Mark} (hm : Closes m)
include hm

theorem stops (r : List Lexeme) : Stops (.mark m :: r) := by
  intro l hl e
  cases e
  exact hm.notMem hl

theorem reads_false {s : List Lexeme} (h : Begins Parser.startsItem s) :
    Reads (atClosing (some m)) s false s := by
  obtain ⟨l, hl, hs⟩ := h
  have : l ≠ .mark m := by
    rintro rfl
    simp [hm.startsItem] at hs
  simpa [hl, this] using reads_atClosing (some m) s

end Closes

theorem closes_rightBrace : Closes .rightBrace := ⟨rfl, by decide⟩

theorem closes_rightParen : Closes .rightParen := ⟨rfl, by decide⟩

theorem closes_rightBracket : Closes .rightBracket := ⟨rfl, by decide⟩

theorem length_le_of_many {Item : List Lexeme → α → Prop}
    (first : ∀ s a, Item s a → Begins startsItem s) {s : List Lexeme} {as : List α}
    (h : Many Item s as) : as.length ≤ s.length := by
  induction h with
  | nil => simp
  | cons h _ ih =>
    have := (first _ _ h).length_pos
    simp only [List.length_cons, List.length_append]
    omega

section
variable {m : Mark} {item : Parser α} {Item : List Lexeme → α → Prop}

/-- Items whose forms are not longer than `N` are read by the parser of one. -/
theorem reads_manyUpTo {N : Nat} (hm : Closes m)
    (first : ∀ s a, Item s a → Begins startsItem s)
    (hi : ∀ s a r, Item s a → s.length ≤ N → Stops r → Reads item (s ++ r) a r)
    {s : List Lexeme} {as : List α} (h : Many Item s as) (hN : s.length ≤ N) {bound : Nat}
    (hb : as.length ≤ bound) (r : List Lexeme) :
    Reads (manyUpTo (some m) item bound) (s ++ .mark m :: r) as (.mark m :: r) := by
  induction h generalizing bound with
  | nil =>
    cases bound with
    | zero => exact .pure _ _
    | succ bound =>
      refine (reads_atClosing (some m) _).bind ?_
      rw [if_pos (by simp)]
      exact .pure _ _
  | @cons s t a as h hs ih =>
    simp only [List.length_cons, List.length_append] at hN hb
    obtain _ | bound := bound
    · omega
    · have others : Stops (t ++ .mark m :: r) := by
        cases hs with
        | nil => exact hm.stops r
        | cons h' _ => exact (((first _ _ h').append _).append _).stops
      rw [List.append_assoc]
      exact (hm.reads_false ((first _ _ h).append _)).bind
        ((hi _ _ _ h (by omega) others).bind ((ih (by omega) (by omega)).bind (.pure _ _)))

theorem reads_manyClosed (hm : Closes m) (first : ∀ s a, Item s a → Begins startsItem s)
    {s : List Lexeme} {as : List α} (h : Closed m Item s as)
    (hi : ∀ t a r, Item t a → t.length ≤ s.length → Stops r → Reads item (t ++ r) a r)
    (r : List Lexeme) : Reads (manyClosed m item) (s ++ r) as r := by
  obtain ⟨h⟩ := h
  simp only [List.length_append, List.append_assoc, List.singleton_append] at hi ⊢
  refine Reads.bind (r := .mark m :: r) (.of_length ?_) ((reads_mark m r).bind (.pure _ _))
  have few := length_le_of_many first h
  exact reads_manyUpTo hm first (fun t a r ht hN => hi t a r ht (by omega)) h (Nat.le_refl _)
    (by simp only [List.length_append]; omega) r

end

/-! ## Annotations -/

theorem reads_annotated {key : Lexeme} {value sep r : List Lexeme} {content : Option Text}
    (hvalue : After (.mark .equals) StringForm value content) (hsep : SeparatorForm sep)
    (noValue : value = [] → (sep ++ r).head? ≠ some (.mark .equals))
    (noSep : sep = [] → r.head? ≠ some (.mark .comma) ∧ r.head? ≠ some (.mark .semicolon)) :
    Reads annotation (key :: value ++ sep ++ r) (key.value, content.getD []) r := by
  rw [annotation_eq, List.append_assoc]
  refine (reads_anyToken _ _).bind ((reads_optionally hvalue noValue ?_).bind
    ((reads_separator hsep noSep).bind (.pure _ _)))
  rintro _ content ⟨⟩
  exact reads_string content _

theorem reads_entries {s : List Lexeme} {entries : List (Text × Text)}
    (h : AnnotationEntries s entries) {bound : Nat} (hb : entries.length ≤ bound)
    (r : List Lexeme) :
    Reads (manyUpTo (some .rightParen) annotation bound) (s ++ r) entries
      (.mark .rightParen :: r) := by
  induction h generalizing bound with
  | nil =>
    cases bound with
    | zero => exact .pure _ _
    | succ bound => exact (reads_atClosing _ _).bind (by simpa using .pure _ _)
  | @cons key value content sep others entries hkey hvalue hsep noValue noSep ht ih =>
    obtain _ | bound := bound
    · simp at hb
    · refine (reads_atClosing _ _).bind ?_
      rw [if_neg (by simpa using hkey), List.append_assoc]
      refine (reads_annotated hvalue hsep ?_ ?_).bind ((ih (by simpa using hb)).bind (.pure _ _))
      · intro hv
        rw [← List.append_assoc, List.head?_append_of_ne_nil _ (by simp [ht.ne_nil])]
        exact noValue hv
      · intro hs
        rw [List.head?_append_of_ne_nil _ ht.ne_nil]
        exact noSep hs

theorem length_le_of_entries {s : List Lexeme} {entries : List (Text × Text)}
    (h : AnnotationEntries s entries) : entries.length ≤ s.length := by
  induction h with
  | nil => simp
  | cons _ _ _ _ _ _ ih =>
    simp only [List.length_cons, List.length_append]
    omega

theorem reads_annotations {s r : List Lexeme} {as : Assoc Text Text} (h : AnnotationsForm s as)
    (hr : r.head? ≠ some (.mark .leftParen)) : Reads annotations (s ++ r) as r := by
  cases h with
  | none => exact (reads_next?_false hr).bind (.pure _ r)
  | @some s entries h =>
    have few := length_le_of_entries h
    have closed : Reads (manyClosed .rightParen annotation) (s ++ r) entries r :=
      Reads.bind (.of_length (reads_entries h (by simp only [List.length_append]; omega) r))
        ((reads_mark _ r).bind (.pure _ _))
    exact (reads_next? _ _).bind (closed.bind (.pure _ r))

/-! ## Types -/

theorem reads_nativeType {s r : List Lexeme} (h : NativeTypeForm s)
    (hr : r.head? ≠ some (.identifier "cpp_type")) : Reads nativeType (s ++ r) () r := by
  cases h with
  | none => exact (reads_next?_false hr).bind (.pure _ r)
  | some content => exact (reads_next? _ _).bind (reads_string content r).discard

theorem reads_contained {content : Parser α} {Content : List Lexeme → α → Prop}
    {s r : List Lexeme} {a : α} (h : Contained Content s a)
    (hc : ∀ t a r, Content t a → t.length < s.length → r.head? ≠ some (.mark .leftParen) →
      Reads content (t ++ r) a r)
    (hr : r.head? ≠ some (.mark .leftParen)) : Reads (contained content) (s ++ r) a r := by
  obtain ⟨hn, hs, ha⟩ := h
  simp only [List.append_assoc, List.cons_append]
  refine (reads_nativeType hn (by simp)).bind ((reads_mark _ _).bind ?_)
  refine (hc _ _ _ hs (by simp; omega) (by simp)).bind ((reads_mark _ _).bind ?_)
  exact (reads_annotations ha hr).discard.bind (.pure _ _)

theorem reads_typeName (name : Text) {s r : List Lexeme} {as : Assoc Text Text}
    (h : AnnotationsForm s as) (hr : r.head? ≠ some (.mark .leftParen)) :
    Reads typeName (.identifier name :: s ++ r)
      (if TypeRef.baseTags.contains name then .base name as else .named name) r :=
  (reads_identifier _ _).bind ((reads_annotations h hr).bind (.pure _ r))

theorem reads_typeRefUpTo {bound : Nat} {s r : List Lexeme} {t : TypeRef} (h : TypeForm s t)
    (hb : s.length ≤ bound) (hr : r.head? ≠ some (.mark .leftParen)) :
    Reads (typeRefUpTo bound) (s ++ r) t r := by
  induction bound generalizing s r t with
  | zero => exact absurd (begins_type h).length_pos (by omega)
  | succ bound ih =>
    refine (reads_peek _).bind ?_
    cases h with
    | @base name _ _ hname ha => simpa [hname] using reads_typeName name ha hr
    | @named name _ _ hname ha => simpa [hname] using reads_typeName name ha hr
    | list hc =>
      refine (reads_advance _ _).bind ((reads_contained hc ?_ hr).bind (.pure _ _))
      intro t a r ht hlt hr
      exact ih ht (by simp at hb; omega) hr
    | set hc =>
      refine (reads_advance _ _).bind ((reads_contained hc ?_ hr).bind (.pure _ _))
      intro t a r ht hlt hr
      exact ih ht (by simp at hb; omega) hr
    | map hc =>
      refine (reads_advance _ _).bind (reads_contained hc ?_ hr)
      rintro _ _ r ⟨hk, hv⟩ hlt hr
      simp at hb hlt
      simp only [List.append_assoc, List.cons_append]
      refine (ih hk (by omega) (by simp)).bind ((reads_mark _ _).bind ?_)
      exact (ih hv (by omega) hr).bind (.pure _ _)

theorem reads_typeRef {s r : List Lexeme} {t : TypeRef} (h : TypeForm s t)
    (hr : r.head? ≠ some (.mark .leftParen)) : Reads typeRef (s ++ r) t r :=
  .of_length (reads_typeRefUpTo h (by simp) hr)

/-! ## Constant values -/

theorem reads_separated {item : Parser α} {Item : List Lexeme → α → Prop} {s r : List Lexeme}
    {a : α} (h : Separated Item s a)
    (hi : ∀ t r, Item t a → t.length ≤ s.length → Reads item (t ++ r) a r) (hr : Stops r) :
    Reads (do
      let a ← item
      separator
      return a) (s ++ r) a r := by
  obtain ⟨h, hs⟩ := h
  rw [List.append_assoc]
  exact (hi _ _ h (by simp)).bind ((reads_separator hs fun _ => hr.separator).bind (.pure _ _))

theorem reads_entry {value : Parser ConstValue} {s r : List Lexeme} {e : ConstValue × ConstValue}
    (h : Separated (EntryForm ValueForm) s e)
    (hv : ∀ t v r, ValueForm t v → t.length ≤ s.length → Reads value (t ++ r) v r)
    (hr : Stops r) :
    Reads (do
      let key ← value
      mark .colon
      let a ← value
      separator
      return (key, a)) (s ++ r) e r := by
  obtain ⟨⟨hk, ha⟩, hs⟩ := h
  simp only [List.length_append, List.length_cons] at hv
  simp only [List.append_assoc, List.cons_append]
  refine (hv _ _ _ hk (by omega)).bind ((reads_mark _ _).bind ?_)
  refine (hv _ _ _ ha (by omega)).bind ?_
  exact (reads_separator hs fun _ => hr.separator).bind (.pure _ _)

theorem begins_entry {s : List Lexeme} {e : ConstValue × ConstValue}
    (h : EntryForm ValueForm s e) : Begins startsItem s := by
  obtain ⟨h, -⟩ := h
  exact (begins_value h).append _

theorem reads_constValueUpTo {bound : Nat} {s : List Lexeme} {v : ConstValue}
    (h : ValueForm s v) (hb : s.length ≤ bound) (r : List Lexeme) :
    Reads (constValueUpTo bound) (s ++ r) v r := by
  induction bound generalizing s r v with
  | zero => exact absurd (begins_value h).length_pos (by omega)
  | succ bound ih =>
    refine (reads_peek _).bind ?_
    cases h with
    | @integer n i whole value =>
      refine (reads_advance _ _).bind ?_
      rw [if_pos whole, value]
      exact (reads_valued i r).bind (.pure _ r)
    | @double n x whole value =>
      refine (reads_advance _ _).bind ?_
      rw [if_neg (by simp [whole]), value]
      exact (reads_valued x r).bind (.pure _ r)
    | string | true | false | identifier => exact (reads_advance _ _).bind (.pure _ r)
    | @list s items hs =>
      refine (reads_advance _ _).bind (Reads.bind (r := r) (a := items) ?_ (.pure _ r))
      refine reads_manyClosed closes_rightBracket
        (fun _ _ => begins_separated fun _ _ => begins_value) hs ?_ r
      intro t a r ht hlen hr
      simp only [List.length_cons] at hb
      exact reads_separated ht (fun t' r hv hlen' => ih hv (by omega) r) hr
    | @map s entries hs =>
      refine (reads_advance _ _).bind (Reads.bind (r := r) (a := entries) ?_ (.pure _ r))
      refine reads_manyClosed closes_rightBrace
        (fun _ _ => begins_separated fun _ _ => begins_entry) hs ?_ r
      intro t a r ht hlen hr
      simp only [List.length_cons] at hb
      exact reads_entry ht (fun t' v r hv hlen' => ih hv (by omega) r) hr

theorem reads_constValue {s : List Lexeme} {v : ConstValue} (h : ValueForm s v)
    (r : List Lexeme) : Reads constValue (s ++ r) v r :=
  .of_length (reads_constValueUpTo h (by simp) r)

/-! ## Fields and functions -/

theorem reads_fieldId {s r : List Lexeme} {id : Option Int} (h : FieldIdForm s id)
    (hr : ∀ n, r.head? ≠ some (.numeral n)) : Reads fieldId (s ++ r) id r := by
  refine (reads_peek _).bind ?_
  cases h with
  | none =>
    rcases head : r.head? with _ | (_ | _ | _ | n | _)
    case some.numeral => exact absurd head (hr n)
    all_goals
      rw [List.nil_append, head]
      exact .pure none r
  | some h =>
    have number := h
    obtain ⟨whole, -⟩ := h
    rw [List.append_assoc]
    change Reads (if _ then _ else _) _ _ _
    rw [if_pos whole]
    exact (reads_integer number _).bind ((reads_mark .colon r).bind (.pure _ r))

theorem reads_optionality {s r : List Lexeme} {optional : Bool} (h : OptionalityForm s optional)
    (hr : Begins startsType r) : Reads optionality (s ++ r) optional r := by
  have notOptional : r.head? ≠ some (.keyword .optional) := hr.head_ne rfl
  have notRequired : r.head? ≠ some (.keyword .required) := hr.head_ne rfl
  cases h with
  | none =>
    exact (reads_next?_false notOptional).bind
      ((reads_next?_false notRequired).discard.bind (.pure false r))
  | required =>
    exact (reads_next?_false (by simp)).bind ((reads_next? _ _).discard.bind (.pure false r))
  | optional => exact (reads_next? _ _).bind (.pure true r)

theorem head_ne_numeral {s r : List Lexeme} {optional : Bool} (h : OptionalityForm s optional)
    (hr : Begins startsType r) (n : Numeral) : (s ++ r).head? ≠ some (.numeral n) := by
  cases h with
  | none => exact hr.head_ne rfl
  | required | optional => simp

theorem head_ne_separator {s r : List Lexeme} (h : SeparatorForm s) {l : Lexeme}
    (hl : l ≠ .mark .comma ∧ l ≠ .mark .semicolon) (hr : r.head? ≠ some l) :
    (s ++ r).head? ≠ some l := by
  cases h with
  | none => exact hr
  | comma => simpa using hl.1.symm
  | semicolon => simpa using hl.2.symm

theorem head_ne_annotations {s r : List Lexeme} {as : Assoc Text Text}
    (h : AnnotationsForm s as) {l : Lexeme} (hl : l ≠ .mark .leftParen) (hr : r.head? ≠ some l) :
    (s ++ r).head? ≠ some l := by
  cases h with
  | none => exact hr
  | some _ => simpa using hl.symm

theorem reads_field {s r : List Lexeme} {f : Field} (h : FieldForm s f) (hr : Stops r) :
    Reads field (s ++ r) f r := by
  obtain ⟨h₁, h₂, h₃, h₄, h₅, h₆⟩ := h
  rw [field_eq]
  simp only [List.append_assoc, List.cons_append]
  have first := begins_type h₃
  refine (reads_fieldId h₁ (head_ne_numeral h₂ (first.append _))).bind ?_
  refine (reads_optionality h₂ (first.append _)).bind ?_
  refine (reads_typeRef h₃ (by simp)).bind ((reads_identifier _ _).bind ?_)
  refine (reads_optionally h₄ ?_ fun _ _ hv => reads_constValue hv _).bind ?_
  · intro _
    exact head_ne_annotations h₅ (by decide) (head_ne_separator h₆ (by decide) hr.equals)
  refine (reads_annotations h₅ (head_ne_separator h₆ (by decide) hr.leftParen)).discard.bind ?_
  exact (reads_separator h₆ fun _ => hr.separator).bind (.pure _ r)

theorem reads_resultType {s r : List Lexeme} {t : TypeRef} (h : ResultForm s t)
    (hr : r.head? ≠ some (.mark .leftParen)) : Reads resultType (s ++ r) t r := by
  cases h with
  | void => exact (reads_next? _ _).bind (.pure _ r)
  | type notVoid h =>
    refine (reads_next?_false ?_).bind (reads_typeRef h hr)
    rwa [List.head?_append_of_ne_nil _ h.ne_nil]

theorem reads_parameters {s : List Lexeme} {fields : List Field} (h : ParametersForm s fields)
    (r : List Lexeme) : Reads parameters (s ++ r) fields r := by
  obtain ⟨h⟩ := h
  exact (reads_mark _ _).bind (reads_manyClosed closes_rightParen (fun _ _ => begins_field) h
    (fun _ _ _ hf _ hr => reads_field hf hr) r)

theorem reads_oneway {s r : List Lexeme} {oneway : Bool} (h : OnewayForm s oneway)
    (hr : r.head? ≠ some (.keyword .oneway)) :
    Reads (next? (.keyword .oneway)) (s ++ r) oneway r := by
  cases h with
  | none => exact reads_next?_false hr
  | some => exact reads_next? _ r

theorem begins_result {s : List Lexeme} {t : TypeRef} (h : ResultForm s t) :
    Begins startsType s := by
  cases h with
  | void => exact ⟨_, rfl, rfl⟩
  | type _ h => exact begins_type h

theorem reads_function {s r : List Lexeme} {f : Function} (h : FunctionForm s f) (hr : Stops r) :
    Reads function (s ++ r) f r := by
  obtain ⟨h₁, h₂, h₃, h₄, h₅, h₆⟩ := h
  rw [function_eq]
  simp only [List.append_assoc, List.cons_append]
  refine (reads_oneway h₁ (((begins_result h₂).append _).head_ne rfl)).bind ?_
  refine (reads_resultType h₂ (by simp)).bind ((reads_identifier _ _).bind ?_)
  refine (reads_parameters h₃ _).bind ?_
  refine (reads_optionally h₄ ?_ fun _ _ hp => reads_parameters hp _).bind ?_
  · intro _
    exact head_ne_annotations h₅ (by decide) (head_ne_separator h₆ (by decide) hr.throws)
  refine (reads_annotations h₅ (head_ne_separator h₆ (by decide) hr.leftParen)).discard.bind ?_
  exact (reads_separator h₆ fun _ => hr.separator).bind (.pure _ r)

/-! ## Definitions -/

theorem reads_enumValue {s r : List Lexeme} {v : EnumValue} (h : EnumValueForm s v)
    (hr : Stops r) : Reads enumValue (s ++ r) v r := by
  obtain ⟨h₁, h₂, h₃⟩ := h
  rw [enumValue_eq]
  simp only [List.append_assoc, List.cons_append]
  refine (reads_identifier _ _).bind ?_
  refine (reads_optionally h₁ ?_ fun _ _ hi => reads_integer hi _).bind ?_
  · intro _
    exact head_ne_annotations h₂ (by decide) (head_ne_separator h₃ (by decide) hr.equals)
  refine (reads_annotations h₂ (head_ne_separator h₃ (by decide) hr.leftParen)).discard.bind ?_
  exact (reads_separator h₃ fun _ => hr.separator).bind (.pure _ r)

theorem reads_enumString {s r : List Lexeme} {content : Text}
    (h : Separated StringForm s content) (hr : Stops r) :
    Reads (do
      discard string
      separator) (s ++ r) () r := by
  obtain ⟨⟨content⟩, h⟩ := h
  exact (reads_string _ _).discard.bind (reads_separator h fun _ => hr.separator)

theorem reads_all {s r : List Lexeme} (h : AllForm s)
    (hr : r.head? ≠ some (.identifier "xsd_all")) :
    Reads (discard (identifier? "xsd_all")) (s ++ r) () r := by
  cases h with
  | none => exact (reads_next?_false hr).discard
  | some => exact (reads_next? _ r).discard

theorem reads_record (form : RecordForm) {name : Text} {s₁ s₂ s₃ r : List Lexeme}
    {fields : List Field} {as : Assoc Text Text} (h₁ : AllForm s₁)
    (h₂ : Closed .rightBrace FieldForm s₂ fields) (h₃ : AnnotationsForm s₃ as)
    (hr : r.head? ≠ some (.mark .leftParen)) :
    Reads (record form) (.identifier name :: (s₁ ++ .mark .leftBrace :: (s₂ ++ (s₃ ++ r))))
      (.record form name fields) r := by
  refine (reads_identifier _ _).bind ((reads_all h₁ (by simp)).bind ((reads_mark _ _).bind ?_))
  refine (reads_manyClosed closes_rightBrace (fun _ _ => begins_field) h₂
    (fun _ _ _ hf _ hr => reads_field hf hr) _).bind ?_
  exact (reads_annotations h₃ hr).discard.bind (.pure _ r)

/-- A separator is read if there is one, and if not, the one that follows. -/
theorem reads_some_separator {s : List Lexeme} (h : SeparatorForm s) (r : List Lexeme) :
    ∃ t r', SeparatorForm t ∧ r = t ++ r' ∧ Reads separator (s ++ r) () r' := by
  cases h with
  | comma => exact ⟨[], r, .none, rfl, reads_separator .comma (by simp)⟩
  | semicolon => exact ⟨[], r, .none, rfl, reads_separator .semicolon (by simp)⟩
  | none =>
    by_cases hc : r.head? = some (.mark .comma)
    · obtain ⟨r', rfl⟩ := List.head?_eq_some_iff.1 hc
      exact ⟨_, r', .comma, rfl, reads_separator .comma (by simp)⟩
    by_cases hs : r.head? = some (.mark .semicolon)
    · obtain ⟨r', rfl⟩ := List.head?_eq_some_iff.1 hs
      exact ⟨_, r', .semicolon, rfl, reads_separator .semicolon (by simp)⟩
    · exact ⟨[], r, .none, rfl, reads_separator .none fun _ => ⟨hc, hs⟩⟩

theorem reads_const {name : Text} {s₁ s₂ r r' : List Lexeme} {type : TypeRef} {value : ConstValue}
    (h₁ : TypeForm s₁ type) (h₂ : ValueForm s₂ value) (hr : Reads separator r () r') :
    Reads const (s₁ ++ .identifier name :: .mark .equals :: (s₂ ++ r)) (.const name type value)
      r' := by
  refine (reads_typeRef h₁ (by simp)).bind ((reads_identifier _ _).bind ?_)
  refine (reads_mark _ _).bind ((reads_constValue h₂ _).bind ?_)
  exact hr.bind (.pure _ r')

theorem reads_typedef {name : Text} {s₁ s₂ r r' : List Lexeme} {type : TypeRef}
    {as : Assoc Text Text} (h₁ : TypeForm s₁ type) (h₂ : AnnotationsForm s₂ as)
    (head : r.head? ≠ some (.mark .leftParen)) (hr : Reads separator r () r') :
    Reads typedef (s₁ ++ .identifier name :: (s₂ ++ r)) (.typedef name type) r' := by
  refine (reads_typeRef h₁ (by simp)).bind ((reads_identifier _ _).bind ?_)
  exact (reads_annotations h₂ head).discard.bind (hr.bind (.pure _ r'))

theorem reads_enum {name : Text} {s₁ s₂ r : List Lexeme} {values : List EnumValue}
    {as : Assoc Text Text} (h₁ : Closed .rightBrace EnumValueForm s₁ values)
    (h₂ : AnnotationsForm s₂ as) (hr : r.head? ≠ some (.mark .leftParen)) :
    Reads enum (.identifier name :: .mark .leftBrace :: (s₁ ++ (s₂ ++ r))) (.enum name values)
      r := by
  refine (reads_identifier _ _).bind ((reads_mark _ _).bind ?_)
  refine (reads_manyClosed closes_rightBrace (fun _ _ => begins_enumValue) h₁
    (fun _ _ _ hv _ hr => reads_enumValue hv hr) _).bind ?_
  exact (reads_annotations h₂ hr).discard.bind (.pure _ r)

theorem reads_stringEnum {name : Text} {s₁ s₂ r : List Lexeme} {contents : List Text}
    {as : Assoc Text Text} (h₁ : Closed .rightBrace (Separated StringForm) s₁ contents)
    (h₂ : AnnotationsForm s₂ as) (hr : r.head? ≠ some (.mark .leftParen)) :
    Reads stringEnum (.identifier name :: .mark .leftBrace :: (s₁ ++ (s₂ ++ r)))
      (.unsupported "Senum" name) r := by
  refine (reads_identifier _ _).bind ((reads_mark _ _).bind ?_)
  refine Reads.bind (a := ()) (r := s₂ ++ r) ?_ ((reads_annotations h₂ hr).discard.bind (.pure _ r))
  obtain ⟨h₁⟩ := h₁
  have units : Closed .rightBrace (fun s (_ : Unit) => ∃ c, Separated StringForm s c) _ _ :=
    .mk (h₁.map (g := fun _ => ()) fun _ content h => ⟨content, h⟩)
  refine (reads_manyClosed closes_rightBrace ?_ units ?_ _).discard
  · rintro _ _ ⟨_, ⟨⟨⟩, -⟩⟩
    exact ⟨_, rfl, rfl⟩
  · rintro _ _ _ ⟨_, hs⟩ - hr
    exact reads_enumString hs hr

theorem reads_service {name : Text} {s₁ s₂ s₃ r : List Lexeme} {base : Option Text}
    {functions : List Function} {as : Assoc Text Text}
    (h₁ : After (.keyword .extendsService) IdentifierForm s₁ base)
    (h₂ : Closed .rightBrace FunctionForm s₂ functions) (h₃ : AnnotationsForm s₃ as)
    (hr : r.head? ≠ some (.mark .leftParen)) :
    Reads service (.identifier name :: (s₁ ++ .mark .leftBrace :: (s₂ ++ (s₃ ++ r))))
      (.service name base functions) r := by
  rw [service_eq]
  refine (reads_identifier _ _).bind ((reads_optionally h₁ (by simp) ?_).bind ?_)
  · rintro _ name ⟨⟩
    exact reads_identifier name _
  refine (reads_mark _ _).bind ((reads_manyClosed closes_rightBrace (fun _ _ => begins_function) h₂
    (fun _ _ _ hf _ hr => reads_function hf hr) _).bind ?_)
  exact (reads_annotations h₃ hr).discard.bind (.pure _ r)

/-! ## Documents -/

theorem reads_keyword {k : Keyword} {p : Parser Statement} (hk : statementOf k = some p)
    {s r : List Lexeme} {a : Statement} (hp : Reads p s a r) :
    Reads statement (.keyword k :: s) a r := by
  refine (reads_peek _).bind ?_
  dsimp only [List.head?_cons]
  rw [hk]
  exact (reads_advance _ s).bind hp

/-- A definition is read whole, and with it a separator that follows it where
    one could end the definition. -/
theorem reads_definition {s r : List Lexeme} {d : Definition} (h : DefinitionForm s d)
    (hr : r.head? ≠ some (.mark .leftParen)) :
    ∃ t r', SeparatorForm t ∧ r = t ++ r' ∧ Reads statement (s ++ r) (.definition d) r' := by
  cases h with
  | const h₁ h₂ h₃ =>
    obtain ⟨t, r', ht, e, hsep⟩ := reads_some_separator h₃ r
    refine ⟨t, r', ht, e, ?_⟩
    simpa only [List.append_assoc, List.cons_append] using
      reads_keyword (k := .const) rfl ((reads_const h₁ h₂ hsep).map _)
  | typedef h₁ h₂ h₃ =>
    obtain ⟨t, r', ht, e, hsep⟩ := reads_some_separator h₃ r
    refine ⟨t, r', ht, e, ?_⟩
    simpa only [List.append_assoc, List.cons_append] using
      reads_keyword (k := .typedef) rfl
        ((reads_typedef h₁ h₂ (head_ne_separator h₃ (by decide) hr) hsep).map _)
  | enum h₁ h₂ =>
    refine ⟨[], r, .none, rfl, ?_⟩
    simpa only [List.append_assoc, List.cons_append] using
      reads_keyword (k := .enum) rfl ((reads_enum h₁ h₂ hr).map _)
  | senum h₁ h₂ =>
    refine ⟨[], r, .none, rfl, ?_⟩
    simpa only [List.append_assoc, List.cons_append] using
      reads_keyword (k := .senum) rfl ((reads_stringEnum h₁ h₂ hr).map _)
  | record form h₁ h₂ h₃ =>
    refine ⟨[], r, .none, rfl, ?_⟩
    have hk : statementOf (recordKeyword form) = some (.definition <$> record form) := by
      cases form <;> rfl
    simpa only [List.append_assoc, List.cons_append] using
      reads_keyword hk ((reads_record form h₁ h₂ h₃ hr).map _)
  | service h₁ h₂ h₃ =>
    refine ⟨[], r, .none, rfl, ?_⟩
    simpa only [List.append_assoc, List.cons_append] using
      reads_keyword (k := .service) rfl ((reads_service h₁ h₂ h₃ hr).map _)

/-- A statement is read whole, and possibly with it a separator that follows. -/
theorem reads_statement {s r : List Lexeme} {a : Statement} (h : StatementForm s a)
    (hr : r.head? ≠ some (.mark .leftParen)) :
    ∃ t r', SeparatorForm t ∧ r = t ++ r' ∧ Reads statement (s ++ r) a r' := by
  cases h with
  | definition h => exact reads_definition h hr
  | include_ path =>
    exact ⟨[], r, .none, rfl, reads_keyword (k := .includeFile) rfl ((reads_string path r).map _)⟩
  | includeNative path =>
    exact ⟨[], r, .none, rfl, reads_keyword (k := .includeNative) rfl ((reads_string path r).map _)⟩
  | namespace_ scope name =>
    exact ⟨[], r, .none, rfl, reads_keyword (k := .namespaceOf) rfl
      ((reads_anyToken scope _).bind ((reads_identifier name r).bind (.pure _ r)))⟩
  | comma => exact ⟨[], r, .none, rfl, (reads_peek _).bind ((reads_advance _ r).bind (.pure _ r))⟩
  | semicolon =>
    exact ⟨[], r, .none, rfl, (reads_peek _).bind ((reads_advance _ r).bind (.pure _ r))⟩

theorem begins_definition {s : List Lexeme} {d : Definition} (h : DefinitionForm s d) :
    ∃ k, s.head? = some (.keyword k) := by
  cases h <;> exact ⟨_, rfl⟩

/-- A statement that begins with a mark is a separator. -/
theorem separator_of_mark {m : Mark} {s t r : List Lexeme} {a : Statement}
    (h : StatementForm s a) (e : .mark m :: r = s ++ t) :
    (m = .comma ∨ m = .semicolon) ∧ a = .separator ∧ t = r := by
  cases h with
  | definition h =>
    obtain ⟨k, hk⟩ := begins_definition h
    have := congrArg List.head? e
    simp [hk] at this
  | comma | semicolon => cases e; simp
  | include_ | includeNative | namespace_ => cases e

theorem many_of_mark {m : Mark} {r : List Lexeme} {as : List Statement}
    (h : Many StatementForm (.mark m :: r) as) :
    (m = .comma ∨ m = .semicolon) ∧ ∃ as', as = .separator :: as' ∧ Many StatementForm r as' := by
  generalize e : Lexeme.mark m :: r = s at h
  cases h with
  | nil => cases e
  | cons h hs =>
    obtain ⟨hm, rfl, rfl⟩ := separator_of_mark h e
    exact ⟨hm, _, rfl, hs⟩

theorem head_ne_leftParen {s : List Lexeme} {as : List Statement} (h : Many StatementForm s as) :
    s.head? ≠ some (.mark .leftParen) := by
  intro e
  obtain ⟨t, rfl⟩ := List.head?_eq_some_iff.1 e
  simpa using (many_of_mark h).1

/-- The statements that say something. -/
def telling (statements : List Statement) : List Statement :=
  statements.filter fun | .separator => false | _ => true

theorem ofStatements_telling (statements : List Statement) :
    Document.ofStatements (telling statements) = .ofStatements statements := by
  have silent {β : Type} (f : Statement → Option β) (hf : f .separator = none) :
      (telling statements).filterMap f = statements.filterMap f := by
    induction statements with
    | nil => rfl
    | cons a as ih => cases a <;> simp_all [telling, List.filterMap_cons]
  rw [Document.ofStatements, silent Statement.includedPath? rfl, silent Statement.namespace? rfl,
    silent Statement.definition? rfl, Document.ofStatements]

theorem exists_of_separator {t r : List Lexeme} {as : List Statement} (ht : SeparatorForm t)
    (h : Many StatementForm (t ++ r) as) :
    ∃ as', Many StatementForm r as' ∧ telling as' = telling as := by
  cases ht with
  | none => exact ⟨as, h, rfl⟩
  | comma | semicolon =>
    obtain ⟨-, as', rfl, hs⟩ := many_of_mark h
    exact ⟨as', hs, rfl⟩

theorem length_pos_of_statement {s : List Lexeme} {a : Statement} (h : StatementForm s a) :
    0 < s.length := by
  cases h with
  | definition h => cases h <;> simp
  | _ => simp

/-- The statements are read up to separators that come with another one. -/
theorem reads_statements {s : List Lexeme} {as : List Statement} (h : Many StatementForm s as)
    {bound : Nat} (hb : s.length ≤ bound) :
    ∃ as', Reads (manyUpTo none statement bound) s as' [] ∧ telling as' = telling as := by
  induction bound generalizing s as with
  | zero =>
    cases h with
    | nil => exact ⟨[], .pure _ _, rfl⟩
    | cons h _ =>
      have := length_pos_of_statement h
      simp only [List.length_append] at hb
      omega
  | succ bound ih =>
    cases h with
    | nil =>
      refine ⟨[], (reads_atClosing none []).bind ?_, rfl⟩
      exact .pure _ _
    | @cons s₁ s₂ a as h hs =>
      have pos := length_pos_of_statement h
      obtain ⟨t, r, ht, rfl, read⟩ := reads_statement h (head_ne_leftParen hs)
      obtain ⟨as₁, hs₁, e₁⟩ := exists_of_separator ht hs
      simp only [List.length_append] at hb
      obtain ⟨as₂, read₂, e₂⟩ := ih hs₁ (by omega)
      refine ⟨a :: as₂, (reads_atClosing none _).bind ?_, ?_⟩
      · rw [List.head?_append_of_ne_nil _ (List.length_pos_iff.1 pos),
          List.head?_eq_some_head (List.length_pos_iff.1 pos)]
        exact read.bind (read₂.bind (.pure _ _))
      · cases a <;> simp_all [telling]

/-- As many statements as there are tokens are all of them. -/
theorem rest_of_statements {bound : Nat} {tokens rest : List Token} {as : List Statement}
    (h : manyUpTo none statement bound tokens = .ok (as, rest)) (hb : tokens.length ≤ bound) :
    rest = [] := by
  induction bound generalizing tokens as with
  | zero =>
    obtain ⟨-, rfl⟩ := pure_eq_ok.1 h
    exact List.length_eq_zero_iff.1 (by omega)
  | succ bound ih =>
    rw [manyUpTo, atClosing_bind] at h
    split at h
    · next closed =>
      obtain ⟨-, rfl⟩ := pure_eq_ok.1 h
      cases tokens with
      | nil => rfl
      | cons t ts => simp at closed
    · obtain ⟨a, s, mid, hs, e, h⟩ := sound_statement.bind h
      obtain ⟨as', mid', h₁, h⟩ := bind_eq_ok.1 h
      obtain ⟨-, rfl⟩ := pure_eq_ok.1 h
      refine ih h₁ ?_
      have := length_pos_of_statement hs
      have := congrArg List.length e
      simp only [length_lexemes, List.length_append] at this
      omega

theorem sound_document {tokens rest : List Token} {d : Document}
    (h : document tokens = .ok (d, rest)) : DocumentForm (lexemes tokens) d := by
  obtain ⟨as, mid, h₁, h⟩ := bind_eq_ok.1 h
  obtain ⟨rfl, rfl⟩ := pure_eq_ok.1 h
  obtain ⟨s, e, hs⟩ := sound_manyUpTo sound_statement _ _ h₁
  rw [rest_of_statements h₁ (Nat.le_refl _), lexemes_nil, List.append_nil] at e
  rw [e]
  exact .mk hs

theorem reads_document {s : List Lexeme} {d : Document} (h : DocumentForm s d) :
    Reads document s d [] := by
  obtain ⟨h⟩ := h
  obtain ⟨as', read, e⟩ := reads_statements h (Nat.le_refl _)
  rw [← ofStatements_telling, ← e, ofStatements_telling]
  exact Reads.bind (.of_length read) (.pure _ [])

theorem parse_eq_ok {stream : TokenStream} {d : Document} :
    stream.parse = .ok d ↔ DocumentForm (lexemes stream.tokens) d := by
  rw [TokenStream.parse]
  constructor
  · intro h
    cases hd : document stream.tokens with
    | error e => simp [hd] at h
    | ok x =>
      obtain ⟨d', rest⟩ := x
      simp only [hd, Except.ok.injEq] at h
      exact h ▸ sound_document hd
  · intro h
    obtain ⟨rest, hd, -⟩ := reads_document h stream.tokens rfl
    rw [hd]

end IdlFlow.Parser
