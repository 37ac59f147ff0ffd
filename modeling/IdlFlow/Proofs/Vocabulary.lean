/-
  What documents are written with.

  * `IsWord name`: `name` is made of the characters of words;
  * `Lexeme.Proper l`: a name is a word, and the content of a string does not
    end in a bare backslash;
  * `TypeRef.Spelled`, `ConstValue.Spelled` and `Definition.Spelled`: all names
    and strings of a type, a value or a definition are proper ones, and no value
    is written out beforehand.

  Main statement: a document that a text with closed strings declares has only
  spelled definitions (`spelled_of_parse`).
-/
import IdlFlow.Proofs.Completeness
import IdlFlow.Proofs.Lexing

namespace IdlFlow

/-! ## Words and strings -/

/-- The text is made of characters of words. -/
def IsWord (name : Text) : Prop := name ≠ [] ∧ ∀ c ∈ name, Piece.continuesWord c = true

/-- Names are words, and no string ends in a bare backslash. -/
def Lexeme.Proper : Lexeme → Prop
  | identifier name => IsWord name
  | string content => Position.dangles content = false
  | _ => True

/-- Whether the piece has its closing quote, if it is a quoted text. -/
def Piece.isClosed : Piece → Bool
  | quoted _ _ closed => closed
  | _ => true

namespace Piece

/-- **What closed pieces say is proper.** -/
theorem Cut.proper {piece : Piece} {rest : Text} {l : Lexeme} (h : Cut piece (some l) rest)
    (closed : piece.isClosed = true) : l.Proper := by
  cases h with
  | quoted _ form => exact dangles_of_form form
  | torn => cases closed
  | identifier longest =>
    refine ⟨?_, longest.form.continues⟩
    rintro rfl
    cases longest.form
  | mark | numeral | keyword => trivial

theorem proper_ofText {s : Text} (closed : ∀ piece ∈ ofText s, piece.isClosed = true) :
    ∀ l ∈ (ofText s).filterMap lexeme?, l.Proper := by
  fun_induction ofText s with
  | case1 => simp
  | case2 c s ih =>
    intro l mem
    obtain ⟨piece, hp, said⟩ := List.mem_filterMap.1 mem
    rcases List.mem_cons.1 hp with rfl | hp
    · have cut := cut_take c s
      rw [said] at cut
      exact cut.proper (closed _ List.mem_cons_self)
    · refine ih (fun other h => closed other (List.mem_cons_of_mem _ h)) l ?_
      exact List.mem_filterMap.2 ⟨piece, hp, said⟩

end Piece

/-! ## Spelled data -/

/-- All names of the type are words or names of base types. -/
inductive TypeRef.Spelled : TypeRef → Prop
  | base {tag annotations} : tag ∈ voidTag :: baseTags → Spelled (.base tag annotations)
  | named {name} : IsWord name → Spelled (.named name)
  | list {item} : Spelled item → Spelled (.list item)
  | set {item} : Spelled item → Spelled (.set item)
  | map {key value} : Spelled key → Spelled value → Spelled (.map key value)

/-- All names of the value are words, no string of it ends in a bare backslash,
    and nothing is written out beforehand. -/
inductive ConstValue.Spelled : ConstValue → Prop
  | string {content} : Position.dangles content = false → Spelled (.string content)
  | integer (i) : Spelled (.integer i)
  | double (x) : Spelled (.double x)
  | bool (b) : Spelled (.bool b)
  | identifier {name} : IsWord name → Spelled (.identifier name)
  | list {items} : (∀ item ∈ items, Spelled item) → Spelled (.list items)
  | map {entries} : (∀ entry ∈ entries, Spelled entry.1) → (∀ entry ∈ entries, Spelled entry.2) →
      Spelled (.map entries)

/-- The name and the type of the field are spelled. -/
def Field.Spelled (f : Field) : Prop := IsWord f.name ∧ f.type.Spelled

/-- The names and the types of the function are spelled. -/
def Function.Spelled (f : Function) : Prop :=
  IsWord f.name ∧ f.returns.Spelled ∧ ∀ p ∈ f.parameters, p.Spelled

/-- The names, types and values of the definition are spelled. -/
def Definition.Spelled : Definition → Prop
  | .record _ name fields => IsWord name ∧ ∀ f ∈ fields, f.Spelled
  | .enum name values => IsWord name ∧ ∀ v ∈ values, IsWord v.name
  | .typedef name type => IsWord name ∧ type.Spelled
  | .service name _ functions => IsWord name ∧ ∀ f ∈ functions, f.Spelled
  | .const name type value => IsWord name ∧ type.Spelled ∧ value.Spelled
  | .unsupported _ name => IsWord name

/-! ## Forms of proper lexemes -/

namespace Grammar

variable {α : Type} {Item : List Lexeme → α → Prop} {s : List Lexeme}

/-- Every lexeme is proper. -/
def Proper (s : List Lexeme) : Prop := ∀ l ∈ s, l.Proper

theorem Proper.of_subset {t : List Lexeme} (h : Proper s) (sub : t ⊆ s) : Proper t :=
  fun l mem => h l (sub mem)

theorem Proper.of_cons {t : List Lexeme} {l : Lexeme} (h : Proper (l :: s)) (sub : t.Sublist s) :
    Proper t :=
  h.of_subset fun _ mem => List.mem_cons_of_mem _ (sub.subset mem)

/-- Within a text after its first lexeme there is one lexeme less. -/
theorem length_le_of_cons {t : List Lexeme} {l : Lexeme} {n : Nat} (h : (l :: s).length ≤ n + 1)
    (sub : t.Sublist s) : t.length ≤ n :=
  Nat.le_trans sub.length_le (Nat.le_of_succ_le_succ h)

theorem Proper.isWord (h : Proper s) {name : Text} (mem : .identifier name ∈ s) : IsWord name :=
  h _ mem

theorem Many.exists_of_mem {as : List α} (h : Many Item s as) :
    ∀ a ∈ as, ∃ t, t.Sublist s ∧ Item t a := by
  induction h with
  | nil => simp
  | @cons s t b as item _ ih =>
    intro a mem
    rcases List.mem_cons.1 mem with rfl | mem
    · exact ⟨s, List.sublist_append_left s t, item⟩
    · obtain ⟨u, sub, hu⟩ := ih a mem
      exact ⟨u, sub.trans (List.sublist_append_right s t), hu⟩

theorem Closed.exists_of_mem {closing : Mark} {as : List α} (h : Closed closing Item s as) :
    ∀ a ∈ as, ∃ t, t.Sublist s ∧ Item t a := by
  obtain ⟨many⟩ := h
  intro a mem
  obtain ⟨t, sub, item⟩ := many.exists_of_mem a mem
  exact ⟨t, sub.trans (List.sublist_append_left _ _), item⟩

theorem Separated.exists {a : α} (h : Separated Item s a) : ∃ t, t.Sublist s ∧ Item t a := by
  obtain ⟨item, -⟩ := h
  exact ⟨_, List.sublist_append_left _ _, item⟩

theorem Contained.exists {a : α} (h : Contained Item s a) : ∃ t, t.Sublist s ∧ Item t a := by
  obtain ⟨-, content, -⟩ := h
  refine ⟨_, List.Sublist.trans ?_ (List.sublist_append_left _ _), content⟩
  exact (List.sublist_cons_self _ _).trans (List.sublist_append_right _ _)

/-- By induction on a bound on the lexemes, as the types within a type have
    fewer. -/
theorem TypeForm.spelled_le (n : Nat) : ∀ {s : List Lexeme} {t : TypeRef}, s.length ≤ n →
    TypeForm s t → Proper s → t.Spelled := by
  induction n with
  | zero =>
    intro s t bound form _
    exact absurd (List.length_eq_zero_iff.1 (Nat.le_zero.1 bound)) form.ne_nil
  | succ n ih =>
    intro s t bound form proper
    cases form with
    | base mem _ => exact .base (List.mem_cons_of_mem _ mem)
    | named _ _ =>
      exact .named (proper.isWord List.mem_cons_self)
    | list form =>
      obtain ⟨u, sub, item⟩ := form.exists
      exact .list (ih (length_le_of_cons bound sub) item (proper.of_cons sub))
    | set form =>
      obtain ⟨u, sub, item⟩ := form.exists
      exact .set (ih (length_le_of_cons bound sub) item (proper.of_cons sub))
    | map form =>
      obtain ⟨_, sub, @⟨u, v, key, value, hu, hv⟩⟩ := form.exists
      have first := (List.sublist_append_left u (.mark .comma :: v)).trans sub
      have second := ((List.sublist_cons_self _ v).trans (List.sublist_append_right u _)).trans sub
      exact .map (ih (length_le_of_cons bound first) hu (proper.of_cons first))
        (ih (length_le_of_cons bound second) hv (proper.of_cons second))

theorem TypeForm.spelled {t : TypeRef} (form : TypeForm s t) (proper : Proper s) : t.Spelled :=
  spelled_le s.length (Nat.le_refl _) form proper

theorem ResultForm.spelled {t : TypeRef} (form : ResultForm s t) (proper : Proper s) :
    t.Spelled := by
  cases form with
  | void => exact .base List.mem_cons_self
  | type _ form => exact form.spelled proper

/-- By induction on a bound on the lexemes, as for types. -/
theorem ValueForm.spelled_le (n : Nat) : ∀ {s : List Lexeme} {v : ConstValue}, s.length ≤ n →
    ValueForm s v → Proper s → v.Spelled := by
  induction n with
  | zero =>
    intro s v bound form _
    exact absurd (List.length_eq_zero_iff.1 (Nat.le_zero.1 bound)) form.ne_nil
  | succ n ih =>
    intro s v bound form proper
    cases form with
    | integer _ _ => exact .integer _
    | double _ _ => exact .double _
    | string content =>
      have closed := proper _ List.mem_cons_self
      exact .string closed
    | true => exact .bool _
    | false => exact .bool _
    | identifier name =>
      exact .identifier (proper.isWord List.mem_cons_self)
    | @list s items form =>
      refine .list fun item mem => ?_
      obtain ⟨u, sub, separated⟩ := form.exists_of_mem item mem
      obtain ⟨t, sub', value⟩ := separated.exists
      have within := sub'.trans sub
      exact ih (length_le_of_cons bound within) value (proper.of_cons within)
    | @map s entries form =>
      have both : ∀ entry ∈ entries, entry.1.Spelled ∧ entry.2.Spelled := by
        intro entry mem
        obtain ⟨u, sub, separated⟩ := form.exists_of_mem entry mem
        obtain ⟨_, sub', @⟨t, t', key, value, hk, hv⟩⟩ := separated.exists
        have within := sub'.trans sub
        have first := (List.sublist_append_left t (.mark .colon :: t')).trans within
        have second :=
          ((List.sublist_cons_self _ t').trans (List.sublist_append_right t _)).trans within
        exact ⟨ih (length_le_of_cons bound first) hk (proper.of_cons first),
          ih (length_le_of_cons bound second) hv (proper.of_cons second)⟩
      exact .map (fun entry mem => (both entry mem).1) fun entry mem => (both entry mem).2

theorem ValueForm.spelled {v : ConstValue} (form : ValueForm s v) (proper : Proper s) :
    v.Spelled :=
  spelled_le s.length (Nat.le_refl _) form proper

/-! ## Definitions -/

theorem FieldForm.spelled {f : Field} (form : FieldForm s f) (proper : Proper s) : f.Spelled := by
  cases form with
  | mk _ _ type _ _ _ =>
    exact ⟨proper.isWord (by simp), type.spelled (proper.of_subset fun l mem => by simp [mem])⟩

/-- Each of closed items has what proper lexemes give one of them. -/
theorem Closed.all_of_proper {closing : Mark} {as : List α} {P : α → Prop}
    (h : Closed closing Item s as) (item : ∀ {t a}, Item t a → Proper t → P a)
    (proper : Proper s) : ∀ a ∈ as, P a := by
  intro a mem
  obtain ⟨t, sub, form⟩ := h.exists_of_mem a mem
  exact item form (proper.of_subset sub.subset)

theorem FunctionForm.spelled {f : Function} (form : FunctionForm s f) (proper : Proper s) :
    f.Spelled := by
  cases form with
  | mk _ result parameters _ _ _ =>
    obtain ⟨fields⟩ := parameters
    exact ⟨proper.isWord (by simp), result.spelled (proper.of_subset fun l mem => by simp [mem]),
      fields.all_of_proper FieldForm.spelled (proper.of_subset fun l mem => by simp [mem])⟩

theorem EnumValueForm.isWord {v : EnumValue} (form : EnumValueForm s v) (proper : Proper s) :
    IsWord v.name := by
  cases form with
  | mk _ _ _ =>
    exact proper.isWord (by simp)

theorem DefinitionForm.spelled {d : Definition} (form : DefinitionForm s d) (proper : Proper s) :
    d.Spelled := by
  cases form with
  | const type value _ =>
    exact ⟨proper.isWord (by simp), type.spelled (proper.of_subset fun l mem => by simp [mem]),
      value.spelled (proper.of_subset fun l mem => by simp [mem])⟩
  | typedef type _ _ =>
    exact ⟨proper.isWord (by simp), type.spelled (proper.of_subset fun l mem => by simp [mem])⟩
  | enum values _ =>
    exact ⟨proper.isWord (by simp), values.all_of_proper EnumValueForm.isWord
      (proper.of_subset fun l mem => by simp [mem])⟩
  | senum _ _ =>
    exact proper.isWord (by simp)
  | record _ _ fields _ =>
    exact ⟨proper.isWord (by simp), fields.all_of_proper FieldForm.spelled
      (proper.of_subset fun l mem => by simp [mem])⟩
  | service _ functions _ =>
    exact ⟨proper.isWord (by simp), functions.all_of_proper FunctionForm.spelled
      (proper.of_subset fun l mem => by simp [mem])⟩

theorem StatementForm.spelled {statement : Statement} {d : Definition}
    (form : StatementForm s statement) (proper : Proper s)
    (defines : statement.definition? = some d) : d.Spelled := by
  cases form with
  | definition form =>
    cases defines
    exact form.spelled proper
  | _ => cases defines

theorem DocumentForm.spelled {document : Document} (form : DocumentForm s document)
    (proper : Proper s) : ∀ d ∈ document.definitions, d.Spelled := by
  obtain ⟨many⟩ := form
  intro d mem
  obtain ⟨statement, hs, defines⟩ := List.mem_filterMap.1 mem
  obtain ⟨t, sub, form⟩ := many.exists_of_mem statement hs
  exact form.spelled (proper.of_subset sub.subset) defines

end Grammar

/-- **A text with closed strings declares spelled definitions only.** -/
theorem spelled_of_parse {s : Text} {document : Document} (parsed : Document.parse s = .ok document)
    (closed : ∀ piece ∈ Piece.ofText s, piece.isClosed = true) : ∀ d ∈ document.definitions, d.Spelled := by
  refine (Parser.parse_eq_ok.1 parsed).spelled ?_
  rw [Parser.lexemes, TokenStream.lexemes_ofText]
  exact Piece.proper_ofText closed

end IdlFlow
