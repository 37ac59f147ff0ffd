/-
  When a document can be rendered.

  * `ConstValue.integers`, `Definition.integers`: the integers that the
    declarations of a value or a definition write;
  * `Writable i`: the integer `i` has no more digits than may be written;
  * `StandsFor s i`: one of the lexemes `s` is a numeral of the integer `i`.

  Main statement: a document that a text declares is rendered, whatever its path
  and the options, exactly if all its integers are writable, and fails with their
  error else; those of decimal numerals always are, so that only hexadecimal
  numerals stop a text (`Document.rendered_iff`).  There are such texts
  (`not_rendered_hexadecimal`).
-/
import Mathlib.Algebra.Group.Nat.Defs
import IdlFlow.Proofs.Neighbours
import IdlFlow.Proofs.Printing

namespace IdlFlow

/-! ## Integers -/

/-- The integer has no more digits than may be written. -/
def Writable (i : Int) : Prop := (Decimal.digits i.natAbs).length ≤ digitLimit

theorem writable_iff {i : Int} : Writable i ↔ i.natAbs < 10 ^ digitLimit :=
  Nat.length_toDigits_le_iff (by decide) (by decide)

namespace ConstValue

mutual

/-- The integers in a value. -/
def integers : ConstValue → List Int
  | .integer i => [i]
  | .list items => integersOfItems items
  | .map entries => integersOfEntries entries
  | _ => []

def integersOfItems : List ConstValue → List Int
  | [] => []
  | item :: items => item.integers ++ integersOfItems items

def integersOfEntries : List (ConstValue × ConstValue) → List Int
  | [] => []
  | (key, value) :: entries => key.integers ++ value.integers ++ integersOfEntries entries

end

theorem integers_list (items : List ConstValue) :
    (list items).integers = items.flatMap integers := by
  rw [integers]
  induction items with
  | nil => rfl
  | cons item items ih => rw [integersOfItems, ih, List.flatMap_cons]

theorem integers_map (entries : List (ConstValue × ConstValue)) :
    (map entries).integers =
      entries.flatMap fun entry => entry.1.integers ++ entry.2.integers := by
  rw [integers]
  induction entries with
  | nil => rfl
  | cons entry entries ih => rw [integersOfEntries, ih, List.flatMap_cons]

end ConstValue

/-- The integers that the declarations of a definition write. -/
def Definition.integers : Definition → List Int
  | .const _ _ value => value.integers
  | .enum _ values => EnumValue.numbers values
  | _ => []

/-! ## Texts of values -/

section Results

variable {ε α β : Type} {x : Except ε α}

theorem isOk_bind {f : α → Except ε β} {p : Prop} (h : ∀ a, (f a).isOk = true ↔ p) :
    (x >>= f).isOk = true ↔ x.isOk = true ∧ p := by
  cases x with
  | error e =>
    show false = true ↔ false = true ∧ p
    simp
  | ok a =>
    show (f a).isOk = true ↔ true = true ∧ p
    simp [h a]

theorem isOk_map {f : α → β} : (x >>= fun a => pure (f a)).isOk = true ↔ x.isOk = true := by
  rw [isOk_bind (p := True) fun a => iff_of_true rfl trivial, and_true]

theorem isOk_mapM {f : α → Except ε β} {as : List α} :
    (as.mapM f).isOk = true ↔ ∀ a ∈ as, (f a).isOk = true := by
  induction as with
  | nil => exact iff_of_true rfl (by simp)
  | cons a as ih =>
    rw [List.mapM_cons, List.forall_mem_cons, ← ih]
    exact isOk_bind fun b => isOk_map

end Results

theorem isOk_writeInteger {i : Int} : (writeInteger i).isOk = true ↔ Writable i := by
  unfold writeInteger Decimal.numeral? Writable
  by_cases short : (Decimal.digits i.natAbs).length ≤ digitLimit
  · rw [if_pos short]
    exact iff_of_true rfl short
  · rw [if_neg short]
    exact iff_of_false Bool.false_ne_true short

namespace ValueExpr

variable (rename : Text → Text) (keys : EnumKeys)

theorem isOk_ofReference (reference : Text) :
    (ofReference rename keys reference).text.isOk = true := by
  rcases ofReference_cases rename keys reference with ⟨_, _, -, eq⟩ | eq
  · rw [eq]
    rfl
  · rw [eq]
    rfl

mutual

/-- **A value can be written if its integers can.** -/
theorem isOk_ofConst : ∀ v : ConstValue,
    (ofConst rename keys v).text.isOk = true ↔ ∀ i ∈ v.integers, Writable i
  | .string _ | .double _ | .bool _ | .verbatim _ => iff_of_true rfl (by simp [ConstValue.integers])
  | .identifier reference =>
    iff_of_true (isOk_ofReference rename keys reference) (by simp [ConstValue.integers])
  | .integer i => by
    rw [ConstValue.integers, List.forall_mem_singleton]
    exact isOk_writeInteger
  | .list items => isOk_map.trans (isOk_ofConsts items)
  | .map entries => isOk_map.trans (isOk_ofEntries entries)

theorem isOk_ofConsts : ∀ items : List ConstValue,
    (texts (ofConsts rename keys items)).isOk = true ↔
      ∀ i ∈ ConstValue.integersOfItems items, Writable i
  | [] => iff_of_true rfl (by simp [ConstValue.integersOfItems])
  | item :: items => by
    rw [ConstValue.integersOfItems, List.forall_mem_append, ← isOk_ofConst item,
      ← isOk_ofConsts items]
    exact isOk_bind fun _ => isOk_map

theorem isOk_ofEntries : ∀ entries : List (ConstValue × ConstValue),
    (entryTexts (ofEntries rename keys entries)).isOk = true ↔
      ∀ i ∈ ConstValue.integersOfEntries entries, Writable i
  | [] => iff_of_true rfl (by simp [ConstValue.integersOfEntries])
  | (key, value) :: entries => by
    rw [ConstValue.integersOfEntries, List.forall_mem_append, List.forall_mem_append,
      ← isOk_ofConst key, ← isOk_ofConst value, ← isOk_ofEntries entries, and_assoc]
    exact isOk_bind fun _ => isOk_bind fun _ => isOk_map

end

end ValueExpr

/-! ## Blocks -/

theorem Declaration.isOk_block {declarations : List Declaration} :
    (block declarations).isOk = true ↔ ∀ d ∈ declarations, d.text.isOk = true :=
  isOk_map.trans isOk_mapM

theorem Declaration.isOk_single {d : Declaration} :
    (block [d]).isOk = true ↔ d.text.isOk = true := by
  rw [isOk_block, List.forall_mem_singleton]

/-- Of the types only unions of integers may have no text. -/
theorem TypeBody.isOk_text {body : TypeBody} (h : ∀ values, body ≠ .numbers values) :
    body.text.isOk = true := by
  unfold text
  split
  case h_8 values => exact absurd rfl (h values)
  all_goals rfl

theorem isOk_enumDeclarations {scope : Scope} {name : Text} {values : List EnumValue} :
    (Declaration.block (enumDeclarations scope name values)).isOk = true ↔
      ∀ i ∈ EnumValue.numbers values, Writable i := by
  have numbers (exported : Text) :
      (Declaration.type exported (.numbers (EnumValue.numbers values))).text.isOk = true ↔
        ∀ i ∈ EnumValue.numbers values, Writable i := by
    have written : ((EnumValue.numbers values).mapM writeInteger).isOk = true ↔
        ∀ i ∈ EnumValue.numbers values, Writable i := by
      simp only [isOk_mapM, isOk_writeInteger]
    exact isOk_map.trans (isOk_map.trans written)
  have keys (exported : Text) :
      (Declaration.type exported (.keys (values.map EnumValue.name))).text.isOk = true := rfl
  rw [Declaration.isOk_block, enumDeclarations]
  split
  · rw [List.forall_mem_cons, List.forall_mem_singleton, numbers]
    exact and_iff_left (keys _)
  · rw [List.forall_mem_cons, List.forall_mem_singleton, numbers]
    exact and_iff_left (keys _)

/-- **A definition can be written if its integers can.** -/
theorem Definition.isOverlong_eq_false {scope : Scope} {d : Definition} :
    d.isOverlong scope = false ↔ ∀ i ∈ d.integers, Writable i := by
  have block : d.isOverlong scope = false ↔ ∀ x ∈ d.block? scope, x.isOk = true := by
    unfold isOverlong
    rcases d.block? scope with _ | _ | _ <;> simp [Except.isOk, Except.toBool]
  -- What is declared as a type without integers has nothing to go wrong.
  have plain {name : Text} {body : TypeBody} (h : ∀ values, body ≠ .numbers values) :
      (Declaration.block [.type name body]).isOk = true :=
    Declaration.isOk_single.2 (isOk_map.2 (body.isOk_text h))
  rw [block]
  cases d with
  | record form name fields =>
    refine iff_of_true ?_ (by simp [integers])
    cases form with
    | union | struct | exception =>
      rintro _ ⟨⟩
      exact plain (by simp)
  | typedef name type =>
    refine iff_of_true ?_ (by simp [integers])
    rintro _ ⟨⟩
    exact plain (by simp)
  | service name base functions =>
    refine iff_of_true ?_ (by simp [integers])
    rintro _ ⟨⟩
    exact plain (by simp)
  | unsupported what name =>
    refine iff_of_true ?_ (by simp [integers])
    rintro _ ⟨⟩
  | enum name values =>
    have written := @isOk_enumDeclarations scope name values
    constructor
    · intro h
      exact written.1 (h _ rfl)
    · rintro h _ ⟨⟩
      exact written.2 h
  | const name type value =>
    have written : (Declaration.block [.const (scope.rename name) (scope.type type)
        (scope.value value)]).isOk = true ↔ ∀ i ∈ value.integers, Writable i :=
      Declaration.isOk_single.trans
        (isOk_map.trans (ValueExpr.isOk_ofConst scope.rename scope.keys value))
    constructor
    · intro h
      exact written.1 (h _ rfl)
    · rintro h _ ⟨⟩
      exact written.2 h

theorem any_isOverlong_eq_false (scope : Scope) {ds : List Definition} :
    ds.any (·.isOverlong scope) = false ↔ ∀ d ∈ ds, ∀ i ∈ d.integers, Writable i := by
  simp only [List.any_eq_false, Bool.not_eq_true, Definition.isOverlong_eq_false]

/-- **A file is made if the integers can be written.** -/
theorem Program.exists_text_iff {here timestamp : Text} {options : FileOptions} {p : Program}
    {imports : List Import} (imported : p.imports? here = some imports) :
    (∃ text, (p.generate here timestamp options).text = .ok text) ↔
      ∀ d ∈ p.definitions, ∀ i ∈ d.integers, Writable i := by
  rw [← any_isOverlong_eq_false (options.scope p.definitions)]
  constructor
  · rintro ⟨text, made⟩
    exact (text_generate_eq_ok.1 made).1
  · intro short
    exact ⟨_, text_generate_eq_ok.2 ⟨short, imports, imported, rfl⟩⟩

/-! ## Numerals -/

namespace Numeral

variable {n : Numeral} {i : Int}

theorem hexValue?_lt {c : Char} {v : Nat} (h : hexValue? c = some v) : v < 16 := by
  simp only [hexValue?, Char.le_def, UInt32.le_iff_toNat_le] at h
  have codes : ('0' : Char).toNat = 48 ∧ ('a' : Char).toNat = 97 ∧ ('A' : Char).toNat = 65 ∧
      ('9' : Char).val.toNat = 57 ∧ ('f' : Char).val.toNat = 102 ∧ ('F' : Char).val.toNat = 70 := by
    decide
  have code : c.toNat = c.val.toNat := rfl
  split at h
  · cases h
    omega
  · split at h
    · cases h
      omega
    · split at h
      · cases h
        omega
      · cases h

/-- Hexadecimal digits stand for less than their number of places allows. -/
theorem hexadecimalValue_lt (digits : Text) : hexadecimalValue digits < 16 ^ digits.length := by
  suffices h : ∀ start, digits.foldl (fun n c => 16 * n + (hexValue? c).getD 0) start <
      (start + 1) * 16 ^ digits.length by
    simpa [hexadecimalValue] using h 0
  induction digits with
  | nil => simp
  | cons c digits ih =>
    intro start
    have digit : (hexValue? c).getD 0 < 16 := by
      cases value : hexValue? c with
      | none => decide
      | some v => exact hexValue?_lt value
    calc (c :: digits).foldl (fun n c => 16 * n + (hexValue? c).getD 0) start
        < (16 * start + (hexValue? c).getD 0 + 1) * 16 ^ digits.length := ih _
      _ ≤ (start + 1) * 16 * 16 ^ digits.length := Nat.mul_le_mul_right _ (by omega)
      _ = (start + 1) * 16 ^ (c :: digits).length := by
        rw [List.length_cons, Nat.pow_succ', Nat.mul_assoc]

/-- Digits that are read are decimal ones, and stand for less than their number
    of places allows. -/
theorem decimalValue?_lt {digits : Text} {v : Nat} (h : decimalValue? digits = some v) :
    (∀ c ∈ digits, (Text.decimalValue? c).isSome = true) ∧ v < 10 ^ digits.length := by
  suffices all : ∀ start, digits.foldlM
      (fun n c => (Text.decimalValue? c).map (10 * n + ·)) start = some v →
      (∀ c ∈ digits, (Text.decimalValue? c).isSome = true) ∧
        v < (start + 1) * 10 ^ digits.length by
    simpa using all 0 h
  clear h
  induction digits with
  | nil =>
    intro start h
    cases h
    simp
  | cons c digits ih =>
    intro start h
    rw [List.foldlM_cons] at h
    obtain ⟨next, step, h⟩ := Option.bind_eq_some_iff.1 h
    obtain ⟨digit, value, rfl⟩ := Option.map_eq_some_iff.1 step
    obtain ⟨decimal, less⟩ := ih _ h
    have small : digit < 10 := Text.decimalValue?_lt value
    refine ⟨List.forall_mem_cons.2 ⟨by rw [value]; rfl, decimal⟩, ?_⟩
    calc v < (10 * start + digit + 1) * 10 ^ digits.length := less
      _ ≤ (start + 1) * 10 * 10 ^ digits.length := Nat.mul_le_mul_right _ (by omega)
      _ = (start + 1) * 10 ^ (c :: digits).length := by
        rw [List.length_cons, Nat.pow_succ', Nat.mul_assoc]

/-- The integer of a numeral is writable if the numeral is decimal, or has few
    enough hexadecimal digits. -/
theorem writable_of_integer (h : n.integer = .ok i) : Writable i ∨
    ∃ letter digits, n.magnitude = .hexadecimal letter digits ∧
      10 ^ digitLimit < 16 ^ digits.length := by
  obtain ⟨value, read, eq⟩ := ok_of_bind h
  have size : i.natAbs = value := by
    cases eq
    split <;> omega
  rw [writable_iff, size]
  cases magnitude : n.magnitude with
  | hexadecimal letter digits =>
    rw [magnitude] at read
    have less : value < 16 ^ digits.length := by
      cases digits with
      | nil => cases read
      | cons c digits =>
        cases read
        exact hexadecimalValue_lt _
    by_cases short : value < 10 ^ digitLimit
    · exact .inl short
    · exact .inr ⟨letter, digits, rfl, by omega⟩
  | decimal whole fraction power =>
    left
    rw [magnitude, absolute] at read
    split at read
    · cases read
    · next within =>
      split at read
      · cases read
      · split at read
        · next found =>
          cases read
          obtain ⟨decimal, less⟩ := decimalValue?_lt found
          have run : digitRun whole = whole.length := by
            rw [digitRun, List.takeWhile_eq_self_iff.2 decimal]
          exact less.trans_le (Nat.pow_le_pow_right (by decide) (by omega))
        · cases read

end Numeral

/-! ## Integers of texts -/

namespace Grammar

variable {s t : List Lexeme} {i : Int}

/-- One of the lexemes is a numeral of the integer. -/
def StandsFor (s : List Lexeme) (i : Int) : Prop :=
  ∃ n : Numeral, .numeral n ∈ s ∧ n.integer = .ok i

theorem StandsFor.of_subset (h : StandsFor t i) (sub : t ⊆ s) : StandsFor s i :=
  h.imp fun _ found => ⟨sub found.1, found.2⟩

/-- By induction on a bound on the lexemes, as the values within a value have
    fewer. -/
theorem ValueForm.standsFor_le (bound : Nat) : ∀ {s : List Lexeme} {v : ConstValue},
    s.length ≤ bound → ValueForm s v → ∀ i ∈ v.integers, StandsFor s i := by
  induction bound with
  | zero =>
    intro s v bound form
    exact absurd (List.length_eq_zero_iff.1 (Nat.le_zero.1 bound)) form.ne_nil
  | succ n ih =>
    intro s v bound form i mem
    cases form with
    | @integer n j _ value =>
      rw [ConstValue.integers, List.mem_singleton] at mem
      exact ⟨n, List.mem_singleton_self _, mem ▸ value⟩
    | @list s items form =>
      rw [ConstValue.integers_list] at mem
      obtain ⟨item, hi, mem⟩ := List.mem_flatMap.1 mem
      obtain ⟨u, sub, separated⟩ := form.exists_of_mem item hi
      obtain ⟨t, sub', value⟩ := separated.exists
      have within := sub'.trans sub
      exact (ih (length_le_of_cons bound within) value i mem).of_subset
        (List.subset_cons_of_subset _ within.subset)
    | @map s entries form =>
      rw [ConstValue.integers_map] at mem
      obtain ⟨entry, he, mem⟩ := List.mem_flatMap.1 mem
      obtain ⟨u, sub, separated⟩ := form.exists_of_mem entry he
      obtain ⟨_, sub', @⟨t, t', key, value, hk, hv⟩⟩ := separated.exists
      have within := sub'.trans sub
      have first := (List.sublist_append_left t (.mark .colon :: t')).trans within
      have second :=
        ((List.sublist_cons_self _ t').trans (List.sublist_append_right t _)).trans within
      rcases List.mem_append.1 mem with mem | mem
      · exact (ih (length_le_of_cons bound first) hk i mem).of_subset
          (List.subset_cons_of_subset _ first.subset)
      · exact (ih (length_le_of_cons bound second) hv i mem).of_subset
          (List.subset_cons_of_subset _ second.subset)
    | double | string | true | false | identifier => cases mem

theorem EnumValueForm.standsFor {v : EnumValue} (form : EnumValueForm s v)
    (numbered : v.number = some i) : StandsFor s i := by
  cases form with
  | mk number _ _ =>
    cases number with
    | none => cases numbered
    | some form =>
      obtain ⟨integer, value⟩ := form
      cases numbered
      exact ⟨_, by simp, value⟩

/-- The integers of a definition stand in its text, but for the indices that
    enum values without a number have. -/
theorem DefinitionForm.standsFor {d : Definition} (form : DefinitionForm s d) :
    ∀ i ∈ d.integers, StandsFor s i ∨
      ∃ name values, d = .enum name values ∧ i.natAbs < values.length := by
  intro i mem
  cases form with
  | const type value separator =>
    refine .inl ((value.standsFor_le _ (Nat.le_refl _) i mem).of_subset fun l mem => ?_)
    simp [mem]
  | @enum name s₁ values s₂ annotations closed _ =>
    obtain ⟨index, bound, rfl⟩ := List.mem_mapIdx.1 mem
    cases number : values[index].number with
    | none => exact .inr ⟨name, values, rfl, bound⟩
    | some j =>
      obtain ⟨t, sub, form⟩ := closed.exists_of_mem _ (List.getElem_mem bound)
      refine .inl ((form.standsFor number).of_subset fun l mem => ?_)
      simp [sub.subset mem]
  | typedef | senum | record | service => cases mem

theorem StatementForm.standsFor {statement : Statement} {d : Definition}
    (form : StatementForm s statement) (defines : statement.definition? = some d) :
    ∀ i ∈ d.integers, StandsFor s i ∨
      ∃ name values, d = .enum name values ∧ i.natAbs < values.length := by
  cases form with
  | definition form =>
    cases defines
    exact form.standsFor
  | _ => cases defines

theorem DocumentForm.standsFor {document : Document} (form : DocumentForm s document) :
    ∀ d ∈ document.definitions, ∀ i ∈ d.integers, StandsFor s i ∨
      ∃ name values, d = .enum name values ∧ i.natAbs < values.length := by
  obtain ⟨many⟩ := form
  intro d mem i hi
  obtain ⟨statement, hs, defines⟩ := List.mem_filterMap.1 mem
  obtain ⟨t, sub, form⟩ := many.exists_of_mem statement hs
  rcases form.standsFor defines i hi with found | index
  · exact .inl (found.of_subset sub.subset)
  · exact .inr index

end Grammar

/-! ## Documents -/

theorem text_generate_single (here timestamp path : Text) (options : FileOptions)
    (document : Document) :
    ((Program.single path document).generate here timestamp options).text =
      if document.definitions.any (·.isOverlong (options.scope document.definitions)) then
        .error (.write .tooManyDigits)
      else .ok (Layout.format (DeclarationFile.text
        ⟨timestamp, options.source (.single path document), [],
          document.definitions.filterMap (·.written? (options.scope document.definitions))⟩)) := by
  have definitions : (Program.single path document).definitions = document.definitions := by
    simp [Program.definitions, Program.single, Assoc.find?]
  have imports : (Program.single path document).imports? here = some [] := by
    simp [Program.imports?, Program.paths, Program.single, Assoc.keys]
  rw [text_generate, definitions, imports]
  rfl

/-- **Rendering fails at integers with too many digits only**, which a text has
    as hexadecimal numerals or not at all. -/
theorem Document.rendered_iff {s : Text} {document : Document}
    (parsed : Document.parse s = .ok document) (here timestamp path : Text)
    (options : FileOptions) :
    ((∃ text, ((Program.single path document).generate here timestamp options).text = .ok text) ↔
      ∀ d ∈ document.definitions, ∀ i ∈ d.integers, Writable i) ∧
    (∀ e, ((Program.single path document).generate here timestamp options).text = .error e →
      e = .write .tooManyDigits) ∧
    ∀ d ∈ document.definitions, ∀ i ∈ d.integers, Writable i ∨
      (∃ n letter digits, .numeral n ∈ (TokenStream.ofText s).tokens.map Token.lexeme ∧
        n.integer = .ok i ∧ n.magnitude = .hexadecimal letter digits ∧
        10 ^ digitLimit < 16 ^ digits.length) ∨
      ∃ name values, d = .enum name values ∧ 10 ^ digitLimit < values.length := by
  rw [text_generate_single]
  refine ⟨?_, fun e failed => ?_, fun d mem i hi => ?_⟩
  · rw [← any_isOverlong_eq_false (options.scope document.definitions)]
    split
    · next overlong => simp [overlong]
    · next short => simpa using short
  · split at failed
    · exact (Except.error.inj failed).symm
    · cases failed
  · by_cases short : Writable i
    · exact .inl short
    · right
      rcases (Parser.parse_eq_ok.1 parsed).standsFor d mem i hi with ⟨n, found, value⟩ | index
      · left
        obtain short' | ⟨letter, digits, magnitude, long⟩ := Numeral.writable_of_integer value
        · exact absurd short' short
        · exact ⟨n, letter, digits, found, value, magnitude, long⟩
      · right
        obtain ⟨name, values, rfl, bound⟩ := index
        rw [writable_iff] at short
        exact ⟨name, values, rfl, by omega⟩

/-- Integers of both bases, and an enum value with its index for a number. -/
def numberedSource : Text := "const list<i32> L = [0x1F, -2] enum E { A = 7 B }"

def numberedDocument : Document :=
  ⟨[], [], [.const "L" (.list (.base "i32" [])) (.list [.integer 31, .integer (-2)]),
    .enum "E" [⟨"A", some 7⟩, ⟨"B", none⟩]]⟩

theorem Document.rendered_numbered : Document.parse numberedSource = .ok numberedDocument ∧
    ∃ text, ((Program.single "/idl/main.thrift" numberedDocument).generate "/" "now"
      .default).text = .ok text := by
  have parsed : Document.parse numberedSource = .ok numberedDocument := by decide +kernel
  have writable : ∀ d ∈ numberedDocument.definitions, ∀ i ∈ d.integers, Writable i := by
    unfold Writable
    decide
  exact ⟨parsed, (rendered_iff parsed "/" "now" "/idl/main.thrift" .default).1.2 writable⟩

/-- A constant with one hexadecimal digit more than decimal ones may be
    written. -/
def longSource : Text := "const i32 X = 0x1" ++ List.replicate digitLimit '0'

/-- **A text is read whose integer cannot be written.** -/
theorem not_rendered_hexadecimal : ∃ document, Document.parse longSource = .ok document ∧
    ((Program.single "/idl/main.thrift" document).generate "/" "now" .default).text =
      .error (.write .tooManyDigits) := by
  refine ⟨⟨[], [], [.const "X" (.base "i32" []) (.integer (16 ^ digitLimit))]⟩, ?_, ?_⟩
  · decide +kernel
  · decide +kernel

end IdlFlow
