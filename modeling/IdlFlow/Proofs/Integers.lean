/-
  Integers from their literals to the numerals that are written for them.

  * `Numeral.placeValue base digits`: what digits stand for in a base;
  * `IntegerLiteral t i`: the text `t` is a literal of the integer `i`, decimal
    or hexadecimal;
  * `Canonical i s`: the text `s` is a decimal numeral of `i` without a plus
    sign, zeros in front or a negative zero;
  * `ReadAs t i`: the text is one token, and is read as the integer where a
    value or the number of an enum key stands;
  * `WrittenAs i s`: the integer is written as the text, as a value and as the
    number of an enum key.

  Main statements: an integer has one canonical numeral, the one that is written
  for it (`canonical_iff`); and what a literal stands for is read, written
  canonically and read again, unless it is too long (`integer_kept`).
-/
import Mathlib.Data.Bool.AllAny
import Mathlib.Data.Nat.Digits.Defs
import IdlFlow.Proofs.Levels
import IdlFlow.Proofs.Rendering

namespace IdlFlow

namespace Numeral

/-! ## Place values -/

def tenDigits : Text := "0123456789"

/-- The hexadecimal digits, of either case. -/
def sixteenDigits : Text := "0123456789abcdefABCDEF"

def digitValue (c : Char) : Nat := ("0123456789abcdef" : Text).idxOf c.toLower

/-- What digits stand for in a base, the first one most significant. -/
def placeValue (base : Nat) (digits : Text) : Nat :=
  Nat.ofDigits base (digits.reverse.map digitValue)

/-- The integer of an absolute value after a sign or none. -/
def signed (sign : Option Char) (n : Nat) : Int := if sign = some '-' then -n else n

variable {c : Char} {digits : Text}

theorem placeValue_concat (base : Nat) (digits : Text) (c : Char) :
    placeValue base (digits ++ [c]) = base * placeValue base digits + digitValue c := by
  rw [placeValue, List.reverse_concat, List.map_cons, Nat.ofDigits_cons, Nat.add_comm]
  rfl

theorem isDigit_of_mem_tenDigits (h : c ∈ tenDigits) : Text.isDigit c = true :=
  List.all_eq_true.1 (show tenDigits.all Text.isDigit = true by decide) c h

theorem decimalValue?_of_mem (h : c ∈ tenDigits) : Text.decimalValue? c = some (digitValue c) :=
  List.all_iff_forall_prop.1
    (show tenDigits.all (fun c => Text.decimalValue? c = some (digitValue c)) = true by decide) c h

theorem hexValue?_of_mem (h : c ∈ sixteenDigits) : hexValue? c = some (digitValue c) :=
  List.all_iff_forall_prop.1
    (show sixteenDigits.all (fun c => hexValue? c = some (digitValue c)) = true by decide) c h

/-- Decimal digits are read by their places. -/
theorem decimalValue?_eq (h : ∀ c ∈ digits, c ∈ tenDigits) :
    decimalValue? digits = some (placeValue 10 digits) := by
  induction digits using List.reverseRecOn with
  | nil => rfl
  | append_singleton digits c ih =>
    obtain ⟨others, last⟩ := List.forall_mem_append.1 h
    have front := ih others
    have digit := decimalValue?_of_mem (last c (by simp))
    rw [decimalValue?] at front ⊢
    rw [List.foldlM_append, front, placeValue_concat]
    simp [digit]

/-- And so are hexadecimal ones. -/
theorem hexadecimalValue_eq (h : ∀ c ∈ digits, c ∈ sixteenDigits) :
    hexadecimalValue digits = placeValue 16 digits := by
  induction digits using List.reverseRecOn with
  | nil => rfl
  | append_singleton digits c ih =>
    obtain ⟨others, last⟩ := List.forall_mem_append.1 h
    have front := ih others
    have digit := hexValue?_of_mem (last c (by simp))
    rw [hexadecimalValue] at front ⊢
    rw [List.foldl_append, front, placeValue_concat]
    simp [digit]

end Numeral

/-! ## Literals -/

open Numeral

/-- Digits after a sign or none, or hexadecimal digits after `0x`, and what they
    stand for. -/
inductive IntegerLiteral : Text → Int → Prop
  | decimal {sign : Option Char} {digits : Text} :
    (∀ c ∈ sign, isSign c = true) → digits ≠ [] → (∀ c ∈ digits, c ∈ tenDigits) →
    digits.length ≤ digitLimit →
    IntegerLiteral (sign.toList ++ digits) (signed sign (placeValue 10 digits))
  | hexadecimal {sign : Option Char} {letter : Char} {digits : Text} :
    (∀ c ∈ sign, isSign c = true) → letter = 'x' ∨ letter = 'X' → digits ≠ [] →
    (∀ c ∈ digits, c ∈ sixteenDigits) →
    IntegerLiteral (sign.toList ++ '0' :: letter :: digits) (signed sign (placeValue 16 digits))

variable {t s : Text} {i : Int}

/-- A literal is the text of a written numeral of its integer. -/
theorem IntegerLiteral.exists_written (h : IntegerLiteral t i) :
    ∃ n : Numeral, n.Written ∧ n.text = t ∧ n.isInteger = true ∧ n.integer = .ok i := by
  cases h with
  | @decimal sign digits hs ne hd short =>
    refine ⟨⟨sign, .decimal digits none none⟩, ?_, by simp [text, Magnitude.text], rfl, ?_⟩
    · exact written_decimal hs (fun c mem => isDigit_of_mem_tenDigits (hd c mem)) (by simp)
        (by simp) fun none => absurd none ne
    · have run : digitRun digits = digits.length := by
        rw [digitRun, List.takeWhile_eq_self_iff.2 fun c mem => by
          rw [decimalValue?_of_mem (hd c mem)]
          rfl]
      have value : absolute (.decimal digits none none) = .ok (placeValue 10 digits) := by
        rw [absolute, if_neg (by omega), if_neg ne, decimalValue?_eq hd]
      simp [integer, value, signed, isNegative, bind, Except.bind, pure, Except.pure]
  | @hexadecimal sign letter digits hs hl ne hd =>
    refine ⟨⟨sign, .hexadecimal letter digits⟩, ?_, rfl, rfl, ?_⟩
    · exact written_hexadecimal hs hl fun c mem => by
        rw [isHexDigit, hexValue?_of_mem (hd c mem)]
        rfl
    · have value : absolute (.hexadecimal letter digits) = .ok (placeValue 16 digits) := by
        rw [absolute.eq_def, ← hexadecimalValue_eq hd]
        cases digits with
        | nil => exact absurd rfl ne
        | cons c digits => rfl
      simp [integer, value, signed, isNegative, bind, Except.bind, pure, Except.pure]

/-! ## Canonical numerals -/

/-- Decimal digits of a number, with a zero in front only if it is the one
    digit. -/
structure CanonicalDigits (n : Nat) (digits : Text) : Prop where
  ne_nil : digits ≠ []
  decimal : ∀ c ∈ digits, c ∈ tenDigits
  front : digits.head? = some '0' → digits = ['0']
  value : placeValue 10 digits = n

/-- The digits of the absolute value, after a minus sign if the integer is
    negative. -/
def Canonical (i : Int) (s : Text) : Prop :=
  ∃ digits, CanonicalDigits i.natAbs digits ∧ s = if i < 0 then '-' :: digits else digits

theorem digits_eq (n : Nat) : Decimal.digits n =
    if n < 10 then [Nat.digitChar n] else Decimal.digits (n / 10) ++ [Nat.digitChar (n % 10)] :=
  Nat.toDigits_eq_if (by decide)

theorem digitChar_mem {n : Nat} (h : n < 10) :
    Nat.digitChar n ∈ tenDigits ∧ digitValue (Nat.digitChar n) = n :=
  (show ∀ n < 10, Nat.digitChar n ∈ tenDigits ∧ digitValue (Nat.digitChar n) = n by decide) n h

theorem digitChar_digitValue {c : Char} (h : c ∈ tenDigits) :
    digitValue c < 10 ∧ Nat.digitChar (digitValue c) = c :=
  List.all_iff_forall_prop.1 (show tenDigits.all (fun c =>
    digitValue c < 10 ∧ Nat.digitChar (digitValue c) = c) = true by decide) c h

/-- By induction on the number without its last digit. -/
theorem canonicalDigits_digits (n : Nat) : CanonicalDigits n (Decimal.digits n) := by
  induction n using Nat.strongRecOn with
  | ind n ih =>
    rw [digits_eq]
    split
    · next small =>
      obtain ⟨mem, value⟩ := digitChar_mem small
      refine ⟨by simp, by simpa using mem, by simp, ?_⟩
      simpa [placeValue] using value
    · next large =>
      have front := ih (n / 10) (by omega)
      obtain ⟨mem, value⟩ := digitChar_mem (Nat.mod_lt n (by decide : 0 < 10))
      refine ⟨by simp, ?_, fun zero => ?_, ?_⟩
      · exact List.forall_mem_append.2 ⟨front.decimal, by simpa using mem⟩
      · rw [List.head?_append_of_ne_nil _ front.ne_nil] at zero
        have zero : n / 10 = 0 := by rw [← front.value, front.front zero]; decide
        omega
      · rw [placeValue_concat, front.value, value]
        omega

/-- By induction from the last digit on. -/
theorem CanonicalDigits.eq_digits {n : Nat} {digits : Text} (h : CanonicalDigits n digits) :
    digits = Decimal.digits n := by
  induction digits using List.reverseRecOn generalizing n with
  | nil => exact absurd rfl h.ne_nil
  | append_singleton front c ih =>
    obtain ⟨decimal, last⟩ := List.forall_mem_append.1 h.decimal
    obtain ⟨small, char⟩ := digitChar_digitValue (last c (by simp))
    have value := h.value
    rw [placeValue_concat] at value
    rw [digits_eq]
    by_cases ne : front = []
    · subst ne
      have alone : n = digitValue c := value.symm.trans (by simp [placeValue])
      rw [if_pos (by omega), alone, char]
      rfl
    · have noZero : front.head? ≠ some '0' := fun zero => by
        have alone := congrArg List.length
          (h.front (by rw [List.head?_append_of_ne_nil _ ne, zero]))
        simp [ne] at alone
      have eq := ih ⟨ne, decimal, fun zero => absurd zero noZero, rfl⟩
      have positive : placeValue 10 front ≠ 0 := fun zero => by
        rw [eq, zero] at noZero
        exact noZero (by decide)
      rw [if_neg (by omega), show n / 10 = placeValue 10 front by omega, ← eq,
        show n % 10 = digitValue c by omega, char]

/-- **An integer has one canonical numeral.** -/
theorem canonical_iff : Canonical i s ↔ s = Decimal.numeral i := by
  constructor
  · rintro ⟨digits, canonical, rfl⟩
    rw [canonical.eq_digits, Decimal.numeral]
  · rintro rfl
    exact ⟨_, canonicalDigits_digits _, rfl⟩

/-- The canonical numeral of an integer is a literal of it, unless it is too
    long. -/
theorem integerLiteral_numeral (h : Writable i) : IntegerLiteral (Decimal.numeral i) i := by
  obtain ⟨ne, decimal, -, value⟩ := canonicalDigits_digits i.natAbs
  by_cases negative : i < 0
  · have literal := @IntegerLiteral.decimal (some '-') _ (by simp [isSign]) ne decimal h
    have eq : signed (some '-') (placeValue 10 (Decimal.digits i.natAbs)) = i := by
      rw [value, signed, if_pos rfl]
      omega
    rw [eq] at literal
    rwa [Decimal.numeral, if_pos negative]
  · have literal := @IntegerLiteral.decimal none _ (by simp) ne decimal h
    have eq : signed none (placeValue 10 (Decimal.digits i.natAbs)) = i := by
      rw [value, signed, if_neg (by simp)]
      omega
    rw [eq] at literal
    rwa [Decimal.numeral, if_neg negative]

/-! ## Reading -/

/-- The text is one integer token, and is read as the integer where a value
    or the number of an enum key stands. -/
structure ReadAs (t : Text) (i : Int) : Prop where
  token : ∃ l : Lexeme, l.kind = .integer ∧ l.value = t ∧
    (TokenStream.ofText t).tokens = [⟨l, .start⟩] ∧
    ∀ position rest, Parser.constValue (⟨l, position⟩ :: rest) = .ok (.integer i, rest) ∧
      Parser.integer (⟨l, position⟩ :: rest) = .ok (i, rest)
  const : ∀ type name : Text, Spelling .identifier type type → Spelling .identifier name name →
    Document.parse ([' '].intercalate ["const", type, name, "=", t]) =
      .ok ⟨[], [], [.const name
        (if TypeRef.baseTags.contains type then .base type [] else .named type) (.integer i)]⟩
  enum : ∀ name key : Text, Spelling .identifier name name → Spelling .identifier key key →
    Document.parse ([' '].intercalate ["enum", name, "\x7b", key, "=", t, "\x7d"]) =
      .ok ⟨[], [], [.enum name [⟨key, some i⟩]]⟩

theorem TokenStream.tokens_numeral {n : Numeral} (written : n.Written) :
    (ofText n.text).tokens = [⟨.numeral n, .start⟩] := by
  have finish : Piece.Separated [] := by rintro _ ⟨⟩
  obtain ⟨c, s, eq, taken⟩ :=
    Piece.takenOff_numeral written (finish.longest_numeral ⟨n, written, rfl⟩)
  rw [List.append_nil] at taken
  have eq : n.text = c :: s := eq
  rw [ofText, eq, Piece.ofText, taken, Piece.ofText]
  rfl

section Numeral

open Grammar IdlFlow.Parser

variable {n : Numeral}

theorem Parser.integer_cons (integral : n.isInteger = true) (value : n.integer = .ok i)
    (position : Position) (rest : List Token) :
    integer (⟨.numeral n, position⟩ :: rest) = .ok (i, rest) := by
  rw [integer, peek_bind]
  simp only [lexemes_cons, List.head?_cons, if_pos integral, value]
  rfl

theorem Parser.constValue_cons (integral : n.isInteger = true) (value : n.integer = .ok i)
    (position : Position) (rest : List Token) :
    constValue (⟨.numeral n, position⟩ :: rest) = .ok (.integer i, rest) := by
  rw [Parser.constValue_eq, constValueOver, peek_bind]
  simp only [lexemes_cons, List.head?_cons, if_pos integral, value]
  rfl

theorem Spelling.tells_identifier {name : Text} (h : Spelling .identifier name name) :
    Tells name (.identifier name) := by
  cases h with
  | identifier form other => exact .identifier form other

theorem Grammar.typeForm_name (name : Text) : TypeForm [.identifier name]
    (if TypeRef.baseTags.contains name then .base name [] else .named name) := by
  split
  · next base => exact .base (by simpa using base) .none
  · next other => exact .named (by simpa using other) .none

/-- **A numeral of an integer is read as the integer.** -/
theorem ReadAs.of_written (written : n.Written) (integral : n.isInteger = true)
    (value : n.integer = .ok i) : ReadAs n.text i := by
  refine ⟨⟨.numeral n, by simp [Lexeme.kind, integral], rfl, TokenStream.tokens_numeral written,
    fun position rest => ⟨constValue_cons integral value position rest,
      integer_cons integral value position rest⟩⟩, ?_, ?_⟩
  · intro type name hType hName
    have form : DefinitionForm (.keyword .const :: [.identifier type] ++
        .identifier name :: .mark .equals :: [.numeral n] ++ []) _ :=
      .const (typeForm_name type) (.integer integral value) .none
    have document := DocumentForm.mk (.cons (.definition form) .nil)
    have tokens : lexemes (TokenStream.ofText ([' '].intercalate
        ["const", type, name, "=", n.text])).tokens = _ :=
      TokenStream.lexemes_spaced (.cons (.keyword .const) (.cons hType.tells_identifier
        (.cons hName.tells_identifier (.cons (.mark .equals) (.cons (.numeral written) .nil)))))
    exact parse_eq_ok.2 (tokens ▸ document)
  · intro name key hName hKey
    have item : EnumValueForm [.identifier key, .mark .equals, .numeral n] ⟨key, some i⟩ :=
      .mk (.some (.mk integral value)) .none .none
    have form : DefinitionForm (.keyword .enum :: .identifier name :: .mark .leftBrace ::
        [.identifier key, .mark .equals, .numeral n, .mark .rightBrace] ++ [])
        (.enum name [⟨key, some i⟩]) := .enum (.mk (.cons item .nil)) .none
    have document := DocumentForm.mk (.cons (.definition form) .nil)
    have tokens : lexemes (TokenStream.ofText ([' '].intercalate
        ["enum", name, "\x7b", key, "=", n.text, "\x7d"])).tokens = _ :=
      TokenStream.lexemes_spaced (.cons (.keyword .enum) (.cons hName.tells_identifier
        (.cons (.mark .leftBrace) (.cons hKey.tells_identifier (.cons (.mark .equals)
          (.cons (.numeral written) (.cons (.mark .rightBrace) .nil)))))))
    exact parse_eq_ok.2 (tokens ▸ document)

theorem IntegerLiteral.readAs (h : IntegerLiteral t i) : ReadAs t i := by
  obtain ⟨n, written, rfl, integral, value⟩ := h.exists_written
  exact .of_written written integral value

end Numeral

/-! ## Writing -/

/-- The integer is written as the text, as a value and as the number of an enum
    key. -/
structure WrittenAs (i : Int) (s : Text) : Prop where
  value : ∀ rename keys, (ValueExpr.ofConst rename keys (.integer i)).text = .ok s
  const : ∀ (scope : Scope) (name : Text) (type : TypeRef),
    (Definition.const name type (.integer i)).block? scope =
      some (.ok ("export const " ++ scope.rename name ++ ": " ++ (scope.type type).text ++ " = " ++
        s ++ ";"))
  enum : ∀ (scope : Scope) (name : Text) (values : List EnumValue) (k : Nat) (v : EnumValue),
    values[k]? = some v → v.number = some i → (∀ j ∈ EnumValue.numbers values, Writable j) →
    ∃ exported alternatives keys, (Definition.enum name values).block? scope =
        some (.ok ("export type " ++ exported ++ " = " ++ joined " | " alternatives ++ ";" ++
          "\n" ++ keys)) ∧
      alternatives.length = values.length ∧ alternatives[k]? = some s

theorem writeInteger_of_writable (h : Writable i) : writeInteger i = .ok (Decimal.numeral i) := by
  rw [writeInteger, Decimal.numeral?, if_pos (show _ ≤ _ from h)]

theorem Declaration.block_single {d : Declaration} (h : d.text = .ok s) : block [d] = .ok s := by
  have written : [d].mapM text = .ok [s] := mapM_eq_ok.2 (by simp [h])
  rw [block, written]
  simp [joined, bind, Except.bind, pure, Except.pure]

theorem Declaration.block_pair {d d' : Declaration} (h : d.text = .ok s) (h' : d'.text = .ok t) :
    block [d, d'] = .ok (s ++ "\n" ++ t) := by
  have written : [d, d'].mapM text = .ok [s, t] := mapM_eq_ok.2 (by simp [h, h'])
  rw [block, written]
  simp [joined, List.intercalate, bind, Except.bind, pure, Except.pure]

/-- An enum declares the union of its numbers, then that of its keys. -/
theorem block?_enum (scope : Scope) (name : Text) {values : List EnumValue} (ne : values ≠ [])
    (h : ∀ j ∈ EnumValue.numbers values, Writable j) :
    ∃ exported keys, (Definition.enum name values).block? scope =
      some (.ok ("export type " ++ exported ++ " = " ++
        joined " | " ((EnumValue.numbers values).map Decimal.numeral) ++ ";" ++ "\n" ++ keys)) := by
  have each : (EnumValue.numbers values).mapM writeInteger =
      .ok ((EnumValue.numbers values).map Decimal.numeral) := by
    rw [mapM_eq_ok, List.map_map]
    exact List.map_congr_left fun j mem => writeInteger_of_writable (h j mem)
  have numbers (exported : Text) :
      (Declaration.type exported (.numbers (EnumValue.numbers values))).text =
        .ok ("export type " ++ exported ++ " = " ++
          joined " | " ((EnumValue.numbers values).map Decimal.numeral) ++ ";") := by
    rw [Declaration.text, TypeBody.text, each]
    simp [unionText, EnumValue.numbers, ne, bind, Except.bind, pure, Except.pure]
  rw [Definition.block?, Definition.declarations?, Option.map_some, enumDeclarations]
  split
  · exact ⟨_, _, congrArg some (Declaration.block_pair (numbers _) rfl)⟩
  · exact ⟨_, _, congrArg some (Declaration.block_pair (numbers _) rfl)⟩

/-- **An integer is written as its canonical numeral.** -/
theorem writtenAs_numeral (h : Writable i) : WrittenAs i (Decimal.numeral i) := by
  refine ⟨fun _ _ => writeInteger_of_writable h, fun scope name type => ?_, ?_⟩
  · have written : (Declaration.const (scope.rename name) (scope.type type) (.integer i)).text =
        .ok ("export const " ++ scope.rename name ++ ": " ++ (scope.type type).text ++ " = " ++
          Decimal.numeral i ++ ";") := by
      rw [Declaration.text, ValueExpr.text, writeInteger_of_writable h]
      rfl
    exact congrArg some (Declaration.block_single written)
  · intro scope name values k v found number others
    obtain ⟨bound, rfl⟩ := List.getElem?_eq_some_iff.1 found
    obtain ⟨exported, keys, block⟩ :=
      block?_enum scope name (List.ne_nil_of_length_pos (by omega)) others
    refine ⟨exported, _, keys, block, by simp [EnumValue.numbers], ?_⟩
    simp [EnumValue.numbers, bound, number]

/-- **Integers keep their value.**  What a literal stands for, unless it has
    too many digits to be written, is read from it, is written as its canonical
    numeral, and is read from that again. -/
theorem integer_kept (literal : IntegerLiteral t i) (writable : Writable i) :
    ReadAs t i ∧ ∃ s, (∀ u, Canonical i u ↔ u = s) ∧ WrittenAs i s ∧ ReadAs s i :=
  ⟨literal.readAs, Decimal.numeral i, fun _ => canonical_iff, writtenAs_numeral writable,
    (integerLiteral_numeral writable).readAs⟩

/-- Zeros in front and digits of both cases go, the sign stays. -/
theorem integer_kept_hexadecimal :
    IntegerLiteral "-0x00fF" (-255) ∧ Writable (-255) ∧ ReadAs "-0x00fF" (-255) ∧
      WrittenAs (-255) "-255" ∧ ReadAs "-255" (-255) := by
  have digits : ∀ c ∈ ("00fF" : Text), c ∈ sixteenDigits :=
    List.all_iff_forall_prop.1 (by decide)
  have literal : IntegerLiteral "-0x00fF" (-255) :=
    @IntegerLiteral.hexadecimal (some '-') 'x' _ (by simp [isSign]) (.inl rfl) (by decide) digits
  have writable : Writable (-255) := by
    unfold Writable
    decide
  obtain ⟨read, s, canonical, written, again⟩ := integer_kept literal writable
  obtain rfl : "-255" = s := (canonical _).1 (canonical_iff.2 (by decide))
  exact ⟨literal, writable, read, written, again⟩

end IdlFlow
