/-
  Printing tokens, and reading them back.

  * `Numeral.IntegerForm`, `Numeral.DoubleForm`: the texts of integers and of
    doubles;
  * `Spelling kind value text`: a token of the kind with the value is written
    as the text;
  * `Tells t l`: in front of a separator the text is read as the lexeme;
  * `Printed`: a kind and a value with a text for them.

  Main statement: tokens that are written with single spaces between them are
  read back, each with its kind and its value, and the end behind them
  (`TokenStream.entries_printed`).
-/
import IdlFlow.Proofs.Boundaries

namespace IdlFlow

/-! ## Forms of numerals -/

namespace Numeral

/-- After a sign or none, `0x` and hexadecimal digits, possibly none, or
    digits. -/
inductive IntegerForm : Text → Prop
  | hexadecimal {sign : Option Char} {letter : Char} {digits : Text} :
    (∀ c ∈ sign, isSign c = true) → letter = 'x' ∨ letter = 'X' →
    (∀ c ∈ digits, isHexDigit c = true) → IntegerForm (sign.toList ++ '0' :: letter :: digits)
  | decimal {sign : Option Char} {digits : Text} :
    (∀ c ∈ sign, isSign c = true) → digits ≠ [] → (∀ c ∈ digits, Text.isDigit c = true) →
    IntegerForm (sign.toList ++ digits)

/-- After a sign or none, digits with a fraction, a power of ten or both.  The
    fraction of a signed numeral needs no digits in front. -/
inductive DoubleForm : Text → Prop
  | fraction {sign : Option Char} {whole digits : Text} {power : Option PowerOfTen} :
    (∀ c ∈ sign, isSign c = true) → (sign = none → whole ≠ []) →
    (∀ c ∈ whole, Text.isDigit c = true) → (∀ c ∈ digits, Text.isDigit c = true) →
    (∀ p ∈ power, p.Written) →
    DoubleForm (sign.toList ++ (whole ++ '.' :: digits ++ power.elim [] PowerOfTen.text))
  | power {sign : Option Char} {whole : Text} {power : PowerOfTen} :
    (∀ c ∈ sign, isSign c = true) → whole ≠ [] → (∀ c ∈ whole, Text.isDigit c = true) →
    power.Written → DoubleForm (sign.toList ++ (whole ++ power.text))

variable {sign : Option Char} {t : Text}

theorem written_hexadecimal {letter : Char} {digits : Text} (hs : ∀ c ∈ sign, isSign c = true)
    (hl : letter = 'x' ∨ letter = 'X') (hd : ∀ c ∈ digits, isHexDigit c = true) :
    (Numeral.mk sign (.hexadecimal letter digits)).Written := by
  refine ⟨hs, .hexadecimal hl hd, ?_⟩
  rintro rfl _ ⟨⟩
  decide

/-- A decimal numeral has digits in front, or a sign and a fraction. -/
theorem written_decimal {whole : Text} {fraction : Option Text} {power : Option PowerOfTen}
    (hs : ∀ c ∈ sign, isSign c = true) (hw : ∀ c ∈ whole, Text.isDigit c = true)
    (hf : ∀ digits ∈ fraction, ∀ c ∈ digits, Text.isDigit c = true)
    (hp : ∀ p ∈ power, p.Written) (first : whole = [] → sign ≠ none ∧ fraction ≠ none) :
    (Numeral.mk sign (.decimal whole fraction power)).Written := by
  refine ⟨hs, .decimal hw hf hp fun none => (first none).2, ?_⟩
  rintro rfl c front
  cases whole with
  | nil => exact absurd rfl (first rfl).1
  | cons d whole =>
    have same : d = c := by simpa [text, Magnitude.text] using front
    exact hw c (same ▸ List.mem_cons_self)

theorem IntegerForm.exists_written (h : IntegerForm t) :
    ∃ n : Numeral, n.Written ∧ n.text = t ∧ n.isInteger = true := by
  cases h with
  | hexadecimal hs hl hd => exact ⟨_, written_hexadecimal hs hl hd, rfl, rfl⟩
  | @decimal sign digits hs ne hd =>
    refine ⟨⟨sign, .decimal digits none none⟩, ?_, ?_, rfl⟩
    · exact written_decimal hs hd (by simp) (by simp) fun none => absurd none ne
    · simp [text, Magnitude.text]

theorem DoubleForm.exists_written (h : DoubleForm t) :
    ∃ n : Numeral, n.Written ∧ n.text = t ∧ n.isInteger = false := by
  cases h with
  | @fraction sign whole digits power hs unsigned hw hd hp =>
    refine ⟨⟨sign, .decimal whole (some digits) power⟩, ?_, rfl, rfl⟩
    refine written_decimal hs hw ?_ hp fun none => ⟨fun plain => unsigned plain none, by simp⟩
    rintro _ ⟨⟩
    exact hd
  | @power sign whole power hs ne hw hp =>
    refine ⟨⟨sign, .decimal whole none (some power)⟩, ?_, ?_, rfl⟩
    · refine written_decimal hs hw (by simp) ?_ fun none => absurd none ne
      rintro _ ⟨⟩
      exact hp
    · simp [text, Magnitude.text]

end Numeral

/-! ## Spellings -/

/-- A token of the kind with the value is written as the text. -/
inductive Spelling : Kind → Text → Text → Prop
  | keyword (k : Keyword) : Spelling (.keyword k) k.spelling k.spelling
  | mark (m : Mark) : Spelling (.mark m) [m.char] [m.char]
  | identifier {t : Text} :
    Piece.WordForm t → (∀ k : Keyword, k.spelling ≠ t) → Spelling .identifier t t
  | integer {t : Text} : Numeral.IntegerForm t → Spelling .integer t t
  | double {t : Text} : Numeral.DoubleForm t → Spelling .double t t
  | string {quote : Char} {content : Text} :
    quote = '"' ∨ quote = '\'' → Piece.BodyForm quote content →
    Spelling .string content (quote :: content ++ [quote])

theorem Keyword.wordForm_spelling (k : Keyword) : Piece.WordForm k.spelling := by
  cases k <;> exact .word (by decide) (List.all_eq_true.1 (by decide))

/-- In front of a separator or the end, the text is cut off as a token that
    tells the lexeme. -/
def Tells (t : Text) (l : Lexeme) : Prop :=
  ∀ rest, Piece.Separated rest → ∃ piece : Piece, piece.text = t ∧ Piece.Cut piece (some l) rest

theorem Tells.keyword (k : Keyword) : Tells k.spelling (.keyword k) := fun _ separated =>
  ⟨_, rfl, .keyword (separated.longest_word k.wordForm_spelling)⟩

theorem Tells.mark (m : Mark) : Tells [m.char] (.mark m) := fun _ _ => ⟨_, rfl, .mark⟩

theorem Tells.identifier {t : Text} (form : Piece.WordForm t)
    (other : ∀ k : Keyword, k.spelling ≠ t) : Tells t (.identifier t) := fun _ separated =>
  ⟨_, rfl, .identifier (separated.longest_word form) other⟩

theorem Tells.numeral {n : Numeral} (written : n.Written) : Tells n.text (.numeral n) :=
  fun _ separated =>
    ⟨_, rfl, .numeral written (separated.longest_numeral ⟨n, written, rfl⟩)⟩

/-- A spelling tells a lexeme of its kind and value. -/
theorem Spelling.tells {kind : Kind} {value t : Text} (h : Spelling kind value t) :
    ∃ l, Tells t l ∧ l.kind = kind ∧ l.value = value := by
  cases h with
  | keyword k => exact ⟨_, .keyword k, rfl, rfl⟩
  | mark m => exact ⟨_, .mark m, rfl, rfl⟩
  | identifier form other => exact ⟨_, .identifier form other, rfl, rfl⟩
  | integer form =>
    obtain ⟨n, written, rfl, integer⟩ := form.exists_written
    exact ⟨_, .numeral written, by simp [Lexeme.kind, integer], rfl⟩
  | double form =>
    obtain ⟨n, written, rfl, double⟩ := form.exists_written
    exact ⟨_, .numeral written, by simp [Lexeme.kind, double], rfl⟩
  | string quote form => exact ⟨_, fun _ _ => ⟨_, rfl, .quoted quote form⟩, rfl, rfl⟩

/-! ## Printing -/

/-- A kind and a value, and a text for them. -/
structure Printed where
  kind : Kind
  value : Text
  text : Text

/-- The texts with single spaces between them. -/
def Printed.line (printed : List Printed) : Text := [' '].intercalate (printed.map text)

/-- By induction: behind a token comes the end, or a space and the others. -/
theorem divided_spaced {texts : List Text} {lexemes : List Lexeme}
    (h : List.Forall₂ Tells texts lexemes) :
    ∃ parts, Piece.Divided ([' '].intercalate texts) parts ∧
      parts.filterMap Prod.snd = lexemes := by
  induction h with
  | nil => exact ⟨[], .nil, rfl⟩
  | @cons t l texts lexemes tells others ih =>
    cases others with
    | nil =>
      obtain ⟨piece, rfl, cut⟩ := tells [] (by rintro _ ⟨⟩)
      refine ⟨[(piece.text, some l)], ?_, rfl⟩
      rw [List.intercalate_singleton]
      simpa using Piece.Divided.cons cut .nil
    | @cons t' l' texts lexemes =>
      obtain ⟨parts, divided, said⟩ := ih
      have space : Piece.Separated (' ' :: [' '].intercalate (t' :: texts)) := by
        rintro _ ⟨⟩
        decide
      obtain ⟨piece, rfl, cut⟩ := tells _ space
      refine ⟨(piece.text, some l) :: ([' '], none) :: parts, ?_, by simp [said]⟩
      rw [List.intercalate_cons_cons, List.append_assoc, List.singleton_append]
      exact .cons cut (.cons (.blank (by decide)) divided)

/-- Texts with single spaces between them are read as what each of them tells. -/
theorem TokenStream.lexemes_spaced {texts : List Text} {lexemes : List Lexeme}
    (h : List.Forall₂ Tells texts lexemes) :
    (ofText ([' '].intercalate texts)).tokens.map Token.lexeme = lexemes := by
  obtain ⟨parts, divided, said⟩ := divided_spaced h
  rw [lexemes_of_divided divided, said]

theorem lexemes_line {printed : List Printed}
    (h : ∀ p ∈ printed, Spelling p.kind p.value p.text) :
    ((TokenStream.ofText (Printed.line printed)).tokens.map Token.lexeme).map
        (fun l => (l.kind, l.value)) = printed.map fun p => (p.kind, p.value) := by
  suffices ∃ lexemes, List.Forall₂ Tells (printed.map Printed.text) lexemes ∧
      lexemes.map (fun l => (l.kind, l.value)) = printed.map fun p => (p.kind, p.value) by
    obtain ⟨lexemes, tells, eq⟩ := this
    rw [← eq, ← TokenStream.lexemes_spaced tells]
    rfl
  induction printed with
  | nil => exact ⟨[], .nil, rfl⟩
  | cons p printed ih =>
    obtain ⟨spelling, others⟩ := List.forall_mem_cons.1 h
    obtain ⟨l, tells, kind, value⟩ := spelling.tells
    obtain ⟨lexemes, tellsOthers, eq⟩ := ih others
    exact ⟨l :: lexemes, .cons tells tellsOthers, by simp [kind, value, eq]⟩

/-- **Printed tokens are read back, with the end behind them.** -/
theorem TokenStream.entries_printed {printed : List Printed}
    (h : ∀ p ∈ printed, Spelling p.kind p.value p.text) :
    (ofText (Printed.line printed)).entries.map
        (fun entry => (entry.1.map Lexeme.kind, entry.1.elim [] Lexeme.value)) =
      printed.map (fun p => (some p.kind, p.value)) ++ [(none, [])] := by
  have tokens := congrArg (List.map fun pair : Kind × Text => (some pair.1, pair.2))
    (lexemes_line h)
  simp only [List.map_map] at tokens
  rw [entries, List.map_append, List.map_map]
  exact congrArg (· ++ [(none, [])]) tokens

/-- Numerals without digits where some may stand, a name that ends in a point,
    a mark, a keyword, and a string with the other quote and escapes. -/
def Printed.awkward : List Printed :=
  [⟨.double, "1e", "1e"⟩, ⟨.double, "-.5", "-.5"⟩, ⟨.integer, "+0x", "+0x"⟩,
    ⟨.identifier, "a.b.", "a.b."⟩, ⟨.mark .star, "*", "*"⟩, ⟨.keyword .map, "map", "map"⟩,
    ⟨.string, "'\\\\\\\"\n", "\"'\\\\\\\"\n\""⟩]

theorem Printed.spelling_awkward : ∀ p ∈ awkward, Spelling p.kind p.value p.text := by
  have one : ∀ c ∈ ['1'], Text.isDigit c = true := List.all_eq_true.1 (by decide)
  have five : ∀ c ∈ ['5'], Text.isDigit c = true := List.all_eq_true.1 (by decide)
  have noDigits : (PowerOfTen.mk 'e' none []).Written := ⟨by decide, by simp, by simp⟩
  have power : Spelling .double ("1e" : Text) ("1e" : Text) :=
    .double (@Numeral.DoubleForm.power none ['1'] _ (by simp) (by simp) one noDigits)
  have fraction : Spelling .double ("-.5" : Text) ("-.5" : Text) :=
    .double (@Numeral.DoubleForm.fraction (some '-') [] ['5'] none (by simp [Numeral.isSign])
      (by simp) (by simp) five (by simp))
  have hexadecimal : Spelling .integer ("+0x" : Text) ("+0x" : Text) :=
    .integer (@Numeral.IntegerForm.hexadecimal (some '+') 'x' [] (by simp [Numeral.isSign])
      (.inl rfl) (by simp))
  have name : Spelling .identifier ("a.b." : Text) ("a.b." : Text) :=
    .identifier (.word (by decide) (List.all_eq_true.1 (by decide))) fun k => by cases k <;> decide
  have escapes : Piece.BodyForm '"' ['\'', '\\', '\\', '\\', '"', '\n'] :=
    .plain (by decide) (by decide) (.escape (.escape (.plain (by decide) (by decide) .nil)))
  simp only [awkward, List.forall_mem_cons]
  exact ⟨power, fraction, hexadecimal, name, .mark .star, .keyword .map,
    .string (.inl rfl) escapes, by simp⟩

theorem TokenStream.entries_printed_awkward :
    (ofText "1e -.5 +0x a.b. * map \"'\\\\\\\"\n\"").entries.map
        (fun entry => (entry.1.map Lexeme.kind, entry.1.elim [] Lexeme.value)) =
      Printed.awkward.map (fun p => (some p.kind, p.value)) ++ [(none, [])] :=
  entries_printed Printed.spelling_awkward

end IdlFlow
