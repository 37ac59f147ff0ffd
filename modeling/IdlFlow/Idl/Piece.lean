/-
  Pieces: an interface text cut into blanks, comments, stray characters and
  lexemes.

  * `Piece` is a piece with its exact text (`Piece.text`);
  * `Piece.take` takes the first piece off a text, `Piece.ofText` cuts a whole
    text;
  * `text_take` and `flatMap_text_ofText`: the pieces, written one after the
    other, are the text, so nothing is lost and nothing invented.
-/
import IdlFlow.Text.Letter
import IdlFlow.Number.Numeral

namespace IdlFlow

/-! ## Marks -/

/-- A punctuation mark. -/
inductive Mark
  | leftBrace | rightBrace
  | leftParen | rightParen
  | leftBracket | rightBracket
  | leftAngle | rightAngle
  | comma | semicolon | colon | equals | star
  deriving DecidableEq, Repr

namespace Mark

def char : Mark → Char
  | leftBrace => '{' | rightBrace => '}'
  | leftParen => '(' | rightParen => ')'
  | leftBracket => '[' | rightBracket => ']'
  | leftAngle => '<' | rightAngle => '>'
  | comma => ',' | semicolon => ';' | colon => ':' | equals => '=' | star => '*'

/-- Every mark once. -/
def all : List Mark :=
  [leftBrace, rightBrace, leftParen, rightParen, leftBracket, rightBracket, leftAngle,
    rightAngle, comma, semicolon, colon, equals, star]

/-- The mark that a character is. -/
def ofChar? (c : Char) : Option Mark := all.find? (·.char = c)

theorem mem_all (m : Mark) : m ∈ all := by cases m <;> decide

theorem char_of_ofChar? {c : Char} {m : Mark} (h : ofChar? c = some m) : m.char = c := by
  simpa using List.find?_some h

theorem ofChar?_char (m : Mark) : ofChar? m.char = some m := by cases m <;> decide

end Mark

/-! ## Pieces -/

/-- A piece of an interface text. -/
inductive Piece
  /-- A space, tab, carriage return or line feed. -/
  | blank (c : Char)
  /-- A comment up to the end of its line. -/
  | remark (text : Text)
  /-- A comment between `/*` and `*/`, or the end of the text. -/
  | aside (text : Text)
  /-- A character that can start nothing. -/
  | stray (c : Char)
  | mark (m : Mark)
  /-- A text between quotes, its escapes untouched; only at the end of the
      whole text may the closing quote be missing. -/
  | quoted (quote : Char) (body : Text) (closed : Bool)
  | numeral (n : Numeral)
  /-- A name, possibly dotted, or a keyword. -/
  | word (text : Text)
  deriving DecidableEq, Repr

namespace Piece

/-- The exact text of a piece. -/
def text : Piece → Text
  | blank c | stray c => [c]
  | remark s | aside s | word s => s
  | mark m => [m.char]
  | quoted quote body closed => quote :: body ++ (if closed then [quote] else [])
  | numeral n => n.text

def isBlank (c : Char) : Bool := c = ' ' || c = '\t' || c = '\r' || c = '\n'

def startsWord (c : Char) : Bool := Text.isLetter c || c = '_'

def continuesWord (c : Char) : Bool :=
  Text.isLetter c || Text.isNumber c || c = '_' || c = '.'

theorem continuesWord_of_startsWord {c : Char} (h : startsWord c = true) :
    continuesWord c = true := by
  simp only [startsWord, continuesWord, Bool.or_eq_true, decide_eq_true_eq] at *
  rcases h with h | h
  · exact .inl (.inl (.inl h))
  · exact .inl (.inr h)

/-- Whether a numeral starts a text: a digit does, and a sign right before a
    digit or a point. -/
def startsNumeral : Text → Bool
  | [] => false
  | [c] => Text.isDigit c
  | c :: d :: _ => Text.isDigit c || Numeral.isSign c && (Text.isDigit d || d = '.')

/-- The rest of a line, and what follows from its line feed on. -/
def takeRemark (s : Text) : Text × Text := (s.takeWhile (· ≠ '\n'), s.dropWhile (· ≠ '\n'))

/-- A comment after its opening, up to the first closing, and the rest. -/
def takeAside : Text → Text × Text
  | [] => ([], [])
  | '*' :: '/' :: s => (['*', '/'], s)
  | c :: s =>
    let (comment, rest) := takeAside s
    (c :: comment, rest)

/-- A quoted text after its opening: the body, whether the quote closes it,
    and the rest.  A backslash takes the next character with it. -/
def takeBody (quote : Char) : Text → Text × Bool × Text
  | [] => ([], false, [])
  | c :: s =>
    if c = quote then ([], true, s)
    else if c = '\\' then
      match s with
      | [] => ([c], false, [])
      | d :: s =>
        let (body, closed, rest) := takeBody quote s
        (c :: d :: body, closed, rest)
    else
      let (body, closed, rest) := takeBody quote s
      (c :: body, closed, rest)

/-- The first piece of the text `c :: s`, and the rest. -/
def take (c : Char) (s : Text) : Piece × Text :=
  if isBlank c then (blank c, s)
  else if c = '#' ∨ c = '/' ∧ s.head? = some '/' then
    let (comment, rest) := takeRemark s
    (remark (c :: comment), rest)
  else if c = '/' ∧ s.head? = some '*' then
    let (comment, rest) := takeAside (s.drop 1)
    (aside ('/' :: '*' :: comment), rest)
  else match Mark.ofChar? c with
  | some m => (mark m, s)
  | none =>
    if c = '"' ∨ c = '\'' then
      let (body, closed, rest) := takeBody c s
      (quoted c body closed, rest)
    else if startsNumeral (c :: s) then
      let (n, rest) := Numeral.scan (c :: s)
      (numeral n, rest)
    else if startsWord c then
      (word (c :: s.takeWhile continuesWord), s.dropWhile continuesWord)
    else (stray c, s)

/-! ## Nothing is lost -/

theorem text_takeAside (s : Text) : (takeAside s).1 ++ (takeAside s).2 = s := by
  fun_induction takeAside s <;> simp_all

theorem text_takeBody (quote : Char) (s : Text) :
    (takeBody quote s).1 ++ (if (takeBody quote s).2.1 then [quote] else []) ++
      (takeBody quote s).2.2 = s := by
  fun_induction takeBody quote s <;> simp_all

theorem text_take (c : Char) (s : Text) : (take c s).1.text ++ (take c s).2 = c :: s := by
  unfold take
  split
  · simp [text]
  split
  · simp [text, takeRemark]
  split
  · next h =>
    obtain ⟨rfl, hs⟩ := h
    cases s with
    | nil => simp at hs
    | cons d s =>
      simp only [List.head?_cons, Option.some.injEq] at hs
      simp [text, hs, text_takeAside]
  split
  · next m hm => simp [text, Mark.char_of_ofChar? hm]
  split
  · simpa [text] using text_takeBody c s
  split
  · exact Numeral.text_scan (c :: s)
  split
  · simp [text]
  · simp [text]

theorem text_scan_ne_nil {s : Text} (h : startsNumeral s = true) :
    (Numeral.scan s).1.text ≠ [] := by
  cases s with
  | nil => simp [startsNumeral] at h
  | cons c s =>
    by_cases hc : Numeral.isSign c = true
    · simp [Numeral.scan, Numeral.takeSign, hc, Numeral.text]
    · have digit : Text.isDigit c = true := by
        cases s <;> simp_all [startsNumeral]
      simpa [Numeral.scan, Numeral.takeSign, hc, Numeral.text] using
        Numeral.text_takeMagnitude_ne_nil digit s

theorem text_take_ne_nil (c : Char) (s : Text) : (take c s).1.text ≠ [] := by
  unfold take
  split
  · simp [text]
  split
  · simp [text]
  split
  · simp [text]
  split
  · simp [text]
  split
  · simp [text]
  split
  · next h => exact text_scan_ne_nil h
  split <;> simp [text]

theorem length_take_le (c : Char) (s : Text) : (take c s).2.length ≤ s.length := by
  have whole := congrArg List.length (text_take c s)
  have taken := List.length_pos_iff.2 (text_take_ne_nil c s)
  simp only [List.length_append, List.length_cons] at whole
  omega

/-- The pieces of a text, in order. -/
def ofText : Text → List Piece
  | [] => []
  | c :: s => (take c s).1 :: ofText (take c s).2
  termination_by s => s.length
  decreasing_by
    have := length_take_le c s
    simp only [List.length_cons]
    omega

theorem flatMap_text_ofText (s : Text) : (ofText s).flatMap text = s := by
  fun_induction ofText s with
  | case1 => rfl
  | case2 c s ih => rw [List.flatMap_cons, ih, text_take]

end Piece

end IdlFlow
