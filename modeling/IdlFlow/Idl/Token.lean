/-
  Tokens of an interface text: its lexemes with the positions that error
  messages name.

  * `Lexeme` is what a token says, `Kind` its class, `Lexeme.value` its text (a
    quoted text without the quotes);
  * `Position.past` moves over a piece.  A line comment takes no columns, so
    only a text that ends in one has an end position left of the true one; and
    a backslash that ends the text counts twice;
  * `Position.dangles` tells a backslash that ends a text (`dangles_append`: not
    if other characters follow);
  * `Piece.reportedAt` is where a token is reported: where it starts, but for
    a quoted text on the line where it ends;
  * `TokenStream.ofText` is the tokens of a text together with the position of
    its end; `lexemes_ofText`: they say what the pieces of the text say.
-/
import IdlFlow.Idl.Piece

namespace IdlFlow

/-! ## Lexemes -/

/-- A reserved word. -/
inductive Keyword
  | includeFile | includeNative | namespaceOf
  | const | typedef | enum | senum | struct | union | exception | service
  | extendsService | oneway | throws | required | optional
  | list | set | map
  | trueValue | falseValue
  deriving DecidableEq, Repr

namespace Keyword

def spelling : Keyword → Text
  | includeFile => "include" | includeNative => "cpp_include" | namespaceOf => "namespace"
  | const => "const" | typedef => "typedef" | enum => "enum" | senum => "senum"
  | struct => "struct" | union => "union" | exception => "exception" | service => "service"
  | extendsService => "extends" | oneway => "oneway" | throws => "throws"
  | required => "required" | optional => "optional"
  | list => "list" | set => "set" | map => "map"
  | trueValue => "true" | falseValue => "false"

/-- Every keyword once. -/
def all : List Keyword :=
  [includeFile, includeNative, namespaceOf, const, typedef, enum, senum, struct, union,
    exception, service, extendsService, oneway, throws, required, optional, list, set, map,
    trueValue, falseValue]

/-- The keyword that a word is. -/
def ofText? (word : Text) : Option Keyword := all.find? (·.spelling = word)

/-- The name of a keyword in messages: its spelling in capitals. -/
def name (k : Keyword) : Text := k.spelling.map Char.toUpper

theorem spelling_of_ofText? {word : Text} {k : Keyword} (h : ofText? word = some k) :
    k.spelling = word := by
  simpa using List.find?_some h

theorem ofText?_spelling (k : Keyword) : ofText? k.spelling = some k := by cases k <;> decide

end Keyword

/-- The name of a mark in messages. -/
def Mark.name : Mark → Text
  | leftBrace => "LBRACE" | rightBrace => "RBRACE"
  | leftParen => "LPAREN" | rightParen => "RPAREN"
  | leftBracket => "LBRACKET" | rightBracket => "RBRACKET"
  | leftAngle => "LANGLE" | rightAngle => "RANGLE"
  | comma => "COMMA" | semicolon => "SEMICOLON" | colon => "COLON"
  | equals => "EQUALS" | star => "STAR"

/-- What a token says. -/
inductive Lexeme
  | keyword (k : Keyword)
  | mark (m : Mark)
  | identifier (name : Text)
  | numeral (n : Numeral)
  | string (content : Text)
  deriving DecidableEq, Repr

/-- The class of a token. -/
inductive Kind
  | keyword (k : Keyword)
  | mark (m : Mark)
  | identifier | integer | double | string
  deriving DecidableEq, Repr

/-- The name of a class in messages. -/
def Kind.name : Kind → Text
  | keyword k => k.name
  | mark m => m.name
  | identifier => "IDENT"
  | integer => "INT"
  | double => "DOUBLE"
  | string => "STRING_LIT"

/-- The name of the end of the text in messages. -/
def endName : Text := "EOF"

namespace Lexeme

def kind : Lexeme → Kind
  | keyword k => .keyword k
  | mark m => .mark m
  | identifier _ => .identifier
  | numeral n => if n.isInteger then .integer else .double
  | string _ => .string

/-- The text of a token. -/
def value : Lexeme → Text
  | keyword k => k.spelling
  | mark m => [m.char]
  | identifier name => name
  | numeral n => n.text
  | string content => content

end Lexeme

/-- What a piece says; blanks, comments and stray characters say nothing. -/
def Piece.lexeme? : Piece → Option Lexeme
  | mark m => some (.mark m)
  | quoted _ body _ => some (.string body)
  | numeral n => some (.numeral n)
  | word s => some (((Keyword.ofText? s).map Lexeme.keyword).getD (.identifier s))
  | blank _ | remark _ | aside _ | stray _ => none

/-! ## Positions -/

/-- A place in a text, counted in lines and in characters of a line. -/
structure Position where
  line : Nat
  column : Nat
  deriving DecidableEq, Repr

namespace Position

/-- Where a text starts. -/
def start : Position := ⟨1, 1⟩

/-- The place after one character. -/
def step (p : Position) (c : Char) : Position :=
  if c = '\n' then ⟨p.line + 1, 1⟩ else ⟨p.line, p.column + 1⟩

/-- The place after a text. -/
def along (p : Position) (s : Text) : Position := s.foldl step p

/-- Whether the body of a quoted text ends in a backslash that has no
    character to take. -/
def dangles : Text → Bool
  | [] => false
  | ['\\'] => true
  | '\\' :: _ :: s => dangles s
  | _ :: s => dangles s

theorem dangles_cons {c : Char} (h : c ≠ '\\') (s : Text) : dangles (c :: s) = dangles s := by
  rw [dangles]
  · exact fun e => absurd e h
  · exact fun _ _ e => absurd e h

theorem dangles_of_not_mem {s : Text} (h : '\\' ∉ s) : dangles s = false := by
  induction s with
  | nil => rfl
  | cons c s ih =>
    rw [List.mem_cons, not_or] at h
    rw [dangles_cons (Ne.symm h.1)]
    exact ih h.2

/-- A text does not end in a bare backslash if characters without any follow
    the last one. -/
theorem dangles_append {s t : Text} (ne : t ≠ []) (h : '\\' ∉ t) : dangles (s ++ t) = false := by
  fun_induction dangles s with
  | case1 => exact dangles_of_not_mem h
  | case2 =>
    cases t with
    | nil => exact absurd rfl ne
    | cons c t =>
      rw [List.mem_cons, not_or] at h
      show dangles t = false
      exact dangles_of_not_mem h.2
  | case3 d s ih => exact ih
  | case4 c s h₁ h₂ ih =>
    have code : c ≠ '\\' := by
      rintro rfl
      cases s with
      | nil => exact h₁ rfl rfl
      | cons d s => exact h₂ d s rfl rfl
    rw [List.cons_append, dangles_cons code]
    exact ih

/-- The place after a piece: a line comment takes no columns, a dangling
    backslash two. -/
def past (p : Position) (piece : Piece) : Position :=
  match piece with
  | .remark _ => p
  | .quoted _ body _ =>
    let q := p.along piece.text
    if dangles body then ⟨q.line, q.column + 1⟩ else q
  | _ => p.along piece.text

end Position

/-- Where a piece that starts at `p` is reported: at `p`, but for a quoted text
    on its last line. -/
def Piece.reportedAt (p : Position) : Piece → Position
  | quoted _ body _ => ⟨(p.along body).line, p.column⟩
  | _ => p

/-! ## Token streams -/

structure Token where
  lexeme : Lexeme
  position : Position
  deriving DecidableEq, Repr

/-- The tokens of a text and the position of its end. -/
structure TokenStream where
  tokens : List Token
  finish : Position
  deriving DecidableEq, Repr

namespace TokenStream

/-- The tokens of pieces that start at `p`. -/
def ofPieces (p : Position) : List Piece → TokenStream
  | [] => ⟨[], p⟩
  | piece :: pieces =>
    let stream := ofPieces (p.past piece) pieces
    match piece.lexeme? with
    | some lexeme => { stream with tokens := ⟨lexeme, piece.reportedAt p⟩ :: stream.tokens }
    | none => stream

/-- The tokens of a text. -/
def ofText (s : Text) : TokenStream := ofPieces .start (Piece.ofText s)

theorem lexemes_ofPieces (p : Position) (pieces : List Piece) :
    (ofPieces p pieces).tokens.map Token.lexeme = pieces.filterMap Piece.lexeme? := by
  induction pieces generalizing p with
  | nil => rfl
  | cons piece pieces ih =>
    cases h : piece.lexeme? <;> simp [ofPieces, h, ih]

theorem lexemes_ofText (s : Text) :
    (ofText s).tokens.map Token.lexeme = (Piece.ofText s).filterMap Piece.lexeme? :=
  lexemes_ofPieces _ _

end TokenStream

end IdlFlow
