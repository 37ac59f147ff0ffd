/-
  Blanks and comments between tokens.

  * `Piece.Filler`, `Piece.Spacing`: a blank or a comment that ends, and any
    number of them one after the other;
  * `Piece.Seam before after`: `before` is empty, or ends where a token does in
    `before ++ after`; a string that ends there is closed.

  Main statement: spacing that is put into a seam of a text changes nothing of
  what the text comes out as but the places in messages
  (`Document.parse_spaced`).
-/
import IdlFlow.Proofs.Boundaries
import IdlFlow.Proofs.Places

namespace IdlFlow

/-- A string in the text has its second quote. -/
def Lexeme.ClosedIn (l : Lexeme) (t : Text) : Prop :=
  ∀ content, l = .string content → ∃ quote, t = quote :: content ++ [quote]

namespace Piece

/-! ## Fillers -/

/-- A blank, a comment with its closing, or a line comment with its line
    feed. -/
inductive Filler : Text → Prop
  | blank {c : Char} : c ∈ [' ', '\t', '\r', '\n'] → Filler [c]
  | aside {body : Text} :
    ¬ ['*', '/'] <:+: body ++ ['*'] → Filler ('/' :: '*' :: body ++ ['*', '/'])
  | remark {opening body : Text} :
    opening = ['#'] ∨ opening = ['/', '/'] → '\n' ∉ body → Filler (opening ++ body ++ ['\n'])

/-- Fillers, one after the other. -/
inductive Spacing : Text → Prop
  | nil : Spacing []
  | cons {s t : Text} : Filler s → Spacing t → Spacing (s ++ t)

variable {s t rest before after inserted : Text} {parts front behind : List (Text × Option Lexeme)}

theorem Filler.separated (h : Filler s) (rest : Text) : Separated (s ++ rest) := by
  cases h with
  | blank mem =>
    rintro _ ⟨⟩
    exact List.mem_append_left ['/', '#'] mem
  | aside =>
    rintro _ ⟨⟩
    decide
  | remark opens =>
    rcases opens with rfl | rfl <;>
    · rintro _ ⟨⟩
      decide

theorem Spacing.separated (h : Spacing s) (ne : s ≠ []) (rest : Text) : Separated (s ++ rest) := by
  cases h with
  | nil => exact absurd rfl ne
  | cons filler =>
    rw [List.append_assoc]
    exact filler.separated _

/-- A filler in front of a text says nothing. -/
theorem Filler.divided (h : Filler s) (divided : Divided rest parts) :
    ∃ all, Divided (s ++ rest) all ∧ all.filterMap Prod.snd = parts.filterMap Prod.snd := by
  cases h with
  | blank mem => exact ⟨_, .cons (.blank mem) divided, rfl⟩
  | aside first => exact ⟨_, .cons (.aside first) divided, rfl⟩
  | @remark opening body opens line =>
    have stop : ∀ c ∈ ('\n' :: rest).head?, c = '\n' := by
      rintro _ ⟨⟩
      rfl
    refine ⟨(opening ++ body, none) :: (['\n'], none) :: parts, ?_, rfl⟩
    rw [List.append_assoc _ ['\n']]
    exact .cons (.remark opens line stop) (.cons (.blank (by decide)) divided)

theorem Spacing.divided (h : Spacing s) (divided : Divided rest parts) :
    ∃ all, Divided (s ++ rest) all ∧ all.filterMap Prod.snd = parts.filterMap Prod.snd := by
  induction h with
  | nil => exact ⟨parts, divided, rfl⟩
  | @cons s t filler _ ih =>
    obtain ⟨behind, divided, said⟩ := ih
    obtain ⟨all, divided, eq⟩ := filler.divided divided
    refine ⟨all, ?_, eq.trans said⟩
    rwa [List.append_assoc]

/-! ## Seams -/

/-- `before` is empty or ends with a token, and not within one. -/
inductive Seam : Text → Text → Prop
  | start {after : Text} : Seam [] after
  | token {front behind : List (Text × Option Lexeme)} {t after : Text} {l : Lexeme} :
    Divided (front.flatMap Prod.fst ++ t ++ after) (front ++ (t, some l) :: behind) →
    l.ClosedIn t → Seam (front.flatMap Prod.fst ++ t) after

theorem Cut.text_ne_nil {piece : Piece} {said : Option Lexeme} (h : Cut piece said rest) :
    piece.text ≠ [] := by
  obtain ⟨c, s, eq, -⟩ := h.takenOff
  rw [eq]
  exact List.cons_ne_nil c s

theorem Cut.isClosed {piece : Piece} {l : Lexeme} (h : Cut piece (some l) rest)
    (closed : l.ClosedIn piece.text) : piece.isClosed = true := by
  cases h with
  | @torn quote body =>
    -- the second quote would be one character more
    obtain ⟨other, eq⟩ := closed body rfl
    have length := congrArg List.length eq
    simp [text] at length
  | _ => rfl

theorem Divided.uncons {said : Option Lexeme} (h : Divided (t ++ rest) ((t, said) :: parts)) :
    ∃ piece, piece.text = t ∧ Cut piece said rest ∧ Divided rest parts := by
  generalize whole : t ++ rest = s at h
  cases h with
  | @cons piece others _ _ cut divided =>
    obtain rfl := List.append_cancel_left whole
    exact ⟨piece, rfl, cut, divided⟩

/-- What stands behind some parts is divided on its own. -/
theorem Divided.of_append (h : Divided (front.flatMap Prod.fst ++ rest) (front ++ behind)) :
    Divided rest behind := by
  induction front with
  | nil => exact h
  | cons part front ih =>
    rw [List.flatMap_cons, List.append_assoc, List.cons_append] at h
    obtain ⟨-, -, -, divided⟩ := h.uncons
    exact ih divided

/-- Parts in front of a token end where they did if another text follows it. -/
theorem Divided.change {l : Lexeme} {others : Text} {new : List (Text × Option Lexeme)}
    (h : Divided (front.flatMap Prod.fst ++ t ++ after) (front ++ (t, some l) :: behind))
    (closed : l.ClosedIn t) (separated : Separated others) (divided : Divided others new) :
    Divided (front.flatMap Prod.fst ++ t ++ others) (front ++ (t, some l) :: new) := by
  induction front with
  | nil =>
    obtain ⟨piece, rfl, cut, -⟩ := h.uncons
    exact .cons (cut.of_separated (cut.isClosed closed) separated) divided
  | cons part front ih =>
    obtain ⟨u, said⟩ := part
    rw [List.flatMap_cons, List.append_assoc, List.append_assoc, List.cons_append,
      ← List.append_assoc _ t] at h ⊢
    obtain ⟨piece, rfl, cut, rest⟩ := h.uncons
    -- the token is not empty, so the same character comes next
    obtain ⟨_, _, rfl, token⟩ := rest.cut_of_mem (List.mem_append_right front List.mem_cons_self)
    obtain ⟨d, w, next⟩ := List.exists_cons_of_ne_nil
      (List.append_ne_nil_of_right_ne_nil (front.flatMap Prod.fst) token.text_ne_nil)
    rw [next, List.cons_append] at cut
    have still := cut.of_next (w ++ others)
    rw [← List.cons_append, ← next] at still
    exact .cons still (ih rest)

/-- Spacing in a seam says nothing. -/
theorem Seam.lexemes (seam : Seam before after) (spacing : Spacing inserted) :
    Parser.lexemes (TokenStream.ofText (before ++ inserted ++ after)).tokens =
      Parser.lexemes (TokenStream.ofText (before ++ after)).tokens := by
  unfold Parser.lexemes
  cases seam with
  | start =>
    have rest := divided_division after
    obtain ⟨all, divided, said⟩ := spacing.divided rest
    rw [List.nil_append, List.nil_append, TokenStream.lexemes_of_divided divided,
      TokenStream.lexemes_of_divided rest, said]
  | @token front behind t _ l whole closed =>
    by_cases ne : inserted = []
    · rw [ne, List.append_nil]
    have rest : Divided after behind := by
      have rest := whole
      rw [List.append_assoc] at rest
      obtain ⟨-, -, -, rest⟩ := rest.of_append.uncons
      exact rest
    obtain ⟨all, divided, said⟩ := spacing.divided rest
    have changed := whole.change closed (spacing.separated ne after) divided
    rw [List.append_assoc _ inserted, TokenStream.lexemes_of_divided changed,
      TokenStream.lexemes_of_divided whole]
    simp only [List.filterMap_append, List.filterMap_cons, said]

end Piece

/-- The part of a message that tells the place. -/
def Position.label (p : Position) : Text :=
  "Line " ++ Decimal.digits p.line ++ ":" ++ Decimal.digits p.column ++ ": "

theorem Alike.message {e e' : ParseError} (h : Alike (.error e) (.error e')) :
    e.message = e'.message ∨
      ∃ (p q : Position) (what : Text),
        e.message = p.label ++ what ∧ e'.message = q.label ++ what := by
  cases h with
  | unexpected wanted found p q => exact .inr ⟨p, q, wanted.message found, rfl, rfl⟩
  | numeral e => exact .inl rfl

/-- **Spacing between tokens changes the places in messages at most.** -/
theorem Document.parse_spaced {before inserted after : Text} (seam : Piece.Seam before after)
    (spacing : Piece.Spacing inserted) :
    Alike (Document.parse (before ++ inserted ++ after)) (Document.parse (before ++ after)) ∧
      ∀ e e', Document.parse (before ++ inserted ++ after) = .error e →
        Document.parse (before ++ after) = .error e' →
        e.message = e'.message ∨ ∃ (p q : Position) (what : Text),
          e.message = p.label ++ what ∧ e'.message = q.label ++ what := by
  have alike := Parser.parse_alike (seam.lexemes spacing)
  refine ⟨alike, fun e e' changed original => ?_⟩
  rw [Document.parse] at changed original
  rw [changed, original] at alike
  exact alike.message

/-- A string is closed, and the quotes in the comments open none. -/
theorem Document.parse_spaced_string :
    Piece.Seam "const string s='a'" ")" ∧ Piece.Spacing " /*'*/#'\n" ∧
      Alike (Document.parse "const string s='a' /*'*/#'\n)")
        (Document.parse "const string s='a')") := by
  have seam : Piece.Seam "const string s='a'" ")" := by
    refine @Piece.Seam.token [("const", some (.keyword .const)), (" ", none),
      ("string", some (.identifier "string")), (" ", none), ("s", some (.identifier "s")),
      ("=", some (.mark .equals))] [(")", some (.mark .rightParen))] "'a'" ")" (.string "a") ?_ ?_
    · exact Piece.divided_iff.2 (by decide +kernel)
    · rintro _ ⟨⟩
      exact ⟨'\'', rfl⟩
  have spacing : Piece.Spacing
      ([' '] ++ (('/' :: '*' :: ['\''] ++ ['*', '/']) ++ ((['#'] ++ ['\''] ++ ['\n']) ++ []))) := by
    refine .cons (.blank (by decide)) (.cons (.aside (by decide)) (.cons (.remark ?_ ?_) .nil))
    · exact .inl rfl
    · decide
  exact ⟨seam, spacing, (Document.parse_spaced seam spacing).1⟩

end IdlFlow
