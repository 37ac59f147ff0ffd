/-
  String literals, written and read.

  * `Escapes`: what a backslash stands for together with the character that it
    takes, and `Escapes.decode`: what the content of a string stands for;
  * `Layout.Mode.inString`: whether the counting of brackets is in a string.

  Main statement: whatever closed string a text holds, written between single
  quotes it is read as one string again, which stands for the same text, and in
  which no bracket counts (`quote_agrees`).
-/
import Mathlib.Data.List.Basic
import IdlFlow.Proofs.Brackets
import IdlFlow.Proofs.Lexing

namespace IdlFlow

open Layout

/-! ## What strings stand for -/

/-- What a backslash and one more character stand for.  Those for line ends and
    for the single quote are given, all others are free. -/
structure Escapes where
  of : Char → Text
  lineFeed : of 'n' = ['\n']
  carriageReturn : of 'r' = ['\r']
  singleQuote : of '\'' = ['\'']

/-- Letters for the line ends; any other character stands for itself. -/
def Escapes.plain : Escapes where
  of c := if c = 'n' then ['\n'] else if c = 'r' then ['\r'] else [c]
  lineFeed := rfl
  carriageReturn := rfl
  singleQuote := rfl

/-- What the content of a string stands for. -/
def Escapes.decode (e : Escapes) : Text → Text
  | [] => []
  | ['\\'] => ['\\']
  | '\\' :: c :: s => e.of c ++ e.decode s
  | c :: s => c :: e.decode s

theorem Escapes.decode_cons (e : Escapes) {c : Char} (h : c ≠ '\\') (s : Text) :
    e.decode (c :: s) = c :: e.decode s := by
  rw [decode]
  · exact fun code => absurd code h
  · exact fun _ _ code => absurd code h

namespace ValueExpr

variable {quote : Char} {content : Text}

/-- A bare character is written as it is, or as an escape that stands for it. -/
theorem quoteContent_cons {c : Char} (h : c ≠ '\\') (s : Text) :
    (c ≠ '\'' ∧ quoteContent (c :: s) = c :: quoteContent s) ∨
      ∃ d, (∀ e : Escapes, e.of d = [c]) ∧
        quoteContent (c :: s) = '\\' :: d :: quoteContent s := by
  by_cases single : c = '\''
  · subst single
    exact .inr ⟨'\'', Escapes.singleQuote, rfl⟩
  by_cases feed : c = '\n'
  · subst feed
    exact .inr ⟨'n', Escapes.lineFeed, rfl⟩
  by_cases back : c = '\r'
  · subst back
    exact .inr ⟨'r', Escapes.carriageReturn, rfl⟩
  refine .inl ⟨single, ?_⟩
  rw [quoteContent]
  · exact fun code => absurd code h
  · exact fun _ _ code => absurd code h
  · exact single
  · exact feed
  · exact back

/-- **What is written between single quotes has none of its own.** -/
theorem bodyForm_quoteContent (h : Piece.BodyForm quote content) :
    Piece.BodyForm '\'' (quoteContent content) := by
  induction h with
  | nil => exact .nil
  | @plain c s _ code _ ih =>
    rcases quoteContent_cons code s with ⟨single, eq⟩ | ⟨d, -, eq⟩
    · rw [eq]
      exact .plain single code ih
    · rw [eq]
      exact .escape ih
  | escape _ ih => exact .escape ih

/-- **What is written stands for what it was written for.** -/
theorem decode_quoteContent (e : Escapes) (h : Piece.BodyForm quote content) :
    e.decode (quoteContent content) = e.decode content := by
  induction h with
  | nil => rfl
  | @plain c s _ code _ ih =>
    rw [e.decode_cons code]
    rcases quoteContent_cons code s with ⟨-, eq⟩ | ⟨d, stands, eq⟩
    · rw [eq, e.decode_cons code, ih]
    · rw [eq, Escapes.decode, stands, ih]
      rfl
  | @escape c s _ ih =>
    show e.of c ++ e.decode (quoteContent s) = e.of c ++ e.decode s
    rw [ih]

/-- What is written is read as one string, whatever stands behind it. -/
theorem ofText_quote (h : Piece.BodyForm quote content) (rest : Text) :
    Piece.ofText (ValueExpr.quote content ++ rest) =
      .quoted '\'' (quoteContent content) true :: Piece.ofText rest := by
  have body : Piece.takeBody '\'' (quoteContent content ++ '\'' :: rest) =
      (quoteContent content, true, rest) := by
    have closing : Piece.takeBody '\'' ('\'' :: rest) = ([], true, rest) := by
      rw [Piece.takeBody.eq_def]
      exact if_pos rfl
    rw [Piece.takeBody_of_form (by decide) (bodyForm_quoteContent h), closing, List.append_nil]
  have eq : ValueExpr.quote content ++ rest = '\'' :: (quoteContent content ++ '\'' :: rest) := by
    simp [ValueExpr.quote]
  rw [eq, Piece.ofText, Piece.take_quote (.inr rfl), body]

end ValueExpr

/-! ## Brackets in strings -/

namespace Layout

/-- Whether the counting is in a string. -/
def Mode.inString : Mode → Bool
  | .quoted _ | .escaped _ => true
  | .leading | .code => false

variable {mode : Mode} {b : Brackets} {s p q : Text}

/-- Without quotes the counting stays outside of strings. -/
theorem inString_foldl (h : mode.inString = false) (single : '\'' ∉ s) (double : '"' ∉ s) :
    (s.foldl count (mode, b)).1.inString = false := by
  induction s generalizing mode b with
  | nil => exact h
  | cons c s ih =>
    rw [List.mem_cons, not_or] at single double
    rw [List.foldl_cons]
    refine @ih (count (mode, b) c).1 (count (mode, b) c).2 ?_ single.2 double.2
    have apart : ¬ (c = '\'' ∨ c = '"') := by
      rintro (rfl | rfl)
      · exact single.1 rfl
      · exact double.1 rfl
    cases mode with
    | leading | code =>
      simp only [count, if_neg apart]
      split
      · rfl
      split
      · rfl
      split <;> rfl
    | quoted | escaped => cases h

/-- The counting stays in a string up to its end, and counts nothing there. -/
theorem inString_of_form (h : Piece.BodyForm '\'' s) (b : Brackets) :
    ∀ p q, s = p ++ q →
      ∃ mode, mode.inString = true ∧ p.foldl count (.quoted '\'', b) = (mode, b) := by
  induction h with
  | nil =>
    intro p q cut
    obtain ⟨rfl, -⟩ := List.append_eq_nil_iff.1 cut.symm
    exact ⟨_, rfl, rfl⟩
  | @plain c s single code _ ih =>
    rintro (_ | ⟨d, p⟩) q cut
    · exact ⟨_, rfl, rfl⟩
    · obtain ⟨rfl, rest⟩ : c = d ∧ s = p ++ q := by simpa using cut
      have stays : count (.quoted '\'', b) c = (.quoted '\'', b) := by
        simp [count, single, code]
      rw [List.foldl_cons, stays]
      exact ih p q rest
  | @escape c s _ ih =>
    rintro (_ | ⟨d, _ | ⟨e, p⟩⟩) q cut
    · exact ⟨_, rfl, rfl⟩
    · obtain ⟨rfl, -⟩ : '\\' = d ∧ c :: s = q := by simpa using cut
      exact ⟨.escaped '\'', rfl, rfl⟩
    · obtain ⟨rfl, rfl, rest⟩ : '\\' = d ∧ c = e ∧ s = p ++ q := by simpa using cut
      exact ih p q rest

/-- Outside of strings a single quote opens one. -/
theorem count_singleQuote (h : mode.inString = false) (b : Brackets) :
    count (mode, b) '\'' = (.quoted '\'', b) := by
  cases mode with
  | leading | code => rfl
  | quoted | escaped => cases h

variable {content : Text} {quote : Char}

/-- A written string leaves the counting in code, and counts nothing. -/
theorem foldl_quote (h : Piece.BodyForm quote content) (outside : mode.inString = false)
    (b : Brackets) : (ValueExpr.quote content).foldl count (mode, b) = (.code, b) := by
  have inside := inside_quoteContent (Piece.dangles_of_form h) b
  rw [ValueExpr.quote, List.cons_append, List.foldl_cons, count_singleQuote outside,
    List.foldl_append, inside]
  rfl

/-- Behind every character of a written string but the last, the counting is
    in a string, and has counted nothing. -/
theorem inString_of_quote (h : Piece.BodyForm quote content) (outside : mode.inString = false)
    (b : Brackets) (cut : ValueExpr.quote content = p ++ q) (front : p ≠ []) (back : q ≠ []) :
    ∃ inner, inner.inString = true ∧ p.foldl count (mode, b) = (inner, b) := by
  obtain ⟨c, p, rfl⟩ := List.exists_cons_of_ne_nil front
  obtain ⟨q, last, rfl⟩ := (List.eq_nil_or_concat' q).resolve_left back
  obtain ⟨rfl, rest⟩ : '\'' = c ∧ ValueExpr.quoteContent content ++ ['\''] = p ++ q ++ [last] := by
    simpa [ValueExpr.quote] using cut
  obtain ⟨inner, -⟩ := List.append_inj' rest rfl
  rw [List.foldl_cons, count_singleQuote outside]
  exact inString_of_form (ValueExpr.bodyForm_quoteContent h) b p q inner

end Layout

/-! ## Written strings -/

namespace Piece

theorem exists_cut_of_mem {source : Text} {piece : Piece} (mem : piece ∈ ofText source) :
    ∃ rest, Cut piece piece.lexeme? rest := by
  fun_induction ofText source with
  | case1 => cases mem
  | case2 c s ih =>
    rcases List.mem_cons.1 mem with rfl | mem
    · exact ⟨_, cut_take c s⟩
    · exact ih mem

/-- A closed string of a text has no bare quote of its own. -/
theorem bodyForm_of_mem {source content : Text} {quote : Char}
    (mem : .quoted quote content true ∈ ofText source) : BodyForm quote content := by
  obtain ⟨rest, cut⟩ := exists_cut_of_mem mem
  cases cut with
  | quoted _ form => exact form

end Piece

/-- **A string written between single quotes is the string that was read.**  It
    is read as one string, in front of any text; it stands for the same text,
    whatever escapes mean that are not written; and where the counting of
    brackets comes to it from outside of strings, it is in a string behind every
    character but the last, has left it behind the last, and has counted
    nothing. -/
theorem quote_agrees {source content : Text} {quote : Char}
    (mem : .quoted quote content true ∈ Piece.ofText source) :
    (∀ rest, Piece.ofText (ValueExpr.quote content ++ rest) =
      .quoted '\'' (ValueExpr.quoteContent content) true :: Piece.ofText rest) ∧
    (∀ e : Escapes, e.decode (ValueExpr.quoteContent content) = e.decode content) ∧
    ∀ before after : Text, '\'' ∉ before → '"' ∉ before →
      (∀ p q, ValueExpr.quote content = p ++ q → p ≠ [] → q ≠ [] →
        ∃ mode, mode.inString = true ∧
          (before ++ p).foldl count (.leading, ⟨0, 0, 0⟩) = (mode, brackets before)) ∧
      (before ++ ValueExpr.quote content).foldl count (.leading, ⟨0, 0, 0⟩) =
        (.code, brackets before) ∧
      brackets (before ++ ValueExpr.quote content ++ after) =
        (after.foldl count (.code, brackets before)).2 := by
  have form := Piece.bodyForm_of_mem mem
  refine ⟨ValueExpr.ofText_quote form, fun e => ValueExpr.decode_quoteContent e form, ?_⟩
  intro before after single double
  have outside : (before.foldl count (.leading, ⟨0, 0, 0⟩)).1.inString = false :=
    inString_foldl rfl single double
  have whole : (before ++ ValueExpr.quote content).foldl count (.leading, ⟨0, 0, 0⟩) =
      (.code, brackets before) := by
    rw [List.foldl_append]
    exact foldl_quote form outside (brackets before)
  refine ⟨fun p q cut front back => ?_, whole, ?_⟩
  · rw [List.foldl_append]
    exact inString_of_quote form outside (brackets before) cut front back
  · rw [brackets, List.foldl_append, whole]

/-- A string between double quotes: a single quote, brackets, an escape and a
    line feed. -/
def mixedContent : Text := "it's \x7b\\\"\n("

theorem quote_agrees_mixed :
    .quoted '"' mixedContent true ∈ Piece.ofText ('"' :: mixedContent ++ ['"']) ∧
    Piece.ofText (ValueExpr.quote mixedContent ++ "\x7d") =
      [.quoted '\'' "it\\'s \x7b\\\"\\n(" true, .mark .rightBrace] ∧
    Escapes.plain.decode (ValueExpr.quoteContent mixedContent) = "it's \x7b\"\n(" ∧
    brackets ("[ " ++ ValueExpr.quote mixedContent ++ "\x7d") = ⟨1, 1, 0⟩ := by
  have mem : .quoted '"' mixedContent true ∈ Piece.ofText ('"' :: mixedContent ++ ['"']) := by
    decide +kernel
  obtain ⟨read, stands, counted⟩ := quote_agrees mem
  obtain ⟨-, -, counts⟩ := counted "[ " "\x7d" (by decide) (by decide)
  refine ⟨mem, ?_, ?_, ?_⟩
  · rw [read]
    decide +kernel
  · rw [stands]
    rfl
  · rw [counts]
    decide

end IdlFlow
