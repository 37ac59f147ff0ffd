/-
  What an interface text is divided into.

  * `Piece.WordForm`, `Piece.BodyForm`, `Piece.TokenForm`: the forms of names and
    keywords, of what stands between quotes, and of all that a token may be;
  * `Piece.Cut piece said rest`: in front of `rest`, the piece is one blank, one
    comment, one character that starts no token, or one token; `said` is what
    the token says;
  * `Piece.Divided s parts`: the text `s` is cut into `parts`, one after the
    other;
  * `TokenStream.entries`: the tokens with what they say, and the end.

  Main statements: a text is divided in exactly one way, which is how it is
  read (`divided_iff`); nothing of the text is lost, and the tokens of the
  parts, with the end behind them, are the ones of its stream
  (`TokenStream.exists_division`).
-/
import IdlFlow.Idl.Token
import IdlFlow.Proofs.Characters
import IdlFlow.Proofs.Numerals

namespace IdlFlow

/-- The tokens of a stream, each with its position, and its end. -/
def TokenStream.entries (stream : TokenStream) : List (Option Lexeme × Position) :=
  stream.tokens.map (fun token => (some token.lexeme, token.position)) ++ [(none, stream.finish)]

/-- How a token is written: as its value, but for a string, which stands
    between quotes of which the second may be missing. -/
def Lexeme.SpeltAs : Lexeme → Text → Prop
  | .string content, t =>
    ∃ quote, (quote = '"' ∨ quote = '\'') ∧ (t = quote :: content ++ [quote] ∨ t = quote :: content)
  | l, t => t = l.value

namespace Piece

/-! ## Forms -/

/-- A letter or an underscore, and letters, numbers, underscores and points
    after it. -/
inductive WordForm : Text → Prop
  | word {c : Char} {s : Text} :
    startsWord c = true → (∀ d ∈ s, continuesWord d = true) → WordForm (c :: s)

/-- A text without a bare quote in which every backslash has a character to
    take. -/
inductive BodyForm (quote : Char) : Text → Prop
  | nil : BodyForm quote []
  | plain {c : Char} {s : Text} :
    c ≠ quote → c ≠ '\\' → BodyForm quote s → BodyForm quote (c :: s)
  | escape {c : Char} {s : Text} : BodyForm quote s → BodyForm quote ('\\' :: c :: s)

/-- A text between quotes as far as the end of the whole text: the last
    backslash may have nothing to take. -/
def TornForm (quote : Char) (body : Text) : Prop :=
  BodyForm quote body ∨ ∃ s, BodyForm quote s ∧ body = s ++ ['\\']

/-- What a token may be. -/
inductive TokenForm : Text → Prop
  | mark (m : Mark) : TokenForm [m.char]
  | word {t : Text} : WordForm t → TokenForm t
  | numeral {t : Text} : Numeral.Form t → TokenForm t
  | quoted {quote : Char} {body : Text} :
    quote = '"' ∨ quote = '\'' → BodyForm quote body → TokenForm (quote :: body ++ [quote])
  | torn {quote : Char} {body : Text} :
    quote = '"' ∨ quote = '\'' → TornForm quote body → TokenForm (quote :: body)

/-- The openings of comments. -/
def commentOpenings : List Text := [['#'], ['/', '/'], ['/', '*']]

/-- In front of `rest`, the piece ends where it must, and `said` is what it
    says. -/
inductive Cut : Piece → Option Lexeme → Text → Prop
  | blank {c : Char} {rest : Text} : c ∈ [' ', '\t', '\r', '\n'] → Cut (.blank c) none rest
  /-- A line comment goes on to the end of its line. -/
  | remark {opening body rest : Text} :
    opening = ['#'] ∨ opening = ['/', '/'] → '\n' ∉ body → (∀ c ∈ rest.head?, c = '\n') →
    Cut (.remark (opening ++ body)) none rest
  /-- The first closing ends a comment, -/
  | aside {body rest : Text} :
    ¬ ['*', '/'] <:+: body ++ ['*'] → Cut (.aside ('/' :: '*' :: body ++ ['*', '/'])) none rest
  /-- or the end of the text. -/
  | openAside {body : Text} : ¬ ['*', '/'] <:+: body → Cut (.aside ('/' :: '*' :: body)) none []
  /-- A character with which no comment and no token starts. -/
  | stray {c : Char} {rest : Text} :
    c ∉ [' ', '\t', '\r', '\n'] → (∀ opening ∈ commentOpenings, ¬ opening <+: c :: rest) →
    (∀ t, TokenForm t → ¬ t <+: c :: rest) → Cut (.stray c) none rest
  | mark {m : Mark} {rest : Text} : Cut (.mark m) (some (.mark m)) rest
  /-- The first quote that no backslash takes ends a string, -/
  | quoted {quote : Char} {body rest : Text} :
    quote = '"' ∨ quote = '\'' → BodyForm quote body →
    Cut (.quoted quote body true) (some (.string body)) rest
  /-- or the end of the text. -/
  | torn {quote : Char} {body : Text} :
    quote = '"' ∨ quote = '\'' → TornForm quote body →
    Cut (.quoted quote body false) (some (.string body)) []
  | numeral {n : Numeral} {rest : Text} :
    n.Written → Text.Longest Numeral.Form n.text rest → Cut (.numeral n) (some (.numeral n)) rest
  | keyword {k : Keyword} {rest : Text} :
    Text.Longest WordForm k.spelling rest → Cut (.word k.spelling) (some (.keyword k)) rest
  | identifier {t rest : Text} :
    Text.Longest WordForm t rest → (∀ k : Keyword, k.spelling ≠ t) →
    Cut (.word t) (some (.identifier t)) rest

/-- A text divided from its first character to its last. -/
inductive Divided : Text → List (Text × Option Lexeme) → Prop
  | nil : Divided [] []
  | cons {piece : Piece} {rest : Text} {said : Option Lexeme}
      {parts : List (Text × Option Lexeme)} :
    Cut piece said rest → Divided rest parts →
    Divided (piece.text ++ rest) ((piece.text, said) :: parts)

/-! ## First characters -/

/-- The characters that decide a piece on their own, or with the next one. -/
def openers : List Char := [' ', '\t', '\r', '\n', '#', '/', '"', '\''] ++ Mark.all.map Mark.char

theorem openers_start_nothing : openers.all (fun c =>
    !startsWord c && !Text.isDigit c && !Numeral.isSign c) = true := by decide

theorem of_mem_openers {c : Char} (h : c ∈ openers) :
    startsWord c = false ∧ Text.isDigit c = false ∧ Numeral.isSign c = false := by
  simpa [and_assoc] using List.all_eq_true.1 openers_start_nothing c h

theorem startsNumeral_of_mem_openers {c : Char} (h : c ∈ openers) (s : Text) :
    startsNumeral (c :: s) = false := by
  obtain ⟨-, noDigit, noSign⟩ := of_mem_openers h
  cases s <;> simp [startsNumeral, noDigit, noSign]

theorem startsNumeral_of_startsWord {c : Char} (h : startsWord c = true) (s : Text) :
    startsNumeral (c :: s) = false := by
  have noSign : Numeral.isSign c = false := by
    cases sign : Numeral.isSign c with
    | false => rfl
    | true =>
      simp only [Numeral.isSign, Bool.or_eq_true, decide_eq_true_eq] at sign
      rcases sign with rfl | rfl <;> exact absurd h (by decide)
  have noDigit : Text.isDigit c = false := by
    simp only [startsWord, Bool.or_eq_true, decide_eq_true_eq] at h
    rcases h with h | rfl
    · exact Text.isDigit_of_isLetter h
    · decide
  cases s <;> simp [startsNumeral, noSign, noDigit]

/-- A character that opens nothing starts a numeral, a word or nothing. -/
theorem take_of_not_mem_openers {c : Char} (h : c ∉ openers) (s : Text) :
    take c s =
      if startsNumeral (c :: s) then (numeral (Numeral.scan (c :: s)).1, (Numeral.scan (c :: s)).2)
      else if startsWord c then
        (word (c :: s.takeWhile continuesWord), s.dropWhile continuesWord)
      else (stray c, s) := by
  simp only [openers, List.mem_append, List.mem_cons, List.not_mem_nil, or_false, not_or,
    List.mem_map, not_exists, not_and] at h
  obtain ⟨⟨h₁, h₂, h₃, h₄, h₅, h₆, h₇, h₈⟩, marks⟩ := h
  have noMark : Mark.ofChar? c = none := by
    cases found : Mark.ofChar? c with
    | none => rfl
    | some m => exact absurd (Mark.char_of_ofChar? found) (marks m (Mark.mem_all m))
  simp [take, isBlank, h₁, h₂, h₃, h₄, h₅, h₆, h₇, h₈, noMark]

/-! ## Comments -/

/-- A closing in front of a text, or behind its first character. -/
theorem closing_infix_cons {c : Char} {s : Text} :
    ['*', '/'] <:+: c :: s ↔ (c = '*' ∧ ['/'] <+: s) ∨ ['*', '/'] <:+: s := by
  rw [List.infix_cons_iff, List.cons_prefix_cons]
  exact or_congr_left (and_congr_left' eq_comm)

theorem takeAside_cons {c : Char} {s : Text} (h : ¬ (c = '*' ∧ ['/'] <+: s)) :
    takeAside (c :: s) = (c :: (takeAside s).1, (takeAside s).2) := by
  rw [takeAside]
  rintro t rfl rfl
  exact h ⟨rfl, by simp⟩

theorem takeAside_of_closed {body : Text} (h : ¬ ['*', '/'] <:+: body ++ ['*']) (rest : Text) :
    takeAside (body ++ '*' :: '/' :: rest) = (body ++ ['*', '/'], rest) := by
  induction body with
  | nil => rfl
  | cons c body ih =>
    rw [List.cons_append, closing_infix_cons, not_or] at h
    have still : ¬ (c = '*' ∧ ['/'] <+: body ++ '*' :: '/' :: rest) := by
      rintro ⟨rfl, slash⟩
      cases body with
      | nil => simp at slash
      | cons d body => exact h.1 ⟨rfl, by simpa using slash⟩
    rw [List.cons_append, takeAside_cons still, ih h.2]
    rfl

theorem takeAside_of_open {body : Text} (h : ¬ ['*', '/'] <:+: body) :
    takeAside body = (body, []) := by
  induction body with
  | nil => rfl
  | cons c body ih =>
    rw [closing_infix_cons, not_or] at h
    rw [takeAside_cons h.1, ih h.2]

/-- A text has a first closing or none. -/
theorem exists_closing (s : Text) :
    (∃ body rest, s = body ++ '*' :: '/' :: rest ∧ ¬ ['*', '/'] <:+: body ++ ['*']) ∨
      ¬ ['*', '/'] <:+: s := by
  induction s with
  | nil => exact .inr (by simp)
  | cons c s ih =>
    by_cases here : c = '*' ∧ ['/'] <+: s
    · obtain ⟨rfl, rest, rfl⟩ := here
      exact .inl ⟨[], rest, rfl, by simp [closing_infix_cons]⟩
    rcases ih with ⟨body, rest, rfl, first⟩ | none
    · refine .inl ⟨c :: body, rest, rfl, ?_⟩
      rw [List.cons_append, closing_infix_cons, not_or]
      refine ⟨fun ⟨star, slash⟩ => here ⟨star, ?_⟩, first⟩
      cases body with
      | nil => simp at slash
      | cons d body => simpa using slash
    · exact .inr fun within => (closing_infix_cons.1 within).elim here none

/-! ## Strings -/

theorem TornForm.cons {quote c : Char} {s : Text} (h : TornForm quote s) (ne : c ≠ quote)
    (plain : c ≠ '\\') : TornForm quote (c :: s) := by
  rcases h with h | ⟨t, h, rfl⟩
  · exact .inl (.plain ne plain h)
  · exact .inr ⟨c :: t, .plain ne plain h, rfl⟩

theorem TornForm.escape {quote c : Char} {s : Text} (h : TornForm quote s) :
    TornForm quote ('\\' :: c :: s) := by
  rcases h with h | ⟨t, h, rfl⟩
  · exact .inl (.escape h)
  · exact .inr ⟨'\\' :: c :: t, .escape h, rfl⟩

theorem takeBody_cases (quote : Char) (s : Text) :
    BodyForm quote (takeBody quote s).1 ∧ (takeBody quote s).2.1 = true ∨
      TornForm quote (takeBody quote s).1 ∧ (takeBody quote s).2 = (false, []) := by
  fun_induction takeBody quote s with
  | case1 => exact .inr ⟨.inl .nil, rfl⟩
  | case2 s => exact .inl ⟨.nil, rfl⟩
  | case3 => exact .inr ⟨.inr ⟨[], .nil, rfl⟩, rfl⟩
  | case4 d s body closed rest eq _ ih =>
    rw [eq] at ih
    exact ih.imp (.imp .escape id) (.imp .escape id)
  | case5 c s ne plain body closed rest eq ih =>
    rw [eq] at ih
    exact ih.imp (.imp (.plain ne plain) id) (.imp (·.cons ne plain) id)

theorem takeBody_of_form {quote : Char} (code : quote ≠ '\\') {body : Text}
    (h : BodyForm quote body) (s : Text) :
    takeBody quote (body ++ s) = (body ++ (takeBody quote s).1, (takeBody quote s).2) := by
  induction h with
  | nil => rfl
  | plain ne noEscape _ ih =>
    rw [List.cons_append, takeBody.eq_def]
    simp [ne, noEscape, ih]
  | escape _ ih => simp [takeBody, code.symm, ih]

theorem dangles_of_form {quote : Char} {body : Text} (h : BodyForm quote body) :
    Position.dangles body = false := by
  induction h with
  | nil => rfl
  | plain _ noEscape _ ih => rwa [Position.dangles_cons noEscape]
  | escape _ ih => exact ih

/-! ## Words -/

theorem WordForm.continues {t : Text} (h : WordForm t) : ∀ c ∈ t, continuesWord c = true := by
  obtain ⟨first, others⟩ := h
  intro d mem
  rcases List.mem_cons.1 mem with rfl | mem
  · exact continuesWord_of_startsWord first
  · exact others d mem

/-- The word that is taken off is the longest one. -/
theorem longest_word {c : Char} (h : startsWord c = true) (s : Text) :
    Text.Longest WordForm (c :: s.takeWhile continuesWord) (s.dropWhile continuesWord) :=
  .of_stop (.word h (List.all_eq_true.1 List.all_takeWhile)) (fun _ form => form.continues)
    (Text.stop_dropWhile continuesWord s)

theorem lexeme?_word_spelling (k : Keyword) :
    (word k.spelling).lexeme? = some (.keyword k) := by
  simp [lexeme?, Keyword.ofText?_spelling]

theorem lexeme?_word {t : Text} (h : ∀ k : Keyword, k.spelling ≠ t) :
    (word t).lexeme? = some (.identifier t) := by
  have none : Keyword.ofText? t = none := by
    cases found : Keyword.ofText? t with
    | none => rfl
    | some k => exact absurd (Keyword.spelling_of_ofText? found) (h k)
  simp [lexeme?, none]

/-- What a word says, a keyword or an identifier. -/
theorem cut_word {t rest : Text} (h : Text.Longest WordForm t rest) :
    Cut (.word t) (word t).lexeme? rest := by
  by_cases keyword : ∃ k : Keyword, k.spelling = t
  · obtain ⟨k, rfl⟩ := keyword
    rw [lexeme?_word_spelling]
    exact .keyword h
  · have other : ∀ k : Keyword, k.spelling ≠ t := fun k e => keyword ⟨k, e⟩
    rw [lexeme?_word other]
    exact .identifier h other

/-! ## What is taken off is cut off -/

/-- The rest of a line has no line feed, and one ends it. -/
theorem takeRemark_stops (s : Text) :
    '\n' ∉ (takeRemark s).1 ∧ ∀ c ∈ (takeRemark s).2.head?, c = '\n' := by
  constructor
  · intro mem
    simpa using List.all_eq_true.1 List.all_takeWhile _ mem
  · intro c first
    simpa using Text.stop_dropWhile (· ≠ '\n') s c first

theorem cut_remark {opening : Text} (h : opening = ['#'] ∨ opening = ['/', '/']) (s : Text) :
    Cut (.remark (opening ++ (takeRemark s).1)) none (takeRemark s).2 :=
  .remark h (takeRemark_stops s).1 (takeRemark_stops s).2

theorem cut_aside (s : Text) :
    Cut (.aside ('/' :: '*' :: (takeAside s).1)) none (takeAside s).2 := by
  rcases exists_closing s with ⟨body, rest, rfl, first⟩ | noClosing
  · rw [takeAside_of_closed first]
    exact .aside first
  · rw [takeAside_of_open noClosing]
    exact .openAside noClosing

theorem cut_quoted {quote : Char} (h : quote = '"' ∨ quote = '\'') (s : Text) :
    Cut (.quoted quote (takeBody quote s).1 (takeBody quote s).2.1)
      (some (.string (takeBody quote s).1)) (takeBody quote s).2.2 := by
  rcases takeBody_cases quote s with ⟨form, closed⟩ | ⟨form, torn⟩
  · rw [closed]
    exact .quoted h form
  · rw [torn]
    exact .torn h form

/-- **The first piece of a text is one part of a division.** -/
theorem cut_take (c : Char) (s : Text) :
    Cut (take c s).1 (take c s).1.lexeme? (take c s).2 := by
  unfold take
  split
  · next blank => exact .blank (by simpa [isBlank, or_assoc] using blank)
  next noBlank =>
  split
  · next opening =>
    rcases opening with rfl | ⟨rfl, slash⟩
    · exact cut_remark (.inl rfl) s
    · obtain ⟨s, rfl⟩ := List.head?_eq_some_iff.1 slash
      simpa [takeRemark, lexeme?] using cut_remark (.inr rfl) s
  next noRemark =>
  split
  · next opening =>
    obtain ⟨rfl, star⟩ := opening
    obtain ⟨s, rfl⟩ := List.head?_eq_some_iff.1 star
    exact cut_aside s
  next noAside =>
  split
  · exact .mark
  next noMark =>
  split
  · next quote => exact cut_quoted quote s
  next noQuote =>
  split
  · next starts => exact .numeral (Numeral.written_scan starts) (Numeral.longest_scan starts)
  next noNumeral =>
  split
  · next starts => exact cut_word (longest_word starts s)
  next noWord =>
  refine .stray ?_ ?_ ?_
  · simpa [isBlank, or_assoc] using noBlank
  · rintro opening mem ⟨t, eq⟩
    simp only [commentOpenings, List.mem_cons, List.not_mem_nil, or_false] at mem
    rcases mem with rfl | rfl | rfl
    · exact noRemark (.inl (List.cons.inj eq).1.symm)
    · obtain ⟨rfl, rfl⟩ := List.cons.inj eq
      exact noRemark (.inr ⟨rfl, rfl⟩)
    · obtain ⟨rfl, rfl⟩ := List.cons.inj eq
      exact noAside ⟨rfl, rfl⟩
  · rintro _ form ⟨t, eq⟩
    cases form with
    | mark m =>
      obtain ⟨rfl, -⟩ := List.cons.inj eq
      rw [Mark.ofChar?_char] at noMark
      cases noMark
    | word form =>
      obtain ⟨starts, -⟩ := form
      obtain ⟨rfl, -⟩ := List.cons.inj eq
      exact noWord starts
    | numeral form =>
      obtain ⟨n, written, rfl⟩ := form
      exact noNumeral (eq ▸ Numeral.startsNumeral_of_written written t)
    | quoted quote =>
      obtain ⟨rfl, -⟩ := List.cons.inj eq
      exact noQuote quote
    | torn quote =>
      obtain ⟨rfl, -⟩ := List.cons.inj eq
      exact noQuote quote

/-! ## What is cut off is taken off -/

/-- What is taken off the text of the piece and `rest` is the piece. -/
def TakenOff (piece : Piece) (rest : Text) : Prop :=
  ∃ c s, piece.text = c :: s ∧ take c (s ++ rest) = (piece, rest)

theorem takeRemark_of_stop {body rest : Text} (h : '\n' ∉ body)
    (stop : ∀ c ∈ rest.head?, c = '\n') : takeRemark (body ++ rest) = (body, rest) := by
  have plain : ∀ c ∈ body, decide (c ≠ '\n') = true := by
    intro c mem
    rw [decide_eq_true_eq]
    rintro rfl
    exact h mem
  rw [takeRemark, List.takeWhile_append_of_pos plain, List.dropWhile_append_of_pos plain]
  cases rest with
  | nil => simp
  | cons c rest => simp [stop c rfl]

theorem takenOff_remark {opening body rest : Text} (h : opening = ['#'] ∨ opening = ['/', '/'])
    (line : '\n' ∉ body) (stop : ∀ c ∈ rest.head?, c = '\n') :
    TakenOff (.remark (opening ++ body)) rest := by
  rcases h with rfl | rfl
  · exact ⟨'#', body, rfl, by simp [take, isBlank, takeRemark_of_stop line stop]⟩
  · have line : '\n' ∉ '/' :: body := by simp [line]
    have taken := takeRemark_of_stop line stop
    rw [List.cons_append] at taken
    exact ⟨'/', '/' :: body, rfl, by simp [take, isBlank, taken]⟩

theorem takenOff_numeral {n : Numeral} {rest : Text} (h : n.Written)
    (longest : Text.Longest Numeral.Form n.text rest) :
    TakenOff (.numeral n) rest := by
  have starts := Numeral.startsNumeral_of_written h rest
  have scanned := Numeral.scan_of_longest h longest
  have ne := text_scan_ne_nil starts
  rw [scanned] at ne
  obtain ⟨c, s, eq⟩ := List.exists_cons_of_ne_nil ne
  rw [eq, List.cons_append] at starts scanned
  have noOpener : c ∉ openers := fun mem => by
    rw [startsNumeral_of_mem_openers mem] at starts
    cases starts
  refine ⟨c, s, eq, ?_⟩
  rw [take_of_not_mem_openers noOpener, if_pos starts, scanned]

theorem takenOff_word {t rest : Text} (h : Text.Longest WordForm t rest) :
    TakenOff (.word t) rest := by
  obtain @⟨c, s, starts, -⟩ := h.form
  have noOpener : c ∉ openers := fun mem => by
    rw [(of_mem_openers mem).1] at starts
    cases starts
  have noNumeral : startsNumeral (c :: (s ++ rest)) = false := startsNumeral_of_startsWord starts _
  obtain ⟨run, behind⟩ := (longest_word starts (s ++ rest)).unique h (by simp)
  refine ⟨c, s, rfl, ?_⟩
  rw [take_of_not_mem_openers noOpener, noNumeral, starts, run, behind]
  rfl

theorem take_quote {quote : Char} (h : quote = '"' ∨ quote = '\'') (s : Text) :
    take quote s =
      (quoted quote (takeBody quote s).1 (takeBody quote s).2.1, (takeBody quote s).2.2) := by
  have noMark : Mark.ofChar? quote = none := by rcases h with rfl | rfl <;> decide
  rcases h with rfl | rfl <;> simp [take, isBlank, noMark]

theorem takenOff_quoted {quote : Char} (h : quote = '"' ∨ quote = '\'') {body rest : Text}
    (form : BodyForm quote body) :
    TakenOff (.quoted quote body true) rest := by
  have code : quote ≠ '\\' := by rcases h with rfl | rfl <;> decide
  have taken : takeBody quote (body ++ [quote] ++ rest) = (body, true, rest) := by
    rw [List.append_assoc, takeBody_of_form code form, List.singleton_append, takeBody.eq_def]
    simp
  exact ⟨quote, body ++ [quote], rfl, by rw [take_quote h, taken]⟩

theorem takenOff_torn {quote : Char} (h : quote = '"' ∨ quote = '\'') {body : Text}
    (form : TornForm quote body) : TakenOff (.quoted quote body false) [] := by
  have code : quote ≠ '\\' := by rcases h with rfl | rfl <;> decide
  have taken : takeBody quote (body ++ []) = (body, false, []) := by
    rcases form with form | ⟨s, form, rfl⟩
    · rw [takeBody_of_form code form]
      simp [takeBody]
    · rw [List.append_assoc, takeBody_of_form code form]
      simp [takeBody, code.symm]
  exact ⟨quote, body, by simp [text], by rw [take_quote h, taken]⟩

theorem takenOff_stray {c : Char} {rest : Text} (noBlank : c ∉ [' ', '\t', '\r', '\n'])
    (noComment : ∀ opening ∈ commentOpenings, ¬ opening <+: c :: rest)
    (noToken : ∀ t, TokenForm t → ¬ t <+: c :: rest) : TakenOff (.stray c) rest := by
  have alone : [c] <+: c :: rest := ⟨rest, rfl⟩
  have blank : isBlank c = false := by simpa [isBlank, and_assoc] using noBlank
  have remark : ¬ (c = '#' ∨ c = '/' ∧ rest.head? = some '/') := by
    rintro (rfl | ⟨rfl, slash⟩)
    · exact noComment ['#'] (by decide) alone
    · obtain ⟨others, rfl⟩ := List.head?_eq_some_iff.1 slash
      exact noComment ['/', '/'] (by decide) ⟨others, rfl⟩
  have aside : ¬ (c = '/' ∧ rest.head? = some '*') := by
    rintro ⟨rfl, star⟩
    obtain ⟨others, rfl⟩ := List.head?_eq_some_iff.1 star
    exact noComment ['/', '*'] (by decide) ⟨others, rfl⟩
  have mark : Mark.ofChar? c = none := by
    cases found : Mark.ofChar? c with
    | none => rfl
    | some m => exact absurd alone (Mark.char_of_ofChar? found ▸ noToken _ (.mark m))
  have quote : ¬ (c = '"' ∨ c = '\'') := fun quote => noToken [c] (.torn quote (.inl .nil)) alone
  have numeral : startsNumeral (c :: rest) = false := by
    cases starts : startsNumeral (c :: rest) with
    | false => rfl
    | true =>
      exact absurd ⟨_, Numeral.text_scan _⟩
        (noToken _ (.numeral ⟨_, Numeral.written_scan starts, rfl⟩))
  have word : startsWord c = false := by
    cases starts : startsWord c with
    | false => rfl
    | true => exact absurd alone (noToken _ (.word (.word starts (by simp))))
  refine ⟨c, [], rfl, ?_⟩
  rw [List.nil_append, take]
  simp only [blank, if_neg remark, if_neg aside, mark, if_neg quote, numeral, word]
  rfl

/-- **A part of a division is the piece that is taken off.** -/
theorem Cut.takenOff {piece : Piece} {rest : Text} {said : Option Lexeme}
    (h : Cut piece said rest) : TakenOff piece rest := by
  cases h with
  | @blank c rest h =>
    have : isBlank c = true := by simpa [isBlank, or_assoc] using h
    exact ⟨c, [], rfl, by simp [take, this]⟩
  | remark h line stop => exact takenOff_remark h line stop
  | @aside body rest first =>
    exact ⟨'/', '*' :: body ++ ['*', '/'], rfl, by simp [take, isBlank, takeAside_of_closed first]⟩
  | @openAside body first =>
    exact ⟨'/', '*' :: body, rfl, by simp [take, isBlank, takeAside_of_open first]⟩
  | stray noBlank noComment noToken => exact takenOff_stray noBlank noComment noToken
  | @mark m rest => exact ⟨m.char, [], rfl, by cases m <;> rfl⟩
  | quoted h form => exact takenOff_quoted h form
  | torn h form => exact takenOff_torn h form
  | numeral h longest => exact takenOff_numeral h longest
  | keyword h => exact takenOff_word h
  | identifier h => exact takenOff_word h

theorem Cut.lexeme?_eq {piece : Piece} {rest : Text} {said : Option Lexeme}
    (h : Cut piece said rest) : piece.lexeme? = said := by
  cases h with
  | keyword => exact lexeme?_word_spelling _
  | identifier _ other => exact lexeme?_word other
  | _ => rfl

/-! ## Divisions -/

/-- The pieces of a text as a division. -/
def division (s : Text) : List (Text × Option Lexeme) :=
  (ofText s).map fun piece => (piece.text, piece.lexeme?)

theorem divided_division (s : Text) : Divided s (division s) := by
  fun_induction ofText s with
  | case1 => simpa [division, ofText] using Divided.nil
  | case2 c s ih =>
    have := Divided.cons (cut_take c s) ih
    rw [text_take] at this
    rw [division, ofText]
    exact this

theorem Divided.eq_division {s : Text} {parts : List (Text × Option Lexeme)}
    (h : Divided s parts) : parts = division s := by
  induction h with
  | nil => simp [division, ofText]
  | cons cut _ ih =>
    obtain ⟨c, s, text, taken⟩ := cut.takenOff
    rw [text, List.cons_append, division, ofText, taken, List.map_cons, text, cut.lexeme?_eq, ih]
    rfl

/-- **A text is divided in one way only, which is how it is read.** -/
theorem divided_iff {s : Text} {parts : List (Text × Option Lexeme)} :
    Divided s parts ↔ parts = division s := by
  constructor
  · exact Divided.eq_division
  · rintro rfl
    exact divided_division s

/-- A sign before a point starts a numeral, and one before a letter nothing. -/
example : (division "a.b=-.5e+//z\n+c").map Prod.fst =
    (["a.b", "=", "-.5e+", "//z", "\n", "+", "c"] : List Text) := by decide +kernel

theorem Divided.cut_of_mem {s t : Text} {parts : List (Text × Option Lexeme)}
    {said : Option Lexeme} (h : Divided s parts) (mem : (t, said) ∈ parts) :
    ∃ piece rest, piece.text = t ∧ Cut piece said rest := by
  induction h with
  | nil => cases mem
  | @cons piece rest _ _ cut _ ih =>
    rcases List.mem_cons.1 mem with eq | mem
    · cases eq
      exact ⟨piece, rest, rfl, cut⟩
    · exact ih mem

theorem Cut.speltAs {piece : Piece} {rest : Text} {l : Lexeme} (h : Cut piece (some l) rest) :
    l.SpeltAs piece.text := by
  cases h with
  | quoted quote _ => exact ⟨_, quote, .inl rfl⟩
  | torn quote _ => exact ⟨_, quote, .inr (by simp [text])⟩
  | mark | numeral | keyword | identifier => rfl

end Piece

namespace TokenStream

theorem entries_ofText (s : Text) :
    (ofText s).entries.map Prod.fst =
      ((Piece.ofText s).filterMap Piece.lexeme?).map some ++ [none] := by
  rw [← lexemes_ofText]
  simp [entries]

/-- The tokens of a stream say what the parts of its text say. -/
theorem lexemes_of_divided {s : Text} {parts : List (Text × Option Lexeme)}
    (h : Piece.Divided s parts) :
    (ofText s).tokens.map Token.lexeme = parts.filterMap Prod.snd := by
  rw [lexemes_ofText, h.eq_division, Piece.division, List.filterMap_map]
  rfl

/-- **Every text has one division, of which nothing is lost and whose tokens,
    with the end behind them, are those of the stream.** -/
theorem exists_division (s : Text) :
    ∃ division : List (Text × Option Lexeme),
      (∀ parts, Piece.Divided s parts ↔ parts = division) ∧
      division.flatMap Prod.fst = s ∧
      (ofText s).entries.map Prod.fst = (division.filterMap Prod.snd).map some ++ [none] ∧
      ∀ t l, (t, some l) ∈ division → l.SpeltAs t := by
  refine ⟨Piece.division s, fun _ => Piece.divided_iff, ?_, ?_, ?_⟩
  · rw [Piece.division, List.flatMap_map]
    exact Piece.flatMap_text_ofText s
  · rw [entries_ofText, Piece.division, List.filterMap_map]
    rfl
  · intro t l mem
    obtain ⟨piece, rest, rfl, cut⟩ := (Piece.divided_division s).cut_of_mem mem
    exact cut.speltAs

end TokenStream

end IdlFlow
