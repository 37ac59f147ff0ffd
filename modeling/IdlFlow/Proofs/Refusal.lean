/-
  Which texts are refused, and how.

  * `Viable s`: some document begins with the lexemes `s`;
  * `Valueless s e`: the first lexeme with which no document goes on is a
    numeral without a value, in the place of one with a value.

  Main statements: a failure that names a token names the first one with which
  no document goes on (`parse_unexpected`); a text is refused without a
  position exactly if such a numeral is the first thing wrong, and every other
  text is read or refused with a position (`parse_outcome`).
-/
import IdlFlow.Proofs.Completeness
import IdlFlow.Proofs.Promptness

namespace IdlFlow.Parser

open Grammar

/-! ## All statements of a text -/

/-- All statements up to the end. -/
abbrev statements : Parser (List Statement) := manyUntil none statement

/-- Statements that begin with the tokens end somewhere. -/
def Ends (used : List Token) : Prop := ∃ more as, statements (used ++ more) = .ok (as, [])

/-- The three ways to read all statements: to the end, up to a token with which
    none goes on, or up to a numeral without a value. -/
inductive EndsAt : List Token → Prop
  | ok (tokens : List Token) (as : List Statement) : statements tokens = .ok (as, []) →
      EndsAt tokens
  | unexpected (used rest : List Token) (wanted : Wanted) : Ends used →
      (∀ rest', look rest' = look rest →
        statements (used ++ rest') = .error (.unexpected wanted rest')) →
      EndsAt (used ++ rest)
  | numeral (used after : List Token) (n : Numeral) (position : Position) (e : NumeralError) :
      n.Fails e → Ends (used ++ [⟨.numeral (.sample n.isInteger), position⟩]) →
      (∀ after', statements (used ++ ⟨.numeral n, position⟩ :: after') = .error (.numeral e)) →
      EndsAt (used ++ ⟨.numeral n, position⟩ :: after)

theorem progresses_statement : Progresses statement :=
  sound_statement.progresses fun _ _ h => List.length_pos_iff.1 (length_pos_of_statement h)

theorem statements_eq {tokens : List Token} (ne : tokens ≠ []) :
    statements tokens = (statement >>= fun a => (a :: ·) <$> statements) tokens := by
  cases tokens with
  | nil => exact absurd rfl ne
  | cons t ts => exact manyUntil_cons progresses_statement (by simp)

theorem ne_nil_of_look {tokens tokens' : List Token} (h : look tokens' = look tokens)
    (ne : tokens ≠ []) : tokens' ≠ [] := by
  rintro rfl
  cases tokens with
  | nil => exact ne rfl
  | cons t ts => simp [look] at h

/-- The first statement, and then the others. -/
theorem statements_of_ok {tokens rest : List Token} {a : Statement} (ne : tokens ≠ [])
    (h : statement tokens = .ok (a, rest)) :
    statements tokens = (statements rest).map fun x => (a :: x.1, x.2) := by
  rw [statements_eq ne, bind_of_ok h]
  change (statements rest >>= fun x => _) = _
  cases statements rest <;> rfl

theorem statements_of_error {tokens : List Token} {e : Failure} (ne : tokens ≠ [])
    (h : statement tokens = .error e) : statements tokens = .error e := by
  rw [statements_eq ne, bind_of_error h]

theorem ends_of_completes {used : List Token} (h : Completes statement used) : Ends used := by
  obtain ⟨more, a, run⟩ := h
  by_cases ne : used ++ more = []
  · exact ⟨[], [], by simp [List.append_eq_nil_iff.1 ne, manyUntil_nil]⟩
  · refine ⟨more, [a], ?_⟩
    have := run []
    rw [List.append_nil] at this
    rw [statements_of_ok ne this, statements, manyUntil_nil]
    rfl

/-- One statement before the others. -/
theorem ends_append {used used' rest : List Token} {a : Statement} (ne : used ≠ [])
    (run : ∀ rest', look rest' = look rest → statement (used ++ rest') = .ok (a, rest'))
    (h : Ends used') (next : ∀ r, look (used' ++ r) = look rest) : Ends (used ++ used') := by
  obtain ⟨more, as, all⟩ := h
  refine ⟨more, a :: as, ?_⟩
  rw [List.append_assoc, statements_of_ok (by simp [ne]) (run _ (next more)), all]
  rfl

theorem endsAt (tokens : List Token) : EndsAt tokens := by
  induction len : tokens.length using Nat.strongRecOn generalizing tokens with
  | ind k ih =>
    by_cases ne : tokens = []
    · subst ne
      exact .ok [] [] (manyUntil_nil _ _)
    cases (exact_statement (n := tokens.length)).on tokens (Nat.le_refl _) with
    | unexpected used rest wanted more run =>
      refine .unexpected used rest wanted (ends_of_completes more) fun r e => ?_
      exact statements_of_error (ne_nil_of_look (look_append_congr e used) ne) (run r e)
    | numeral used after n position e fails more run =>
      refine .numeral used after n position e fails (ends_of_completes more) fun r => ?_
      exact statements_of_error (by simp) (run r)
    | ok used rest a more run =>
      have some : used ≠ [] := by
        rintro rfl
        obtain ⟨t, ts, rfl⟩ := List.exists_cons_of_ne_nil ne
        exact absurd (progresses_statement (run _ rfl)) (by simp)
      have then_ (r : List Token) (h : look r = look rest) :
          statements (used ++ r) = (statements r).map fun x => (a :: x.1, x.2) :=
        statements_of_ok (by simp [some]) (run r h)
      have pos := List.length_pos_iff.2 some
      rw [List.length_append] at len
      cases ih rest.length (by omega) rest rfl with
      | ok _ as all => exact .ok _ (a :: as) (by rw [then_ rest rfl, all]; rfl)
      | unexpected used' rest' wanted more' run' =>
        rw [← List.append_assoc]
        refine .unexpected (used ++ used') rest' wanted ?_ fun r h => ?_
        · by_cases nil : used' = []
          · rw [nil, List.append_nil]
            exact ends_of_completes more
          · exact ends_append some run more' fun r => look_append nil r rest'
        · rw [List.append_assoc, then_ _ (look_append_congr h used'), run' r h]
          rfl
      | numeral used' after n position e fails more' run' =>
        rw [← List.append_assoc]
        refine .numeral (used ++ used') after n position e fails ?_ fun r => ?_
        · rw [List.append_assoc]
          refine ends_append some run more' fun r => ?_
          rw [List.append_assoc]
          exact look_append_cons (shape_sample n) used' position position r after
        · rw [List.append_assoc, then_ _ (look_append_cons rfl used' position position r after),
            run' r]
          rfl

/-! ## Viable lexemes -/

/-- Some document begins with the lexemes. -/
def Viable (s : List Lexeme) : Prop := ∃ more d, DocumentForm (s ++ more) d

theorem Viable.left {s t : List Lexeme} (h : Viable (s ++ t)) : Viable s := by
  obtain ⟨more, d, h⟩ := h
  exact ⟨t ++ more, d, by rwa [← List.append_assoc]⟩

theorem document_of_statements (tokens : List Token) :
    document tokens = (statements tokens).map fun x => (.ofStatements x.1, x.2) := by
  change (statements tokens >>= fun x => _) = _
  cases statements tokens <;> rfl

theorem viable_of_ends {used : List Token} (h : Ends used) : Viable (lexemes used) := by
  obtain ⟨more, as, all⟩ := h
  have read : document (used ++ more) = .ok (.ofStatements as, []) := by
    rw [document_of_statements, all]
    rfl
  refine ⟨lexemes more, .ofStatements as, ?_⟩
  simpa [lexemes] using sound_document read

/-- What is viable is not refused. -/
theorem not_viable_of_error {used : List Token}
    (h : ∀ rest, ∃ e, statements (used ++ rest) = .error e) : ¬ Viable (lexemes used) := by
  rintro ⟨more, d, form⟩
  let rest : List Token := more.map fun l => ⟨l, .start⟩
  have text : lexemes (used ++ rest) = lexemes used ++ more := by
    simp [lexemes, rest, Function.comp_def]
  obtain ⟨left, read, -⟩ := reads_document form (used ++ rest) text
  obtain ⟨e, refused⟩ := h rest
  rw [document_of_statements, refused] at read
  cases read

/-- A token that is refused whatever follows is not viable, nor is another one
    of its shape. -/
theorem not_viable_of_run {used rest : List Token} {wanted : Wanted}
    (run : ∀ rest', look rest' = look rest →
      statements (used ++ rest') = .error (.unexpected wanted rest'))
    {t : Token} (head : rest.head? = some t) {l : Lexeme} (same : l.shape = t.lexeme.shape) :
    ¬ Viable (lexemes used ++ [l]) := by
  have next (after : List Token) : look (⟨l, .start⟩ :: after) = look rest := by
    simp [look, lexemes, head, same]
  have refused (after : List Token) : ∃ e,
      statements (used ++ [⟨l, .start⟩] ++ after) = .error e := by
    rw [List.append_assoc]
    exact ⟨_, run _ (next after)⟩
  simpa [lexemes] using not_viable_of_error refused

/-- The first lexeme with which no document goes on is a numeral without a
    value, in the place of one of its sort that has one. -/
def Valueless (s : List Lexeme) (e : NumeralError) : Prop :=
  ∃ before n after, s = before ++ .numeral n :: after ∧ n.Fails e ∧
    ¬ Viable (before ++ [.numeral n]) ∧
    ∃ m : Numeral, m.isInteger = n.isInteger ∧ Viable (before ++ [.numeral m])

/-! ## Refusals -/

section
variable {stream : TokenStream}

theorem parse_of_statements (stream : TokenStream) :
    stream.parse = match statements stream.tokens with
      | .ok (as, _) => .ok (.ofStatements as)
      | .error failure => .error (failure.inStream stream) := by
  rw [TokenStream.parse, document_of_statements]
  cases statements stream.tokens <;> rfl

/-- The lexemes before the one that is refused are viable, and no longer with
    it, nor with another numeral of its sort in its place. -/
theorem parse_unexpected {wanted : Wanted} {found : Option Lexeme} {position : Position}
    (h : stream.parse = .error (.unexpected wanted found position)) :
    ∃ before after, lexemes stream.tokens = before ++ after ∧ after.head? = found ∧
      Viable before ∧
      ∀ l l', found = some l → l'.shape = l.shape → ¬ Viable (before ++ [l']) := by
  obtain ⟨tokens, finish⟩ := stream
  rw [parse_of_statements] at h
  cases endsAt tokens with
  | ok _ as all => simp [all] at h
  | numeral used after n position e _ _ run => simp [run, Failure.inStream] at h
  | unexpected used rest wanted ends run =>
    rw [run rest rfl] at h
    simp only [Failure.inStream, Except.error.injEq, ParseError.unexpected.injEq] at h
    refine ⟨lexemes used, lexemes rest, by simp [lexemes], ?_, viable_of_ends ends, ?_⟩
    · rw [← h.2.1, lexemes, List.head?_map]
    · intro l l' hl same
      rw [← h.2.1, Option.map_eq_some_iff] at hl
      obtain ⟨t, head, rfl⟩ := hl
      exact not_viable_of_run run head same

/-- A numeral that is refused has no value and stands where one can. -/
theorem valueless_of_numeral {e : NumeralError} (h : stream.parse = .error (.numeral e)) :
    Valueless (lexemes stream.tokens) e := by
  obtain ⟨tokens, finish⟩ := stream
  rw [parse_of_statements] at h
  cases endsAt tokens with
  | ok _ as all => simp [all] at h
  | unexpected used rest wanted _ run => simp [run rest rfl, Failure.inStream] at h
  | numeral used after n position e' fails ends run =>
    simp only [run, Failure.inStream, Except.error.injEq, ParseError.numeral.injEq] at h
    subst h
    refine ⟨lexemes used, n, lexemes after, by simp [lexemes], fails, ?_,
      .sample n.isInteger, by simp, by simpa [lexemes] using viable_of_ends ends⟩
    have refused (after : List Token) : ∃ e,
        statements (used ++ [⟨.numeral n, position⟩] ++ after) = .error e := by
      rw [List.append_assoc]
      exact ⟨_, run after⟩
    simpa [lexemes] using not_viable_of_error refused

/-- There is one place only at which lexemes are cut by the first one with which
    no document goes on. -/
theorem cut_unique {before before' after after' : List Lexeme} {l l' : Lexeme}
    (e : before ++ l :: after = before' ++ l' :: after') (viable : Viable before)
    (stop : ¬ Viable (before ++ [l])) (viable' : Viable before')
    (stop' : ¬ Viable (before' ++ [l'])) : before = before' ∧ l = l' := by
  rcases List.append_eq_append_iff.1 e with ⟨s, rfl, heads⟩ | ⟨s, rfl, heads⟩
  · cases s with
    | nil => simp_all
    | cons x s =>
      cases heads
      exact absurd (Viable.left (t := s) (by simpa using viable')) stop
  · cases s with
    | nil => simp_all
    | cons x s =>
      cases heads
      exact absurd (Viable.left (t := s) (by simpa using viable)) stop'

theorem viable_of_ok {before after : List Lexeme} {d : Document} (h : stream.parse = .ok d)
    (e : lexemes stream.tokens = before ++ after) : Viable before := by
  have form := parse_eq_ok.1 h
  rw [e] at form
  exact ⟨after, d, form⟩

/-- **Refusals without a position**: exactly those of a numeral without a value
    that is the first thing wrong. -/
theorem parse_eq_numeral_iff {e : NumeralError} :
    stream.parse = .error (.numeral e) ↔ Valueless (lexemes stream.tokens) e := by
  refine ⟨valueless_of_numeral, ?_⟩
  rintro ⟨before, n, after, cut, fails, stop, m, same, viable⟩
  cases h : stream.parse with
  | ok d =>
    have cut : lexemes stream.tokens = before ++ [.numeral n] ++ after := by simpa using cut
    exact absurd (viable_of_ok h cut) stop
  | error failure =>
    cases failure with
    | unexpected wanted found position =>
      obtain ⟨before', after', cut', head, viable', wrong⟩ := parse_unexpected h
      cases after' with
      | nil =>
        rw [List.append_nil] at cut'
        refine absurd (Viable.left (t := after) ?_) stop
        rw [List.append_assoc, List.singleton_append, ← cut, cut']
        exact viable'
      | cons l after' =>
        obtain ⟨rfl, rfl⟩ := cut_unique (cut.symm.trans cut') viable.left stop viable'
          (wrong l l head.symm rfl)
        exact absurd viable (wrong _ _ head.symm (by simp [Lexeme.shape, same]))
    | numeral e' =>
      obtain ⟨before', n', after', cut', fails', stop', m', -, viable'⟩ := valueless_of_numeral h
      obtain ⟨rfl, e⟩ := cut_unique (cut.symm.trans cut') viable.left stop viable'.left stop'
      cases e
      rw [fails.unique fails']

/-- A message that tells a place in the text. -/
def Positioned (message : Text) : Prop :=
  ∃ (position : Position) (what : Text), message =
    "Line " ++ Decimal.digits position.line ++ ":" ++ Decimal.digits position.column ++ ": " ++ what

theorem head?_left {s : Text} {c : Char} (h : s.head? = some c) (t : Text) :
    (s ++ t).head? = some c := by
  rw [List.head?_append, h]
  rfl

/-- The messages of numerals begin with other letters than those with a place. -/
theorem head?_message (e : NumeralError) : ∃ c, e.message.head? = some c ∧ c ≠ 'L' := by
  cases e with
  | notInteger base digits =>
    refine ⟨'i', head?_left (head?_left (head?_left ?_ _) _) _, ?_⟩ <;> decide
  | tooManyDigits count =>
    refine ⟨'E', head?_left (head?_left (head?_left (head?_left ?_ _) _) _) _, ?_⟩ <;> decide
  | notDouble text => refine ⟨'c', head?_left ?_ _, ?_⟩ <;> decide

theorem not_positioned (e : NumeralError) : ¬ Positioned e.message := by
  rintro ⟨position, what, h⟩
  obtain ⟨c, head, ne⟩ := head?_message e
  rw [h] at head
  simp [Ne.symm ne] at head

theorem positioned_iff {failure : ParseError} :
    Positioned failure.message ↔ ∀ e, failure ≠ .numeral e := by
  cases failure with
  | unexpected wanted found position =>
    refine iff_of_true ⟨position, wanted.message found, rfl⟩ ?_
    rintro e ⟨⟩
  | numeral e => exact iff_of_false (not_positioned e) fun h => h e rfl

end

/-- **Every text is read or refused with a position**, but for those in which a
    numeral without a value is the first thing wrong; these are refused for the
    numeral alone. -/
theorem parse_outcome (s : Text) :
    (((∃ d, Document.parse s = .ok d) ∨
      ∃ failure, Document.parse s = .error failure ∧ Positioned failure.message) ↔
        ∀ e, ¬ Valueless (lexemes (TokenStream.ofText s).tokens) e) ∧
    ∀ e, Document.parse s = .error (.numeral e) ↔
      Valueless (lexemes (TokenStream.ofText s).tokens) e := by
  refine ⟨?_, fun e => parse_eq_numeral_iff⟩
  simp only [positioned_iff, ← parse_eq_numeral_iff, Document.parse]
  cases (TokenStream.ofText s).parse with
  | ok d => simp
  | error failure => simp

/-- The digits behind `0x` can be missing. -/
theorem not_positioned_bareHexadecimal :
    ∃ failure, Document.parse "const i32 X = 0x" = .error failure ∧
      ¬ Positioned failure.message := by
  have refused : (match Document.parse "const i32 X = 0x" with
      | .ok _ => none
      | .error failure => some failure) = some (.numeral (.notInteger 16 [])) := by
    decide +kernel
  cases h : Document.parse "const i32 X = 0x" with
  | ok d =>
    rw [h] at refused
    cases refused
  | error failure =>
    rw [h] at refused
    cases refused
    exact ⟨_, rfl, fun positioned => positioned_iff.1 positioned _ rfl⟩

end IdlFlow.Parser
