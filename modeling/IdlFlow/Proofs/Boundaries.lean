/-
  Where tokens end.

  * `Text.Settled f`: what `f` takes off the front of a text, if anything is
    left, it takes off as well when more text is appended;
  * `Piece.separators`: the characters that blanks and comments begin with.

  Main statements: a scan for a numeral is settled (`Numeral.settled_scan`), so
  that of what stands behind a piece only the next character matters
  (`Piece.Cut.of_next`); and a token that is closed ends as well where a
  separator comes next (`Piece.Cut.of_separated`).
-/
import IdlFlow.Proofs.Vocabulary

namespace IdlFlow

/-! ## What more text does not change -/

/-- What is taken off does not depend on what is appended, unless all of the
    text is taken. -/
structure Text.Settled {α : Type} (f : Text → α × Text) : Prop where
  nil : (f []).2 = []
  append : ∀ s u, (f s).2 ≠ [] → f (s ++ u) = ((f s).1, (f s).2 ++ u)

namespace Text

variable {α β γ : Type}

theorem settled_span (p : Char → Bool) : Settled fun s => (s.takeWhile p, s.dropWhile p) := by
  constructor
  · rfl
  · intro s u left
    have stopped : (s.takeWhile p).length ≠ s.length := by
      intro same
      have whole := congrArg List.length (List.takeWhile_append_dropWhile (p := p) (l := s))
      rw [List.length_append, same, Nat.add_eq_left] at whole
      exact left (List.length_eq_zero_iff.1 whole)
    ext1
    · rw [List.takeWhile_append, if_neg stopped]
    · rw [List.dropWhile_append, if_neg (by simpa using left)]

namespace Settled

variable {f : Text → α × Text} {g : Text → β × Text}

theorem map (hf : Settled f) (k : α → β) : Settled fun s => (k (f s).1, (f s).2) := by
  constructor
  · exact hf.nil
  · intro s u left
    simp only [hf.append s u left]

/-- One part after the other. -/
theorem andThen (hf : Settled f) (hg : Settled g) (k : α → β → γ) :
    Settled fun s => (k (f s).1 (g (f s).2).1, (g (f s).2).2) := by
  constructor
  · show (g (f []).2).2 = []
    rw [hf.nil, hg.nil]
  · intro s u left
    have first : (f s).2 ≠ [] := by
      intro none
      simp only [none] at left
      exact left hg.nil
    simp only [hf.append s u first, hg.append _ u left]

/-- By the first character: what begins with it is taken off, or nothing is. -/
theorem of_first (nil : (f []).2 = [])
    (first : ∀ c, Settled (fun s => f (c :: s)) ∨ ∃ a, ∀ s, f (c :: s) = (a, c :: s)) :
    Settled f := by
  constructor
  · exact nil
  · intro s u left
    cases s with
    | nil => exact absurd nil left
    | cons c s =>
      rcases first c with settled | ⟨a, stays⟩
      · exact settled.append s u left
      · rw [List.cons_append, stays, stays]
        rfl

end Settled

end Text

namespace Numeral

open Text

theorem settled_takeSign : Settled takeSign := by
  refine .of_first rfl fun c => ?_
  by_cases sign : isSign c = true
  · refine .inl ⟨?_, fun s u _ => ?_⟩ <;> simp [takeSign, sign]
  · exact .inr ⟨none, fun s => by simp [takeSign, sign]⟩

theorem settled_takeFraction : Settled takeFraction := by
  refine .of_first rfl fun c => ?_
  by_cases point : c = '.'
  · have digits := (settled_span isDigit).map some
    simpa [takeFraction, point] using .inl digits
  · exact .inr ⟨none, fun s => by simp [takeFraction, point]⟩

theorem settled_takePower : Settled takePower := by
  refine .of_first rfl fun c => ?_
  by_cases letter : c = 'e' ∨ c = 'E'
  · have power := settled_takeSign.andThen (settled_span isDigit) fun sign digits =>
      some (PowerOfTen.mk c sign digits)
    simpa [takePower, letter] using .inl power
  · exact .inr ⟨none, fun s => by simp [takePower, letter]⟩

theorem settled_takeDecimal : Settled takeDecimal :=
  (settled_span isDigit).andThen (settled_takeFraction.andThen settled_takePower Prod.mk)
    fun whole parts => Magnitude.decimal whole parts.1 parts.2

/-- A magnitude that begins with a zero and the letter is hexadecimal. -/
def StartsHexadecimal (s : Text) : Prop := ∃ c t, s = '0' :: c :: t ∧ (c = 'x' ∨ c = 'X')

theorem takeMagnitude_of_not {s : Text} (h : ¬ StartsHexadecimal s) :
    takeMagnitude s = takeDecimal s := by
  unfold takeMagnitude
  split
  · next c t =>
    rw [if_neg fun letter => h ⟨c, t, rfl, letter⟩]
  · rfl

theorem settled_takeMagnitude : Settled takeMagnitude := by
  constructor
  · rfl
  · intro s u left
    by_cases hex : StartsHexadecimal s
    · obtain ⟨c, t, rfl, letter⟩ := hex
      have digits := (settled_span isHexDigit).map (Magnitude.hexadecimal c)
      simp only [takeMagnitude, if_pos letter, List.cons_append] at left ⊢
      exact digits.append t u left
    · have still : ¬ StartsHexadecimal (s ++ u) := by
        -- a zero by itself would have been taken whole
        rintro ⟨c, t, eq, letter⟩
        rcases s with _ | ⟨d, _ | ⟨e, s⟩⟩
        · exact left rfl
        · obtain ⟨rfl, -⟩ := List.cons.inj eq
          exact left rfl
        · simp only [List.cons_append, List.cons.injEq] at eq
          obtain ⟨rfl, rfl, -⟩ := eq
          exact hex ⟨_, _, rfl, letter⟩
      rw [takeMagnitude_of_not hex] at left ⊢
      rw [takeMagnitude_of_not still]
      exact settled_takeDecimal.append s u left

/-- **A scan is settled.** -/
theorem settled_scan : Settled scan :=
  settled_takeSign.andThen settled_takeMagnitude Numeral.mk

/-- Whether a longest numeral ends is decided by the next character. -/
theorem longest_of_next {t rest : Text} {c : Char} (h : Longest Form t (c :: rest))
    (others : Text) : Longest Form t (c :: others) := by
  refine ⟨h.form, fun u form front => Nat.le_of_not_lt fun longer => ?_⟩
  have within : t ++ [c] <+: t ++ c :: others := ⟨others, by simp⟩
  obtain ⟨w, rfl⟩ : t ++ [c] <+: u :=
    List.prefix_of_prefix_length_le within front (by simp; omega)
  have starts : Piece.startsNumeral (t ++ [c]) = true := by
    obtain ⟨n, written, rfl⟩ := h.form
    exact startsNumeral_of_written written [c]
  -- the scan goes through the next character, since it goes through `u`
  have through : (scan (t ++ [c])).2 = [] := by
    by_contra left
    obtain ⟨m, written, eq⟩ := form
    have whole := settled_scan.append _ w left
    rw [← eq, scan_text written] at whole
    exact left (List.append_eq_nil_iff.1 (congrArg Prod.snd whole).symm).1
  have scanned := text_scan (t ++ [c])
  rw [through, List.append_nil] at scanned
  have short := h.longest (t ++ [c]) ⟨_, written_scan starts, scanned⟩ ⟨rest, by simp⟩
  rw [List.length_append, List.length_singleton] at short
  omega

/-- Whether a numeral may have the character. -/
def continues (c : Char) : Bool :=
  Text.isDigit c || isSign c || isHexDigit c || c = '.' || c = 'x' || c = 'X'

theorem Form.continues {t : Text} (h : Form t) : ∀ c ∈ t, Numeral.continues c = true := by
  obtain ⟨n, written, rfl⟩ := h
  have e : isHexDigit 'e' = true ∧ isHexDigit 'E' = true := by decide
  intro c mem
  simp only [Numeral.continues, Bool.or_eq_true, decide_eq_true_eq]
  rcases List.mem_append.1 mem with mem | mem
  · simp [written.sign c (Option.mem_toList.1 mem)]
  · obtain ⟨sign, magnitude⟩ := n
    cases magnitude with
    | hexadecimal letter digits =>
      obtain ⟨hl, all⟩ | _ := written.magnitude
      simp only [Magnitude.text, List.mem_cons] at mem
      rcases mem with rfl | rfl | mem
      · simp [show Text.isDigit '0' = true by decide]
      · rcases hl with rfl | rfl <;> simp
      · simp [all c mem]
    | decimal whole fraction power =>
      rcases mem_text_decimal written.magnitude mem with h | h | rfl | rfl | rfl <;> simp [*]

end Numeral

namespace Piece

/-! ## The next character -/

theorem WordForm.append {t : Text} {c : Char} (h : WordForm t) (hc : continuesWord c = true) :
    WordForm (t ++ [c]) := by
  obtain ⟨first, others⟩ := h
  refine .word first fun d mem => ?_
  rcases List.mem_append.1 mem with mem | mem
  · exact others d mem
  · rw [List.mem_singleton.1 mem]
    exact hc

/-- Behind a longest word comes a character that does not go on with it. -/
theorem continuesWord_of_longest {t rest : Text} {c : Char}
    (h : Text.Longest WordForm t (c :: rest)) : continuesWord c = false := by
  by_contra goes
  have short := h.longest (t ++ [c]) (h.form.append (by simpa using goes)) ⟨rest, by simp⟩
  rw [List.length_append, List.length_singleton] at short
  omega

theorem longest_word_of_stop {t rest : Text} (form : WordForm t)
    (stop : ∀ c ∈ rest.head?, continuesWord c = false) : Text.Longest WordForm t rest :=
  .of_stop form (fun _ form => form.continues) stop

/-- No token begins where none begins with the next character. -/
theorem no_token_of_next {c d : Char} {rest : Text}
    (h : ∀ t, TokenForm t → ¬ t <+: c :: d :: rest) (others : Text) :
    ∀ t, TokenForm t → ¬ t <+: c :: d :: others := by
  have alone : [c] <+: c :: d :: rest := ⟨d :: rest, rfl⟩
  rintro _ form ⟨u, eq⟩
  cases form with
  | mark m =>
    obtain ⟨rfl, -⟩ := List.cons.inj eq
    exact h _ (.mark m) alone
  | word form =>
    obtain ⟨starts, -⟩ := form
    obtain ⟨rfl, -⟩ := List.cons.inj eq
    exact h _ (.word (.word starts (by simp))) alone
  | numeral form =>
    obtain ⟨n, written, rfl⟩ := form
    have starts : startsNumeral (c :: d :: rest) = true := by
      have starts := Numeral.startsNumeral_of_written written u
      rwa [eq] at starts
    exact h _ (.numeral ⟨_, Numeral.written_scan starts, rfl⟩) ⟨_, Numeral.text_scan _⟩
  | quoted quote =>
    obtain ⟨rfl, -⟩ := List.cons.inj eq
    exact h _ (.torn quote (.inl .nil)) alone
  | torn quote =>
    obtain ⟨rfl, -⟩ := List.cons.inj eq
    exact h _ (.torn quote (.inl .nil)) alone

/-- **Of what stands behind a piece only the next character matters.** -/
theorem Cut.of_next {piece : Piece} {said : Option Lexeme} {d : Char} {rest : Text}
    (h : Cut piece said (d :: rest)) (others : Text) : Cut piece said (d :: others) := by
  cases h with
  | blank h => exact .blank h
  | remark opens line stop => exact .remark opens line stop
  | aside first => exact .aside first
  | @stray c _ noBlank noComment noToken =>
    refine .stray noBlank (fun opening mem => ?_) (no_token_of_next noToken others)
    have none := noComment opening mem
    simp only [commentOpenings, List.mem_cons, List.not_mem_nil, or_false] at mem
    rcases mem with rfl | rfl | rfl <;> simpa [List.cons_prefix_cons] using none
  | mark => exact .mark
  | quoted quote form => exact .quoted quote form
  | numeral written longest => exact .numeral written (Numeral.longest_of_next longest others)
  | keyword longest =>
    refine .keyword (longest_word_of_stop longest.form ?_)
    rintro _ ⟨⟩
    exact continuesWord_of_longest longest
  | identifier longest other =>
    refine .identifier (longest_word_of_stop longest.form ?_) other
    rintro _ ⟨⟩
    exact continuesWord_of_longest longest

/-! ## Separators -/

/-- The characters that blanks and comments begin with. -/
def separators : List Char := [' ', '\t', '\r', '\n', '/', '#']

theorem separators_end_tokens :
    separators.all (fun c => !continuesWord c && !Numeral.continues c) = true := by decide

/-- Nothing or a separator comes next. -/
def Separated (rest : Text) : Prop := ∀ c ∈ rest.head?, c ∈ separators

variable {t rest : Text}

theorem Separated.stops (h : Separated rest) :
    ∀ c ∈ rest.head?, continuesWord c = false ∧ Numeral.continues c = false := by
  intro c first
  simpa using List.all_eq_true.1 separators_end_tokens c (h c first)

theorem Separated.longest_word (h : Separated rest) (form : WordForm t) :
    Text.Longest WordForm t rest :=
  longest_word_of_stop form fun c first => (h.stops c first).1

theorem Separated.longest_numeral (h : Separated rest) (form : Numeral.Form t) :
    Text.Longest Numeral.Form t rest :=
  .of_stop form (fun _ form => form.continues) fun c first => (h.stops c first).2

/-- **A closed token ends before a separator.** -/
theorem Cut.of_separated {piece : Piece} {l : Lexeme} (h : Cut piece (some l) rest)
    (closed : piece.isClosed = true) {others : Text} (separated : Separated others) :
    Cut piece (some l) others := by
  cases h with
  | mark => exact .mark
  | quoted quote form => exact .quoted quote form
  | torn => cases closed
  | numeral written longest => exact .numeral written (separated.longest_numeral longest.form)
  | keyword longest => exact .keyword (separated.longest_word longest.form)
  | identifier longest other => exact .identifier (separated.longest_word longest.form) other

end Piece

end IdlFlow
