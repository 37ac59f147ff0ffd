/-
  The positions that tokens are reported at.

  * `Position.after before` is the place behind the text `before`: its line and
    its column are counted from the line feeds of the text;
  * `Piece.drift` is how far right of its place a text that ends in a piece is
    reported to end;
  * `Position.Tracks p q rest`: in front of `rest`, the place `p` that has been
    counted is the place `q`, or is in its line and about to leave it.

  Main statements: walking along a text leads behind it (`along_after`); a token
  is reported in the column where it starts and the line where it ends, which is
  where it starts unless it has a line feed; the end of the text is reported in
  its line, off its column by the drift of the last piece only
  (`TokenStream.positions_ofText`).
-/
import IdlFlow.Proofs.Lexing

namespace IdlFlow

namespace Position

/-- The place behind a text: one line more than the text has line feeds, and
    one column more than there are characters behind the last line feed. -/
def after (before : Text) : Position :=
  ⟨before.count '\n' + 1, (before.reverse.takeWhile (· ≠ '\n')).length + 1⟩

theorem eq_of_line_of_column {p q : Position} (line : p.line = q.line)
    (column : p.column = q.column) : p = q := by
  cases p
  cases q
  simp_all

theorem step_after (before : Text) (c : Char) : (after before).step c = after (before ++ [c]) := by
  unfold step
  split
  · next feed =>
    subst feed
    simp [after]
  · next plain => simp [after, plain]

/-- **Walking along a text leads behind it.** -/
theorem along_after (before s : Text) : (after before).along s = after (before ++ s) := by
  induction s generalizing before with
  | nil => simp [along]
  | cons c s ih =>
    have := ih (before ++ [c])
    rw [← step_after, List.append_assoc] at this
    exact this

theorem start_eq_after : start = after [] := rfl

theorem line_after_append (before s : Text) :
    (after (before ++ s)).line = (after before).line + s.count '\n' := by
  simp only [after, List.count_append]
  omega

theorem column_after_append (before : Text) {s : Text} (h : '\n' ∉ s) :
    (after (before ++ s)).column = (after before).column + s.length := by
  have plain : ∀ c ∈ s.reverse, decide (c ≠ '\n') = true := by
    intro c mem
    rw [decide_eq_true_eq]
    rintro rfl
    exact h (List.mem_reverse.1 mem)
  simp only [after, List.reverse_append, List.takeWhile_append_of_pos plain, List.length_append,
    List.length_reverse]
  omega

/-- The place `p` is the place `q`, or one of its line with the line ending
    here. -/
def Tracks (p q : Position) (rest : Text) : Prop :=
  p = q ∨ p.line = q.line ∧ ∀ c ∈ rest.head?, c = '\n'

end Position

namespace Piece

open Position

/-! ## Pieces behind which the count is off -/

/-- How far right of its place a text that ends in the piece is reported to
    end: a line comment takes no columns, a backslash without a character to
    take has two. -/
def drift : Piece → Int
  | remark s => -s.length
  | quoted _ body _ => if dangles body then 1 else 0
  | _ => 0

theorem not_feed_of_written {n : Numeral} (h : n.Written) : '\n' ∉ n.text := by
  intro mem
  rcases List.mem_append.1 mem with mem | mem
  · have := h.sign _ (Option.mem_toList.1 mem)
    exact absurd this (by decide)
  · obtain ⟨sign, magnitude⟩ := n
    cases magnitude with
    | hexadecimal letter digits =>
      obtain ⟨hl, all⟩ | _ := h.magnitude
      simp only [Magnitude.text, List.mem_cons] at mem
      rcases mem with mem | rfl | mem
      · exact absurd mem (by decide)
      · exact absurd hl (by decide)
      · exact absurd (all _ mem) (by decide)
    | decimal whole fraction power =>
      exact absurd (Numeral.mem_text_decimal h.magnitude mem) (by decide)

theorem WordForm.not_feed {t : Text} (h : WordForm t) : '\n' ∉ t := fun mem =>
  absurd (h.continues _ mem) (by decide)

namespace Cut

variable {piece : Piece} {rest : Text} {said : Option Lexeme}

/-- A token with a line feed is a string. -/
theorem string_of_feed {l : Lexeme} (h : Cut piece (some l) rest) (mem : '\n' ∈ piece.text) :
    ∃ content, l = .string content := by
  cases h with
  | quoted => exact ⟨_, rfl⟩
  | torn => exact ⟨_, rfl⟩
  | @mark m _ => exact absurd mem (by cases m <;> decide)
  | numeral written => exact absurd mem (not_feed_of_written written)
  | keyword longest => exact absurd mem longest.form.not_feed
  | identifier longest => exact absurd mem longest.form.not_feed

/-- The place behind a piece is in its line, off its column by the drift. -/
theorem past (h : Cut piece said rest) (before : Text) :
    ((after before).past piece).line = (after (before ++ piece.text)).line ∧
      (((after before).past piece).column : Int) =
        (after (before ++ piece.text)).column + piece.drift := by
  cases h with
  | @remark opening body _ opens line _ =>
    have line : '\n' ∉ opening ++ body := by
      rcases opens with rfl | rfl <;> simp [line]
    have column := column_after_append before line
    simp only [Position.past, text, drift, line_after_append, List.count_eq_zero_of_not_mem line]
    omega
  | quoted | torn =>
    simp only [Position.past, along_after, drift]
    split <;> simp
  | _ => simp [Position.past, along_after, drift]

/-- Behind a piece with a drift the line ends. -/
theorem drift_eq_zero_or (h : Cut piece said rest) :
    piece.drift = 0 ∨ ∀ c ∈ rest.head?, c = '\n' := by
  cases h with
  | remark _ _ stop => exact .inr stop
  | quoted _ form => exact .inl (by simp [drift, dangles_of_form form])
  | torn => exact .inr (by simp)
  | _ => exact .inl rfl

/-- A token is reported in the column where it starts and the line where it
    ends. -/
theorem reportedAt {l : Lexeme} (h : Cut piece (some l) rest) (before : Text) :
    piece.reportedAt (after before) =
      ⟨(after before).line + piece.text.count '\n', (after before).column⟩ := by
  have other (plain : ¬ ∃ content, l = .string content) : piece.text.count '\n' = 0 :=
    List.count_eq_zero_of_not_mem fun mem => plain (h.string_of_feed mem)
  cases h with
  | quoted quote | torn quote =>
    rcases quote with rfl | rfl <;> simp [Piece.reportedAt, text, along_after, line_after_append]
  | mark | numeral | keyword | identifier =>
    rw [other (by simp)]
    rfl

end Cut

/-- **The count along a piece.** -/
theorem tracks_take {p : Position} {before : Text} {c : Char} {s : Text}
    (h : Tracks p (after before) (c :: s)) :
    p.past (take c s).1 = (after before).past (take c s).1 ∧
      ((take c s).1.lexeme? ≠ none → p = after before) ∧
      Tracks ((after before).past (take c s).1) (after (before ++ (take c s).1.text))
        (take c s).2 := by
  have cut := cut_take c s
  obtain ⟨line, column⟩ := cut.past before
  have tracks : Tracks ((after before).past (take c s).1)
      (after (before ++ (take c s).1.text)) (take c s).2 := by
    rcases cut.drift_eq_zero_or with none | feed
    · refine .inl (eq_of_line_of_column line ?_)
      omega
    · exact .inr ⟨line, feed⟩
  rcases h with rfl | ⟨same, feed⟩
  · exact ⟨rfl, fun _ => rfl, tracks⟩
  · -- a line feed is a blank, and leads to the first column
    obtain rfl := feed c rfl
    refine ⟨?_, fun token => absurd rfl token, tracks⟩
    show p.step '\n' = (after before).step '\n'
    simp [step, same]

end Piece

namespace TokenStream

open Position

/-! ## All pieces -/

/-- Every token has its piece, and is reported by where the piece starts. -/
theorem piece_of_token {p : Position} {before rest : Text} (h : Tracks p (after before) rest)
    {k : Nat} {token : Token}
    (found : (ofPieces p (Piece.ofText rest)).tokens[k]? = some token) :
    ∃ front piece behind, Piece.ofText rest = front ++ piece :: behind ∧
      (front.filterMap Piece.lexeme?).length = k ∧ piece.lexeme? = some token.lexeme ∧
      ('\n' ∈ piece.text → ∃ content, token.lexeme = .string content) ∧
      token.position =
        ⟨(after (before ++ front.flatMap Piece.text)).line + piece.text.count '\n',
          (after (before ++ front.flatMap Piece.text)).column⟩ := by
  fun_induction Piece.ofText rest generalizing p before k with
  | case1 => simp [ofPieces] at found
  | case2 c s ih =>
    obtain ⟨past, here, tracks⟩ := Piece.tracks_take h
    rw [ofPieces, past] at found
    have cut := Piece.cut_take c s
    cases tells : (Piece.take c s).1.lexeme? with
    | none =>
      simp only [tells] at found
      obtain ⟨front, piece, behind, eq, count, rest⟩ := ih tracks found
      refine ⟨(Piece.take c s).1 :: front, piece, behind, by simp [eq], by simp [tells, count], ?_⟩
      rwa [List.flatMap_cons, ← List.append_assoc]
    | some l =>
      simp only [tells] at found
      rw [tells] at cut
      cases k with
      | zero =>
        obtain rfl := Option.some.inj found
        obtain rfl := here (by simp [tells])
        refine ⟨[], _, _, rfl, rfl, tells, cut.string_of_feed, ?_⟩
        simpa using cut.reportedAt before
      | succ k =>
        obtain ⟨front, piece, behind, eq, count, rest⟩ := ih tracks found
        refine ⟨(Piece.take c s).1 :: front, piece, behind, by simp [eq], ?_, ?_⟩
        · simp [tells, count]
        · rwa [List.flatMap_cons, ← List.append_assoc]

theorem finish_ofPieces_cons (p : Position) (piece : Piece) (pieces : List Piece) :
    (ofPieces p (piece :: pieces)).finish = (ofPieces (p.past piece) pieces).finish := by
  rw [ofPieces]
  split <;> rfl

/-- The end is reported in its line, off its column by the drift of the last
    piece. -/
theorem finish_ofPieces {p : Position} {before rest : Text} (h : Tracks p (after before) rest) :
    (ofPieces p (Piece.ofText rest)).finish.line = (after (before ++ rest)).line ∧
      ((ofPieces p (Piece.ofText rest)).finish.column : Int) = (after (before ++ rest)).column +
        (Piece.ofText rest).getLast?.elim (p.column - (after before).column : Int) Piece.drift := by
  fun_induction Piece.ofText rest generalizing p before with
  | case1 =>
    rw [List.append_nil]
    refine ⟨h.elim (congrArg Position.line) And.left, ?_⟩
    simp only [ofPieces, List.getLast?_nil, Option.elim_none]
    omega
  | case2 c s ih =>
    obtain ⟨past, -, tracks⟩ := Piece.tracks_take h
    obtain ⟨-, column⟩ := (Piece.cut_take c s).past before
    obtain ⟨line, counted⟩ := ih tracks
    rw [finish_ofPieces_cons, past]
    rw [List.append_assoc, Piece.text_take] at line counted
    refine ⟨line, ?_⟩
    rw [counted, List.getLast?_cons, Option.elim_some]
    cases (Piece.ofText (Piece.take c s).2).getLast? with
    | none =>
      simp only [Option.elim_none, Option.getD_none]
      omega
    | some last => rfl

/-- **Where tokens are reported.**  The `k`-th token has the column of its first
    character and the line of its last, so it has the place of its first unless
    there is a line feed between them, which only strings have; the end is off
    its place by the drift of the last piece. -/
theorem positions_ofText (s : Text) :
    (∀ k token, (ofText s).tokens[k]? = some token →
      ∃ before piece behind, Piece.ofText s = before ++ piece :: behind ∧
        (before.filterMap Piece.lexeme?).length = k ∧ piece.lexeme? = some token.lexeme ∧
        token.position.column = (after (before.flatMap Piece.text)).column ∧
        token.position.line = (after (before.flatMap Piece.text ++ piece.text)).line ∧
        (token.position = after (before.flatMap Piece.text) ↔ '\n' ∉ piece.text) ∧
        ('\n' ∈ piece.text → ∃ content, token.lexeme = .string content)) ∧
      (ofText s).finish.line = (after s).line ∧
      ((ofText s).finish.column : Int) =
        (after s).column + (Piece.ofText s).getLast?.elim 0 Piece.drift := by
  have tracks : Tracks start (after []) s := .inl rfl
  refine ⟨fun k token found => ?_, ?_⟩
  · obtain ⟨before, piece, behind, eq, count, tells, string, place⟩ := piece_of_token tracks found
    rw [List.nil_append] at place
    refine ⟨before, piece, behind, eq, count, tells, by rw [place], ?_, ?_, string⟩
    · rw [place, line_after_append]
    · rw [place, ← List.count_eq_zero]
      constructor
      · intro eq
        have := congrArg Position.line eq
        simp only at this
        omega
      · intro none
        rw [none]
        rfl
  · simpa [ofText, start_eq_after] using finish_ofPieces tracks

/-- A string of two lines is reported in its second one; a last line comment
    takes no columns, and a last backslash two. -/
theorem entries_off_place :
    (ofText "'a\nb'").entries = [(some (.string "a\nb"), ⟨2, 1⟩), (none, ⟨2, 3⟩)] ∧
    after [] = ⟨1, 1⟩ ∧
    (ofText "#a").entries = [(none, ⟨1, 1⟩)] ∧ after "#a" = ⟨1, 3⟩ ∧
    (ofText "'\\").entries = [(some (.string "\\"), ⟨1, 1⟩), (none, ⟨1, 4⟩)] ∧
    after "'\\" = ⟨1, 3⟩ := by
  decide +kernel

end TokenStream

end IdlFlow
