/-
  Lines of a text.

  * `lines` cuts at every line end of any convention (a carriage return with
    the line feed after it is one line end) and drops the line ends; a text
    that ends in a line end has no further line;
  * `unifyLineEnds` writes carriage returns, with or without a line feed, as
    line feeds, as reading a text file does.
-/
import IdlFlow.Text.Basic

namespace IdlFlow.Text

/-- Whether `c` ends a line: line feed, carriage return, vertical tab, form
    feed, the file, group and record separators, next line, and the line and
    paragraph separators. -/
def isLineEnd (c : Char) : Bool :=
  c ∈ ['\n', '\r', '\x0b', '\x0c', '\x1c', '\x1d', '\x1e', '\x85', '\u2028', '\u2029']

/-- The lines of a text, without their ends. -/
def lines : Text → List Text
  | [] => []
  | '\r' :: '\n' :: s => [] :: lines s
  | c :: s =>
    if isLineEnd c then [] :: lines s else
      match lines s with
      | [] => [[c]]
      | line :: more => (c :: line) :: more

/-- The text with every line end that begins with a carriage return written as
    one line feed. -/
def unifyLineEnds : Text → Text
  | [] => []
  | '\r' :: '\n' :: s => '\n' :: unifyLineEnds s
  | c :: s => (if c = '\r' then '\n' else c) :: unifyLineEnds s

theorem lines_append_lineFeed (s : Text) (h : ∀ c ∈ s, isLineEnd c = false) (t : Text) :
    lines (s ++ '\n' :: t) = s :: lines t := by
  induction s with
  | nil => simp [lines, isLineEnd]
  | cons c s ih =>
    have hc := h c (by simp)
    have hs := ih fun d hd => h d (by simp [hd])
    have hr : c ≠ '\r' := by rintro rfl; simp [isLineEnd] at hc
    rw [List.cons_append, lines]
    · simp [hc, hs]
    · intro s' h1 h2; exact hr h1

end IdlFlow.Text
