/-
  Blanks: the characters that layout may take off the ends of a line, and the
  trimming itself.  They are the Unicode (version 14) spaces, the ASCII
  layout controls and the information separators.

  `trim_eq_self` and `exists_trim` say what trimming leaves.
-/
import IdlFlow.Text.Basic
import IdlFlow.Text.CodeRange

namespace IdlFlow.Text

/-- The code points of blanks, in ascending ranges. -/
def blanks : List CodeRange :=
  [(0x9, 0xD), (0x1C, 0x20), (0x85, 0x85), (0xA0, 0xA0), (0x1680, 0x1680), (0x2000, 0x200A),
   (0x2028, 0x2029), (0x202F, 0x202F), (0x205F, 0x205F), (0x3000, 0x3000)]

/-- Whether `c` is a blank. -/
def isBlank (c : Char) : Bool := CodeRange.covers blanks c.toNat

/-- The text without the blanks at its two ends. -/
def trim (s : Text) : Text := ((s.dropWhile isBlank).reverse.dropWhile isBlank).reverse

theorem dropWhile_of_head? {p : Char → Bool} {s : Text} (h : ∀ c ∈ s.head?, p c = false) :
    s.dropWhile p = s := by
  cases s with
  | nil => rfl
  | cons c s => rw [List.dropWhile_cons, if_neg (by simp [h c rfl])]

/-- Nothing is trimmed off a text without blanks at its ends. -/
theorem trim_eq_self {s : Text} (head : ∀ c ∈ s.head?, isBlank c = false)
    (last : ∀ c ∈ s.getLast?, isBlank c = false) : trim s = s := by
  rw [trim, dropWhile_of_head? head, dropWhile_of_head?, List.reverse_reverse]
  rwa [List.head?_reverse]

/-- Of a text that begins with no blank, trimming keeps all but the blanks at
    the end. -/
theorem exists_trim {c : Char} (hc : isBlank c = false) (s : Text) :
    ∃ body blanks, trim (c :: s) = c :: body ∧ s = body ++ blanks ∧
      (∀ d ∈ blanks, isBlank d = true) ∧ ∀ d ∈ (c :: body).getLast?, isBlank d = false := by
  have kept : (s.reverse ++ [c]).dropWhile isBlank = s.reverse.dropWhile isBlank ++ [c] := by
    rw [List.dropWhile_append]
    cases h : s.reverse.dropWhile isBlank with
    | nil => simp [hc]
    | cons d t => rfl
  refine ⟨(s.reverse.dropWhile isBlank).reverse, (s.reverse.takeWhile isBlank).reverse,
    ?_, ?_, ?_, ?_⟩
  · have front : (c :: s).dropWhile isBlank = c :: s := dropWhile_of_head? (by simpa using hc)
    rw [trim, front, List.reverse_cons, kept, List.reverse_append, List.reverse_singleton,
      List.singleton_append]
  · rw [← List.reverse_append, List.takeWhile_append_dropWhile, List.reverse_reverse]
  · intro d mem
    exact List.all_eq_true.1 List.all_takeWhile d (List.mem_reverse.1 mem)
  · rw [← List.head?_reverse, List.reverse_cons, List.reverse_reverse, ← kept]
    intro d mem
    have := List.head?_dropWhile_not isBlank (s.reverse ++ [c])
    rw [Option.mem_def.1 mem] at this
    simpa using this

end IdlFlow.Text
