/-
  Counting brackets.

  * `Weighs s o c`: in code, `s` opens `o` brackets and closes `c`, and leaves
    the counting in code again;
  * `Inside quote s`: `s` stays in a string literal with that quote;
  * `Inline s`: `s` lies on one line and closes as many brackets as it opens;
  * `Lead s o c`: the line `s` begins with a neutral character and counts `o`
    brackets opened and `c` closed, none of them in front.

  Main statements: `Inline` holds of what is written between quotes
  (`Inline.quoted`, with `inside_of_dangles` and `inside_quoteContent`) and is
  kept by writing texts one after the other, between brackets and with
  separators; trimming a line changes none of its brackets (`Lead.trim`).
-/
import IdlFlow.Idl.Token
import IdlFlow.Layout
import IdlFlow.Proofs.Characters

namespace IdlFlow.Layout

open Text

variable {s t : Text} {o o' c c' : Nat}

/-! ## Weights -/

/-- In code, the text opens and closes that many brackets and ends in code. -/
def Weighs (s : Text) (opens closes : Nat) : Prop :=
  ∀ b, s.foldl count (.code, b) =
    (.code, { b with opens := b.opens + opens, closes := b.closes + closes })

theorem Weighs.nil : Weighs [] 0 0 := fun _ => rfl

theorem Weighs.append (hs : Weighs s o c) (ht : Weighs t o' c') :
    Weighs (s ++ t) (o + o') (c + c') := by
  intro b
  rw [List.foldl_append, hs, ht, Nat.add_assoc, Nat.add_assoc]

/-- In a mode other than the first, one character counts the same on top of any
    count. -/
theorem exists_count_shift {mode : Mode} (h : mode ≠ .leading) (d : Char) (b : Brackets) :
    ∃ mode' y, mode' ≠ Mode.leading ∧
      count (mode, b) d = (mode', ⟨b.opens + y.opens, b.closes + y.closes, b.leading + y.leading⟩) ∧
      count (mode, ⟨0, 0, 0⟩) d = (mode', y) := by
  cases mode with
  | leading => exact absurd rfl h
  | code =>
    simp only [count]
    split
    · exact ⟨_, ⟨0, 0, 0⟩, by simp, rfl, rfl⟩
    split
    · exact ⟨_, ⟨1, 0, 0⟩, by simp, rfl, rfl⟩
    split
    · exact ⟨_, ⟨0, 1, 0⟩, by simp, rfl, rfl⟩
    split <;> exact ⟨_, ⟨0, 0, 0⟩, by simp, rfl, rfl⟩
  | quoted quote =>
    refine ⟨_, ⟨0, 0, 0⟩, ?_, rfl, rfl⟩
    split
    · simp
    · split <;> simp
  | escaped quote => exact ⟨_, ⟨0, 0, 0⟩, by simp, rfl, rfl⟩

/-- What is counted from a mode other than the first does not depend on the
    count before. -/
theorem foldl_count_shift {mode : Mode} (h : mode ≠ .leading) (s : Text) (b : Brackets) :
    s.foldl count (mode, b) =
      ((s.foldl count (mode, ⟨0, 0, 0⟩)).1,
        ⟨b.opens + (s.foldl count (mode, ⟨0, 0, 0⟩)).2.opens,
          b.closes + (s.foldl count (mode, ⟨0, 0, 0⟩)).2.closes,
          b.leading + (s.foldl count (mode, ⟨0, 0, 0⟩)).2.leading⟩) := by
  induction s generalizing mode b with
  | nil => rfl
  | cons d s ih =>
    obtain ⟨mode', y, ne, eq, eq₀⟩ := exists_count_shift h d b
    rw [List.foldl_cons, List.foldl_cons, eq, eq₀, ih ne, ih ne y]
    simp only [Nat.add_assoc]

theorem weighs_iff :
    Weighs s o c ↔ s.foldl count (.code, ⟨0, 0, 0⟩) = (.code, ⟨o, c, 0⟩) := by
  constructor
  · intro h
    simpa using h ⟨0, 0, 0⟩
  · intro h b
    rw [foldl_count_shift (by simp), h]
    rfl

instance : Decidable (Weighs s o c) := decidable_of_iff _ weighs_iff.symm

/-- The quotes and brackets. -/
def weighty : List Char := ['\'', '"', '{', '(', '[', '}', ')', ']']

/-- Neither a quote nor a bracket. -/
def IsPlain (c : Char) : Prop := c ∉ weighty

instance : DecidablePred IsPlain := fun c => inferInstanceAs (Decidable (c ∉ weighty))

theorem isPlain_of_neutral {d : Char} (h : Neutral d) : IsPlain d := by
  have sub : weighty.all marks.contains = true := by decide
  intro mem
  exact h.2 (by simpa using List.all_eq_true.1 sub d mem)

theorem isPlain_of_isBlank {d : Char} (h : isBlank d = true) : IsPlain d := by
  have none : weighty.all (!isBlank ·) = true := by decide
  intro mem
  simpa [h] using List.all_eq_true.1 none d mem

theorem count_of_isPlain {d : Char} (h : IsPlain d) (mode : Mode) (b : Brackets) :
    (count (mode, b) d).2 = b := by
  simp only [IsPlain, weighty, List.mem_cons, not_or] at h
  cases mode <;> simp [count, isOpener, isCloser, h]
  all_goals split <;> rfl

theorem count_code_of_isPlain {d : Char} (h : IsPlain d) (b : Brackets) :
    count (.code, b) d = (.code, b) := by
  simp only [IsPlain, weighty, List.mem_cons, not_or] at h
  simp [count, isOpener, isCloser, h]

theorem weighs_of_isPlain (h : ∀ d ∈ s, IsPlain d) : Weighs s 0 0 := by
  induction s with
  | nil => exact .nil
  | cons d s ih =>
    intro b
    rw [List.foldl_cons, count_code_of_isPlain (h d (by simp))]
    exact ih (fun e mem => h e (List.mem_cons_of_mem _ mem)) b

/-! ## String literals -/

/-- Between the given quotes, the text leaves the counting there. -/
def Inside (quote : Char) (s : Text) : Prop :=
  ∀ b, s.foldl count (.quoted quote, b) = (.quoted quote, b)

theorem weighs_quoted {quote : Char} (h : quote = '\'' ∨ quote = '"') (hs : Inside quote s) :
    Weighs (quote :: s ++ [quote]) 0 0 := by
  intro b
  have opening : count (.code, b) quote = (.quoted quote, b) := by simp [count, h]
  have closing : count (.quoted quote, b) quote = (.code, b) := by
    rcases h with rfl | rfl <;> rfl
  rw [List.cons_append, List.foldl_cons, opening, List.foldl_append, hs, List.foldl_cons, closing]
  rfl

/-- A text without the quote stays inside unless it ends in a bare
    backslash. -/
theorem inside_of_dangles {quote : Char} (hq : quote ∉ s) (hs : Position.dangles s = false) :
    Inside quote s := by
  intro b
  fun_induction Position.dangles s with
  | case1 => rfl
  | case2 => cases hs
  | case3 d s ih =>
    simp only [List.mem_cons, not_or] at hq
    simpa [count] using ih hq.2.2 hs
  | case4 d s h h' ih =>
    simp only [List.mem_cons, not_or] at hq
    have code : d ≠ '\\' := by
      rintro rfl
      cases s with
      | nil => exact h rfl rfl
      | cons e s => exact h' e s rfl rfl
    simpa [count, code, Ne.symm hq.1] using ih hq.2 hs

/-- **The content of a string literal stays inside when it is written.** -/
theorem inside_quoteContent {content : Text} (h : Position.dangles content = false) :
    Inside '\'' (ValueExpr.quoteContent content) := by
  intro b
  fun_induction ValueExpr.quoteContent content with
  | case1 => rfl
  | case2 => cases h
  | case3 d s ih => simpa [count] using ih (by simpa [Position.dangles] using h)
  | case4 s ih => simpa [count] using ih (by simpa [Position.dangles_cons] using h)
  | case5 s ih => simpa [count] using ih (by simpa [Position.dangles_cons] using h)
  | case6 s ih => simpa [count] using ih (by simpa [Position.dangles_cons] using h)
  | case7 d s h₁ h₂ h₃ h₄ h₅ ih =>
    have code : d ≠ '\\' := by
      rintro rfl
      cases s with
      | nil => exact h₁ rfl rfl
      | cons e s => exact h₂ e s rfl rfl
    rw [Position.dangles_cons code] at h
    have stays : count (.quoted '\'', b) d = (.quoted '\'', b) := by
      have quote : d ≠ '\'' := h₃
      simp [count, code, quote]
    rw [List.foldl_cons, stays, ih h]

/-! ## Texts on one line -/

/-- No character ends a line. -/
def Unbroken (s : Text) : Prop := ∀ d ∈ s, isLineEnd d = false

instance : Decidable (Unbroken s) := List.decidableBAll (fun d => isLineEnd d = false) s

theorem Unbroken.append (hs : Unbroken s) (ht : Unbroken t) : Unbroken (s ++ t) :=
  fun d mem => (List.mem_append.1 mem).elim (hs d) (ht d)

theorem isBlank_of_isLineEnd {d : Char} (h : isLineEnd d = true) : isBlank d = true := by
  simp only [isLineEnd, List.mem_cons, List.not_mem_nil, or_false, decide_eq_true_eq] at h
  rcases h with rfl | rfl | rfl | rfl | rfl | rfl | rfl | rfl | rfl | rfl <;> decide

theorem unbroken_of_allNeutral (h : AllNeutral s) : Unbroken s := by
  intro d mem
  cases ends : isLineEnd d with
  | false => rfl
  | true =>
    have blank := isBlank_of_isLineEnd ends
    rw [(h d mem).1] at blank
    cases blank

/-- The text lies on one line and closes as many brackets as it opens. -/
structure Inline (s : Text) : Prop where
  even : ∃ k, Weighs s k k
  unbroken : Unbroken s

namespace Inline

theorem nil : Inline [] := ⟨⟨0, .nil⟩, by simp [Unbroken]⟩

theorem append (hs : Inline s) (ht : Inline t) : Inline (s ++ t) := by
  obtain ⟨⟨k, hk⟩, us⟩ := hs
  obtain ⟨⟨k', hk'⟩, ut⟩ := ht
  exact ⟨⟨k + k', hk.append hk'⟩, us.append ut⟩

theorem iff_foldl : Inline s ↔ Weighs s (s.foldl count (.code, ⟨0, 0, 0⟩)).2.opens
    (s.foldl count (.code, ⟨0, 0, 0⟩)).2.opens ∧ Unbroken s := by
  constructor
  · rintro ⟨⟨k, h⟩, u⟩
    rw [weighs_iff.1 h]
    exact ⟨h, u⟩
  · rintro ⟨h, u⟩
    exact ⟨⟨_, h⟩, u⟩

instance : Decidable (Inline s) := decidable_of_iff _ iff_foldl.symm

theorem of_neutral (h : AllNeutral s) : Inline s :=
  ⟨⟨0, weighs_of_isPlain fun d mem => isPlain_of_neutral (h d mem)⟩, unbroken_of_allNeutral h⟩

/-- Between an opening part and a closing one that fit together. -/
theorem between {opening closing : Text} {k : Nat} (hs : Inline s)
    (ho : Weighs opening k 0) (hc : Weighs closing 0 k) (uo : Unbroken opening)
    (uc : Unbroken closing) : Inline (opening ++ s ++ closing) := by
  obtain ⟨⟨n, hn⟩, us⟩ := hs
  refine ⟨⟨k + n, ?_⟩, (uo.append us).append uc⟩
  have whole := (ho.append hn).append hc
  rwa [Nat.add_zero, Nat.zero_add, Nat.add_comm n k] at whole

theorem intercalate {separator : Text} {parts : List Text} (h : Inline separator)
    (hp : ∀ part ∈ parts, Inline part) : Inline (separator.intercalate parts) := by
  induction parts with
  | nil => exact nil
  | cons part others ih =>
    have first := hp part (by simp)
    have rest := ih fun p mem => hp p (List.mem_cons_of_mem _ mem)
    cases others with
    | nil => rwa [List.intercalate_singleton]
    | cons next others =>
      rw [List.intercalate_cons_cons]
      exact (first.append h).append rest

/-- A text between quotes. -/
theorem quoted {quote : Char} (h : quote = '\'' ∨ quote = '"') (hs : Inside quote s)
    (u : Unbroken s) : Inline (quote :: s ++ [quote]) := by
  refine ⟨⟨0, weighs_quoted h hs⟩, fun d mem => ?_⟩
  rw [List.cons_append, List.mem_cons, List.mem_append, List.mem_singleton] at mem
  have mark : isLineEnd quote = false := by rcases h with rfl | rfl <;> decide
  rcases mem with rfl | mem | rfl
  · exact mark
  · exact u d mem
  · exact mark

end Inline

theorem inline_colon : Inline ": " := by decide

theorem inline_comma : Inline ", " := by decide

theorem inline_semicolon : Inline ";" := by decide

theorem inline_equals : Inline " = " := by decide

theorem inline_exactBraces : Inline "\x7b||\x7d" := by decide

/-! ## Lines -/

/-- The line begins with a neutral character and has those brackets, none of
    them in front. -/
structure Lead (s : Text) (opens closes : Nat) : Prop where
  head : ∃ d ∈ s.head?, Neutral d
  brackets : brackets s = ⟨opens, closes, 0⟩
  unbroken : Unbroken s

theorem head_append {s t : Text} (h : ∃ d ∈ s.head?, Neutral d) :
    ∃ d ∈ (s ++ t).head?, Neutral d := by
  obtain ⟨d, hd, neutral⟩ := h
  exact ⟨d, by rw [List.head?_append, Option.mem_def.1 hd]; rfl, neutral⟩

theorem Lead.of_weighs (head : ∃ d ∈ s.head?, Neutral d) (hs : Weighs s o c) (u : Unbroken s) :
    Lead s o c := by
  refine ⟨head, ?_, u⟩
  obtain ⟨d, hd, neutral⟩ := head
  cases s with
  | nil => cases hd
  | cons e s =>
    obtain rfl : e = d := by simpa using hd
    have plain := isPlain_of_neutral neutral
    have first : count (.leading, ⟨0, 0, 0⟩) e = (.code, ⟨0, 0, 0⟩) := by
      have bar : e ≠ '|' := fun eq => neutral.2 (by simp [eq, marks])
      have space : e ≠ ' ' := fun eq => absurd neutral.1 (by rw [eq]; decide)
      simp only [IsPlain, weighty, List.mem_cons, not_or] at plain
      simp [count, isOpener, isCloser, plain, bar, space]
    -- The neutral character counts for nothing, in front as in code.
    have code := hs ⟨0, 0, 0⟩
    rw [List.foldl_cons, count_code_of_isPlain plain] at code
    rw [Layout.brackets, List.foldl_cons, first, code]
    simp

theorem brackets_append_of_isPlain (s : Text) (ht : ∀ d ∈ t, IsPlain d) :
    brackets (s ++ t) = brackets s := by
  rw [brackets, List.foldl_append, brackets]
  generalize s.foldl count (.leading, ⟨0, 0, 0⟩) = state
  induction t generalizing state with
  | nil => rfl
  | cons d t ih =>
    rw [List.foldl_cons, ih (fun e mem => ht e (List.mem_cons_of_mem _ mem))]
    exact count_of_isPlain (ht d (by simp)) state.1 state.2

/-- **Trimming leaves a line its brackets.** -/
theorem Lead.trim (h : Lead s o c) : Lead (trim s) o c := by
  obtain ⟨⟨d, hd, neutral⟩, weight, u⟩ := h
  cases s with
  | nil => cases hd
  | cons e s =>
    obtain rfl : e = d := by simpa using hd
    obtain ⟨body, blanks, eq, rfl, blank, -⟩ := exists_trim neutral.1 s
    rw [eq]
    refine ⟨⟨e, rfl, neutral⟩, ?_, fun f mem => u f ?_⟩
    · rw [← weight, ← List.cons_append]
      exact (brackets_append_of_isPlain _ fun f mem => isPlain_of_isBlank (blank f mem)).symm
    · rw [← List.cons_append]
      exact List.mem_append_left _ mem

end IdlFlow.Layout
