/-
  Layout is canonical.

  * `trimmedLines s`: the lines of `s`, trimmed, and `filled ls`: those of `ls`
    that are not blank;
  * `settledLines s`: the trimmed lines of `s` without blank ones at the two ends,
    and with every run of blank ones made a single one;
  * `BlankBetween ls i`: a blank line stands between the `i`-th filled line of `ls`
    and the next;
  * `Settled s`: `s` has the form that layout gives to lines.

  Main statements: layout brings the lines of a text into that form and changes
  nothing but blanks (`settled_format`, `filled_collapseFrom`,
  `blankBetween_collapseFrom`), so it does nothing a second time, and two texts
  have one layout exactly if they have the same settled lines
  (`format_canonical`).
-/
import Mathlib.Data.List.DropRight
import Mathlib.Data.List.Destutter
import IdlFlow.Proofs.Paragraphs

namespace IdlFlow.Layout

open Text DeclarationFile

/-! ## Settled lines -/

/-- The lines of a text, trimmed. -/
def trimmedLines (s : Text) : List Text := (lines s).map trim

/-- The lines that are not blank. -/
def filled (ls : List Text) : List Text := ls.filter (· ≠ [])

/-- Lines without the blank ones at their two ends. -/
def dropBlankEnds (ls : List Text) : List Text :=
  (ls.dropWhile (· = [])).rdropWhile (· = [])

/-- One of two lines is not blank. -/
def NotBothBlank (l m : Text) : Prop := l ≠ [] ∨ m ≠ []

instance : DecidableRel NotBothBlank := fun _ _ => inferInstanceAs (Decidable (_ ∨ _))

/-- Lines with every run of blank ones made a single one. -/
def singleBlanks (ls : List Text) : List Text := ls.destutter NotBothBlank

/-- The lines of a text as they matter to layout. -/
def settledLines (s : Text) : List Text := singleBlanks (dropBlankEnds (trimmedLines s))

section Blanks

variable {α : Type} {p : α → Bool} {a : α}

theorem rdropWhile_cons_of_neg (h : p a = false) (as : List α) :
    (a :: as).rdropWhile p = a :: as.rdropWhile p := by
  induction as using List.reverseRecOn with
  | nil => simp [List.rdropWhile, h]
  | append_singleton as b ih =>
    rw [← List.cons_append, List.rdropWhile_concat, List.rdropWhile_concat, ih]
    split <;> rfl

theorem rdropWhile_cons_of_pos (h : p a = true) (as : List α) :
    (a :: as).rdropWhile p = if as.rdropWhile p = [] then [] else a :: as.rdropWhile p := by
  induction as using List.reverseRecOn with
  | nil => simp [List.rdropWhile, h]
  | append_singleton as b ih =>
    rw [← List.cons_append, List.rdropWhile_concat, List.rdropWhile_concat, ih]
    split <;> simp

end Blanks

/-- By induction on the lines, behind a filled line and behind a blank one. -/
theorem destutter_rdropWhile (ls : List Text) :
    (∀ l, l ≠ [] → (ls.rdropWhile (· = [])).destutter' NotBothBlank l =
      l :: collapseFrom true false ls) ∧
    collapseFrom true true ls = if ls.rdropWhile (· = []) = [] then [] else
      (ls.rdropWhile (· = [])).destutter' NotBothBlank [] := by
  induction ls with
  | nil => exact ⟨fun l _ => rfl, rfl⟩
  | cons m ls ih =>
    obtain ⟨behind_filled, behind_blank⟩ := ih
    by_cases blank : m = []
    · subst blank
      rw [rdropWhile_cons_of_pos (by simp)]
      have stays (gap : Bool) : collapseFrom true gap ([] :: ls) = collapseFrom true true ls :=
        collapseFrom_blank true gap ls
      constructor
      · intro l ne
        have one : NotBothBlank l [] := .inl ne
        rw [stays, behind_blank]
        split
        · rfl
        · rw [List.destutter'_cons_pos _ one]
      · have none : ¬ NotBothBlank [] [] := by decide
        rw [stays, behind_blank]
        split
        · rfl
        · rw [if_neg (by simp), List.destutter'_cons_neg _ none]
    · have first (l : Text) : NotBothBlank l m := .inr blank
      have bare : collapseFrom true false (m :: ls) = m :: collapseFrom true false ls := by
        simp [collapseFrom, blank]
      have led : collapseFrom true true (m :: ls) = [] :: m :: collapseFrom true false ls := by
        simp [collapseFrom, blank]
      rw [rdropWhile_cons_of_neg (by simpa using blank)]
      constructor
      · intro l _
        rw [List.destutter'_cons_pos _ (first l), behind_filled m blank, bare]
      · rw [if_neg (by simp), List.destutter'_cons_pos _ (first []), behind_filled m blank, led]

/-- **Layout lays out the settled lines.** -/
theorem collapsedLines_eq (s : Text) : collapsedLines s = settledLines s := by
  rw [collapsedLines, settledLines, trimmedLines]
  induction (lines s).map trim with
  | nil => rfl
  | cons l ls ih =>
    unfold dropBlankEnds
    by_cases blank : l = []
    · subst blank
      rw [collapseFrom_blank, ih, List.dropWhile_cons_of_pos (by simp)]
      rfl
    · rw [collapseFrom, if_neg blank, List.dropWhile_cons_of_neg (by simpa using blank),
        rdropWhile_cons_of_neg (by simpa using blank), singleBlanks, List.destutter_cons',
        (destutter_rdropWhile ls).1 l blank]
      rfl

/-! ## Filled lines and gaps -/

/-- A blank line stands behind the first `i` filled lines, and a filled one behind
    it. -/
def BlankAfter (ls : List Text) (i : Nat) : Prop :=
  ∃ before after, ls = before ++ [] :: after ∧ (filled before).length = i ∧ filled after ≠ []

/-- A blank line stands between the `i`-th filled line and the next. -/
def BlankBetween (ls : List Text) (i : Nat) : Prop := 0 < i ∧ BlankAfter ls i

section Gaps

variable {l : Text} {ls : List Text} {i : Nat}

theorem filled_blank (ls : List Text) : filled ([] :: ls) = filled ls := rfl

theorem filled_cons (h : l ≠ []) (ls : List Text) : filled (l :: ls) = l :: filled ls :=
  List.filter_cons_of_pos (by simpa using h)

theorem not_blankAfter_nil : ¬ BlankAfter [] i := by
  rintro ⟨before, after, eq, -⟩
  simp at eq

theorem blankAfter_blank :
    BlankAfter ([] :: ls) i ↔ i = 0 ∧ filled ls ≠ [] ∨ BlankAfter ls i := by
  constructor
  · rintro ⟨before, after, eq, rfl, more⟩
    cases before with
    | nil =>
      obtain rfl : ls = after := by simpa using eq
      exact .inl ⟨rfl, more⟩
    | cons m before =>
      obtain ⟨rfl, rfl⟩ : [] = m ∧ ls = before ++ [] :: after := by simpa using eq
      exact .inr ⟨before, after, rfl, rfl, more⟩
  · rintro (⟨rfl, more⟩ | ⟨before, after, rfl, rfl, more⟩)
    · exact ⟨[], ls, rfl, rfl, more⟩
    · exact ⟨[] :: before, after, rfl, rfl, more⟩

theorem blankAfter_cons (h : l ≠ []) :
    BlankAfter (l :: ls) i ↔ ∃ j, i = j + 1 ∧ BlankAfter ls j := by
  constructor
  · rintro ⟨before, after, eq, rfl, more⟩
    cases before with
    | nil => exact absurd (List.cons.inj eq).1 h
    | cons m before =>
      obtain ⟨rfl, rfl⟩ : l = m ∧ ls = before ++ [] :: after := by simpa using eq
      exact ⟨_, by rw [filled_cons h, List.length_cons], before, after, rfl, rfl, more⟩
  · rintro ⟨j, rfl, before, after, rfl, rfl, more⟩
    exact ⟨l :: before, after, rfl, by rw [filled_cons h, List.length_cons], more⟩

/-- **Layout keeps the filled lines.** -/
theorem filled_collapseFrom (started gap : Bool) (ls : List Text) :
    filled (collapseFrom started gap ls) = filled ls := by
  induction ls generalizing started gap with
  | nil => rfl
  | cons l ls ih =>
    by_cases blank : l = []
    · rw [blank, collapseFrom_blank, ih, filled_blank]
    · rw [collapseFrom, if_neg blank, filled_cons blank]
      cases gap with
      | true => rw [if_pos rfl, List.singleton_append, filled_blank, filled_cons blank, ih]
      | false => rw [if_neg (by simp), List.nil_append, filled_cons blank, ih]

theorem blankAfter_collapseFrom (gap : Bool) :
    BlankAfter (collapseFrom true gap ls) i ↔
      (i = 0 ∧ gap = true ∧ filled ls ≠ []) ∨ BlankAfter ls i := by
  induction ls generalizing gap i with
  | nil => simp [collapseFrom, filled, not_blankAfter_nil]
  | cons l ls ih =>
    by_cases blank : l = []
    · rw [blank, collapseFrom_blank, ih, blankAfter_blank, filled_blank]
      tauto
    · have rest : (∃ j, i = j + 1 ∧ BlankAfter (collapseFrom true false ls) j) ↔
          BlankAfter (l :: ls) i := by
        simp [blankAfter_cons blank, ih]
      rw [collapseFrom, if_neg blank, ← rest, ← blankAfter_cons blank]
      cases gap with
      | true =>
        rw [if_pos rfl, List.singleton_append, blankAfter_blank, filled_cons blank,
          filled_cons blank]
        simp
      | false => simp

/-- **Layout keeps a blank line where there is one between filled lines**, and adds
    none. -/
theorem blankBetween_collapseFrom :
    BlankBetween (collapseFrom false false ls) i ↔ BlankBetween ls i := by
  unfold BlankBetween
  refine and_congr_right fun pos => ?_
  induction ls with
  | nil => rfl
  | cons l ls ih =>
    by_cases blank : l = []
    · rw [blank, collapseFrom_blank, ih, blankAfter_blank]
      exact ⟨.inr, fun h => h.resolve_left fun zero => pos.ne' zero.1⟩
    · rw [collapseFrom, if_neg blank, if_neg (by simp), List.nil_append, blankAfter_cons blank,
        blankAfter_cons blank]
      simp [blankAfter_collapseFrom]

end Gaps

/-! ## The ends of settled lines -/

theorem head?_collapseFrom (ls : List Text) :
    ∀ l ∈ (collapseFrom false false ls).head?, l ≠ [] := by
  induction ls with
  | nil => simp [collapseFrom]
  | cons m ls ih =>
    by_cases blank : m = []
    · rwa [blank, collapseFrom_blank]
    · simp [collapseFrom, blank]

theorem getLast?_collapseFrom (started gap : Bool) (ls : List Text) :
    ∀ l ∈ (collapseFrom started gap ls).getLast?, l ≠ [] := by
  induction ls generalizing started gap with
  | nil => simp [collapseFrom]
  | cons m ls ih =>
    by_cases blank : m = []
    · rw [blank, collapseFrom_blank]
      exact ih _ _
    · rw [collapseFrom, if_neg blank, List.getLast?_append, List.getLast?_cons]
      intro l mem
      cases last : (collapseFrom true false ls).getLast? with
      | none =>
        rw [last] at mem
        obtain rfl : m = l := by simpa using mem
        exact blank
      | some n =>
        rw [last] at mem
        obtain rfl : n = l := by simpa using mem
        exact ih true false n last

/-- Collapsing once more changes nothing, but for a gap in front. -/
theorem collapseFrom_collapseFrom (gap again : Bool) (ls : List Text) :
    collapseFrom true again (collapseFrom true gap ls) = collapseFrom true (again || gap) ls := by
  induction ls generalizing gap again with
  | nil => rfl
  | cons l ls ih =>
    by_cases blank : l = []
    · rw [blank, collapseFrom_blank, collapseFrom_blank, ih, Bool.or_true]
    · have kept : collapseFrom true false (collapseFrom true false ls) =
        collapseFrom true false ls := ih false false
      cases gap <;> cases again <;> simp [collapseFrom, blank, kept]

theorem collapseFrom_self (ls : List Text) :
    collapseFrom false false (collapseFrom false false ls) = collapseFrom false false ls := by
  induction ls with
  | nil => rfl
  | cons l ls ih =>
    by_cases blank : l = []
    · rw [blank, collapseFrom_blank, ih]
    · simp [collapseFrom, blank, collapseFrom_collapseFrom]

/-! ## Laid out lines -/

/-- No blank is left at the ends of a trimmed text. -/
theorem not_isBlank_trim (s : Text) : (∀ c ∈ (trim s).head?, isBlank c = false) ∧
    ∀ c ∈ (trim s).getLast?, isBlank c = false := by
  have front : trim s = trim (s.dropWhile isBlank) := by
    rw [trim, trim, List.dropWhile_idempotent]
  rw [front]
  cases rest : s.dropWhile isBlank with
  | nil => exact ⟨by simp [trim], by simp [trim]⟩
  | cons c t =>
    have filled : isBlank c = false := by
      have first := List.head?_dropWhile_not isBlank s
      rw [rest] at first
      simpa using first
    obtain ⟨body, _, eq, -, -, last⟩ := exists_trim filled t
    rw [eq]
    exact ⟨by simpa using filled, last⟩

theorem trim_trim (s : Text) : trim (trim s) = trim s :=
  trim_eq_self (not_isBlank_trim s).1 (not_isBlank_trim s).2

theorem trim_indent (depth : Nat) (l : Text) : trim (indent depth l) = trim l := by
  have spaces : ∀ c ∈ List.replicate (2 * depth) ' ', isBlank c = true := by
    intro c mem
    rw [List.eq_of_mem_replicate mem]
    decide
  rw [trim, indent, List.dropWhile_append_of_pos spaces, trim]

theorem getLast?_indent {l : Text} (ne : l ≠ []) (depth : Nat) :
    (indent depth l).getLast? = l.getLast? := by
  rw [indent, List.getLast?_append_of_ne_nil _ ne]

/-- A line of the layout is blank, or a line at some indentation. -/
theorem exists_of_mem_reindentFrom {ls : List Text} {depth : Nat} {l : Text}
    (h : l ∈ reindentFrom depth ls) :
    l = [] ∨ ∃ level, ∃ m ∈ ls, m ≠ [] ∧ l = indent level m := by
  have below {m n : Text} {ls : List Text} (h : m = [] ∨ ∃ level, ∃ m' ∈ ls, m' ≠ [] ∧
      m = indent level m') : m = [] ∨ ∃ level, ∃ m' ∈ n :: ls, m' ≠ [] ∧ m = indent level m' :=
    h.imp_right fun ⟨level, m', mem, rest⟩ => ⟨level, m', List.mem_cons_of_mem _ mem, rest⟩
  induction ls generalizing depth with
  | nil => cases h
  | cons m ls ih =>
    rw [reindentFrom] at h
    split at h
    · exact (List.mem_cons.1 h).elim .inl fun mem => below (ih mem)
    · next filled =>
      split at h
      all_goals
        rcases List.mem_cons.1 h with rfl | mem
        · exact .inr ⟨_, m, List.mem_cons_self, filled, rfl⟩
        · exact below (ih mem)

theorem map_trim_reindentFrom {ls : List Text} (h : ∀ l ∈ ls, trim l = l) (depth : Nat) :
    (reindentFrom depth ls).map trim = ls := by
  induction ls generalizing depth with
  | nil => rfl
  | cons l ls ih =>
    obtain ⟨first, others⟩ := List.forall_mem_cons.1 h
    rw [reindentFrom]
    split
    · next blank => rw [List.map_cons, ih others, blank]; rfl
    · split <;> rw [List.map_cons, ih others, trim_indent, first]

theorem trim_of_mem_collapsedLines (s : Text) : ∀ l ∈ collapsedLines s, trim l = l := by
  intro l mem
  rcases mem_of_mem_collapseFrom mem with rfl | mem
  · rfl
  · obtain ⟨m, -, rfl⟩ := List.mem_map.1 mem
    exact trim_trim m

section Format

variable {s : Text}

theorem map_trim_reindent (s : Text) : (reindent (collapsedLines s)).map trim = collapsedLines s :=
  map_trim_reindentFrom (trim_of_mem_collapsedLines s) 0

theorem format_of_nil (h : collapsedLines s = []) : format s = ['\n'] := by
  rw [format, h]
  rfl

/-- **The lines of a layout are settled.** -/
theorem trimmedLines_format (h : collapsedLines s ≠ []) :
    trimmedLines (format s) = collapsedLines s := by
  rw [trimmedLines, lines_format h, map_trim_reindent]

/-- **Layout keeps the settled lines.** -/
theorem collapsedLines_format (s : Text) : collapsedLines (format s) = collapsedLines s := by
  by_cases h : collapsedLines s = []
  · rw [format_of_nil h, h]
    rfl
  · have trimmed : (lines (format s)).map trim = collapsedLines s := trimmedLines_format h
    rw [collapsedLines, trimmed]
    exact collapseFrom_self _

theorem collapsedLines_eq_nil : collapsedLines s = [] ↔ filled (trimmedLines s) = [] := by
  have kept : filled (collapsedLines s) = filled (trimmedLines s) := filled_collapseFrom ..
  rw [← kept]
  constructor
  · intro h
    rw [h]
    rfl
  · intro h
    cases eq : collapsedLines s with
    | nil => rfl
    | cons l ls =>
      have first : l ≠ [] := head?_collapseFrom _ l (congrArg List.head? eq)
      rw [eq, filled_cons first] at h
      cases h

/-- The form that layout gives to lines. -/
structure Settled (s : Text) : Prop where
  /-- Every line ends in a line feed, and nothing but a line feed ends one, -/
  feeds : s = (lines s).flatMap line
  /-- the text ends in a single line feed, -/
  ending : ∃ body, s = body ++ ['\n'] ∧ body.getLast? ≠ some '\n'
  /-- it does not begin with a blank line, -/
  first : ∃ l ∈ (lines s).head?, trim l ≠ []
  /-- it has no two blank lines side by side, -/
  apart : (lines s).IsChain fun l m => trim l ≠ [] ∨ trim m ≠ []
  /-- and no line of it ends in a blank. -/
  trimmed : ∀ l ∈ lines s, ∀ c ∈ l.getLast?, isBlank c = false

/-- No line of a layout ends in a blank. -/
theorem not_isBlank_reindent (s : Text) : ∀ l ∈ reindent (collapsedLines s),
    ∀ c ∈ l.getLast?, isBlank c = false := by
  intro l mem
  rcases exists_of_mem_reindentFrom mem with rfl | ⟨level, m, kept, ne, rfl⟩
  · simp
  · have last := (not_isBlank_trim m).2
    rwa [trim_of_mem_collapsedLines s m kept, ← getLast?_indent ne level] at last

/-- A layout ends in one line feed. -/
theorem ending_format (h : collapsedLines s ≠ []) :
    ∃ body, format s = body ++ ['\n'] ∧ body.getLast? ≠ some '\n' := by
  have trimmed := map_trim_reindent s
  cases laid : reindent (collapsedLines s) using List.reverseRecOn with
  | nil =>
    exact absurd (reindent_eq_nil.1 laid) h
  | append_singleton init last =>
    have filled : trim last ≠ [] := by
      rw [laid, List.map_append, List.map_singleton] at trimmed
      have found : (collapsedLines s).getLast? = some (trim last) := by
        rw [← trimmed, List.getLast?_concat]
      exact getLast?_collapseFrom false false (trimmedLines s) _ found
    have ne : last ≠ [] := by
      rintro rfl
      exact filled rfl
    refine ⟨init.flatMap line ++ last, ?_, fun feed => ?_⟩
    · rw [format_eq_flatMap h, laid, List.flatMap_append, List.flatMap_singleton, line,
        List.append_assoc]
    · rw [List.getLast?_append_of_ne_nil _ ne] at feed
      have blank := not_isBlank_reindent s last (by simp [laid]) _ feed
      cases blank

/-- **A layout of lines that are not all blank has that form.** -/
theorem settled_format (h : collapsedLines s ≠ []) : Settled (format s) := by
  have cut := lines_format h
  have trimmed := map_trim_reindent s
  refine ⟨by rw [cut, format_eq_flatMap h], ending_format h, ?_, ?_, ?_⟩
  · obtain ⟨l, ls, laid⟩ := List.exists_cons_of_ne_nil (mt reindent_eq_nil.1 h)
    rw [laid, List.map_cons] at trimmed
    refine ⟨l, by rw [cut, laid]; rfl, head?_collapseFrom (trimmedLines s) _ ?_⟩
    exact congrArg List.head? trimmed.symm
  · rw [cut, ← List.isChain_map trim (R := fun l m => l ≠ [] ∨ m ≠ []), trimmed, collapsedLines_eq]
    exact List.isChain_destutter ..
  · rw [cut]
    exact not_isBlank_reindent s

end Format

/-- **Layout is canonical.**  It brings the lines of a text into one form and
    changes nothing about them but blanks; so a second time it does nothing, and
    two texts have one layout exactly if they have the same settled lines. -/
theorem format_canonical (s : Text) :
    (if filled (trimmedLines s) = [] then format s = ['\n'] else Settled (format s)) ∧
    filled (trimmedLines (format s)) = filled (trimmedLines s) ∧
    (∀ i, BlankBetween (trimmedLines (format s)) i ↔ BlankBetween (trimmedLines s) i) ∧
    format (format s) = format s ∧
    ∀ t, format s = format t ↔ settledLines s = settledLines t := by
  have collapsed : collapseFrom false false (trimmedLines (format s)) =
      collapseFrom false false (trimmedLines s) := collapsedLines_format s
  refine ⟨?_, ?_, fun i => ?_, ?_, fun t => ⟨fun same => ?_, fun same => ?_⟩⟩
  · split
    · next blank => exact format_of_nil (collapsedLines_eq_nil.2 blank)
    · next more => exact settled_format fun none => more (collapsedLines_eq_nil.1 none)
  · rw [← filled_collapseFrom false false, collapsed, filled_collapseFrom]
  · rw [← blankBetween_collapseFrom, collapsed, blankBetween_collapseFrom]
  · rw [format, collapsedLines_format]
    rfl
  · rw [← collapsedLines_eq, ← collapsedLines_eq, ← collapsedLines_format s, same,
      collapsedLines_format]
  · rw [format, format, collapsedLines_eq, collapsedLines_eq, same]

example : settledLines " \n a \r\n\n \x0cb\n" = ["a".toList, [], "b".toList] := by decide

end IdlFlow.Layout
