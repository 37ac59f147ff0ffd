/-
  Indentation goes by nesting.

  * `Parted s parts`: the line `s` cut into its string literals, all closed, and
    the characters between them;
  * `Counted l parts`: the parts of a line that counts, none for a comment;
  * `opened`, `closed`, `closedInFront`: the brackets among parts, and those
    that close before anything else;
  * `Balanced parts`: as many brackets open as close, and up to no point more
    close than have opened.

  Main statements: the brackets of a line are those of its parts
  (`brackets_of_parted`); and lines whose brackets are balanced are each indented
  by the brackets open before them less those that they close in front, with
  nothing cut off at zero and none open at the end (`reindent_nested`).
-/
import Mathlib.Data.List.Forall2
import Mathlib.Data.List.Infix
import IdlFlow.Proofs.Lexing
import IdlFlow.Proofs.Paragraphs

namespace IdlFlow.Layout

open Text

/-! ## Parts of lines -/

/-- The characters of a line outside of string literals, with nothing in the
    place of each literal. -/
inductive Parted : Text → List (Option Char) → Prop
  | nil : Parted [] []
  | char {c : Char} {s : Text} {parts : List (Option Char)} :
    c ≠ '\'' → c ≠ '"' → Parted s parts → Parted (c :: s) (some c :: parts)
  | literal {quote : Char} {body s : Text} {parts : List (Option Char)} :
    quote = '"' ∨ quote = '\'' → Piece.BodyForm quote body → Parted s parts →
    Parted (quote :: body ++ quote :: s) (none :: parts)

/-- A comment has no parts that count. -/
inductive Counted : Text → List (Option Char) → Prop
  | comment {l : Text} : isComment l = true → Counted l []
  | code {l : Text} {parts : List (Option Char)} :
    isComment l = false → Parted l parts → Counted l parts

def opened (parts : List (Option Char)) : Nat := parts.countP (·.any isOpener)

def closed (parts : List (Option Char)) : Nat := parts.countP (·.any isCloser)

/-- Whether closing brackets may still follow in front of a line: after bars,
    spaces and other closing brackets they do. -/
def isFront (part : Option Char) : Bool := part.any fun c => isCloser c || c = '|' || c = ' '

def closedInFront (parts : List (Option Char)) : Nat := closed (parts.takeWhile isFront)

/-- As many brackets open as close, and up to no point more close than have
    opened. -/
structure Balanced (parts : List (Option Char)) : Prop where
  even : opened parts = closed parts
  front : ∀ front, front <+: parts → closed front ≤ opened front

instance : DecidablePred Balanced := fun parts =>
  decidable_of_iff
    (opened parts = closed parts ∧ ∀ front ∈ parts.inits, closed front ≤ opened front)
    ⟨fun h => ⟨h.1, fun front within => h.2 front ((List.mem_inits ..).2 within)⟩,
      fun h => ⟨h.even, fun front within => h.front front ((List.mem_inits ..).1 within)⟩⟩

variable {s t l : Text} {parts parts' : List (Option Char)}

/-! ## Counting -/

@[simp] theorem opened_append (parts parts' : List (Option Char)) :
    opened (parts ++ parts') = opened parts + opened parts' := List.countP_append

@[simp] theorem closed_append (parts parts' : List (Option Char)) :
    closed (parts ++ parts') = closed parts + closed parts' := List.countP_append

/-- An opening bracket neither closes nor stands in front. -/
theorem not_front_of_isOpener {c : Char} (h : isOpener c = true) :
    isCloser c = false ∧ isFront (some c) = false := by
  simp only [isOpener, Bool.or_eq_true, decide_eq_true_eq] at h
  rcases h with (rfl | rfl) | rfl <;> decide

theorem opened_front (parts : List (Option Char)) : opened (parts.takeWhile isFront) = 0 := by
  rw [opened, List.countP_eq_zero]
  intro part mem opens
  have front := List.all_eq_true.1 List.all_takeWhile part mem
  cases part with
  | none => cases opens
  | some c =>
    rw [(not_front_of_isOpener opens).2] at front
    cases front

/-- A literal counts nothing, in front of a line or behind. -/
theorem foldl_literal {quote : Char} {body : Text} (h : quote = '"' ∨ quote = '\'')
    (form : Piece.BodyForm quote body) {mode : Mode} (outside : mode = .leading ∨ mode = .code)
    (b : Brackets) (s : Text) :
    (quote :: body ++ quote :: s).foldl count (mode, b) = s.foldl count (.code, b) := by
  have opening : count (mode, b) quote = (.quoted quote, b) := by
    rcases outside with rfl | rfl <;> simp [count, h.symm]
  have inside : body.foldl count (.quoted quote, b) = (.quoted quote, b) := by
    induction form with
    | nil => rfl
    | plain ne code _ ih => simpa [count, ne, code] using ih
    | escape _ ih => simpa [count] using ih
  have closing : count (.quoted quote, b) quote = (.code, b) := by
    rcases h with rfl | rfl <;> rfl
  rw [List.cons_append, List.foldl_cons, opening, List.foldl_append, inside, List.foldl_cons,
    closing]

theorem closedInFront_cons (part : Option Char) (parts : List (Option Char)) :
    closedInFront (part :: parts) =
      if isFront part then closed [part] + closedInFront parts else 0 := by
  rw [closedInFront, List.takeWhile_cons]
  split
  · exact closed_append [part] _
  · rfl

/-- Outside of literals the counting of a line goes by its parts. -/
theorem foldl_parted (h : Parted s parts) {mode : Mode} (outside : mode = .leading ∨ mode = .code)
    (b : Brackets) :
    (s.foldl count (mode, b)).2 =
      ⟨b.opens + opened parts, b.closes + closed parts,
        b.leading + if mode = .leading then closedInFront parts else 0⟩ := by
  induction h generalizing mode b with
  | nil => simp [opened, closed, closedInFront]
  | literal quote form _ ih =>
    rw [foldl_literal quote form outside, ih (.inr rfl)]
    simp [opened, closed, closedInFront, isFront]
  | @char c s parts single double _ ih =>
    have front := closedInFront_cons (some c) parts
    rw [List.foldl_cons]
    by_cases opener : isOpener c = true
    · have step : count (mode, b) c = (.code, { b with opens := b.opens + 1 }) := by
        rcases outside with rfl | rfl <;> simp [count, single, double, opener]
      obtain ⟨noCloser, stop⟩ := not_front_of_isOpener opener
      rw [step, ih (.inr rfl), front, stop]
      simp [opened, closed, opener, noCloser]
      omega
    by_cases closer : isCloser c = true
    · have step : count (mode, b) c = (mode, { b with
          closes := b.closes + 1
          leading := if mode = .leading then b.leading + 1 else b.leading }) := by
        rcases outside with rfl | rfl <;> simp [count, single, double, opener, closer]
      have goes : isFront (some c) = true := by simp [isFront, closer]
      rw [step, ih outside, front, goes]
      rcases outside with rfl | rfl <;> simp [opened, closed, opener, closer] <;> omega
    by_cases thin : c = '|' ∨ c = ' '
    · have step : count (mode, b) c = (mode, b) := by
        rcases outside with rfl | rfl <;> simp [count, single, double, opener, closer, thin]
      have goes : isFront (some c) = true := by simpa [isFront, closer] using thin
      rw [step, ih outside, front, goes]
      simp [opened, closed, opener, closer]
    · have step : count (mode, b) c = (.code, b) := by
        rcases outside with rfl | rfl <;> simp [count, single, double, opener, closer, thin]
      have stop : isFront (some c) = false := by simpa [isFront, closer] using thin
      rw [step, ih (.inr rfl), front, stop]
      simp [opened, closed, opener, closer]

/-- **The brackets of a line are those of its parts.** -/
theorem brackets_of_parted (h : Parted l parts) :
    brackets l = ⟨opened parts, closed parts, closedInFront parts⟩ := by
  simpa [brackets] using foldl_parted h (.inl rfl) ⟨0, 0, 0⟩

/-! ## Lines -/

/-- A line is indented by what is open before it and closes in front of it what
    it says, and goes on with its balance. -/
theorem reindentFrom_counted (h : Counted l parts) (filled : l ≠ []) (depth : Nat)
    (ls : List Text) :
    reindentFrom depth (l :: ls) =
      indent (depth - closedInFront parts) l ::
        reindentFrom (depth + opened parts - closed parts) ls := by
  cases h with
  | comment comment =>
    rw [reindentFrom, if_neg filled, if_pos comment]
    rfl
  | code code parted => simp [reindentFrom, filled, code, brackets_of_parted parted]

theorem depthAfter_counted (h : Counted l parts) (filled : l ≠ []) (depth : Nat)
    (ls : List Text) :
    depthAfter depth (l :: ls) = depthAfter (depth + opened parts - closed parts) ls := by
  cases h with
  | comment comment =>
    rw [depthAfter, if_neg filled, if_pos comment]
    rfl
  | code code parted => simp [depthAfter, filled, code, brackets_of_parted parted]

variable {lines : List Text} {cuts : List (List (Option Char))}

/-- If up to no point more brackets close than are open, the depth after lines
    is what their brackets leave open. -/
theorem depthAfter_eq (cut : List.Forall₂ Counted lines cuts) (filled : ∀ l ∈ lines, l ≠ [])
    (depth : Nat) (front : ∀ front, front <+: cuts.flatten → closed front ≤ depth + opened front) :
    depthAfter depth lines + closed cuts.flatten = depth + opened cuts.flatten := by
  induction cut generalizing depth with
  | nil => rfl
  | @cons l parts ls cuts first _ ih =>
    have within : closed parts ≤ depth + opened parts := front parts (List.prefix_append ..)
    rw [depthAfter_counted first (filled l (by simp))]
    have rest := ih (fun m mem => filled m (List.mem_cons_of_mem _ mem))
      (depth + opened parts - closed parts) fun others more => by
        have longer := front (parts ++ others) ((List.prefix_append_right_inj parts).2 more)
        simp only [opened_append, closed_append] at longer
        omega
    simp only [List.flatten_cons, opened_append, closed_append]
    omega

theorem length_reindentFrom (depth : Nat) (ls : List Text) :
    (reindentFrom depth ls).length = ls.length := by
  induction ls generalizing depth with
  | nil => rfl
  | cons l ls ih =>
    rw [reindentFrom]
    split
    · simp [ih]
    · split <;> simp [ih]

/-- **Lines are indented by their nesting.**  In lines with balanced brackets,
    each line is indented by the brackets open before it less those that it
    closes in front; neither is less than nothing on the way, and none is open
    at the end. -/
theorem reindent_nested (filled : ∀ l ∈ lines, l ≠ []) (cut : List.Forall₂ Counted lines cuts)
    (balanced : Balanced cuts.flatten) :
    (∀ i l parts, lines[i]? = some l → cuts[i]? = some parts →
      ∃ depth, depth = depthAfter 0 (lines.take i) ∧
        depth + closed (cuts.take i).flatten = opened (cuts.take i).flatten ∧
        closedInFront parts ≤ depth ∧
        closed parts ≤ depth + opened parts ∧
        (reindent lines)[i]? =
          some (List.replicate (2 * (depth - closedInFront parts)) ' ' ++ l)) ∧
    depthAfter 0 lines = 0 := by
  constructor
  · intro i l parts line part
    obtain ⟨hi, rfl⟩ := List.getElem?_eq_some_iff.1 line
    obtain ⟨hi', rfl⟩ := List.getElem?_eq_some_iff.1 part
    have lines_eq := List.drop_eq_getElem_cons hi
    have cuts_eq := List.drop_eq_getElem_cons hi'
    have behind := List.forall₂_drop i cut
    rw [lines_eq, cuts_eq] at behind
    obtain ⟨first, -⟩ := List.forall₂_cons.1 behind
    have whole : cuts.flatten =
        (cuts.take i).flatten ++ (cuts[i] ++ (cuts.drop (i + 1)).flatten) := by
      rw [← List.flatten_cons, ← cuts_eq, ← List.flatten_append, List.take_append_drop]
    have before := depthAfter_eq (List.forall₂_take i cut)
      (fun m mem => filled m (List.mem_of_mem_take mem)) 0 fun front within => by
        rw [Nat.zero_add]
        exact balanced.front front (within.trans (whole ▸ List.prefix_append ..))
    rw [Nat.zero_add] at before
    refine ⟨_, rfl, before, ?_, ?_, ?_⟩
    · -- up to the last bracket closed in front nothing has opened in the line
      have front := balanced.front ((cuts.take i).flatten ++ cuts[i].takeWhile isFront) <| by
        rw [whole, List.prefix_append_right_inj]
        exact (List.takeWhile_prefix _).trans (List.prefix_append ..)
      rw [opened_append, closed_append, opened_front] at front
      unfold closedInFront
      omega
    · have through := balanced.front ((cuts.take i).flatten ++ cuts[i]) <| by
        rw [whole, List.prefix_append_right_inj]
        exact List.prefix_append ..
      rw [opened_append, closed_append] at through
      omega
    · have length : (reindentFrom 0 (lines.take i)).length = i := by
        rw [length_reindentFrom, List.length_take, Nat.min_eq_left (Nat.le_of_lt hi)]
      calc (reindent lines)[i]?
          = (reindentFrom 0 (lines.take i ++ lines[i] :: lines.drop (i + 1)))[i]? := by
            rw [← lines_eq, List.take_append_drop]
            rfl
        _ = (reindentFrom (depthAfter 0 (lines.take i)) (lines[i] :: lines.drop (i + 1)))[0]? := by
            rw [reindentFrom_append, List.getElem?_append_right (by omega), length, Nat.sub_self]
        _ = _ := by
            rw [reindentFrom_counted first (filled _ (List.getElem_mem hi))]
            rfl
  · have whole := depthAfter_eq cut filled 0 fun front within => by
      simpa using balanced.front front within
    have := balanced.even
    omega

/-- Characters other than quotes count as they are. -/
theorem Parted.text_append (h : s.all (fun c => c ≠ '\'' && c ≠ '"') = true)
    (ht : Parted t parts) : Parted (s ++ t) (s.map some ++ parts) := by
  induction s with
  | nil => exact ht
  | cons c s ih =>
    simp only [List.all_cons, Bool.and_eq_true, decide_eq_true_eq] at h
    exact .char h.1.1 h.1.2 (ih h.2)

theorem Parted.text (h : s.all (fun c => c ≠ '\'' && c ≠ '"') = true) :
    Parted s (s.map some) := by
  simpa using Parted.text_append h .nil

/-- An exact object, a comment with an apostrophe and a bracket, a literal with
    an escape and a bracket, and lines that close before they open. -/
def nestedLines : List Text :=
  ["type A = \x7b|", "// don't \x7b", "a: ['it\\'s \x7d',", "], b: (", ") |\x7d;"]

def nestedCuts : List (List (Option Char)) :=
  [("type A = \x7b|" : Text).map some, [], ("a: [" : Text).map some ++ none :: [some ','],
    ("], b: (" : Text).map some, (") |\x7d;" : Text).map some]

theorem counted_nestedLines : List.Forall₂ Counted nestedLines nestedCuts := by
  have body : Piece.BodyForm '\'' ("it\\'s \x7d" : Text) :=
    .plain (by decide) (by decide) (.plain (by decide) (by decide) (.escape
      (.plain (by decide) (by decide) (.plain (by decide) (by decide)
        (.plain (by decide) (by decide) .nil)))))
  have literal : Parted ("a: [" ++ ('\'' :: ("it\\'s \x7d" : Text) ++ '\'' :: [',']))
      (("a: [" : Text).map some ++ none :: [some ',']) :=
    .text_append (by decide) (.literal (.inr rfl) body (.char (by decide) (by decide) .nil))
  refine .cons (.code (by decide) (.text (by decide))) (.cons (.comment (by decide)) ?_)
  refine .cons (.code (by decide) literal) (.cons (.code (by decide) (.text (by decide))) ?_)
  exact .cons (.code (by decide) (.text (by decide))) .nil

theorem reindent_nested_object :
    List.Forall₂ Counted nestedLines nestedCuts ∧ Balanced nestedCuts.flatten ∧
    (reindent nestedLines)[2]? = some ("  a: ['it\\'s \x7d'," : Text) ∧
    (reindent nestedLines)[4]? = some (") |\x7d;" : Text) ∧
    depthAfter 0 nestedLines = 0 := by
  have balanced : Balanced nestedCuts.flatten := by decide +kernel
  obtain ⟨each, finish⟩ := reindent_nested (by decide) counted_nestedLines balanced
  obtain ⟨_, rfl, -, -, -, third⟩ := each 2 _ _ rfl rfl
  obtain ⟨_, rfl, -, -, -, last⟩ := each 4 _ _ rfl rfl
  exact ⟨counted_nestedLines, balanced, third.trans (by decide), last.trans (by decide), finish⟩

end IdlFlow.Layout
