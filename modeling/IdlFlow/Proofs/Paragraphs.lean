/-
  The layout of a text that is made of paragraphs.

  * `Paragraph ls`: the lines `ls`, none of them blank, close all brackets that
    they open;
  * `Shape ls`: `ls` are one or two lines with as many brackets opened as
    closed, or such lines between one that opens a bracket and one that closes
    it;
  * `Framed ls`: the first and the last of `ls` start in column 0 and those
    between them in column 2.

  Main statements: layout keeps every filled line, at some indentation
  (`exists_indent_mem_format`); paragraphs with blank lines between them are laid
  out one by one (`collapse_paragraphs`, `reindent_paragraphs`), and lines of a
  shape are laid out in a frame (`Shape.framed`).
-/
import IdlFlow.Declaration.File
import IdlFlow.Proofs.Brackets

namespace IdlFlow.Layout

open Text DeclarationFile

/-! ## Cutting lines -/

theorem lines_of_unbroken {s : Text} (u : Unbroken s) (ne : s ≠ []) : lines s = [s] := by
  induction s with
  | nil => exact absurd rfl ne
  | cons c s ih =>
    have ends : isLineEnd c = false := u c (by simp)
    have rest : Unbroken s := fun d mem => u d (List.mem_cons_of_mem _ mem)
    have return_ : c ≠ '\r' := by
      rintro rfl
      cases ends
    rw [lines]
    · cases s with
      | nil => simp [ends, lines]
      | cons d s => simp [ends, ih rest (by simp)]
    · exact fun _ eq => absurd eq return_

theorem lines_flatMap_line {ls : List Text} (u : ∀ l ∈ ls, Unbroken l) :
    lines (ls.flatMap line) = ls := by
  induction ls with
  | nil => rfl
  | cons l ls ih =>
    rw [List.flatMap_cons, line, List.append_assoc, List.singleton_append,
      lines_append_lineFeed l (u l (by simp)), ih fun m mem => u m (List.mem_cons_of_mem _ mem)]

theorem intercalate_append_lineFeed {ls : List Text} (ne : ls ≠ []) :
    ['\n'].intercalate ls ++ ['\n'] = ls.flatMap line := by
  induction ls with
  | nil => exact absurd rfl ne
  | cons l ls ih =>
    cases ls with
    | nil => simp [line, List.intercalate_singleton]
    | cons m ls =>
      rw [List.intercalate_cons_cons, List.append_assoc, ih (by simp), List.flatMap_cons]
      simp [line]

theorem lines_joined {ls : List Text} (u : ∀ l ∈ ls, Unbroken l)
    (last : ∀ l ∈ ls.getLast?, l ≠ []) : lines (['\n'].intercalate ls) = ls := by
  induction ls with
  | nil => rfl
  | cons l ls ih =>
    cases ls with
    | nil =>
      rw [List.intercalate_singleton]
      exact lines_of_unbroken (u l (by simp)) (last l (by simp))
    | cons m ls =>
      rw [List.intercalate_cons_cons, List.append_assoc, List.singleton_append,
        lines_append_lineFeed l (u l (by simp)),
        ih (fun n mem => u n (List.mem_cons_of_mem _ mem)) (by simpa using last)]

theorem unbroken_of_mem_lines {s l : Text} (h : l ∈ lines s) : Unbroken l := by
  fun_induction lines s generalizing l with
  | case1 => cases h
  | case2 s ih =>
    rcases List.mem_cons.1 h with rfl | h
    · simp [Unbroken]
    · exact ih h
  | case3 c s _ ends ih =>
    rcases List.mem_cons.1 h with rfl | h
    · simp [Unbroken]
    · exact ih h
  | case4 c s _ ends none =>
    rw [List.mem_singleton.1 h]
    intro d mem
    rw [List.mem_singleton.1 mem]
    simpa using ends
  | case5 c s _ ends line more eq ih =>
    rcases List.mem_cons.1 h with rfl | h
    · intro d mem
      rcases List.mem_cons.1 mem with rfl | mem
      · simpa using ends
      · exact ih (by simp [eq]) d mem
    · exact ih (by simp [eq, h])

/-- A line feed ends a line, whatever comes before it. -/
theorem exists_lines_append (s t : Text) :
    ∃ ls, ls ≠ [] ∧ lines (s ++ '\n' :: t) = ls ++ lines t := by
  induction s with
  | nil => exact ⟨[[]], by simp, lines_append_lineFeed [] (by simp) t⟩
  | cons c s ih =>
    obtain ⟨ls, ne, eq⟩ := ih
    by_cases half : c = '\r' ∧ ∃ u, s ++ '\n' :: t = '\n' :: u
    · -- The line feed behind the carriage return ends the same line.
      obtain ⟨rfl, u, hu⟩ := half
      refine ⟨ls, ne, ?_⟩
      have feed : lines ('\n' :: u) = [] :: lines u := lines_append_lineFeed [] (by simp) u
      rw [← eq, List.cons_append, hu, lines, feed]
    · obtain ⟨first, others, rfl⟩ := List.exists_cons_of_ne_nil ne
      rw [List.cons_append, lines]
      · by_cases ends : isLineEnd c = true
        · exact ⟨[] :: first :: others, by simp, by rw [if_pos ends, eq]; rfl⟩
        · exact ⟨(c :: first) :: others, by simp, by rw [if_neg ends, eq]; rfl⟩
      · exact fun u hc hu => half ⟨hc, u, hu⟩

theorem mem_lines_between {front l back : Text} (u : Unbroken l) :
    l ∈ lines (front ++ '\n' :: (l ++ '\n' :: back)) := by
  obtain ⟨ls, -, cut⟩ := exists_lines_append front (l ++ '\n' :: back)
  rw [cut, lines_append_lineFeed l u]
  simp

theorem unbroken_trim {l : Text} (u : Unbroken l) : Unbroken (trim l) := by
  intro c mem
  have back := (List.dropWhile_sublist _).subset (List.mem_reverse.1 mem)
  exact u c ((List.dropWhile_sublist _).subset (List.mem_reverse.1 back))

/-! ## Blank lines -/

theorem mem_collapseFrom {ls : List Text} {l : Text} (mem : l ∈ ls) (ne : l ≠ [])
    (started gap : Bool) : l ∈ collapseFrom started gap ls := by
  induction ls generalizing started gap with
  | nil => cases mem
  | cons m ls ih =>
    rw [collapseFrom]
    rcases List.mem_cons.1 mem with rfl | mem
    · rw [if_neg ne]
      simp
    · split
      · exact ih mem _ _
      · exact List.mem_append_right _ (List.mem_cons_of_mem _ (ih mem _ _))

theorem mem_of_mem_collapseFrom {ls : List Text} {l : Text} {started gap : Bool}
    (h : l ∈ collapseFrom started gap ls) : l = [] ∨ l ∈ ls := by
  induction ls generalizing started gap with
  | nil => cases h
  | cons m ls ih =>
    rw [collapseFrom] at h
    split at h
    · exact (ih h).imp_right (List.mem_cons_of_mem _)
    · rcases List.mem_append.1 h with h | h
      · split at h
        · exact .inl (List.mem_singleton.1 h)
        · cases h
      · rcases List.mem_cons.1 h with rfl | h
        · exact .inr List.mem_cons_self
        · exact (ih h).imp_right (List.mem_cons_of_mem _)

theorem unbroken_collapsedLines (s : Text) : ∀ l ∈ collapsedLines s, Unbroken l := by
  intro l mem
  rcases mem_of_mem_collapseFrom mem with rfl | mem
  · simp [Unbroken]
  · obtain ⟨m, hm, rfl⟩ := List.mem_map.1 mem
    exact unbroken_trim (unbroken_of_mem_lines hm)

theorem collapseFrom_filled {ls : List Text} (filled : ∀ l ∈ ls, l ≠ []) (ne : ls ≠ [])
    (started gap : Bool) (others : List Text) :
    collapseFrom started gap (ls ++ others) =
      (if gap then [[]] else []) ++ ls ++ collapseFrom true false others := by
  induction ls generalizing started gap with
  | nil => exact absurd rfl ne
  | cons l ls ih =>
    have first : l ≠ [] := filled l (by simp)
    rw [List.cons_append, collapseFrom, if_neg first]
    cases ls with
    | nil => simp
    | cons m ls =>
      rw [ih (fun n mem => filled n (List.mem_cons_of_mem _ mem)) (by simp)]
      simp

theorem collapseFrom_blank (started gap : Bool) (others : List Text) :
    collapseFrom started gap ([] :: others) = collapseFrom started started others := by
  rw [collapseFrom, if_pos rfl]

/-! ## Depth -/

/-- The brackets open after lines, if `depth` were open before them. -/
def depthAfter : Nat → List Text → Nat
  | depth, [] => depth
  | depth, l :: ls =>
    if l = [] then depthAfter depth ls
    else if isComment l then depthAfter depth ls
    else depthAfter (depth + (brackets l).opens - (brackets l).closes) ls

theorem reindentFrom_append (depth : Nat) (ls ms : List Text) :
    reindentFrom depth (ls ++ ms) =
      reindentFrom depth ls ++ reindentFrom (depthAfter depth ls) ms := by
  induction ls generalizing depth with
  | nil => rfl
  | cons l ls ih =>
    rw [List.cons_append]
    simp only [reindentFrom, depthAfter]
    split
    · rw [ih]
      rfl
    · split
      · rw [ih]
        rfl
      · rw [ih]
        rfl

theorem depthAfter_append (depth : Nat) (ls ms : List Text) :
    depthAfter depth (ls ++ ms) = depthAfter (depthAfter depth ls) ms := by
  induction ls generalizing depth with
  | nil => rfl
  | cons l ls ih =>
    rw [List.cons_append]
    simp only [depthAfter]
    split
    · exact ih depth
    · split
      · exact ih depth
      · exact ih _

theorem unbroken_reindentFrom {ls : List Text} (h : ∀ l ∈ ls, Unbroken l) (depth : Nat) :
    ∀ l ∈ reindentFrom depth ls, Unbroken l := by
  have indented {l : Text} (hl : Unbroken l) (n : Nat) : Unbroken (indent n l) := by
    refine Unbroken.append (fun d mem => ?_) hl
    rw [List.eq_of_mem_replicate mem]
    decide
  induction ls generalizing depth with
  | nil => simp [reindentFrom]
  | cons l ls ih =>
    have first := h l (by simp)
    have rest := ih fun m mem => h m (List.mem_cons_of_mem _ mem)
    simp only [reindentFrom]
    split
    · next blank => simpa using ⟨blank ▸ first, rest depth⟩
    · split
      · simpa using ⟨indented first depth, rest depth⟩
      · simpa using ⟨indented first _, rest _⟩

/-- Every line is indented by some depth. -/
theorem exists_indent_mem {ls : List Text} {l : Text} (mem : l ∈ ls) (ne : l ≠ [])
    (depth : Nat) : ∃ level, indent level l ∈ reindentFrom depth ls := by
  induction ls generalizing depth with
  | nil => cases mem
  | cons m ls ih =>
    rw [reindentFrom]
    rcases List.mem_cons.1 mem with rfl | mem
    · rw [if_neg ne]
      split <;> exact ⟨_, List.mem_cons_self⟩
    · split
      · exact (ih mem _).imp fun _ => List.mem_cons_of_mem _
      · split <;> exact (ih mem _).imp fun _ => List.mem_cons_of_mem _

theorem reindent_eq_nil {ls : List Text} : reindent ls = [] ↔ ls = [] := by
  cases ls with
  | nil => exact Iff.rfl
  | cons l ls =>
    rw [reindent, reindentFrom]
    split
    · simp
    · split <;> simp

section Format

variable {s : Text}

/-- The lines of a layout, one line feed after each. -/
theorem format_eq_flatMap (h : collapsedLines s ≠ []) :
    format s = (reindent (collapsedLines s)).flatMap line :=
  intercalate_append_lineFeed (mt reindent_eq_nil.1 h)

theorem lines_format (h : collapsedLines s ≠ []) :
    lines (format s) = reindent (collapsedLines s) := by
  rw [format_eq_flatMap h]
  exact lines_flatMap_line (unbroken_reindentFrom (unbroken_collapsedLines s) 0)

/-- **Layout keeps a filled line**, at some indentation. -/
theorem exists_indent_mem_format {l : Text} (mem : l ∈ lines s) (trimmed : trim l = l)
    (ne : l ≠ []) : ∃ level, indent level l ∈ lines (format s) := by
  have kept : l ∈ collapsedLines s :=
    mem_collapseFrom (trimmed ▸ List.mem_map_of_mem mem) ne false false
  rw [lines_format (List.ne_nil_of_mem kept)]
  exact exists_indent_mem kept ne 0

end Format

section Lead

variable {l : Text} {o c : Nat}

theorem Lead.ne_nil (h : Lead l o c) : l ≠ [] := by
  rintro rfl
  obtain ⟨d, hd, -⟩ := h.head
  cases hd

theorem Lead.not_comment (h : Lead l o c) : isComment l = false := by
  obtain ⟨d, hd, neutral⟩ := h.head
  cases l with
  | nil => rfl
  | cons e l =>
    obtain rfl : e = d := by simpa using hd
    have slash : e ≠ '/' := fun eq => neutral.2 (by simp [eq, marks])
    simp [isComment, List.isPrefixOf, Ne.symm slash]

/-- A line is indented by what is open before it, and counts for those after
    it. -/
theorem reindentFrom_lead (h : Lead l o c) (depth : Nat) (ls : List Text) :
    reindentFrom depth (l :: ls) = indent depth l :: reindentFrom (depth + o - c) ls := by
  simp [reindentFrom, h.ne_nil, h.not_comment, h.brackets]

theorem depthAfter_lead (h : Lead l o c) (depth : Nat) (ls : List Text) :
    depthAfter depth (l :: ls) = depthAfter (depth + o - c) ls := by
  simp [depthAfter, h.ne_nil, h.not_comment, h.brackets]

end Lead

/-- The line closes the brackets that it opens. -/
def Row (l : Text) : Prop := ∃ k, Lead l k k

theorem Row.of_inline {l : Text} (head : ∃ d ∈ l.head?, Neutral d) (h : Inline l) : Row l := by
  obtain ⟨⟨k, weighs⟩, u⟩ := h
  exact ⟨k, .of_weighs head weighs u⟩

section Rows

variable {rows : List Text}

theorem reindentFrom_rows (h : ∀ l ∈ rows, Row l) (depth : Nat) :
    reindentFrom depth rows = rows.map (indent depth) := by
  induction rows with
  | nil => rfl
  | cons l rows ih =>
    obtain ⟨k, lead⟩ := h l (by simp)
    rw [reindentFrom_lead lead, Nat.add_sub_cancel, ih fun m mem => h m (List.mem_cons_of_mem _ mem)]
    rfl

theorem depthAfter_rows (h : ∀ l ∈ rows, Row l) (depth : Nat) : depthAfter depth rows = depth := by
  induction rows with
  | nil => rfl
  | cons l rows ih =>
    obtain ⟨k, lead⟩ := h l (by simp)
    rw [depthAfter_lead lead, Nat.add_sub_cancel, ih fun m mem => h m (List.mem_cons_of_mem _ mem)]

theorem reindent_rows (h : ∀ l ∈ rows, Row l) : reindent rows = rows := by
  rw [reindent, reindentFrom_rows h]
  exact List.map_id' _

end Rows

theorem reindent_comments {ls : List Text} (h : ∀ l ∈ ls, isComment l = true) :
    reindent ls = ls := by
  rw [reindent]
  induction ls with
  | nil => rfl
  | cons l ls ih =>
    have comment := h l (by simp)
    have rest := ih fun m mem => h m (List.mem_cons_of_mem _ mem)
    rw [reindentFrom]
    split
    · next blank => rw [rest, blank]
    · rw [rest]
      rfl

theorem depthAfter_comments {ls : List Text} (h : ∀ l ∈ ls, isComment l = true) (depth : Nat) :
    depthAfter depth ls = depth := by
  induction ls with
  | nil => rfl
  | cons l ls ih =>
    have rest := ih fun m mem => h m (List.mem_cons_of_mem _ mem)
    rw [depthAfter, if_pos (h l (by simp)), ite_self]
    exact rest

/-! ## Paragraphs -/

/-- Lines, none of them blank, that close what they open. -/
structure Paragraph (ls : List Text) : Prop where
  filled : ∀ l ∈ ls, l ≠ []
  ne_nil : ls ≠ []
  level : depthAfter 0 ls = 0

theorem paragraph_rows {rows : List Text} (h : ∀ l ∈ rows, Row l) (ne : rows ≠ []) :
    Paragraph rows := by
  refine ⟨fun l mem => ?_, ne, depthAfter_rows h 0⟩
  obtain ⟨k, lead⟩ := h l mem
  exact lead.ne_nil

theorem paragraph_comments {ls : List Text} (h : ∀ l ∈ ls, isComment l = true) (ne : ls ≠ []) :
    Paragraph ls := by
  refine ⟨fun l mem blank => ?_, ne, depthAfter_comments h 0⟩
  have comment := h l mem
  rw [blank] at comment
  cases comment

/-- Paragraphs, each with a blank line in front. -/
def apart (paragraphs : List (List Text)) : List Text := paragraphs.flatMap ([] :: ·)

section Paragraphs

variable {paragraphs : List (List Text)}

theorem collapse_apart_append (h : ∀ p ∈ paragraphs, Paragraph p) (others : List Text) :
    collapseFrom true false (apart paragraphs ++ others) =
      apart paragraphs ++ collapseFrom true false others := by
  induction paragraphs with
  | nil => rfl
  | cons p more ih =>
    have first := h p (by simp)
    have rest := ih fun q mem => h q (List.mem_cons_of_mem _ mem)
    rw [apart, List.flatMap_cons, List.cons_append, List.cons_append, List.append_assoc,
      collapseFrom_blank, collapseFrom_filled first.filled first.ne_nil]
    exact (congrArg (([] :: p) ++ ·) rest).trans (List.append_assoc ..).symm

/-- Blank lines before the first paragraph make no difference. -/
theorem collapse_apart (h : ∀ p ∈ paragraphs, Paragraph p) (gap : Bool) :
    collapseFrom true gap (apart paragraphs) = apart paragraphs := by
  have base := collapse_apart_append h []
  rw [List.append_nil, collapseFrom, List.append_nil] at base
  cases paragraphs with
  | nil => rfl
  | cons p more =>
    rw [apart, List.flatMap_cons, List.cons_append, collapseFrom_blank] at base ⊢
    exact base

/-- **Paragraphs keep their lines and a blank line before each.** -/
theorem collapse_paragraphs {first : List Text} (hf : Paragraph first)
    (h : ∀ p ∈ paragraphs, Paragraph p) (others : List Text) :
    collapseFrom false false (first ++ (apart paragraphs ++ others)) =
      first ++ (apart paragraphs ++ collapseFrom true false others) := by
  rw [collapseFrom_filled hf.filled hf.ne_nil, collapse_apart_append h]
  rfl

/-- **Paragraphs are indented one by one.** -/
theorem reindent_paragraphs {first : List Text} (hf : Paragraph first)
    (h : ∀ p ∈ paragraphs, Paragraph p) :
    reindent (first ++ apart paragraphs) = reindent first ++ apart (paragraphs.map reindent) := by
  rw [reindent, reindentFrom_append, hf.level]
  refine congrArg (reindent first ++ ·) ?_
  induction paragraphs with
  | nil => rfl
  | cons p more ih =>
    have next := h p (by simp)
    have rest := ih fun q mem => h q (List.mem_cons_of_mem _ mem)
    rw [apart, List.flatMap_cons, List.cons_append, reindentFrom, if_pos rfl,
      reindentFrom_append, next.level]
    exact congrArg (([] :: reindent p) ++ ·) rest

end Paragraphs

/-! ## Shapes -/

/-- The line that closes exact braces. -/
def closingLine : Text := "|\x7d;"

/-- The lines that declarations come in. -/
inductive Shape : List Text → Prop
  | single {l} : Row l → Shape [l]
  | pair {l m} : Row l → Row m → Shape [l, m]
  /-- Rows in exact braces. -/
  | frame {first rows} : Lead first 1 0 → (∀ l ∈ rows, Row l) →
      Shape (first :: rows ++ [closingLine])

/-- The line has exactly so many blanks in front. -/
def StartsAt (column : Nat) (l : Text) : Prop :=
  ∃ c s, l = List.replicate column ' ' ++ c :: s ∧ isBlank c = false

/-- The first and the last line start in column 0, those between in column 2. -/
structure Framed (ls : List Text) : Prop where
  ne_nil : ls ≠ []
  first : ∀ l ∈ ls.head?, StartsAt 0 l
  between : ∀ l ∈ ls.tail.dropLast, StartsAt 2 l
  last : ∀ l ∈ ls.getLast?, StartsAt 0 l

theorem Lead.startsAt {l : Text} {o c : Nat} (h : Lead l o c) (depth : Nat) :
    StartsAt (2 * depth) (indent depth l) := by
  obtain ⟨d, hd, neutral⟩ := h.head
  cases l with
  | nil => cases hd
  | cons e l =>
    obtain rfl : e = d := by simpa using hd
    exact ⟨e, l, rfl, neutral.1⟩

theorem Row.startsAt {l : Text} (h : Row l) (depth : Nat) :
    StartsAt (2 * depth) (indent depth l) := by
  obtain ⟨k, lead⟩ := h
  exact lead.startsAt depth

theorem Row.trim {l : Text} (h : Row l) : Row (trim l) := h.imp fun _ => Lead.trim

theorem Row.unbroken {l : Text} (h : Row l) : Unbroken l := by
  obtain ⟨k, lead⟩ := h
  exact lead.unbroken

theorem reindentFrom_closing :
    reindentFrom 1 [closingLine] = [closingLine] ∧ depthAfter 1 [closingLine] = 0 := by
  decide

namespace Shape

variable {ls : List Text}

theorem trim (h : Shape ls) : Shape (ls.map trim) := by
  cases h with
  | single h => exact .single h.trim
  | pair h h' => exact .pair h.trim h'.trim
  | @frame first rows h h' =>
    have closing : Text.trim closingLine = closingLine := by decide
    rw [List.cons_append, List.map_cons, List.map_append, List.map_singleton, closing]
    refine .frame h.trim fun l mem => ?_
    obtain ⟨m, hm, rfl⟩ := List.mem_map.1 mem
    exact (h' m hm).trim

theorem unbroken (h : Shape ls) : ∀ l ∈ ls, Unbroken l := by
  have closing : Unbroken closingLine := by decide
  cases h with
  | single h => simpa using h.unbroken
  | pair h h' => simpa using ⟨h.unbroken, h'.unbroken⟩
  | frame h h' =>
    intro l mem
    simp only [List.cons_append, List.mem_cons, List.mem_append, List.not_mem_nil, or_false] at mem
    rcases mem with rfl | mem | rfl
    · exact h.unbroken
    · exact (h' l mem).unbroken
    · exact closing

theorem paragraph (h : Shape ls) : Paragraph ls := by
  cases h with
  | single h => exact paragraph_rows (by simpa using h) (by simp)
  | pair h h' => exact paragraph_rows (by simpa using ⟨h, h'⟩) (by simp)
  | @frame first rows h h' =>
    refine ⟨fun l mem => ?_, by simp, ?_⟩
    · simp only [List.cons_append, List.mem_cons, List.mem_append, List.not_mem_nil,
        or_false] at mem
      rcases mem with rfl | mem | rfl
      · exact h.ne_nil
      · obtain ⟨k, lead⟩ := h' l mem
        exact lead.ne_nil
      · decide
    · rw [List.cons_append, depthAfter_lead h, depthAfter_append, depthAfter_rows h']
      exact reindentFrom_closing.2

/-- **Lines of a shape are laid out in a frame.** -/
theorem framed (h : Shape ls) : Framed (reindent ls) := by
  cases h with
  | @single l h =>
    have start : StartsAt 0 l := h.startsAt 0
    rw [reindent_rows (by simpa using h)]
    exact ⟨by simp, by simpa using start, by simp, by simpa using start⟩
  | @pair l m h h' =>
    have start : StartsAt 0 l := h.startsAt 0
    have finish : StartsAt 0 m := h'.startsAt 0
    rw [reindent_rows (by simpa using ⟨h, h'⟩)]
    exact ⟨by simp, by simpa using start, by simp, by simpa using finish⟩
  | @frame first rows h h' =>
    have start : StartsAt 0 first := h.startsAt 0
    have finish : StartsAt 0 closingLine := ⟨'|', ['}', ';'], by decide, by decide⟩
    have laid : reindent (first :: rows ++ [closingLine]) =
        first :: rows.map (indent 1) ++ [closingLine] := by
      rw [reindent, List.cons_append, reindentFrom_lead h, reindentFrom_append,
        reindentFrom_rows h', depthAfter_rows h']
      exact congrArg (fun ls => first :: (rows.map (indent 1) ++ ls)) reindentFrom_closing.1
    rw [laid]
    refine ⟨by simp, by simpa using start, fun l mem => ?_, fun l mem => ?_⟩
    · rw [List.cons_append, List.tail_cons, List.dropLast_concat] at mem
      obtain ⟨m, hm, rfl⟩ := List.mem_map.1 mem
      exact (h' m hm).startsAt 1
    · rw [List.getLast?_concat, Option.mem_some_iff] at mem
      exact mem ▸ finish

end Shape

end IdlFlow.Layout
