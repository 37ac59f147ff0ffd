/-
  Absolute paths in normal form.

  * `Path.Kept`: a name that tidying a path keeps;
  * `Path.Proper`: a name that is kept as it is when a path is resolved;
  * `Path.IsNormal`: one slash or two, then proper names with a slash between.

  Main statements: `absolute` gives a normal path (`absolute_isNormal`), which
  is its own normal and tidy form (`IsNormal.normalize_eq`, `IsNormal.tidy_eq`)
  and is told by its root and names (`IsNormal.eq_root_names`).  In a file tree
  it leads to the place of its names (`IsNormal.locate_eq`), so that at most two
  normal paths lead to one place.
-/
import IdlFlow.FileTree

namespace IdlFlow

namespace Path

/-- A name that tidying a path keeps. -/
structure Kept (name : Text) : Prop where
  ne_nil : name ≠ []
  ne_current : name ≠ current
  no_slash : slash ∉ name

/-- A name that resolving a path keeps. -/
structure Proper (name : Text) : Prop where
  ne_nil : name ≠ []
  ne_current : name ≠ current
  ne_parent : name ≠ parent
  no_slash : slash ∉ name

theorem Proper.kept {name : Text} (h : Proper name) : Kept name :=
  ⟨h.ne_nil, h.ne_current, h.no_slash⟩

/-- One slash or two, then proper names. -/
def IsNormal (path : Text) : Prop :=
  ∃ root names, (root = ['/'] ∨ root = ['/', '/']) ∧ (∀ name ∈ names, Proper name) ∧
    path = root ++ ofNames names

variable {root path here name : Text} {names : List Text}

/-! ## Names and roots -/

theorem isAbsolute_iff : isAbsolute path = true ↔ ∃ s, path = '/' :: s := by
  cases path with
  | nil => simp [isAbsolute]
  | cons c s => simp [isAbsolute, slash]

theorem root_of_isAbsolute (h : isAbsolute path = true) :
    Path.root path = ['/'] ∨ Path.root path = ['/', '/'] := by
  obtain ⟨s, rfl⟩ := isAbsolute_iff.1 h
  unfold Path.root
  split <;> simp_all

theorem names_slash (s : Text) : Path.names ('/' :: s) = Path.names s := by
  simp [Path.names, Text.splitOn, slash]

theorem names_root (h : root = ['/'] ∨ root = ['/', '/']) (s : Text) :
    Path.names (root ++ s) = Path.names s := by
  rcases h with rfl | rfl <;> simp [names_slash]

theorem mem_names (h : name ∈ Path.names path) : name ≠ [] ∧ name ≠ current ∧ slash ∉ name := by
  simp only [Path.names, List.mem_filter, decide_eq_true_eq] at h
  exact ⟨h.2.1, h.2.2, Text.not_mem_of_mem_splitOn h.1⟩

theorem splitOn_ofNames (ne : names ≠ []) (kept : ∀ name ∈ names, Kept name) :
    Text.splitOn slash (ofNames names) = names :=
  Text.splitOn_intercalate ne fun part mem => (kept part mem).no_slash

theorem names_ofNames (kept : ∀ name ∈ names, Kept name) : Path.names (ofNames names) = names := by
  cases names with
  | nil => rfl
  | cons name names =>
    rw [Path.names, splitOn_ofNames (by simp) kept]
    refine List.filter_eq_self.2 fun part mem => ?_
    simp [(kept part mem).ne_nil, (kept part mem).ne_current]

theorem isAbsolute_ofNames (kept : ∀ name ∈ names, Kept name) :
    isAbsolute (ofNames names) = false := by
  cases names with
  | nil => rfl
  | cons name names =>
    have h := kept name (by simp)
    obtain ⟨c, s, rfl⟩ := List.exists_cons_of_ne_nil h.ne_nil
    have hc : c ≠ slash := fun eq => h.no_slash (by simp [eq])
    cases names <;> simp [ofNames, List.intercalate, List.intersperse, isAbsolute, hc]

theorem isAbsolute_eq_false_iff : isAbsolute path = false ↔ path.head? ≠ some '/' := by
  rw [isAbsolute, slash, decide_eq_false_iff_not, ne_eq]

theorem root_append (h : root = ['/'] ∨ root = ['/', '/']) {s : Text}
    (hs : s.head? ≠ some '/') : Path.root (root ++ s) = root := by
  cases s with
  | nil => rcases h with rfl | rfl <;> rfl
  | cons c s =>
    have hc : c ≠ '/' := by simpa using hs
    rcases h with rfl | rfl <;> simp [Path.root, hc]

/-! ## Resolving -/

theorem below_of_ne {absolute : Bool} (h : name ≠ parent) (before : List Text) :
    below absolute before name = name :: before :=
  if_pos h

theorem mem_of_mem_below {absolute : Bool} {before : List Text} {other : Text}
    (h : other ∈ below absolute before name) : other = name ∨ other ∈ before := by
  unfold below at h
  split at h
  · simpa using h
  · split at h
    · split at h
      · simp at h
      · exact .inl (by simpa using h)
    · split at h
      · simpa using h
      · exact .inr (List.mem_cons_of_mem _ h)

theorem mem_of_mem_foldl_below {absolute : Bool} {before : List Text} {name : Text}
    (h : name ∈ names.foldl (below absolute) before) : name ∈ names ∨ name ∈ before := by
  induction names generalizing before with
  | nil => exact .inr h
  | cons next names ih =>
    rcases ih h with mem | mem
    · exact .inl (List.mem_cons_of_mem _ mem)
    · rcases mem_of_mem_below mem with rfl | mem
      · exact .inl List.mem_cons_self
      · exact .inr mem

/-- Below the root no parent comes to stand. -/
theorem ne_parent_of_mem_below {before : List Text} {other : Text}
    (proper : ∀ name ∈ before, name ≠ parent) (h : other ∈ below true before name) :
    other ≠ parent := by
  by_cases hn : name = parent
  · subst hn
    cases before with
    | nil => simp [below] at h
    | cons last others =>
      have h : other ∈ others := by simpa [below, proper last (by simp)] using h
      exact proper other (List.mem_cons_of_mem _ h)
  · rw [below_of_ne hn] at h
    rcases List.mem_cons.1 h with rfl | h
    · exact hn
    · exact proper other h

theorem mem_foldl_below {before : List Text} (proper : ∀ name ∈ before, name ≠ parent)
    (h : name ∈ names.foldl (below true) before) :
    (name ∈ names ∨ name ∈ before) ∧ name ≠ parent := by
  induction names generalizing before with
  | nil => exact ⟨.inr h, proper name h⟩
  | cons next names ih =>
    obtain ⟨mem, ne⟩ := ih (fun other => ne_parent_of_mem_below proper) h
    refine ⟨?_, ne⟩
    rcases mem with mem | mem
    · simp [mem]
    · rcases mem_of_mem_below mem with rfl | mem <;> simp [*]

theorem mem_collapse (h : name ∈ collapse true names) : name ∈ names ∧ name ≠ parent := by
  simpa using mem_foldl_below (by simp) (List.mem_reverse.1 h)

theorem foldl_below {absolute : Bool} (h : ∀ name ∈ names, name ≠ parent)
    (before : List Text) : names.foldl (below absolute) before = names.reverse ++ before := by
  induction names generalizing before with
  | nil => rfl
  | cons next names ih =>
    rw [List.foldl_cons, below_of_ne (h next (by simp)),
      ih fun name mem => h name (List.mem_cons_of_mem _ mem)]
    simp

theorem collapse_eq_self {absolute : Bool} (h : ∀ name ∈ names, name ≠ parent) :
    collapse absolute names = names := by
  rw [collapse, foldl_below h]
  simp

theorem assemble_root (h : root = ['/'] ∨ root = ['/', '/']) (names : List Text) :
    assemble root names = root ++ ofNames names := by
  rcases h with rfl | rfl <;> simp [assemble]

/-- Resolving an absolute path gives a normal one. -/
theorem normalize_isNormal (h : isAbsolute path = true) : IsNormal (normalize path) := by
  refine ⟨Path.root path, collapse true (Path.names path), root_of_isAbsolute h, ?_, ?_⟩
  · intro name mem
    obtain ⟨mem, ne⟩ := mem_collapse mem
    obtain ⟨ne_nil, ne_current, no_slash⟩ := mem_names mem
    exact ⟨ne_nil, ne_current, ne, no_slash⟩
  · rw [normalize, h, assemble_root (root_of_isAbsolute h)]

theorem isAbsolute_join (h : isAbsolute here = true) (path : Text) :
    isAbsolute (join here path) = true := by
  obtain ⟨s, rfl⟩ := isAbsolute_iff.1 h
  unfold join
  split
  · assumption
  · split <;> rfl

/-- **Absolute paths are normal.** -/
theorem absolute_isNormal (h : isAbsolute here = true) (path : Text) :
    IsNormal (absolute here path) :=
  normalize_isNormal (isAbsolute_join h path)

namespace IsNormal

/-- A normal path is told by its root and its names. -/
theorem eq_root_names (h : IsNormal path) :
    (Path.root path = ['/'] ∨ Path.root path = ['/', '/']) ∧
      (∀ name ∈ Path.names path, Proper name) ∧
      path = Path.root path ++ ofNames (Path.names path) := by
  obtain ⟨root, names, hroot, proper, rfl⟩ := h
  have kept : ∀ name ∈ names, Kept name := fun name mem => (proper name mem).kept
  rw [root_append hroot (isAbsolute_eq_false_iff.1 (isAbsolute_ofNames kept)), names_root hroot,
    names_ofNames kept]
  exact ⟨hroot, proper, rfl⟩

theorem isAbsolute (h : IsNormal path) : isAbsolute path = true := by
  obtain ⟨root, names, rfl | rfl, -, rfl⟩ := h <;> rfl

theorem tidy_eq (h : IsNormal path) : tidy path = path := by
  obtain ⟨hroot, -, eq⟩ := h.eq_root_names
  rw [tidy, assemble_root hroot, ← eq]

theorem normalize_eq (h : IsNormal path) : normalize path = path := by
  obtain ⟨hroot, proper, eq⟩ := h.eq_root_names
  rw [normalize, h.isAbsolute, collapse_eq_self fun name mem => (proper name mem).ne_parent,
    assemble_root hroot, ← eq]

/-- Between the slashes of a normal path nothing stands but proper names. -/
theorem proper_of_mem (h : IsNormal path) (mem : name ∈ Text.splitOn slash path)
    (ne : name ≠ []) : Proper name := by
  obtain ⟨root, names, hroot, proper, rfl⟩ := h
  have mem : name ∈ Text.splitOn slash (ofNames names) := by
    rcases hroot with rfl | rfl <;> simpa [Text.splitOn, slash, ne] using mem
  cases names with
  | nil => simp [ofNames, List.intercalate, Text.splitOn, ne] at mem
  | cons first names =>
    rw [splitOn_ofNames (by simp) fun part mem => (proper part mem).kept] at mem
    exact proper name mem

theorem names_eq (h : IsNormal path) :
    Path.names path = (Text.splitOn slash path).filter (· ≠ []) := by
  refine List.filter_congr fun name mem => ?_
  by_cases ne : name = []
  · simp [ne]
  · simp [ne, (h.proper_of_mem mem ne).ne_current]

end IsNormal

end Path

/-! ## Places -/

namespace FileTree

variable {tree : FileTree} {place found : Place} {steps : List Text} {path : Text}

/-- Steps that are empty or proper lead down only. -/
theorem walk_down (proper : ∀ step ∈ steps, step ≠ [] → Path.Proper step)
    (h : tree.walk place steps = .ok found) :
    found = place ++ steps.filter (· ≠ []) := by
  induction steps generalizing place with
  | nil =>
    rw [walk, Except.ok.injEq] at h
    simp [h]
  | cons step steps ih =>
    have rest : ∀ step ∈ steps, step ≠ [] → Path.Proper step :=
      fun s mem => proper s (List.mem_cons_of_mem _ mem)
    rw [walk] at h
    split at h
    · simp at h
    · simp at h
    · by_cases hs : step = []
      · rw [if_pos (.inl hs)] at h
        simp [hs, ih rest h]
      · have hp := proper step (by simp) hs
        rw [if_neg (by simp [hs, hp.ne_current]), if_neg hp.ne_parent] at h
        split at h
        · simp at h
        · rw [ih rest h]
          simp [hs]

/-- **A normal path leads to the place of its names.** -/
theorem locate_eq (normal : Path.IsNormal path) (h : tree.locate path = .ok found) :
    found = Path.names path := by
  unfold locate at h
  split at h
  · simp at h
  split at h
  · simp at h
  split at h
  · simp at h
  rw [if_pos normal.isAbsolute] at h
  rw [walk_down (fun _ => normal.proper_of_mem) h, normal.names_eq]
  rfl

end FileTree

end IdlFlow
