/-
  How paths are cut, continued and led from one directory to another.

  What a path resolves to is told by its root and its names, so each operation
  on paths has a lemma on either: `root_join` and `names_join`,
  `root_directory` and `names_directory`, `root_tidy` and `names_tidy`.

  Main statements: climbing out of directories cancels them (`collapse_climb`),
  and the path between two places is made of the names that they do not share
  (`relative?_eq`).
-/
import Mathlib.Data.List.Basic
import Mathlib.Data.List.Induction
import Mathlib.Data.List.TakeWhile
import IdlFlow.Proofs.Paths

namespace IdlFlow

namespace Path

variable {path other here start name s t : Text} {names others steps : List Text}

instance : DecidablePred Proper := fun name =>
  decidable_of_iff (name ≠ [] ∧ name ≠ current ∧ name ≠ parent ∧ slash ∉ name)
    ⟨fun ⟨ne_nil, ne_current, ne_parent, no_slash⟩ => ⟨ne_nil, ne_current, ne_parent, no_slash⟩,
      fun h => ⟨h.ne_nil, h.ne_current, h.ne_parent, h.no_slash⟩⟩

instance : DecidablePred IsNormal := fun path =>
  decidable_of_iff (isAbsolute path = true ∧ normalize path = path)
    ⟨fun ⟨absolute, eq⟩ => eq ▸ normalize_isNormal absolute,
      fun h => ⟨h.isAbsolute, h.normalize_eq⟩⟩

theorem kept_parent : Kept parent := ⟨by decide, by decide, by decide⟩

theorem Kept.append (h : Kept name) (free : slash ∉ s) : Kept (name ++ s) := by
  refine ⟨fun empty => h.ne_nil (List.append_eq_nil_iff.1 empty).1, fun dot => ?_, ?_⟩
  · rcases List.append_eq_singleton_iff.1 dot with ⟨empty, -⟩ | ⟨dot, -⟩
    · exact h.ne_nil empty
    · exact h.ne_current dot
  · simp [h.no_slash, free]

theorem kept_concat (front : ∀ name ∈ names, Kept name) (last : Kept name) (free : slash ∉ s) :
    ∀ other ∈ names ++ [name ++ s], Kept other := by
  intro other mem
  rcases List.mem_append.1 mem with mem | mem
  · exact front other mem
  · rw [List.mem_singleton.1 mem]
    exact last.append free

theorem kept_of_mem_names (h : name ∈ Path.names path) : Kept name :=
  let ⟨ne_nil, ne_current, no_slash⟩ := mem_names h
  ⟨ne_nil, ne_current, no_slash⟩

/-! ## Roots -/

theorem root_eq_nil_iff : root path = [] ↔ isAbsolute path = false := by
  constructor
  · intro h
    cases absolute : isAbsolute path with
    | false => rfl
    | true => rcases root_of_isAbsolute absolute with eq | eq <;> simp [h] at eq
  · intro h
    rw [isAbsolute_eq_false_iff] at h
    unfold root
    split <;> simp_all

theorem isAbsolute_congr (h : root path = root other) : isAbsolute path = isAbsolute other := by
  have same : isAbsolute path = false ↔ isAbsolute other = false := by
    rw [← root_eq_nil_iff, ← root_eq_nil_iff, h]
  cases hp : isAbsolute path <;> cases ho : isAbsolute other <;> simp_all

/-- What begins without a slash adds none to the root in front. -/
theorem root_append_of_head? (h : s.head? ≠ some '/') : root (path ++ s) = root path := by
  cases s with
  | nil => rw [List.append_nil]
  | cons c s =>
    have hc : c ≠ '/' := by simpa using h
    match path with
    | [] => simp [root, hc]
    | [a] => by_cases ha : a = '/' <;> simp [root, ha, hc]
    | [a, b] => by_cases ha : a = '/' <;> by_cases hb : b = '/' <;> simp [root, ha, hb, hc]
    | a :: b :: d :: path =>
      by_cases ha : a = '/' <;> by_cases hb : b = '/' <;> by_cases hd : d = '/' <;>
        simp [root, ha, hb, hd]

/-- The root ends before any other character. -/
theorem root_append_of_mem {c : Char} (mem : c ∈ path) (ne : c ≠ '/') :
    root (path ++ s) = root path := by
  match path with
  | [a] =>
    have ha : a ≠ '/' := by simpa [← List.mem_singleton.1 mem] using ne
    simp [root, ha]
  | [a, b] =>
    by_cases ha : a = '/' <;> by_cases hb : b = '/'
    · simp_all
    · simp [root, ha, hb]
    · simp [root, ha]
    · simp [root, ha]
  | a :: b :: d :: path =>
    by_cases ha : a = '/' <;> by_cases hb : b = '/' <;> by_cases hd : d = '/' <;>
      simp [root, ha, hb, hd]

/-! ## Names -/

theorem names_append_slash (s t : Text) :
    Path.names (s ++ slash :: t) = Path.names s ++ Path.names t := by
  rw [Path.names, Text.splitOn_append, List.filter_append]
  rfl

/-- A single dot in front makes no difference. -/
theorem names_current_append (s : Text) : Path.names (current ++ slash :: s) = Path.names s :=
  names_append_slash current s

/-- A name by itself. -/
theorem names_of_kept (h : Kept name) : Path.names name = [name] := by
  rw [Path.names, Text.splitOn_of_not_mem h.no_slash]
  simp [h.ne_nil, h.ne_current]

theorem ofNames_concat (ne : names ≠ []) (name : Text) :
    ofNames (names ++ [name]) = ofNames names ++ slash :: name := by
  induction names with
  | nil => exact absurd rfl ne
  | cons first others ih =>
    cases others with
    | nil => simp [ofNames, List.intercalate_cons_cons]
    | cons next others =>
      have rest := ih (by simp)
      simp only [ofNames, List.cons_append] at rest ⊢
      rw [List.intercalate_cons_cons, rest, List.intercalate_cons_cons]
      simp

theorem isAbsolute_of_no_slash (h : slash ∉ s) : isAbsolute s = false := by
  rw [isAbsolute_eq_false_iff]
  intro head
  exact h (List.mem_of_mem_head? head)

theorem ofNames_ne_nil (ne : names ≠ []) (kept : ∀ name ∈ names, Kept name) :
    ofNames names ≠ [] := by
  intro empty
  have back := names_ofNames kept
  rw [empty] at back
  exact ne back.symm

/-! ## Joining -/

theorem root_join (h : isAbsolute s = false) : root (join start s) = root start := by
  rw [join, if_neg (by simp [h])]
  split
  · exact root_append_of_head? (isAbsolute_eq_false_iff.1 h)
  · next open_ =>
    obtain ⟨ne, last⟩ := not_or.1 open_
    refine root_append_of_mem (List.getLast_mem ne) fun eq => last ?_
    rw [List.getLast?_eq_some_getLast ne, eq]
    rfl

theorem names_join (h : isAbsolute s = false) :
    Path.names (join start s) = Path.names start ++ Path.names s := by
  rw [join, if_neg (by simp [h])]
  split
  · next closed =>
    rcases closed with rfl | last
    · rfl
    · obtain ⟨front, rfl⟩ := List.getLast?_eq_some_iff.1 last
      rw [List.append_assoc, List.singleton_append, names_append_slash, names_append_slash]
      simp [Path.names, Text.splitOn]
  · exact names_append_slash start s

/-- A path that is continued stands at the end. -/
theorem suffix_join (start path : Text) : path <:+ join start path := by
  unfold join
  split
  · exact List.suffix_rfl
  · split
    · exact List.suffix_append _ _
    · exact (List.suffix_cons slash path).trans (List.suffix_append _ _)

/-! ## Directories and file names -/

theorem split_append (h : slash ∉ name) :
    split (s ++ slash :: name) = (dropSlashes (s ++ [slash]), name) := by
  rw [split, Text.cutLast_append h]

theorem split_of_no_slash (h : slash ∉ path) : split path = ([], path) := by
  rw [split, Text.cutLast_of_not_mem h]

theorem no_slash_fileName (path : Text) : slash ∉ fileName path := by
  by_cases mem : slash ∈ path
  · obtain ⟨before, after, free, rfl⟩ := Text.exists_last mem
    rwa [fileName, split_append free]
  · rwa [fileName, split_of_no_slash mem]

/-- More of the last name. -/
theorem fileName_append (h : slash ∉ s) : fileName (path ++ s) = fileName path ++ s := by
  by_cases mem : slash ∈ path
  · obtain ⟨before, after, free, rfl⟩ := Text.exists_last mem
    rw [List.append_assoc, List.cons_append, fileName, fileName, split_append free,
      split_append (by simp [free, h])]
  · rw [fileName, fileName, split_of_no_slash mem, split_of_no_slash (by simp [mem, h])]

theorem fileName_join (h : isAbsolute s = false) : fileName (join start s) = fileName s := by
  have cut : ∀ front, fileName (front ++ slash :: s) = fileName s := by
    intro front
    by_cases mem : slash ∈ s
    · obtain ⟨before, after, free, rfl⟩ := Text.exists_last mem
      rw [← List.cons_append, ← List.append_assoc, fileName, fileName, split_append free,
        split_append free]
    · rw [fileName, fileName, split_append mem, split_of_no_slash mem]
  rw [join, if_neg (by simp [h])]
  split
  · next closed =>
    rcases closed with rfl | last
    · rfl
    · obtain ⟨front, rfl⟩ := List.getLast?_eq_some_iff.1 last
      rw [List.append_assoc, List.singleton_append, cut]
  · exact cut start

theorem fileName_ofNames (h : slash ∉ name) : fileName (ofNames (names ++ [name])) = name := by
  by_cases empty : names = []
  · subst empty
    rw [List.nil_append, ofNames, List.intercalate_singleton, fileName, split_of_no_slash h]
  · rw [ofNames_concat empty, fileName, split_append h]

/-- Slashes at the end make no names and, behind any other character, no root. -/
theorem exists_dropSlashes (s : Text) :
    dropSlashes s = s ∨ ∃ slashes, (∀ c ∈ slashes, c = slash) ∧ s = dropSlashes s ++ slashes ∧
      ∃ c ∈ dropSlashes s, c ≠ slash := by
  unfold dropSlashes
  split
  · exact .inl rfl
  · next other =>
    refine .inr ⟨(s.reverse.takeWhile (· = slash)).reverse, fun c mem => ?_, ?_, ?_⟩
    · simpa using List.mem_takeWhile_imp (List.mem_reverse.1 mem)
    · rw [← List.reverse_append, List.takeWhile_append_dropWhile, List.reverse_reverse]
    · obtain ⟨c, mem, ne⟩ : ∃ c ∈ s, c ≠ slash := by simpa using other
      have cut : c ∈ s.reverse.takeWhile (· = slash) ++ s.reverse.dropWhile (· = slash) := by
        rw [List.takeWhile_append_dropWhile]
        exact List.mem_reverse.2 mem
      refine ⟨c, List.mem_reverse.2 ((List.mem_append.1 cut).resolve_left fun left => ne ?_), ne⟩
      simpa using List.mem_takeWhile_imp left

theorem names_append_slashes {slashes : Text} (h : ∀ c ∈ slashes, c = slash) :
    Path.names (s ++ slashes) = Path.names s := by
  induction slashes using List.reverseRecOn with
  | nil => rw [List.append_nil]
  | append_singleton slashes c ih =>
    rw [h c (by simp), ← List.append_assoc, names_append_slash,
      ih fun c mem => h c (List.mem_append_left _ mem)]
    simp [Path.names, Text.splitOn]

theorem root_dropSlashes (s : Text) : root (dropSlashes s) = root s := by
  rcases exists_dropSlashes s with eq | ⟨slashes, -, eq, c, mem, ne⟩
  · rw [eq]
  · conv => rhs; rw [eq]
    exact (root_append_of_mem mem ne).symm

theorem names_dropSlashes (s : Text) : Path.names (dropSlashes s) = Path.names s := by
  rcases exists_dropSlashes s with eq | ⟨slashes, all, eq, -⟩
  · rw [eq]
  · conv => rhs; rw [eq]
    exact (names_append_slashes all).symm

theorem root_directory (path : Text) : root (directory path) = root path := by
  by_cases mem : slash ∈ path
  · obtain ⟨before, after, free, rfl⟩ := Text.exists_last mem
    have head := isAbsolute_eq_false_iff.1 (isAbsolute_of_no_slash free)
    have cut : before ++ slash :: after = (before ++ [slash]) ++ after := by simp
    rw [directory, split_append free, root_dropSlashes, cut, root_append_of_head? head]
  · rw [directory, split_of_no_slash mem, root_eq_nil_iff.2 (isAbsolute_of_no_slash mem)]
    rfl

/-- A directory and a file name have the names of the path between them. -/
theorem names_directory (path : Text) :
    Path.names (directory path) ++ Path.names (fileName path) = Path.names path := by
  by_cases mem : slash ∈ path
  · obtain ⟨before, after, free, rfl⟩ := Text.exists_last mem
    rw [directory, fileName, split_append free, names_dropSlashes, names_append_slash,
      names_append_slash]
    simp [Path.names, Text.splitOn]
  · rw [directory, fileName, split_of_no_slash mem]
    rfl

theorem names_directory_of_concat (kept : Kept (fileName path))
    (h : Path.names path = names ++ [name]) :
    Path.names (directory path) = names ∧ fileName path = name := by
  have cut := names_directory path
  rw [names_of_kept kept, h] at cut
  obtain ⟨front, last⟩ := List.append_inj' cut rfl
  exact ⟨front, List.singleton_inj.1 last⟩

/-! ## Names one below the other -/

/-- The last character belongs to the last name. -/
theorem getLast?_ofNames (kept : ∀ name ∈ names, Kept name) :
    (ofNames names).getLast? ≠ some slash := by
  rcases List.eq_nil_or_concat' names with rfl | ⟨front, name, rfl⟩
  · simp [ofNames, List.intercalate]
  · have last := kept name (by simp)
    intro h
    refine last.no_slash (List.mem_of_getLast? ?_)
    obtain ⟨c, s, rfl⟩ := List.exists_cons_of_ne_nil last.ne_nil
    by_cases empty : front = []
    · simpa [empty, ofNames] using h
    · rwa [ofNames_concat empty, List.getLast?_append_of_ne_nil _ (by simp),
        List.getLast?_cons_cons] at h

theorem dropSlashes_append (last : s.getLast? ≠ some slash) (ne : s ≠ []) :
    dropSlashes (s ++ [slash]) = s := by
  obtain ⟨front, c, rfl⟩ := (List.eq_nil_or_concat' s).resolve_left ne
  have hc : c ≠ slash := by simpa using last
  simp [dropSlashes, hc]

theorem directory_ofNames (kept : ∀ other ∈ names ++ [name], Kept other) :
    directory (ofNames (names ++ [name])) = ofNames names := by
  have free := (kept name (by simp)).no_slash
  have front : ∀ name ∈ names, Kept name := fun name mem => kept name (by simp [mem])
  by_cases empty : names = []
  · subst empty
    rw [List.nil_append, ofNames, List.intercalate_singleton, directory, split_of_no_slash free]
    rfl
  · rw [ofNames_concat empty, directory, split_append free]
    exact dropSlashes_append (getLast?_ofNames front) (ofNames_ne_nil empty front)

theorem ofNames_append (names : List Text) (name s : Text) :
    ofNames (names ++ [name]) ++ s = ofNames (names ++ [name ++ s]) := by
  by_cases empty : names = []
  · subst empty
    simp [ofNames]
  · rw [ofNames_concat empty, ofNames_concat empty, List.append_assoc, List.cons_append]

theorem join_ofNames (kept : ∀ name ∈ names, Kept name) (ne : names ≠ []) (free : slash ∉ name) :
    join (ofNames names) name = ofNames (names ++ [name]) := by
  rw [join, if_neg (by simp [isAbsolute_of_no_slash free]),
    if_neg (not_or.2 ⟨ofNames_ne_nil ne kept, getLast?_ofNames kept⟩), ofNames_concat ne]

/-- The directory of names below another one. -/
theorem names_directory_join (kept : ∀ other ∈ names ++ [name], Kept other) :
    Path.names (directory (join start (ofNames (names ++ [name])))) =
      Path.names start ++ names := by
  have relative := isAbsolute_ofNames kept
  have last : Kept name := kept name (by simp)
  have whole : Path.names (join start (ofNames (names ++ [name]))) =
      Path.names start ++ names ++ [name] := by
    rw [names_join relative, names_ofNames kept, List.append_assoc]
  refine (names_directory_of_concat ?_ whole).1
  rwa [fileName_join relative, fileName_ofNames last.no_slash]

/-! ## Endings -/

theorem splitEnding_append {ending : Text} (dot : '.' ∉ ending) (no_slash : slash ∉ ending)
    (stem : ∃ c ∈ fileName path, c ≠ '.') :
    splitEnding (path ++ '.' :: ending) = (path, '.' :: ending) := by
  have free : slash ∉ '.' :: ending := by
    rintro (_ | ⟨_, mem⟩)
    exact no_slash mem
  have other : (fileName path).all (· = '.') = false := by
    obtain ⟨c, mem, ne⟩ := stem
    exact List.all_eq_false.2 ⟨c, mem, by simpa using ne⟩
  rw [splitEnding, fileName_append free, Text.cutLast_append dot]
  simp [other]

/-! ## Resolving -/

theorem root_root (path : Text) : root (root path) = root path := by
  cases absolute : isAbsolute path with
  | false => rw [root_eq_nil_iff.2 absolute]; rfl
  | true => rcases root_of_isAbsolute absolute with eq | eq <;> rw [eq] <;> rfl

theorem names_root_append (path s : Text) : Path.names (root path ++ s) = Path.names s := by
  cases absolute : isAbsolute path with
  | false => rw [root_eq_nil_iff.2 absolute, List.nil_append]
  | true => exact names_root (root_of_isAbsolute absolute) s

theorem assemble_eq_current_or (root : Text) (names : List Text) :
    root = [] ∧ ofNames names = [] ∧ assemble root names = current ∨
      assemble root names = root ++ ofNames names := by
  unfold assemble
  dsimp only
  split
  · next empty =>
    obtain ⟨hr, hn⟩ := List.append_eq_nil_iff.1 empty
    exact .inl ⟨hr, hn, rfl⟩
  · exact .inr rfl

theorem assemble_nil (ne : names ≠ []) (kept : ∀ name ∈ names, Kept name) :
    assemble [] names = ofNames names := by
  rcases assemble_eq_current_or [] names with ⟨-, empty, -⟩ | eq
  · exact absurd empty (ofNames_ne_nil ne kept)
  · exact eq

theorem root_assemble (kept : ∀ name ∈ names, Kept name) :
    root (assemble (root path) names) = root path := by
  rcases assemble_eq_current_or (root path) names with ⟨hr, -, eq⟩ | eq
  · rw [eq, hr]
    rfl
  · rw [eq, root_append_of_head? (isAbsolute_eq_false_iff.1 (isAbsolute_ofNames kept)), root_root]

theorem names_assemble (kept : ∀ name ∈ names, Kept name) :
    Path.names (assemble (root path) names) = names := by
  rcases assemble_eq_current_or (root path) names with ⟨-, empty, eq⟩ | eq
  · rw [eq, ← names_ofNames kept, empty]
    rfl
  · rw [eq, names_root_append, names_ofNames kept]

theorem root_tidy (path : Text) : root (tidy path) = root path :=
  root_assemble fun _ => kept_of_mem_names

theorem names_tidy (path : Text) : Path.names (tidy path) = Path.names path :=
  names_assemble fun _ => kept_of_mem_names

theorem kept_of_mem_collapse {absolute : Bool} (kept : ∀ name ∈ names, Kept name) :
    ∀ name ∈ collapse absolute names, Kept name := by
  intro name mem
  rcases mem_of_mem_foldl_below (List.mem_reverse.1 mem) with mem | mem
  · exact kept name mem
  · cases mem

theorem root_normalize (path : Text) : root (normalize path) = root path :=
  root_assemble (kept_of_mem_collapse fun _ => kept_of_mem_names)

theorem names_normalize (path : Text) :
    Path.names (normalize path) = collapse (isAbsolute path) (Path.names path) :=
  names_assemble (kept_of_mem_collapse fun _ => kept_of_mem_names)

/-- What a path resolves to is told by its root and its names. -/
theorem normalize_congr (hr : root path = root other)
    (hn : collapse (isAbsolute path) (Path.names path) =
      collapse (isAbsolute path) (Path.names other)) :
    normalize path = normalize other := by
  rw [normalize, normalize, hr, hn, isAbsolute_congr hr]

theorem collapse_append {absolute : Bool} (h : ∀ step ∈ steps, step ≠ parent) :
    collapse absolute (names ++ steps) = collapse absolute names ++ steps := by
  rw [collapse, List.foldl_append, foldl_below h, List.reverse_append, List.reverse_reverse]
  rfl

theorem foldl_climb {absolute : Bool} (h : ∀ step ∈ steps, step ≠ parent) (before : List Text) :
    (steps ++ steps.map fun _ => parent).foldl (below absolute) before = before := by
  rw [List.map_const']
  induction steps generalizing before with
  | nil => rfl
  | cons step steps ih =>
    have ne := h step List.mem_cons_self
    rw [List.length_cons, List.replicate_succ', List.cons_append, ← List.append_assoc,
      List.foldl_cons, below_of_ne ne, List.foldl_append,
      ih fun step mem => h step (List.mem_cons_of_mem _ mem)]
    simp [below, ne]

/-- **Climbing out of directories cancels them.** -/
theorem collapse_climb {absolute : Bool} (h : ∀ step ∈ steps, step ≠ parent) :
    collapse absolute (names ++ (steps ++ (steps.map fun _ => parent) ++ others)) =
      collapse absolute (names ++ others) := by
  rw [collapse, collapse, List.foldl_append, List.foldl_append, foldl_climb h, ← List.foldl_append]

/-- **Reading a relative path**: it climbs out of the last names of its base,
    and goes on from there. -/
theorem normalize_join_climb (relative : isAbsolute path = false)
    (hs : Path.names start = names ++ steps)
    (hp : Path.names path = (steps.map fun _ => parent) ++ others)
    (ne : ∀ step ∈ steps, step ≠ parent) :
    normalize (join start path) =
      assemble (root start) (collapse (isAbsolute start) (names ++ others)) := by
  have base : isAbsolute (join start path) = isAbsolute start :=
    isAbsolute_congr (root_join relative)
  have cut : names ++ steps ++ ((steps.map fun _ => parent) ++ others) =
      names ++ (steps ++ (steps.map fun _ => parent) ++ others) := by
    simp only [List.append_assoc]
  rw [normalize, root_join relative, base, names_join relative, hs, hp, cut, collapse_climb ne]

/-! ## Absolute paths -/

/-- A path is absolute wherever it starts from, or starts from the working
    directory. -/
theorem join_here (here path : Text) :
    root (join here path) = (if isAbsolute path then root path else root here) ∧
      Path.names (join here path) =
        (if isAbsolute path then Path.names path else Path.names here ++ Path.names path) := by
  cases absolute : isAbsolute path with
  | true => simp [join, absolute]
  | false => exact ⟨by simp [root_join absolute], by simp [names_join absolute]⟩

theorem root_absolute (here path : Text) : root (absolute here path) = root (join here path) :=
  root_normalize _

theorem names_absolute (h : isAbsolute here = true) (path : Text) :
    Path.names (absolute here path) = collapse true (Path.names (join here path)) := by
  rw [absolute, names_normalize, isAbsolute_join h]

theorem absolute_congr (here : Text) (hr : root path = root other)
    (hn : Path.names path = Path.names other) : absolute here path = absolute here other := by
  have same := isAbsolute_congr hr
  refine normalize_congr ?_ (congrArg _ ?_)
  · rw [(join_here here path).1, (join_here here other).1, same, hr]
  · rw [(join_here here path).2, (join_here here other).2, same, hn]

theorem names_absolute_directory (h : isAbsolute here = true) (normal : IsNormal path) :
    Path.names (absolute here (directory path)) = Path.names (directory path) := by
  have base : isAbsolute (directory path) = true := by
    rw [isAbsolute_congr (root_directory path), normal.isAbsolute]
  rw [names_absolute h, (join_here here _).2, if_pos base]
  refine collapse_eq_self fun name mem => (normal.eq_root_names.2.1 name ?_).ne_parent
  rw [← names_directory path]
  exact List.mem_append_left _ mem

/-- Further names behind a path stand behind those of its absolute form. -/
theorem absolute_of_below (h : isAbsolute here = true) (hr : root path = root start)
    (hn : Path.names path = Path.names start ++ steps) (ne : ∀ step ∈ steps, step ≠ parent) :
    root (absolute here path) = root (absolute here start) ∧
      Path.names (absolute here path) = Path.names (absolute here start) ++ steps := by
  have same := isAbsolute_congr hr
  refine ⟨?_, ?_⟩
  · rw [root_absolute, root_absolute, (join_here here path).1, (join_here here start).1, same, hr]
  · rw [names_absolute h, names_absolute h, ← collapse_append ne, (join_here here path).2,
      (join_here here start).2, same, hn]
    split
    · rfl
    · rw [List.append_assoc]

/-- A proper last name stays when a path is resolved. -/
theorem names_absolute_concat (h : isAbsolute here = true) (proper : Proper (fileName path)) :
    ∃ above, Path.names (absolute here path) = above ++ [fileName path] := by
  have cut : Path.names path = Path.names (directory path) ++ [fileName path] := by
    rw [← names_of_kept proper.kept, names_directory]
  have ne : ∀ step ∈ [fileName path], step ≠ parent := by
    simpa using proper.ne_parent
  rw [names_absolute h, (join_here here path).2]
  split
  · exact ⟨_, by rw [cut, collapse_append ne]⟩
  · exact ⟨_, by rw [cut, ← List.append_assoc, collapse_append ne]⟩

namespace IsNormal

theorem fileName_eq (h : IsNormal path) (hn : Path.names path = names ++ [name]) :
    fileName path = name ∧ Path.names (directory path) = names := by
  obtain ⟨hr, proper, eq⟩ := h.eq_root_names
  have kept := (proper name (by simp [hn])).kept
  have last : fileName path = name := by
    rw [eq, hn]
    by_cases empty : names = []
    · subst empty
      have alone : ofNames ([] ++ [name]) = name := by simp [ofNames]
      rw [alone]
      rcases hr with hr | hr <;> rw [hr]
      · exact congrArg Prod.snd (split_append (s := []) kept.no_slash)
      · exact congrArg Prod.snd (split_append (s := [slash]) kept.no_slash)
    · rw [ofNames_concat empty, ← List.append_assoc]
      exact congrArg Prod.snd (split_append kept.no_slash)
  exact ⟨last, (names_directory_of_concat (last ▸ kept) hn).1⟩

theorem absolute_eq (h : IsNormal path) (here : Text) : absolute here path = path := by
  rw [absolute, join, if_pos h.isAbsolute, h.normalize_eq]

end IsNormal

/-! ## Relative paths -/

theorem dropShared_append (shared left right : List Text) :
    dropShared (shared ++ left) (shared ++ right) = dropShared left right := by
  induction shared with
  | nil => rfl
  | cons name shared ih => rw [List.cons_append, List.cons_append, dropShared, if_pos rfl, ih]

theorem exists_dropShared (left right : List Text) : ∃ shared,
    left = shared ++ (dropShared left right).1 ∧ right = shared ++ (dropShared left right).2 := by
  fun_induction dropShared left right with
  | case1 left name right ih =>
    obtain ⟨shared, hl, hr⟩ := ih
    exact ⟨name :: shared, by rw [List.cons_append, ← hl], by rw [List.cons_append, ← hr]⟩
  | case2 => exact ⟨[], rfl, rfl⟩
  | case3 => exact ⟨[], rfl, rfl⟩

/-- **A relative path** climbs out of the names that its goal does not share
    and goes down the others.  It can be told from any directory above both. -/
theorem relative?_eq {above left right : List Text} (ne : path ≠ [])
    (hs : Path.names (absolute here start) = above ++ left)
    (hp : Path.names (absolute here path) = above ++ right) :
    ∃ shared up down, left = shared ++ up ∧ right = shared ++ down ∧
      relative? here path start = some (assemble [] ((up.map fun _ => parent) ++ down)) := by
  obtain ⟨shared, hu, hd⟩ := exists_dropShared left right
  refine ⟨shared, _, _, hu, hd, ?_⟩
  rw [relative?, if_neg ne, hs, hp, dropShared_append]

theorem relative?_of_below (ne : path ≠ []) (some_ : steps ≠ []) (kept : ∀ step ∈ steps, Kept step)
    (h : Path.names (absolute here path) = Path.names (absolute here start) ++ steps) :
    relative? here path start = some (ofNames steps) := by
  obtain ⟨shared, up, down, none, rfl, eq⟩ := relative?_eq ne (List.append_nil _).symm h
  obtain ⟨rfl, rfl⟩ := List.append_eq_nil_iff.1 none.symm
  rw [eq]
  exact congrArg some (assemble_nil some_ kept)

end Path

end IdlFlow
