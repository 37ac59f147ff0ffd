/-
  The modules that a declaration file imports.

  * `Program.imported`: the imports with the documents that they stand for.

  Main statements: the documents of a loaded program do not stand below each
  other (`LoadedFrom.not_below`), so every import has the names that lead from
  the entry to its document (`LoadedFrom.import_eq`): those of the document's
  path less the ending, behind as many parents as there are directories to
  leave.
-/
import Mathlib.Data.List.Forall2
import IdlFlow.Proofs.Trees

namespace IdlFlow

open IdlFlow.Path

/-! ## The module of a path -/

namespace Import

variable {path stem : Text} {names : List Text}

theorem tidy_eq_ofNames (relative : isAbsolute path = false) (ne : Path.names path ≠ []) :
    tidy path = ofNames (Path.names path) := by
  rw [tidy, root_eq_nil_iff.2 relative, assemble_nil ne fun _ => kept_of_mem_names]

/-- The module of a relative path: its names, the last without its ending, with
    a dot in front if it stands alone. -/
theorem ofPath_eq (relative : isAbsolute path = false)
    (h : Path.names path = names ++ [stem ++ sourceEnding]) :
    ofPath path =
      ⟨stem, if names = [] then "./" ++ stem else ofNames (names ++ [stem])⟩ := by
  have kept : ∀ name ∈ names ++ [stem ++ sourceEnding], Kept name := fun name mem =>
    kept_of_mem_names (h ▸ mem)
  have front : ∀ name ∈ names, Kept name := fun name mem => kept name (by simp [mem])
  have last := (kept (stem ++ sourceEnding) (by simp)).no_slash
  have free : slash ∉ stem := fun mem => last (List.mem_append_left _ mem)
  have some_ : Path.names path ≠ [] := by simp [h]
  have drop : Text.dropEnding? sourceEnding (stem ++ sourceEnding) = some stem := by
    simp [Text.dropEnding?]
  unfold ofPath
  dsimp only
  rw [tidy_eq_ofNames relative some_, h, fileName_ofNames last, directory_ofNames kept, drop,
    Option.getD_some]
  by_cases empty : names = []
  · subst empty
    have join : join (ofNames []) stem = stem := by
      simp [Path.join, isAbsolute_of_no_slash free, ofNames, List.intercalate]
    have name : fileName ("./" ++ stem) = stem := by
      have cut : "./" ++ stem = current ++ slash :: stem := rfl
      rw [cut, fileName, split_append free]
    rw [join, if_neg free, name, if_pos rfl]
  · have mem : slash ∈ ofNames (names ++ [stem]) := by simp [ofNames_concat empty]
    rw [join_ofNames front empty free, if_pos mem, fileName_ofNames free, if_neg empty]

end Import

/-! ## The imports of a program -/

/-- The imports of a program, each with the path of its document. -/
def Program.imported (p : Program) (imports : List Import) : List (Text × Import) :=
  (p.paths.filter (· ≠ p.entry)).zip imports

theorem forall₂_of_mapM {α β : Type} {f : α → Option β} {as : List α}
    (h : ∀ a ∈ as, (f a).isSome = true) :
    ∃ bs, as.mapM f = some bs ∧ List.Forall₂ (fun a b => f a = some b) as bs := by
  induction as with
  | nil => exact ⟨[], rfl, .nil⟩
  | cons a as ih =>
    obtain ⟨b, hb⟩ := Option.isSome_iff_exists.1 (h a List.mem_cons_self)
    obtain ⟨bs, made, all⟩ := ih fun a mem => h a (List.mem_cons_of_mem _ mem)
    exact ⟨b :: bs, by simp [List.mapM_cons, hb, made], .cons hb all⟩

/-- Every document but the entry has its import. -/
theorem Program.exists_imported (here : Text) {p : Program} (ne : ∀ path ∈ p.paths, path ≠ []) :
    ∃ imports, p.imports? here = some imports ∧
      (∀ path ∈ p.paths, path ≠ p.entry → ∃ i, (path, i) ∈ p.imported imports) ∧
      ∀ path i, (path, i) ∈ p.imported imports →
        (relative? here path (directory p.entry)).map Import.ofPath = some i := by
  have led : ∀ path ∈ p.paths.filter (· ≠ p.entry),
      ((relative? here path (directory p.entry)).map Import.ofPath).isSome = true := by
    intro path mem
    simp [relative?, ne path (List.mem_filter.1 mem).1]
  obtain ⟨imports, made, all⟩ := forall₂_of_mapM led
  refine ⟨imports, made, fun path mem other => ?_, fun path i mem => List.forall₂_zip all mem⟩
  have listed : path ∈ p.paths.filter (· ≠ p.entry) := by simp [mem, other]
  have firsts := List.map_fst_zip (Nat.le_of_eq all.length_eq)
  rw [← firsts] at listed
  obtain ⟨⟨path, i⟩, pair, rfl⟩ := List.mem_map.1 listed
  exact ⟨i, pair⟩

/-- What `load` gives has the documents in reach of its entry. -/
theorem loadedFrom_of_load {tree : FileTree} {file : Text} {p : Program}
    (here : isAbsolute tree.here = true) (loaded : tree.load file = .ok p) :
    LoadedFrom tree file p := by
  have visit : Visit tree (absolute tree.here file) []
      (loadUpTo tree tree.depth (absolute tree.here file) []) :=
    visit_loadUpTo here (absolute_isNormal here file) .nil (by simp)
  rw [load_eq_map] at loaded
  cases result : loadUpTo tree tree.depth (absolute tree.here file) [] with
  | error failure =>
    rw [result] at loaded
    cases loaded
  | ok documents =>
    rw [result] at loaded visit
    cases loaded
    exact loadedFrom_of_visit here visit

namespace LoadedFrom

variable {tree : FileTree} {file path other : Text} {p : Program}

theorem isNormal (h : LoadedFrom tree file p) (mem : path ∈ p.paths) : IsNormal path := by
  obtain ⟨absolute, normal⟩ := h.normal path mem
  rw [← normal]
  exact normalize_isNormal absolute

/-- A document stands in the file at its path. -/
theorem exists_file (h : LoadedFrom tree file p) (mem : path ∈ p.paths) :
    ∃ content, tree.locate path = .ok (names path) ∧
      tree.node? (names path) = some (.file content) := by
  obtain ⟨⟨path, document⟩, entry, rfl⟩ := List.mem_map.1 mem
  obtain ⟨s, read, -⟩ := h.parsed path document entry
  obtain ⟨place, content, located, node⟩ := FileTree.node?_of_readText read
  obtain rfl := FileTree.locate_eq (h.isNormal mem) located
  exact ⟨content, located, node⟩

/-- A document has a last name, since the root is a folder. -/
theorem exists_names (h : LoadedFrom tree file p) (mem : path ∈ p.paths) :
    ∃ above name, names path = above ++ [name] := by
  obtain ⟨content, -, node⟩ := h.exists_file mem
  refine (List.eq_nil_or_concat' (names path)).resolve_left fun empty => ?_
  rw [empty] at node
  cases node

/-- No document stands below another one. -/
theorem not_below (h : LoadedFrom tree file p) (mem : path ∈ p.paths) (mem' : other ∈ p.paths)
    {rest : List Text} (some_ : rest ≠ []) : names other ≠ names path ++ rest := by
  intro cut
  obtain ⟨name, rest, rfl⟩ := List.exists_cons_of_ne_nil some_
  obtain ⟨content, -, node⟩ := h.exists_file mem
  obtain ⟨-, located, -⟩ := h.exists_file mem'
  rw [FileTree.folder_of_locate (h.isNormal mem') located cut] at node
  cases node

theorem path_ne_nil (h : LoadedFrom tree file p) (mem : path ∈ p.paths) : path ≠ [] := by
  rintro rfl
  cases (h.isNormal mem).isAbsolute

theorem entry_mem (h : LoadedFrom tree file p) : p.entry ∈ p.paths :=
  List.mem_of_mem_head? h.first

/-- **The way from the entry to a document**: up from the directory of the entry
    as far as both do not share, and down to the document.  It can be told from
    any directory above both. -/
theorem relative_eq (here : Path.isAbsolute tree.here = true) (h : LoadedFrom tree file p)
    (mem : path ∈ p.paths) {above left right : List Text} {last name : Text}
    (hs : names p.entry = above ++ (left ++ [last]))
    (hp : names path = above ++ (right ++ [name])) :
    ∃ shared up down, left = shared ++ up ∧ right = shared ++ down ∧
      (∀ other ∈ (up.map fun _ => parent) ++ down ++ [name], Kept other) ∧
      relative? tree.here path (directory p.entry) =
        some (ofNames ((up.map fun _ => parent) ++ down ++ [name])) := by
  have entry := h.isNormal h.entry_mem
  have normal := h.isNormal mem
  rw [← List.append_assoc] at hs
  have start := (entry.fileName_eq hs).2
  rw [← names_absolute_directory here entry] at start
  have goal : names (absolute tree.here path) = above ++ (right ++ [name]) := by
    rw [normal.absolute_eq, hp]
  obtain ⟨shared, up, way, rfl, cut, led⟩ := relative?_eq (h.path_ne_nil mem) start goal
  rcases List.eq_nil_or_concat' way with rfl | ⟨down, last, rfl⟩
  · -- the document would stand above the entry
    rw [List.append_nil] at cut
    refine absurd ?_ (h.not_below mem h.entry_mem (List.concat_ne_nil last up))
    rw [hs, hp, cut]
    simp only [List.append_assoc]
  · rw [← List.append_assoc] at cut
    obtain ⟨rfl, last⟩ := List.append_inj' cut rfl
    obtain rfl := List.singleton_inj.1 last
    have kept : ∀ other ∈ (up.map fun _ => parent) ++ down ++ [name], Kept other := by
      intro other mem
      rw [List.append_assoc] at mem
      rcases List.mem_append.1 mem with mem | mem
      · obtain ⟨_, -, rfl⟩ := List.mem_map.1 mem
        exact kept_parent
      · have listed : other ∈ names path := by
          rw [hp, List.append_assoc shared]
          exact List.mem_append_right _ (List.mem_append_right _ mem)
        exact kept_of_mem_names listed
    refine ⟨shared, up, down, rfl, rfl, kept, ?_⟩
    rw [led, ← List.append_assoc, assemble_nil (by simp) kept]

/-- **The import of a document**: its name, and the names from the directory of
    the entry to it. -/
theorem import_eq (here : IsNormal tree.here) (h : LoadedFrom tree file p) (mem : path ∈ p.paths)
    (ne : path ≠ p.entry) {above left right : List Text} {last stem : Text}
    (hs : names p.entry = above ++ (left ++ [last]))
    (hp : names path = above ++ (right ++ [stem ++ Import.sourceEnding])) :
    ∃ shared up down imports, left = shared ++ up ∧ right = shared ++ down ∧
      p.imports? tree.here = some imports ∧ (∃ i, (path, i) ∈ p.imported imports) ∧
      ∀ i, (path, i) ∈ p.imported imports →
        i = ⟨stem, if (up.map fun _ => parent) ++ down = [] then "./" ++ stem else
          ofNames ((up.map fun _ => parent) ++ down ++ [stem])⟩ := by
  obtain ⟨shared, up, down, hl, hr, kept, led⟩ := h.relative_eq here.isAbsolute mem hs hp
  obtain ⟨imports, made, all, pairs⟩ :=
    Program.exists_imported tree.here fun path mem => h.path_ne_nil mem
  refine ⟨shared, up, down, imports, hl, hr, made, all path mem ne, fun i pair => ?_⟩
  have eq := pairs path i pair
  rw [led, Option.map_some, Option.some.injEq] at eq
  rw [← eq]
  exact Import.ofPath_eq (isAbsolute_ofNames kept) (names_ofNames kept)

end LoadedFrom

end IdlFlow
