/-
  Loading programs: which documents a program has, and in which order.

  * `Visit`, `VisitAll`: what loading one file and the includes of one file
    gives, with no bound on the depth; there is a derivation only where the
    traversal ends;
  * `targets`: the absolute paths that the file at a path includes;
  * `Loaded`: every document is the one in the file at its path.

  Main statements: `loadUpTo` has enough levels, so its result is that of the
  unbounded traversal (`visit_loadUpTo`); a traversal adds the documents in
  depth-first preorder (`Visit.walk`).  `load_spec` puts them together.
-/
import IdlFlow.Idl.Program
import IdlFlow.Proofs.Paths
import IdlFlow.Proofs.Preorder

namespace IdlFlow

/-! ## The traversal without a bound -/

mutual
/-- Loading the file at `path` after `loaded` gives `result`. -/
inductive Visit (tree : FileTree) :
    Text → Assoc Text Document → Except LoadFailure (Assoc Text Document) → Prop
  | known {path : Text} {loaded : Assoc Text Document} :
      path ∈ loaded.keys → Visit tree path loaded (.ok loaded)
  | unread {path : Text} {loaded : Assoc Text Document} {cause : LoadError} :
      path ∉ loaded.keys → tree.readDocument path = .error cause →
      Visit tree path loaded (.error ⟨cause, loaded⟩)
  | read {path : Text} {loaded : Assoc Text Document} {document : Document}
      {result : Except LoadFailure (Assoc Text Document)} :
      path ∉ loaded.keys → tree.readDocument path = .ok document →
      VisitAll tree path document.includes (loaded.insert path document) result →
      Visit tree path loaded result

/-- Loading what the file at `includer` includes, from the first to the last. -/
inductive VisitAll (tree : FileTree) :
    Text → List Text → Assoc Text Document → Except LoadFailure (Assoc Text Document) → Prop
  | nil {includer : Text} {loaded : Assoc Text Document} :
      VisitAll tree includer [] loaded (.ok loaded)
  | missing {includer included : Text} {others : List Text} {loaded : Assoc Text Document} :
      tree.isFile (includePath tree.here includer included) = false →
      VisitAll tree includer (included :: others) loaded
        (.error ⟨.missingInclude includer included (includePath tree.here includer included),
          loaded⟩)
  | failed {includer included : Text} {others : List Text} {loaded : Assoc Text Document}
      {failure : LoadFailure} :
      tree.isFile (includePath tree.here includer included) = true →
      Visit tree (includePath tree.here includer included) loaded (.error failure) →
      VisitAll tree includer (included :: others) loaded (.error failure)
  | next {includer included : Text} {others : List Text} {loaded more : Assoc Text Document}
      {result : Except LoadFailure (Assoc Text Document)} :
      tree.isFile (includePath tree.here includer included) = true →
      Visit tree (includePath tree.here includer included) loaded (.ok more) →
      VisitAll tree includer others more result →
      VisitAll tree includer (included :: others) loaded result
end

/-- The absolute paths that the file at a path includes. -/
def targets (tree : FileTree) (path : Text) : List Text :=
  match tree.readDocument path with
  | .ok document => document.includes.map (includePath tree.here path)
  | .error _ => []

theorem readDocument_eq_ok {tree : FileTree} {path : Text} {document : Document} :
    tree.readDocument path = .ok document ↔
      ∃ s, tree.readText (Path.tidy path) = .ok s ∧ Document.parse s = .ok document := by
  unfold FileTree.readDocument
  cases tree.readText (Path.tidy path) with
  | error e => simp [throw, throwThe, MonadExceptOf.throw]
  | ok s =>
    cases h : Document.parse s with
    | error e => simp [h, throw, throwThe, MonadExceptOf.throw]
    | ok document => simp [h, pure, Except.pure]

theorem targets_of_ok {tree : FileTree} {path : Text} {document : Document}
    (h : tree.readDocument path = .ok document) :
    targets tree path = document.includes.map (includePath tree.here path) := by
  simp [targets, h]

/-- Documents under distinct normal paths, each the one in its file. -/
structure Loaded (tree : FileTree) (loaded : Assoc Text Document) : Prop where
  nodup : loaded.keys.Nodup
  normal : ∀ path ∈ loaded.keys, Path.IsNormal path
  read : ∀ path document, (path, document) ∈ loaded → tree.readDocument path = .ok document

variable {tree : FileTree} {path includer : Text} {includes : List Text}
  {loaded more : Assoc Text Document} {document : Document}
  {result : Except LoadFailure (Assoc Text Document)}

namespace Loaded

theorem nil : Loaded tree [] := ⟨List.nodup_nil, by simp [Assoc.keys], by simp⟩

theorem insert (h : Loaded tree loaded) (normal : Path.IsNormal path) (new : path ∉ loaded.keys)
    (read : tree.readDocument path = .ok document) :
    Loaded tree (loaded.insert path document) := by
  refine ⟨Assoc.nodup_keys_insert h.nodup path document, ?_, ?_⟩
  · intro other mem
    rw [Assoc.keys_insert, if_neg new, List.mem_append, List.mem_singleton] at mem
    rcases mem with mem | rfl
    · exact h.normal other mem
    · exact normal
  · intro other found mem
    rw [Assoc.insert_of_not_mem new, List.mem_append, List.mem_singleton, Prod.mk.injEq] at mem
    rcases mem with mem | ⟨rfl, rfl⟩
    · exact h.read other found mem
    · exact read

end Loaded

/-! ## The order of loading -/

mutual
/-- **A traversal adds paths in depth-first preorder.** -/
theorem Visit.walk {tree : FileTree} {path : Text} {loaded : Assoc Text Document}
    {result : Except LoadFailure (Assoc Text Document)} :
    Visit tree path loaded result → ∀ more, result = .ok more → ∃ order,
      Walk (targets tree) loaded.keys [path] order ∧ more.keys = loaded.keys ++ order
  | .known mem, more, eq => by
    cases eq
    exact ⟨[], .known mem .nil, by simp⟩
  | .unread _ _, more, eq => by cases eq
  | .read new read all, more, eq => by
    obtain ⟨block, walk, keys⟩ := all.walk more eq
    rw [Assoc.keys_insert, if_neg new] at walk keys
    rw [← targets_of_ok read] at walk
    exact ⟨path :: block ++ [], .visit new walk .nil, by simp [keys]⟩

theorem VisitAll.walk {tree : FileTree} {includer : Text} {includes : List Text}
    {loaded : Assoc Text Document} {result : Except LoadFailure (Assoc Text Document)} :
    VisitAll tree includer includes loaded result → ∀ more, result = .ok more → ∃ order,
      Walk (targets tree) loaded.keys (includes.map (includePath tree.here includer)) order ∧
        more.keys = loaded.keys ++ order
  | .nil, more, eq => by
    cases eq
    exact ⟨[], .nil, by simp⟩
  | .missing _, more, eq => by cases eq
  | .failed _ _, more, eq => by cases eq
  | .next _ first rest, more, eq => by
    obtain ⟨order, walk, keys⟩ := first.walk _ rfl
    obtain ⟨others, walk', keys'⟩ := rest.walk more eq
    rw [keys] at walk' keys'
    exact ⟨order ++ others, walk.append walk', by simp [keys']⟩
end

mutual
theorem Visit.loaded {tree : FileTree} {path : Text} {loaded : Assoc Text Document}
    {result : Except LoadFailure (Assoc Text Document)} (here : Path.isAbsolute tree.here = true) :
    Visit tree path loaded result → Path.IsNormal path → Loaded tree loaded →
      ∀ more, result = .ok more → Loaded tree more ∧ loaded.length ≤ more.length
  | .known _, _, h, more, eq => by
    cases eq
    exact ⟨h, Nat.le_refl _⟩
  | .unread _ _, _, _, more, eq => by cases eq
  | .read new read all, normal, h, more, eq => by
    obtain ⟨h, le⟩ := all.loaded here (h.insert normal new read) more eq
    rw [Assoc.insert_of_not_mem new, List.length_append] at le
    exact ⟨h, by omega⟩

theorem VisitAll.loaded {tree : FileTree} {includer : Text} {includes : List Text}
    {loaded : Assoc Text Document} {result : Except LoadFailure (Assoc Text Document)}
    (here : Path.isAbsolute tree.here = true) :
    VisitAll tree includer includes loaded result → Loaded tree loaded →
      ∀ more, result = .ok more → Loaded tree more ∧ loaded.length ≤ more.length
  | .nil, h, more, eq => by
    cases eq
    exact ⟨h, Nat.le_refl _⟩
  | .missing _, _, more, eq => by cases eq
  | .failed _ _, _, more, eq => by cases eq
  | .next _ first rest, h, more, eq => by
    obtain ⟨h, le⟩ := first.loaded here (Path.absolute_isNormal here _) h _ rfl
    obtain ⟨h, le'⟩ := rest.loaded here h more eq
    exact ⟨h, Nat.le_trans le le'⟩
end

/-! ## Enough levels -/

/-- The two absolute paths of each place that holds something. -/
def FileTree.absolutePaths (tree : FileTree) : List Text :=
  tree.nodes.keys.flatMap fun place => ["/" ++ Path.ofNames place, "//" ++ Path.ofNames place]

theorem FileTree.length_absolutePaths (tree : FileTree) :
    tree.absolutePaths.length = 2 * tree.nodes.length := by
  rw [absolutePaths, List.length_flatMap]
  simp [Assoc.keys, Function.comp_def, Nat.mul_comm]

/-- A text is read from a place that holds a file. -/
theorem FileTree.node?_of_readText {s : Text} (h : tree.readText path = .ok s) :
    ∃ place content, tree.locate path = .ok place ∧ tree.node? place = some (.file content) := by
  unfold readText read at h
  cases located : tree.locate path with
  | error e => simp [located, bind, Except.bind] at h
  | ok place =>
    rcases node : tree.node? place with _ | _ | content
    · simp [located, node, bind, Except.bind, throw, throwThe, MonadExceptOf.throw] at h
    · simp [located, node, bind, Except.bind, throw, throwThe, MonadExceptOf.throw] at h
    · exact ⟨place, content, rfl, node⟩

/-- A document is read from one of the two paths of a place that holds something. -/
theorem mem_absolutePaths (normal : Path.IsNormal path)
    (read : tree.readDocument path = .ok document) : path ∈ tree.absolutePaths := by
  obtain ⟨s, hs, -⟩ := readDocument_eq_ok.1 read
  rw [normal.tidy_eq] at hs
  obtain ⟨place, content, located, node⟩ := FileTree.node?_of_readText hs
  have mem : place ∈ tree.nodes.keys := by
    refine Assoc.isSome_find?_iff.1 ?_
    cases place with
    | nil => simp [FileTree.node?] at node
    | cons => simp [FileTree.node?] at node; simp [node]
  obtain rfl := FileTree.locate_eq normal located
  obtain ⟨hroot, -, eq⟩ := normal.eq_root_names
  refine List.mem_flatMap.2 ⟨_, mem, ?_⟩
  rcases hroot with hroot | hroot <;> rw [hroot] at eq
  · exact List.mem_cons.2 (.inl eq)
  · exact List.mem_cons_of_mem _ (List.mem_singleton.2 eq)

theorem Loaded.length_le (h : Loaded tree loaded) : loaded.length ≤ 2 * tree.nodes.length := by
  have sub : loaded.keys ⊆ tree.absolutePaths := by
    intro path mem
    obtain ⟨⟨path, document⟩, entry, rfl⟩ := List.mem_map.1 mem
    exact mem_absolutePaths (h.normal path mem) (h.read path document entry)
  calc loaded.length = loaded.keys.length := by simp [Assoc.keys]
    _ ≤ tree.absolutePaths.length := h.nodup.length_le_of_subset sub
    _ = 2 * tree.nodes.length := tree.length_absolutePaths

/-- The loop over the includes of a file, with enough levels for each. -/
theorem visitAll_foldlM {bound : Nat} (here : Path.isAbsolute tree.here = true)
    (ih : ∀ path loaded, Path.IsNormal path → Loaded tree loaded →
      tree.depth ≤ bound + loaded.length → Visit tree path loaded (loadUpTo tree bound path loaded))
    (h : Loaded tree loaded) (enough : tree.depth ≤ bound + loaded.length) :
    VisitAll tree includer includes loaded (includes.foldlM (fun loaded included =>
      let place := includePath tree.here includer included
      if tree.isFile place then loadUpTo tree bound place loaded
      else .error ⟨.missingInclude includer included place, loaded⟩) loaded) := by
  induction includes generalizing loaded with
  | nil => exact .nil
  | cons included others ihOthers =>
    have normal := Path.absolute_isNormal here (Path.join (Path.directory includer) included)
    have visit := ih (includePath tree.here includer included) loaded normal h enough
    rw [List.foldlM_cons]
    by_cases isFile : tree.isFile (includePath tree.here includer included) = true
    · simp only [isFile, if_true]
      cases first : loadUpTo tree bound (includePath tree.here includer included) loaded with
      | error failure =>
        rw [first] at visit
        exact .failed isFile visit
      | ok more =>
        rw [first] at visit
        obtain ⟨h, le⟩ := visit.loaded here normal h more rfl
        exact .next isFile visit (ihOthers h (by omega))
    · simp only [isFile]
      exact .missing (by simpa using isFile)

/-- **Enough levels**: each level has one more document, and there are not more
    documents than paths of files. -/
theorem visit_loadUpTo {bound : Nat} (here : Path.isAbsolute tree.here = true)
    (normal : Path.IsNormal path) (h : Loaded tree loaded)
    (enough : tree.depth ≤ bound + loaded.length) :
    Visit tree path loaded (loadUpTo tree bound path loaded) := by
  induction bound generalizing path loaded with
  | zero =>
    have := h.length_le
    unfold FileTree.depth at enough
    omega
  | succ bound ih =>
    rw [loadUpTo]
    split
    · next known => exact .known (Assoc.isSome_find?_iff.1 known)
    · next new =>
      have new : path ∉ loaded.keys := fun mem => new (Assoc.isSome_find?_iff.2 mem)
      cases read : tree.readDocument path with
      | error cause => exact .unread new read
      | ok document =>
        refine .read new read (visitAll_foldlM here (fun _ _ => ih) (h.insert normal new read) ?_)
        rw [Assoc.insert_of_not_mem new, List.length_append, List.length_singleton]
        omega

/-! ## Whole programs -/

/-- What a program loaded from a path has. -/
structure LoadedFrom (tree : FileTree) (path : Text) (program : Program) : Prop where
  entry : program.entry = Path.absolute tree.here path
  /-- No document stands twice. -/
  nodup : program.paths.Nodup
  /-- Every path is absolute and its own normal form. -/
  normal : ∀ p ∈ program.paths, Path.isAbsolute p = true ∧ Path.normalize p = p
  /-- The paths are those that includes lead to. -/
  reachable : ∀ p, p ∈ program.paths ↔
    Relation.ReflTransGen (fun a b => b ∈ targets tree a) program.entry p
  /-- Every document is the one in its file. -/
  parsed : ∀ p document, (p, document) ∈ program.documents →
    ∃ s, tree.readText p = .ok s ∧ Document.parse s = .ok document
  first : program.paths.head? = some program.entry
  /-- Behind every document come the blocks of its includes. -/
  blocks : ∀ p document, (p, document) ∈ program.documents → ∃ before blocks after,
    program.paths = before ++ p :: (blocks.flatten ++ after) ∧
      Segments (targets tree) (before ++ [p])
        (document.includes.map (includePath tree.here p)) blocks

theorem loadedFrom_of_visit (here : Path.isAbsolute tree.here = true)
    (visit : Visit tree (Path.absolute tree.here path) [] (.ok loaded)) :
    LoadedFrom tree path ⟨Path.absolute tree.here path, loaded⟩ := by
  have normal := Path.absolute_isNormal here path
  obtain ⟨valid, -⟩ := visit.loaded here normal .nil loaded rfl
  obtain ⟨order, walk, keys⟩ := visit.walk loaded rfl
  have walk : Walk (targets tree) [] [Path.absolute tree.here path] loaded.keys := by
    rw [keys]
    exact walk
  refine ⟨rfl, valid.nodup, ?_, ?_, ?_, walk.head_eq (by simp), ?_⟩
  · intro p mem
    exact ⟨(valid.normal p mem).isAbsolute, (valid.normal p mem).normalize_eq⟩
  · intro p
    rw [← Leads.nil_iff, Program.paths, walk.mem_iff]
    simp
  · intro p document mem
    obtain ⟨s, hs, parsed⟩ := readDocument_eq_ok.1 (valid.read p document mem)
    rw [(valid.normal p (List.mem_map_of_mem mem)).tidy_eq] at hs
    exact ⟨s, hs, parsed⟩
  · intro p document mem
    obtain ⟨before, blocks, after, eq, h⟩ := walk.block_of_mem (List.mem_map_of_mem mem)
    rw [targets_of_ok (valid.read p document mem)] at h
    exact ⟨before, blocks, after, eq, h⟩

theorem load_eq_map (tree : FileTree) (path : Text) :
    tree.load path = (loadUpTo tree tree.depth (Path.absolute tree.here path) []).map
      (Program.mk (Path.absolute tree.here path)) := by
  unfold FileTree.load
  dsimp only
  cases loadUpTo tree tree.depth (Path.absolute tree.here path) [] <;> rfl

/-- **Loading**: the traversal ends, `load` gives its result, and a program
    that it gives has the documents in reach of its entry, in depth-first
    preorder. -/
theorem load_spec (tree : FileTree) (here : Path.isAbsolute tree.here = true) (path : Text) :
    (∃ result, Visit tree (Path.absolute tree.here path) [] result ∧
      tree.load path = result.map (Program.mk (Path.absolute tree.here path))) ∧
    ∀ program, tree.load path = .ok program → LoadedFrom tree path program := by
  have visit : Visit tree (Path.absolute tree.here path) []
      (loadUpTo tree tree.depth (Path.absolute tree.here path) []) :=
    visit_loadUpTo here (Path.absolute_isNormal here path) .nil (by simp)
  refine ⟨⟨_, visit, load_eq_map tree path⟩, ?_⟩
  intro program h
  rw [load_eq_map] at h
  cases result : loadUpTo tree tree.depth (Path.absolute tree.here path) [] with
  | error failure =>
    rw [result] at h
    cases h
  | ok loaded =>
    rw [result] at h visit
    cases h
    exact loadedFrom_of_visit here visit

/-- A file that includes itself. -/
def selfInclude : FileTree :=
  { here := "/w", nodes := [(["w".toList], .folder),
      (["w".toList, "a".toList], .file "include 'a'".toUTF8)] }

theorem load_spec_selfInclude : Path.isAbsolute selfInclude.here = true ∧
    ∃ program, selfInclude.load "a" = .ok program ∧ LoadedFrom selfInclude "a" program := by
  have here : Path.isAbsolute selfInclude.here = true := by decide
  refine ⟨here, ?_⟩
  have loads : (selfInclude.load "a").toOption.isSome = true := by decide +kernel
  cases result : selfInclude.load "a" with
  | error failure =>
    rw [result] at loads
    cases loads
  | ok program => exact ⟨program, rfl, (load_spec selfInclude here "a").2 program result⟩

end IdlFlow
