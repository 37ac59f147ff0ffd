/-
  Trees that grow: what writing files and making folders leaves as it was.

  * `FileTree.Grown old new touched`: outside of the touched places every file
    and folder of `old` stands in `new`, and nothing has come to stand there but
    folders;
  * `FileTree.Spares tree touched`: no file of the tree includes a touched place.

  Main statements: making folders touches no place (`grown_makeFolders`), writing
  a text touches the place of its path (`grown_writeText`), and a file whose
  includes lead to untouched places loads from the grown tree as from the old
  one (`Grown.load_eq`).
-/
import IdlFlow.Proofs.Trees

namespace IdlFlow

open IdlFlow.Path

namespace FileTree

variable {tree old middle new : FileTree} {touched others : Place → Prop} {place other : Place}
  {path : Text}

/-- Outside of the touched places nothing changes but for new folders. -/
structure Grown (old new : FileTree) (touched : Place → Prop) : Prop where
  here : new.here = old.here
  kept : ∀ place, ¬ touched place → ∀ node, old.node? place = some node →
    new.node? place = some node
  fresh : ∀ place, ¬ touched place → old.node? place = none →
    new.node? place = none ∨ new.node? place = some .folder
  folder : ∀ place, old.node? place = some .folder → new.node? place = some .folder

namespace Grown

theorem refl (tree : FileTree) (touched : Place → Prop) : Grown tree tree touched :=
  ⟨rfl, fun _ _ _ stands => stands, fun _ _ none => .inl none, fun _ stands => stands⟩

theorem mono (h : Grown old new touched) (sub : ∀ place, touched place → others place) :
    Grown old new others :=
  ⟨h.here, fun place out => h.kept place fun mem => out (sub place mem),
    fun place out => h.fresh place fun mem => out (sub place mem), h.folder⟩

theorem trans (h : Grown old middle touched) (h' : Grown middle new touched) :
    Grown old new touched := by
  refine ⟨h'.here.trans h.here, fun place out node stands => h'.kept place out node
    (h.kept place out node stands), fun place out none => ?_, fun place stands =>
    h'.folder place (h.folder place stands)⟩
  rcases h.fresh place out none with none | isFolder
  · exact h'.fresh place out none
  · exact .inr (h'.folder place isFolder)

/-- **Untouched files are as they were.** -/
theorem file_iff (h : Grown old new touched) (out : ¬ touched place) (content : ByteArray) :
    new.node? place = some (.file content) ↔ old.node? place = some (.file content) := by
  refine ⟨fun stands => ?_, h.kept place out _⟩
  cases before : old.node? place with
  | none =>
    rcases h.fresh place out before with none | isFolder
    · rw [none] at stands
      cases stands
    · rw [isFolder] at stands
      cases stands
  | some node => rw [← h.kept place out node before, stands]

end Grown

/-! ## Writing -/

theorem node?_put (ne : place ≠ []) (node : Node) (other : Place) :
    (tree.put place node).node? other = if place = other then some node else tree.node? other := by
  cases other with
  | nil => rw [if_neg ne]; rfl
  | cons name rest => exact Assoc.find?_insert place (name :: rest) node tree.nodes

/-- A new node at one place. -/
theorem grown_put {node : Node} (ne : place ≠ []) (free : tree.node? place ≠ some .folder) :
    Grown tree (tree.put place node) fun other => other = place := by
  have other {q : Place} (apart : q ≠ place) : (tree.put place node).node? q = tree.node? q := by
    rw [node?_put ne, if_neg fun eq => apart eq.symm]
  refine ⟨rfl, fun q out _ stands => ?_, fun q out none => ?_, fun q stands => ?_⟩
  · rw [other out, stands]
  · exact .inl (by rw [other out, none])
  · rw [other fun eq => free (eq ▸ stands), stands]

/-- A new folder at an empty place. -/
theorem grown_put_folder (empty : tree.node? place = none) :
    Grown tree (tree.put place .folder) fun _ => False := by
  have ne : place ≠ [] := by
    rintro rfl
    cases empty
  refine ⟨rfl, fun q _ node stands => ?_, fun q _ none => ?_, fun q stands => ?_⟩
  · rw [node?_put ne, if_neg fun eq => ?_, stands]
    rw [← eq, empty] at stands
    cases stands
  · rw [node?_put ne]
    split
    · exact .inr rfl
    · exact .inl none
  · rw [node?_put ne]
    split
    · rfl
    · exact stands

theorem grown_makeFolder (h : tree.makeFolder path = .ok new) : Grown tree new fun _ => False := by
  unfold makeFolder at h
  cases located : tree.locate path with
  | error e =>
    rw [located] at h
    cases h
  | ok place =>
    cases empty : tree.node? place with
    | some node =>
      simp only [located, bind, Except.bind, empty] at h
      cases h
    | none =>
      simp only [located, bind, Except.bind, empty] at h
      cases h
      exact grown_put_folder empty

theorem grown_ensureFolder (tree : FileTree) (path : Text) :
    Grown tree (tree.ensureFolder path).1 fun _ => False := by
  unfold ensureFolder
  split
  · next made => exact grown_makeFolder made
  · exact .refl tree _

theorem grown_makeFoldersUpTo (bound : Nat) (tree : FileTree) (path : Text) :
    Grown tree (makeFoldersUpTo bound tree path).1 fun _ => False := by
  induction bound generalizing tree path with
  | zero => exact grown_ensureFolder tree path
  | succ bound ih =>
    rw [makeFoldersUpTo]
    -- which folder stands above does not matter, nor does the last name
    generalize split path = parts
    obtain ⟨parent, name⟩ := parts
    dsimp only
    generalize (if name = [] then split parent else (parent, name)) = parts
    obtain ⟨above, name⟩ := parts
    have first := ih tree above
    dsimp only
    split
    · exact grown_ensureFolder tree path
    split
    · next middle made =>
      rw [made] at first
      split
      · exact first
      · exact first.trans (grown_ensureFolder middle path)
    · next middle made =>
      rw [made] at first
      split
      · exact first
      · exact first.trans (grown_ensureFolder middle path)
    · exact first

/-- **Making folders touches no place**, whether it fails or not. -/
theorem grown_makeFolders (tree : FileTree) (path : Text) :
    Grown tree (tree.makeFolders path).1 fun _ => False :=
  grown_makeFoldersUpTo path.length tree path

/-- **Writing a text touches the place of its path**, where it comes to stand. -/
theorem grown_writeText (here : IsNormal tree.here) {content : Text}
    (h : tree.writeText path content = .ok new) :
    Grown tree new (fun place => place = names (absolute tree.here path)) ∧
      new.node? (names (absolute tree.here path)) =
        some (.file (String.ofList content).toUTF8) := by
  have same := absolute_congr tree.here (root_tidy path) (names_tidy path)
  unfold writeText at h
  cases located : tree.locate (tidy path) with
  | error e =>
    rw [located] at h
    cases h
  | ok place =>
    have found := locate_absolute here located
    rw [same] at found
    subst found
    simp only [located, bind, Except.bind] at h
    split at h
    · cases h
    · next free =>
      cases h
      have ne : names (absolute tree.here path) ≠ [] := by
        intro empty
        rw [empty] at free
        exact free rfl
      refine ⟨grown_put ne free, ?_⟩
      rw [node?_put ne, if_pos rfl]

/-! ## Reading -/

/-- Above what stands in a tree there are folders. -/
theorem WellFormed.folder_above (well : tree.WellFormed) {steps : List Text} (ne : steps ≠ [])
    (stands : (tree.node? (place ++ steps)).isSome = true) : tree.node? place = some .folder := by
  induction steps using List.reverseRecOn with
  | nil => exact absurd rfl ne
  | append_singleton front last ih =>
    rw [← List.append_assoc] at stands
    have isFolder := well.folder _ _ stands
    by_cases empty : front = []
    · rwa [empty, List.append_nil] at isFolder
    · exact ih empty (by rw [isFolder]; rfl)

/-- The slashes in front of a normal path stay at the root. -/
theorem walk_names (normal : IsNormal path) :
    tree.walk [] (Text.splitOn slash path) = tree.walk [] (names path) := by
  have stay (steps : List Text) : tree.walk [] ([] :: steps) = tree.walk [] steps := rfl
  obtain ⟨hr, proper, eq⟩ := normal.eq_root_names
  have cut : tree.walk [] (Text.splitOn slash (ofNames (names path))) =
      tree.walk [] (names path) := by
    by_cases empty : names path = []
    · rw [empty]
      rfl
    · rw [splitOn_ofNames empty fun name mem => (proper name mem).kept]
  rw [← cut]
  conv => lhs; rw [eq]
  rcases hr with hr | hr <;> rw [hr] <;> simp [Text.splitOn, slash, stay]

theorem walk_congr {steps : List Text} (proper : ∀ step ∈ steps, Proper step)
    (folders : ∀ before name after, steps = before ++ name :: after →
      old.node? (place ++ before) = some .folder ∧ new.node? (place ++ before) = some .folder) :
    new.walk place steps = old.walk place steps := by
  induction steps generalizing place with
  | nil => rfl
  | cons step steps ih =>
    obtain ⟨before, after⟩ := folders [] step steps rfl
    rw [List.append_nil] at before after
    have hp := proper step List.mem_cons_self
    rw [walk, walk, before, after]
    simp only [hp.ne_nil, hp.ne_current, hp.ne_parent, or_self, if_false]
    rw [ih (fun s mem => proper s (List.mem_cons_of_mem _ mem))]
    intro front name back cut
    have longer := folders (step :: front) name back (by rw [cut, List.cons_append])
    rwa [List.append_assoc, List.singleton_append]

namespace Grown

variable (well : old.WellFormed) (h : Grown old new touched) (normal : IsNormal path)
include well h normal

/-- What stood in the old tree is still found. -/
theorem locate_eq (stands : (old.node? (names path)).isSome = true) :
    new.locate path = old.locate path := by
  have same : new.walk [] (names path) = old.walk [] (names path) := by
    refine walk_congr normal.eq_root_names.2.1 fun before name after cut => ?_
    rw [cut] at stands
    have isFolder := well.folder_above (List.cons_ne_nil name after) stands
    exact ⟨isFolder, h.folder _ isFolder⟩
  unfold locate
  rw [if_pos normal.isAbsolute, if_pos normal.isAbsolute, walk_names normal, walk_names normal, same]

omit well normal in
theorem node?_eq (out : ¬ touched (names path)) (stands : (old.node? (names path)).isSome = true) :
    new.node? (names path) = old.node? (names path) := by
  obtain ⟨node, found⟩ := Option.isSome_iff_exists.1 stands
  rw [found, h.kept _ out node found]

/-- **What stood in the old tree reads the same.** -/
theorem readDocument_eq (out : ¬ touched (names path))
    (stands : (old.node? (names path)).isSome = true) :
    new.readDocument path = old.readDocument path := by
  have located := locate_eq well h normal stands
  have text : new.readText path = old.readText path := by
    unfold readText read
    rw [located]
    cases found : old.locate path with
    | error e => rfl
    | ok place =>
      obtain rfl := FileTree.locate_eq normal found
      simp only [bind, Except.bind, node?_eq h out stands]
  unfold readDocument
  rw [normal.tidy_eq, text]

/-- **Whether there is a file** is the same at untouched places. -/
theorem isFile_eq (out : ¬ touched (names path)) : new.isFile path = old.isFile path := by
  rw [Bool.eq_iff_iff, isFile_iff normal, isFile_iff normal]
  constructor
  · rintro ⟨located, content, stands⟩
    have before := (h.file_iff out content).1 stands
    rw [← locate_eq well h normal (by rw [before]; rfl)]
    exact ⟨located, content, before⟩
  · rintro ⟨located, content, stands⟩
    rw [locate_eq well h normal (by rw [stands]; rfl)]
    exact ⟨located, content, (h.file_iff out content).2 stands⟩

end Grown

end FileTree

/-! ## Loading -/

mutual

/-- A traversal has one result. -/
theorem Visit.unique {tree : FileTree} {path : Text} {loaded : Assoc Text Document}
    {result other : Except LoadFailure (Assoc Text Document)} :
    Visit tree path loaded result → Visit tree path loaded other → result = other
  | .known _, .known _ => rfl
  | .known mem, .unread new _ => absurd mem new
  | .known mem, .read new _ _ => absurd mem new
  | .unread new _, .known mem => absurd mem new
  | .unread _ failed, .unread _ failed' => by
    cases failed.symm.trans failed'
    rfl
  | .unread _ failed, .read _ ok _ => by cases failed.symm.trans ok
  | .read new _ _, .known mem => absurd mem new
  | .read _ ok _, .unread _ failed => by cases ok.symm.trans failed
  | .read _ ok all, .read _ ok' all' => by
    cases ok.symm.trans ok'
    exact VisitAll.unique all all'

theorem VisitAll.unique {tree : FileTree} {includer : Text} {includes : List Text}
    {loaded : Assoc Text Document} {result other : Except LoadFailure (Assoc Text Document)} :
    VisitAll tree includer includes loaded result → VisitAll tree includer includes loaded other →
      result = other
  | .nil, .nil => rfl
  | .missing _, .missing _ => rfl
  | .missing absent, .failed file _ => by cases absent.symm.trans file
  | .missing absent, .next file _ _ => by cases absent.symm.trans file
  | .failed file _, .missing absent => by cases absent.symm.trans file
  | .failed _ first, .failed _ first' => Visit.unique first first'
  | .failed _ first, .next _ first' _ => by cases Visit.unique first first'
  | .next file _ _, .missing absent => by cases absent.symm.trans file
  | .next _ first _, .failed _ first' => by cases Visit.unique first first'
  | .next _ first rest, .next _ first' rest' => by
    cases Visit.unique first first'
    exact VisitAll.unique rest rest'

end

namespace FileTree

/-- No file of the tree includes a touched place. -/
def Spares (tree : FileTree) (touched : Place → Prop) : Prop :=
  ∀ path, IsNormal path → ∀ document, tree.readDocument path = .ok document →
    ∀ included ∈ document.includes, ¬ touched (names (includePath tree.here path included))

/-- The places that the files of the tree include. -/
def includedPlaces (tree : FileTree) : List Place :=
  tree.absolutePaths.flatMap fun path =>
    match tree.readDocument path with
    | .ok document => document.includes.map fun included =>
      names (includePath tree.here path included)
    | .error _ => []

/-- All files have one of the listed paths, so the included places can be listed too. -/
theorem spares_of_includedPlaces {tree : FileTree} {touched : Place → Prop}
    (h : ∀ place ∈ tree.includedPlaces, ¬ touched place) : tree.Spares touched := by
  intro path normal document read included mem
  refine h _ (List.mem_flatMap.2 ⟨path, mem_absolutePaths normal read, ?_⟩)
  rw [read]
  exact List.mem_map_of_mem mem

theorem isSome_of_isFile {tree : FileTree} {path : Text} (normal : IsNormal path)
    (h : tree.isFile path = true) : (tree.node? (names path)).isSome = true := by
  obtain ⟨-, content, stands⟩ := (isFile_iff normal).1 h
  rw [stands]
  rfl

end FileTree

section Grown

open FileTree

variable {old new : FileTree} {touched : Place → Prop} (well : old.WellFormed)
  (h : old.Grown new touched)
include well h

mutual

/-- A traversal goes the same way through a grown tree. -/
theorem Visit.of_grown (spares : old.Spares touched) {path : Text} {loaded : Assoc Text Document}
    {result : Except LoadFailure (Assoc Text Document)} : Visit old path loaded result →
      IsNormal path → ¬ touched (names path) → (old.node? (names path)).isSome = true →
      Visit new path loaded result
  | .known mem, _, _, _ => .known mem
  | .unread fresh failed, normal, out, stands =>
    .unread fresh (by rw [h.readDocument_eq well normal out stands, failed])
  | .read fresh ok all, normal, out, stands =>
    .read fresh (by rw [h.readDocument_eq well normal out stands, ok])
      (VisitAll.of_grown spares all (spares _ normal _ ok))

theorem VisitAll.of_grown (spares : old.Spares touched) {includer : Text} {includes : List Text}
    {loaded : Assoc Text Document} {result : Except LoadFailure (Assoc Text Document)} :
    VisitAll old includer includes loaded result →
      (∀ included ∈ includes, ¬ touched (names (includePath old.here includer included))) →
      VisitAll new includer includes loaded result
  | .nil, _ => .nil
  | .missing absent, out => by
    have same := h.isFile_eq well (absolute_isNormal well.here.isAbsolute _) (out _ (.head _))
    rw [← h.here] at same ⊢
    exact .missing (same.trans (h.here ▸ absent))
  | .failed file first, out => by
    have normal (path : Text) : IsNormal (includePath old.here includer path) :=
      absolute_isNormal well.here.isAbsolute _
    have stands := isSome_of_isFile (normal _) file
    refine .failed ?_ ?_ <;> rw [h.here]
    · rw [h.isFile_eq well (normal _) (out _ (.head _)), file]
    · exact Visit.of_grown spares first (normal _) (out _ (.head _)) stands
  | .next file first rest, out => by
    have normal (path : Text) : IsNormal (includePath old.here includer path) :=
      absolute_isNormal well.here.isAbsolute _
    have stands := isSome_of_isFile (normal _) file
    refine .next ?_ ?_ (VisitAll.of_grown spares rest fun _ mem => out _ (.tail _ mem)) <;>
      rw [h.here]
    · rw [h.isFile_eq well (normal _) (out _ (.head _)), file]
    · exact Visit.of_grown spares first (normal _) (out _ (.head _)) stands

end

/-- **What includes no touched place loads the same.** -/
theorem FileTree.Grown.load_eq (spares : old.Spares touched) {file : Text}
    (out : ¬ touched (names (absolute old.here file)))
    (stands : (old.node? (names (absolute old.here file))).isSome = true) :
    new.load file = old.load file := by
  have here := well.here.isAbsolute
  have normal := absolute_isNormal here file
  have before : Visit old (absolute old.here file) []
      (loadUpTo old old.depth (absolute old.here file) []) :=
    visit_loadUpTo here normal .nil (by simp)
  have after : Visit new (absolute old.here file) []
      (loadUpTo new new.depth (absolute old.here file) []) :=
    visit_loadUpTo (h.here ▸ here) normal .nil (by simp)
  rw [load_eq_map, load_eq_map, h.here,
    after.unique (before.of_grown well h spares normal out stands)]

end Grown

end IdlFlow
