/-
  When a batch treats all that it finds.

  * `FileTree.StandsBelow tree folder node path`: the node stands below the
    folder under a name with the ending of interface files, and a search gives
    it the path;
  * `Batch.Source b tree path`: such a node is a file;
  * `Batch.Target b tree place`: the declaration file of a source goes there;
  * `Batch.GoodSources b tree`: the search has an answer, all sources can be
    loaded, made and written beside themselves, and no file includes a
    declaration file.  `GoodSources.of_ready` checks this by computation.

  Main statement: a batch over good sources is done exactly if no folder is named
  like an interface file.  Then it has written one file for each source, and else
  it stops at the first such folder (`run_done_iff`).  There are such folders
  (`not_done_folder`).
-/
import Mathlib.Data.List.Nodup
import IdlFlow.Proofs.Clashes
import IdlFlow.Proofs.Walks

namespace IdlFlow

open IdlFlow.Path

/-! ## What a search finds -/

namespace FileTree

variable {tree : FileTree} {place : Place} {steps : List Text} {folder path : Text}
  {files : List Text}

/-- Below the folder the node stands under a name with the ending of interface
    files, and a search gives it the path. -/
def StandsBelow (tree : FileTree) (folder : Text) (node : Node) (path : Text) : Prop :=
  ∃ steps name,
    tree.node? (names (absolute tree.here folder) ++ (steps ++ [name])) = some node ∧
      Import.sourceEnding <:+ name ∧ path = pathBelow (tidy folder) (steps ++ [name])

/-- No folder below has a path that is too long to follow. -/
def Searchable (tree : FileTree) (folder : Text) : Prop :=
  ∀ steps, steps ≠ [] →
    tree.node? (names (absolute tree.here folder) ++ steps) = some .folder →
    (pathBelow (tidy folder) steps).byteCount ≤ pathLimit

theorem below?_append (place steps : Place) : below? place (place ++ steps) = some steps := by
  induction place with
  | nil => rfl
  | cons name place ih =>
    rw [List.cons_append, below?, if_pos rfl]
    exact ih

theorem mem_below_iff {node : Node} :
    (steps, node) ∈ tree.below place ↔ steps ≠ [] ∧ (place ++ steps, node) ∈ tree.nodes := by
  constructor
  · intro mem
    obtain ⟨⟨other, stands⟩, mem, eq⟩ := List.mem_filterMap.1 mem
    dsimp only at eq
    split at eq
    · cases eq
    · cases eq
    next steps some_ cut =>
    cases eq
    rw [append_of_below? cut]
    exact ⟨some_, mem⟩
  · rintro ⟨some_, mem⟩
    refine List.mem_filterMap.2 ⟨_, mem, ?_⟩
    dsimp only
    rw [below?_append]
    cases steps with
    | nil => exact absurd rfl some_
    | cons name steps => rfl

theorem mem_keys_below_iff :
    steps ∈ (tree.below place).keys ↔ steps ≠ [] ∧ place ++ steps ∈ tree.nodes.keys := by
  simp [Assoc.keys, mem_below_iff]

/-- What stands below a folder is listed by its steps. -/
theorem mem_below_iff_node? (distinct : tree.nodes.keys.Nodup) {node : Node} :
    (steps, node) ∈ tree.below place ↔
      steps ≠ [] ∧ tree.node? (place ++ steps) = some node := by
  rw [mem_below_iff]
  refine and_congr_right fun some_ => ?_
  have ne : place ++ steps ≠ [] := fun none => some_ (List.append_eq_nil_iff.1 none).2
  rw [node?]
  · exact ⟨Assoc.find?_of_mem distinct, Assoc.mem_of_find?⟩
  · exact ne

/-- What stands in distinct places is listed once. -/
theorem nodup_keys_below (distinct : tree.nodes.keys.Nodup) : (tree.below place).keys.Nodup := by
  refine List.Nodup.of_map (place ++ ·) (distinct.sublist ?_)
  unfold below Assoc.keys
  induction tree.nodes with
  | nil => exact List.nil_sublist _
  | cons entry nodes ih =>
    obtain ⟨other, node⟩ := entry
    rw [List.filterMap_cons]
    dsimp only
    split
    · exact ih.cons _
    · next listed =>
      split at listed
      · cases listed
      · cases listed
      · next steps _ cut =>
        cases listed
        rw [List.map_cons, List.map_cons, List.map_cons, append_of_below? cut]
        exact ih.cons_cons _

theorem isFolder_iff : tree.isFolder folder = true ↔
    ∃ place, tree.locate folder = .ok place ∧ tree.node? place = some .folder := by
  unfold isFolder at?
  cases tree.locate folder with
  | error e => simp
  | ok place => rcases stands : tree.node? place with _ | _ | _ <;> simp [stands]

section Found

variable (well : tree.WellFormed) (isFolder : tree.isFolder folder = true)
include well isFolder

/-- The folder and its tidy path lead to one place. -/
theorem locate_folder : tree.locate folder = .ok (names (absolute tree.here folder)) ∧
    tree.node? (names (absolute tree.here folder)) = some .folder := by
  obtain ⟨place, located, stands⟩ := isFolder_iff.1 isFolder
  obtain rfl := locate_absolute well.here located
  exact ⟨located, stands⟩

/-- **All that a search finds** is what stands below the folder under a name
    with the ending. -/
theorem mem_files_iff (found : tree.findEnding folder Import.sourceEnding = .ok files) :
    path ∈ files ↔ ∃ node, tree.StandsBelow folder node path := by
  obtain ⟨located, stands⟩ := locate_folder well isFolder
  rw [mem_findEnding found]
  constructor
  · rintro ⟨place, steps, tidied, -, listed, suffix, rfl⟩
    obtain rfl := Except.ok.inj ((locate_tidy located).symm.trans tidied)
    obtain ⟨some_, key⟩ := mem_keys_below_iff.1 listed
    obtain ⟨front, name, rfl⟩ := (List.eq_nil_or_concat' steps).resolve_left some_
    obtain ⟨node, eq⟩ := Option.isSome_iff_exists.1 (isSome_node?_iff.2 (.inr key))
    exact ⟨node, front, name, eq, by simpa using suffix, rfl⟩
  · rintro ⟨node, front, name, eq, suffix, rfl⟩
    have some_ := Option.isSome_of_eq_some eq
    have key := (isSome_node?_iff.1 some_).resolve_left (by simp)
    exact ⟨_, front ++ [name], locate_tidy located, stands, mem_keys_below_iff.2 ⟨by simp, key⟩,
      by simpa using suffix, rfl⟩

/-- **A search has an answer** exactly if all folders below can be followed. -/
theorem exists_files_iff (distinct : tree.nodes.keys.Nodup) :
    (∃ files, tree.findEnding folder Import.sourceEnding = .ok files) ↔
      tree.Searchable folder := by
  obtain ⟨located, stands⟩ := locate_folder well isFolder
  unfold findEnding
  simp only [locate_tidy located, stands]
  split
  · next long =>
    refine iff_of_false (by simp) fun searchable => ?_
    obtain ⟨⟨steps, node⟩, mem, long⟩ := List.any_eq_true.1 long
    obtain ⟨isFolder, long⟩ := Bool.and_eq_true_iff.1 long
    cases node with
    | file content => cases isFolder
    | folder =>
      obtain ⟨some_, stands⟩ := (mem_below_iff_node? distinct).1 mem
      have short := searchable steps some_ stands
      exact Nat.not_lt.2 short (of_decide_eq_true long)
  · next short =>
    refine iff_of_true ⟨_, rfl⟩ fun steps some_ stands => Nat.le_of_not_lt fun long => short ?_
    have mem := (mem_below_iff_node? distinct).2 ⟨some_, stands⟩
    refine List.any_eq_true.2 ⟨(steps, .folder), mem, ?_⟩
    simpa using long

omit isFolder in
/-- **A search finds nothing twice.** -/
theorem nodup_files (distinct : tree.nodes.keys.Nodup)
    (found : tree.findEnding folder Import.sourceEnding = .ok files) : files.Nodup := by
  unfold findEnding at found
  dsimp only at found
  split at found
  · cases found
  · cases found
    exact List.nodup_nil
  split at found
  · split at found
    · cases found
    · cases found
      refine (List.mergeSort_perm _ _).nodup_iff.2 (List.Nodup.map_on ?_
        ((nodup_keys_below distinct).filter _))
      have kept {steps : Place} {keep : Place → Bool} {place : Place}
          (mem : steps ∈ (tree.below place).keys.filter keep) : ∀ step ∈ steps, Kept step := by
        intro step hs
        have key := (mem_keys_below (List.mem_filter.1 mem).1).2
        exact (well.proper _ key step (List.mem_append_right _ hs)).kept
      intro steps hs others ho same
      exact (pathBelow_inj (kept hs) (kept ho)).1 same
  · cases found
    exact List.nodup_nil

end Found

/-- What stands below a folder has proper names below the names of the folder. -/
theorem StandsBelow.exists_steps (well : tree.WellFormed) {node : Node}
    (h : tree.StandsBelow folder node path) : ∃ steps name,
      (∀ step ∈ steps ++ [name], Proper step) ∧ Import.sourceEnding <:+ name ∧
      path = pathBelow (tidy folder) (steps ++ [name]) ∧
      names (absolute tree.here path) =
        names (absolute tree.here folder) ++ (steps ++ [name]) ∧
      tree.node? (names (absolute tree.here path)) = some node := by
  obtain ⟨steps, name, stands, suffix, rfl⟩ := h
  have key := (isSome_node?_iff.1 (Option.isSome_of_eq_some stands)).resolve_left (by simp)
  have proper : ∀ step ∈ steps ++ [name], Proper step := fun step mem =>
    well.proper _ key step (List.mem_append_right _ mem)
  have kept : ∀ step ∈ steps ++ [name], Kept step := fun step mem => (proper step mem).kept
  obtain ⟨hr, hn⟩ := names_pathBelow folder kept
  obtain ⟨-, hn⟩ := absolute_of_below well.here.isAbsolute hr hn
    fun step mem => (proper step mem).ne_parent
  exact ⟨steps, name, proper, suffix, rfl, hn, hn ▸ stands⟩

/-- Beside what stands in a tree every name can be reached. -/
theorem walk_beside {name other : Text} (well : tree.WellFormed)
    (stands : (tree.node? (place ++ (steps ++ [name]))).isSome = true)
    (proper : ∀ step ∈ steps ++ [other], Proper step)
    (short : ∀ step ∈ steps ++ [other], step.byteCount ≤ nameLimit) :
    tree.walk place (steps ++ [other]) = .ok (place ++ (steps ++ [other])) := by
  refine walk_folders proper short fun before last after cut => ?_
  have lengths := congrArg List.length cut
  simp only [List.length_append, List.length_cons, List.length_nil] at lengths
  obtain ⟨rest, rfl⟩ := List.prefix_of_prefix_length_le
    (cut ▸ List.prefix_append before (last :: after)) (List.prefix_append steps _) (by omega)
  have above : place ++ (before ++ rest ++ [name]) = place ++ before ++ (rest ++ [name]) := by
    simp only [List.append_assoc]
  exact well.folder_above (List.concat_ne_nil name rest) (above ▸ stands)

theorem null_not_mem_output {name : Text} (free : ∀ step ∈ steps ++ [name], '\x00' ∉ step) :
    '\x00' ∉ ofNames (steps ++ [outputName name]) := by
  intro mem
  rcases Text.mem_of_mem_intercalate mem with mem | ⟨step, hs, mem⟩
  · exact absurd mem (by decide)
  rcases List.mem_append.1 hs with hs | hs
  · exact free step (List.mem_append_left _ hs) mem
  rw [List.mem_singleton.1 hs, outputName, List.mem_append] at mem
  rcases mem with mem | mem
  · exact free name (by simp) ((isPrefix_splitEnding name).subset mem)
  · exact absurd mem (by decide)

end FileTree

/-! ## Sources and their declaration files -/

namespace Batch

open FileTree

variable {b : Batch} {tree current : FileTree} {file path out : Text} {place : Place}

/-- A file below the working folder whose name has the ending of interface
    files. -/
def Source (b : Batch) (tree : FileTree) (path : Text) : Prop :=
  ∃ content, tree.StandsBelow b.working (.file content) path

/-- The declaration file of a source goes there. -/
def Target (b : Batch) (tree : FileTree) (place : Place) : Prop :=
  ∃ path, b.Source tree path ∧ b.outputPlace? tree.here path = some place

/-- A declaration file can be written beside each source: no folder stands
    there, and neither its path nor its name is too long. -/
def Spacious (b : Batch) (tree : FileTree) : Prop :=
  ∀ path, b.Source tree path → ∀ out, outputPath? tree.here path b.working b.working = some out →
    tree.isFolder out = false ∧ out.byteCount ≤ pathLimit ∧ (fileName out).byteCount ≤ nameLimit

/-- Where a source stands there is no folder. -/
theorem Source.not_folder (well : tree.WellFormed) (source : b.Source tree path) :
    ¬ tree.StandsBelow b.working .folder path := by
  intro below
  obtain ⟨content, below'⟩ := source
  obtain ⟨-, -, -, -, -, -, stands⟩ := below.exists_steps well
  obtain ⟨-, -, -, -, -, -, stands'⟩ := below'.exists_steps well
  rw [stands] at stands'
  cases stands'

/-- Sources as a batch needs them that writes beside them. -/
structure GoodSources (b : Batch) (tree : FileTree) : Prop where
  well : tree.WellFormed
  distinct : tree.nodes.keys.Nodup
  beside : b.outputFolder = b.working
  folder : tree.isFolder b.working = true
  searchable : tree.Searchable b.working
  /-- Each can be loaded and made. -/
  makes : ∀ path, b.Source tree path → ∃ text, b.Makes tree path text
  /-- No file includes a declaration file. -/
  spares : tree.Spares (b.Target tree)
  spacious : b.Spacious tree

namespace GoodSources

variable (good : b.GoodSources tree)
include good

/-- A batch finds the sources, and the folders that are named like them. -/
theorem mem_files {files : List Text} (found : b.files tree = .ok files) :
    path ∈ files ↔ b.Source tree path ∨ tree.StandsBelow b.working .folder path := by
  rw [mem_files_iff good.well good.folder found]
  constructor
  · rintro ⟨_ | content, below⟩
    · exact .inr below
    · exact .inl ⟨content, below⟩
  · rintro (⟨content, below⟩ | below)
    · exact ⟨_, below⟩
    · exact ⟨_, below⟩

/-- What is loaded has names that are short enough and no null character. -/
theorem names_of_source (source : b.Source tree file) :
    (∀ name ∈ names (absolute tree.here file), name.byteCount ≤ nameLimit ∧ '\x00' ∉ name) := by
  obtain ⟨text, program, loaded, -⟩ := good.makes file source
  have base := good.well.here.isAbsolute
  have normal := absolute_isNormal base file
  have from_ := loadedFrom_of_load base loaded
  obtain ⟨-, located, -⟩ := from_.exists_file from_.entry_mem
  rw [from_.entry] at located
  obtain ⟨-, null, -, walked⟩ := locate_eq_ok.1 located
  rw [origin, if_pos normal.isAbsolute, walk_names normal] at walked
  intro name mem
  refine ⟨byteCount_of_walk normal.eq_root_names.2.1 walked name mem, fun inside => null ?_⟩
  exact Text.mem_of_mem_splitOn (List.mem_filter.1 mem).1 inside

/-- The steps from the working folder to a source, and to its declaration file. -/
theorem exists_steps (source : b.Source tree file) : ∃ steps name,
    (∀ step ∈ steps ++ [name], Proper step) ∧
    names (absolute tree.here file) =
      names (absolute tree.here b.working) ++ (steps ++ [name]) ∧
    (tree.node? (names (absolute tree.here file))).isSome = true ∧
    outputPath? tree.here file b.working b.working =
      some (join b.working (ofNames (steps ++ [outputName name]))) := by
  obtain ⟨content, below⟩ := source
  obtain ⟨steps, name, proper, suffix, eq, hn, stands⟩ := below.exists_steps good.well
  have kept : ∀ step ∈ steps ++ [name], Kept step := fun step mem => (proper step mem).kept
  have ne : file ≠ [] := by
    rintro rfl
    have last : fileName (pathBelow (tidy b.working) (steps ++ [name])) = name :=
      fileName_pathBelow kept
    rw [← eq] at last
    exact (kept name (by simp)).ne_nil last.symm
  exact ⟨steps, name, proper, hn, Option.isSome_of_eq_some stands,
    outputPath?_of_below ne kept hn⟩

/-- **The declaration file of a source can be written**: its path leads to a
    place in a folder where no other folder stands. -/
theorem locate_output (source : b.Source tree file) : ∃ out place,
    outputPath? tree.here file b.working b.outputFolder = some out ∧
      b.outputPlace? tree.here file = some place ∧ tree.locate out = .ok place ∧
      directory out ≠ [] ∧ tree.node? place ≠ some .folder := by
  obtain ⟨steps, name, proper, hn, stands, target⟩ := good.exists_steps source
  obtain ⟨located, folder⟩ := locate_folder good.well good.folder
  obtain ⟨apart, short, shortName⟩ := good.spacious file source _ target
  have known := good.names_of_source source
  have written := proper_of_mem_output proper
  have relative := isAbsolute_ofNames fun step mem => (written step mem).kept
  rw [fileName_join relative, fileName_ofNames (written _ (by simp)).no_slash] at shortName
  rw [hn] at known stands
  have walked : tree.walk (names (absolute tree.here b.working)) (steps ++ [outputName name]) =
      .ok (names (absolute tree.here b.working) ++ (steps ++ [outputName name])) := by
    refine walk_beside good.well stands written (List.forall_mem_append.2 ⟨fun step mem => ?_, ?_⟩)
    · exact (known step (by simp [mem])).1
    · exact List.forall_mem_singleton.2 shortName
  have null := null_not_mem_output fun step mem => (known step (List.mem_append_right _ mem)).2
  have led := locate_join located folder (fun step mem => (written step mem).kept) walked null short
  have place := locate_absolute good.well.here led
  refine ⟨_, _, good.beside ▸ target, ?_, place ▸ led, ?_, ?_⟩
  · rw [outputPlace?, good.beside, target]
    rfl
  · obtain ⟨front, -, joined⟩ := exists_join (locate_eq_ok.1 located).1 relative
    rw [joined]
    exact directory_ne_nil (by simp)
  · intro stands
    have isFolder := isFolder_iff.2 ⟨_, led, place ▸ stands⟩
    rw [isFolder] at apart
    cases apart

end GoodSources

/-! ## Treating sources -/

/-- **A file is written beside what stands there.** -/
theorem write_of_locate (target : outputPath? current.here file b.working b.outputFolder = some out)
    (located : current.locate out = .ok place) (named : directory out ≠ [])
    (free : current.node? place ≠ some .folder) (text : Text) :
    b.write current file text =
      (current.put place (.file (String.ofList text).toUTF8), .ok out) := by
  obtain ⟨above, led, folder⟩ := folder_of_directory located named
  simp only [write, target, makeFolders_of_folder led folder, writeText_of_locate located free]

/-- One file that is loaded, made and written. -/
theorem runFiles_cons_of_ok {program : Program} {text : Text} {next : FileTree}
    (loaded : current.load file = .ok program)
    (made : (program.generate current.here b.timestamp b.options).text = .ok text)
    (written : b.write current file text = (next, .ok out)) :
    ∃ log, ∀ files, b.runFiles current (file :: files) = { b.runFiles next files with
      written := out :: (b.runFiles next files).written
      log := log ++ (b.runFiles next files).log } := by
  refine ⟨program.paths.map LogEntry.parsing ++ (program.generate current.here b.timestamp
    b.options).skipped.map fun s => LogEntry.warning (program.warning s), fun files => ?_⟩
  rw [runFiles, loaded]
  dsimp only
  rw [made]
  dsimp only
  rw [written]

/-- A tree on the way of a batch: declaration files have come to stand in it, and
    no folder where they go. -/
structure OnTheWay (b : Batch) (tree current : FileTree) : Prop where
  grown : Grown tree current (b.Target tree)
  free : ∀ place, b.Target tree place → current.node? place ≠ some .folder

/-- What is named like an interface file stands where no declaration file goes. -/
theorem not_target_of_below (well : tree.WellFormed) {node : Node}
    (below : tree.StandsBelow b.working node file) :
    ¬ b.Target tree (names (absolute tree.here file)) := by
  obtain ⟨steps, name, -, suffix, -, hn, -⟩ := below.exists_steps well
  rintro ⟨other, -, goes⟩
  obtain ⟨above, target, place, suffix'⟩ := exists_of_outputPlace? well.here.isAbsolute goes
  rw [hn, ← List.append_assoc] at place
  obtain rfl := (List.append_singleton_inj.1 place).2
  exact not_suffix_outputEnding suffix suffix'

namespace OnTheWay

variable (good : b.GoodSources tree)
include good

theorem start : b.OnTheWay tree tree := by
  refine ⟨.refl tree _, ?_⟩
  rintro place ⟨file, source, goes⟩
  obtain ⟨out, place', -, goes', -, -, free⟩ := good.locate_output source
  rwa [Option.some.inj (goes.symm.trans goes')]

/-- **One source is treated**: its declaration file is written, and the batch
    goes on from a tree on the way. -/
theorem step (way : b.OnTheWay tree current) (source : b.Source tree file) :
    ∃ out next log, b.OnTheWay tree next ∧
      outputPath? tree.here file b.working b.outputFolder = some out ∧
      ∀ files, b.runFiles current (file :: files) = { b.runFiles next files with
        written := out :: (b.runFiles next files).written
        log := log ++ (b.runFiles next files).log } := by
  obtain ⟨out, place, target, goes, located, named, -⟩ := good.locate_output source
  have hits : b.Target tree place := ⟨file, source, goes⟩
  have free := way.free place hits
  obtain ⟨text, program, loaded, made⟩ := good.makes file source
  obtain ⟨content, below⟩ := source
  obtain ⟨-, -, -, -, -, -, stands⟩ := below.exists_steps good.well
  have loads := way.grown.load_eq good.well good.spares (not_target_of_below good.well below)
    (Option.isSome_of_eq_some stands)
  have here := way.grown.here
  have written := write_of_locate (here ▸ target) (way.grown.locate_mono located) named free text
  obtain ⟨log, eq⟩ := runFiles_cons_of_ok (loads.trans loaded) (here ▸ made) written
  have ne : place ≠ [] := by
    rintro rfl
    exact free rfl
  refine ⟨out, _, log, ⟨?_, fun other hits' => ?_⟩, target, eq⟩
  · exact way.grown.trans ((grown_put ne free).mono fun other same => same ▸ hits)
  · rw [node?_put ne]
    split
    · simp
    · exact way.free other hits'

/-- **Sources in front are treated**, one after the other. -/
theorem run (done : List Text) (sources : ∀ file ∈ done, b.Source tree file) :
    ∀ {current : FileTree}, b.OnTheWay tree current →
      ∃ next written log, b.OnTheWay tree next ∧
        written.map some =
          done.map (fun file => outputPath? tree.here file b.working b.outputFolder) ∧
        ∀ left, b.runFiles current (done ++ left) = { b.runFiles next left with
          written := written ++ (b.runFiles next left).written
          log := log ++ (b.runFiles next left).log } := by
  induction done with
  | nil => exact fun {current} way => ⟨current, [], [], way, rfl, fun _ => rfl⟩
  | cons file done ih =>
    intro current way
    obtain ⟨out, middle, log, way, target, eq⟩ := way.step good (sources file List.mem_cons_self)
    obtain ⟨next, written, more, way, targets, rest⟩ :=
      ih (fun other mem => sources other (List.mem_cons_of_mem _ mem)) way
    refine ⟨next, out :: written, log ++ more, way, ?_, fun left => ?_⟩
    · rw [List.map_cons, List.map_cons, target, targets]
    · rw [List.cons_append, eq, rest]
      simp only [List.cons_append, List.append_assoc]

/-- **A folder stops the batch**, whatever is behind it. -/
theorem stop (way : b.OnTheWay tree current) (below : tree.StandsBelow b.working .folder file)
    (left : List Text) : ∃ e, b.runFiles current (file :: left) =
      ⟨current, [], [.parsing (absolute tree.here file)],
        .crash (.load (.unreadable (absolute tree.here file) e))⟩ := by
  obtain ⟨-, -, -, -, -, -, stands⟩ := below.exists_steps good.well
  have here := way.grown.here
  have folder := way.grown.folder _ stands
  rw [← here] at folder
  obtain ⟨e, failed⟩ := load_of_folder (here ▸ good.well.here) folder
  refine ⟨e, ?_⟩
  rw [runFiles, failed, here]
  rfl

end OnTheWay

/-- The files in front of the first one that is no source. -/
theorem exists_sources (b : Batch) (tree : FileTree) (files : List Text) :
    ∃ done left, files = done ++ left ∧ (∀ file ∈ done, b.Source tree file) ∧
      ∀ file ∈ left.head?, ¬ b.Source tree file := by
  induction files with
  | nil => exact ⟨[], [], rfl, by simp, by simp⟩
  | cons file files ih =>
    by_cases source : b.Source tree file
    · obtain ⟨done, left, rfl, sources, first⟩ := ih
      exact ⟨file :: done, left, rfl, List.forall_mem_cons.2 ⟨source, sources⟩, first⟩
    · refine ⟨[], file :: files, rfl, by simp, ?_⟩
      rintro _ ⟨⟩
      exact source

/-- A batch treats the files that it finds, if there are any. -/
theorem run_eq {files : List Text} (found : b.files tree = .ok files) (ne : files ≠ []) :
    b.run tree = b.runFiles tree files := by
  cases files with
  | nil => exact absurd rfl ne
  | cons file files => rw [run, found]

/-- **A batch over good sources is done exactly if no folder is named like an
    interface file.**  It has then written one declaration file for each source,
    and else those in front of the first such folder, at which it stops. -/
theorem run_done_iff (good : b.GoodSources tree) (some_ : ∃ file, b.Source tree file) :
    ∃ files, b.files tree = .ok files ∧ files.Nodup ∧
      (∀ file, file ∈ files ↔
        b.Source tree file ∨ tree.StandsBelow b.working .folder file) ∧
      ((b.run tree).ending = .done ↔ ∀ file, ¬ tree.StandsBelow b.working .folder file) ∧
      ∃ done left, files = done ++ left ∧ (∀ file ∈ done, b.Source tree file) ∧
        (b.run tree).written.map some =
          done.map (fun file => outputPath? tree.here file b.working b.working) ∧
        ((b.run tree).ending = .done → left = []) ∧
        ((b.run tree).ending ≠ .done → ∃ folder others e, left = folder :: others ∧
          tree.StandsBelow b.working .folder folder ∧
          (b.run tree).ending =
            .crash (.load (.unreadable (absolute tree.here folder) e))) := by
  obtain ⟨files, found⟩ : ∃ files, b.files tree = .ok files :=
    (exists_files_iff good.well good.folder good.distinct).2 good.searchable
  refine ⟨files, found, nodup_files good.well good.distinct found,
    fun file => good.mem_files found, ?_⟩
  obtain ⟨first, source⟩ := some_
  rw [run_eq found (List.ne_nil_of_mem ((good.mem_files found).2 (.inl source)))]
  obtain ⟨done, left, rfl, sources, stray⟩ := exists_sources b tree files
  obtain ⟨next, written, log, way, targets, rest⟩ := OnTheWay.run good done sources (.start good)
  rw [rest left]
  rw [good.beside] at targets
  cases left with
  | nil =>
    refine ⟨iff_of_true rfl fun folder below => ?_, done, [], rfl, sources, ?_, fun _ => rfl, ?_⟩
    · have mem := (good.mem_files found).2 (.inr below)
      rw [List.append_nil] at mem
      exact (sources folder mem).not_folder good.well below
    · simpa [runFiles, Outcome.untouched] using targets
    · exact fun undone => absurd rfl undone
  | cons folder others =>
    have below : tree.StandsBelow b.working .folder folder :=
      ((good.mem_files found).1 (by simp)).resolve_left (stray folder rfl)
    obtain ⟨e, stops⟩ := way.stop good below others
    rw [stops]
    refine ⟨iff_of_false (by simp) fun none => none folder below, done, folder :: others, rfl,
      sources, ?_, ?_, fun _ => ⟨folder, others, e, rfl, below, rfl⟩⟩
    · simpa using targets
    · rintro ⟨⟩

/-! ## Good sources, computed -/

/-- The text that a batch makes for a file, if it makes one. -/
def text? (b : Batch) (tree : FileTree) (file : Text) : Option Text :=
  match tree.load file with
  | .ok program => (program.generate tree.here b.timestamp b.options).text.toOption
  | .error _ => none

theorem makes_iff {text : Text} : b.Makes tree file text ↔ b.text? tree file = some text := by
  unfold Makes text?
  cases tree.load file with
  | error e => simp
  | ok program =>
    cases made : (program.generate tree.here b.timestamp b.options).text with
    | error e => simp [made, Except.toOption]
    | ok text' => simp [made, Except.toOption]

/-- What is found is a folder, or a file that can be made and written. -/
def ready (b : Batch) (tree : FileTree) (path : Text) : Bool :=
  (tree.node? (names (absolute tree.here path)) matches some .folder) ||
    (b.text? tree path).isSome &&
      (outputPath? tree.here path b.working b.working).all fun out =>
        !tree.isFolder out && out.byteCount ≤ pathLimit && (fileName out).byteCount ≤ nameLimit

theorem GoodSources.of_ready {files : List Text} (well : tree.WellFormed)
    (distinct : tree.nodes.keys.Nodup) (beside : b.outputFolder = b.working)
    (folder : tree.isFolder b.working = true) (found : b.files tree = .ok files)
    (allReady : ∀ file ∈ files, b.ready tree file = true)
    (spared : ∀ place ∈ tree.includedPlaces, some place ∉ files.map (b.outputPlace? tree.here)) :
    b.GoodSources tree := by
  have mem {path : Text} (source : b.Source tree path) : path ∈ files := by
    obtain ⟨content, below⟩ := source
    exact (mem_files_iff well folder found).2 ⟨_, below⟩
  have isReady {path : Text} (source : b.Source tree path) : (b.text? tree path).isSome = true ∧
      ∀ out, outputPath? tree.here path b.working b.working = some out →
        tree.isFolder out = false ∧ out.byteCount ≤ pathLimit ∧
          (fileName out).byteCount ≤ nameLimit := by
    have checked := allReady path (mem source)
    obtain ⟨content, below⟩ := source
    obtain ⟨-, -, -, -, -, -, stands⟩ := below.exists_steps well
    simpa [ready, stands, Option.all_eq_true, and_assoc] using checked
  refine ⟨well, distinct, beside, folder, ?_, ?_, ?_, ?_⟩
  · exact (exists_files_iff well folder distinct).1 ⟨files, found⟩
  · intro path source
    obtain ⟨text, eq⟩ := Option.isSome_iff_exists.1 (isReady source).1
    exact ⟨text, makes_iff.2 eq⟩
  · refine spares_of_includedPlaces ?_
    rintro place included ⟨path, source, goes⟩
    exact spared place included (goes ▸ List.mem_map_of_mem (mem source))
  · intro path source
    exact (isReady source).2

/-- Two interface files, one of them in a folder of its own, among other things. -/
def amongOthers : FileTree :=
  { here := "/w"
    nodes := [
      (["w".toList], .folder), (["w".toList, "idl".toList], .folder),
      (["w".toList, "idl".toList, "a.js.flow".toList], .file "old".toUTF8),
      (["w".toList, "idl".toList, "a.thrift".toList], .file "include 'sub/b.thrift'".toUTF8),
      (["w".toList, "idl".toList, "a.thrift.bak".toList], .file ⟨#[255]⟩),
      (["w".toList, "idl".toList, "sub".toList], .folder),
      (["w".toList, "idl".toList, "sub".toList, "b.thrift".toList], .file "enum E { A }".toUTF8),
      (["w".toList, "idl".toList, "thrift".toList], .folder)] }

theorem run_done_iff_amongOthers : inPlace.GoodSources amongOthers ∧
    (∃ file, inPlace.Source amongOthers file) ∧
    (inPlace.run amongOthers).ending = .done ∧
    (inPlace.run amongOthers).written = ["idl/a.js.flow", "idl/sub/b.js.flow"] := by
  have well : amongOthers.WellFormed := by decide
  have folder : amongOthers.isFolder inPlace.working = true := by decide +kernel
  have located : amongOthers.locate (tidy inPlace.working) = .ok ["w".toList, "idl".toList] := by
    decide +kernel
  have stands : amongOthers.node? ["w".toList, "idl".toList] = some .folder :=
    well.folder ["w".toList, "idl".toList] "sub" (by decide)
  have found : inPlace.files amongOthers = .ok ["idl/a.thrift", "idl/sub/b.thrift"] := by
    rw [files, findEnding]
    simp only [located, stands]
    rw [if_neg (by decide +kernel), List.mergeSort_of_pairwise (by decide +kernel)]
    decide +kernel
  have good : inPlace.GoodSources amongOthers :=
    .of_ready well (by decide) rfl folder found (by decide +kernel) (by decide +kernel)
  have some_ : ∃ file, inPlace.Source amongOthers file :=
    ⟨"idl/a.thrift", _, [], "a.thrift", rfl, by decide, by decide⟩
  obtain ⟨files, found', -, all, isDone, done, left, cut, -, written, ends, -⟩ :=
    run_done_iff good some_
  obtain rfl := Except.ok.inj (found.symm.trans found')
  have plain : ∀ file ∈ ["idl/a.thrift".toList, "idl/sub/b.thrift".toList],
      (amongOthers.node? (names (absolute "/w" file)) matches some .folder) = false := by
    decide +kernel
  have noFolder (file : Text) : ¬ amongOthers.StandsBelow inPlace.working .folder file := by
    intro below
    obtain ⟨-, -, -, -, -, -, stands⟩ := below.exists_steps well
    have no := plain file ((all file).2 (.inr below))
    rw [show names (absolute "/w" file) = names (absolute amongOthers.here file) from rfl,
      stands] at no
    cases no
  have ending := isDone.2 noFolder
  refine ⟨good, some_, ending, ?_⟩
  obtain rfl := ends ending
  rw [List.append_nil] at cut
  rw [← cut] at written
  exact List.map_injective_iff.2 (fun _ _ => Option.some.inj) (written.trans (by decide +kernel))

/-- A folder named like an interface file, between two interface files. -/
def strayFolder : FileTree :=
  { here := "/w"
    nodes := [
      (["w".toList], .folder), (["w".toList, "idl".toList], .folder),
      (["w".toList, "idl".toList, "a.thrift".toList], .file "".toUTF8),
      (["w".toList, "idl".toList, "x.thrift".toList], .folder),
      (["w".toList, "idl".toList, "z.thrift".toList], .file "".toUTF8)] }

/-- **A batch over good sources that is not done**: it stops at the folder, after
    it has written the first declaration file and before the last one. -/
theorem not_done_folder : inPlace.GoodSources strayFolder ∧
    inPlace.Source strayFolder "idl/a.thrift" ∧ inPlace.Source strayFolder "idl/z.thrift" ∧
    (inPlace.run strayFolder).ending =
      .crash (.load (.unreadable "/w/idl/x.thrift" .isFolder)) ∧
    (inPlace.run strayFolder).written = ["idl/a.js.flow"] := by
  have well : strayFolder.WellFormed := by decide
  have folder : strayFolder.isFolder inPlace.working = true := by decide +kernel
  have located : strayFolder.locate (tidy inPlace.working) = .ok ["w".toList, "idl".toList] := by
    decide +kernel
  have stands : strayFolder.node? ["w".toList, "idl".toList] = some .folder :=
    well.folder ["w".toList, "idl".toList] "a.thrift" (by decide)
  have found : inPlace.files strayFolder =
      .ok ["idl/a.thrift", "idl/x.thrift", "idl/z.thrift"] := by
    rw [files, findEnding]
    simp only [located, stands]
    rw [if_neg (by decide +kernel), List.mergeSort_of_pairwise (by decide +kernel)]
    decide +kernel
  refine ⟨.of_ready well (by decide) rfl folder found (by decide +kernel) (by decide +kernel),
    ⟨_, [], "a.thrift", rfl, by decide, by decide⟩,
    ⟨_, [], "z.thrift", rfl, by decide, by decide⟩, ?_⟩
  rw [run, found]
  decide +kernel

end Batch

end IdlFlow
