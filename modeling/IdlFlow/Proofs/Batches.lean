/-
  What a batch does, told from the tree that it starts with.

  * `Batch.outputPlace?`: where the declaration file for an interface file goes;
  * `Batch.Makes`: the text that a batch makes for a file of a tree;
  * `Batch.Stops`: how a batch ends with some files left;
  * `Batch.Leaves`: what a batch leaves that has treated some files.

  Main statements: one step goes as it would in the first tree
  (`runFiles_cons`).  So if the declaration files have places of their own that
  no interface file includes, a batch writes the texts that it makes in the
  first tree for the files before the one it stops at, and leaves all other
  files as they were (`run_leaves`).
-/
import IdlFlow.CommandLine
import IdlFlow.Proofs.Growth

namespace IdlFlow

open IdlFlow.Path IdlFlow.FileTree

namespace Batch

/-- The place of the declaration file for a file; none for an empty path. -/
def outputPlace? (b : Batch) (here file : Text) : Option Place :=
  (outputPath? here file b.working b.outputFolder).map fun path => names (absolute here path)

/-- The text that a batch makes for a file of a tree. -/
def Makes (b : Batch) (tree : FileTree) (file text : Text) : Prop :=
  ∃ program, tree.load file = .ok program ∧
    (program.generate tree.here b.timestamp b.options).text = .ok text

/-- How a batch that began with `tree` ends in `last` with the files left, and
    what it has logged. -/
inductive Stops (b : Batch) (tree last : FileTree) :
    List Text → Ending → List LogEntry → Prop
  /-- No file is left. -/
  | done {log : List LogEntry} : Stops b tree last [] .done log
  /-- The sources of the first file left are at fault. -/
  | fatal {file message : Text} {files : List Text} {failure : LoadFailure}
      {log : List LogEntry} : tree.load file = .error failure →
      failure.cause.sourceMessage? = some message →
      Stops b tree last (file :: files) .fatal (log ++ [.fatal message])
  /-- The first file left cannot be loaded for another reason. -/
  | unloaded {file : Text} {files : List Text} {failure : LoadFailure} {log : List LogEntry} :
      tree.load file = .error failure → failure.cause.sourceMessage? = none →
      Stops b tree last (file :: files) (.crash (.load failure.cause)) log
  /-- The first file left has no declaration file. -/
  | unmade {file : Text} {files : List Text} {program : Program} {e : GenerateError}
      {log : List LogEntry} : tree.load file = .ok program →
      (program.generate tree.here b.timestamp b.options).text = .error e →
      Stops b tree last (file :: files) (.crash (.generate e)) log
  /-- The declaration file of the first file left cannot be written, but folders
      for it may have been made. -/
  | unwritten {before : FileTree} {file text : Text} {files : List Text} {e : FileError}
      {log : List LogEntry} : b.Makes tree file text →
      b.write before file text = (last, .error (.file e)) → Grown before last (fun _ => False) →
      Stops b tree last (file :: files) (.crash (.file e)) log

theorem Stops.append {b : Batch} {tree last : FileTree} {files : List Text} {ending : Ending}
    {log : List LogEntry} (h : b.Stops tree last files ending log) (before : List LogEntry) :
    b.Stops tree last files ending (before ++ log) := by
  cases h with
  | done => exact .done
  | fatal failed message =>
    rw [← List.append_assoc]
    exact .fatal failed message
  | unloaded failed message => exact .unloaded failed message
  | unmade loaded failed => exact .unmade loaded failed
  | unwritten makes failed grown => exact .unwritten makes failed grown

/-- A batch is done when no file is left, and only then is the exit code zero. -/
theorem Stops.ending_eq {b : Batch} {tree last : FileTree} {left : List Text} {ending : Ending}
    {log : List LogEntry} (h : b.Stops tree last left ending log) :
    (ending = .done ↔ left = []) ∧ ending.exitCode = if left = [] then 0 else 1 := by
  cases h <;> simp [Ending.exitCode]

/-! ## Places -/

section Places

variable {b : Batch} {tree new : FileTree} {here file text path : Text} {place : Place}

theorem proper_append_outputEnding {name : Text} (free : slash ∉ name) :
    Proper (name ++ outputEnding) := by
  have long : outputEnding.length ≤ (name ++ outputEnding).length := by
    rw [List.length_append]
    exact Nat.le_add_left _ _
  have apart {other : Text} (short : other.length < outputEnding.length) :
      name ++ outputEnding ≠ other := by
    rintro rfl
    exact absurd long (Nat.not_le_of_lt short)
  refine ⟨apart (by decide), apart (by decide), apart (by decide), fun mem => ?_⟩
  rcases List.mem_append.1 mem with mem | mem
  · exact free mem
  · exact absurd mem (by decide)

theorem exists_of_outputPlace? (base : isAbsolute here = true)
    (h : b.outputPlace? here file = some place) :
    ∃ above name, place = above ++ [name] ∧ outputEnding <:+ name := by
  obtain ⟨path, hp, rfl⟩ := Option.map_eq_some_iff.1 h
  obtain ⟨relative, -, joined⟩ := Option.map_eq_some_iff.1 hp
  have ending : outputEnding <:+ path := by
    rw [← joined]
    exact (List.suffix_append _ _).trans (suffix_join _ _)
  obtain ⟨stem, rfl⟩ := ending
  have last : fileName (stem ++ outputEnding) = fileName stem ++ outputEnding :=
    fileName_append (by decide)
  have proper := proper_append_outputEnding (no_slash_fileName stem)
  obtain ⟨above, eq⟩ := names_absolute_concat base (last ▸ proper)
  exact ⟨above, _, eq, last ▸ List.suffix_append _ _⟩

theorem exists_outputPath? (b : Batch) (here : Text) (ne : file ≠ []) :
    ∃ path, outputPath? here file b.working b.outputFolder = some path := by
  simp [outputPath?, relative?, ne]

/-! ## Steps -/

theorem write_eq_ok (normal : IsNormal tree.here) (h : b.write tree file text = (new, .ok path)) :
    outputPath? tree.here file b.working b.outputFolder = some path ∧
      Grown tree new (fun place => place = names (absolute tree.here path)) ∧
      new.node? (names (absolute tree.here path)) = some (.file (String.ofList text).toUTF8) := by
  unfold write at h
  have folders := grown_makeFolders tree (directory path)
  split at h
  · cases h
  next out target =>
  split at h
  · cases h
  next middle made =>
  split at h
  · cases h
  next last written =>
  obtain ⟨rfl, same⟩ := Prod.mk.inj h
  obtain rfl := Except.ok.inj same
  rw [made] at folders
  have first := grown_writeText (folders.here.symm ▸ normal) written
  rw [folders.here] at first
  exact ⟨target, (folders.mono fun _ => False.elim).trans first.1, first.2⟩

/-- A failing write leaves new folders at most. -/
theorem write_eq_error (ne : file ≠ []) {e : Crash}
    (h : b.write tree file text = (new, .error e)) :
    (∃ failure, e = .file failure) ∧ Grown tree new fun _ => False := by
  obtain ⟨out, target⟩ := exists_outputPath? b tree.here ne
  have folders := grown_makeFolders tree (directory out)
  rw [write, target] at h
  dsimp only at h
  split at h
  · next middle failure made =>
    cases h
    rw [made] at folders
    exact ⟨⟨failure, rfl⟩, folders⟩
  next middle made =>
  rw [made] at folders
  split at h
  · next failure written =>
    cases h
    exact ⟨⟨failure, rfl⟩, folders⟩
  · cases h

end Places

section Run

variable {b : Batch} {tree current : FileTree} {file : Text} {files : List Text}
  {outs : Place → Prop}

/-- A file that stands in a tree, apart from what a batch writes. -/
structure Treatable (tree : FileTree) (outs : Place → Prop) (file : Text) : Prop where
  ne_nil : file ≠ []
  stands : (tree.node? (names (absolute tree.here file))).isSome = true
  out : ¬ outs (names (absolute tree.here file))

/-- **One step of a batch**: it stops as it would in the first tree, or writes
    the text that it would make there and goes on. -/
theorem runFiles_cons (loads : current.load file = tree.load file)
    (here : current.here = tree.here) (ne : file ≠ []) (files : List Text) :
    (∃ last ending log, b.runFiles current (file :: files) = ⟨last, [], log, ending⟩ ∧
      Grown current last (fun _ => False) ∧ b.Stops tree last (file :: files) ending log) ∨
    ∃ text path next log, b.Makes tree file text ∧
      b.write current file text = (next, .ok path) ∧
      b.runFiles current (file :: files) = { b.runFiles next files with
        written := path :: (b.runFiles next files).written
        log := log ++ (b.runFiles next files).log } := by
  rw [runFiles, loads, here]
  have same := Grown.refl current fun _ => False
  cases loaded : tree.load file with
  | error failure =>
    cases message : failure.cause.sourceMessage? with
    | some text =>
      exact .inl ⟨_, _, _, by simp only [message]; rfl, same, .fatal loaded message⟩
    | none => exact .inl ⟨_, _, _, by simp only [message]; rfl, same, .unloaded loaded message⟩
  | ok program =>
    dsimp only
    cases made : (program.generate tree.here b.timestamp b.options).text with
    | error e => exact .inl ⟨_, _, _, rfl, same, .unmade loaded made⟩
    | ok text =>
      have makes : b.Makes tree file text := ⟨program, loaded, made⟩
      dsimp only
      cases written : b.write current file text with
      | mk last result =>
        cases result with
        | error e =>
          obtain ⟨⟨failure, rfl⟩, grown⟩ := write_eq_error ne written
          exact .inl ⟨_, _, _, rfl, grown, .unwritten makes written grown⟩
        | ok path => exact .inr ⟨text, path, last, _, makes, written, rfl⟩

/-- What a batch leaves that goes on with `current` where it began with `tree`:
    the texts of the files before the one that it stops at, and nothing else. -/
structure Leaves (b : Batch) (tree current : FileTree) (done left texts : List Text)
    (outcome : Outcome) : Prop where
  written : outcome.written.map some =
    done.map fun file => outputPath? tree.here file b.working b.outputFolder
  makes : List.Forall₂ (b.Makes tree) done texts
  holds : List.Forall₂ (fun file text => ∃ place, b.outputPlace? tree.here file = some place ∧
    outcome.tree.node? place = some (.file (String.ofList text).toUTF8)) done texts
  grown : Grown current outcome.tree fun place => some place ∈ done.map (b.outputPlace? tree.here)
  stops : b.Stops tree outcome.tree left outcome.ending outcome.log

/-- **What a batch leaves**, from any tree on its way. -/
theorem runFiles_leaves (well : tree.WellFormed) (spares : tree.Spares outs)
    (grown : Grown tree current outs) (ready : ∀ file ∈ files, Treatable tree outs file)
    (inside : ∀ place, some place ∈ files.map (b.outputPlace? tree.here) → outs place)
    (apart : (files.map (b.outputPlace? tree.here)).Nodup) :
    ∃ done left texts, files = done ++ left ∧
      b.Leaves tree current done left texts (b.runFiles current files) := by
  -- by the files left: what was written before touches output places only,
  -- so loading does not see it
  induction files generalizing current with
  | nil => exact ⟨[], [], [], rfl, rfl, .nil, .nil, .refl current _, .done⟩
  | cons file files ih =>
    have first := ready file List.mem_cons_self
    have loads := grown.load_eq well spares first.out first.stands
    rcases runFiles_cons loads grown.here first.ne_nil files with
      ⟨last, ending, log, eq, folders, stops⟩ | ⟨text, path, next, log, makes, writes, eq⟩
    · refine ⟨[], file :: files, [], rfl, ?_⟩
      rw [eq]
      exact ⟨rfl, .nil, .nil, folders.mono fun _ => False.elim, stops⟩
    · obtain ⟨target, step, stands⟩ := write_eq_ok (grown.here ▸ well.here) writes
      rw [grown.here] at target step stands
      have place : b.outputPlace? tree.here file = some (names (absolute tree.here path)) := by
        rw [outputPlace?, target, Option.map_some]
      rw [List.map_cons, List.nodup_cons, place] at apart
      have further : Grown tree next outs := grown.trans (step.mono fun other eq =>
        inside other (by rw [List.map_cons, place, eq]; exact List.mem_cons_self))
      obtain ⟨done, left, texts, rfl, others⟩ := ih further
        (fun file mem => ready file (List.mem_cons_of_mem _ mem))
        (fun other mem => inside other (List.mem_cons_of_mem _ mem)) apart.2
      have later : some (names (absolute tree.here path)) ∉ done.map (b.outputPlace? tree.here) :=
        fun mem => apart.1 (by rw [List.map_append]; exact List.mem_append_left _ mem)
      refine ⟨file :: done, left, text :: texts, rfl, ?_⟩
      rw [eq]
      refine ⟨?_, .cons makes others.makes, .cons ?_ others.holds, ?_, others.stops.append log⟩
      · rw [List.map_cons, List.map_cons, target, others.written]
      · exact ⟨_, place, others.grown.kept _ later _ stands⟩
      · refine (step.mono fun other eq => ?_).trans (others.grown.mono fun other mem => ?_)
        · rw [List.map_cons, place, eq]
          exact List.mem_cons_self
        · exact List.mem_cons_of_mem _ mem

/-- No name has both endings. -/
theorem not_suffix_outputEnding {name : Text} (suffix : Import.sourceEnding <:+ name) :
    ¬ outputEnding <:+ name := by
  intro other
  rcases List.suffix_or_suffix_of_suffix suffix other with inside | inside
  · exact absurd inside (by decide)
  · exact absurd inside (by decide)

/-- Interface files stand in their tree, and none where a declaration file goes. -/
theorem treatable_of_mem (well : tree.WellFormed) (found : b.files tree = .ok files)
    (mem : file ∈ files) : Treatable tree
      (fun place => some place ∈ files.map (b.outputPlace? tree.here)) file := by
  obtain ⟨steps, name, proper, ending, -, last, -, names_eq, stands⟩ :=
    well.exists_steps found mem
  have ne : name ≠ [] := (proper name (by simp)).ne_nil
  refine ⟨?_, stands, fun out => ?_⟩
  · rintro rfl
    exact ne last.symm
  · obtain ⟨other, -, eq⟩ := List.mem_map.1 out
    obtain ⟨above, target, place, suffix⟩ := exists_of_outputPlace? well.here.isAbsolute eq
    rw [names_eq, ← List.append_assoc] at place
    obtain ⟨-, same⟩ := List.append_inj' place rfl
    obtain rfl := List.singleton_inj.1 same
    exact not_suffix_outputEnding ending suffix

/-- **A batch treats a prefix of its files as they are in the first tree**: it
    finds them in ascending order; for those before the one that it stops at,
    it writes the texts that it makes in the first tree; all other files are as
    they were; and it stops as it would in the first tree. -/
theorem run_leaves (well : tree.WellFormed) (found : b.files tree = .ok files)
    (apart : (files.map (b.outputPlace? tree.here)).Nodup)
    (spares : tree.Spares fun place => some place ∈ files.map (b.outputPlace? tree.here)) :
    (files.Pairwise fun file later => Text.notAfter file later = true ∧ file ≠ later) ∧
      (files = [] → b.run tree = .untouched tree .noFiles) ∧
      (files ≠ [] → ∃ done left texts, files = done ++ left ∧
        ((b.run tree).ending = .done ↔ left = []) ∧
        (b.run tree).ending.exitCode = (if left = [] then 0 else 1) ∧
        b.Leaves tree tree done left texts (b.run tree) ∧
        ∀ place, some place ∉ done.map (b.outputPlace? tree.here) → ∀ content,
          (b.run tree).tree.node? place = some (.file content) ↔
            tree.node? place = some (.file content)) := by
  refine ⟨?_, ?_, fun ne => ?_⟩
  · refine (findEnding_ascending found).and ((List.pairwise_map.1 apart).imp fun ne eq => ?_)
    exact ne (congrArg _ eq)
  · rintro rfl
    rw [run, found]
  · have eq : b.run tree = b.runFiles tree files := by
      rw [run, found]
      split
      · next failed => cases failed
      · next none => exact absurd (Except.ok.inj none) ne
      · next some_ => rw [Except.ok.inj some_]
    obtain ⟨done, left, texts, cut, leaves⟩ := runFiles_leaves well spares (.refl tree _)
      (fun _ => treatable_of_mem well found) (fun _ mem => mem) apart
    rw [eq]
    obtain ⟨isDone, code⟩ := leaves.stops.ending_eq
    exact ⟨done, left, texts, cut, isDone, code, leaves,
      fun place out content => leaves.grown.file_iff out content⟩

end Run

/-- Two interface files, one including the other, and behind them one with a fault. -/
def faultBehind : FileTree :=
  { here := "/w"
    nodes := [
      (["w".toList], .folder), (["w".toList, "idl".toList], .folder),
      (["w".toList, "idl".toList, "a.thrift".toList], .file "include 'b.thrift'".toUTF8),
      (["w".toList, "idl".toList, "b.thrift".toList], .file "enum E { A }".toUTF8),
      (["w".toList, "idl".toList, "c.thrift".toList], .file "enum".toUTF8)] }

/-- The declaration files go beside the interface files. -/
def inPlace : Batch := ⟨"idl", none, .default, "now"⟩

theorem run_leaves_faultBehind : faultBehind.WellFormed ∧
    inPlace.files faultBehind = .ok ["idl/a.thrift", "idl/b.thrift", "idl/c.thrift"] ∧
    ∃ texts, (inPlace.run faultBehind).ending = .fatal ∧ inPlace.Leaves faultBehind faultBehind
      ["idl/a.thrift", "idl/b.thrift"] ["idl/c.thrift"] texts (inPlace.run faultBehind) := by
  have well : faultBehind.WellFormed := by decide
  have located : faultBehind.locate (tidy inPlace.working) =
    .ok ["w".toList, "idl".toList] := by decide +kernel
  have isFolder : faultBehind.node? ["w".toList, "idl".toList] = some .folder :=
    well.folder ["w".toList, "idl".toList] "a.thrift" (by decide)
  have found : inPlace.files faultBehind =
      .ok ["idl/a.thrift", "idl/b.thrift", "idl/c.thrift"] := by
    rw [files, findEnding]
    simp only [located, isFolder]
    rw [if_neg (by decide +kernel), List.mergeSort_of_pairwise (by decide +kernel)]
    decide +kernel
  have apart : (["idl/a.thrift", "idl/b.thrift", "idl/c.thrift"].map
    (inPlace.outputPlace? faultBehind.here)).Nodup := by decide +kernel
  have spares : faultBehind.Spares fun place => some place ∈
      ["idl/a.thrift", "idl/b.thrift", "idl/c.thrift"].map
        (inPlace.outputPlace? faultBehind.here) :=
    spares_of_includedPlaces (by decide +kernel)
  have writes : (inPlace.run faultBehind).written = ["idl/a.js.flow", "idl/b.js.flow"] ∧
      (inPlace.run faultBehind).ending = .fatal := by
    rw [run, found]
    decide +kernel
  obtain ⟨done, left, texts, cut, -, -, leaves, -⟩ :=
    (run_leaves well found apart spares).2.2 (by simp)
  have two : done.length = 2 := by
    have same := congrArg List.length leaves.written
    rw [writes.1] at same
    simpa using same.symm
  have behind : ["idl/a.thrift".toList, "idl/b.thrift".toList] ++ ["idl/c.thrift".toList] =
    done ++ left := cut
  obtain ⟨rfl, rfl⟩ := List.append_inj behind two.symm
  exact ⟨well, found, texts, writes.2, leaves⟩

end Batch

end IdlFlow
