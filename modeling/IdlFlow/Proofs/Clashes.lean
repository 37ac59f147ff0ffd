/-
  Interface files that share a declaration file.

  * `outputName name`: the name of the declaration file for an interface file of
    that name;
  * `Clash p q`: the path `p` has only dots in front of its ending, and `q` is `p`
    with the ending once more;
  * `SharesOutput p q`: the paths are the same, or clash one way or the other.

  Main statement: of the files that are found below a folder, two have one output
  path exactly if they share their declaration file in this sense
  (`output_eq_iff`).  There are such files (`shared_output_dots`).
-/
import IdlFlow.Proofs.Batches
import IdlFlow.Proofs.OutputPaths

namespace IdlFlow

open IdlFlow.Path

/-! ## Names of declaration files -/

/-- The name of the declaration file for an interface file of the name. -/
def outputName (name : Text) : Text := (splitEnding name).1 ++ outputEnding

/-- The first has no stem, and the second is the first with the ending once
    more. -/
def Clash (p q : Text) : Prop :=
  ¬ HasStem Import.sourceEnding p ∧ q = p ++ Import.sourceEnding

/-- The paths are the same or clash. -/
def SharesOutput (p q : Text) : Prop := p = q ∨ Clash p q ∨ Clash q p

namespace Path

variable {path here start name s ending : Text} {names others : List Text}

theorem isPrefix_splitEnding (path : Text) : (splitEnding path).1 <+: path := by
  unfold splitEnding
  split
  · split
    · exact List.prefix_rfl
    · exact List.take_prefix _ _
  · exact List.prefix_rfl

theorem fileName_of_no_slash (free : slash ∉ name) : fileName name = name := by
  rw [fileName, split_of_no_slash free]

/-- The ending of a path is that of its last name. -/
theorem splitEnding_ofNames (free : slash ∉ name) :
    (splitEnding (ofNames (names ++ [name]))).1 = ofNames (names ++ [(splitEnding name).1]) := by
  rw [splitEnding, splitEnding, fileName_ofNames free, fileName_of_no_slash free]
  cases cut : Text.cutLast '.' name with
  | none => rfl
  | some parts =>
    obtain ⟨stem, ending⟩ := parts
    obtain rfl := Text.append_of_cutLast cut
    by_cases dots : stem.all (· = '.') = true
    · simp only [dots, if_true]
    · have front (s : Text) :
          (s ++ '.' :: ending).take ((s ++ '.' :: ending).length - (ending.length + 1)) = s := by
        rw [List.length_append, List.length_cons, Nat.add_sub_cancel, List.take_left]
      dsimp only
      rw [if_neg dots, if_neg dots, ← ofNames_append, front, front]

theorem hasStem_iff {stem : Text} (free : slash ∉ stem ++ ending) :
    HasStem ending (stem ++ ending) ↔ ∃ c ∈ stem, c ≠ '.' := by
  constructor
  · rintro ⟨other, last, more⟩
    rw [fileName_of_no_slash free] at last
    rwa [List.append_cancel_right last]
  · intro more
    exact ⟨stem, fileName_of_no_slash free, more⟩

theorem join_append (relative : isAbsolute s = false) (ne : s ≠ []) (start t : Text) :
    join start s ++ t = join start (s ++ t) := by
  have head : isAbsolute (s ++ t) = false := by
    rwa [isAbsolute, List.head?_append_of_ne_nil _ ne]
  unfold join
  rw [relative, head]
  split
  · contradiction
  · split
    · exact List.append_assoc ..
    · exact List.append_assoc ..

/-- Paths that end in the steps they are made of tell these. -/
theorem inj_of_names (path : List Text → Text) {base : List Text}
    (hn : Path.names (path names) = base ++ names)
    (ho : Path.names (path others) = base ++ others) :
    path names = path others ↔ names = others := by
  constructor
  · intro same
    have cut := congrArg Path.names same
    rwa [hn, ho, List.append_cancel_left_eq] at cut
  · rintro rfl
    rfl

theorem names_normalize_join (proper : ∀ name ∈ names, Proper name) :
    Path.names (normalize (join start (ofNames names))) =
      collapse (isAbsolute start) (Path.names start) ++ names := by
  have kept : ∀ name ∈ names, Kept name := fun name mem => (proper name mem).kept
  have relative := isAbsolute_ofNames kept
  rw [names_normalize, isAbsolute_congr (root_join relative), names_join relative,
    names_ofNames kept, collapse_append fun name mem => (proper name mem).ne_parent]

theorem names_absolute_join (h : isAbsolute here = true) (proper : ∀ name ∈ names, Proper name) :
    Path.names (absolute here (join start (ofNames names))) =
      Path.names (absolute here start) ++ names := by
  have kept : ∀ name ∈ names, Kept name := fun name mem => (proper name mem).kept
  have relative := isAbsolute_ofNames kept
  refine (absolute_of_below h (root_join relative) ?_ fun name mem => (proper name mem).ne_parent).2
  rw [names_join relative, names_ofNames kept]

end Path

section Names

variable {stem name other : Text}

theorem outputName_of_stem (free : slash ∉ stem) (more : ∃ c ∈ stem, c ≠ '.') :
    outputName (stem ++ Import.sourceEnding) = stem ++ outputEnding := by
  have ending : Import.sourceEnding = '.' :: "thrift".toList := rfl
  rw [outputName, ending, splitEnding_append (by decide) (by decide)]
  rwa [fileName_of_no_slash free]

theorem outputName_of_dots (dots : ¬ ∃ c ∈ stem, c ≠ '.') :
    outputName (stem ++ Import.sourceEnding) = stem ++ Import.sourceEnding ++ outputEnding := by
  have all : ∀ c ∈ stem, c = '.' := by simpa using dots
  have ending : Import.sourceEnding = '.' :: "thrift".toList := rfl
  have free : slash ∉ stem ++ Import.sourceEnding := by
    intro mem
    rcases List.mem_append.1 mem with mem | mem
    · exact absurd (all _ mem) (by decide)
    · exact absurd mem (by decide)
  have single : stem.all (· = '.') = true := by simpa using all
  rw [ending] at free
  rw [outputName, splitEnding, ending, fileName_of_no_slash free,
    Text.cutLast_append (by decide)]
  dsimp only
  rw [if_pos single]

theorem proper_outputName (free : slash ∉ name) : Proper (outputName name) :=
  Batch.proper_append_outputEnding fun mem => free ((isPrefix_splitEnding name).subset mem)

/-- The names that lead to the declaration file of an interface file. -/
theorem proper_of_mem_output {steps : List Text} (proper : ∀ step ∈ steps ++ [name], Proper step) :
    ∀ step ∈ steps ++ [outputName name], Proper step := by
  intro step mem
  rcases List.mem_append.1 mem with mem | mem
  · exact proper step (List.mem_append_left _ mem)
  · rw [List.mem_singleton.1 mem]
    exact proper_outputName (proper name (by simp)).no_slash

theorem SharesOutput.symm (h : SharesOutput name other) : SharesOutput other name :=
  h.imp Eq.symm Or.symm

/-- A name with a stem and one without share their output if the stem is the
    other name. -/
theorem sharesOutput_iff_of_stem {dots : Text} (free : slash ∉ stem ++ Import.sourceEnding)
    (free' : slash ∉ dots ++ Import.sourceEnding) (more : ∃ c ∈ stem, c ≠ '.')
    (none : ¬ ∃ c ∈ dots, c ≠ '.') :
    SharesOutput (stem ++ Import.sourceEnding) (dots ++ Import.sourceEnding) ↔
      stem = dots ++ Import.sourceEnding := by
  unfold SharesOutput Clash
  rw [hasStem_iff free, hasStem_iff free', List.append_left_inj]
  constructor
  · rintro (rfl | ⟨no, -⟩ | ⟨-, eq⟩)
    · exact absurd more none
    · exact absurd more no
    · exact List.append_cancel_right eq
  · intro eq
    exact .inr (.inr ⟨none, congrArg (· ++ Import.sourceEnding) eq⟩)

/-- **Two names have one name of a declaration file** if they are the same or
    clash. -/
theorem outputName_eq_iff (hn : Import.sourceEnding <:+ name) (ho : Import.sourceEnding <:+ other)
    (free : slash ∉ name) (free' : slash ∉ other) :
    outputName name = outputName other ↔ SharesOutput name other := by
  obtain ⟨s, rfl⟩ := hn
  obtain ⟨t, rfl⟩ := ho
  have hs : slash ∉ s := fun mem => free (List.mem_append_left _ mem)
  have ht : slash ∉ t := fun mem => free' (List.mem_append_left _ mem)
  by_cases more : ∃ c ∈ s, c ≠ '.'
  · rw [outputName_of_stem hs more]
    by_cases more' : ∃ c ∈ t, c ≠ '.'
    · rw [outputName_of_stem ht more', List.append_left_inj]
      unfold SharesOutput Clash
      rw [hasStem_iff free, hasStem_iff free', List.append_left_inj]
      refine ⟨.inl, ?_⟩
      rintro (eq | ⟨none, -⟩ | ⟨none, -⟩)
      · exact eq
      · exact absurd more none
      · exact absurd more' none
    · rw [outputName_of_dots more', List.append_left_inj,
        sharesOutput_iff_of_stem free free' more more']
  · rw [outputName_of_dots more]
    by_cases more' : ∃ c ∈ t, c ≠ '.'
    · rw [outputName_of_stem ht more', List.append_left_inj, eq_comm,
        ← sharesOutput_iff_of_stem free' free more' more]
      exact ⟨.symm, .symm⟩
    · rw [outputName_of_dots more', List.append_left_inj]
      refine ⟨.inl, ?_⟩
      -- With the ending once more, a name has a stem.
      have apart {u v : Text} (dots : ¬ ∃ c ∈ v, c ≠ '.') :
          v ++ Import.sourceEnding ≠ u ++ Import.sourceEnding ++ Import.sourceEnding := by
        intro eq
        refine dots ⟨'t', ?_, by decide⟩
        rw [List.append_cancel_right eq]
        exact List.mem_append_right _ (by decide)
      rintro (eq | ⟨-, eq⟩ | ⟨-, eq⟩)
      · exact eq
      · exact absurd eq (apart more')
      · exact absurd eq (apart more)

end Names

/-! ## Files that are found -/

namespace FileTree

variable {folder name ending : Text} {steps others : List Text}

theorem pathBelow_append (kept : ∀ step ∈ steps ++ [name], Kept step) (t : Text) :
    pathBelow folder (steps ++ [name]) ++ t = pathBelow folder (steps ++ [name ++ t]) := by
  have ne := ofNames_ne_nil (List.concat_ne_nil name steps) kept
  unfold pathBelow
  split
  · rw [ofNames_append]
  · rw [join_append (isAbsolute_ofNames kept) ne, ofNames_append]

theorem pathBelow_inj (hs : ∀ step ∈ steps, Kept step) (ho : ∀ step ∈ others, Kept step) :
    pathBelow (tidy folder) steps = pathBelow (tidy folder) others ↔ steps = others :=
  inj_of_names (pathBelow (tidy folder)) (names_pathBelow folder hs).2 (names_pathBelow folder ho).2

end FileTree

section Found

variable {tree : FileTree} {working file p q : Text} {files : List Text}

/-- **The output path of a file below the working folder**: the same steps below
    the output folder, and the name of its declaration file. -/
theorem outputPath?_of_below {here output name : Text} {steps : List Text} (ne : file ≠ [])
    (kept : ∀ step ∈ steps ++ [name], Kept step)
    (hn : names (absolute here file) = names (absolute here working) ++ (steps ++ [name])) :
    outputPath? here file working output =
      some (join output (ofNames (steps ++ [outputName name]))) := by
  rw [outputPath?, relative?_of_below ne (List.concat_ne_nil _ _) kept hn, Option.map_some,
    splitEnding_ofNames (kept name (by simp)).no_slash, ofNames_append]
  rfl

theorem exists_outputName (well : tree.WellFormed)
    (found : tree.findEnding working Import.sourceEnding = .ok files) (mem : file ∈ files) :
    ∃ steps name, (∀ step ∈ steps ++ [name], Proper step) ∧ Import.sourceEnding <:+ name ∧
      file = FileTree.pathBelow (tidy working) (steps ++ [name]) ∧
      ∀ output, outputPath? tree.here file working output =
        some (join output (ofNames (steps ++ [outputName name]))) := by
  obtain ⟨steps, name, proper, suffix, eq, last, -, hn, -⟩ := well.exists_steps found mem
  have kept : ∀ step ∈ steps ++ [name], Kept step := fun step mem => (proper step mem).kept
  have some_ : file ≠ [] := by
    rintro rfl
    exact (kept name (by simp)).ne_nil last.symm
  exact ⟨steps, name, proper, suffix, eq, fun output => outputPath?_of_below some_ kept hn⟩

/-- Paths below one folder share their output if they lead through the same
    folders to names that do. -/
theorem sharesOutput_pathBelow {steps others : List Text} {name other : Text}
    (hs : ∀ step ∈ steps ++ [name], Kept step) (ho : ∀ step ∈ others ++ [other], Kept step) :
    SharesOutput (FileTree.pathBelow (tidy working) (steps ++ [name]))
        (FileTree.pathBelow (tidy working) (others ++ [other])) ↔
      steps = others ∧ SharesOutput name other := by
  have hs' : ∀ step ∈ steps ++ [name ++ Import.sourceEnding], Kept step :=
    kept_concat (fun step mem => hs step (List.mem_append_left _ mem)) (hs name (by simp))
      (by decide)
  have ho' : ∀ step ∈ others ++ [other ++ Import.sourceEnding], Kept step :=
    kept_concat (fun step mem => ho step (List.mem_append_left _ mem)) (ho other (by simp))
      (by decide)
  have stem {names : List Text} {last : Text} (kept : ∀ step ∈ names ++ [last], Kept step) :
      HasStem Import.sourceEnding (FileTree.pathBelow (tidy working) (names ++ [last])) ↔
        HasStem Import.sourceEnding last := by
    unfold HasStem
    rw [FileTree.fileName_pathBelow kept, fileName_of_no_slash (kept last (by simp)).no_slash]
  unfold SharesOutput Clash
  rw [stem hs, stem ho, FileTree.pathBelow_append hs, FileTree.pathBelow_append ho,
    FileTree.pathBelow_inj hs ho, FileTree.pathBelow_inj ho hs', FileTree.pathBelow_inj hs ho']
  rw [List.append_singleton_inj, List.append_singleton_inj, List.append_singleton_inj]
  constructor
  · rintro (⟨rfl, eq⟩ | ⟨none, rfl, eq⟩ | ⟨none, rfl, eq⟩)
    · exact ⟨rfl, .inl eq⟩
    · exact ⟨rfl, .inr (.inl ⟨none, eq⟩)⟩
    · exact ⟨rfl, .inr (.inr ⟨none, eq⟩)⟩
  · rintro ⟨rfl, eq | ⟨none, eq⟩ | ⟨none, eq⟩⟩
    · exact .inl ⟨rfl, eq⟩
    · exact .inr (.inl ⟨none, rfl, eq⟩)
    · exact .inr (.inr ⟨none, rfl, eq⟩)

/-- **Two files have one output path exactly if they share their output**, by
    the text of the paths and by the places that they lead to. -/
theorem output_eq_iff (output : Text) (well : tree.WellFormed)
    (found : tree.findEnding working Import.sourceEnding = .ok files) (hp : p ∈ files)
    (hq : q ∈ files) :
    ∃ written written', outputPath? tree.here p working output = some written ∧
      outputPath? tree.here q working output = some written' ∧
      (normalize written = normalize written' ↔ SharesOutput p q) ∧
      (absolute tree.here written = absolute tree.here written' ↔ SharesOutput p q) := by
  obtain ⟨steps, name, proper, suffix, rfl, out⟩ := exists_outputName well found hp
  obtain ⟨others, other, proper', suffix', rfl, out'⟩ := exists_outputName well found hq
  have free : slash ∉ name := (proper name (by simp)).no_slash
  have free' : slash ∉ other := (proper' other (by simp)).no_slash
  have written := proper_of_mem_output proper
  have written' := proper_of_mem_output proper'
  have shares : steps ++ [outputName name] = others ++ [outputName other] ↔
      SharesOutput (FileTree.pathBelow (tidy working) (steps ++ [name]))
        (FileTree.pathBelow (tidy working) (others ++ [other])) := by
    rw [List.append_singleton_inj, outputName_eq_iff suffix suffix' free free',
      sharesOutput_pathBelow (fun step mem => (proper step mem).kept)
        fun step mem => (proper' step mem).kept]
  refine ⟨_, _, out output, out' output, ?_, ?_⟩
  · rw [← shares]
    exact inj_of_names (fun steps => normalize (join output (ofNames steps)))
      (names_normalize_join written) (names_normalize_join written')
  · rw [← shares]
    exact inj_of_names (fun steps => absolute tree.here (join output (ofNames steps)))
      (names_absolute_join well.here.isAbsolute written)
      (names_absolute_join well.here.isAbsolute written')

end Found

theorem output_eq_iff_sideBySide : sideBySide.WellFormed ∧
    ∃ files, sideBySide.findEnding "idl" Import.sourceEnding = .ok files ∧
      "idl/a/main.thrift".toList ∈ files ∧ "idl/b/types.v2.thrift".toList ∈ files ∧
      ∃ written written', outputPath? "/w" "idl/a/main.thrift" "idl" "out/../out" = some written ∧
        outputPath? "/w" "idl/b/types.v2.thrift" "idl" "out/../out" = some written' ∧
        normalize written ≠ normalize written' ∧
        absolute "/w" written ≠ absolute "/w" written' := by
  have well : sideBySide.WellFormed := by decide
  have isFolder : sideBySide.node? ["w".toList, "idl".toList] = some .folder :=
    well.folder ["w".toList, "idl".toList] "a" (by decide)
  have finds : (sideBySide.findEnding "idl" Import.sourceEnding matches .ok _) = true := by
    decide +kernel
  split at finds
  case h_2 => cases finds
  next files found =>
  have hp : "idl/a/main.thrift".toList ∈ files := (FileTree.mem_findEnding found).2
    ⟨["w".toList, "idl".toList], ["a".toList, "main.thrift".toList], by decide +kernel, isFolder,
      by decide, by decide, by decide⟩
  have hq : "idl/b/types.v2.thrift".toList ∈ files := (FileTree.mem_findEnding found).2
    ⟨["w".toList, "idl".toList], ["b".toList, "types.v2.thrift".toList], by decide +kernel,
      isFolder, by decide, by decide, by decide⟩
  have apart : ¬ SharesOutput "idl/a/main.thrift" "idl/b/types.v2.thrift" := by
    rintro (eq | ⟨-, eq⟩ | ⟨-, eq⟩)
    all_goals exact absurd eq (by decide)
  obtain ⟨written, written', out, out', normal, absolute⟩ :=
    output_eq_iff "out/../out" well found hp hq
  exact ⟨well, files, found, hp, hq, written, written', out, out',
    fun same => apart (normal.1 same), fun same => apart (absolute.1 same)⟩

/-- Two files below the working directory with only dots in front of the
    ending, one of them with the ending twice. -/
def dotted : FileTree :=
  { here := "/w"
    nodes := [
      (["w".toList], .folder), (["w".toList, "idl".toList], .folder),
      (["w".toList, "idl".toList, ".thrift".toList], .file "".toUTF8),
      (["w".toList, "idl".toList, ".thrift.thrift".toList], .file "".toUTF8)] }

/-- **Two files that are found have one output path.** -/
theorem shared_output_dots : dotted.WellFormed ∧ ∃ files written,
    dotted.findEnding "idl" Import.sourceEnding = .ok files ∧
    "idl/.thrift".toList ∈ files ∧ "idl/.thrift.thrift".toList ∈ files ∧
    "idl/.thrift".toList ≠ "idl/.thrift.thrift".toList ∧
    outputPath? dotted.here "idl/.thrift" "idl" "idl" = some written ∧
    outputPath? dotted.here "idl/.thrift.thrift" "idl" "idl" = some written := by
  have well : dotted.WellFormed := by decide
  have isFolder : dotted.node? ["w".toList, "idl".toList] = some .folder :=
    well.folder ["w".toList, "idl".toList] ".thrift" (by decide)
  have finds : (dotted.findEnding "idl" Import.sourceEnding matches .ok _) = true := by
    decide +kernel
  split at finds
  case h_2 => cases finds
  next files found =>
  refine ⟨well, files, "idl/.thrift.js.flow", found, ?_, ?_, by decide, by decide, by decide⟩
  · exact (FileTree.mem_findEnding found).2
      ⟨["w".toList, "idl".toList], [".thrift".toList], by decide +kernel, isFolder, by decide,
        by decide, by decide⟩
  · exact (FileTree.mem_findEnding found).2
      ⟨["w".toList, "idl".toList], [".thrift.thrift".toList], by decide +kernel, isFolder,
        by decide, by decide, by decide⟩

end IdlFlow
