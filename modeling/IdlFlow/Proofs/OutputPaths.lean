/-
  Declaration files and the modules that import them.

  * `Path.HasStem`: a name with more than dots in front of its ending.

  Main statement: every import of a declaration file has a line in the file,
  and the module in that line, read from where the file is written, names the
  declaration file of the imported document, and read from the interface file,
  the document itself (`import_names_output`).
-/
import IdlFlow.Proofs.Generation
import IdlFlow.Proofs.Modules

namespace IdlFlow

open IdlFlow.Path

/-- The last name has the ending, and more than dots in front of it. -/
def Path.HasStem (ending path : Text) : Prop :=
  ∃ stem, fileName path = stem ++ ending ∧ ∃ c ∈ stem, c ≠ '.'

/-- What stands in front of the ending of a proper name, if it is more than dots. -/
theorem Path.Proper.of_stem {stem ending : Text} (h : Proper (stem ++ ending))
    (more : ∃ c ∈ stem, c ≠ '.') : Proper stem := by
  obtain ⟨c, mem, ne⟩ := more
  refine ⟨?_, ?_, ?_, fun free => h.no_slash (List.mem_append_left _ free)⟩
  · rintro rfl
    cases mem
  · rintro rfl
    exact ne (List.mem_singleton.1 mem)
  · rintro rfl
    simp [parent, ne] at mem

/-! ## Output paths -/

section Found

variable {tree : FileTree} {working file : Text} {files : List Text}

/-- The output path of a file that is found: the same steps below the output
    folder, the last with another ending. -/
theorem exists_outputPath (well : tree.WellFormed)
    (found : tree.findEnding working Import.sourceEnding = .ok files) (mem : file ∈ files)
    (more : HasStem Import.sourceEnding file) : ∃ steps stem,
      (∀ step ∈ steps ++ [stem ++ Import.sourceEnding], Proper step) ∧
      (∃ c ∈ stem, c ≠ '.') ∧
      file = FileTree.pathBelow (tidy working) (steps ++ [stem ++ Import.sourceEnding]) ∧
      root (absolute tree.here file) = root (absolute tree.here working) ∧
      names (absolute tree.here file) = names (absolute tree.here working) ++
        (steps ++ [stem ++ Import.sourceEnding]) ∧
      ∀ output, outputPath? tree.here file working output =
        some (join output (ofNames (steps ++ [stem ++ outputEnding]))) := by
  obtain ⟨steps, name, proper, -, eq, last, hr, hn, -⟩ := well.exists_steps found mem
  obtain ⟨stem, hs, other⟩ := more
  obtain rfl : name = stem ++ Import.sourceEnding := last.symm.trans hs
  refine ⟨steps, stem, proper, other, eq, hr, hn, fun output => ?_⟩
  have kept : ∀ step ∈ steps ++ [stem ++ Import.sourceEnding], Kept step := fun step mem =>
    (proper step mem).kept
  have some_ : file ≠ [] := by
    rintro rfl
    exact (kept (stem ++ Import.sourceEnding) (by simp)).ne_nil last.symm
  have front : Proper (stem ++ Import.sourceEnding) := proper _ (by simp)
  have free := (front.of_stem other).no_slash
  have ending : Import.sourceEnding = '.' :: "thrift".toList := rfl
  rw [outputPath?, relative?_of_below some_ (List.concat_ne_nil _ _) kept hn, Option.map_some,
    ← ofNames_append, ending, splitEnding_append (by decide) (by decide), ofNames_append]
  rwa [fileName_ofNames free]

end Found

/-! ## Imports -/

section Module

variable {rel shared up down : List Text} {base path name last stem m ending : Text}

/-- A module, or what is left of it without the dot in front. -/
theorem module_cases (kept : ∀ name ∈ rel ++ [stem], Kept name)
    (h : m = (if rel = [] then "./" ++ stem else ofNames (rel ++ [stem])) ∨
      "./" ++ m = if rel = [] then "./" ++ stem else ofNames (rel ++ [stem])) :
    m = ofNames (rel ++ [stem]) ∨ m = "./" ++ ofNames (rel ++ [stem]) := by
  have alone : ofNames ([] ++ [stem]) = stem := by simp [ofNames]
  by_cases empty : rel = []
  · subst empty
    rw [if_pos rfl] at h
    rw [alone]
    exact h.symm.imp_left (List.append_cancel_left)
  · rw [if_neg empty] at h
    refine .inl (h.resolve_right fun dotted => ?_)
    -- no name of a module is a single dot
    have cut := splitOn_ofNames (List.append_ne_nil_of_right_ne_nil rel (by simp)) kept
    have dot : ("./" ++ m : Text) = current ++ slash :: m := rfl
    rw [← dotted, dot, Text.splitOn_append] at cut
    have mem : current ∈ rel ++ [stem] := by
      rw [← cut]
      exact List.mem_append_left _ List.mem_cons_self
    exact (kept current mem).ne_current rfl

/-- A module is relative, and an ending goes on with its last name. -/
theorem names_module (kept : ∀ name ∈ rel ++ [stem], Kept name)
    (h : m = ofNames (rel ++ [stem]) ∨ m = "./" ++ ofNames (rel ++ [stem]))
    (free : slash ∉ ending) :
    isAbsolute (m ++ ending) = false ∧ names (m ++ ending) = rel ++ [stem ++ ending] := by
  have front : ∀ name ∈ rel, Kept name := fun name mem => kept name (List.mem_append_left _ mem)
  have longer := kept_concat front (kept stem (by simp)) free
  rcases h with rfl | rfl
  · rw [ofNames_append]
    exact ⟨isAbsolute_ofNames longer, names_ofNames longer⟩
  · rw [List.append_assoc, ofNames_append]
    refine ⟨rfl, ?_⟩
    exact (names_current_append _).trans (names_ofNames longer)

/-- From the directory of a path below a base to another path below it. -/
theorem normalize_beside (relative : isAbsolute m = false)
    (hm : names m = (up.map fun _ => parent) ++ (down ++ [name])) (ne : ∀ step ∈ up, step ≠ parent)
    (kept : ∀ other ∈ shared ++ up ++ [last], Kept other)
    (kept' : ∀ other ∈ shared ++ down ++ [name], Kept other) :
    normalize (join (directory (join base (ofNames (shared ++ up ++ [last])))) m) =
      normalize (join base (ofNames (shared ++ down ++ [name]))) := by
  have origin : root (directory (join base (ofNames (shared ++ up ++ [last])))) = root base := by
    rw [root_directory, root_join (isAbsolute_ofNames kept)]
  have start : names (directory (join base (ofNames (shared ++ up ++ [last])))) =
      names base ++ shared ++ up := by
    rw [names_directory_join kept, List.append_assoc]
  have goal : names (ofNames (shared ++ down ++ [name])) = shared ++ (down ++ [name]) := by
    rw [names_ofNames kept', List.append_assoc]
  rw [normalize_join_climb relative start hm ne, origin, isAbsolute_congr origin,
    normalize_join_climb (isAbsolute_ofNames kept') (List.append_nil _).symm goal (by simp),
    List.append_assoc]
  rfl

/-- From the directory of a normal path to another one, but for its ending. -/
theorem normalize_beside_append {other : Text} {above : List Text} (normal : IsNormal path)
    (normal' : IsNormal other) (same : root path = root other)
    (hp : names path = above ++ (shared ++ up ++ [last]))
    (ho : names other = above ++ (shared ++ down ++ [stem ++ ending])) (ne : stem ≠ parent)
    (relative : isAbsolute m = false)
    (hm : names m = (up.map fun _ => parent) ++ (down ++ [stem])) :
    normalize (join (directory path) m) ++ ending = other := by
  have proper := normal'.eq_root_names.2.1
  rw [← List.append_assoc] at hp
  have start := (normal.fileName_eq hp).2
  rw [← List.append_assoc] at start
  have keptUp : ∀ step ∈ up, step ≠ parent := fun step mem =>
    (normal.eq_root_names.2.1 step (by simp [hp, mem])).ne_parent
  have down_ : ∀ step ∈ above ++ shared ++ (down ++ [stem]), step ≠ parent := by
    intro step mem
    simp only [List.mem_append, List.mem_singleton] at mem
    rcases mem with (mem | mem) | mem | rfl
    · exact (proper step (by simp [ho, mem])).ne_parent
    · exact (proper step (by simp [ho, mem])).ne_parent
    · exact (proper step (by simp [ho, mem])).ne_parent
    · exact ne
  have origin := (root_directory path).trans same
  have whole : above ++ shared ++ (down ++ [stem]) = above ++ shared ++ down ++ [stem] := by simp
  have goal : names other = above ++ shared ++ down ++ [stem ++ ending] := by simp [ho]
  rw [normalize_join_climb relative start hm keptUp, origin, collapse_eq_self down_,
    assemble_root normal'.eq_root_names.1, whole, List.append_assoc, ofNames_append, ← goal]
  exact normal'.eq_root_names.2.2.symm

end Module

/-- **An import names the declaration file of its document.** -/
theorem import_names_output (output : Text) {tree : FileTree} (well : tree.WellFormed)
    {working file other : Text} {files : List Text} {program : Program}
    (found : tree.findEnding working Import.sourceEnding = .ok files)
    (hf : file ∈ files) (ho : other ∈ files) (ne : file ≠ other)
    (stem : HasStem Import.sourceEnding file) (stem' : HasStem Import.sourceEnding other)
    (loaded : tree.load file = .ok program)
    (reached : absolute tree.here other ∈ program.paths) :
    ∃ imports written written', program.imports? tree.here = some imports ∧
      outputPath? tree.here file working output = some written ∧
      outputPath? tree.here other working output = some written' ∧
      (∃ i, (absolute tree.here other, i) ∈ program.imported imports) ∧
      (∀ timestamp options text, (program.generate tree.here timestamp options).text = .ok text →
        (∃ texts, text = Layout.format
          (DeclarationFile.text ⟨timestamp, options.source program, imports, texts⟩)) ∧
        ∀ i, (absolute tree.here other, i) ∈ program.imported imports → Layout.Unbroken i.text →
          ∃ depth, Layout.indent depth
            ("import * as " ++ i.binding ++ " from '" ++ i.module ++ ".js';") ∈ Text.lines text) ∧
      ∀ i, (absolute tree.here other, i) ∈ program.imported imports →
        ∀ m, m = i.module ∨ "./" ++ m = i.module →
          normalize (join (directory written) (m ++ outputEnding)) = normalize written' ∧
          normalize (join (directory (absolute tree.here file)) m) ++ Import.sourceEnding =
            absolute tree.here other := by
  obtain ⟨steps, s, proper, more, eq, hr, hn, out⟩ := exists_outputPath well found hf stem
  obtain ⟨goal, t, proper', more', eq', hr', hn', out'⟩ := exists_outputPath well found ho stem'
  have from_ := loadedFrom_of_load well.here.isAbsolute loaded
  have apart : absolute tree.here other ≠ program.entry := by
    rw [from_.entry]
    intro same
    rw [same, hn, List.append_cancel_left_eq] at hn'
    exact ne (by rw [eq, eq', hn'])
  have entry := hn
  rw [← from_.entry] at entry
  obtain ⟨shared, up, down, imports, rfl, rfl, made, imported, pairs⟩ :=
    from_.import_eq well.here reached apart entry hn'
  refine ⟨imports, _, _, made, out output, out' output, imported,
    fun timestamp options text generated => ?_, fun i pair m hm => ?_⟩
  · obtain ⟨laid, lines⟩ := import_lines_of_generate made generated
    exact ⟨laid, fun i pair => lines i (List.of_mem_zip pair).2⟩
  rw [pairs i pair] at hm
  have keptUp : ∀ step ∈ up, step ≠ parent := fun step mem =>
    (proper step (by simp [mem])).ne_parent
  have last := (proper' (t ++ Import.sourceEnding) (by simp)).of_stem more'
  have kept : ∀ name ∈ (up.map fun _ => parent) ++ down ++ [t], Kept name := by
    intro name mem
    simp only [List.mem_append, List.mem_map, List.mem_singleton] at mem
    rcases mem with (⟨_, -, rfl⟩ | mem) | rfl
    · exact kept_parent
    · exact (proper' name (by simp [mem])).kept
    · exact last.kept
  have led := module_cases kept hm
  have first := (proper (s ++ Import.sourceEnding) (by simp)).of_stem more
  have written := kept_concat (fun name mem => (proper name (List.mem_append_left _ mem)).kept)
    first.kept (show slash ∉ outputEnding by decide)
  have written' := kept_concat (fun name mem => (proper' name (List.mem_append_left _ mem)).kept)
    last.kept (show slash ∉ outputEnding by decide)
  constructor
  · obtain ⟨relative, hm⟩ := names_module kept led (show slash ∉ outputEnding by decide)
    rw [List.append_assoc] at hm
    exact normalize_beside relative hm keptUp written written'
  · obtain ⟨relative, hm⟩ := names_module kept led (show slash ∉ [] from List.not_mem_nil)
    rw [List.append_nil] at relative
    rw [List.append_nil, List.append_nil, List.append_assoc] at hm
    exact normalize_beside_append (absolute_isNormal well.here.isAbsolute file)
      (absolute_isNormal well.here.isAbsolute other) (hr.trans hr'.symm) hn hn' last.ne_parent
      relative hm

/-- Two interface files in folders side by side, one name with dots. -/
def sideBySide : FileTree :=
  { here := "/w"
    nodes := [
      (["w".toList], .folder), (["w".toList, "idl".toList], .folder),
      (["w".toList, "idl".toList, "a".toList], .folder),
      (["w".toList, "idl".toList, "a".toList, "main.thrift".toList],
        .file "include '../b/types.v2.thrift'".toUTF8),
      (["w".toList, "idl".toList, "b".toList], .folder),
      (["w".toList, "idl".toList, "b".toList, "types.v2.thrift".toList], .file "".toUTF8)] }

/-- What is loaded from them. -/
def sideBySideProgram : Program :=
  ⟨"/w/idl/a/main.thrift", [("/w/idl/a/main.thrift", ⟨["../b/types.v2.thrift"], [], []⟩),
    ("/w/idl/b/types.v2.thrift", ⟨[], [], []⟩)]⟩

theorem import_names_output_sideBySide : sideBySide.WellFormed ∧
    ∃ files program, sideBySide.findEnding "idl" Import.sourceEnding = .ok files ∧
      "idl/a/main.thrift".toList ∈ files ∧ "idl/b/types.v2.thrift".toList ∈ files ∧
      sideBySide.load "idl/a/main.thrift" = .ok program ∧
      "/w/idl/b/types.v2.thrift".toList ∈ program.paths ∧
      ∃ imports text, program.imports? sideBySide.here = some imports ∧
        (program.generate sideBySide.here "now" .default).text = .ok text ∧
        (∃ depth, Layout.indent depth "import * as types.v2 from '../b/types.v2.js';" ∈
          Text.lines text) ∧
        ∃ i, ("/w/idl/b/types.v2.thrift".toList, i) ∈ program.imported imports ∧
          normalize (join "out/a" (i.module ++ outputEnding)) = "out/b/types.v2.js.flow".toList ∧
          normalize (join "/w/idl/a" i.module) ++ Import.sourceEnding =
            "/w/idl/b/types.v2.thrift".toList := by
  have well : sideBySide.WellFormed := by decide
  have isFolder : sideBySide.node? ["w".toList, "idl".toList] = some .folder :=
    well.folder ["w".toList, "idl".toList] "a" (by decide)
  have finds : (sideBySide.findEnding "idl" Import.sourceEnding matches .ok _) = true := by
    decide +kernel
  have loaded : sideBySide.load "idl/a/main.thrift" = .ok sideBySideProgram := by decide +kernel
  split at finds
  case h_2 => cases finds
  next files found =>
  have hf : "idl/a/main.thrift".toList ∈ files := (FileTree.mem_findEnding found).2
    ⟨["w".toList, "idl".toList], ["a".toList, "main.thrift".toList], by decide +kernel, isFolder,
      by decide, by decide, by decide⟩
  have ho : "idl/b/types.v2.thrift".toList ∈ files := (FileTree.mem_findEnding found).2
    ⟨["w".toList, "idl".toList], ["b".toList, "types.v2.thrift".toList], by decide +kernel,
      isFolder, by decide, by decide, by decide⟩
  have stem : HasStem Import.sourceEnding "idl/a/main.thrift" :=
    ⟨"main", by decide, 'm', by decide, by decide⟩
  have stem' : HasStem Import.sourceEnding "idl/b/types.v2.thrift" :=
    ⟨"types.v2", by decide, 't', by decide, by decide⟩
  have place : absolute sideBySide.here "idl/b/types.v2.thrift" = "/w/idl/b/types.v2.thrift" := by
    decide
  have reached : absolute sideBySide.here "idl/b/types.v2.thrift" ∈ sideBySideProgram.paths := by
    decide
  obtain ⟨imports, written, written', made, out, out', ⟨i, pair⟩, lines, agree⟩ :=
    import_names_output "out" well found hf ho (by decide) stem stem' loaded reached
  obtain ⟨same, same'⟩ := agree i pair i.module (.inl rfl)
  have target : outputPath? sideBySide.here "idl/a/main.thrift" "idl" "out" =
    some "out/a/main.js.flow".toList := by decide
  have target' : outputPath? sideBySide.here "idl/b/types.v2.thrift" "idl" "out" =
    some "out/b/types.v2.js.flow".toList := by decide
  obtain rfl := Option.some.inj (target.symm.trans out)
  obtain rfl := Option.some.inj (target'.symm.trans out')
  rw [place] at reached same'
  have imported : imports = [⟨"types.v2", "../b/types.v2"⟩] :=
    Option.some.inj (made.symm.trans (by decide +kernel))
  obtain rfl : i = ⟨"types.v2", "../b/types.v2"⟩ := by
    rw [imported] at pair
    exact List.mem_singleton.1 (List.of_mem_zip pair).2
  obtain ⟨text, generated⟩ :
      ∃ text, (sideBySideProgram.generate sideBySide.here "now" .default).text = .ok text :=
    exists_of_isSome (by decide +kernel)
  have line := (lines "now" .default text generated).2 _ pair (by decide)
  rw [place] at pair
  exact ⟨well, files, _, found, hf, ho, loaded, reached, imports, text, made, generated, line, _,
    pair, same, same'⟩

end IdlFlow
