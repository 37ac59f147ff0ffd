/-
  The names that the imports of a declaration file bind.

  * `Import.nameOf path`: the name that an import of the document at `path`
    binds, which is the last name of the path without the ending of interface
    files.

  Main statement: the imports of a generated file bind these names, one for
  every document but the entry, so the names are distinct exactly if the names
  of those documents are, whatever folders they lie in (`bindings_of_load`).
-/
import Mathlib.Data.List.Nodup
import IdlFlow.Proofs.Generation
import IdlFlow.Proofs.Modules

namespace IdlFlow

open IdlFlow.Path

namespace Import

variable {path : Text}

/-- The last name of a path without the ending of interface files. -/
def nameOf (path : Text) : Text :=
  (Text.dropEnding? sourceEnding (fileName path)).getD (fileName path)

theorem no_slash_nameOf (path : Text) : slash ∉ nameOf path := by
  intro mem
  refine no_slash_fileName path ?_
  unfold nameOf Text.dropEnding? at mem
  split at mem
  · exact List.mem_of_mem_take mem
  · exact mem

/-- The directory of a module does not show in what it binds. -/
theorem binding_ofPath (path : Text) : (ofPath path).binding = nameOf (tidy path) := by
  have free := no_slash_nameOf (tidy path)
  let module := join (directory (tidy path)) (nameOf (tidy path))
  have joined : fileName module = nameOf (tidy path) := by
    rw [fileName_join (isAbsolute_of_no_slash free), fileName, split_of_no_slash free]
  change fileName (if slash ∈ module then module else "./" ++ module) = _
  split
  · exact joined
  · next alone =>
    have cut : "./" ++ module = current ++ slash :: module := rfl
    rw [cut, ← joined, fileName, fileName, split_append alone, split_of_no_slash alone]

end Import

namespace LoadedFrom

variable {tree : FileTree} {file path : Text} {p : Program}

theorem fileName_relative (here : Path.isAbsolute tree.here = true) (h : LoadedFrom tree file p)
    (mem : path ∈ p.paths) : ∃ way, relative? tree.here path (directory p.entry) = some way ∧
      fileName (tidy way) = fileName path := by
  obtain ⟨left, last, hs⟩ := h.exists_names h.entry_mem
  obtain ⟨right, name, hp⟩ := h.exists_names mem
  rw [← List.nil_append (_ ++ _)] at hs hp
  obtain ⟨shared, up, down, -, -, kept, led⟩ := h.relative_eq here mem hs hp
  refine ⟨_, led, ?_⟩
  have free := (kept name (by simp)).no_slash
  have ne : names (ofNames ((up.map fun _ => parent) ++ down ++ [name])) ≠ [] := by
    rw [names_ofNames kept]
    exact List.concat_ne_nil _ _
  rw [Import.tidy_eq_ofNames (isAbsolute_ofNames kept) ne, names_ofNames kept,
    fileName_ofNames free, ((h.isNormal mem).fileName_eq hp).1]

/-- The imports are told, and bind the names of the documents other than the
    entry. -/
theorem exists_bindings (here : Path.isAbsolute tree.here = true) (h : LoadedFrom tree file p) :
    ∃ imports, p.imports? tree.here = some imports ∧
      imports.map Import.binding = (p.paths.filter (· ≠ p.entry)).map Import.nameOf := by
  have inProgram : ∀ path ∈ p.paths.filter (· ≠ p.entry), path ∈ p.paths := fun path mem =>
    (List.mem_filter.1 mem).1
  have led : ∀ path ∈ p.paths.filter (· ≠ p.entry),
      ((relative? tree.here path (directory p.entry)).map Import.ofPath).isSome = true := by
    intro path mem
    obtain ⟨way, led, -⟩ := h.fileName_relative here (inProgram path mem)
    rw [led]
    rfl
  obtain ⟨imports, made, all⟩ := forall₂_of_mapM led
  refine ⟨imports, made, ?_⟩
  rw [← List.forall₂_eq_eq_eq, List.forall₂_map_left_iff, List.forall₂_map_right_iff,
    List.forall₂_iff_zip]
  refine ⟨all.length_eq.symm, fun {i path} pair => ?_⟩
  have made : (relative? tree.here path (directory p.entry)).map Import.ofPath = some i :=
    List.forall₂_zip all.flip pair
  obtain ⟨way, led, last⟩ := h.fileName_relative here (inProgram path (List.of_mem_zip pair).2)
  rw [led, Option.map_some, Option.some.injEq] at made
  rw [← made, Import.binding_ofPath, Import.nameOf, last, Import.nameOf]

end LoadedFrom

/-- **What the imports of a file bind**: the names of the documents other than
    the entry, in the order of the program, and distinct exactly if no two of
    these documents have the same name. -/
theorem bindings_of_load {tree : FileTree} {file : Text} {p : Program}
    (here : Path.isAbsolute tree.here = true) (loaded : tree.load file = .ok p) :
    ∃ imports, p.imports? tree.here = some imports ∧
      imports.map Import.binding = (p.paths.filter (· ≠ p.entry)).map Import.nameOf ∧
      ((imports.map Import.binding).Nodup ↔
        ∀ path ∈ p.paths, ∀ other ∈ p.paths, path ≠ p.entry → other ≠ p.entry →
          Import.nameOf path = Import.nameOf other → path = other) ∧
      ∀ timestamp options text, (p.generate tree.here timestamp options).text = .ok text →
        ∃ texts, text = Layout.format
          (DeclarationFile.text ⟨timestamp, options.source p, imports, texts⟩) := by
  have h := loadedFrom_of_load here loaded
  obtain ⟨imports, made, bound⟩ := h.exists_bindings here
  refine ⟨imports, made, bound, ?_, ?_⟩
  · rw [bound, List.nodup_map_iff_inj_on (h.nodup.filter _)]
    constructor
    · intro distinct path mem other mem' ne ne'
      exact distinct path (by simp [mem, ne]) other (by simp [mem', ne'])
    · intro distinct path mem other mem'
      simp only [List.mem_filter, decide_eq_true_eq] at mem mem'
      exact distinct path mem.1 other mem'.1 mem.2 mem'.2
  · intro timestamp options text generated
    exact (import_lines_of_generate made generated).1

/-- Two documents with one name, in folders side by side. -/
def namesakes : FileTree :=
  { here := "/w"
    nodes := [
      (["w".toList], .folder),
      (["w".toList, "main.thrift".toList],
        .file "include 'a/x.thrift'\ninclude 'b/x.thrift'".toUTF8),
      (["w".toList, "a".toList], .folder),
      (["w".toList, "a".toList, "x.thrift".toList], .file "".toUTF8),
      (["w".toList, "b".toList], .folder),
      (["w".toList, "b".toList, "x.thrift".toList], .file "".toUTF8)] }

/-- What is loaded from it. -/
def namesakesProgram : Program :=
  ⟨"/w/main.thrift", [("/w/main.thrift", ⟨["a/x.thrift", "b/x.thrift"], [], []⟩),
    ("/w/a/x.thrift", ⟨[], [], []⟩), ("/w/b/x.thrift", ⟨[], [], []⟩)]⟩

theorem namesakes_load : namesakes.load "main.thrift" = .ok namesakesProgram := by decide +kernel

/-- **Namesakes are bound twice.** -/
theorem not_nodup_bindings_namesakes : ∃ p, namesakes.load "main.thrift" = .ok p ∧
    p.imports? namesakes.here = some [⟨"x", "a/x"⟩, ⟨"x", "b/x"⟩] ∧
    ¬ ([⟨"x", "a/x"⟩, ⟨"x", "b/x"⟩].map Import.binding).Nodup ∧
    (p.generate namesakes.here "now" .default).text = .ok
      ("// @flow\n\n// Generated by thrift2flow at now\n\n" ++
        "import * as x from 'a/x.js';\nimport * as x from 'b/x.js';\n") :=
  ⟨namesakesProgram, namesakes_load, by decide +kernel, by decide, by decide +kernel⟩

theorem bindings_of_load_namesakes : Path.isAbsolute namesakes.here = true ∧
    namesakes.load "main.thrift" = .ok namesakesProgram ∧
    ∃ imports, namesakesProgram.imports? namesakes.here = some imports ∧
      imports.map Import.binding = ["x", "x"] := by
  have here : Path.isAbsolute namesakes.here = true := by decide
  obtain ⟨imports, made, bound, -⟩ := bindings_of_load here namesakes_load
  refine ⟨here, namesakes_load, imports, made, ?_⟩
  rw [bound]
  decide +kernel

end IdlFlow
