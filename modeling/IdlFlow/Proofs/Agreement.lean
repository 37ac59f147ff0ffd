/-
  The agreement of references with exported names, in generated files.

  * `Program.Written`: the file of a program is laid out from given imports and
    the outlines of the program's definitions;
  * `Program.Exports`: a definition is exported under a name;
  * `Program.Refers`: wherever a reference stands in the definitions of a program,
    it is a part of their outlines that is written as a given text.

  Main statements: the outlines of its definitions, filled in by one scope, are
  the blocks of a generated file (`Program.written`); and in the file of a program
  a reference to another file is the name of the import of that file and the name
  that the file generated for it exports, and a reference within the file is the
  name that the file itself exports (`references_agree`).
-/
import IdlFlow.Proofs.Bindings
import IdlFlow.Proofs.Outlines
import IdlFlow.Proofs.Rendering

namespace IdlFlow

open IdlFlow.Path

/-! ## Files from outlines -/

/-- The outlines of the entry document, block by block. -/
def Program.outlines (options : FileOptions) (p : Program) : List (List Outline) :=
  p.definitions.filterMap (·.outlines? options.enumNumbers)

/-- The file of a program has the given imports and the blocks that its outlines
    give. -/
structure Program.Written (here : Text) (options : FileOptions) (p : Program)
    (imports : List Import) : Prop where
  imported : p.imports? here = some imports
  text : ∀ timestamp text, (p.generate here timestamp options).text = .ok text ↔
    ∃ blocks, (p.outlines options).mapM (Outline.block (options.scope p.definitions)) = .ok blocks ∧
      text = Layout.format (DeclarationFile.text ⟨timestamp, options.source p, imports, blocks⟩)
  /-- There is such a file if the integers can be written. -/
  made : ∀ timestamp, (∃ text, (p.generate here timestamp options).text = .ok text) ↔
    ∀ d ∈ p.definitions, ∀ i ∈ d.integers, Writable i
  /-- Each import has a line, if its names have no line ends. -/
  lines : ∀ timestamp text, (p.generate here timestamp options).text = .ok text →
    ∀ i ∈ imports, Layout.Unbroken i.text → ∃ depth, Layout.indent depth
      ("import * as " ++ i.binding ++ " from '" ++ i.module ++ ".js';") ∈ Text.lines text
  /-- The outlines have the types and values of the definitions, leaf by leaf. -/
  filled : ∀ d ∈ p.definitions, ∀ os, d.outlines? options.enumNumbers = some os →
    os.flatMap Outline.filled = (d.types.flatMap TypeRef.leaves).map .type ++
      (d.values.flatMap ConstValue.leaves).map .value

section Written

variable {here : Text} {p : Program} {imports : List Import}

theorem mapM_block_outlines (scope : Scope) (ds : List Definition) :
    (ds.filterMap (·.outlines? scope.enumNumbers)).mapM (Outline.block scope) =
      (Blocks.ofDefinitions scope ds).texts := by
  induction ds with
  | nil => rfl
  | cons d ds ih =>
    rw [Blocks.ofDefinitions, d.block?_eq_outlines scope]
    cases outlines : d.outlines? scope.enumNumbers with
    | none =>
      rw [List.filterMap_cons_none outlines, ih]
      rfl
    | some os =>
      rw [List.filterMap_cons_some outlines, List.mapM_cons, ih, Option.map_some]
      cases Outline.block scope os with
      | error e => rfl
      | ok text =>
        show _ = (text :: ·) <$> (Blocks.ofDefinitions scope ds).texts
        cases (Blocks.ofDefinitions scope ds).texts <;> rfl

/-- **A generated file is laid out from outlines.** -/
theorem Program.written (options : FileOptions) (h : p.imports? here = some imports) :
    p.Written here options imports := by
  have blocks : (p.outlines options).mapM (Outline.block (options.scope p.definitions)) =
      (p.blocks options).texts := mapM_block_outlines (options.scope p.definitions) p.definitions
  refine ⟨h, fun timestamp text => ?_, fun timestamp => exists_text_iff h,
    fun timestamp text generated => (import_lines_of_generate h generated).2,
    fun d _ os outlines => Definition.filled_outlines outlines⟩
  rw [blocks]
  constructor
  · intro generated
    obtain ⟨imports', texts, imported, made, eq⟩ := generate_eq_ok generated
    obtain rfl := Option.some.inj (h.symm.trans imported)
    exact ⟨texts, made, eq⟩
  · intro ⟨texts, made, eq⟩
    rw [eq]
    unfold Program.generate
    simp only [made, h]
    rfl

end Written

/-! ## Names in files -/

/-- A definition is exported under a name.  The other declaration of an enum has a
    word behind the name. -/
structure Program.Exports (options : FileOptions) (p : Program) (d : Definition) (name : Text) :
    Prop where
  name : (Stretch.declared d.name).text (options.scope p.definitions) = .ok name
  outlines : ∃ os ∈ p.outlines options, d.outlines? options.enumNumbers = some os ∧
    ∃ plain ∈ os, plain.IsPlain d.name ∧
      ∀ other ∈ os, other = plain ∨ d.enumKeys?.isSome = true ∧ other.IsDerived d.name

/-- Wherever the reference stands in a type or value of the entry document, it is
    a part of an outline, and written as the given texts. -/
structure Program.Refers (options : FileOptions) (p : Program) (reference type value : Text) :
    Prop where
  writes : (options.scope p.definitions).Writes reference type value
  type_text : (Stretch.type (.named reference)).text (options.scope p.definitions) = .ok type
  value_text :
    (Stretch.value (.identifier reference)).text (options.scope p.definitions) = .ok value
  type : ∀ d ∈ p.definitions, ∀ t ∈ d.types, ∀ place,
    descend TypeRef.parts place t = some (.named reference) →
      ∃ os ∈ p.outlines options, d.outlines? options.enumNumbers = some os ∧
        ∃ o ∈ os, .type (.named reference) ∈ o
  value : ∀ d ∈ p.definitions, ∀ v ∈ d.values, ∀ place,
    descend ConstValue.parts place v = some (.identifier reference) →
      ∃ os ∈ p.outlines options, d.outlines? options.enumNumbers = some os ∧
        ∃ o ∈ os, .value (.identifier reference) ∈ o

namespace Program

variable {options : FileOptions} {p : Program}

/-- **A definition is exported under its name as the scope renames it.** -/
theorem exports_of_mem {d : Definition} (mem : d ∈ p.definitions) (supported : d.skipped? = none) :
    p.Exports options d (options.rule.apply d.name) := by
  obtain ⟨os, made, plain⟩ := Definition.exists_outlines supported options.enumNumbers
  exact ⟨rfl, os, List.mem_filterMap.2 ⟨d, mem, made⟩, made, plain⟩

/-- **References are parts of outlines**, however deep they stand. -/
theorem refers_of_writes {reference type value : Text}
    (h : (options.scope p.definitions).Writes reference type value) :
    p.Refers options reference type value := by
  have held {d : Definition} (mem : d ∈ p.definitions) {part : Stretch}
      (leaf : part ∈ (d.types.flatMap TypeRef.leaves).map .type ++
        (d.values.flatMap ConstValue.leaves).map .value) :
      ∃ os ∈ p.outlines options, d.outlines? options.enumNumbers = some os ∧
        ∃ o ∈ os, part ∈ o := by
    obtain ⟨os, made, o, inside, found⟩ := Definition.mem_outlines leaf options.enumNumbers
    exact ⟨os, List.mem_filterMap.2 ⟨d, mem, made⟩, made, o, inside, found⟩
  obtain ⟨_, ⟨⟩, type_text, -⟩ := h.type (.named reference) [] rfl
  obtain ⟨_, ⟨⟩, value_text, -⟩ := h.value (.identifier reference) [] rfl
  refine ⟨h, congrArg Except.ok type_text, value_text, fun d mem t ht place found => ?_,
    fun d mem v hv place found => ?_⟩
  · refine held mem (List.mem_append_left _ (List.mem_map_of_mem ?_))
    exact List.mem_flatMap.2 ⟨t, ht, TypeRef.named_mem_leaves.2 ⟨place, found⟩⟩
  · refine held mem (List.mem_append_right _ (List.mem_map_of_mem ?_))
    exact List.mem_flatMap.2 ⟨v, hv, (ConstValue.identifier_mem_leaves v).2 ⟨place, found⟩⟩

end Program

/-! ## Agreement -/

/-- **References agree with exported names**, across files and within one. -/
theorem references_agree {tree : FileTree} (here : IsNormal tree.here) {file : Text} {p : Program}
    (loaded : tree.load file = .ok p) {document : Document}
    (entry : p.documents.find? p.entry = some document)
    (plain : ∀ d ∈ document.definitions, '.' ∉ d.name) (options : FileOptions) :
    ∃ imports, p.Written tree.here options imports ∧
    (∀ included ∈ document.includes, ∀ place, place = includePath tree.here p.entry included →
      place ≠ p.entry → ∀ module, fileName place = module ++ Import.sourceEnding → '.' ∉ module →
      (∃ i, (place, i) ∈ p.imported imports) ∧
      (∀ i, (place, i) ∈ p.imported imports → i.binding = module) ∧
      ∃ target q others, p.documents.find? place = some target ∧ tree.load place = .ok q ∧
        q.definitions = target.definitions ∧ q.Written tree.here options others ∧
        ∀ d ∈ q.definitions, d.skipped? = none → '.' ∉ d.name →
          (∀ values, .enum module values ∈ document.definitions →
            d.name ∉ values.map EnumValue.name) →
          ∃ name, q.Exports options d name ∧
            p.Refers options (module ++ '.' :: d.name) (module ++ '.' :: name)
              (module ++ '.' :: name)) ∧
    ∀ d, document.definitions.filter (·.name = d.name) = [d] → d.skipped? = none →
      ∃ name, p.Exports options d name ∧
        p.Refers options d.name
          (if d.enumKeys?.isSome = true then "$Keys<typeof " ++ name ++ ">" else name) name := by
  have from_ := loadedFrom_of_load here.isAbsolute loaded
  have definitions : p.definitions = document.definitions := by
    rw [Program.definitions, entry]
    rfl
  rw [← definitions] at plain ⊢
  obtain ⟨imports, made, -⟩ := from_.exists_bindings here.isAbsolute
  refine ⟨imports, p.written options made, ?_, ?_⟩
  · rintro included mem place rfl apart module named dotless
    have reached : includePath tree.here p.entry included ∈ p.paths := by
      refine from_.target_mem from_.entry_mem ?_
      rw [targets_of_ok (from_.readDocument (Assoc.mem_of_find? entry))]
      exact List.mem_map_of_mem mem
    obtain ⟨above, last, ho⟩ := from_.exists_names from_.entry_mem
    obtain ⟨front, name, hp⟩ := from_.exists_names reached
    obtain rfl : name = module ++ Import.sourceEnding :=
      ((from_.isNormal reached).fileName_eq hp).1.symm.trans named
    have origin : names p.entry = [] ++ (above ++ [last]) := ho
    have goal : names (includePath tree.here p.entry included) =
      [] ++ (front ++ [module ++ Import.sourceEnding]) := hp
    obtain ⟨_, _, _, imports', -, -, made', imported, bound⟩ :=
      from_.import_eq here reached apart origin goal
    obtain rfl := Option.some.inj (made.symm.trans made')
    obtain ⟨target, found⟩ := Option.isSome_iff_exists.1 (Assoc.isSome_find?_iff.2 reached)
    obtain ⟨q, loads, same⟩ := from_.exists_load here.isAbsolute found
    obtain ⟨others, theirs, -⟩ :=
      (loadedFrom_of_load here.isAbsolute loads).exists_bindings here.isAbsolute
    refine ⟨imported, fun i pair => ?_, target, q, others, found, loads, same,
      q.written options theirs, fun d mem supported hd none => ?_⟩
    · rw [bound i pair]
    · exact ⟨_, q.exports_of_mem mem supported,
        p.refers_of_writes (FileOptions.writes_qualified plain dotless hd none)⟩
  · intro d only supported
    have mem : d ∈ p.definitions := by
      have mem : d ∈ p.definitions.filter (·.name = d.name) := by simp [only]
      exact (List.mem_filter.1 mem).1
    exact ⟨_, p.exports_of_mem mem supported,
      p.refers_of_writes (FileOptions.writes_unqualified only (plain d mem))⟩

/-- Two interface files; one has a struct and a constant that refer to the
    other. -/
def acrossFiles : FileTree :=
  { here := "/w"
    nodes := [(["w".toList], .folder),
      (["w".toList, "main.thrift".toList],
        .file ("include 'b/types.thrift' enum Own {A} " ++
          "struct Box \x7b 1: map<string, list<types.color>> shades 2: Own own \x7d " ++
          "const i32 LIMIT = types.max_size").toUTF8),
      (["w".toList, "b".toList], .folder),
      (["w".toList, "b".toList, "types.thrift".toList],
        .file "enum color {RED} const i32 max_size = 3".toUTF8)] }

def acrossMain : Document :=
  ⟨["b/types.thrift"], [], [.enum "Own" [⟨"A", none⟩],
    .record .struct "Box" [
      ⟨"shades", .map (.base "string" []) (.list (.named "types.color")), some 1, false, none⟩,
      ⟨"own", .named "Own", some 2, false, none⟩],
    .const "LIMIT" (.base "i32" []) (.identifier "types.max_size")]⟩

def acrossTypes : Document :=
  ⟨[], [], [.enum "color" [⟨"RED", none⟩], .const "max_size" (.base "i32" []) (.integer 3)]⟩

def acrossProgram : Program :=
  ⟨"/w/main.thrift", [("/w/main.thrift", acrossMain), ("/w/b/types.thrift", acrossTypes)]⟩

/-- The file of the first one. -/
def acrossText : Text :=
  "// @flow\n\n// Generated by thrift2flow at now\n\n" ++
  "import * as types from 'b/types.js';\n\n" ++
  "export type POwnS = 0;\nexport type POwnSKeys = \"A\";\n\n" ++
  "export type PBoxS = \x7b|\n  shades: \x7b[string]: types.PColorS[]\x7d;\n" ++
  "  own: $Keys<typeof POwnS>;\n|\x7d;\n\n" ++
  "export const PLIMITS: number = types.PMaxSizeS;\n"

theorem references_agree_acrossFiles : IsNormal acrossFiles.here ∧
    acrossFiles.load "main.thrift" = .ok acrossProgram ∧
    ∃ q imports others, acrossFiles.load "/w/b/types.thrift" = .ok q ∧
      acrossProgram.Written acrossFiles.here acrossOptions imports ∧
      q.Written acrossFiles.here acrossOptions others ∧
      (acrossProgram.generate acrossFiles.here "now" acrossOptions).text = .ok acrossText ∧
      (∃ i ∈ imports, i.binding = "types".toList) ∧
      (∃ d ∈ q.definitions, d.name = "color".toList ∧ q.Exports acrossOptions d "PColorS" ∧
        acrossProgram.Refers acrossOptions "types.color" "types.PColorS" "types.PColorS") ∧
      (∃ d ∈ q.definitions, d.name = "max_size".toList ∧ q.Exports acrossOptions d "PMaxSizeS" ∧
        acrossProgram.Refers acrossOptions "types.max_size" "types.PMaxSizeS" "types.PMaxSizeS") ∧
      ∃ d ∈ acrossProgram.definitions, d.name = "Own".toList ∧
        acrossProgram.Exports acrossOptions d "POwnS" ∧
        acrossProgram.Refers acrossOptions "Own" "$Keys<typeof POwnS>" "POwnS" := by
  have here : IsNormal acrossFiles.here := by decide
  have loaded : acrossFiles.load "main.thrift" = .ok acrossProgram := by decide +kernel
  have place : includePath acrossFiles.here "/w/main.thrift" "b/types.thrift" =
    "/w/b/types.thrift" := by decide
  have dotless : ∀ d ∈ acrossMain.definitions, '.' ∉ d.name := by decide
  have noEnum : ∀ d ∈ acrossMain.definitions, d.name ≠ "types".toList := by decide
  have generated : (acrossProgram.generate acrossFiles.here "now" acrossOptions).text =
    .ok acrossText := by decide +kernel
  obtain ⟨imports, written, foreign, unqualified⟩ :=
    references_agree here loaded rfl dotless acrossOptions
  obtain ⟨⟨i, pair⟩, bound, target, q, others, found, loads, same, written', agree⟩ :=
    foreign "b/types.thrift" (.head _) "/w/b/types.thrift" place.symm
      (show "/w/b/types.thrift".toList ≠ "/w/main.thrift" by decide) "types" (by decide)
      (by decide)
  cases found
  have color : .enum "color" [⟨"RED", none⟩] ∈ q.definitions := by
    rw [same]
    exact .head _
  have size : .const "max_size" (.base "i32" []) (.integer 3) ∈ q.definitions := by
    rw [same]
    exact .tail _ (.head _)
  obtain ⟨name, exported, refers⟩ := agree _ color rfl (show '.' ∉ "color".toList by decide)
    fun _ mem => absurd rfl (noEnum _ mem)
  obtain ⟨name', exported', refers'⟩ := agree _ size rfl (show '.' ∉ "max_size".toList by decide)
    fun _ mem => absurd rfl (noEnum _ mem)
  obtain ⟨own, exportedOwn, refersOwn⟩ := unqualified (.enum "Own" [⟨"A", none⟩]) rfl rfl
  have renamed : acrossOptions.rule.apply "color" = "PColorS" ∧
      acrossOptions.rule.apply "max_size" = "PMaxSizeS" ∧
      acrossOptions.rule.apply "Own" = "POwnS" := by decide
  obtain rfl : name = "PColorS" := (Except.ok.inj exported.name).symm.trans renamed.1
  obtain rfl : name' = "PMaxSizeS" := (Except.ok.inj exported'.name).symm.trans renamed.2.1
  obtain rfl : own = "POwnS" := (Except.ok.inj exportedOwn.name).symm.trans renamed.2.2
  exact ⟨here, loaded, q, imports, others, loads, written, written', generated,
    ⟨i, (List.of_mem_zip pair).2, bound i pair⟩, ⟨_, color, rfl, exported, refers⟩,
    ⟨_, size, rfl, exported', refers'⟩, _, .head _, rfl, exportedOwn, refersOwn⟩

end IdlFlow
