/-
  The layout of declaration files.

  * `Text.Clean s`: `s` has no quote, no bracket and no line end, and no blank
    at its ends;
  * `titleLines`: the lines above the imports;
  * `Regular f blocks`: layout leaves the title and the imports of `f` alone,
    and the blocks of `f` have lines of a shape.

  Main statement: a file is its title, its imports and, for every definition
  with declarations, the layout that the definition has by itself, with a blank
  line before the imports and before every block; and every block is framed
  (`generate_layout`).
-/
import IdlFlow.Proofs.Blocks
import IdlFlow.Proofs.Imports

namespace IdlFlow

open Layout Text DeclarationFile

/-- The text has no quotes, brackets and line ends, and no blanks at its
    ends. -/
structure Text.Clean (s : Text) : Prop where
  quiet : Quiet s
  head : s.head?.any isBlank = false
  last : s.getLast?.any isBlank = false

instance : DecidablePred Text.Clean := fun s =>
  decidable_of_iff (Quiet s ∧ s.head?.any isBlank = false ∧ s.getLast?.any isBlank = false)
    ⟨fun ⟨quiet, head, last⟩ => ⟨quiet, head, last⟩, fun h => ⟨h.quiet, h.head, h.last⟩⟩

/-! ## Title -/

/-- The comments on the making of a file. -/
def originLines (timestamp : Text) (source : Option Text) : List Text :=
  ("// Generated by thrift2flow at " ++ timestamp : Text) ::
    source.toList.map fun path => ("// Source: " ++ path : Text)

/-- The lines above the imports. -/
def titleLines (timestamp : Text) (source : Option Text) : List Text :=
  "// @flow".toList :: [] :: originLines timestamp source

/-- A line comment without line ends, and without blanks at its ends. -/
structure Remark (l : Text) : Prop where
  comment : isComment l = true
  unbroken : Unbroken l
  trimmed : trim l = l

theorem remark_of_clean {opening s : Text} (h : isComment opening = true) (u : Unbroken opening)
    (clean : s.Clean) (ne : s ≠ []) : Remark (opening ++ s) := by
  obtain ⟨rest, rfl⟩ : ∃ rest, opening = '/' :: '/' :: rest := by
    obtain ⟨rest, eq⟩ := List.isPrefixOf_iff_prefix.1 h
    exact ⟨rest, eq.symm⟩
  refine ⟨rfl, u.append clean.quiet.unbroken, trim_eq_self (fun c mem => ?_) fun c mem => ?_⟩
  · cases mem
    decide
  · have last := clean.last
    rw [List.getLast?_append, List.getLast?_eq_some_getLast ne, Option.some_or,
      Option.mem_some_iff] at mem
    rwa [List.getLast?_eq_some_getLast ne, Option.any_some, mem] at last

section Title

variable {timestamp : Text} {source : Option Text}

theorem titleLines_eq : titleLines timestamp source =
    ["// @flow".toList] ++ apart [originLines timestamp source] := by
  rw [titleLines, apart, List.flatMap_singleton]
  rfl

theorem remark_origin (time : timestamp.Clean) (known : timestamp ≠ [])
    (place : ∀ path ∈ source, Text.Clean path ∧ path ≠ []) :
    ∀ l ∈ originLines timestamp source, Remark l := by
  intro l mem
  rcases List.mem_cons.1 mem with rfl | mem
  · exact remark_of_clean (by decide) (by decide) time known
  · obtain ⟨path, hp, rfl⟩ := List.mem_map.1 mem
    obtain ⟨clean, ne⟩ := place path (Option.mem_toList.1 hp)
    exact remark_of_clean (by decide) (by decide) clean ne

theorem header_eq (imports : List Import) (blocks : List Text) :
    header ⟨timestamp, source, imports, blocks⟩ =
      (titleLines timestamp source ++ [[]]).flatMap line := by
  have empty : line "" = line [] := by decide
  rw [header, titleLines, originLines, empty]
  cases source <;> simp [List.append_assoc]

end Title

/-! ## Files -/

theorem map_trim {ls : List Text} (h : ∀ l ∈ ls, trim l = l) : ls.map trim = ls := by
  rw [List.map_congr_left h]
  exact List.map_id' _

theorem map_trim_apart (paragraphs : List (List Text)) :
    (apart paragraphs).map trim = apart (paragraphs.map (·.map trim)) := by
  rw [apart, List.map_flatMap, apart, List.flatMap_map]
  rfl

theorem flatMap_apart {blocks : List (List Text)} (h : ∀ ls ∈ blocks, ls ≠ []) :
    (apart blocks).flatMap line =
      (blocks.map (joined "\n")).flatMap fun block => line [] ++ line block := by
  induction blocks with
  | nil => rfl
  | cons ls blocks ih =>
    have lines : line (joined "\n" ls) = ls.flatMap line :=
      intercalate_append_lineFeed (h ls (by simp))
    have rest := ih fun ms mem => h ms (List.mem_cons_of_mem _ mem)
    rw [List.map_cons, List.flatMap_cons, ← rest, lines, apart, List.flatMap_cons,
      List.flatMap_append, List.flatMap_cons]
    rfl

/-- The layout of lines of a shape. -/
theorem format_joined {ls : List Text} (h : Shape ls) :
    format (joined "\n" ls) = (reindent (ls.map trim)).flatMap line := by
  have cut : lines (joined "\n" ls) = ls :=
    lines_joined h.unbroken fun l mem => h.paragraph.filled l (List.mem_of_getLast? mem)
  have filled := h.trim.paragraph
  have collapsed : collapsedLines (joined "\n" ls) = ls.map trim := by
    have whole := collapseFrom_filled filled.filled filled.ne_nil false false []
    rw [List.append_nil, collapseFrom, List.append_nil] at whole
    rw [collapsedLines, cut, whole]
    rfl
  rw [format, collapsed]
  exact intercalate_append_lineFeed h.trim.framed.ne_nil

/-- The file has a title and imports that layout leaves alone, and blocks of
    lines of a shape. -/
structure Regular (f : DeclarationFile) (blocks : List (List Text)) : Prop where
  origin : ∀ l ∈ originLines f.timestamp f.source, Remark l
  imports : ∀ i ∈ f.imports, Row i.text ∧ trim i.text = i.text
  shapes : ∀ ls ∈ blocks, Shape ls
  blocks_eq : f.blocks = blocks.map (joined "\n")

namespace Regular

variable {f : DeclarationFile} {blocks : List (List Text)}

theorem remark_title (h : Regular f blocks) :
    ∀ l ∈ titleLines f.timestamp f.source, Unbroken l ∧ trim l = l := by
  intro l mem
  rcases List.mem_cons.1 mem with rfl | mem
  · exact ⟨by decide, by decide⟩
  rcases List.mem_cons.1 mem with rfl | mem
  · exact ⟨by decide, rfl⟩
  · exact ⟨(h.origin l mem).unbroken, (h.origin l mem).trimmed⟩

/-- The lines of the file. -/
theorem text_eq (h : Regular f blocks) : f.text =
    (titleLines f.timestamp f.source ++ ([] :: f.imports.map Import.text ++ apart blocks)).flatMap
      line := by
  have lines := flatMap_apart fun ls mem => (h.shapes ls mem).paragraph.ne_nil
  rw [DeclarationFile.text, header_eq, h.blocks_eq, List.flatMap_append, List.flatMap_append,
    List.flatMap_append, lines]
  simp [List.flatMap_map, List.append_assoc]

theorem lines_text (h : Regular f blocks) : Text.lines f.text =
    titleLines f.timestamp f.source ++ ([] :: f.imports.map Import.text ++ apart blocks) := by
  rw [h.text_eq]
  refine lines_flatMap_line fun l mem => ?_
  rcases List.mem_append.1 mem with mem | mem
  · exact (h.remark_title l mem).1
  rcases List.mem_append.1 mem with mem | mem
  · rcases List.mem_cons.1 mem with rfl | mem
    · decide
    · obtain ⟨i, hi, rfl⟩ := List.mem_map.1 mem
      exact (h.imports i hi).1.unbroken
  · obtain ⟨ls, hls, mem⟩ := List.mem_flatMap.1 mem
    rcases List.mem_cons.1 mem with rfl | mem
    · decide
    · exact (h.shapes ls hls).unbroken l mem

/-- The paragraphs below the title. -/
def paragraphs (f : DeclarationFile) (blocks : List (List Text)) : List (List Text) :=
  (if f.imports = [] then [] else [f.imports.map Import.text]) ++ blocks.map (·.map trim)

theorem paragraph (h : Regular f blocks) : ∀ p ∈ paragraphs f blocks, Paragraph p := by
  intro p mem
  rcases List.mem_append.1 mem with mem | mem
  · split at mem
    · cases mem
    · next ne =>
      rw [List.mem_singleton.1 mem]
      refine paragraph_rows (fun l hl => ?_) (by simpa using ne)
      obtain ⟨i, hi, rfl⟩ := List.mem_map.1 hl
      exact (h.imports i hi).1
  · obtain ⟨ls, hls, rfl⟩ := List.mem_map.1 mem
    exact (h.shapes ls hls).trim.paragraph

theorem paragraph_origin (h : Regular f blocks) :
    ∀ p ∈ [originLines f.timestamp f.source], Paragraph p := by
  intro p mem
  rw [List.mem_singleton.1 mem]
  exact paragraph_comments (fun l hl => (h.origin l hl).comment) (by simp [originLines])

theorem paragraph_first : Paragraph ["// @flow".toList] :=
  paragraph_comments (by decide) (by simp)

theorem collapsedLines_text (h : Regular f blocks) : collapsedLines f.text =
    titleLines f.timestamp f.source ++ apart (paragraphs f blocks) := by
  have title : (titleLines f.timestamp f.source).map trim = titleLines f.timestamp f.source :=
    map_trim fun l mem => (h.remark_title l mem).2
  have imported : (f.imports.map Import.text).map trim = f.imports.map Import.text := by
    refine map_trim fun l mem => ?_
    obtain ⟨i, hi, rfl⟩ := List.mem_map.1 mem
    exact (h.imports i hi).2
  have below := collapse_apart h.paragraph
  have blank : trim [] = [] := rfl
  rw [collapsedLines, h.lines_text, List.map_append, title, List.map_append, List.map_cons,
    imported, map_trim_apart, blank, titleLines_eq, List.append_assoc,
    collapse_paragraphs paragraph_first h.paragraph_origin, List.append_assoc]
  refine (List.append_right_inj _).2 ((List.append_right_inj _).2 ?_)
  -- Without imports two blank lines meet below the title, of which one stays.
  by_cases none : f.imports = []
  · rw [none, List.map_nil, List.cons_append, collapseFrom_blank]
    simpa [paragraphs, none] using below true
  · simpa [paragraphs, none, apart] using below false

theorem reindent_title (h : Regular f blocks) :
    reindent (titleLines f.timestamp f.source ++ apart (paragraphs f blocks)) =
      titleLines f.timestamp f.source ++ apart ((paragraphs f blocks).map reindent) := by
  have origin := reindent_comments fun l mem => (h.origin l mem).comment
  have first : reindent ["// @flow".toList] = ["// @flow".toList] := reindent_comments (by decide)
  have all : ∀ p ∈ originLines f.timestamp f.source :: paragraphs f blocks, Paragraph p := by
    intro p mem
    rcases List.mem_cons.1 mem with rfl | mem
    · exact h.paragraph_origin _ (by simp)
    · exact h.paragraph p mem
  have laid := reindent_paragraphs paragraph_first all
  rw [List.map_cons, origin, first] at laid
  rw [titleLines_eq]
  simpa [apart] using laid

theorem reindent_imports (h : Regular f blocks) :
    reindent (f.imports.map Import.text) = f.imports.map Import.text := by
  refine reindent_rows fun l mem => ?_
  obtain ⟨i, hi, rfl⟩ := List.mem_map.1 mem
  exact (h.imports i hi).1

/-- The blocks below the imports, each as it is laid out by itself. -/
theorem flatMap_blocks (h : Regular f blocks) :
    (apart (blocks.map fun ls => reindent (ls.map trim))).flatMap line =
      f.blocks.flatMap fun block => line [] ++ format block := by
  rw [h.blocks_eq, apart, List.flatMap_map, List.flatMap_map, List.flatMap_assoc]
  refine List.flatMap_congr fun ls mem => ?_
  rw [format_joined (h.shapes ls mem), List.flatMap_cons]

/-- **A regular file is laid out block by block.** -/
theorem format_text (h : Regular f blocks) : format f.text =
    (titleLines f.timestamp f.source ++
      if f.imports = [] then [] else [] :: f.imports.map Import.text).flatMap line ++
      f.blocks.flatMap fun block => line [] ++ format block := by
  have whole : reindent (collapsedLines f.text) = (titleLines f.timestamp f.source ++
      if f.imports = [] then [] else [] :: f.imports.map Import.text) ++
      apart (blocks.map fun ls => reindent (ls.map trim)) := by
    have single : (reindent ∘ fun ls : List Text => ls.map trim) =
      fun ls => reindent (ls.map trim) := rfl
    rw [h.collapsedLines_text, h.reindent_title, paragraphs, List.map_append, List.map_map,
      List.append_assoc, single]
    refine (List.append_right_inj _).2 ?_
    by_cases none : f.imports = []
    · simp [none]
    · simp [none, apart, h.reindent_imports]
  rw [format, whole, intercalate_append_lineFeed (by simp [titleLines]), List.flatMap_append,
    h.flatMap_blocks]

end Regular

/-! ## Blocks of a document -/

theorem texts_ofDefinitions {scope : Scope} {ds : List Definition} {texts : List Text}
    (h : (Blocks.ofDefinitions scope ds).texts = .ok texts) :
    ds.filterMap (·.block? scope) = texts.map .ok := by
  induction ds generalizing texts with
  | nil =>
    cases h
    rfl
  | cons d ds ih =>
    rw [Blocks.ofDefinitions] at h
    cases block : d.block? scope with
    | none =>
      rw [block] at h
      rw [List.filterMap_cons_none block]
      exact ih h
    | some result =>
      rw [block] at h
      rw [List.filterMap_cons_some block]
      cases result with
      | error e => cases h
      | ok text =>
        cases others : (Blocks.ofDefinitions scope ds).texts with
        | error e => simp [others, Functor.map, Except.map] at h
        | ok more =>
          simp only [others, Functor.map, Except.map, Except.ok.injEq] at h
          subst h
          rw [ih others, List.map_cons]

/-- The texts of definitions whose blocks have lines of a shape. -/
theorem exists_shapes {scope : Scope} {ds : List Definition} {texts : List Text}
    (h : ds.filterMap (·.block? scope) = texts.map .ok)
    (shape : ∀ d ∈ ds, ∀ text, d.block? scope = some (.ok text) →
      ∃ ls, Shape ls ∧ text = joined "\n" ls) :
    ∃ blocks : List (List Text), (∀ ls ∈ blocks, Shape ls) ∧ texts = blocks.map (joined "\n") := by
  have each : ∀ text ∈ texts, ∃ ls, Shape ls ∧ text = joined "\n" ls := by
    intro text mem
    have made : Except.ok text ∈ ds.filterMap (·.block? scope) := h ▸ List.mem_map_of_mem mem
    obtain ⟨d, hd, eq⟩ := List.mem_filterMap.1 made
    exact shape d hd text eq
  clear h
  induction texts with
  | nil => exact ⟨[], by simp, rfl⟩
  | cons text texts ih =>
    obtain ⟨ls, hls, eq⟩ := each text (by simp)
    obtain ⟨blocks, shapes, others⟩ := ih fun t mem => each t (List.mem_cons_of_mem _ mem)
    refine ⟨ls :: blocks, fun ms mem => ?_, by rw [List.map_cons, eq, others]⟩
    rcases List.mem_cons.1 mem with rfl | mem
    · exact hls
    · exact shapes ms mem

/-! ## Imports of a program -/

theorem Import.trim_text (i : Import) : trim i.text = i.text := by
  have head : i.text.head? = some 'i' := by
    unfold Import.text
    simp only [List.head?_append]
    rfl
  have last : i.text.getLast? = some ';' := by
    unfold Import.text
    rw [List.getLast?_append]
    rfl
  refine trim_eq_self (fun c mem => ?_) fun c mem => ?_
  · rw [head] at mem
    cases mem
    decide
  · rw [last] at mem
    cases mem
    decide

/-- An import is a line of the file before its layout. -/
theorem Import.mem_lines_text {f : DeclarationFile} {i : Import} (mem : i ∈ f.imports)
    (u : Unbroken i.text) : i.text ∈ Text.lines f.text := by
  obtain ⟨before, after, eq⟩ := List.append_of_mem mem
  let front := titleLines f.timestamp f.source ++ [[]] ++ before.map Import.text
  have above : f.header ++ (before.flatMap fun i => line i.text) =
      ['\n'].intercalate front ++ ['\n'] := by
    have title : f.header = (titleLines f.timestamp f.source ++ [[]]).flatMap line :=
      header_eq f.imports f.blocks
    rw [intercalate_append_lineFeed (by simp [front]), title]
    simp [front, List.flatMap_map]
  have cut : f.text = ['\n'].intercalate front ++
      '\n' :: (i.text ++ '\n' :: ((after.flatMap fun i => line i.text) ++
        f.blocks.flatMap fun block => line "" ++ line block)) := by
    rw [DeclarationFile.text, eq, List.flatMap_append, ← List.append_assoc, above]
    simp [line]
  rw [cut]
  exact mem_lines_between u

theorem row_imports {here : Text} {p : Program} {imports : List Import}
    (paths : ∀ path ∈ p.paths, path.Quiet)
    (base : (∀ path ∈ p.paths, Path.isAbsolute path = true) ∨ here.Quiet)
    (h : p.imports? here = some imports) : ∀ i ∈ imports, Row i.text := by
  intro i mem
  obtain ⟨path, hp, made⟩ := exists_of_mapM_option h i mem
  have known := (List.mem_filter.1 hp).1
  obtain ⟨relative, led, rfl⟩ := Option.map_eq_some_iff.1 made
  refine Import.row_ofPath (Path.quiet_relative (paths path known) ?_ led)
  exact base.imp_left fun all => all path known

/-! ## Programs -/

theorem NameRule.isNeutral {rule : NameRule} (h : ∀ c ∈ rule.before ++ rule.after,
    isLetter c = true ∨ isNumber c = true ∨ c = '_') : rule.IsNeutral := by
  have neutral : AllNeutral (rule.before ++ rule.after) := by
    intro c mem
    rcases h c mem with letter | number | rfl
    · exact neutral_of_isLetter letter
    · exact neutral_of_isNumber number
    · decide
  exact ⟨neutral.of_subset fun c mem => by simp [mem], neutral.of_subset fun c mem => by simp [mem]⟩

/-- The source that a file names. -/
def FileOptions.source (options : FileOptions) (p : Program) : Option Text :=
  if options.withSource ∧ p.entry ≠ [] then some p.entry else none

/-- A generated file is the layout of a file with the blocks of the entry
    document and the imports of the program. -/
theorem generate_eq_ok {here timestamp text : Text} {options : FileOptions} {p : Program}
    (h : (p.generate here timestamp options).text = .ok text) :
    ∃ imports texts, p.imports? here = some imports ∧ (p.blocks options).texts = .ok texts ∧
      text = format (DeclarationFile.text ⟨timestamp, options.source p, imports, texts⟩) := by
  obtain ⟨texts, made, h⟩ := ok_of_bind h
  obtain ⟨imports, imported, h⟩ := ok_of_bind h
  refine ⟨imports, texts, ?_, ?_, (Except.ok.inj h).symm⟩
  · cases eq : p.imports? here with
    | none =>
      rw [eq] at imported
      cases imported
    | some found =>
      rw [eq] at imported
      cases imported
      rfl
  · cases eq : (p.blocks options).texts with
    | error e =>
      rw [eq] at made
      cases made
    | ok found =>
      rw [eq] at made
      cases made
      rfl

/-- A generated file has the imports of its program, and each of them in a line
    if it has no line ends. -/
theorem import_lines_of_generate {here timestamp text : Text} {options : FileOptions} {p : Program}
    {imports : List Import} (imported : p.imports? here = some imports)
    (h : (p.generate here timestamp options).text = .ok text) :
    (∃ texts, text =
      format (DeclarationFile.text ⟨timestamp, options.source p, imports, texts⟩)) ∧
    ∀ i ∈ imports, Unbroken i.text → ∃ depth, indent depth i.text ∈ Text.lines text := by
  obtain ⟨imports', texts, imported', -, rfl⟩ := generate_eq_ok h
  obtain rfl := Option.some.inj (imported.symm.trans imported')
  refine ⟨⟨texts, rfl⟩, fun i mem u => ?_⟩
  have ne : i.text ≠ [] := List.append_ne_nil_of_right_ne_nil _ (by decide)
  exact exists_indent_mem_format (Import.mem_lines_text mem u) i.trim_text ne

/-- **Declarations are laid out independently of their neighbours.**  The time
    is never empty, as none given stands for the current one; the working
    directory shows in the imports of relative paths only. -/
theorem generate_layout {here timestamp text s : Text} {options : FileOptions} {p : Program}
    {document : Document} (entry : p.documents.find? p.entry = some document)
    (parsed : Document.parse s = .ok document)
    (closed : ∀ piece ∈ Piece.ofText s, piece.isClosed = true)
    (strings : ∀ d ∈ document.definitions, ∀ content ∈ d.strings, Unbroken content)
    (rule : ∀ c ∈ options.rule.before ++ options.rule.after,
      isLetter c = true ∨ isNumber c = true ∨ c = '_')
    (time : timestamp.Clean) (known : timestamp ≠ [])
    (paths : ∀ path ∈ p.entry :: p.paths, path.Clean)
    (base : (∀ path ∈ p.paths, Path.isAbsolute path = true) ∨ here.Quiet)
    (generated : (p.generate here timestamp options).text = .ok text) :
    ∃ (imports : List Import) (texts : List Text), p.imports? here = some imports ∧
      p.definitions.filterMap (·.block? (options.scope p.definitions)) = texts.map .ok ∧
      text = (titleLines timestamp (options.source p) ++
          if imports = [] then [] else [] :: imports.map Import.text).flatMap line ++
        texts.flatMap (fun block => line [] ++ format block) ∧
      ∀ block ∈ texts, Framed (Text.lines (format block)) := by
  obtain ⟨imports, texts, imported, made, rfl⟩ := generate_eq_ok generated
  have filtered := texts_ofDefinitions made
  have definitions : p.definitions = document.definitions := by
    rw [Program.definitions, entry]
    rfl
  have neutral : KeepsNeutral (options.scope p.definitions).rename := fun name hn =>
    (NameRule.isNeutral rule).apply hn
  have shape : ∀ d ∈ p.definitions, ∀ t, d.block? (options.scope p.definitions) = some (.ok t) →
      ∃ ls, Shape ls ∧ t = joined "\n" ls := by
    intro d mem t written
    rw [definitions] at mem
    exact Definition.shape_block neutral (spelled_of_parse parsed closed d mem) (strings d mem)
      written
  obtain ⟨blocks, shapes, eq⟩ := exists_shapes filtered shape
  have regular : Regular ⟨timestamp, options.source p, imports, texts⟩ blocks := by
    refine ⟨remark_origin time known fun path hp => ?_, fun i hi => ⟨?_, i.trim_text⟩, shapes, eq⟩
    · rw [FileOptions.source] at hp
      split at hp
      · next named =>
        cases hp
        exact ⟨paths _ List.mem_cons_self, named.2⟩
      · cases hp
    · exact row_imports (fun path hp => (paths path (List.mem_cons_of_mem _ hp)).quiet) base
        imported i hi
  refine ⟨imports, texts, imported, filtered, regular.format_text, fun block mem => ?_⟩
  rw [eq] at mem
  obtain ⟨ls, hls, rfl⟩ := List.mem_map.1 mem
  have shaped := (shapes ls hls).trim
  have cut : Text.lines ((reindent (ls.map trim)).flatMap line) = reindent (ls.map trim) :=
    lines_flatMap_line (unbroken_reindentFrom shaped.unbroken 0)
  rw [format_joined (shapes ls hls), cut]
  exact shaped.framed

/-- A constant with brackets in its text, and a struct with rows below it. -/
def bracketSource : Text := "const string c = '(((' struct S \x7b 1: i32 x 2: list<S> y \x7d"

def bracketDocument : Document := (Document.parse bracketSource).toOption.getD default

def bracketProgram : Program :=
  ⟨"/a.thrift", [("/a.thrift", bracketDocument), ("/b.thrift", default)]⟩

theorem generate_layout_brackets :
    Document.parse bracketSource = .ok bracketDocument ∧
    ∃ (text : Text) (imports : List Import) (texts : List Text),
      (bracketProgram.generate "/" "now" .default).text = .ok text ∧
      bracketProgram.imports? "/" = some imports ∧
      text = (titleLines "now" none ++
          if imports = [] then [] else [] :: imports.map Import.text).flatMap line ++
        texts.flatMap (fun block => line [] ++ format block) ∧
      ∀ block ∈ texts, Framed (Text.lines (format block)) := by
  have parsed : Document.parse bracketSource = .ok bracketDocument := by
    have read : (Document.parse bracketSource).toOption.isSome = true := by decide +kernel
    unfold bracketDocument
    cases h : Document.parse bracketSource with
    | error e =>
      rw [h] at read
      cases read
    | ok document => rfl
  have strings : ∀ d ∈ bracketDocument.definitions, ∀ content ∈ d.strings, Unbroken content := by
    decide +kernel
  obtain ⟨text, generated⟩ :
      ∃ text, (bracketProgram.generate "/" "now" .default).text = .ok text := by
    have made : (bracketProgram.generate "/" "now" .default).text.toOption.isSome = true := by
      decide +kernel
    cases h : (bracketProgram.generate "/" "now" .default).text with
    | error e =>
      rw [h] at made
      cases made
    | ok text => exact ⟨text, rfl⟩
  have closed : ∀ piece ∈ Piece.ofText bracketSource, piece.isClosed = true := by
    decide +kernel
  have unnamed : FileOptions.default.rule.before ++ FileOptions.default.rule.after = [] := rfl
  obtain ⟨imports, texts, imported, -, eq, framed⟩ := generate_layout
    (p := bracketProgram) (s := bracketSource) rfl parsed closed strings (by simp [unnamed])
    (by decide) (by decide) (by decide +kernel) (.inl (by decide)) generated
  exact ⟨parsed, text, imports, texts, generated, imported, eq, framed⟩

end IdlFlow
