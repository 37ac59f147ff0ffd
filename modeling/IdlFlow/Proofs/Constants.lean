/-
  The lines of constants.

  * `OneLine content`: the line ends in the content of a string are line feeds
    and carriage returns that no backslash takes;
  * `Scope.constLine`: the line that declares a constant.

  Main statement: the line of a constant is kept by layout exactly if its strings
  are of one line (`const_line_kept_iff`).  Other line ends are not escaped, so
  layout cuts the string there (`not_kept_lineSeparator`).
-/
import IdlFlow.Proofs.Generation
import IdlFlow.Proofs.Parts

namespace IdlFlow

open Layout Text DeclarationFile

/-! ## Strings -/

/-- Every line end in the content of a string is a line feed or a carriage
    return, with no backslash in front that takes it. -/
def OneLine (content : Text) : Prop :=
  ∀ before c after, content = before ++ c :: after → isLineEnd c = true →
    (c = '\n' ∨ c = '\r') ∧ Position.dangles before = false

theorem oneLine_cons {c : Char} (h : c ≠ '\\') {s : Text} :
    OneLine (c :: s) ↔ (isLineEnd c = true → c = '\n' ∨ c = '\r') ∧ OneLine s := by
  constructor
  · intro one
    refine ⟨fun ends => (one [] c s rfl ends).1, fun before d after eq ends => ?_⟩
    have kept := one (c :: before) d after (by rw [eq, List.cons_append]) ends
    rwa [Position.dangles_cons h] at kept
  · rintro ⟨first, rest⟩ before d after eq ends
    cases before with
    | nil =>
      obtain ⟨rfl, rfl⟩ : c = d ∧ s = after := by simpa using eq
      exact ⟨first ends, rfl⟩
    | cons e before =>
      obtain ⟨rfl, rfl⟩ : c = e ∧ s = before ++ d :: after := by simpa using eq
      rw [Position.dangles_cons h]
      exact rest before d after rfl ends

theorem oneLine_escape {c : Char} {s : Text} :
    OneLine ('\\' :: c :: s) ↔ isLineEnd c = false ∧ OneLine s := by
  constructor
  · intro one
    refine ⟨?_, fun before d after eq ends => ?_⟩
    · cases ends : isLineEnd c with
      | false => rfl
      | true => cases (one ['\\'] c s rfl ends).2
    · exact one ('\\' :: c :: before) d after (by rw [eq]; rfl) ends
  · rintro ⟨first, rest⟩ before d after eq ends
    match before, eq with
    | [], eq =>
      obtain ⟨rfl, -⟩ : '\\' = d ∧ c :: s = after := by simpa using eq
      cases ends
    | [_], eq =>
      obtain ⟨-, rfl, -⟩ : '\\' = _ ∧ c = d ∧ s = after := by simpa using eq
      rw [first] at ends
      cases ends
    | _ :: _ :: before, eq =>
      obtain ⟨rfl, rfl, rfl⟩ : '\\' = _ ∧ c = _ ∧ s = before ++ d :: after := by simpa using eq
      exact rest before d after rfl ends

theorem unbroken_cons {c : Char} {s : Text} :
    Unbroken (c :: s) ↔ isLineEnd c = false ∧ Unbroken s := List.forall_mem_cons

/-- **A string is written on one line exactly if it is of one line.** -/
theorem unbroken_quoteContent_iff (content : Text) :
    Unbroken (ValueExpr.quoteContent content) ↔ OneLine content := by
  fun_induction ValueExpr.quoteContent content with
  | case1 => simp [Unbroken, OneLine]
  | case2 =>
    refine iff_of_true (by decide) fun before c after eq ends => ?_
    cases before with
    | nil =>
      obtain ⟨rfl, -⟩ : '\\' = c ∧ [] = after := by simpa using eq
      cases ends
    | cons d before => simp at eq
  | case3 c s ih => rw [unbroken_cons, unbroken_cons, ih, oneLine_escape, and_iff_right (by decide)]
  | case4 s ih =>
    rw [unbroken_cons, unbroken_cons, ih, oneLine_cons (by decide)]
    simp [isLineEnd]
  | case5 s ih =>
    rw [unbroken_cons, unbroken_cons, ih, oneLine_cons (by decide)]
    simp [isLineEnd]
  | case6 s ih =>
    rw [unbroken_cons, unbroken_cons, ih, oneLine_cons (by decide)]
    simp [isLineEnd]
  | case7 c s h₁ h₂ h₃ h₄ h₅ ih =>
    have bare : c ≠ '\\' := by
      rintro rfl
      cases s with
      | nil => exact h₁ rfl rfl
      | cons d s => exact h₂ d s rfl rfl
    have feed : c ≠ '\n' := h₄
    have return_ : c ≠ '\r' := h₅
    rw [unbroken_cons, ih, oneLine_cons bare]
    simp [feed, return_]

theorem Unbroken.of_infix {s t : Text} (h : Unbroken t) (within : s <:+: t) : Unbroken s :=
  fun c mem => h c (within.subset mem)

namespace ValueExpr

variable {rename : Text → Text} {keys : EnumKeys}

/-- A value is written on one line exactly if all its strings are of one line. -/
theorem unbroken_text_iff (hr : KeepsNeutral rename) {v : ConstValue} (h : v.Spelled) {s : Text}
    (written : (ofConst rename keys v).text = .ok s) :
    Unbroken s ↔ ∀ content ∈ v.strings, OneLine content := by
  constructor
  · intro u content mem
    obtain ⟨place, found⟩ := ConstValue.exists_place_of_mem_strings h mem
    have expressed := descend_ofConst rename keys place v
    rw [found, Option.map_some] at expressed
    obtain ⟨t, ht, within⟩ := infix_text expressed written
    cases ht
    refine (unbroken_quoteContent_iff content).1 (Unbroken.of_infix u (.trans ?_ within))
    exact List.infix_append ['\''] _ ['\'']
  · intro one
    refine (inline_ofConst hr h (fun content mem => ?_) written).unbroken
    exact (unbroken_quoteContent_iff content).2 (one content mem)

end ValueExpr

/-! ## Lines -/

/-- The line that declares a constant with a written value. -/
def Scope.constLine (scope : Scope) (name : Text) (type : TypeRef) (written : Text) : Text :=
  "export const " ++ scope.rename name ++ ": " ++ (scope.type type).text ++ " = " ++ written ++ ";"

namespace Scope

variable {scope : Scope} {name written : Text} {type : TypeRef}

theorem head?_constLine : (scope.constLine name type written).head? = some 'e' := by
  unfold constLine
  simp only [List.head?_append]
  rfl

theorem constLine_ne_nil : scope.constLine name type written ≠ [] := by
  intro empty
  have head : (scope.constLine name type written).head? = some 'e' := head?_constLine
  rw [empty] at head
  cases head

theorem trim_constLine :
    trim (scope.constLine name type written) = scope.constLine name type written := by
  have last : (scope.constLine name type written).getLast? = some ';' := by
    unfold constLine
    rw [List.getLast?_append]
    rfl
  refine trim_eq_self (fun c mem => ?_) fun c mem => ?_
  · rw [head?_constLine] at mem
    cases mem
    decide
  · rw [last] at mem
    cases mem
    decide

/-- The line is in one piece exactly if the value is. -/
theorem unbroken_constLine_iff (hn : AllNeutral (scope.rename name))
    (ht : Inline (scope.type type).text) :
    Unbroken (scope.constLine name type written) ↔ Unbroken written := by
  constructor
  · intro u
    refine Unbroken.of_infix u ?_
    exact List.infix_append _ _ _
  · intro u
    have front : Unbroken "export const " := by decide
    have colon : Unbroken ": " := by decide
    have equals : Unbroken " = " := by decide
    have back : Unbroken ";" := by decide
    exact (((((front.append (unbroken_of_allNeutral hn)).append colon).append
      ht.unbroken).append equals).append u).append back

end Scope

/-- A constant is written as its line. -/
theorem Blocks.exists_constLine {scope : Scope} {ds : List Definition} {texts : List Text}
    (h : (ofDefinitions scope ds).texts = .ok texts) {name : Text} {type : TypeRef}
    {value : ConstValue} (mem : .const name type value ∈ ds) :
    ∃ written, (scope.value value).text = .ok written ∧
      scope.constLine name type written ∈ texts := by
  obtain ⟨result, made⟩ : ∃ result, (Definition.const name type value).block? scope = some result :=
    ⟨_, rfl⟩
  have found : result ∈ texts.map .ok := by
    rw [← texts_ofDefinitions h]
    exact List.mem_filterMap.2 ⟨_, mem, made⟩
  obtain ⟨text, ht, rfl⟩ := List.mem_map.1 found
  obtain ⟨written, ok, rfl⟩ := text_of_const (text_of_block (Option.some.inj made))
  exact ⟨written, ok, ht⟩

/-- A block of one line is a line of the file before its layout. -/
theorem mem_lines_text {f : DeclarationFile} {l : Text} (mem : l ∈ f.blocks) (u : Unbroken l) :
    l ∈ Text.lines f.text := by
  obtain ⟨before, after, eq⟩ := List.append_of_mem mem
  have cut : f.text = (f.header ++ (f.imports.flatMap fun i => line i.text) ++
      before.flatMap fun block => ['\n'] ++ line block) ++
      '\n' :: (l ++ '\n' :: after.flatMap fun block => ['\n'] ++ line block) := by
    simp [DeclarationFile.text, eq, line]
  rw [cut]
  exact mem_lines_between u

/-! ## Generated files -/

/-- Nothing around the definitions of a program has marks that layout knows.
    The working directory shows in the imports of relative paths only. -/
structure CleanSurroundings (here timestamp : Text) (p : Program) : Prop where
  time : timestamp.Clean
  known : timestamp ≠ []
  paths : ∀ path ∈ p.entry :: p.paths, path.Clean
  base : (∀ path ∈ p.paths, Path.isAbsolute path = true) ∨ here.Quiet

section Generated

variable {here timestamp text s : Text} {options : FileOptions} {p : Program}
  {document : Document} {name : Text} {type : TypeRef} {value : ConstValue}

/-- In clean surroundings a file whose blocks have lines of a shape is
    regular. -/
theorem CleanSurroundings.exists_regular {imports : List Import} {texts : List Text}
    (h : CleanSurroundings here timestamp p) (imported : p.imports? here = some imports)
    (made : (p.blocks options).texts = .ok texts)
    (shape : ∀ d ∈ p.definitions, ∀ t, d.block? (options.scope p.definitions) = some (.ok t) →
      ∃ ls, Shape ls ∧ t = joined "\n" ls) :
    ∃ blocks, Regular ⟨timestamp, options.source p, imports, texts⟩ blocks := by
  obtain ⟨blocks, shapes, eq⟩ := exists_shapes (texts_ofDefinitions made) shape
  refine ⟨blocks, remark_origin h.time h.known fun path hp => ?_, fun i hi => ⟨?_, i.trim_text⟩,
    shapes, eq⟩
  · rw [FileOptions.source] at hp
    split at hp
    · next named =>
      cases hp
      exact ⟨h.paths _ List.mem_cons_self, named.2⟩
    · cases hp
  · exact row_imports (fun path hp => (h.paths path (List.mem_cons_of_mem _ hp)).quiet) h.base
      imported i hi

/-- A line that is a block of a regular file is a line of its layout. -/
theorem Regular.mem_lines_format {f : DeclarationFile} {blocks : List (List Text)} {l : Text}
    (h : Regular f blocks) (mem : l ∈ f.blocks) (row : Row l) (trimmed : trim l = l) :
    l ∈ Text.lines (format f.text) := by
  have laid : format l = l ++ ['\n'] := by
    have alone := format_joined (.single row)
    rw [joined, List.intercalate_singleton, List.map_singleton, trimmed,
      reindent_rows (by simpa using row)] at alone
    simpa [line] using alone
  obtain ⟨before, after, eq⟩ := List.append_of_mem mem
  have cut : format f.text = ((titleLines f.timestamp f.source ++
      if f.imports = [] then [] else [] :: f.imports.map Import.text).flatMap line ++
      before.flatMap fun block => line [] ++ format block) ++
      '\n' :: (l ++ '\n' :: after.flatMap fun block => line [] ++ format block) := by
    rw [h.format_text, eq, List.flatMap_append, List.flatMap_append, List.flatMap_cons, laid, line]
    simp only [List.append_assoc, List.nil_append, List.cons_append]
  rw [cut]
  exact mem_lines_between row.unbroken

/-- **The line of a constant is kept exactly if its strings are of one line.** -/
theorem const_line_kept_iff (entry : p.documents.find? p.entry = some document)
    (parsed : Document.parse s = .ok document)
    (closed : ∀ piece ∈ Piece.ofText s, piece.isClosed = true)
    (rule : ∀ c ∈ options.rule.before ++ options.rule.after,
      isLetter c = true ∨ isNumber c = true ∨ c = '_')
    (generated : (p.generate here timestamp options).text = .ok text)
    (mem : .const name type value ∈ document.definitions) :
    ∃ written, ((options.scope p.definitions).value value).text = .ok written ∧
      ((∃ depth, indent depth ((options.scope p.definitions).constLine name type written) ∈
          Text.lines text) ↔ ∀ content ∈ value.strings, OneLine content) ∧
      (CleanSurroundings here timestamp p →
        (∀ d ∈ document.definitions, d ≠ .const name type value →
          ∀ content ∈ d.strings, OneLine content) →
        ((options.scope p.definitions).constLine name type written ∈ Text.lines text ↔
          ∀ content ∈ value.strings, OneLine content)) := by
  obtain ⟨imports, texts, imported, made, laid⟩ := generate_eq_ok generated
  rw [laid]
  have definitions : p.definitions = document.definitions := by
    rw [Program.definitions, entry]
    rfl
  rw [← definitions] at mem ⊢
  have spelled := spelled_of_parse parsed closed
  rw [← definitions] at spelled
  have neutral : KeepsNeutral (options.scope p.definitions).rename := fun name hn =>
    (NameRule.isNeutral rule).apply hn
  obtain ⟨word, typed, valued⟩ := spelled _ mem
  obtain ⟨written, ok, hl⟩ := Blocks.exists_constLine made mem
  have type_inline : Inline ((options.scope p.definitions).type type).text :=
    TypeExpr.inline_ofTypeRef neutral typed
  have single : Unbroken ((options.scope p.definitions).constLine name type written) ↔
      ∀ content ∈ value.strings, OneLine content :=
    (Scope.unbroken_constLine_iff (neutral name word.allNeutral) type_inline).trans
      (ValueExpr.unbroken_text_iff neutral valued ok)
  refine ⟨written, ok, ⟨?_, fun one => ?_⟩,
    fun surroundings others => ⟨fun kept => ?_, fun one => ?_⟩⟩
  · rintro ⟨depth, kept⟩
    exact single.1 (Unbroken.of_infix (unbroken_of_mem_lines kept) (List.suffix_append _ _).isInfix)
  · exact exists_indent_mem_format (mem_lines_text hl (single.2 one)) Scope.trim_constLine
      Scope.constLine_ne_nil
  · exact single.1 (unbroken_of_mem_lines kept)
  · have quoted : ∀ d ∈ p.definitions, ∀ content ∈ d.strings,
        Unbroken (ValueExpr.quoteContent content) := by
      intro d hd content hc
      refine (unbroken_quoteContent_iff content).2 ?_
      by_cases same : d = .const name type value
      · subst same
        exact one content hc
      · exact others d hd same content hc
    obtain ⟨blocks, regular⟩ := surroundings.exists_regular imported made fun d hd _ block =>
      Definition.shape_block_of_quoted neutral (spelled d hd) (quoted d hd) block
    have value := ValueExpr.inline_ofConst neutral valued (quoted _ mem) ok
    exact regular.mem_lines_format hl (row_const (neutral name word.allNeutral)
      type_inline value) Scope.trim_constLine

end Generated

/-- A constant with a line feed, a bracket and a quote in its strings. -/
def nestedSource : Text :=
  "const map<string, list<string>> M = \x7b'\n(': [\"it's\"]\x7d const string S = 'x'"

def nestedType : TypeRef := .map (.base "string" []) (.list (.base "string" []))

def nestedValue : ConstValue := .map [(.string "\n(", .list [.string "it's"])]

def nestedDocument : Document :=
  ⟨[], [], [.const "M" nestedType nestedValue, .const "S" (.base "string" []) (.string "x")]⟩

theorem parse_nestedSource : Document.parse nestedSource = .ok nestedDocument := by
  decide +kernel

/-- The program of one document, at an absolute path. -/
def nestedProgram : Program := .single "/a.thrift" nestedDocument

theorem const_line_kept_nested : Document.parse nestedSource = .ok nestedDocument ∧
    ∃ written text : Text, (nestedProgram.generate "/" "now" .default).text = .ok text ∧
      ((FileOptions.default.scope nestedProgram.definitions).value nestedValue).text = .ok written ∧
      (FileOptions.default.scope nestedProgram.definitions).constLine "M" nestedType written ∈
        Text.lines text := by
  obtain ⟨text, generated⟩ :
      ∃ text, (nestedProgram.generate "/" "now" .default).text = .ok text :=
    exists_of_isSome (by decide +kernel)
  have unnamed : FileOptions.default.rule.before ++ FileOptions.default.rule.after = [] := rfl
  obtain ⟨written, valued, -, kept⟩ := const_line_kept_iff (p := nestedProgram) (s := nestedSource)
    rfl parse_nestedSource (by decide +kernel) (by simp [unnamed]) generated List.mem_cons_self
  have surroundings : CleanSurroundings "/" "now" nestedProgram :=
    ⟨by decide, by decide, by decide +kernel, .inl (by decide)⟩
  have single : ∀ d ∈ nestedDocument.definitions, ∀ content ∈ d.strings, OneLine content := by
    have written : ∀ d ∈ nestedDocument.definitions, ∀ content ∈ d.strings,
        Unbroken (ValueExpr.quoteContent content) := by decide
    exact fun d hd content hc => (unbroken_quoteContent_iff content).1 (written d hd content hc)
  refine ⟨parse_nestedSource, written, text, generated, valued, (kept surroundings ?_).2 ?_⟩
  · exact fun d hd _ => single d hd
  · exact single _ List.mem_cons_self

/-- A constant with a line separator in its string. -/
def separatorSource : Text := "const string S = 'a\u2028b'"

/-- **A line separator cuts its string in two.** -/
theorem not_kept_lineSeparator : ∃ (document : Document) (type : TypeRef) (value : ConstValue)
    (written text : Text), Document.parse separatorSource = .ok document ∧
    (∀ piece ∈ Piece.ofText separatorSource, piece.isClosed = true) ∧
    .const "S" type value ∈ document.definitions ∧
    ((Program.single "/idl/main.thrift" document).generate "/" "now" .default).text = .ok text ∧
    ((FileOptions.default.scope document.definitions).value value).text = .ok written ∧
    (FileOptions.default.scope document.definitions).constLine "S" type written ∉ Text.lines text := by
  refine ⟨⟨[], [], [.const "S" (.base "string" []) (.string "a\u2028b")]⟩, _, _, _, _,
    by decide +kernel, by decide +kernel, List.mem_singleton_self _, rfl, rfl, ?_⟩
  decide +kernel

end IdlFlow
