/-
  The names that a declaration file exports.

  * `Program.declarations`: the declarations of a file, block by block;
  * `Program.exportedNames`: the names of all of them;
  * `derivedWord numbers`: what the name of the second declaration of an enum goes
    on with.

  Main statements: put between two texts, without camel case, distinct names stay
  distinct (`NameRule.apply_injective`); so a file exports no name twice exactly if
  no definition has the name that an enum's second declaration gets
  (`exportedNames_nodup_iff`).  The second name of an enum is not kept apart from
  the names of other definitions (`not_nodup_exportedNames_derived`).
-/
import Mathlib.Data.List.Pairwise
import IdlFlow.Proofs.Neighbours

namespace IdlFlow

/-! ## Distinct names -/

/-- What stands before and after the last dot is told by the whole. -/
theorem append_dot_inj {s t u v : Text} (hs : '.' ∉ t) (hv : '.' ∉ v) :
    s ++ '.' :: t = u ++ '.' :: v ↔ s = u ∧ t = v := by
  constructor
  · intro eq
    have cut := congrArg (Text.cutLast '.') eq
    rw [Text.cutLast_append hs, Text.cutLast_append hv] at cut
    simpa using cut
  · rintro ⟨rfl, rfl⟩
    rfl

section Prepend

variable {front : Text}

theorem count_onLastSegment (front name : Text) :
    (onLastSegment (front ++ ·) name).count '.' = front.count '.' + name.count '.' := by
  by_cases h : '.' ∈ name
  · obtain ⟨module, last, free, rfl⟩ := Text.exists_last h
    rw [onLastSegment_append free]
    simp only [List.count_append, List.count_cons_self]
    omega
  · rw [onLastSegment_of_no_dot h, List.count_append]

/-- A text in front of the last segment keeps distinct names distinct. -/
theorem onLastSegment_injective (front : Text) :
    Function.Injective (onLastSegment (front ++ ·)) := by
  intro name other same
  have dots : name.count '.' = other.count '.' := by
    have counts := congrArg (List.count '.') same
    rw [count_onLastSegment, count_onLastSegment] at counts
    exact Nat.add_left_cancel counts
  by_cases h : '.' ∈ name
  · have h' : '.' ∈ other := by
      rw [← List.count_pos_iff, ← dots]
      exact List.count_pos_iff.2 h
    obtain ⟨module, last, free, rfl⟩ := Text.exists_last h
    obtain ⟨module', last', free', rfl⟩ := Text.exists_last h'
    rw [onLastSegment_append free, onLastSegment_append free'] at same
    -- If the text in front has dots, the last of them is the last of the whole.
    by_cases dotted : '.' ∈ front
    · obtain ⟨start, finish, plain, rfl⟩ := Text.exists_last dotted
      have cut : (module ++ '.' :: start) ++ '.' :: (finish ++ last) =
          (module' ++ '.' :: start) ++ '.' :: (finish ++ last') := by simpa using same
      obtain ⟨modules, lasts⟩ :=
        (append_dot_inj (by simp [plain, free]) (by simp [plain, free'])).1 cut
      rw [List.append_cancel_right modules, List.append_cancel_left lasts]
    · obtain ⟨rfl, lasts⟩ :=
        (append_dot_inj (by simp [dotted, free]) (by simp [dotted, free'])).1 same
      rw [List.append_cancel_left lasts]
  · have h' : '.' ∉ other := by
      rw [← List.count_eq_zero, ← dots]
      exact List.count_eq_zero.2 h
    rw [onLastSegment_of_no_dot h, onLastSegment_of_no_dot h'] at same
    exact List.append_cancel_left same

end Prepend

namespace NameRule

variable {rule : NameRule} (plain : rule.camelCase = false)
include plain

theorem apply_eq_append (name : Text) :
    rule.apply name = onLastSegment (rule.before ++ ·) name ++ rule.after := by
  by_cases h : '.' ∈ name
  · obtain ⟨module, last, free, rfl⟩ := Text.exists_last h
    rw [apply, onLastSegment_append free, onLastSegment_append free, segment_eq_append plain]
    simp
  · rw [apply, onLastSegment_of_no_dot h, onLastSegment_of_no_dot h, segment_eq_append plain]

/-- **Without camel case distinct names stay distinct.** -/
theorem apply_injective : Function.Injective rule.apply := by
  intro name other same
  rw [apply_eq_append plain, apply_eq_append plain, List.append_left_inj] at same
  exact onLastSegment_injective rule.before same

/-- A word behind a changed name may give another changed name. -/
theorem apply_eq_apply_append_iff {word : Text} (ne : word ≠ []) (free : '.' ∉ word)
    (name other : Text) : rule.apply name = rule.apply other ++ word ↔
      name ++ rule.after = other ++ rule.after ++ word := by
  rw [apply_eq_append plain, apply_eq_append plain]
  by_cases dotted : '.' ∈ rule.after
  · -- Behind the last dot there is the word on one side only.
    obtain ⟨start, finish, plain, eq⟩ := Text.exists_last dotted
    have never (s t : Text) : s ++ rule.after ≠ t ++ rule.after ++ word := by
      intro same
      rw [eq] at same
      have cut : (s ++ start) ++ '.' :: finish = (t ++ start) ++ '.' :: (finish ++ word) := by
        simpa using same
      have finishes := ((append_dot_inj plain (by simp [plain, free])).1 cut).2
      exact ne (List.append_right_eq_self.1 finishes.symm)
    exact iff_of_false (never _ _) (never _ _)
  · have moved {s : Text} (hs : '.' ∉ s) (name : Text) :
        onLastSegment (rule.before ++ ·) name ++ s =
          onLastSegment (rule.before ++ ·) (name ++ s) := by
      by_cases h : '.' ∈ name
      · obtain ⟨module, last, free, rfl⟩ := Text.exists_last h
        have whole : module ++ '.' :: last ++ s = module ++ '.' :: (last ++ s) := by simp
        rw [whole, onLastSegment_append free, onLastSegment_append (by simp [free, hs])]
        simp
      · rw [onLastSegment_of_no_dot h, onLastSegment_of_no_dot (by simp [h, hs]), List.append_assoc]
    rw [List.append_assoc, moved dotted, moved (by simp [dotted, free]),
      (onLastSegment_injective rule.before).eq_iff, List.append_assoc]

end NameRule

/-! ## Exported names -/

/-- The names that the declarations of a definition export. -/
def Definition.exportedNames (scope : Scope) (d : Definition) : List Text :=
  ((d.declarations? scope).getD []).map Declaration.name

/-- What the name of the second declaration of an enum goes on with; `numbers` says
    whether its plain name is that of its numbers. -/
def derivedWord (numbers : Bool) : Text := if numbers then "Keys" else "Values"

section Definitions

variable {scope : Scope} {d : Definition}

theorem derivedWord_ne_nil : ∀ numbers, derivedWord numbers ≠ [] := by decide

theorem dot_not_mem_derivedWord : ∀ numbers, '.' ∉ derivedWord numbers := by decide

theorem exportedNames_enum (name : Text) (values : List EnumValue) :
    (Definition.enum name values).exportedNames scope =
      if scope.enumNumbers then [scope.rename name, scope.rename name ++ "Keys"]
      else [scope.rename name ++ "Values", scope.rename name] := by
  unfold Definition.exportedNames Definition.declarations? enumDeclarations
  dsimp only
  split <;> rfl

/-- **A definition exports its name, and an enum one name more.** -/
theorem mem_exportedNames {name : Text} : name ∈ d.exportedNames scope ↔ d.skipped? = none ∧
    (name = scope.rename d.name ∨
      d.enumKeys?.isSome = true ∧ name = scope.rename d.name ++ derivedWord scope.enumNumbers) := by
  cases d with
  | record form => cases form <;> simp [Definition.exportedNames, Definition.declarations?,
      Definition.skipped?, Definition.enumKeys?, Definition.name, Declaration.name]
  | enum own values =>
    rw [exportedNames_enum]
    cases scope.enumNumbers with
    | true => simp [Definition.skipped?, Definition.enumKeys?, Definition.name,
        derivedWord]
    | false => simp [Definition.skipped?, Definition.enumKeys?, Definition.name,
        derivedWord, or_comm]
  | _ => simp [Definition.exportedNames, Definition.declarations?, Definition.skipped?,
      Definition.enumKeys?, Definition.name, Declaration.name]

/-- No definition exports a name twice. -/
theorem nodup_exportedNames_single (scope : Scope) (d : Definition) :
    (d.exportedNames scope).Nodup := by
  cases d with
  | record form => cases form <;> exact List.nodup_singleton _
  | enum name values =>
    rw [exportedNames_enum]
    split <;> simp
  | unsupported => exact List.nodup_nil
  | _ => exact List.nodup_singleton _

/-- Where distinct names stay distinct, no name is exported twice exactly if no
    definition has the second name of an enum. -/
theorem nodup_flatMap_exportedNames {ds : List Definition}
    (injective : Function.Injective scope.rename)
    (distinct : ((ds.filter (·.skipped? = none)).map Definition.name).Nodup) :
    (ds.flatMap (·.exportedNames scope)).Nodup ↔
      ∀ e ∈ ds, e.enumKeys?.isSome = true → ∀ d ∈ ds, d.skipped? = none →
        scope.rename d.name ≠ scope.rename e.name ++ derivedWord scope.enumNumbers := by
  have apart : ds.Pairwise fun d e => d.skipped? = none → e.skipped? = none → d.name ≠ e.name := by
    simpa [List.Nodup, List.pairwise_map, List.pairwise_filter] using distinct
  rw [List.nodup_flatMap, and_iff_right fun d _ => nodup_exportedNames_single scope d]
  constructor
  · intro disjoint e he enum d hd supported same
    have ne : d ≠ e := by
      rintro rfl
      exact derivedWord_ne_nil _ (List.append_right_eq_self.1 same.symm)
    have symmetric : Std.Symm
        (Function.onFun List.Disjoint fun d : Definition => d.exportedNames scope) :=
      ⟨fun _ _ disjoint _ mem mem' => disjoint mem' mem⟩
    have none := disjoint.forall hd he ne
    obtain ⟨keys, found⟩ := Option.isSome_iff_exists.1 enum
    exact none (mem_exportedNames.2 ⟨supported, .inl rfl⟩)
      (mem_exportedNames.2 ⟨skipped?_of_enumKeys found, .inr ⟨enum, same⟩⟩)
  · intro free
    refine apart.imp_of_mem fun {d e} hd he other name mem mem' => ?_
    obtain ⟨supported, rfl | ⟨enum, rfl⟩⟩ := mem_exportedNames.1 mem
    · obtain ⟨supported', same | ⟨enum', same⟩⟩ := mem_exportedNames.1 mem'
      · exact other supported supported' (injective same)
      · exact free e he enum' d hd supported same
    · obtain ⟨supported', same | ⟨-, same⟩⟩ := mem_exportedNames.1 mem'
      · exact free d hd enum e he supported' same.symm
      · exact other supported supported' (injective (List.append_cancel_right same))

end Definitions

/-! ## Files -/

theorem Declaration.prefix_of_text {d : Declaration} {s : Text} (h : d.text = .ok s) :
    ("export type " ++ d.name ++ " = " : Text) <+: s ∨
      ("export const " ++ d.name ++ ": " : Text) <+: s := by
  cases d with
  | type name body =>
    obtain ⟨body, -, h⟩ := ok_of_bind h
    cases h
    exact .inl ((List.prefix_append _ body).trans (List.prefix_append _ _))
  | const name type value =>
    obtain ⟨value, -, h⟩ := ok_of_bind h
    cases h
    refine .inr ?_
    exact (((List.prefix_append _ type.text).trans (List.prefix_append _ _)).trans
      (List.prefix_append _ value)).trans (List.prefix_append _ _)

/-- The declarations of the file of a program, block by block. -/
def Program.declarations (options : FileOptions) (p : Program) : List (List Declaration) :=
  p.definitions.filterMap (·.declarations? (options.scope p.definitions))

/-- The names that the file of a program exports. -/
def Program.exportedNames (options : FileOptions) (p : Program) : List Text :=
  (p.declarations options).flatten.map Declaration.name

theorem exportedNames_eq (options : FileOptions) (p : Program) : p.exportedNames options =
    p.definitions.flatMap (·.exportedNames (options.scope p.definitions)) := by
  unfold Program.exportedNames Program.declarations
  generalize options.scope p.definitions = scope
  induction p.definitions with
  | nil => rfl
  | cons d ds ih =>
    rw [List.flatMap_cons, ← ih]
    cases made : d.declarations? scope <;> simp [Definition.exportedNames, made]

/-- A file has the blocks of its declarations. -/
theorem mapM_block_of_texts {scope : Scope} {ds : List Definition} {texts : List Text}
    (h : (Blocks.ofDefinitions scope ds).texts = .ok texts) :
    (ds.filterMap (·.declarations? scope)).mapM Declaration.block = .ok texts := by
  rw [mapM_eq_ok, List.map_filterMap]
  exact texts_ofDefinitions h

/-- **Without camel case, a file exports no name twice exactly if no definition has
    the second name of an enum.**  The text behind names stands in front of the
    word that the second name goes on with. -/
theorem exportedNames_nodup_iff {options : FileOptions} {p : Program}
    (plain : options.rule.camelCase = false)
    (distinct : ((p.definitions.filter (·.skipped? = none)).map Definition.name).Nodup) :
    (∀ here timestamp text, (p.generate here timestamp options).text = .ok text →
      ∃ imports texts, (p.declarations options).mapM Declaration.block = .ok texts ∧
        text = Layout.format (DeclarationFile.text ⟨timestamp, options.source p, imports, texts⟩)) ∧
    (∀ d ∈ (p.declarations options).flatten, ∀ s, d.text = .ok s →
      ("export type " ++ d.name ++ " = " : Text) <+: s ∨
        ("export const " ++ d.name ++ ": " : Text) <+: s) ∧
    ((p.exportedNames options).Nodup ↔
      ∀ e ∈ p.definitions, e.enumKeys?.isSome = true → ∀ d ∈ p.definitions, d.skipped? = none →
        d.name ++ options.rule.after ≠
          e.name ++ options.rule.after ++ derivedWord options.enumNumbers) := by
  refine ⟨fun here timestamp text generated => ?_, fun d _ s => Declaration.prefix_of_text, ?_⟩
  · obtain ⟨imports, texts, -, made, laid⟩ := generate_eq_ok generated
    exact ⟨imports, texts, mapM_block_of_texts made, laid⟩
  · have injective : Function.Injective (options.scope p.definitions).rename :=
      NameRule.apply_injective plain
    rw [exportedNames_eq, nodup_flatMap_exportedNames injective distinct]
    have clash (d e : Definition) :
        options.rule.apply d.name = options.rule.apply e.name ++ derivedWord options.enumNumbers ↔
          d.name ++ options.rule.after =
            e.name ++ options.rule.after ++ derivedWord options.enumNumbers :=
      NameRule.apply_eq_apply_append_iff plain (derivedWord_ne_nil _) (dot_not_mem_derivedWord _) ..
    exact forall₃_congr fun e _ _ => forall₃_congr fun d _ _ => not_congr (clash d e)

/-- An enum, and a struct with a name that the enum's second declaration has
    without a text behind names. -/
def valued : Program := .single "/m.thrift" ⟨[], [],
  [.enum "Color" [⟨"RED", none⟩], .record .struct "ColorValues" [], .unsupported "Senum" "Color"]⟩

/-- An enum, and a struct with a name that the enum's second declaration has with
    an `s` behind names. -/
def pluralValued : Program := .single "/m.thrift" ⟨[], [],
  [.enum "ns.Color" [⟨"RED", none⟩], .record .struct "ns.ColorsValue" []]⟩

theorem exportedNames_nodup_iff_valued :
    ((valued.definitions.filter (·.skipped? = none)).map Definition.name).Nodup ∧
    (valued.exportedNames ⟨⟨"P", "_t", false⟩, false, false⟩).Nodup ∧
    ((pluralValued.definitions.filter (·.skipped? = none)).map Definition.name).Nodup ∧
    ¬ (pluralValued.exportedNames ⟨⟨"P", "s", false⟩, false, false⟩).Nodup := by
  have distinct : ((valued.definitions.filter (·.skipped? = none)).map Definition.name).Nodup := by
    decide
  have distinct' :
      ((pluralValued.definitions.filter (·.skipped? = none)).map Definition.name).Nodup := by decide
  refine ⟨distinct, (exportedNames_nodup_iff rfl distinct).2.2.2 (by decide), distinct',
    fun nodup => ?_⟩
  have apart := (exportedNames_nodup_iff rfl distinct').2.2.1 nodup
  exact apart (.enum "ns.Color" [⟨"RED", none⟩]) (.head _) rfl
    (.record .struct "ns.ColorsValue" []) (.tail _ (.head _)) rfl (by decide)

/-- An enum, and a struct with the name that the enum's second declaration has. -/
def derivedSource : Text := "enum A \x7b X \x7d struct AValues \x7b \x7d"

/-- **The second name of an enum may be that of another definition.** -/
theorem not_nodup_exportedNames_derived : ∃ (document : Document) (text : Text),
    Document.parse derivedSource = .ok document ∧
    (document.definitions.map Definition.name).Nodup ∧
    (∀ d ∈ document.definitions, d.skipped? = none) ∧
    ((Program.single "/idl/main.thrift" document).generate "/" "now" .default).text = .ok text ∧
    ¬ ((Program.single "/idl/main.thrift" document).exportedNames .default).Nodup ∧
    "export type AValues = 0;".toList ∈ Text.lines text ∧
    "export type AValues = \x7b||\x7d;".toList ∈ Text.lines text := by
  refine ⟨⟨[], [], [.enum "A" [⟨"X", none⟩], .record .struct "AValues" []]⟩, _,
    by decide +kernel, by decide, by decide, rfl, by decide, ?_, ?_⟩
  · decide +kernel
  · decide +kernel

end IdlFlow
