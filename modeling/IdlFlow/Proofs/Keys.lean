/-
  Keys of enums in values.

  * `Definition.ExportsUnion`: a definition exports a union of given alternatives;
  * `keyReference keys enum key`: a reference to a key as it would be written if no
    naming had a part in it.

  Main statement: a known key is written between quotes, as the union of its enum
  has it; an unknown one stays what it is exactly if the naming in use leaves it
  alone (`key_reference_kept_iff`), which a text in front of names does not
  (`not_kept_prefixed`).
-/
import IdlFlow.Proofs.Neighbours

namespace IdlFlow

open Text

/-! ## Quoted keys -/

namespace ValueExpr

/-- Neutral characters need no escapes. -/
theorem quoteContent_of_allNeutral {content : Text} (h : AllNeutral content) :
    quoteContent content = content := by
  fun_induction quoteContent content with
  | case1 => rfl
  | case2 => rfl
  | case3 c s ih => exact absurd (h '\\' (by simp)) (by decide)
  | case4 s ih => exact absurd (h '\'' (by simp)) (by decide)
  | case5 s ih => exact absurd (h '\n' (by simp)) (by decide)
  | case6 s ih => exact absurd (h '\r' (by simp)) (by decide)
  | case7 c s _ _ _ _ _ ih =>
    rw [ih fun d mem => h d (.tail _ mem)]

/-- A word is quoted as it is. -/
theorem quote_of_isWord {key : Text} (h : IsWord key) : quote key = '\'' :: key ++ ['\''] := by
  rw [quote, quoteContent_of_allNeutral h.allNeutral]

/-- There is one text at a place. -/
theorem Writes.unique {e : ValueExpr} {place : List Nat} {s t : Text} (hs : e.Writes place s)
    (ht : e.Writes place t) : s = t := by
  obtain ⟨part, found, ok, -⟩ := hs
  obtain ⟨other, found', ok', -⟩ := ht
  cases found.symm.trans found'
  exact Except.ok.inj (ok.symm.trans ok')

end ValueExpr

/-! ## Unions of keys -/

/-- The definition exports a union of the alternatives under a name. -/
def Definition.ExportsUnion (scope : Scope) (d : Definition) (name : Text)
    (alternatives : List Text) : Prop :=
  ∃ declarations, d.declarations? scope = some declarations ∧ ∃ union ∈ declarations,
    union.name = name ∧
    union.text = .ok ("export type " ++ name ++ " = " ++ joined " | " alternatives ++ ";")

/-- The name of the union of an enum's keys. -/
def Scope.keysName (scope : Scope) (enum : Text) : Text :=
  scope.rename enum ++ if scope.enumNumbers then "Keys" else ""

/-- **An enum with a key exports the union of its quoted keys.** -/
theorem Definition.exportsUnion_enum (scope : Scope) (enum : Text) {values : List EnumValue}
    (ne : values ≠ []) : (Definition.enum enum values).ExportsUnion scope (scope.keysName enum)
      ((values.map EnumValue.name).map fun key => '"' :: key ++ ['"']) := by
  have union (name : Text) : (Declaration.type name (.keys (values.map EnumValue.name))).text =
      .ok ("export type " ++ name ++ " = " ++
        joined " | " ((values.map EnumValue.name).map fun key => '"' :: key ++ ['"']) ++ ";") := by
    simp [Declaration.text, TypeBody.text, unionText, ne, bind, Except.bind, pure, Except.pure]
  refine ⟨enumDeclarations scope enum values, rfl, .type (scope.keysName enum) (.keys _), ?_, rfl,
    union _⟩
  unfold enumDeclarations Scope.keysName
  cases scope.enumNumbers <;> simp

/-! ## References to keys -/

/-- A reference to a key of an enum as it would be written if no naming had a part
    in it. -/
def keyReference (keys : List Text) (enum key : Text) : Text :=
  if keys.contains key then ValueExpr.quote key else enum ++ '.' :: key

theorem keyReference_of_mem {keys : List Text} {key : Text} (h : key ∈ keys) (enum : Text) :
    keyReference keys enum key = ValueExpr.quote key :=
  if_pos (List.contains_iff_mem.2 h)

theorem keyReference_of_not_mem {keys : List Text} {key : Text} (h : key ∉ keys) (enum : Text) :
    keyReference keys enum key = enum ++ '.' :: key :=
  if_neg fun known => h (List.contains_iff_mem.1 known)

theorem NameRule.segment_eq_self_iff {rule : NameRule} (plain : rule.camelCase = false)
    (name : Text) : rule.segment name = name ↔ rule.before = [] ∧ rule.after = [] := by
  rw [segment_eq_append plain]
  constructor
  · intro same
    have lengths := congrArg List.length same
    simp only [List.length_append] at lengths
    exact ⟨List.length_eq_zero_iff.1 (by omega), List.length_eq_zero_iff.1 (by omega)⟩
  · rintro ⟨before, after⟩
    simp [before, after]

section References

variable {options : FileOptions} {definitions : List Definition} {enum key : Text}
  {values : List EnumValue}

/-- **A known key is quoted, an unknown one is changed like a name.** -/
theorem text_key (distinct : (definitions.map Definition.name).Nodup)
    (mem : .enum enum values ∈ definitions) (he : '.' ∉ enum) (hk : '.' ∉ key) :
    ((options.scope definitions).value (.identifier (enum ++ '.' :: key))).text =
      .ok (if key ∈ values.map EnumValue.name then ValueExpr.quote key
        else enum ++ '.' :: options.rule.segment key) := by
  have keys : enumKeys definitions enum = some (values.map EnumValue.name) :=
    enumKeys_of_mem distinct mem
  have once : ¬ 1 < (enum ++ '.' :: key).count '.' := by
    simp [List.count_eq_zero.2 he, List.count_eq_zero.2 hk]
  have renamed : options.rule.apply (enum ++ '.' :: key) =
      enum ++ '.' :: options.rule.segment key := by
    rw [NameRule.apply_append hk, NameRule.apply_of_no_dot hk]
  simp only [Scope.value, ValueExpr.ofConst, ValueExpr.ofReference, FileOptions.scope,
    Text.cutLast_append hk, keys, Option.getD_some, List.contains_iff_mem, if_neg once, renamed]
  split <;> rfl

/-- **Known keys are written as the union of their enum has them, and unknown ones
    as they are exactly if the naming in use leaves them alone.** -/
theorem key_reference_kept_iff (distinct : (definitions.map Definition.name).Nodup)
    (mem : .enum enum values ∈ definitions) (he : '.' ∉ enum) (hk : '.' ∉ key)
    {v : ConstValue} {place : List Nat}
    (found : descend ConstValue.parts place v = some (.identifier (enum ++ '.' :: key))) :
    ((options.scope definitions).value v).Writes place
      (if key ∈ values.map EnumValue.name then ValueExpr.quote key
        else enum ++ '.' :: options.rule.segment key) ∧
    (((options.scope definitions).value v).Writes place
        (keyReference (values.map EnumValue.name) enum key) ↔
      key ∈ values.map EnumValue.name ∨ options.rule.segment key = key) ∧
    (options.rule.camelCase = false →
      (options.rule.segment key = key ↔ options.rule.before = [] ∧ options.rule.after = [])) ∧
    (key ∈ values.map EnumValue.name → ∃ alternatives,
      (Definition.enum enum values).ExportsUnion (options.scope definitions)
        ((options.scope definitions).keysName enum) alternatives ∧
      '"' :: key ++ ['"'] ∈ alternatives) ∧
    (IsWord key → ValueExpr.quote key = '\'' :: key ++ ['\'']) := by
  have written : ((options.scope definitions).value v).Writes place
      (if key ∈ values.map EnumValue.name then ValueExpr.quote key
        else enum ++ '.' :: options.rule.segment key) :=
    (Scope.writes_of_text rfl (text_key distinct mem he hk)).value v place found
  refine ⟨written, ?_, fun plain => NameRule.segment_eq_self_iff plain key, fun known => ?_,
    ValueExpr.quote_of_isWord⟩
  · by_cases known : key ∈ values.map EnumValue.name
    · rw [if_pos known] at written
      exact iff_of_true (by rwa [keyReference_of_mem known]) (.inl known)
    · rw [if_neg known] at written
      rw [keyReference_of_not_mem known, or_iff_right known]
      constructor
      · intro kept
        simpa using written.unique kept
      · intro alone
        rwa [alone] at written
  · have ne : values ≠ [] := by
      rintro rfl
      cases known
    exact ⟨_, Definition.exportsUnion_enum _ enum ne, List.mem_map_of_mem known⟩

end References

/-- An enum, and a value with one of its keys and two that it does not have. -/
def palette : List Definition :=
  [.enum "Color" [⟨"RED", none⟩, ⟨"dark_red", none⟩], .record .struct "Shade" []]

def shades : ConstValue :=
  .map [(.identifier "Color.dark_red", .list [.identifier "Color.Dark", .identifier "Color.dark"])]

theorem key_reference_kept_nested : (palette.map Definition.name).Nodup ∧
    ((acrossOptions.scope palette).value shades).Writes [0] "'dark_red'" ∧
    ((acrossOptions.scope palette).value shades).Writes [1, 1] "Color.PDarkS" ∧
    ¬ ((acrossOptions.scope palette).value shades).Writes [1, 1] "Color.dark" ∧
    ((FileOptions.scope ⟨⟨[], [], true⟩, true, true⟩ palette).value shades).Writes [1, 0]
      "Color.Dark" := by
  have distinct : (palette.map Definition.name).Nodup := by decide
  have enum : '.' ∉ "Color".toList := by decide
  have known : descend ConstValue.parts [0] shades =
    some (.identifier ("Color".toList ++ '.' :: "dark_red".toList)) := rfl
  have dark : descend ConstValue.parts [1, 1] shades =
    some (.identifier ("Color".toList ++ '.' :: "dark".toList)) := rfl
  have capital : descend ConstValue.parts [1, 0] shades =
    some (.identifier ("Color".toList ++ '.' :: "Dark".toList)) := rfl
  obtain ⟨quoted, -⟩ :=
    @key_reference_kept_iff acrossOptions _ _ _ _ distinct (.head _) enum (by decide) _ _ known
  obtain ⟨changed, kept, -⟩ :=
    @key_reference_kept_iff acrossOptions _ _ _ _ distinct (.head _) enum (by decide) _ _ dark
  obtain ⟨same, -⟩ := @key_reference_kept_iff ⟨⟨[], [], true⟩, true, true⟩ _ _ _ _ distinct
    (.head _) enum (by decide) _ _ capital
  exact ⟨distinct, quoted, changed, fun as_is => absurd (kept.1 as_is) (by decide), same⟩

/-- An enum, and a constant with a key that the enum does not have. -/
def unknownSource : Text := "enum E \x7b A \x7d const E S = E.B"

/-- **A text in front of names is put in front of an unknown key.** -/
theorem not_kept_prefixed : ∃ (document : Document) (values : List EnumValue) (text : Text),
    Document.parse unknownSource = .ok document ∧
    (document.definitions.map Definition.name).Nodup ∧
    .enum "E" values ∈ document.definitions ∧
    .const "S" (.named "E") (.identifier "E.B") ∈ document.definitions ∧
    ((Program.single "/idl/main.thrift" document).generate "/" "now"
      ⟨⟨"P", [], false⟩, false, false⟩).text = .ok text ∧
    "export const PS: $Keys<typeof PE> = E.PB;".toList ∈ Text.lines text ∧
    "export const PS: $Keys<typeof PE> = ".toList ++
      keyReference (values.map EnumValue.name) "E" "B" ++ [';'] ∉ Text.lines text := by
  refine ⟨⟨[], [], [.enum "E" [⟨"A", none⟩], .const "S" (.named "E") (.identifier "E.B")]⟩, _, _,
    by decide +kernel, by decide, .head _, .tail _ (.head _), rfl, ?_, ?_⟩
  · decide +kernel
  · decide +kernel

end IdlFlow
