/-
  The lines of declarations.

  * `Definition.strings`: the strings in the value of a constant;
  * `KeepsNeutral rename`: `rename` keeps neutral characters;
  * `BodyShape s`: the type `s` lies on one line, or has rows between braces.

  Main statement: the block of a spelled definition consists of lines of a
  shape (`Definition.shape_block`), given that the naming in use keeps neutral
  characters and that no line ends in the definition's strings, or none when
  they are written (`Definition.shape_block_of_quoted`).
-/
import IdlFlow.Proofs.Paragraphs
import IdlFlow.Proofs.Vocabulary

namespace IdlFlow

open Layout Text

/-! ## Results -/

section Results

variable {ε α β : Type}

/-- A sequence of two steps gives a value if both do. -/
theorem ok_of_bind {x : Except ε α} {f : α → Except ε β} {b : β} (h : x >>= f = .ok b) :
    ∃ a, x = .ok a ∧ f a = .ok b := by
  cases x with
  | error e => cases h
  | ok a => exact ⟨a, rfl, h⟩

theorem exists_of_isSome {x : Except ε α} (h : x.toOption.isSome = true) : ∃ a, x = .ok a := by
  cases x with
  | error e => cases h
  | ok a => exact ⟨a, rfl⟩

theorem mapM_eq_ok {f : α → Except ε β} {as : List α} {bs : List β} :
    as.mapM f = .ok bs ↔ as.map f = bs.map .ok := by
  induction as generalizing bs with
  | nil => cases bs <;> simp [pure, Except.pure]
  | cons a as ih =>
    rw [List.mapM_cons]
    constructor
    · intro h
      obtain ⟨first, eq, h⟩ := ok_of_bind h
      obtain ⟨others, rest, h⟩ := ok_of_bind h
      cases h
      rw [List.map_cons, eq, ih.1 rest, List.map_cons]
    · intro h
      cases bs with
      | nil => cases h
      | cons b bs =>
        obtain ⟨first, others⟩ := List.cons.inj h
        rw [first, ih.2 others]
        rfl

theorem exists_of_mapM {f : α → Except ε β} {as : List α} {bs : List β}
    (h : as.mapM f = .ok bs) : ∀ b ∈ bs, ∃ a ∈ as, f a = .ok b := by
  intro b mem
  have made : .ok b ∈ as.map f := mapM_eq_ok.1 h ▸ List.mem_map_of_mem mem
  exact List.mem_map.1 made

theorem exists_of_mapM_option {f : α → Option β} {as : List α} {bs : List β}
    (h : as.mapM f = some bs) : ∀ b ∈ bs, ∃ a ∈ as, f a = some b := by
  induction as generalizing bs with
  | nil =>
    cases h
    simp
  | cons a as ih =>
    rw [List.mapM_cons] at h
    obtain ⟨first, eq, h⟩ := Option.bind_eq_some_iff.1 h
    obtain ⟨others, rest, h⟩ := Option.bind_eq_some_iff.1 h
    cases h
    intro b mem
    rcases List.mem_cons.1 mem with rfl | mem
    · exact ⟨a, by simp, eq⟩
    · obtain ⟨c, mem, eq⟩ := ih rest b mem
      exact ⟨c, by simp [mem], eq⟩

end Results

/-! ## Strings of constants -/

namespace ConstValue

mutual

/-- The strings in a value. -/
def strings : ConstValue → List Text
  | .string content => [content]
  | .list items => stringsOfItems items
  | .map entries => stringsOfEntries entries
  | _ => []

def stringsOfItems : List ConstValue → List Text
  | [] => []
  | item :: items => item.strings ++ stringsOfItems items

def stringsOfEntries : List (ConstValue × ConstValue) → List Text
  | [] => []
  | (key, value) :: entries => key.strings ++ value.strings ++ stringsOfEntries entries

end

theorem strings_list (items : List ConstValue) : (list items).strings = items.flatMap strings := by
  rw [strings]
  induction items with
  | nil => rfl
  | cons item items ih => rw [stringsOfItems, ih, List.flatMap_cons]

theorem strings_map (entries : List (ConstValue × ConstValue)) :
    (map entries).strings = entries.flatMap fun entry => entry.1.strings ++ entry.2.strings := by
  rw [strings]
  induction entries with
  | nil => rfl
  | cons entry entries ih => rw [stringsOfEntries, ih, List.flatMap_cons]

end ConstValue

/-- The strings in the value of a constant. -/
def Definition.strings : Definition → List Text
  | .const _ _ value => value.strings
  | _ => []

/-! ## Type expressions -/

/-- The function keeps neutral characters. -/
def KeepsNeutral (rename : Text → Text) : Prop :=
  ∀ name, AllNeutral name → AllNeutral (rename name)

theorem IsWord.allNeutral {name : Text} (h : IsWord name) : AllNeutral name :=
  fun c mem => neutral_of_continuesWord (h.2 c mem)

theorem IsWord.head {name : Text} (h : IsWord name) : ∃ c ∈ name.head?, Neutral c := by
  cases name with
  | nil => exact absurd rfl h.1
  | cons c name => exact ⟨c, rfl, h.allNeutral c (by simp)⟩

namespace TypeExpr

variable {rename : Text → Text} {keys : EnumKeys}

theorem allNeutral_baseName : ∀ tag ∈ TypeRef.voidTag :: TypeRef.baseTags,
    ∃ name, baseNames.find? tag = some name ∧ AllNeutral name := by
  have names : ∀ tag ∈ TypeRef.voidTag :: TypeRef.baseTags,
      (baseNames.find? tag).isSome ∧ AllNeutral ((baseNames.find? tag).getD []) := by decide
  intro tag mem
  obtain ⟨some, neutral⟩ := names tag mem
  obtain ⟨name, eq⟩ := Option.isSome_iff_exists.1 some
  exact ⟨name, eq, by simpa [eq] using neutral⟩

theorem allNeutral_annotatedName {tag name : Text} {annotations : Assoc Text Text}
    (h : annotatedName? tag annotations = some name) : AllNeutral name := by
  have neutral : ∀ name ∈ annotatedNames, AllNeutral name := by decide
  rw [annotatedName?] at h
  split at h
  · have kept := (Option.filter_eq_some_iff.1 h).2
    exact neutral name (by simpa using kept)
  · cases h

theorem inline_dictionary {key value : TypeExpr} (hk : Inline key.text) (hv : Inline value.text) :
    Inline (dictionary key value).text := by
  obtain ⟨⟨k, wk⟩, uk⟩ := hk
  obtain ⟨⟨n, wn⟩, un⟩ := hv
  have opening : Weighs "\x7b[" 2 0 := by decide
  have middle : Weighs "]: " 0 1 := by decide
  have closing : Weighs "\x7d" 0 1 := by decide
  -- The two brackets in front close apart from each other, so the weights are added up.
  have whole := (((opening.append wk).append middle).append wn).append closing
  have opens : 2 + k + 0 + n + 0 = k + n + 2 := by omega
  have closes : 0 + k + 1 + n + 1 = k + n + 2 := by omega
  rw [opens, closes] at whole
  refine ⟨⟨_, whole⟩, ((Unbroken.append (.append ?_ uk) ?_).append un).append ?_⟩
  all_goals decide

/-- **The text of a spelled type lies on one line and closes what it opens.** -/
theorem inline_ofTypeRef (hr : KeepsNeutral rename) {t : TypeRef} (h : t.Spelled) :
    Inline (ofTypeRef rename keys t).text := by
  induction h with
  | @base tag annotations mem =>
    refine .of_neutral ?_
    obtain ⟨name, eq, neutral⟩ := allNeutral_baseName tag mem
    show AllNeutral ((annotatedName? tag annotations).getD ((baseNames.find? tag).getD _))
    rw [eq, Option.getD_some]
    cases annotated : annotatedName? tag annotations with
    | none => exact neutral
    | some other => exact allNeutral_annotatedName annotated
  | @named name word =>
    have neutral := Inline.of_neutral (hr name word.allNeutral)
    rw [ofTypeRef]
    split
    · have opening : Inline "$Keys<typeof " := by decide
      have closing : Inline ">" := by decide
      exact (opening.append neutral).append closing
    · exact neutral
  | list _ ih => exact ih.append (t := "[]") (by decide)
  | set _ ih => exact ih.append (t := "[]") (by decide)
  | map _ _ hk hv => exact inline_dictionary hk hv

end TypeExpr

/-! ## Value expressions -/

theorem numeral_of_writeInteger {i : Int} {s : Text} (h : writeInteger i = .ok s) :
    s = Decimal.numeral i := by
  unfold writeInteger Decimal.numeral? at h
  split at h
  · next eq =>
    cases h
    split at eq
    · exact (Option.some.inj eq).symm
    · cases eq
  · cases h

namespace ValueExpr

variable {rename : Text → Text} {keys : EnumKeys}

theorem unbroken_quoteContent {content : Text} (h : Unbroken content) :
    Unbroken (quoteContent content) := by
  fun_induction quoteContent content with
  | case1 => exact h
  | case2 => exact h
  | _ => simp_all [Unbroken] <;> decide

theorem inline_quote {content : Text} (h : Position.dangles content = false)
    (u : Unbroken (quoteContent content)) : Inline (quote content) :=
  .quoted (.inl rfl) (inside_quoteContent h) u

theorem dangles_of_allNeutral {s : Text} (h : AllNeutral s) : Position.dangles s = false :=
  Position.dangles_of_not_mem fun mem => absurd (h _ mem) (by decide)

/-- A reference becomes its key or a name. -/
theorem ofReference_cases (rename : Text → Text) (keys : EnumKeys) (reference : Text) :
    (∃ enum key, reference = enum ++ '.' :: key ∧
      ofReference rename keys reference = .string key) ∨
    ofReference rename keys reference =
      .name (if 1 < reference.count '.' then reference else rename reference) := by
  cases cut : cutLast '.' reference with
  | none =>
    right
    simp only [ofReference, cut]
  | some parts =>
    obtain ⟨enum, key⟩ := parts
    by_cases known : ((keys enum).getD []).contains key = true
    · left
      refine ⟨enum, key, append_of_cutLast cut, ?_⟩
      simp only [ofReference, cut, known, if_true]
    · right
      simp only [ofReference, cut, known]
      rfl

theorem inline_ofReference (hr : KeepsNeutral rename) {reference : Text}
    (h : AllNeutral reference) {s : Text}
    (written : (ofReference rename keys reference).text = .ok s) : Inline s := by
  rcases ofReference_cases rename keys reference with ⟨enum, key, rfl, eq⟩ | eq
  · -- The key is a part of the reference, so it needs no assumption on the enum.
    rw [eq] at written
    cases written
    have neutral : AllNeutral key := h.of_subset fun c mem => by simp [mem]
    exact inline_quote (dangles_of_allNeutral neutral)
      (unbroken_quoteContent (unbroken_of_allNeutral neutral))
  · rw [eq] at written
    cases written
    refine .of_neutral ?_
    split
    · exact h
    · exact hr _ h

theorem ofConsts_eq_map (items : List ConstValue) :
    ofConsts rename keys items = items.map (ofConst rename keys) := by
  induction items with
  | nil => rfl
  | cons item items ih => rw [ofConsts, ih, List.map_cons]

theorem ofEntries_eq_map (entries : List (ConstValue × ConstValue)) :
    ofEntries rename keys entries =
      entries.map fun entry => (ofConst rename keys entry.1, ofConst rename keys entry.2) := by
  induction entries with
  | nil => rfl
  | cons entry entries ih => rw [ofEntries, ih, List.map_cons]

theorem exists_of_texts {items : List ValueExpr} {parts : List Text}
    (h : texts items = .ok parts) : ∀ part ∈ parts, ∃ item ∈ items, item.text = .ok part := by
  induction items generalizing parts with
  | nil =>
    cases h
    simp
  | cons item items ih =>
    rw [texts] at h
    obtain ⟨first, written, h⟩ := ok_of_bind h
    obtain ⟨others, rest, h⟩ := ok_of_bind h
    cases h
    intro part mem
    rcases List.mem_cons.1 mem with rfl | mem
    · exact ⟨item, by simp, written⟩
    · obtain ⟨other, mem, eq⟩ := ih rest part mem
      exact ⟨other, by simp [mem], eq⟩

theorem exists_of_entryTexts {entries : List (ValueExpr × ValueExpr)} {parts : List Text}
    (h : entryTexts entries = .ok parts) :
    ∀ part ∈ parts, ∃ entry ∈ entries, ∃ key value, entry.1.text = .ok key ∧
      entry.2.text = .ok value ∧ part = key ++ ": " ++ value := by
  induction entries generalizing parts with
  | nil =>
    cases h
    simp
  | cons entry entries ih =>
    rw [entryTexts] at h
    obtain ⟨key, hk, h⟩ := ok_of_bind h
    obtain ⟨value, hv, h⟩ := ok_of_bind h
    obtain ⟨others, rest, h⟩ := ok_of_bind h
    cases h
    intro part mem
    rcases List.mem_cons.1 mem with rfl | mem
    · exact ⟨entry, by simp, key, value, hk, hv, rfl⟩
    · obtain ⟨other, mem, eq⟩ := ih rest part mem
      exact ⟨other, by simp [mem], eq⟩

theorem inline_array {items : List ValueExpr}
    (h : ∀ item ∈ items, ∀ {s : Text}, item.text = .ok s → Inline s) {s : Text}
    (written : (array items).text = .ok s) : Inline s := by
  rw [text] at written
  obtain ⟨parts, made, written⟩ := ok_of_bind written
  cases written
  refine .between (k := 1) ?_ (by decide) (by decide) (by decide) (by decide)
  refine .intercalate inline_comma fun part mem => ?_
  obtain ⟨item, hi, eq⟩ := exists_of_texts made part mem
  exact h item hi eq

theorem inline_object {entries : List (ValueExpr × ValueExpr)}
    (hk : ∀ entry ∈ entries, ∀ {s : Text}, entry.1.text = .ok s → Inline s)
    (hv : ∀ entry ∈ entries, ∀ {s : Text}, entry.2.text = .ok s → Inline s) {s : Text}
    (written : (object entries).text = .ok s) : Inline s := by
  rw [text] at written
  obtain ⟨parts, made, written⟩ := ok_of_bind written
  cases written
  refine .between (k := 1) ?_ (by decide) (by decide) (by decide) (by decide)
  refine .intercalate inline_comma fun part mem => ?_
  obtain ⟨entry, he, key, value, key_eq, value_eq, rfl⟩ := exists_of_entryTexts made part mem
  exact ((hk entry he key_eq).append inline_colon).append (hv entry he value_eq)

/-- **The text of a spelled value lies on one line and closes what it opens**, if
    its strings are written on one line. -/
theorem inline_ofConst (hr : KeepsNeutral rename) {v : ConstValue} (h : v.Spelled)
    (u : ∀ content ∈ v.strings, Unbroken (quoteContent content)) :
    ∀ {s : Text}, (ofConst rename keys v).text = .ok s → Inline s := by
  induction h with
  | @string content closed =>
    intro s written
    cases written
    exact inline_quote closed (u content (by simp [ConstValue.strings]))
  | integer i =>
    intro s written
    rw [numeral_of_writeInteger written]
    exact .of_neutral (.numeral i)
  | double x =>
    intro s written
    cases written
    exact .of_neutral (.double x)
  | bool b =>
    intro s written
    cases written
    cases b <;> decide
  | identifier word =>
    intro s written
    exact inline_ofReference hr word.allNeutral written
  | @list items _ ih =>
    intro s written
    rw [ConstValue.strings_list] at u
    rw [ofConst, ofConsts_eq_map] at written
    refine inline_array (fun made mem => ?_) written
    obtain ⟨item, hi, rfl⟩ := List.mem_map.1 mem
    exact ih item hi fun c hc => u c (List.mem_flatMap.2 ⟨item, hi, hc⟩)
  | @map entries _ _ ihk ihv =>
    intro s written
    rw [ConstValue.strings_map] at u
    rw [ofConst, ofEntries_eq_map] at written
    have strings {entry : ConstValue × ConstValue} (he : entry ∈ entries) (c : Text)
        (hc : c ∈ entry.1.strings ++ entry.2.strings) : Unbroken (quoteContent c) :=
      u c (List.mem_flatMap.2 ⟨entry, he, hc⟩)
    refine inline_object (fun made mem => ?_) (fun made mem => ?_) written
    · obtain ⟨entry, he, rfl⟩ := List.mem_map.1 mem
      exact ihk entry he fun c hc => strings he c (List.mem_append_left _ hc)
    · obtain ⟨entry, he, rfl⟩ := List.mem_map.1 mem
      exact ihv entry he fun c hc => strings he c (List.mem_append_right _ hc)

end ValueExpr

/-! ## Lines of declarations -/

/-- Lines with a mark behind every one but the last. -/
def marked (mark : Text) : List Text → List Text
  | [] => []
  | [l] => [l]
  | l :: m :: ls => (l ++ mark) :: marked mark (m :: ls)

theorem marked_ne_nil {mark : Text} {ls : List Text} (ne : ls ≠ []) : marked mark ls ≠ [] := by
  match ls with
  | [] => exact absurd rfl ne
  | [_] => simp [marked]
  | _ :: _ :: _ => simp [marked]

theorem intercalate_marked (mark : Text) (ls : List Text) :
    (mark ++ ['\n']).intercalate ls = ['\n'].intercalate (marked mark ls) := by
  induction ls with
  | nil => rfl
  | cons l ls ih =>
    cases ls with
    | nil => rfl
    | cons m ls =>
      cases others : marked mark (m :: ls) with
      | nil => exact absurd others (marked_ne_nil (by simp))
      | cons n ns =>
        rw [List.intercalate_cons_cons, ih, marked, others, List.intercalate_cons_cons]
        simp only [List.append_assoc]

theorem exists_of_mem_marked {mark l : Text} {ls : List Text} (h : l ∈ marked mark ls) :
    ∃ m ∈ ls, l = m ∨ l = m ++ mark := by
  induction ls with
  | nil => cases h
  | cons m ls ih =>
    cases ls with
    | nil => exact ⟨m, by simp, .inl (List.mem_singleton.1 h)⟩
    | cons n ls =>
      rcases List.mem_cons.1 h with rfl | h
      · exact ⟨m, by simp, .inr rfl⟩
      · obtain ⟨k, mem, eq⟩ := ih h
        exact ⟨k, List.mem_cons_of_mem _ mem, eq⟩

theorem intercalate_frame {first last : Text} {rows : List Text} (ne : rows ≠ []) :
    ['\n'].intercalate (first :: rows ++ [last]) =
      first ++ ['\n'] ++ ['\n'].intercalate rows ++ ['\n'] ++ last := by
  induction rows generalizing first with
  | nil => exact absurd rfl ne
  | cons row rows ih =>
    rw [List.cons_append, List.cons_append, List.intercalate_cons_cons]
    cases rows with
    | nil => simp [List.intercalate_cons_cons, List.intercalate_singleton]
    | cons next rows =>
      rw [← List.cons_append, ih (by simp), List.intercalate_cons_cons]
      simp only [List.append_assoc]

/-- The text of a type lies on one line, or has rows between exact braces. -/
inductive BodyShape : Text → Prop
  | inline {s} : Inline s → BodyShape s
  | block {mark separator rows} : separator = mark ++ ['\n'] →
      (∀ row ∈ rows, Row row ∧ Row (row ++ mark)) → rows ≠ [] →
      BodyShape (TypeBody.block separator rows)

theorem row_type {name body : Text} (hn : AllNeutral name) (hb : Inline body) :
    Row ("export type " ++ name ++ " = " ++ body ++ ";") := by
  have opening : Inline "export type " := by decide
  have line := (((opening.append (.of_neutral hn)).append inline_equals).append hb).append
    inline_semicolon
  refine .of_inline ?_ line
  exact head_append (head_append (head_append (head_append ⟨'e', by decide, by decide⟩)))

theorem row_const {name type value : Text} (hn : AllNeutral name) (ht : Inline type)
    (hv : Inline value) :
    Row ("export const " ++ name ++ ": " ++ type ++ " = " ++ value ++ ";") := by
  have opening : Inline "export const " := by decide
  have line := (((((opening.append (.of_neutral hn)).append inline_colon).append ht).append
    inline_equals).append hv).append inline_semicolon
  refine .of_inline ?_ line
  exact head_append (head_append (head_append (head_append (head_append (head_append
    ⟨'e', by decide, by decide⟩)))))

/-- A type with rows, line by line. -/
theorem text_frame {name mark : Text} {rows : List Text} (ne : marked mark rows ≠ []) :
    "export type " ++ name ++ " = " ++ TypeBody.block (mark ++ ['\n']) rows ++ ";" =
      joined "\n" (("export type " ++ name ++ " = \x7b|") :: marked mark rows ++ [closingLine]) := by
  have opening : (" = \x7b|" : Text) = " = " ++ "\x7b|" := by decide
  have braces : ("\x7b|\n" : Text) = "\x7b|" ++ ['\n'] := by decide
  have closing : (closingLine : Text) = "|\x7d" ++ ";" := by decide
  have feed : ("\n|\x7d" : Text) = ['\n'] ++ "|\x7d" := by decide
  show _ = ['\n'].intercalate _
  rw [intercalate_frame ne, ← intercalate_marked, TypeBody.block, opening, braces, closing, feed]
  simp only [joined, List.append_assoc]

theorem shape_type {name body : Text} (hn : AllNeutral name) (hb : BodyShape body) :
    ∃ ls, Shape ls ∧ "export type " ++ name ++ " = " ++ body ++ ";" = joined "\n" ls := by
  cases hb with
  | inline hb => exact ⟨_, .single (row_type hn hb), (List.intercalate_singleton ..).symm⟩
  | @block mark _ rows eq h ne =>
    subst eq
    refine ⟨_, .frame ?_ ?_, text_frame (marked_ne_nil ne)⟩
    · have opening : Weighs "export type " 0 0 := by decide
      have equals : Weighs " = \x7b|" 1 0 := by decide
      have plain : Weighs name 0 0 := weighs_of_isPlain fun d mem => isPlain_of_neutral (hn d mem)
      refine .of_weighs ?_ ((opening.append plain).append equals) ?_
      · exact head_append (head_append ⟨'e', by decide, by decide⟩)
      · exact (Unbroken.append (by decide) (unbroken_of_allNeutral hn)).append (by decide)
    · intro l mem
      obtain ⟨row, hrow, rfl | rfl⟩ := exists_of_mem_marked mem
      · exact (h l hrow).1
      · exact (h row hrow).2

/-! ## Declared types -/

theorem inline_unionText {parts : List Text} (h : ∀ part ∈ parts, Inline part) :
    Inline (unionText parts) := by
  unfold unionText
  split
  · decide
  · exact .intercalate (by decide) h

theorem inline_numbers {values : List Int} {s : Text}
    (h : (TypeBody.numbers values).text = .ok s) : Inline s := by
  obtain ⟨parts, written, h⟩ := ok_of_bind h
  cases h
  refine inline_unionText fun part mem => ?_
  obtain ⟨i, -, eq⟩ := exists_of_mapM written part mem
  rw [numeral_of_writeInteger eq]
  exact .of_neutral (.numeral i)

theorem inline_keys {names : List Text} (hn : ∀ name ∈ names, AllNeutral name) {s : Text}
    (h : (TypeBody.keys names).text = .ok s) : Inline s := by
  cases h
  refine inline_unionText fun part mem => ?_
  obtain ⟨name, known, rfl⟩ := List.mem_map.1 mem
  have neutral := hn name known
  refine .quoted (.inr rfl) (inside_of_dangles ?_ ?_) (unbroken_of_allNeutral neutral)
  · exact fun mem => absurd (neutral '"' mem) (by decide)
  · exact ValueExpr.dangles_of_allNeutral neutral

theorem text_of_type {name text : Text} {body : TypeBody}
    (h : (Declaration.type name body).text = .ok text) :
    ∃ s, body.text = .ok s ∧ text = "export type " ++ name ++ " = " ++ s ++ ";" := by
  obtain ⟨s, written, eq⟩ := ok_of_bind h
  cases eq
  exact ⟨s, written, rfl⟩

theorem text_of_const {name text : Text} {type : TypeExpr} {value : ValueExpr}
    (h : (Declaration.const name type value).text = .ok text) :
    ∃ s, value.text = .ok s ∧
      text = "export const " ++ name ++ ": " ++ type.text ++ " = " ++ s ++ ";" := by
  obtain ⟨s, written, eq⟩ := ok_of_bind h
  cases eq
  exact ⟨s, written, rfl⟩

theorem text_of_block {d : Declaration} {text : Text} (h : Declaration.block [d] = .ok text) :
    d.text = .ok text := by
  obtain ⟨texts, all, eq⟩ := ok_of_bind h
  cases eq
  rw [List.mapM_cons] at all
  obtain ⟨s, written, eq⟩ := ok_of_bind all
  cases eq
  rw [written]
  exact congrArg _ (List.intercalate_singleton ..).symm

theorem texts_of_block {d e : Declaration} {text : Text} (h : Declaration.block [d, e] = .ok text) :
    ∃ s t, d.text = .ok s ∧ e.text = .ok t ∧ text = joined "\n" [s, t] := by
  obtain ⟨texts, all, eq⟩ := ok_of_bind h
  cases eq
  rw [List.mapM_cons] at all
  obtain ⟨s, first, all⟩ := ok_of_bind all
  obtain ⟨ts, others, eq⟩ := ok_of_bind all
  cases eq
  rw [List.mapM_cons] at others
  obtain ⟨t, second, eq⟩ := ok_of_bind others
  cases eq
  exact ⟨s, t, first, second, rfl⟩

section Scope

variable {scope : Scope} (hr : KeepsNeutral scope.rename)

include hr in
theorem inline_named {f : Field} (h : f.Spelled) :
    Inline (f.name ++ ": " ++ (scope.type f.type).text) := by
  have type : Inline (scope.type f.type).text := TypeExpr.inline_ofTypeRef hr h.2
  exact ((Inline.of_neutral h.1.allNeutral).append inline_colon).append type

include hr in
theorem inline_property {f : Field} (h : f.Spelled) : Inline (scope.property f).text := by
  have type : Inline (scope.type f.type).text := TypeExpr.inline_ofTypeRef hr h.2
  have mark : Inline (if f.optional then "?" else "" : String) := by
    cases f.optional <;> decide
  exact ((((Inline.of_neutral h.1.allNeutral).append mark).append inline_colon).append
    type).append inline_semicolon

include hr in
theorem row_property {f : Field} (h : f.Spelled) : Row (scope.property f).text :=
  .of_inline (head_append (head_append (head_append (head_append h.1.head))))
    (inline_property hr h)

theorem inline_method {m : Method} (hn : AllNeutral m.name)
    (hp : ∀ p ∈ m.parameters, Inline (p.1 ++ ": " ++ p.2.text)) (hm : Inline m.returns.text) :
    Inline m.text := by
  have name : Weighs m.name 0 0 := weighs_of_isPlain fun c mem => isPlain_of_neutral (hn c mem)
  have opening : Weighs (m.name ++ ": (") (0 + 1) (0 + 0) := name.append (by decide)
  have closing : Weighs ") => " 0 1 := by decide
  have unbroken : Unbroken (m.name ++ ": (") := (unbroken_of_allNeutral hn).append (by decide)
  unfold Method.text
  refine (Inline.between (inline_comma.intercalate fun part mem => ?_) opening closing unbroken
    (by decide)).append hm
  obtain ⟨p, known, rfl⟩ := List.mem_map.1 mem
  exact hp p known

include hr in
theorem row_method {f : Function} (h : f.Spelled) {mark : Text} (hm : Inline mark) :
    Row ((scope.method f).text ++ mark) := by
  obtain ⟨word, returns, parameters⟩ := h
  refine .of_inline ?_ ((inline_method word.allNeutral (fun p mem => ?_) ?_).append hm)
  · exact head_append (head_append (head_append (head_append (head_append word.head))))
  · obtain ⟨q, hq, rfl⟩ := List.mem_map.1 mem
    exact inline_named hr (parameters q hq)
  · exact TypeExpr.inline_ofTypeRef hr returns

include hr in
theorem shape_object {fields : List Field} (h : ∀ f ∈ fields, f.Spelled) {s : Text}
    (written : (TypeBody.object (fields.map scope.property)).text = .ok s) : BodyShape s := by
  match fields, h, written with
  | [], _, written =>
    cases written
    exact .inline inline_exactBraces
  | [f], h, written =>
    cases written
    have property := inline_property hr (h f (by simp))
    exact .inline (property.between (k := 1) (by decide) (by decide) (by decide) (by decide))
  | f :: g :: fields, h, written =>
    cases written
    have rows : ∀ row ∈ ((f :: g :: fields).map scope.property).map Property.text,
        Row row ∧ Row (row ++ []) := by
      intro row mem
      rw [List.map_map] at mem
      obtain ⟨e, he, rfl⟩ := List.mem_map.1 mem
      rw [List.append_nil]
      exact ⟨row_property hr (h e he), row_property hr (h e he)⟩
    exact .block (List.nil_append _).symm rows (by simp)

include hr in
theorem shape_choice {fields : List Field} (h : ∀ f ∈ fields, f.Spelled) {s : Text}
    (written : (TypeBody.choice (fields.map scope.parameter)).text = .ok s) : BodyShape s := by
  match fields, h, written with
  | [], _, written =>
    cases written
    exact .inline inline_exactBraces
  | f :: fields, h, written =>
    cases written
    refine .inline (.intercalate (by decide) fun part mem => ?_)
    obtain ⟨_, made, rfl⟩ := List.mem_map.1 mem
    obtain ⟨g, hg, rfl⟩ := List.mem_map.1 made
    have opening : Weighs "\x7b|" 1 0 := by decide
    have closing : Weighs "|\x7d" 0 1 := by decide
    have braces := (inline_named hr (h g hg)).between opening closing (by decide) (by decide)
    simpa only [Scope.parameter, List.append_assoc] using braces

include hr in
theorem shape_methods {functions : List Function} (h : ∀ f ∈ functions, f.Spelled) {s : Text}
    (written : (TypeBody.methods (functions.map scope.method)).text = .ok s) : BodyShape s := by
  match functions, h, written with
  | [], _, written =>
    cases written
    exact .inline inline_exactBraces
  | f :: functions, h, written =>
    cases written
    have comma : Inline [','] := by decide
    have rows : ∀ row ∈ ((f :: functions).map scope.method).map Method.text,
        Row row ∧ Row (row ++ [',']) := by
      intro row mem
      rw [List.map_map] at mem
      obtain ⟨g, hg, rfl⟩ := List.mem_map.1 mem
      have row := row_method hr (h g hg) .nil
      rw [List.append_nil] at row
      exact ⟨row, row_method hr (h g hg) comma⟩
    exact .block rfl rows (by simp)

/-! ## Blocks -/

theorem shape_of_type {name : Text} {body : TypeBody} (hn : AllNeutral name)
    (hb : ∀ {s}, body.text = .ok s → BodyShape s) {text : Text}
    (written : Declaration.block [.type name body] = .ok text) :
    ∃ ls, Shape ls ∧ text = joined "\n" ls := by
  obtain ⟨s, body, rfl⟩ := text_of_type (text_of_block written)
  exact shape_type hn (hb body)

theorem shape_enum {name : Text} {values : List EnumValue} (hn : AllNeutral (scope.rename name))
    (hv : ∀ v ∈ values, IsWord v.name) {text : Text}
    (written : Declaration.block (enumDeclarations scope name values) = .ok text) :
    ∃ ls, Shape ls ∧ text = joined "\n" ls := by
  have names : ∀ key ∈ values.map EnumValue.name, AllNeutral key := by
    intro key mem
    obtain ⟨v, hv', rfl⟩ := List.mem_map.1 mem
    exact (hv v hv').allNeutral
  have suffixed {suffix : Text} (hs : AllNeutral suffix) :
      AllNeutral (scope.rename name ++ suffix) := hn.append hs
  unfold enumDeclarations at written
  split at written
  · obtain ⟨_, _, first, second, rfl⟩ := texts_of_block written
    obtain ⟨s, numbers, rfl⟩ := text_of_type first
    obtain ⟨t, keys, rfl⟩ := text_of_type second
    exact ⟨_, .pair (row_type hn (inline_numbers numbers))
      (row_type (suffixed (by decide)) (inline_keys names keys)), rfl⟩
  · obtain ⟨_, _, first, second, rfl⟩ := texts_of_block written
    obtain ⟨s, numbers, rfl⟩ := text_of_type first
    obtain ⟨t, keys, rfl⟩ := text_of_type second
    exact ⟨_, .pair (row_type (suffixed (by decide)) (inline_numbers numbers))
      (row_type hn (inline_keys names keys)), rfl⟩

include hr

theorem shape_const {name : Text} {type : TypeRef} {value : ConstValue} (hn : AllNeutral name)
    (ht : type.Spelled) (hv : value.Spelled)
    (u : ∀ content ∈ value.strings, Unbroken (ValueExpr.quoteContent content)) {text : Text}
    (written : Declaration.block [.const name (scope.type type) (scope.value value)] = .ok text) :
    ∃ ls, Shape ls ∧ text = joined "\n" ls := by
  obtain ⟨s, inner, rfl⟩ := text_of_const (text_of_block written)
  have typed : Inline (scope.type type).text := TypeExpr.inline_ofTypeRef hr ht
  have valued : Inline s := ValueExpr.inline_ofConst hr hv u inner
  exact ⟨_, .single (row_const hn typed valued), (List.intercalate_singleton ..).symm⟩

/-- **The lines of a block have a shape**, if strings are written on one line. -/
theorem Definition.shape_block_of_quoted {d : Definition} (h : d.Spelled)
    (u : ∀ content ∈ d.strings, Unbroken (ValueExpr.quoteContent content)) {text : Text}
    (written : d.block? scope = some (.ok text)) : ∃ ls, Shape ls ∧ text = joined "\n" ls := by
  cases d with
  | record form name fields =>
    have neutral := hr name h.1.allNeutral
    cases form with
    | union => exact shape_of_type neutral (shape_choice hr h.2) (Option.some.inj written)
    | struct => exact shape_of_type neutral (shape_object hr h.2) (Option.some.inj written)
    | exception => exact shape_of_type neutral (shape_object hr h.2) (Option.some.inj written)
  | enum name values => exact shape_enum (hr name h.1.allNeutral) h.2 (Option.some.inj written)
  | typedef name type =>
    refine shape_of_type (hr name h.1.allNeutral) (fun eq => ?_) (Option.some.inj written)
    cases eq
    exact .inline (TypeExpr.inline_ofTypeRef hr h.2)
  | service name base functions =>
    exact shape_of_type (hr name h.1.allNeutral) (shape_methods hr h.2)
      (Option.some.inj written)
  | const name type value =>
    exact shape_const hr (hr name h.1.allNeutral) h.2.1 h.2.2 u (Option.some.inj written)
  | unsupported what name => cases written

theorem Definition.shape_block {d : Definition} (h : d.Spelled)
    (u : ∀ content ∈ d.strings, Unbroken content) {text : Text}
    (written : d.block? scope = some (.ok text)) : ∃ ls, Shape ls ∧ text = joined "\n" ls :=
  shape_block_of_quoted hr h
    (fun content mem => ValueExpr.unbroken_quoteContent (u content mem)) written

end Scope

end IdlFlow
