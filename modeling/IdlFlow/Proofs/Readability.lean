/-
  Reading type expressions back.

  * `TypeExpr.Dictated index rename t e`: among definitions known by their names,
    the rules of types give the reference `t` the expression `e`;
  * `TypeRef.renamed t`: the names in `t` that go through the naming in use;
  * `PlainName name`: a name that is not empty and has none of the marks that type
    expressions are written with;
  * `upToClosing depth s`: `s` up to the square bracket that closes one more than
    are open.

  Main statements: the rules give every reference one expression
  (`dictated_iff`); an expression of plain names is told by its text
  (`text_inj`), since the last character tells what the expression is and a key
  ends where its bracket closes; so two references are written the same exactly
  if the rules give them the same expression (`text_eq_iff_dictated`).
-/
import Mathlib.Logic.ExistsUnique
import IdlFlow.Declaration.Basic

namespace IdlFlow

/-! ## Rules -/

/-- The keys of the enums among definitions known by their names. -/
def EnumKeys.ofIndex (index : Text → Option Definition) : EnumKeys :=
  fun name => (index name).bind Definition.enumKeys?

namespace TypeExpr

/-- The annotations give the base type a name. -/
structure Annotates (tag : Text) (annotations : Assoc Text Text) (name : Text) : Prop where
  tag : tag = "i64"
  given : annotations.find? annotationKey = some name
  known : name ∈ annotatedNames

/-- The rules of type expressions. -/
inductive Dictated (index : Text → Option Definition) (rename : Text → Text) :
    TypeRef → TypeExpr → Prop
  | list {t e} : Dictated index rename t e → Dictated index rename (.list t) (.array e)
  | set {t e} : Dictated index rename t e → Dictated index rename (.set t) (.array e)
  | map {t u e f} : Dictated index rename t e → Dictated index rename u f →
      Dictated index rename (.map t u) (.dictionary e f)
  | enum {n own values} : index n = some (.enum own values) →
      Dictated index rename (.named n) (.keysOf (rename n))
  | named {n} : (∀ own values, index n ≠ some (.enum own values)) →
      Dictated index rename (.named n) (.name (rename n))
  | annotated {tag annotations n} : Annotates tag annotations n →
      Dictated index rename (.base tag annotations) (.name n)
  | base {tag annotations n} : (∀ other, ¬ Annotates tag annotations other) →
      baseNames.find? tag = some n → Dictated index rename (.base tag annotations) (.name n)
  /-- A base type outside the table is named as it is tagged. -/
  | other {tag annotations} : (∀ other, ¬ Annotates tag annotations other) →
      baseNames.find? tag = none → Dictated index rename (.base tag annotations) (.name (rename tag))

theorem annotatedName?_eq_some {tag name : Text} {annotations : Assoc Text Text} :
    annotatedName? tag annotations = some name ↔ Annotates tag annotations name := by
  unfold annotatedName?
  constructor
  · intro h
    split at h
    · next tagged =>
      obtain ⟨given, known⟩ := Option.filter_eq_some_iff.1 h
      exact ⟨tagged, given, List.contains_iff_mem.1 known⟩
    · cases h
  · rintro ⟨tagged, given, known⟩
    rw [if_pos tagged, given]
    exact Option.filter_eq_some_iff.2 ⟨rfl, List.contains_iff_mem.2 known⟩

theorem annotatedName?_eq_none {tag : Text} {annotations : Assoc Text Text} :
    annotatedName? tag annotations = none ↔ ∀ name, ¬ Annotates tag annotations name :=
  Option.eq_none_iff_forall_ne_some.trans
    (forall_congr' fun _ => not_congr annotatedName?_eq_some)

section Rules

variable {index : Text → Option Definition} {rename : Text → Text}

theorem isSome_ofIndex {n : Text} :
    (EnumKeys.ofIndex index n).isSome = true ↔ ∃ own values, index n = some (.enum own values) := by
  unfold EnumKeys.ofIndex
  rcases index n with _ | d
  · simp
  · cases d <;> simp [Definition.enumKeys?]

/-- A base type is given one name. -/
theorem dictated_base (tag : Text) (annotations : Assoc Text Text) :
    Dictated index rename (.base tag annotations)
      (ofTypeRef rename (EnumKeys.ofIndex index) (.base tag annotations)) := by
  rw [ofTypeRef]
  cases annotated : annotatedName? tag annotations with
  | some name => exact .annotated (annotatedName?_eq_some.1 annotated)
  | none =>
    have none := annotatedName?_eq_none.1 annotated
    cases known : baseNames.find? tag with
    | some name => exact .base none known
    | none => exact .other none known

/-- **The rules give every reference one expression**, and it is the one that is
    made. -/
theorem dictated_iff {t : TypeRef} {e : TypeExpr} :
    Dictated index rename t e ↔ e = ofTypeRef rename (EnumKeys.ofIndex index) t := by
  constructor
  · intro h
    induction h with
    | list _ ih | set _ ih => rw [ofTypeRef, ih]
    | map _ _ ih ih' => rw [ofTypeRef, ih, ih']
    | enum found => rw [ofTypeRef, if_pos (isSome_ofIndex.2 ⟨_, _, found⟩)]
    | named none =>
      rw [ofTypeRef, if_neg]
      intro some
      obtain ⟨own, values, found⟩ := isSome_ofIndex.1 some
      exact none own values found
    | annotated h =>
      rw [ofTypeRef, annotatedName?_eq_some.2 h]
      rfl
    | base none known =>
      rw [ofTypeRef, annotatedName?_eq_none.2 none, known]
      rfl
    | other none unknown =>
      rw [ofTypeRef, annotatedName?_eq_none.2 none, unknown]
      rfl
  · rintro rfl
    induction t with
    | base tag annotations => exact dictated_base tag annotations
    | named n =>
      rw [ofTypeRef]
      split
      · next some =>
        obtain ⟨own, values, found⟩ := isSome_ofIndex.1 some
        exact .enum found
      · next none =>
        exact .named fun own values found => none (isSome_ofIndex.2 ⟨own, values, found⟩)
    | list item ih => exact .list ih
    | set item ih => exact .set ih
    | map key value ihk ihv => exact .map ihk ihv

end Rules

end TypeExpr

/-! ## Plain names -/

/-- The marks that type expressions are written with. -/
def typeMarks : List Char := ['[', ']', '{', '}', '<', '>', ':', '$', ' ']

/-- A name without marks. -/
def PlainName (name : Text) : Prop := name ≠ [] ∧ ∀ c ∈ name, c ∉ typeMarks

instance : DecidablePred PlainName := fun name =>
  @instDecidableAnd _ _ inferInstance (List.decidableBAll (· ∉ typeMarks) name)

/-- The names that go through the naming in use. -/
def TypeRef.renamed : TypeRef → List Text
  | base tag _ => if (TypeExpr.baseNames.find? tag).isSome then [] else [tag]
  | named n => [n]
  | list item | set item => item.renamed
  | map key value => key.renamed ++ value.renamed

namespace TypeExpr

/-- All names are plain. -/
def Plain : TypeExpr → Prop
  | name n | keysOf n => PlainName n
  | array item => item.Plain
  | dictionary key value => key.Plain ∧ value.Plain

theorem plain_baseName {tag n : Text} (h : baseNames.find? tag = some n) : PlainName n := by
  have all : ∀ pair ∈ baseNames, PlainName pair.2 := by decide
  exact all _ (Assoc.mem_of_find? h)

theorem plain_annotatedName {tag n : Text} {annotations : Assoc Text Text}
    (h : Annotates tag annotations n) : PlainName n := by
  have all : ∀ name ∈ annotatedNames, PlainName name := by decide
  exact all n h.known

/-- The rules use plain names if the naming in use gives such. -/
theorem Dictated.plain {index : Text → Option Definition} {rename : Text → Text} {t : TypeRef}
    {e : TypeExpr} (h : Dictated index rename t e)
    (plain : ∀ name ∈ t.renamed, PlainName (rename name)) : e.Plain := by
  induction h with
  | list _ ih | set _ ih => exact ih plain
  | map _ _ ih ih' =>
    exact ⟨ih fun name mem => plain name (List.mem_append_left _ mem),
      ih' fun name mem => plain name (List.mem_append_right _ mem)⟩
  | enum | named => exact plain _ (List.mem_singleton_self _)
  | annotated h => exact plain_annotatedName h
  | base _ known => exact plain_baseName known
  | other _ unknown =>
    refine plain _ ?_
    rw [TypeRef.renamed, unknown]
    exact List.mem_singleton_self _

/-! ## Reading back -/

theorem text_keysOf (n : Text) : (keysOf n).text = "$Keys<typeof " ++ n ++ ">" := rfl

theorem text_array (item : TypeExpr) : (array item).text = item.text ++ "[]" := rfl

theorem text_dictionary (key value : TypeExpr) :
    (dictionary key value).text = "\x7b[" ++ key.text ++ "]: " ++ value.text ++ "\x7d" := rfl

/-- The mark that an expression ends in. -/
def lastMark : TypeExpr → Option Char
  | name _ => none
  | keysOf _ => some '>'
  | array _ => some ']'
  | dictionary _ _ => some '\x7d'

theorem filter_getLast?_text {e : TypeExpr} (h : e.Plain) :
    e.text.getLast?.filter (· ∈ typeMarks) = e.lastMark := by
  cases e with
  | name n =>
    obtain ⟨ne, free⟩ : PlainName n := h
    have plain : n.getLast ne ∉ typeMarks := free _ (List.getLast_mem ne)
    show n.getLast?.filter (· ∈ typeMarks) = none
    rw [List.getLast?_eq_some_getLast ne, Option.filter_some, if_neg (by simpa using plain)]
  | keysOf n =>
    rw [text_keysOf, List.getLast?_append]
    rfl
  | array item =>
    rw [text_array, List.getLast?_append]
    rfl
  | dictionary key value =>
    rw [text_dictionary, List.getLast?_append]
    rfl

/-- **The last character tells what an expression is.** -/
theorem lastMark_eq {e f : TypeExpr} (he : e.Plain) (hf : f.Plain) (same : e.text = f.text) :
    e.lastMark = f.lastMark := by
  rw [← filter_getLast?_text he, ← filter_getLast?_text hf, same]

/-- The text up to the bracket that closes one more than `depth` are open. -/
def upToClosing : Nat → Text → Text
  | _, [] => []
  | depth, c :: s =>
    if c = '[' then c :: upToClosing (depth + 1) s
    else if c = ']' then if depth = 0 then [] else c :: upToClosing (depth - 1) s
    else c :: upToClosing depth s

theorem upToClosing_append_of_free {t : Text} (opening : '[' ∉ t) (closing : ']' ∉ t) (depth : Nat)
    (s : Text) : upToClosing depth (t ++ s) = t ++ upToClosing depth s := by
  induction t with
  | nil => rfl
  | cons c t ih =>
    rw [List.mem_cons, not_or] at opening closing
    rw [List.cons_append, upToClosing, if_neg (Ne.symm opening.1), if_neg (Ne.symm closing.1),
      ih opening.2 closing.2]
    rfl

theorem upToClosing_name {n : Text} (h : PlainName n) (depth : Nat) (s : Text) :
    upToClosing depth (n ++ s) = n ++ upToClosing depth s :=
  upToClosing_append_of_free (fun mem => h.2 _ mem (by decide)) (fun mem => h.2 _ mem (by decide))
    depth s

/-- An expression closes the brackets that it opens, and no others. -/
theorem upToClosing_text {e : TypeExpr} (h : e.Plain) (depth : Nat) (s : Text) :
    upToClosing depth (e.text ++ s) = e.text ++ upToClosing depth s := by
  induction e generalizing depth s with
  | name n => exact upToClosing_name h depth s
  | keysOf n =>
    have opening : '[' ∉ "$Keys<typeof ".toList ∧ ']' ∉ "$Keys<typeof ".toList := by decide
    rw [text_keysOf, List.append_assoc, List.append_assoc,
      upToClosing_append_of_free opening.1 opening.2, upToClosing_name h]
    simp only [List.append_assoc]
    rfl
  | array item ih =>
    rw [text_array, List.append_assoc, ih h, List.append_assoc]
    rfl
  | dictionary key value ihk ihv =>
    have opening (t : Text) : upToClosing depth ("\x7b[" ++ t) =
        "\x7b[" ++ upToClosing (depth + 1) t := rfl
    have between (t : Text) : upToClosing (depth + 1) ("]: " ++ t) =
        "]: " ++ upToClosing depth t := rfl
    have closing (t : Text) : upToClosing depth ("\x7d" ++ t) =
        "\x7d" ++ upToClosing depth t := rfl
    simp only [text_dictionary, List.append_assoc]
    rw [opening, ihk h.1, between, ihv h.2, closing]

/-- A key ends where its bracket closes. -/
theorem upToClosing_key {e : TypeExpr} (h : e.Plain) (s : Text) :
    upToClosing 0 (e.text ++ ']' :: s) = e.text := by
  rw [upToClosing_text h]
  exact List.append_nil _

/-- **An expression of plain names is told by its text.** -/
theorem text_inj {e f : TypeExpr} (he : e.Plain) (hf : f.Plain) (same : e.text = f.text) :
    e = f := by
  induction e generalizing f with
  | name n =>
    cases f with
    | name m => exact congrArg name same
    | _ => cases lastMark_eq he hf same
  | keysOf n =>
    cases f with
    | keysOf m =>
      rw [text_keysOf, text_keysOf, List.append_left_inj, List.append_right_inj] at same
      rw [same]
    | _ => cases lastMark_eq he hf same
  | array item ih =>
    cases f with
    | array other =>
      rw [text_array, text_array, List.append_left_inj] at same
      have items : item = other := ih he hf same
      rw [items]
    | _ => cases lastMark_eq he hf same
  | dictionary key value ihk ihv =>
    cases f with
    | dictionary key' value' =>
      simp only [text_dictionary, List.append_assoc, List.append_cancel_left_eq] at same
      have keys : key.text = key'.text := by
        rw [← upToClosing_key he.1, ← upToClosing_key hf.1]
        exact congrArg (upToClosing 0) same
      rw [keys, List.append_right_inj, List.append_right_inj, List.append_left_inj] at same
      rw [ihk he.1 hf.1 keys, ihv he.2 hf.2 same]
    | _ => cases lastMark_eq he hf same

/-- **Two references are written the same exactly if the rules give them the same
    expression.** -/
theorem text_eq_iff_dictated {index : Text → Option Definition} {rename : Text → Text}
    {t u : TypeRef} (plain : ∀ name ∈ t.renamed ++ u.renamed, PlainName (rename name)) :
    (∃! e, Dictated index rename t e) ∧ (∃! f, Dictated index rename u f) ∧
    ∀ e f, Dictated index rename t e → Dictated index rename u f →
      ((ofTypeRef rename (EnumKeys.ofIndex index) t).text =
        (ofTypeRef rename (EnumKeys.ofIndex index) u).text ↔ e = f) := by
  have unique (r : TypeRef) : ∃! e, Dictated index rename r e :=
    ⟨_, dictated_iff.2 rfl, fun _ => dictated_iff.1⟩
  refine ⟨unique t, unique u, fun e f he hf => ?_⟩
  have plain_e : e.Plain := he.plain fun name mem => plain name (List.mem_append_left _ mem)
  have plain_f : f.Plain := hf.plain fun name mem => plain name (List.mem_append_right _ mem)
  rw [← dictated_iff.1 he, ← dictated_iff.1 hf]
  exact ⟨text_inj plain_e plain_f, congrArg text⟩

/-- An enum known by its name. -/
def colors : Assoc Text Definition := [("color", .enum "color" [⟨"RED", none⟩])]

/-- Lists of annotated integers by colors. -/
def longLists : TypeRef :=
  .map (.named "color") (.list (.base "i64" [("js.type", "Long"), ("doc", "\x7b[]: \x7d")]))

/-- Sets by colors of what is called the same with an `L` in front. -/
def ongSets : TypeRef := .map (.named "color") (.set (.named "ong"))

/-- A list of integers by colors. -/
def longMaps : TypeRef := .list (.map (.named "color") (.base "i64" [("js.type", "Long")]))

/-- The text of a type where every name has an `L` in front. -/
def longText (t : TypeRef) : Text := (ofTypeRef ('L' :: ·) (.ofIndex colors.find?) t).text

theorem text_eq_iff_dictated_named :
    (∀ name ∈ longLists.renamed ++ ongSets.renamed, PlainName ('L' :: name)) ∧
    longText longLists = longText ongSets ∧
    (∀ name ∈ longLists.renamed ++ longMaps.renamed, PlainName ('L' :: name)) ∧
    longText longLists ≠ longText longMaps := by
  have same : ∀ name ∈ longLists.renamed ++ ongSets.renamed, PlainName ('L' :: name) := by decide
  have other : ∀ name ∈ longLists.renamed ++ longMaps.renamed, PlainName ('L' :: name) := by decide
  have found : colors.find? "color".toList = some (.enum "color" [⟨"RED", none⟩]) := rfl
  have key : Dictated colors.find? ('L' :: ·) (.named "color") (.keysOf "Lcolor") :=
    .enum found
  have long {more : Assoc Text Text} : Dictated colors.find? ('L' :: ·)
      (.base "i64" (("js.type".toList, "Long".toList) :: more)) (.name "Long") :=
    .annotated ⟨rfl, rfl, by decide⟩
  have ong : Dictated colors.find? ('L' :: ·) (.named "ong") (.name "Long") :=
    .named fun _ _ found => by cases found
  refine ⟨same, ?_, other, fun written => ?_⟩
  · exact ((text_eq_iff_dictated same).2.2 _ _ (.map key (.list long)) (.map key (.set ong))).2 rfl
  · have trees := ((text_eq_iff_dictated other).2.2 _ _ (.map key (.list long))
      (.list (.map key long))).1 written
    cases trees

end TypeExpr

end IdlFlow
