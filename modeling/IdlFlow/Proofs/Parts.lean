/-
  The parts of types and values.

  * `descend parts place a`: the part of `a` that a list of indices leads to;
  * `TypeRef.parts`, `ConstValue.parts`, `TypeExpr.parts`, `ValueExpr.parts`: the
    parts right below a type reference, a value and their expressions.

  Main statements: the expression of a reference or a value has, at every place,
  the expression of the part at that place (`TypeExpr.descend_ofTypeRef`,
  `ValueExpr.descend_ofConst`), and is written with the texts of its parts
  (`TypeExpr.infix_text`, `ValueExpr.infix_text`).
-/
import IdlFlow.Proofs.Blocks

namespace IdlFlow

/-- The part that indices lead to, each of them among the parts of the one
    before. -/
def descend {α : Type} (parts : α → List α) : List Nat → α → Option α
  | [], a => some a
  | index :: place, a => (parts a)[index]?.bind (descend parts place)

/-- What stands at some place is the whole, or stands at some place of a part. -/
theorem exists_descend_iff {α : Type} {parts : α → List α} {b : α} (a : α) :
    (∃ place, descend parts place a = some b) ↔
      a = b ∨ ∃ part ∈ parts a, ∃ place, descend parts place part = some b := by
  constructor
  · rintro ⟨_ | ⟨index, place⟩, found⟩
    · exact .inl (Option.some.inj found)
    · obtain ⟨part, at_, found⟩ := Option.bind_eq_some_iff.1 found
      exact .inr ⟨part, List.mem_of_getElem? at_, place, found⟩
  · rintro (rfl | ⟨part, mem, place, found⟩)
    · exact ⟨[], rfl⟩
    · obtain ⟨index, at_⟩ := List.mem_iff_getElem?.1 mem
      exact ⟨index :: place, by rw [descend, at_, Option.bind_some, found]⟩

/-- A function that acts on parts one by one keeps their places. -/
theorem descend_map {α β : Type} {f : α → β} {parts : α → List α} {parts' : β → List β}
    (h : ∀ a, parts' (f a) = (parts a).map f) (place : List Nat) (a : α) :
    descend parts' place (f a) = (descend parts place a).map f := by
  induction place generalizing a with
  | nil => rfl
  | cons index place ih =>
    rw [descend, descend, h, List.getElem?_map, Option.bind_map, Option.map_bind]
    exact congrArg _ (funext ih)

theorem infix_intercalate (separator : Text) {part : Text} {parts : List Text}
    (mem : part ∈ parts) : part <:+: separator.intercalate parts := by
  induction parts with
  | nil => cases mem
  | cons first others ih =>
    cases others with
    | nil =>
      rw [List.intercalate_singleton]
      exact List.mem_singleton.1 mem ▸ List.infix_rfl
    | cons next others =>
      rw [List.intercalate_cons_cons]
      rcases List.mem_cons.1 mem with rfl | mem
      · rw [List.append_assoc]
        exact (List.prefix_append _ _).isInfix
      · exact (ih mem).trans (List.suffix_append _ _).isInfix

/-! ## Types -/

/-- What a type contains. -/
def TypeRef.parts : TypeRef → List TypeRef
  | list item | set item => [item]
  | map key value => [key, value]
  | base _ _ | named _ => []

namespace TypeExpr

/-- What a type expression contains. -/
def parts : TypeExpr → List TypeExpr
  | array item => [item]
  | dictionary key value => [key, value]
  | name _ | keysOf _ => []

theorem parts_ofTypeRef (rename : Text → Text) (keys : EnumKeys) (t : TypeRef) :
    (ofTypeRef rename keys t).parts = t.parts.map (ofTypeRef rename keys) := by
  cases t with
  | named n =>
    rw [ofTypeRef]
    split <;> rfl
  | _ => rfl

/-- **Each part of a type is expressed in its place.** -/
theorem descend_ofTypeRef (rename : Text → Text) (keys : EnumKeys) (place : List Nat)
    (t : TypeRef) : descend parts place (ofTypeRef rename keys t) =
      (descend TypeRef.parts place t).map (ofTypeRef rename keys) :=
  descend_map (parts_ofTypeRef rename keys) place t

theorem infix_of_mem_parts {e part : TypeExpr} (mem : part ∈ e.parts) : part.text <:+: e.text := by
  cases e with
  | name => simp [parts] at mem
  | keysOf => simp [parts] at mem
  | array item =>
    obtain rfl : part = item := by simpa [parts] using mem
    exact (List.prefix_append part.text _).isInfix
  | dictionary key value =>
    rw [text.eq_def (dictionary key value)]
    obtain rfl | rfl : part = key ∨ part = value := by simpa [parts] using mem
    · simp only [List.append_assoc]
      exact List.infix_append' _ _ _
    · exact List.infix_append _ _ _

/-- A type expression is written with its parts. -/
theorem infix_text {e part : TypeExpr} {place : List Nat} (h : descend parts place e = some part) :
    part.text <:+: e.text := by
  induction place generalizing e with
  | nil =>
    cases h
    exact List.infix_rfl
  | cons index place ih =>
    obtain ⟨next, found, h⟩ := Option.bind_eq_some_iff.1 h
    exact (ih h).trans (infix_of_mem_parts (List.mem_of_getElem? found))

end TypeExpr

/-! ## Values -/

/-- What a value contains; of each entry the key, then the value. -/
def ConstValue.parts : ConstValue → List ConstValue
  | list items => items
  | map entries => entries.flatMap fun entry => [entry.1, entry.2]
  | _ => []

namespace ValueExpr

/-- What a value expression contains; of each entry the key, then the value. -/
def parts : ValueExpr → List ValueExpr
  | array items => items
  | object entries => entries.flatMap fun entry => [entry.1, entry.2]
  | _ => []

theorem parts_ofConst (rename : Text → Text) (keys : EnumKeys) (v : ConstValue) :
    (ofConst rename keys v).parts = v.parts.map (ofConst rename keys) := by
  cases v with
  | list items => rw [ofConst, ofConsts_eq_map, parts, ConstValue.parts]
  | map entries =>
    rw [ofConst, ofEntries_eq_map, parts, ConstValue.parts, List.flatMap_map, List.map_flatMap]
    rfl
  | identifier reference =>
    rcases ofReference_cases rename keys reference with ⟨_, _, _, eq⟩ | eq
    · rw [ofConst, eq]
      rfl
    · rw [ofConst, eq]
      rfl
  | _ => rfl

/-- **Each part of a value is expressed in its place.** -/
theorem descend_ofConst (rename : Text → Text) (keys : EnumKeys) (place : List Nat)
    (v : ConstValue) : descend parts place (ofConst rename keys v) =
      (descend ConstValue.parts place v).map (ofConst rename keys) :=
  descend_map (parts_ofConst rename keys) place v

theorem text_of_mem_texts {items : List ValueExpr} {written : List Text}
    (h : texts items = .ok written) : ∀ item ∈ items, ∃ s ∈ written, item.text = .ok s := by
  induction items generalizing written with
  | nil => simp
  | cons item items ih =>
    rw [texts] at h
    obtain ⟨s, first, h⟩ := ok_of_bind h
    obtain ⟨others, rest, h⟩ := ok_of_bind h
    cases h
    intro other mem
    rcases List.mem_cons.1 mem with rfl | mem
    · exact ⟨s, List.mem_cons_self, first⟩
    · obtain ⟨t, ht, eq⟩ := ih rest other mem
      exact ⟨t, List.mem_cons_of_mem _ ht, eq⟩

theorem text_of_mem_entryTexts {entries : List (ValueExpr × ValueExpr)} {written : List Text}
    (h : entryTexts entries = .ok written) : ∀ entry ∈ entries, ∃ key value,
      entry.1.text = .ok key ∧ entry.2.text = .ok value ∧ key ++ ": " ++ value ∈ written := by
  induction entries generalizing written with
  | nil => simp
  | cons entry entries ih =>
    rw [entryTexts] at h
    obtain ⟨key, hk, h⟩ := ok_of_bind h
    obtain ⟨value, hv, h⟩ := ok_of_bind h
    obtain ⟨others, rest, h⟩ := ok_of_bind h
    cases h
    intro other mem
    rcases List.mem_cons.1 mem with rfl | mem
    · exact ⟨key, value, hk, hv, List.mem_cons_self⟩
    · obtain ⟨k, v, eq, eq', mem⟩ := ih rest other mem
      exact ⟨k, v, eq, eq', List.mem_cons_of_mem _ mem⟩

theorem infix_of_mem_parts {e part : ValueExpr} (mem : part ∈ e.parts) {s : Text}
    (written : e.text = .ok s) : ∃ t, part.text = .ok t ∧ t <:+: s := by
  cases e with
  | array items =>
    rw [text] at written
    obtain ⟨all, made, written⟩ := ok_of_bind written
    cases written
    obtain ⟨t, ht, eq⟩ := text_of_mem_texts made part mem
    exact ⟨t, eq, (infix_intercalate _ ht).trans (List.infix_append _ _ _)⟩
  | object entries =>
    rw [text] at written
    obtain ⟨all, made, written⟩ := ok_of_bind written
    cases written
    obtain ⟨entry, he, mem⟩ := List.mem_flatMap.1 mem
    obtain ⟨key, value, hk, hv, ht⟩ := text_of_mem_entryTexts made entry he
    have whole := infix_intercalate [',', ' '] ht
    rcases List.mem_cons.1 mem with rfl | mem
    · refine ⟨key, hk, List.IsInfix.trans ?_ (whole.trans (List.infix_append _ _ _))⟩
      rw [List.append_assoc]
      exact (List.prefix_append _ _).isInfix
    · rw [List.mem_singleton.1 mem]
      exact ⟨value, hv,
        ((List.suffix_append _ _).isInfix.trans whole).trans (List.infix_append _ _ _)⟩
  | _ => cases mem

/-- A value expression is written with its parts. -/
theorem infix_text {e part : ValueExpr} {place : List Nat}
    (h : descend parts place e = some part) {s : Text} (written : e.text = .ok s) :
    ∃ t, part.text = .ok t ∧ t <:+: s := by
  induction place generalizing e s with
  | nil =>
    cases h
    exact ⟨s, written, List.infix_rfl⟩
  | cons index place ih =>
    obtain ⟨next, found, h⟩ := Option.bind_eq_some_iff.1 h
    obtain ⟨t, ht, within⟩ := infix_of_mem_parts (List.mem_of_getElem? found) written
    obtain ⟨u, hu, within'⟩ := ih h ht
    exact ⟨u, hu, within'.trans within⟩

end ValueExpr

/-- A string in a value stands at some place of it. -/
theorem ConstValue.exists_place_of_mem_strings {v : ConstValue} (h : v.Spelled) {content : Text}
    (mem : content ∈ v.strings) : ∃ place, descend parts place v = some (.string content) := by
  have below {v item : ConstValue} {place : List Nat} (hi : item ∈ v.parts)
      (found : descend parts place item = some (.string content)) :
      ∃ place, descend parts place v = some (.string content) :=
    (exists_descend_iff v).2 (.inr ⟨item, hi, place, found⟩)
  induction h with
  | @string content' _ =>
    rw [strings, List.mem_singleton] at mem
    exact ⟨[], by rw [descend, mem]⟩
  | @list items _ ih =>
    rw [strings_list] at mem
    obtain ⟨item, hi, mem⟩ := List.mem_flatMap.1 mem
    obtain ⟨place, found⟩ := ih item hi mem
    exact below hi found
  | @map entries _ _ ihk ihv =>
    rw [strings_map] at mem
    obtain ⟨entry, he, mem⟩ := List.mem_flatMap.1 mem
    rcases List.mem_append.1 mem with mem | mem
    · obtain ⟨place, found⟩ := ihk entry he mem
      exact below (List.mem_flatMap.2 ⟨entry, he, List.mem_cons_self⟩) found
    · obtain ⟨place, found⟩ := ihv entry he mem
      exact below (List.mem_flatMap.2 ⟨entry, he, List.mem_cons_of_mem _ List.mem_cons_self⟩) found
  | _ => cases mem

end IdlFlow
