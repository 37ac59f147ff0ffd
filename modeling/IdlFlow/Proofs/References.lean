/-
  References to definitions.

  * `TypeExpr.Writes`, `ValueExpr.Writes`: an expression has a text at a place;
  * `Scope.Writes`: every type and every value has given texts wherever a
    reference stands.

  Main statements: a file that a program has can be loaded by itself
  (`LoadedFrom.exists_load`), and a reference is written as the name that its
  definition has in the naming in use, behind its module if that is another one
  (`FileOptions.writes_qualified`, `FileOptions.writes_unqualified`).
-/
import IdlFlow.Proofs.Modules
import IdlFlow.Proofs.Parts

namespace IdlFlow

open IdlFlow.Path

/-! ## Loading a part of a program -/

section Closed

variable {tree : FileTree} {S : Text → Prop}

mutual

/-- Where every file can be read and includes files only, loading does not fail. -/
theorem Visit.exists_ok (read : ∀ path, S path → ∃ document, tree.readDocument path = .ok document)
    (file : ∀ path, S path → tree.isFile path = true)
    (closed : ∀ path, S path → ∀ other ∈ targets tree path, S other) {path : Text}
    {loaded : Assoc Text Document} {result : Except LoadFailure (Assoc Text Document)} :
    Visit tree path loaded result → S path → ∃ more, result = .ok more
  | .known _, _ => ⟨_, rfl⟩
  | .unread _ failed, h => by
    obtain ⟨document, ok⟩ := read path h
    rw [ok] at failed
    cases failed
  | .read _ ok all, h => by
    refine VisitAll.exists_ok read file closed all fun included mem => closed path h _ ?_
    rw [targets_of_ok ok]
    exact List.mem_map_of_mem mem

theorem VisitAll.exists_ok
    (read : ∀ path, S path → ∃ document, tree.readDocument path = .ok document)
    (file : ∀ path, S path → tree.isFile path = true)
    (closed : ∀ path, S path → ∀ other ∈ targets tree path, S other) {includer : Text}
    {includes : List Text} {loaded : Assoc Text Document}
    {result : Except LoadFailure (Assoc Text Document)} :
    VisitAll tree includer includes loaded result →
      (∀ included ∈ includes, S (includePath tree.here includer included)) →
      ∃ more, result = .ok more
  | .nil, _ => ⟨_, rfl⟩
  | .missing absent, h => by
    rw [file _ (h _ List.mem_cons_self)] at absent
    cases absent
  | .failed _ first, h => by
    obtain ⟨more, eq⟩ := Visit.exists_ok read file closed first (h _ List.mem_cons_self)
    cases eq
  | .next _ _ rest, h =>
    VisitAll.exists_ok read file closed rest fun included mem => h included (.tail _ mem)

end

end Closed

namespace LoadedFrom

variable {tree : FileTree} {file path : Text} {p : Program} {document : Document}

theorem readDocument (h : LoadedFrom tree file p) (mem : (path, document) ∈ p.documents) :
    tree.readDocument path = .ok document := by
  obtain ⟨s, read, parsed⟩ := h.parsed path document mem
  refine readDocument_eq_ok.2 ⟨s, ?_, parsed⟩
  rwa [(h.isNormal (List.mem_map_of_mem mem)).tidy_eq]

theorem exists_readDocument (h : LoadedFrom tree file p) (mem : path ∈ p.paths) :
    ∃ document, tree.readDocument path = .ok document := by
  obtain ⟨⟨path, document⟩, entry, rfl⟩ := List.mem_map.1 mem
  exact ⟨document, h.readDocument entry⟩

theorem isFile (h : LoadedFrom tree file p) (mem : path ∈ p.paths) : tree.isFile path = true := by
  obtain ⟨content, located, node⟩ := h.exists_file mem
  exact (FileTree.isFile_iff (h.isNormal mem)).2 ⟨located, content, node⟩

theorem target_mem (h : LoadedFrom tree file p) (mem : path ∈ p.paths) {other : Text}
    (leads : other ∈ targets tree path) : other ∈ p.paths :=
  (h.reachable other).2 (((h.reachable path).1 mem).tail leads)

/-- **What a program has can be loaded by itself.** -/
theorem exists_load (here : isAbsolute tree.here = true) (h : LoadedFrom tree file p)
    (found : p.documents.find? path = some document) :
    ∃ q, tree.load path = .ok q ∧ q.definitions = document.definitions := by
  have entry := Assoc.mem_of_find? found
  have mem : path ∈ p.paths := List.mem_map_of_mem entry
  have same := (h.isNormal mem).absolute_eq tree.here
  have visit : Visit tree path [] (loadUpTo tree tree.depth path []) :=
    visit_loadUpTo here (h.isNormal mem) .nil (by simp)
  obtain ⟨loaded, ok⟩ := visit.exists_ok (fun _ => h.exists_readDocument) (fun _ => h.isFile)
    (fun _ inside _ => h.target_mem inside) mem
  have loads : tree.load path = .ok ⟨path, loaded⟩ := by
    rw [load_eq_map, same, ok]
    rfl
  have from_ := loadedFrom_of_load here loads
  refine ⟨_, loads, ?_⟩
  obtain ⟨⟨other, document'⟩, entry', eq⟩ := List.mem_map.1 from_.entry_mem
  obtain rfl : other = path := eq
  have agree := (h.readDocument entry).symm.trans (from_.readDocument entry')
  cases agree
  have first := Assoc.find?_of_mem from_.nodup entry'
  rw [Program.definitions, first]
  rfl

end LoadedFrom

/-! ## Names -/

namespace NameRule

variable {rule : NameRule} {module name : Text}

theorem apply_of_no_dot (h : '.' ∉ name) : rule.apply name = rule.segment name :=
  onLastSegment_of_no_dot h

/-- Segments in front are kept. -/
theorem apply_append (h : '.' ∉ name) :
    rule.apply (module ++ '.' :: name) = module ++ '.' :: rule.apply name := by
  rw [apply_of_no_dot h, apply, onLastSegment_append h]

end NameRule

section Keys

variable {definitions : List Definition} {d : Definition} {name key : Text}

theorem enumKeys_eq_none (h : ∀ d ∈ definitions, d.name ≠ name) :
    enumKeys definitions name = none := by
  rw [enumKeys, List.find?_eq_none.2 fun d mem => ?_]
  · rfl
  · simpa using h d (List.mem_reverse.1 mem)

/-- The keys of a name come from an enum of that name. -/
theorem exists_of_enumKeys {keys : List Text} (h : enumKeys definitions name = some keys) :
    ∃ values, .enum name values ∈ definitions ∧ keys = values.map EnumValue.name := by
  obtain ⟨d, found, keys⟩ := Option.bind_eq_some_iff.1 h
  have mem := List.mem_reverse.1 (List.mem_of_find?_eq_some found)
  have named : d.name = name := by simpa using List.find?_some found
  cases d with
  | enum n values =>
    cases keys
    obtain rfl : n = name := named
    exact ⟨values, mem, rfl⟩
  | _ => cases keys

/-- Of a name that only one definition has. -/
theorem enumKeys_of_unique (h : definitions.filter (·.name = name) = [d]) :
    enumKeys definitions name = d.enumKeys? := by
  have last : definitions.reverse.find? (·.name = name) = some d := by
    rw [← List.head?_filter, List.filter_reverse, h]
    rfl
  rw [enumKeys, last]
  rfl

end Keys

/-! ## References -/

/-- The expression has a text at a place. -/
def TypeExpr.Writes (e : TypeExpr) (place : List Nat) (s : Text) : Prop :=
  ∃ part, descend parts place e = some part ∧ part.text = s ∧ s <:+: e.text

/-- The expression has a text at a place, if it is written at all. -/
def ValueExpr.Writes (e : ValueExpr) (place : List Nat) (s : Text) : Prop :=
  ∃ part, descend parts place e = some part ∧ part.text = .ok s ∧
    ∀ whole, e.text = .ok whole → s <:+: whole

/-- In every type and every value, a reference is written as the given texts. -/
structure Scope.Writes (scope : Scope) (reference type value : Text) : Prop where
  type : ∀ t place, descend TypeRef.parts place t = some (.named reference) →
    (scope.type t).Writes place type
  value : ∀ v place, descend ConstValue.parts place v = some (.identifier reference) →
    (scope.value v).Writes place value

/-- A reference is written the same at every place. -/
theorem Scope.writes_of_text {scope : Scope} {reference type value : Text}
    (ht : (scope.type (.named reference)).text = type)
    (hv : (scope.value (.identifier reference)).text = .ok value) :
    scope.Writes reference type value := by
  constructor
  · intro t place found
    have part := TypeExpr.descend_ofTypeRef scope.rename scope.keys place t
    rw [found, Option.map_some] at part
    exact ⟨_, part, ht, ht ▸ TypeExpr.infix_text part⟩
  · intro v place found
    have part := ValueExpr.descend_ofConst scope.rename scope.keys place v
    rw [found, Option.map_some] at part
    refine ⟨_, part, hv, fun whole written => ?_⟩
    obtain ⟨t, ok, within⟩ := ValueExpr.infix_text part written
    cases hv.symm.trans ok
    exact within

section Documents

variable {options : FileOptions} {definitions : List Definition} {d : Definition}
  {module : Text}

/-- A reference to another file. -/
theorem FileOptions.writes_qualified (plain : ∀ d ∈ definitions, '.' ∉ d.name) (hm : '.' ∉ module)
    (hd : '.' ∉ d.name)
    (apart : ∀ values, .enum module values ∈ definitions → d.name ∉ values.map EnumValue.name) :
    (options.scope definitions).Writes (module ++ '.' :: d.name)
      (module ++ '.' :: options.rule.apply d.name)
      (module ++ '.' :: options.rule.apply d.name) := by
  have foreign : enumKeys definitions (module ++ '.' :: d.name) = none :=
    enumKeys_eq_none fun other mem same => plain other mem (by simp [same])
  have once : ¬ 1 < (module ++ '.' :: d.name).count '.' := by
    simp [List.count_eq_zero.2 hm, List.count_eq_zero.2 hd]
  have other : ((enumKeys definitions module).getD []).contains d.name = false := by
    cases keys : enumKeys definitions module with
    | none => rfl
    | some keys =>
      obtain ⟨values, mem, rfl⟩ := exists_of_enumKeys keys
      simpa using apart values mem
  refine Scope.writes_of_text ?_ ?_
  · simp only [Scope.type, TypeExpr.ofTypeRef, FileOptions.scope, foreign]
    exact NameRule.apply_append hd
  · simp only [Scope.value, ValueExpr.ofConst, ValueExpr.ofReference, FileOptions.scope,
      Text.cutLast_append hd, other, if_neg once]
    exact congrArg _ (NameRule.apply_append hd)

/-- A reference to the only definition of its name in the file. -/
theorem FileOptions.writes_unqualified (h : definitions.filter (·.name = d.name) = [d])
    (hd : '.' ∉ d.name) :
    (options.scope definitions).Writes d.name
      (if d.enumKeys?.isSome = true then "$Keys<typeof " ++ options.rule.apply d.name ++ ">"
        else options.rule.apply d.name)
      (options.rule.apply d.name) := by
  have keys := enumKeys_of_unique h
  have never : ¬ 1 < d.name.count '.' := by simp [List.count_eq_zero.2 hd]
  refine Scope.writes_of_text ?_ ?_
  · simp only [Scope.type, TypeExpr.ofTypeRef, FileOptions.scope, keys]
    split <;> rfl
  · simp only [Scope.value, ValueExpr.ofConst, ValueExpr.ofReference, FileOptions.scope,
      Text.cutLast_of_not_mem hd, if_neg never]
    rfl

end Documents

/-- Camel case between a prefix and a suffix. -/
def acrossOptions : FileOptions := ⟨⟨"P", "S", true⟩, true, false⟩

end IdlFlow
