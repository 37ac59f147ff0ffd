/-
  What a definition needs of its neighbours.

  * `index definitions`: the definitions by their names; of several with one
    name the last one counts;
  * `SameEnums ds es`: the same names stand for enums with the same keys;
  * `Program.Reordered`, `Program.Pruned`: what becomes of a declaration file if
    definitions change places, or if definitions that are skipped anyway go.

  Main statement: the block of a definition depends on the enums around it only,
  so that other orders of definitions with distinct names reorder the blocks and
  nothing else, and without skipped definitions only their warnings are missing
  (`blocks_by_enums`).
-/
import Mathlib.Data.List.Nodup
import IdlFlow.Proofs.Generation
import IdlFlow.Proofs.References

namespace IdlFlow

/-! ## Enums around a definition -/

/-- The definitions by their names; of several with one name the last one
    counts. -/
def index (definitions : List Definition) : Assoc Text Definition :=
  .ofList (definitions.map fun d => (d.name, d))

/-- The two of them give the same names to enums, and enums of one name the same
    keys, in some order. -/
def EnumKeys.Agree (keys others : EnumKeys) : Prop :=
  ∀ name, Option.Rel (fun ks ls => ∀ key, key ∈ ks ↔ key ∈ ls) (keys name) (others name)

/-- The same names stand for enums with the same keys. -/
def SameEnums (ds es : List Definition) : Prop :=
  EnumKeys.Agree (fun name => ((index ds).find? name).bind Definition.enumKeys?)
    fun name => ((index es).find? name).bind Definition.enumKeys?

theorem find?_ofList {α : Type} (pairs : List (Text × α)) (key : Text) :
    (Assoc.ofList pairs).find? key = (pairs.reverse.find? (·.1 = key)).map Prod.snd := by
  induction pairs using List.reverseRecOn with
  | nil => rfl
  | append_singleton pairs last ih =>
    have inserted : Assoc.ofList (pairs ++ [last]) =
        (Assoc.ofList pairs).insert last.1 last.2 := by
      simp [Assoc.ofList]
    rw [inserted, Assoc.find?_insert, ih, List.reverse_append, List.reverse_singleton,
      List.singleton_append, List.find?_cons]
    by_cases h : last.1 = key <;> simp [h]

/-- The keys of a name are those of the definition that it stands for. -/
theorem find?_index (definitions : List Definition) (name : Text) :
    ((index definitions).find? name).bind Definition.enumKeys? = enumKeys definitions name := by
  rw [index, find?_ofList, enumKeys, ← List.map_reverse, List.find?_map, Option.map_map]
  simp [Function.comp_def]

theorem sameEnums_iff {ds es : List Definition} :
    SameEnums ds es ↔ EnumKeys.Agree (enumKeys ds) (enumKeys es) := by
  simp only [SameEnums, find?_index]

/-! ## Blocks -/

section Agree

variable {keys others : EnumKeys}

theorem EnumKeys.Agree.isSome_eq (h : EnumKeys.Agree keys others) (name : Text) :
    (keys name).isSome = (others name).isSome := by
  have same := h name
  generalize keys name = ks, others name = ls at same ⊢
  cases same <;> rfl

theorem EnumKeys.Agree.contains_eq (h : EnumKeys.Agree keys others) (name key : Text) :
    ((keys name).getD []).contains key = ((others name).getD []).contains key := by
  have same := h name
  generalize keys name = ks, others name = ls at same ⊢
  rw [Bool.eq_iff_iff, List.contains_iff_mem, List.contains_iff_mem]
  cases same with
  | some same => exact same key
  | none => exact Iff.rfl

variable (rename : Text → Text)

theorem ofTypeRef_congr (h : EnumKeys.Agree keys others) (t : TypeRef) :
    TypeExpr.ofTypeRef rename keys t = TypeExpr.ofTypeRef rename others t := by
  induction t with
  | base tag annotations => rfl
  | named name => simp only [TypeExpr.ofTypeRef, h.isSome_eq]
  | list item ih | set item ih => simp only [TypeExpr.ofTypeRef, ih]
  | map key value ihk ihv => simp only [TypeExpr.ofTypeRef, ihk, ihv]

theorem ofReference_congr (h : EnumKeys.Agree keys others) (reference : Text) :
    ValueExpr.ofReference rename keys reference =
      ValueExpr.ofReference rename others reference := by
  simp only [ValueExpr.ofReference, h.contains_eq]

mutual

theorem ofConst_congr (h : EnumKeys.Agree keys others) :
    ∀ v, ValueExpr.ofConst rename keys v = ValueExpr.ofConst rename others v
  | .string _ | .integer _ | .double _ | .bool _ | .verbatim _ => rfl
  | .identifier reference => ofReference_congr rename h reference
  | .list items => congrArg ValueExpr.array (ofConsts_congr h items)
  | .map entries => congrArg ValueExpr.object (ofEntries_congr h entries)

theorem ofConsts_congr (h : EnumKeys.Agree keys others) :
    ∀ items, ValueExpr.ofConsts rename keys items = ValueExpr.ofConsts rename others items
  | [] => rfl
  | item :: items => congrArg₂ List.cons (ofConst_congr h item) (ofConsts_congr h items)

theorem ofEntries_congr (h : EnumKeys.Agree keys others) :
    ∀ entries, ValueExpr.ofEntries rename keys entries = ValueExpr.ofEntries rename others entries
  | [] => rfl
  | (key, value) :: entries =>
    congrArg₂ List.cons (Prod.ext (ofConst_congr h key) (ofConst_congr h value))
      (ofEntries_congr h entries)

end

/-- **The block of a definition depends on the enums around it only.** -/
theorem block?_congr (h : EnumKeys.Agree keys others) (numbers : Bool) (d : Definition) :
    d.block? ⟨rename, keys, numbers⟩ = d.block? ⟨rename, others, numbers⟩ := by
  let scope (keys : EnumKeys) : Scope := ⟨rename, keys, numbers⟩
  have name : (scope keys).rename = (scope others).rename := rfl
  have type : (scope keys).type = (scope others).type := funext (ofTypeRef_congr rename h)
  have value : (scope keys).value = (scope others).value := funext (ofConst_congr rename h)
  have property : (scope keys).property = (scope others).property := by
    funext f
    simp only [Scope.property, type]
  have parameter : (scope keys).parameter = (scope others).parameter := by
    funext f
    simp only [Scope.parameter, type]
  have method : (scope keys).method = (scope others).method := by
    funext f
    simp only [Scope.method, type, parameter]
  have declarations : d.declarations? (scope keys) = d.declarations? (scope others) := by
    cases d with
    | record form =>
      cases form <;> simp only [Definition.declarations?, name, property, parameter]
    | typedef => simp only [Definition.declarations?, name, type]
    | service => simp only [Definition.declarations?, name, method]
    | const => simp only [Definition.declarations?, name, type, value]
    | enum | unsupported => rfl
  exact congrArg (Option.map Declaration.block) declarations

end Agree

/-! ## Distinct names -/

section Distinct

variable {ds es : List Definition}

/-- Of definitions with distinct names, each is the one that its name stands
    for. -/
theorem enumKeys_of_mem (distinct : (ds.map Definition.name).Nodup) {d : Definition}
    (mem : d ∈ ds) : enumKeys ds d.name = d.enumKeys? := by
  rw [enumKeys]
  cases found : ds.reverse.find? (·.name = d.name) with
  | none => simpa using List.find?_eq_none.1 found d (List.mem_reverse.2 mem)
  | some other =>
    have named : other.name = d.name := by simpa using List.find?_some found
    have mem' : other ∈ ds := List.mem_reverse.1 (List.mem_of_find?_eq_some found)
    obtain rfl := List.inj_on_of_nodup_map distinct mem' mem named
    rfl

theorem enumKeys_eq_some (distinct : (ds.map Definition.name).Nodup) {name : Text}
    {keys : List Text} : enumKeys ds name = some keys ↔
      ∃ d ∈ ds, d.name = name ∧ d.enumKeys? = some keys := by
  constructor
  · intro h
    obtain ⟨values, mem, rfl⟩ := exists_of_enumKeys h
    exact ⟨_, mem, rfl, rfl⟩
  · rintro ⟨d, mem, rfl, h⟩
    rw [enumKeys_of_mem distinct mem, h]

theorem skipped?_of_enumKeys {d : Definition} {keys : List Text} (h : d.enumKeys? = some keys) :
    d.skipped? = none := by
  cases d with
  | unsupported => cases h
  | _ => rfl

/-- Among definitions with distinct names, those that are not skipped say what
    is an enum, in any order. -/
theorem enumKeys_congr (hd : (ds.map Definition.name).Nodup) (he : (es.map Definition.name).Nodup)
    (same : ∀ d, d.skipped? = none → (d ∈ ds ↔ d ∈ es)) : enumKeys ds = enumKeys es := by
  funext name
  ext keys
  show enumKeys ds name = some keys ↔ enumKeys es name = some keys
  rw [enumKeys_eq_some hd, enumKeys_eq_some he]
  constructor
  · rintro ⟨d, mem, named, h⟩
    exact ⟨d, (same d (skipped?_of_enumKeys h)).1 mem, named, h⟩
  · rintro ⟨d, mem, named, h⟩
    exact ⟨d, (same d (skipped?_of_enumKeys h)).2 mem, named, h⟩

end Distinct

/-! ## The blocks of a file -/

/-- Whether a definition has a block that cannot be written. -/
def Definition.isOverlong (scope : Scope) (d : Definition) : Bool :=
  d.block? scope matches some (.error _)

/-- The block of a definition, if it has one that can be written. -/
def Definition.written? (scope : Scope) (d : Definition) : Option Text :=
  (d.block? scope).bind Except.toOption

section Blocks

variable (scope : Scope)

theorem block?_eq_none {d : Definition} : d.block? scope = none ↔ d.skipped? ≠ none := by
  have : d.block? scope = none ↔ d.declarations? scope = none := Option.map_eq_none_iff
  rw [this]
  cases d with
  | record form => cases form <;> simp [Definition.skipped?, Definition.declarations?]
  | _ => simp [Definition.skipped?, Definition.declarations?]

/-- A definition is skipped, cannot be written, or is written. -/
theorem block?_cases (d : Definition) :
    (d.block? scope = none ∧ d.isOverlong scope = false ∧ d.written? scope = none ∧
      ∃ s, d.skipped? = some s) ∨
    (d.block? scope = some (.error .tooManyDigits) ∧ d.isOverlong scope = true) ∨
    ∃ text, d.block? scope = some (.ok text) ∧ d.isOverlong scope = false ∧
      d.written? scope = some text ∧ d.skipped? = none := by
  have skips := block?_eq_none scope (d := d)
  simp only [Definition.isOverlong, Definition.written?]
  rcases block : d.block? scope with _ | ⟨⟨⟩⟩ | text
  · exact .inl ⟨rfl, rfl, rfl, Option.ne_none_iff_exists'.1 (skips.1 block)⟩
  · exact .inr (.inl ⟨rfl, rfl⟩)
  · refine .inr (.inr ⟨text, rfl, rfl, rfl, ?_⟩)
    by_contra skipped
    rw [skips.2 skipped] at block
    cases block

theorem of_skipped {d : Definition} (h : d.skipped? ≠ none) :
    d.isOverlong scope = false ∧ d.written? scope = none := by
  have none := (block?_eq_none scope).2 h
  simp [Definition.isOverlong, Definition.written?, none]

/-- The blocks of definitions are those that each has by itself. -/
theorem texts_eq (ds : List Definition) : (Blocks.ofDefinitions scope ds).texts =
    if ds.any (·.isOverlong scope) then .error .tooManyDigits
    else .ok (ds.filterMap (·.written? scope)) := by
  induction ds with
  | nil => rfl
  | cons d ds ih =>
    rw [Blocks.ofDefinitions, List.any_cons]
    obtain ⟨block, short, written, -⟩ | ⟨block, overlong⟩ | ⟨text, block, short, written, -⟩ :=
      block?_cases scope d
    · rw [block, short, Bool.false_or, List.filterMap_cons_none written]
      exact ih
    · rw [block, overlong]
      rfl
    · rw [block, short, Bool.false_or, List.filterMap_cons_some written]
      show (text :: ·) <$> (Blocks.ofDefinitions scope ds).texts = _
      rw [ih]
      split <;> rfl

/-- Definitions are skipped up to one that cannot be written. -/
theorem skipped_eq (ds : List Definition) : (Blocks.ofDefinitions scope ds).skipped =
    (ds.takeWhile (!·.isOverlong scope)).filterMap Definition.skipped? := by
  induction ds with
  | nil => rfl
  | cons d ds ih =>
    rw [Blocks.ofDefinitions]
    obtain ⟨block, short, -, s, skipped⟩ | ⟨block, overlong⟩ | ⟨text, block, short, -, none⟩ :=
      block?_cases scope d
    · simp [block, short, skipped, ih]
    · simp [block, overlong]
    · simp [block, short, none, ih]

end Blocks

/-! ## Files -/

section Files

variable {here timestamp : Text} {options : FileOptions} {p q : Program}

/-- A file is made of what each definition has by itself. -/
theorem text_generate (here timestamp : Text) (options : FileOptions) (p : Program) :
    (p.generate here timestamp options).text =
      if p.definitions.any (·.isOverlong (options.scope p.definitions)) then
        .error (.write .tooManyDigits)
      else (p.imports? here).elim (.error .emptyPath) fun imports =>
        .ok (Layout.format (DeclarationFile.text ⟨timestamp, options.source p, imports,
          p.definitions.filterMap (·.written? (options.scope p.definitions))⟩)) := by
  unfold Program.generate Program.blocks
  dsimp only
  rw [texts_eq]
  split
  · rfl
  · cases p.imports? here <;> rfl

theorem skipped_generate (here timestamp : Text) (options : FileOptions) (p : Program) :
    (p.generate here timestamp options).skipped =
      (p.definitions.takeWhile (!·.isOverlong (options.scope p.definitions))).filterMap
        Definition.skipped? :=
  skipped_eq _ _

/-- A file is made if all blocks can be written and no path is empty. -/
theorem text_generate_eq_ok {text : Text} : (p.generate here timestamp options).text = .ok text ↔
    p.definitions.any (·.isOverlong (options.scope p.definitions)) = false ∧
    ∃ imports, p.imports? here = some imports ∧
      text = Layout.format (DeclarationFile.text ⟨timestamp, options.source p, imports,
        p.definitions.filterMap (·.written? (options.scope p.definitions))⟩) := by
  rw [text_generate]
  cases p.definitions.any (·.isOverlong (options.scope p.definitions)) with
  | true => simp
  | false => cases p.imports? here <;> simp [eq_comm]

/-- Otherwise a block is what stops it, or else a path. -/
theorem text_generate_eq_error {e : GenerateError} :
    (p.generate here timestamp options).text = .error e ↔
    if p.definitions.any (·.isOverlong (options.scope p.definitions)) then
      e = .write .tooManyDigits
    else p.imports? here = none ∧ e = .emptyPath := by
  rw [text_generate]
  cases p.definitions.any (·.isOverlong (options.scope p.definitions)) with
  | true => simp [eq_comm]
  | false => cases p.imports? here <;> simp [eq_comm]

/-- The programs have the same paths, and one of them as their entry. -/
structure Program.Alongside (p q : Program) : Prop where
  entry : q.entry = p.entry
  paths : q.paths = p.paths

theorem Program.Alongside.imports?_eq (h : p.Alongside q) (here : Text) :
    q.imports? here = p.imports? here := by
  unfold Program.imports?
  rw [h.entry, h.paths]

theorem Program.Alongside.source_eq (h : p.Alongside q) (options : FileOptions) :
    options.source q = options.source p := by
  unfold FileOptions.source
  rw [h.entry]

/-- The definitions of `q` are made like those of `p`, in their own order. -/
structure Program.Reordered (here timestamp : Text) (options : FileOptions) (p q : Program) :
    Prop where
  /-- Each has its block, whatever stands before or behind it, -/
  block : ∀ d : Definition,
    d.block? (options.scope q.definitions) = d.block? (options.scope p.definitions)
  blocks : (q.definitions.filterMap (·.written? (options.scope q.definitions))).Perm
    (p.definitions.filterMap (·.written? (options.scope p.definitions)))
  /-- a file differs in the order of blocks only, and warnings in theirs, -/
  made : ∀ text, (p.generate here timestamp options).text = .ok text → ∃ imports,
    text = Layout.format (DeclarationFile.text ⟨timestamp, options.source p, imports,
      p.definitions.filterMap (·.written? (options.scope p.definitions))⟩) ∧
    (q.generate here timestamp options).text =
      .ok (Layout.format (DeclarationFile.text ⟨timestamp, options.source p, imports,
        q.definitions.filterMap (·.written? (options.scope p.definitions))⟩)) ∧
    (p.generate here timestamp options).skipped = p.definitions.filterMap Definition.skipped? ∧
    (q.generate here timestamp options).skipped = q.definitions.filterMap Definition.skipped?
  /-- and a file that cannot be made cannot be made for the same reason. -/
  refused : ∀ e, (p.generate here timestamp options).text = .error e →
    (q.generate here timestamp options).text = .error e

/-- The definitions of `q` are made like those of `p`, and only warnings are
    missing. -/
structure Program.Pruned (here timestamp : Text) (options : FileOptions)
    (keep : Definition → Bool) (p q : Program) : Prop where
  block : ∀ d : Definition,
    d.block? (options.scope q.definitions) = d.block? (options.scope p.definitions)
  text : (q.generate here timestamp options).text = (p.generate here timestamp options).text
  /-- As far as definitions are made, those that are kept are warned of as
      before. -/
  skipped : ∃ reached, reached <+: p.definitions ∧
    (∀ text, (p.generate here timestamp options).text = .ok text → reached = p.definitions) ∧
    (p.generate here timestamp options).skipped = reached.filterMap Definition.skipped? ∧
    (q.generate here timestamp options).skipped =
      (reached.filter keep).filterMap Definition.skipped?
  warning : ∀ s, q.warning s = p.warning s

/-- All definitions are reached in a file that is made. -/
theorem takeWhile_of_made {text : Text}
    (made : (p.generate here timestamp options).text = .ok text) :
    p.definitions.takeWhile (!·.isOverlong (options.scope p.definitions)) = p.definitions := by
  obtain ⟨short, -⟩ := text_generate_eq_ok.1 made
  refine List.takeWhile_eq_self_iff.2 fun d mem => ?_
  simpa using List.any_eq_false.1 short d mem

theorem scope_eq (options : FileOptions) {ds es : List Definition}
    (h : enumKeys ds = enumKeys es) : options.scope ds = options.scope es := by
  unfold FileOptions.scope
  rw [h]

/-- **Definitions with distinct names may stand in any order.** -/
theorem reordered (here timestamp : Text) (options : FileOptions) (alongside : p.Alongside q)
    (distinct : (p.definitions.map Definition.name).Nodup)
    (perm : q.definitions.Perm p.definitions) : p.Reordered here timestamp options q := by
  have scope : options.scope q.definitions = options.scope p.definitions :=
    scope_eq options <| enumKeys_congr ((perm.map _).nodup_iff.2 distinct) distinct
      fun d _ => perm.mem_iff
  have overlong : q.definitions.any (·.isOverlong (options.scope q.definitions)) =
      p.definitions.any (·.isOverlong (options.scope p.definitions)) := by
    rw [scope, perm.any_eq]
  refine ⟨fun d => by rw [scope], ?_, fun text made => ?_, fun e refused => ?_⟩
  · rw [scope]
    exact perm.filterMap _
  · obtain ⟨short, imports, imported, laid⟩ := text_generate_eq_ok.1 made
    have remade : (q.generate here timestamp options).text =
        .ok (Layout.format (DeclarationFile.text ⟨timestamp, options.source p, imports,
          q.definitions.filterMap (·.written? (options.scope p.definitions))⟩)) := by
      refine text_generate_eq_ok.2 ⟨overlong.trans short, imports, ?_, ?_⟩
      · rw [alongside.imports?_eq, imported]
      · rw [scope, alongside.source_eq]
    refine ⟨imports, laid, remade, ?_, ?_⟩
    · rw [skipped_generate, takeWhile_of_made made]
    · rw [skipped_generate, takeWhile_of_made remade]
  · rw [text_generate_eq_error, overlong, alongside.imports?_eq]
    exact text_generate_eq_error.1 refused

/-- To leave out elements that do not stop it is the same before `takeWhile` and
    after it. -/
theorem takeWhile_filter {α : Type} {ds : List α} {stop keep : α → Bool}
    (h : ∀ d ∈ ds, keep d = false → stop d = false) :
    (ds.filter keep).takeWhile (!stop ·) = (ds.takeWhile (!stop ·)).filter keep := by
  induction ds with
  | nil => rfl
  | cons d ds ih =>
    obtain ⟨first, others⟩ := List.forall_mem_cons.1 h
    cases kept : keep d with
    | true => cases stops : stop d <;> simp [kept, stops, ih others]
    | false => simp [kept, first kept, ih others]

/-- **Without definitions that are skipped only their warnings are missing.** -/
theorem pruned (here timestamp : Text) (options : FileOptions) {keep : Definition → Bool}
    (alongside : p.Alongside q) (distinct : (p.definitions.map Definition.name).Nodup)
    (dropped : ∀ d ∈ p.definitions, keep d = false → d.skipped? ≠ none)
    (rest : q.definitions = p.definitions.filter keep) :
    p.Pruned here timestamp options keep q := by
  have sub : (q.definitions.map Definition.name).Nodup :=
    distinct.sublist (rest ▸ (List.filter_sublist).map _)
  have scope : options.scope q.definitions = options.scope p.definitions := by
    refine scope_eq options <| enumKeys_congr sub distinct fun d written => ?_
    rw [rest, List.mem_filter]
    refine and_iff_left_of_imp fun mem => ?_
    by_contra gone
    exact dropped d mem (by simpa using gone) written
  have none : ∀ d ∈ p.definitions, ¬ keep d = true →
      d.isOverlong (options.scope p.definitions) = false ∧
        d.written? (options.scope p.definitions) = none :=
    fun d mem gone => of_skipped _ (dropped d mem (by simpa using gone))
  refine ⟨fun d => by rw [scope], ?_, ?_, fun s => by rw [Program.warning, alongside.entry]; rfl⟩
  · have any : q.definitions.any (·.isOverlong (options.scope p.definitions)) =
        p.definitions.any (·.isOverlong (options.scope p.definitions)) := by
      rw [Bool.eq_iff_iff, rest, List.any_eq_true, List.any_eq_true]
      constructor
      · rintro ⟨d, mem, overlong⟩
        exact ⟨d, List.mem_of_mem_filter mem, overlong⟩
      · rintro ⟨d, mem, overlong⟩
        refine ⟨d, List.mem_filter.2 ⟨mem, ?_⟩, overlong⟩
        by_contra gone
        rw [(none d mem gone).1] at overlong
        cases overlong
    have written : q.definitions.filterMap (·.written? (options.scope p.definitions)) =
        p.definitions.filterMap (·.written? (options.scope p.definitions)) := by
      rw [rest, List.filterMap_filter]
      refine List.filterMap_congr fun d mem => ?_
      split
      · rfl
      · next gone => exact (none d mem gone).2.symm
    rw [text_generate, text_generate, scope, any, written, alongside.imports?_eq,
      alongside.source_eq]
  · refine ⟨p.definitions.takeWhile (!·.isOverlong (options.scope p.definitions)),
      List.takeWhile_prefix _, fun text made => takeWhile_of_made made,
      skipped_generate .., ?_⟩
    rw [skipped_generate, scope, rest, takeWhile_filter fun d mem gone => ?_]
    exact (none d mem (by simp [gone])).1

end Files

/-- **Blocks by the enums around them.**  Where the same names stand for enums
    with the same keys, a definition has the same block; so definitions with
    distinct names may change places, and those that are skipped may go. -/
theorem blocks_by_enums :
    (∀ (rename : Text → Text) (numbers : Bool) (ds es : List Definition), SameEnums ds es →
      ∀ d : Definition, d.block? ⟨rename, enumKeys ds, numbers⟩ =
        d.block? ⟨rename, enumKeys es, numbers⟩) ∧
    (∀ (here timestamp : Text) (options : FileOptions) (p q : Program), p.Alongside q →
      (p.definitions.map Definition.name).Nodup → q.definitions.Perm p.definitions →
      p.Reordered here timestamp options q) ∧
    ∀ (here timestamp : Text) (options : FileOptions) (keep : Definition → Bool) (p q : Program),
      p.Alongside q → (p.definitions.map Definition.name).Nodup →
      (∀ d ∈ p.definitions, keep d = false → d.skipped? ≠ none) →
      q.definitions = p.definitions.filter keep → p.Pruned here timestamp options keep q := by
  refine ⟨fun rename numbers ds es same d => ?_, ?_, ?_⟩
  · exact block?_congr rename (sameEnums_iff.1 same) numbers d
  · intro here timestamp options p q alongside distinct perm
    exact reordered here timestamp options alongside distinct perm
  · intro here timestamp options keep p q alongside distinct dropped rest
    exact pruned here timestamp options alongside distinct dropped rest

/-- A reference to an enum further down, and a definition that is skipped. -/
def forward : List Definition :=
  [.const "A" (.named "E") (.identifier "E.X"), .enum "E" [⟨"X", none⟩, ⟨"Y", none⟩],
    .unsupported "Senum" "L"]

theorem blocks_by_enums_forward :
    (∀ d : Definition, d.block? ⟨id, enumKeys [.enum "E" [⟨"X", none⟩, ⟨"Y", none⟩]], false⟩ =
      d.block? ⟨id, enumKeys [.enum "E" [⟨"Y", some 0⟩, ⟨"X", none⟩]], false⟩) ∧
    (Program.single "/m.thrift" ⟨[], [], forward⟩).Reordered "/" "now" .default
      (.single "/m.thrift" ⟨[], [], forward.reverse⟩) ∧
    (Program.single "/m.thrift" ⟨[], [], forward⟩).Pruned "/" "now" .default
      (fun d => d.skipped? = none) (.single "/m.thrift" ⟨[], [], forward.take 2⟩) := by
  have same : SameEnums [.enum "E" [⟨"X", none⟩, ⟨"Y", none⟩]]
      [.enum "E" [⟨"Y", some 0⟩, ⟨"X", none⟩]] := by
    refine sameEnums_iff.2 fun name => ?_
    by_cases h : ['E'] = name
    · subst h
      exact .some fun key => by simp [or_comm]
    · have none {values : List EnumValue} : enumKeys [.enum "E" values] name = none :=
        enumKeys_eq_none fun d mem => by rwa [List.mem_singleton.1 mem]
      rw [none, none]
      exact .none
  have alongside (ds : List Definition) : (Program.single "/m.thrift" ⟨[], [], forward⟩).Alongside
      (.single "/m.thrift" ⟨[], [], ds⟩) := ⟨rfl, rfl⟩
  have distinct : (forward.map Definition.name).Nodup := by decide
  refine ⟨blocks_by_enums.1 id false _ _ same,
    blocks_by_enums.2.1 _ _ _ _ _ (alongside _) distinct (List.reverse_perm forward),
    blocks_by_enums.2.2 _ _ _ _ _ _ (alongside _) distinct ?_ rfl⟩
  intro d _ dropped
  simpa using dropped

end IdlFlow
