/-
  What loading looks at, in order, and where it stops.

  * `Step`: a file is read, or looked for where an include leads;
  * `Step.Fails`: how a step fails, and the message if the sources are to blame;
  * `Tour tree seen pending steps`: depth first and in the order of declaration,
    `steps` are what is looked at for what is `pending`, failures or not, if the
    files at `seen` have been read;
  * `FirstFault tree steps cause`: the first of the steps that fails does so for
    this cause;
  * `FileTree.Holds tree path`: a file stands at the path, and it is a document.

  Main statement: a program loads exactly if every path in reach holds a
  document, and otherwise the failure is the one of the first step of its tour
  that fails (`load_along_tour`).
-/
import IdlFlow.Proofs.References

namespace IdlFlow

/-! ## Steps -/

/-- One look at the file tree. -/
inductive Step
  /-- The file at the path is read. -/
  | read (path : Text)
  /-- A file is looked for where the include in the file at `includer` leads. -/
  | seek (includer included : Text)
  deriving DecidableEq

/-- How a step fails, with the message of a failure that sources are to blame
    for; other failures pass as they are. -/
inductive Step.Fails (tree : FileTree) : Step → LoadError → Option Text → Prop
  | unreadable {path : Text} {e : FileError} :
    tree.readText path = .error e → Fails tree (.read path) (.unreadable path e) none
  | valueless {path s : Text} {e : NumeralError} :
    tree.readText path = .ok s → Document.parse s = .error (.numeral e) →
    Fails tree (.read path) (.malformed path (.numeral e)) none
  /-- The path stands in front of what the parser says. -/
  | malformed {path s : Text} {wanted : Wanted} {found : Option Lexeme} {position : Position} :
    tree.readText path = .ok s → Document.parse s = .error (.unexpected wanted found position) →
    Fails tree (.read path) (.malformed path (.unexpected wanted found position))
      (some (path ++ ": " ++ (ParseError.unexpected wanted found position).message))
  | missing {includer included place : Text} :
    includePath tree.here includer included = place → tree.isFile place = false →
    Fails tree (.seek includer included) (.missingInclude includer included place)
      (some (includer ++ ": included file '" ++ included ++ "' not found (looked for " ++ place ++
        ")"))

/-- The step does not fail. -/
def Step.Fine (tree : FileTree) (step : Step) : Prop :=
  ∀ cause message, ¬ step.Fails tree cause message

/-- The first step that fails does so for the cause, with its message. -/
def FirstFault (tree : FileTree) (steps : List Step) (cause : LoadError) : Prop :=
  ∃ before step after, steps = before ++ step :: after ∧ (∀ s ∈ before, s.Fine tree) ∧
    step.Fails tree cause cause.sourceMessage?

/-- What the file at the path asks to look for. -/
def mentions (tree : FileTree) (path : Text) : List Step :=
  match tree.readDocument path with
  | .ok document => document.includes.map (.seek path)
  | .error _ => []

/-- The steps for what is pending: a file that is found is read next, unless it
    has been, and what it includes comes before the others. -/
inductive Tour (tree : FileTree) : List Text → List Step → List Step → Prop
  | done {seen : List Text} : Tour tree seen [] []
  | seek {seen : List Text} {includer included : Text} {pending steps : List Step} :
    Tour tree seen (.read (includePath tree.here includer included) :: pending) steps →
    Tour tree seen (.seek includer included :: pending) (.seek includer included :: steps)
  | known {seen : List Text} {path : Text} {pending steps : List Step} :
    path ∈ seen → Tour tree seen pending steps → Tour tree seen (.read path :: pending) steps
  | new {seen : List Text} {path : Text} {pending steps : List Step} :
    path ∉ seen → Tour tree (seen ++ [path]) (mentions tree path ++ pending) steps →
    Tour tree seen (.read path :: pending) (.read path :: steps)

/-- A file stands at the path, its bytes are a text, and the text is a
    document. -/
def FileTree.Holds (tree : FileTree) (path : Text) : Prop :=
  ∃ content s document, tree.at? path = some (.file content) ∧
    String.fromUTF8? content = some s ∧
    Document.parse (Text.unifyLineEnds s.toList) = .ok document

variable {tree : FileTree} {seen : List Text} {pending steps : List Step} {path : Text}
  {document : Document} {cause : LoadError}

theorem mentions_of_ok (h : tree.readDocument path = .ok document) :
    mentions tree path = document.includes.map (.seek path) := by
  simp [mentions, h]

theorem mentions_of_error (h : tree.readDocument path = .error cause) :
    mentions tree path = [] := by
  simp [mentions, h]

/-! ## One tour -/

theorem Tour.unique {other : List Step} (h : Tour tree seen pending steps)
    (h' : Tour tree seen pending other) : steps = other := by
  induction h generalizing other with
  | done =>
    cases h'
    rfl
  | seek _ ih =>
    cases h' with
    | seek h' => rw [ih h']
  | known mem _ ih =>
    cases h' with
    | known _ h' => exact ih h'
    | new new _ => exact absurd mem new
  | new new _ ih =>
    cases h' with
    | known mem _ => exact absurd mem new
    | new _ h' => rw [ih h']

/-- The paths of files that have not been read. -/
def FileTree.unread (tree : FileTree) (seen : List Text) : List Text :=
  tree.absolutePaths.filter (· ∉ seen)

/-- Looking for a file is followed by reading it. -/
def Step.weight : Step → Nat
  | read _ => 1
  | seek .. => 2

theorem unread_append (tree : FileTree) (seen : List Text) (path : Text) :
    tree.unread (seen ++ [path]) = (tree.unread seen).filter (· ≠ path) := by
  simp only [FileTree.unread, List.filter_filter]
  refine List.filter_congr fun other _ => ?_
  simp [not_or, and_comm]

theorem length_unread_append_le (tree : FileTree) (seen : List Text) (path : Text) :
    (tree.unread (seen ++ [path])).length ≤ (tree.unread seen).length := by
  rw [unread_append]
  exact List.length_filter_le _ _

/-- A document that is read is of a file that had not been read. -/
theorem length_unread_append_lt (normal : Path.IsNormal path) (new : path ∉ seen)
    (read : tree.readDocument path = .ok document) :
    (tree.unread (seen ++ [path])).length < (tree.unread seen).length := by
  rw [unread_append, List.length_filter_lt_length_iff_exists]
  refine ⟨path, ?_, by simp⟩
  simpa [FileTree.unread, new] using mem_absolutePaths normal read

/-- **A tour ends**: each document is read once, and what fails includes
    nothing. -/
theorem exists_tour (here : Path.isAbsolute tree.here = true) : ∀ seen pending,
    (∀ path, .read path ∈ pending → Path.IsNormal path) → ∃ steps, Tour tree seen pending steps
  | _, [], _ => ⟨[], .done⟩
  | seen, .seek includer included :: pending, normal => by
    obtain ⟨steps, tour⟩ := exists_tour here seen
      (.read (includePath tree.here includer included) :: pending) fun path mem => by
        rcases List.mem_cons.1 mem with eq | mem
        · cases eq
          exact Path.absolute_isNormal here _
        · exact normal path (.tail _ mem)
    exact ⟨_, .seek tour⟩
  | seen, .read path :: pending, normal => by
    have others : ∀ other, .read other ∈ pending → Path.IsNormal other :=
      fun other mem => normal other (.tail _ mem)
    by_cases known : path ∈ seen
    · obtain ⟨steps, tour⟩ := exists_tour here seen pending others
      exact ⟨steps, .known known tour⟩
    cases read : tree.readDocument path with
    | error cause =>
      obtain ⟨steps, tour⟩ := exists_tour here (seen ++ [path]) pending others
      refine ⟨.read path :: steps, .new known ?_⟩
      rwa [mentions_of_error read]
    | ok document =>
      have shorter := length_unread_append_lt (normal path List.mem_cons_self) known read
      obtain ⟨steps, tour⟩ := exists_tour here (seen ++ [path])
        (mentions tree path ++ pending) fun other mem => by
          rcases List.mem_append.1 mem with mem | mem
          · simp [mentions_of_ok read] at mem
          · exact others other mem
      exact ⟨_, .new known tour⟩
  termination_by seen pending => ((tree.unread seen).length, (pending.map Step.weight).sum)
  decreasing_by
  · exact Prod.Lex.right _ (by simp [Step.weight])
  · exact Prod.Lex.right _ (by simp [Step.weight])
  · have le := length_unread_append_le tree seen path
    rcases Nat.lt_or_eq_of_le le with lt | eq
    · exact Prod.Lex.left _ _ lt
    · rw [eq]
      exact Prod.Lex.right _ (by simp [Step.weight])
  · exact Prod.Lex.left _ _ shorter

/-! ## Loading goes along the tour -/

/-- What a traversal gives says how the steps go: they are fine as far as those
    for what is pending behind it, or there is a first fault. -/
def Follows (tree : FileTree) (pending steps : List Step) :
    Except LoadFailure (Assoc Text Document) → Prop
  | .ok more => ∃ front back, steps = front ++ back ∧ (∀ s ∈ front, s.Fine tree) ∧
      Tour tree more.keys pending back
  | .error failure => FirstFault tree steps failure.cause

variable {result : Except LoadFailure (Assoc Text Document)} {step : Step}

theorem Follows.append {front : List Step} (fine : ∀ s ∈ front, s.Fine tree)
    (h : Follows tree pending steps result) : Follows tree pending (front ++ steps) result := by
  cases result with
  | ok more =>
    obtain ⟨first, back, rfl, fine', tour⟩ := h
    refine ⟨front ++ first, back, (List.append_assoc ..).symm, ?_, tour⟩
    exact List.forall_mem_append.2 ⟨fine, fine'⟩
  | error failure =>
    obtain ⟨first, step, after, rfl, fine', fails⟩ := h
    refine ⟨front ++ first, step, after, (List.append_assoc ..).symm, ?_, fails⟩
    exact List.forall_mem_append.2 ⟨fine, fine'⟩

theorem Follows.cons (fine : step.Fine tree) (h : Follows tree pending steps result) :
    Follows tree pending (step :: steps) result := by
  have front : ∀ s ∈ [step], s.Fine tree := by simpa using fine
  exact h.append front

theorem fine_read (normal : Path.IsNormal path) (read : tree.readDocument path = .ok document) :
    (Step.read path).Fine tree := by
  obtain ⟨s, text, parsed⟩ := readDocument_eq_ok.1 read
  rw [normal.tidy_eq] at text
  intro cause message fails
  cases fails with
  | unreadable text' => simp [text] at text'
  | valueless text' parsed' | malformed text' parsed' =>
    rw [text] at text'
    cases text'
    simp [parsed] at parsed'

theorem fine_seek {includer included : Text}
    (file : tree.isFile (includePath tree.here includer included) = true) :
    (Step.seek includer included).Fine tree := by
  intro cause message fails
  cases fails with
  | missing place absent =>
    rw [← place, file] at absent
    cases absent

theorem fails_read (normal : Path.IsNormal path) (unread : tree.readDocument path = .error cause) :
    (Step.read path).Fails tree cause cause.sourceMessage? := by
  unfold FileTree.readDocument at unread
  rw [normal.tidy_eq] at unread
  cases text : tree.readText path with
  | error e =>
    rw [text] at unread
    cases unread
    exact .unreadable text
  | ok s =>
    rw [text] at unread
    cases parsed : Document.parse s with
    | ok document => simp [parsed, pure, Except.pure] at unread
    | error e =>
      simp only [parsed] at unread
      cases unread
      cases e with
      | unexpected wanted found position => exact .malformed text parsed
      | numeral e => exact .valueless text parsed

mutual

theorem Visit.follows {tree : FileTree} (here : Path.isAbsolute tree.here = true) {path : Text}
    {loaded : Assoc Text Document} {result : Except LoadFailure (Assoc Text Document)} :
    Visit tree path loaded result → Path.IsNormal path → ∀ {pending steps},
      Tour tree loaded.keys (.read path :: pending) steps → Follows tree pending steps result
  | .known mem, _, _, _, tour => by
    cases tour with
    | known _ tour => exact ⟨[], _, rfl, by simp, tour⟩
    | new new _ => exact absurd mem new
  | .unread new unread, normal, _, _, tour => by
    cases tour with
    | known mem _ => exact absurd mem new
    | new _ _ => exact ⟨[], _, _, rfl, by simp, fails_read normal unread⟩
  | .read new read all, normal, _, _, tour => by
    cases tour with
    | known mem _ => exact absurd mem new
    | new _ tour =>
      refine (VisitAll.follows here all ?_).cons (fine_read normal read)
      rwa [Assoc.keys_insert, if_neg new, ← mentions_of_ok read]

theorem VisitAll.follows {tree : FileTree} (here : Path.isAbsolute tree.here = true)
    {includer : Text} {includes : List Text} {loaded : Assoc Text Document}
    {result : Except LoadFailure (Assoc Text Document)} :
    VisitAll tree includer includes loaded result → ∀ {pending steps},
      Tour tree loaded.keys (includes.map (.seek includer) ++ pending) steps →
      Follows tree pending steps result
  | .nil, _, _, tour => ⟨[], _, rfl, by simp, tour⟩
  | .missing absent, _, _, .seek _ => ⟨[], _, _, rfl, by simp, .missing rfl absent⟩
  | .failed file first, _, _, .seek tour =>
    (first.follows here (Path.absolute_isNormal here _) tour).cons (fine_seek file)
  | .next file first rest, _, _, .seek tour => by
    obtain ⟨front, back, rfl, fine, tour⟩ :=
      first.follows here (Path.absolute_isNormal here _) tour
    exact ((rest.follows here tour).append fine).cons (fine_seek file)

end

/-! ## The first fault -/

theorem Step.Fails.unique {cause' : LoadError} {message message' : Option Text}
    (h : step.Fails tree cause message) (h' : step.Fails tree cause' message') :
    cause = cause' := by
  cases h with
  | missing place =>
    cases h' with
    | missing place' => rw [← place, ← place']
  | unreadable text | valueless text | malformed text => cases h' <;> simp_all

theorem FirstFault.not_fine (h : FirstFault tree steps cause) :
    ¬ ∀ s ∈ steps, s.Fine tree := by
  obtain ⟨before, step, after, rfl, -, fails⟩ := h
  intro fine
  exact fine step (by simp) _ _ fails

/-- A step that fails is not in front of another where all are fine. -/
theorem Step.Fails.eq_of_fine {other : Step} {after more after' : List Step}
    {message : Option Text} (fails : step.Fails tree cause message)
    (cut : step :: after = more ++ other :: after') (fine : ∀ s ∈ more, s.Fine tree) :
    step = other := by
  cases more with
  | nil => exact (List.cons.inj cut).1
  | cons first more =>
    obtain ⟨rfl, -⟩ := List.cons.inj cut
    exact absurd fails (fine step List.mem_cons_self _ _)

theorem FirstFault.unique {cause' : LoadError} (h : FirstFault tree steps cause)
    (h' : FirstFault tree steps cause') : cause = cause' := by
  obtain ⟨before, step, after, rfl, fine, fails⟩ := h
  obtain ⟨before', step', after', cut, fine', fails'⟩ := h'
  have same : step = step' := by
    rcases List.append_eq_append_iff.1 cut with ⟨more, rfl, eq⟩ | ⟨more, rfl, eq⟩
    · exact fails.eq_of_fine eq (List.forall_mem_append.1 fine').2
    · exact (fails'.eq_of_fine eq (List.forall_mem_append.1 fine).2).symm
  exact fails.unique (same ▸ fails')

/-! ## Files that hold documents -/

theorem readText_eq_ok {t : Text} : tree.readText path = .ok t ↔
    ∃ content s, tree.at? path = some (.file content) ∧ String.fromUTF8? content = some s ∧
      Text.unifyLineEnds s.toList = t := by
  unfold FileTree.readText FileTree.read FileTree.at?
  cases tree.locate path with
  | error e => simp [bind, Except.bind]
  | ok place =>
    rcases node : tree.node? place with _ | _ | content
    · simp [node, bind, Except.bind, throw, throwThe, MonadExceptOf.throw]
    · simp [node, bind, Except.bind, throw, throwThe, MonadExceptOf.throw]
    · cases text : String.fromUTF8? content <;>
        simp [node, text, bind, Except.bind, pure, Except.pure, throw, throwThe,
          MonadExceptOf.throw]

theorem holds_iff (normal : Path.IsNormal path) :
    tree.Holds path ↔ ∃ document, tree.readDocument path = .ok document := by
  simp only [FileTree.Holds, readDocument_eq_ok, normal.tidy_eq, readText_eq_ok]
  constructor
  · rintro ⟨content, s, document, file, text, parsed⟩
    exact ⟨document, _, ⟨content, s, file, text, rfl⟩, parsed⟩
  · rintro ⟨document, _, ⟨content, s, file, text, rfl⟩, parsed⟩
    exact ⟨content, s, document, file, text, parsed⟩

theorem FileTree.Holds.isFile (h : tree.Holds path) : tree.isFile path = true := by
  obtain ⟨content, -, -, file, -⟩ := h
  simp [FileTree.isFile, file]

/-- What a file includes is under a normal path. -/
theorem isNormal_of_reach (here : Path.isAbsolute tree.here = true) {entry : Text}
    (normal : Path.IsNormal entry)
    (reach : Relation.ReflTransGen (fun a b => b ∈ targets tree a) entry path) :
    Path.IsNormal path := by
  induction reach with
  | refl => exact normal
  | @tail middle path _ leads =>
    unfold targets at leads
    split at leads
    · obtain ⟨included, -, rfl⟩ := List.mem_map.1 leads
      exact Path.absolute_isNormal here _
    · cases leads

/-- **Loading succeeds exactly if every path in reach holds a document**,
    whatever the order. -/
theorem exists_load_iff (here : Path.isAbsolute tree.here = true) (path : Text) :
    (∃ program, tree.load path = .ok program) ↔
      ∀ p, Relation.ReflTransGen (fun a b => b ∈ targets tree a) (Path.absolute tree.here path) p →
        tree.Holds p := by
  have entry := Path.absolute_isNormal here path
  constructor
  · rintro ⟨program, loads⟩ p reach
    have loaded := (load_spec tree here path).2 program loads
    have mem : p ∈ program.paths := (loaded.reachable p).2 (loaded.entry ▸ reach)
    exact (holds_iff (isNormal_of_reach here entry reach)).2 (loaded.exists_readDocument mem)
  · intro holds
    obtain ⟨⟨result, visit, loads⟩, -⟩ := load_spec tree here path
    have read : ∀ p, Relation.ReflTransGen (fun a b => b ∈ targets tree a)
        (Path.absolute tree.here path) p → ∃ document, tree.readDocument p = .ok document :=
      fun p reach => (holds_iff (isNormal_of_reach here entry reach)).1 (holds p reach)
    obtain ⟨more, rfl⟩ := visit.exists_ok read (fun p reach => (holds p reach).isFile)
      (fun p reach other leads => reach.tail leads) .refl
    exact ⟨_, loads⟩

/-- **Loading goes along its tour**: there is one tour, and loading fails as the
    first step of it that fails does, with all before it fine. -/
theorem load_along_tour (tree : FileTree) (here : Path.isAbsolute tree.here = true)
    (path : Text) :
    ((∃ program, tree.load path = .ok program) ↔
      ∀ p, Relation.ReflTransGen (fun a b => b ∈ targets tree a) (Path.absolute tree.here path) p →
        tree.Holds p) ∧
    ∃ steps, (∀ other, Tour tree [] [.read (Path.absolute tree.here path)] other ↔ other = steps) ∧
      ((∃ program, tree.load path = .ok program) ↔ ∀ s ∈ steps, s.Fine tree) ∧
      ∀ cause, (∃ failure, tree.load path = .error failure ∧ failure.cause = cause) ↔
        FirstFault tree steps cause := by
  refine ⟨exists_load_iff here path, ?_⟩
  have entry := Path.absolute_isNormal here path
  obtain ⟨steps, tour⟩ := exists_tour here [] [.read (Path.absolute tree.here path)] <| by
    rintro _ (_ | ⟨_, ⟨⟩⟩)
    exact entry
  refine ⟨steps, fun other => ⟨fun h => h.unique tour, fun h => h ▸ tour⟩, ?_⟩
  obtain ⟨⟨result, visit, loads⟩, -⟩ := load_spec tree here path
  have follows := visit.follows here entry tour
  cases result with
  | ok more =>
    obtain ⟨front, back, rfl, fine, rest⟩ := follows
    cases rest
    rw [List.append_nil]
    refine ⟨iff_of_true ⟨_, loads⟩ fine, fun cause => iff_of_false ?_ fun fault => ?_⟩
    · rintro ⟨failure, fails, -⟩
      rw [loads] at fails
      cases fails
    · exact fault.not_fine fine
  | error failure =>
    refine ⟨iff_of_false ?_ follows.not_fine, fun cause => ⟨?_, fun fault => ?_⟩⟩
    · rintro ⟨program, succeeds⟩
      rw [loads] at succeeds
      cases succeeds
    · rintro ⟨failure', fails, rfl⟩
      rw [loads] at fails
      cases fails
      exact follows
    · exact ⟨failure, loads, follows.unique fault⟩

/-- Two files that include each other, and behind them an include of no file. -/
def crossing : FileTree :=
  { here := "/w", nodes := [(["w".toList], .folder),
      (["w".toList, "a".toList], .file "include 'b' include 'c'".toUTF8),
      (["w".toList, "b".toList], .file "include 'a'".toUTF8),
      (["w".toList, "c".toList], .file "include 'd'".toUTF8)] }

theorem load_along_tour_crossing : Path.isAbsolute crossing.here = true ∧
    ∃ steps, Tour crossing [] [.read "/w/a"] steps ∧
      FirstFault crossing steps (.missingInclude "/w/c" "d" "/w/d") := by
  have here : Path.isAbsolute crossing.here = true := by decide
  have refused : (match crossing.load "a" with
      | .ok _ => none
      | .error failure => some failure.cause) = some (.missingInclude "/w/c" "d" "/w/d") := by
    decide +kernel
  have fails : ∃ failure, crossing.load "a" = .error failure ∧
      failure.cause = .missingInclude "/w/c" "d" "/w/d" := by
    cases loads : crossing.load "a" with
    | ok program =>
      rw [loads] at refused
      cases refused
    | error failure =>
      rw [loads] at refused
      exact ⟨failure, rfl, Option.some.inj refused⟩
  obtain ⟨-, steps, tour, -, fault⟩ := load_along_tour crossing here "a"
  exact ⟨here, steps, (tour steps).2 rfl, (fault _).1 fails⟩

end IdlFlow
