/-
  Which paths lead somewhere, and what can be written there.

  * `FileTree.origin tree path`: where following a path begins.

  Main statements: a tidy path leads where the path itself leads
  (`locate_tidy`); names that are short enough lead down through folders
  (`walk_folders`); the directory of a path that leads somewhere is a folder
  (`folder_of_directory`), which need not be made (`makeFolders_of_folder`); and
  what leads somewhere still does when the tree has grown (`Grown.locate_mono`).
-/
import IdlFlow.Proofs.Growth

namespace IdlFlow

open IdlFlow.Path

/-! ## Sizes -/

namespace Text

variable {s t : Text}

theorem byteCount_cons (c : Char) (s : Text) :
    byteCount (c :: s) = c.utf8Size + s.byteCount := by
  have shift (t : Text) (start : Nat) :
      t.foldl (fun n c => n + c.utf8Size) start = start + t.byteCount := by
    induction t generalizing start with
    | nil => rfl
    | cons d t ih =>
      rw [byteCount, List.foldl_cons, List.foldl_cons, ih, ih]
      omega
  rw [byteCount, List.foldl_cons, shift, Nat.zero_add]

theorem byteCount_le_of_sublist (h : s.Sublist t) : s.byteCount ≤ t.byteCount := by
  induction h with
  | slnil => exact Nat.le_refl _
  | cons c _ ih =>
    rw [byteCount_cons]
    omega
  | cons_cons c _ ih =>
    rw [byteCount_cons, byteCount_cons]
    omega

/-- Fewer parts make a shorter text. -/
theorem intercalate_filter_sublist (separator : Text) (keep : Text → Bool) (parts : List Text) :
    (separator.intercalate (parts.filter keep)).Sublist (separator.intercalate parts) := by
  induction parts with
  | nil => exact List.Sublist.refl _
  | cons part parts ih =>
    have behind : (separator.intercalate parts).Sublist
        (separator.intercalate (part :: parts)) := by
      cases parts with
      | nil => exact List.nil_sublist _
      | cons next parts =>
        rw [List.intercalate_cons_cons]
        exact List.sublist_append_right _ _
    by_cases kept : keep part = true
    · rw [List.filter_cons_of_pos kept]
      cases others : parts.filter keep with
      | nil =>
        rw [List.intercalate_singleton]
        cases parts with
        | nil => rw [List.intercalate_singleton]
        | cons next parts =>
          rw [List.intercalate_cons_cons, List.append_assoc]
          exact List.sublist_append_left _ _
      | cons first rest =>
        cases parts with
        | nil => cases others
        | cons next parts =>
          rw [List.intercalate_cons_cons, List.intercalate_cons_cons, ← others]
          exact ih.append_left _
    · rw [List.filter_cons_of_neg kept]
      exact ih.trans behind

end Text

namespace Path

variable {path : Text}

theorem ofNames_names_sublist (path : Text) : (ofNames (names path)).Sublist path := by
  have fewer := Text.intercalate_filter_sublist [slash]
    (fun name => name ≠ [] ∧ name ≠ current) (Text.splitOn slash path)
  rwa [Text.intercalate_splitOn] at fewer

/-- A relative path without names is made of single dots. -/
theorem current_sublist (ne : path ≠ []) (relative : isAbsolute path = false)
    (none : names path = []) : current.Sublist path := by
  obtain ⟨c, s, rfl⟩ := List.exists_cons_of_ne_nil ne
  have hc : c ≠ slash := by simpa [isAbsolute] using relative
  cases cut : Text.splitOn slash s with
  | nil => exact absurd cut (Text.splitOn_ne_nil slash s)
  | cons part parts =>
    have first : Text.splitOn slash (c :: s) = (c :: part) :: parts := by
      simp [Text.splitOn, hc, cut]
    have dropped := List.filter_eq_nil_iff.1 none (c :: part) (first ▸ List.mem_cons_self)
    have dot : c = '.' := by
      have eq : c :: part = current := by simpa using dropped
      exact (List.cons.inj eq).1
    rw [dot]
    exact (List.nil_sublist s).cons_cons '.'

/-- Tidying only leaves characters out. -/
theorem tidy_sublist (ne : path ≠ []) : (tidy path).Sublist path := by
  have whole : (root path ++ ofNames (names path)).Sublist path := by
    cases absolute : isAbsolute path with
    | false =>
      rw [root_eq_nil_iff.2 absolute]
      exact ofNames_names_sublist path
    | true =>
      obtain ⟨s, rfl⟩ := isAbsolute_iff.1 absolute
      rw [names_slash]
      rcases root_of_isAbsolute absolute with eq | eq
      · rw [eq]
        exact (ofNames_names_sublist s).cons_cons '/'
      · obtain ⟨t, rfl⟩ : ∃ t, s = '/' :: t := by
          cases s with
          | nil => cases eq
          | cons c t =>
            by_cases hc : c = '/'
            · exact ⟨t, by rw [hc]⟩
            · simp [root, hc] at eq
        rw [eq, names_slash]
        exact ((ofNames_names_sublist t).cons_cons '/').cons_cons '/'
  rcases assemble_eq_current_or (root path) (names path) with ⟨hr, hn, eq⟩ | eq
  · rw [tidy, eq]
    refine current_sublist ne (root_eq_nil_iff.1 hr) ?_
    rw [← names_ofNames fun _ => kept_of_mem_names, hn]
    rfl
  · rwa [tidy, eq]

theorem isPrefix_directory (path : Text) : directory path <+: path := by
  by_cases mem : slash ∈ path
  · obtain ⟨before, after, free, rfl⟩ := Text.exists_last mem
    have front : before ++ [slash] <+: before ++ slash :: after := ⟨after, by simp⟩
    rw [directory, split_append free]
    rcases exists_dropSlashes (before ++ [slash]) with eq | ⟨slashes, -, eq, -⟩
    · rwa [eq]
    · have shorter : dropSlashes (before ++ [slash]) <+: before ++ [slash] := ⟨slashes, eq.symm⟩
      exact shorter.trans front
  · rw [directory, split_of_no_slash mem]
    exact List.nil_prefix

theorem directory_ne_nil (mem : slash ∈ path) : directory path ≠ [] := by
  obtain ⟨before, after, free, rfl⟩ := Text.exists_last mem
  intro none
  rw [directory, split_append free] at none
  dsimp only at none
  rcases exists_dropSlashes (before ++ [slash]) with eq | ⟨slashes, -, -, c, named, -⟩
  · rw [eq] at none
    exact List.concat_ne_nil _ _ none
  · rw [none] at named
    cases named

/-- A relative path is joined by one slash, that of the directory or a new one. -/
theorem exists_join {start s : Text} (ne : start ≠ []) (relative : isAbsolute s = false) :
    ∃ front, (start = front ∨ start = front ++ [slash]) ∧ join start s = front ++ slash :: s := by
  rw [join, if_neg (by simp [relative])]
  by_cases last : start.getLast? = some slash
  · obtain ⟨front, rfl⟩ := List.getLast?_eq_some_iff.1 last
    exact ⟨front, .inr rfl, by rw [if_pos (.inr last), List.append_assoc]; rfl⟩
  · exact ⟨start, .inl rfl, if_neg (not_or.2 ⟨ne, last⟩)⟩

end Path

namespace FileTree

variable {tree old new : FileTree} {place found : Place} {steps more : List Text}
  {path name : Text} {touched : Place → Prop}

/-! ## Following steps -/

theorem walk_append : tree.walk place (steps ++ more) = .ok found ↔
    ∃ middle, tree.walk place steps = .ok middle ∧ tree.walk middle more = .ok found := by
  have bound : tree.walk place (steps ++ more) =
      tree.walk place steps >>= fun middle => tree.walk middle more := by
    induction steps generalizing place with
    | nil => rfl
    | cons step steps ih =>
      rw [List.cons_append, walk, walk]
      split
      · rfl
      · rfl
      · split
        · exact ih
        · split
          · exact ih
          · split
            · rfl
            · exact ih
  rw [bound]
  cases tree.walk place steps with
  | error e =>
    constructor
    · intro led
      cases led
    · rintro ⟨_, led, -⟩
      cases led
  | ok middle =>
    constructor
    · exact fun rest => ⟨middle, rfl, rest⟩
    · rintro ⟨_, led, rest⟩
      cases led
      exact rest

/-- Only folders can be left. -/
theorem folder_of_walk_cons (h : tree.walk place (name :: steps) = .ok found) :
    tree.node? place = some .folder := by
  rw [walk] at h
  split at h
  · cases h
  · cases h
  · assumption

theorem walk_stay (folder : tree.node? place = some .folder) (stay : name = [] ∨ name = current) :
    tree.walk place (name :: steps) = tree.walk place steps := by
  rw [walk, folder]
  dsimp only
  rw [if_pos stay]

/-- Steps that stay may be left out. -/
theorem walk_filter (h : tree.walk place steps = .ok found) :
    tree.walk place (steps.filter fun step => step ≠ [] ∧ step ≠ current) = .ok found := by
  induction steps generalizing place with
  | nil => exact h
  | cons step steps ih =>
    have folder := folder_of_walk_cons h
    rw [walk, folder] at h
    dsimp only at h
    by_cases stay : step = [] ∨ step = current
    · rw [if_pos stay] at h
      rw [List.filter_cons_of_neg (by simpa [or_iff_not_imp_left] using stay)]
      exact ih h
    · rw [if_neg stay] at h
      rw [List.filter_cons_of_pos (by simpa using not_or.1 stay), walk, folder]
      dsimp only
      rw [if_neg stay]
      split at h
      · next up =>
        rw [if_pos up]
        exact ih h
      · next down =>
        rw [if_neg down]
        split at h
        · cases h
        · next short =>
          rw [if_neg short]
          exact ih h

/-- Empty steps lead nowhere else. -/
theorem walk_empties (empty : ∀ step ∈ steps, step = []) (h : tree.walk place steps = .ok found) :
    found = place := by
  have none := walk_filter h
  rw [List.filter_eq_nil_iff.2 fun step mem => by simp [empty step mem]] at none
  exact (Except.ok.inj none).symm

theorem walk_folders (proper : ∀ step ∈ steps, Proper step)
    (short : ∀ step ∈ steps, step.byteCount ≤ nameLimit)
    (folders : ∀ before name after, steps = before ++ name :: after →
      tree.node? (place ++ before) = some .folder) :
    tree.walk place steps = .ok (place ++ steps) := by
  induction steps generalizing place with
  | nil => rw [walk, List.append_nil]
  | cons step steps ih =>
    have folder := folders [] step steps rfl
    rw [List.append_nil] at folder
    have hp := proper step List.mem_cons_self
    have hs := short step List.mem_cons_self
    rw [walk, folder]
    dsimp only
    rw [if_neg (by simp [hp.ne_nil, hp.ne_current]), if_neg hp.ne_parent, if_neg (by omega),
      ih (fun s mem => proper s (List.mem_cons_of_mem _ mem))
        (fun s mem => short s (List.mem_cons_of_mem _ mem)), List.append_assoc]
    · rfl
    · intro before name after cut
      have longer := folders (step :: before) name after (by rw [cut, List.cons_append])
      rwa [List.append_assoc, List.singleton_append]

/-- Steps that were followed are short enough. -/
theorem byteCount_of_walk (proper : ∀ step ∈ steps, Proper step)
    (h : tree.walk place steps = .ok found) : ∀ step ∈ steps, step.byteCount ≤ nameLimit := by
  induction steps generalizing place with
  | nil => simp
  | cons step steps ih =>
    have hp := proper step List.mem_cons_self
    rw [walk, folder_of_walk_cons h] at h
    dsimp only at h
    rw [if_neg (by simp [hp.ne_nil, hp.ne_current]), if_neg hp.ne_parent] at h
    split at h
    · cases h
    · next short =>
      rw [List.forall_mem_cons]
      exact ⟨by omega, ih (fun s mem => proper s (List.mem_cons_of_mem _ mem)) h⟩

/-! ## Locating paths -/

/-- Where following a path begins: at the root, or in the working directory. -/
def origin (tree : FileTree) (path : Text) : Place :=
  if isAbsolute path then [] else names tree.here

theorem locate_eq_ok : tree.locate path = .ok place ↔
    path ≠ [] ∧ '\x00' ∉ path ∧ path.byteCount ≤ pathLimit ∧
      tree.walk (tree.origin path) (Text.splitOn slash path) = .ok place := by
  have walked : (if isAbsolute path then tree.walk [] (Text.splitOn slash path)
      else tree.walk (names tree.here) (Text.splitOn slash path)) =
        tree.walk (tree.origin path) (Text.splitOn slash path) := by
    unfold origin
    split <;> rfl
  rw [locate, walked]
  by_cases empty : path = []
  · simp [empty]
  by_cases null : '\x00' ∈ path
  · simp [empty, null]
  by_cases long : pathLimit < path.byteCount
  · simp [empty, null, long, Nat.not_le_of_lt long]
  · simp [empty, null, long, Nat.le_of_not_lt long]

theorem folder_origin (h : tree.locate path = .ok place) :
    tree.node? (tree.origin path) = some .folder := by
  obtain ⟨-, -, -, walked⟩ := locate_eq_ok.1 h
  cases cut : Text.splitOn slash path with
  | nil => exact absurd cut (Text.splitOn_ne_nil slash path)
  | cons step steps =>
    rw [cut] at walked
    exact folder_of_walk_cons walked

theorem walk_ofNames (kept : ∀ step ∈ steps, Kept step) (folder : tree.node? place = some .folder) :
    tree.walk place (Text.splitOn slash (ofNames steps)) = tree.walk place steps := by
  by_cases none : steps = []
  · subst none
    exact walk_stay folder (.inl rfl)
  · rw [splitOn_ofNames none kept]

/-- Following a tidy path is following its names. -/
theorem walk_tidy (folder : tree.node? (tree.origin path) = some .folder) :
    tree.walk (tree.origin path) (Text.splitOn slash (tidy path)) =
      tree.walk (tree.origin path) (names path) := by
  have down := walk_ofNames (fun _ => @kept_of_mem_names path _) folder
  rcases assemble_eq_current_or (root path) (names path) with ⟨-, hn, eq⟩ | eq
  · rw [tidy, eq, ← down, hn]
    exact (walk_stay folder (.inr rfl)).trans (walk_stay folder (.inl rfl)).symm
  · rw [tidy, eq, ← down]
    cases absolute : isAbsolute path with
    | false => rw [root_eq_nil_iff.2 absolute, List.nil_append]
    | true =>
      have slashes (s : Text) : tree.walk (tree.origin path) (Text.splitOn slash (slash :: s)) =
          tree.walk (tree.origin path) (Text.splitOn slash s) := by
        have cut : Text.splitOn slash (slash :: s) = [] :: Text.splitOn slash s :=
          Text.splitOn_append slash [] s
        rw [cut, walk_stay folder (.inl rfl)]
      rcases root_of_isAbsolute absolute with eq | eq
      · rw [eq]
        exact slashes _
      · rw [eq]
        exact (slashes _).trans (slashes _)

/-- **A tidy path leads where the path leads.** -/
theorem locate_tidy (h : tree.locate path = .ok place) : tree.locate (tidy path) = .ok place := by
  have folder := folder_origin h
  obtain ⟨ne, null, short, walked⟩ := locate_eq_ok.1 h
  have shorter := tidy_sublist ne
  have same : tree.origin (tidy path) = tree.origin path := by
    rw [origin, origin, isAbsolute_congr (root_tidy path)]
  refine locate_eq_ok.2 ⟨?_, fun mem => null (shorter.subset mem),
    Nat.le_trans (Text.byteCount_le_of_sublist shorter) short, ?_⟩
  · unfold tidy assemble
    dsimp only
    split
    · exact List.cons_ne_nil _ _
    · assumption
  · rw [same, walk_tidy folder]
    exact walk_filter walked

/-- **From a folder a path goes on** with the steps that are followed there. -/
theorem locate_join {start : Text} (located : tree.locate start = .ok place)
    (folder : tree.node? place = some .folder) (kept : ∀ step ∈ steps, Kept step)
    (walked : tree.walk place steps = .ok found) (null : '\x00' ∉ ofNames steps)
    (short : (join start (ofNames steps)).byteCount ≤ pathLimit) :
    tree.locate (join start (ofNames steps)) = .ok found := by
  have relative := isAbsolute_ofNames kept
  obtain ⟨ne, free, -, led⟩ := locate_eq_ok.1 located
  have same : tree.origin (join start (ofNames steps)) = tree.origin start := by
    rw [origin, origin, isAbsolute_congr (root_join relative)]
  have cut : tree.walk (tree.origin start)
      (Text.splitOn slash (join start (ofNames steps))) = .ok found := by
    obtain ⟨front, whole, eq⟩ := exists_join ne relative
    have front_ : tree.walk (tree.origin start) (Text.splitOn slash front) = .ok place := by
      rcases whole with rfl | rfl
      · exact led
      · rw [Text.splitOn_append, walk_append] at led
        obtain ⟨middle, led, rest⟩ := led
        rwa [walk_empties (by simp [Text.splitOn]) rest]
    rw [eq, Text.splitOn_append, walk_append]
    exact ⟨place, front_, (walk_ofNames kept folder).trans walked⟩
  obtain ⟨front, whole, eq⟩ := exists_join ne relative
  refine locate_eq_ok.2 ⟨?_, fun mem => ?_, short, same ▸ cut⟩
  · rw [eq]
    simp
  · rw [eq, List.mem_append, List.mem_cons] at mem
    rcases mem with mem | mem | mem
    · rcases whole with rfl | rfl
      · exact free mem
      · exact free (List.mem_append_left _ mem)
    · exact absurd mem (by decide)
    · exact null mem

/-- **The directory of a path that leads somewhere is a folder**, if the path
    names it. -/
theorem folder_of_directory (h : tree.locate path = .ok place) (ne : directory path ≠ []) :
    ∃ above, tree.locate (directory path) = .ok above ∧ tree.node? above = some .folder := by
  obtain ⟨-, null, short, walked⟩ := locate_eq_ok.1 h
  have front := isPrefix_directory path
  have same : tree.origin (directory path) = tree.origin path := by
    rw [origin, origin, isAbsolute_congr (root_directory path)]
  by_cases mem : slash ∈ path
  case neg =>
    rw [directory, split_of_no_slash mem] at ne
    exact absurd rfl ne
  obtain ⟨before, after, free, rfl⟩ := Text.exists_last mem
  rw [Text.splitOn_append, walk_append, Text.splitOn_of_not_mem free] at walked
  obtain ⟨above, led, last⟩ := walked
  have folder := folder_of_walk_cons last
  have slashed : tree.walk (tree.origin (before ++ slash :: after))
      (Text.splitOn slash (before ++ [slash])) = .ok above := by
    rw [Text.splitOn_append, walk_append]
    exact ⟨above, led, walk_stay folder (.inl rfl)⟩
  refine ⟨above, locate_eq_ok.2 ⟨ne, fun mem => null (front.subset mem),
    Nat.le_trans (Text.byteCount_le_of_sublist front.sublist) short, ?_⟩, folder⟩
  rw [same, directory, split_append free]
  rcases exists_dropSlashes (before ++ [slash]) with eq | ⟨slashes, all, eq, -⟩
  · rwa [eq]
  · -- the slashes left out lead nowhere else
    rw [eq] at slashed
    cases slashes with
    | nil => rwa [List.append_nil] at slashed
    | cons c slashes =>
      rw [all c List.mem_cons_self, Text.splitOn_append, walk_append] at slashed
      obtain ⟨middle, led, rest⟩ := slashed
      have empty : ∀ step ∈ Text.splitOn slash slashes, step = [] := fun step mem =>
        List.eq_nil_iff_forall_not_mem.2 fun c hc => by
          have eq := all c (List.mem_cons_of_mem _ (Text.mem_of_mem_splitOn mem hc))
          exact Text.not_mem_of_mem_splitOn mem (eq ▸ hc)
      rwa [walk_empties empty rest]

theorem Grown.walk_mono (h : Grown old new touched) (walked : old.walk place steps = .ok found) :
    new.walk place steps = .ok found := by
  induction steps generalizing place with
  | nil => exact walked
  | cons step steps ih =>
    have folder := folder_of_walk_cons walked
    rw [walk, folder] at walked
    rw [walk, h.folder _ folder]
    dsimp only at walked ⊢
    split
    · next stay =>
      rw [if_pos stay] at walked
      exact ih walked
    · next stay =>
      rw [if_neg stay] at walked
      split
      · next up =>
        rw [if_pos up] at walked
        exact ih walked
      · next down =>
        rw [if_neg down] at walked
        split
        · next long =>
          rw [if_pos long] at walked
          cases walked
        · next short =>
          rw [if_neg short] at walked
          exact ih walked

/-- **What leads somewhere still does in a grown tree.** -/
theorem Grown.locate_mono (h : Grown old new touched) (located : old.locate path = .ok place) :
    new.locate path = .ok place := by
  obtain ⟨ne, null, short, walked⟩ := locate_eq_ok.1 located
  have same : new.origin path = old.origin path := by rw [origin, origin, h.here]
  exact locate_eq_ok.2 ⟨ne, null, short, same ▸ h.walk_mono walked⟩

/-! ## Making folders -/

theorem at?_of_locate (h : tree.locate path = .ok place) : tree.at? path = tree.node? place := by
  rw [at?, h]

/-- A folder that exists is not made. -/
theorem ensureFolder_of_folder (h : tree.locate path = .ok place)
    (folder : tree.node? place = some .folder) : tree.ensureFolder path = (tree, none) := by
  have known : tree.makeFolder path = .error .exists_ := by
    rw [makeFolder, h]
    simp only [bind, Except.bind, folder]
    rfl
  have isFolder : tree.isFolder path = true := by rw [isFolder, at?_of_locate h, folder]
  rw [ensureFolder, known]
  dsimp only
  rw [if_pos isFolder]

/-- **Making a folder that exists leaves the tree as it is.** -/
theorem makeFolders_of_folder (h : tree.locate path = .ok place)
    (folder : tree.node? place = some .folder) : tree.makeFolders path = (tree, none) := by
  -- What stands above the folder is a folder as well, so no other one is made.
  have above {other : Text} {found : Place} (located : tree.locate other = .ok found)
      (named : directory other ≠ []) : (tree.at? (directory other)).isSome = true := by
    obtain ⟨up, led, isFolder⟩ := folder_of_directory located named
    rw [at?_of_locate led, isFolder]
    rfl
  have made (bound : Nat) : makeFoldersUpTo bound tree path = (tree, none) := by
    cases bound with
    | zero => exact ensureFolder_of_folder h folder
    | succ bound =>
      have parts : split path = (directory path, fileName path) := rfl
      rw [makeFoldersUpTo, parts]
      dsimp only
      by_cases last : fileName path = []
      · rw [if_pos last]
        have parts : split (directory path) =
          (directory (directory path), fileName (directory path)) := rfl
        rw [parts]
        dsimp only
        rw [if_pos, ensureFolder_of_folder h folder]
        by_cases named : directory (directory path) = []
        · exact .inl named
        · have nonempty : directory path ≠ [] := by
            intro none
            rw [none] at named
            exact named rfl
          obtain ⟨up, led, -⟩ := folder_of_directory h nonempty
          exact .inr (.inr (above led named))
      · rw [if_neg last]
        dsimp only
        rw [if_pos, ensureFolder_of_folder h folder]
        by_cases named : directory path = []
        · exact .inl named
        · exact .inr (.inr (above h named))
  rw [makeFolders, made]

/-! ## Reading and writing -/

theorem writeText_of_locate (h : tree.locate path = .ok place)
    (free : tree.node? place ≠ some .folder) (content : Text) :
    tree.writeText path content = .ok (tree.put place (.file (String.ofList content).toUTF8)) := by
  rw [writeText, locate_tidy h]
  simp only [bind, Except.bind]
  rfl

/-- **A folder cannot be loaded.** -/
theorem load_of_folder (here : IsNormal tree.here)
    (folder : tree.node? (names (absolute tree.here path)) = some .folder) :
    ∃ e, tree.load path = .error ⟨.unreadable (absolute tree.here path) e, []⟩ := by
  have normal := absolute_isNormal here.isAbsolute path
  obtain ⟨e, failed⟩ : ∃ e, tree.readText (absolute tree.here path) = .error e := by
    rw [readText, read]
    cases located : tree.locate (absolute tree.here path) with
    | error e => exact ⟨e, rfl⟩
    | ok place =>
      obtain rfl := locate_eq normal located
      simp only [bind, Except.bind, folder]
      exact ⟨.isFolder, rfl⟩
  have unread : tree.readDocument (absolute tree.here path) =
      .error (.unreadable (absolute tree.here path) e) := by
    rw [readDocument, normal.tidy_eq, failed]
    rfl
  refine ⟨e, ?_⟩
  have depth : tree.depth = 2 * tree.nodes.length + 1 := rfl
  rw [load, depth, loadUpTo, unread]
  rfl

end FileTree

end IdlFlow
