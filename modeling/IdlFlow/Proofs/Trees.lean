/-
  Well-formed file trees: what a path leads to, and what a search finds.

  * `FileTree.WellFormed`: the working directory is a normal path, names can
    stand in paths, and what stands in a place stands in a folder.

  Main statements: every path leads to the place of the names of its absolute
  form (`locate_absolute`), through folders only (`folder_of_locate`), and what
  is found below a folder has the names of the folder with further ones behind
  (`WellFormed.exists_steps`), in ascending order (`findEnding_ascending`).
-/
import IdlFlow.Batch
import IdlFlow.Proofs.Loading
import IdlFlow.Proofs.Routes

namespace IdlFlow

open IdlFlow.Path

namespace FileTree

/-- A tree as a file system has it. -/
structure WellFormed (tree : FileTree) : Prop where
  here : IsNormal tree.here
  proper : ∀ place ∈ tree.nodes.keys, ∀ name ∈ place, Proper name
  folder : ∀ place name, (tree.node? (place ++ [name])).isSome = true →
    tree.node? place = some .folder

variable {tree : FileTree} {place found : Place} {steps : List Text} {path file : Text}

theorem isSome_node?_iff : (tree.node? place).isSome = true ↔
    place = [] ∨ place ∈ tree.nodes.keys := by
  cases place with
  | nil => simp [node?]
  | cons name place => simp [node?, ← Assoc.isSome_find?_iff]

/-- The parents of places are places, so each is looked at once. -/
theorem wellFormed_iff : tree.WellFormed ↔ IsNormal tree.here ∧ ∀ place ∈ tree.nodes.keys,
    (∀ name ∈ place, Proper name) ∧
      (tree.node? place.dropLast matches some .folder) = true := by
  constructor
  · intro well
    refine ⟨well.here, fun place mem => ⟨well.proper place mem, ?_⟩⟩
    rcases List.eq_nil_or_concat' place with rfl | ⟨front, name, rfl⟩
    · rfl
    · rw [List.dropLast_concat, well.folder front name (isSome_node?_iff.2 (.inr mem))]
  · rintro ⟨here, sound⟩
    refine ⟨here, fun place mem => (sound place mem).1, fun place name some_ => ?_⟩
    have folder := (sound _ ((isSome_node?_iff.1 some_).resolve_left (by simp))).2
    rw [List.dropLast_concat] at folder
    split at folder
    · assumption
    · cases folder

instance : Decidable tree.WellFormed := decidable_of_iff' _ wellFormed_iff

/-! ## Following paths -/

/-- Following steps resolves them. -/
theorem walk_eq (proper : ∀ name ∈ place, name ≠ parent) (h : tree.walk place steps = .ok found) :
    found.reverse = (steps.filter fun step => step ≠ [] ∧ step ≠ current).foldl (Path.below true)
      place.reverse := by
  induction steps generalizing place with
  | nil =>
    rw [walk, Except.ok.injEq] at h
    rw [h]
    rfl
  | cons step steps ih =>
    rw [walk] at h
    split at h
    · cases h
    · cases h
    · by_cases stay : step = [] ∨ step = current
      · rw [if_pos stay] at h
        rw [List.filter_cons_of_neg (by simpa [or_iff_not_imp_left] using stay)]
        exact ih proper h
      · obtain ⟨ne, ne_current⟩ := not_or.1 stay
        rw [if_neg stay] at h
        rw [List.filter_cons_of_pos (by simp [ne, ne_current]), List.foldl_cons]
        by_cases up : step = parent
        · rw [if_pos up] at h
          rw [ih (fun name mem => proper name (List.dropLast_subset _ mem)) h, up]
          congr 1
          rcases List.eq_nil_or_concat' place with rfl | ⟨front, last, rfl⟩
          · rfl
          · simp [Path.below, proper last (by simp)]
        · rw [if_neg up] at h
          split at h
          · cases h
          · rw [below_of_ne up, ih _ h, List.reverse_append]
            · rfl
            · intro name mem
              rcases List.mem_append.1 mem with mem | mem
              · exact proper name mem
              · rwa [List.mem_singleton.1 mem]

/-- **A path leads to the place of its absolute form.** -/
theorem locate_absolute (here : IsNormal tree.here) (h : tree.locate path = .ok place) :
    place = names (absolute tree.here path) := by
  rw [names_absolute here.isAbsolute, (join_here tree.here path).2]
  unfold locate at h
  split at h
  · cases h
  split at h
  · cases h
  split at h
  · cases h
  split at h
  · next absolute =>
    rw [if_pos absolute, collapse, ← List.reverse_eq_iff]
    exact walk_eq (by simp) h
  · next relative =>
    have proper := fun name mem => (here.eq_root_names.2.1 name mem).ne_parent
    rw [if_neg relative, collapse, ← List.reverse_eq_iff, List.foldl_append, foldl_below proper,
      List.append_nil]
    exact walk_eq proper h

/-- Steps that lead down pass folders only. -/
theorem folder_of_walk (proper : ∀ step ∈ steps, step ≠ [] → Proper step)
    (h : tree.walk place steps = .ok found) {before after : List Text} {name : Text}
    (cut : steps.filter (· ≠ []) = before ++ name :: after) :
    tree.node? (place ++ before) = some .folder := by
  induction steps generalizing place before with
  | nil => simp at cut
  | cons step steps ih =>
    have rest : ∀ step ∈ steps, step ≠ [] → Proper step :=
      fun s mem => proper s (List.mem_cons_of_mem _ mem)
    rw [walk] at h
    split at h
    · cases h
    · cases h
    · next folder =>
      by_cases hs : step = []
      · rw [if_pos (.inl hs)] at h
        rw [List.filter_cons_of_neg (by simp [hs])] at cut
        exact ih rest h cut
      · have hp := proper step List.mem_cons_self hs
        rw [if_neg (by simp [hs, hp.ne_current]), if_neg hp.ne_parent] at h
        rw [List.filter_cons_of_pos (by simp [hs])] at cut
        split at h
        · cases h
        · cases before with
          | nil => rwa [List.append_nil]
          | cons first before =>
            rw [List.cons_append, List.cons.injEq] at cut
            obtain ⟨rfl, cut⟩ := cut
            have down := ih rest h cut
            rwa [List.append_assoc, List.singleton_append] at down

theorem folder_of_locate (normal : IsNormal path) (h : tree.locate path = .ok found)
    {before after : List Text} {name : Text} (cut : names path = before ++ name :: after) :
    tree.node? before = some .folder := by
  unfold locate at h
  split at h
  · cases h
  split at h
  · cases h
  split at h
  · cases h
  rw [if_pos normal.isAbsolute] at h
  rw [normal.names_eq] at cut
  exact folder_of_walk (fun _ => normal.proper_of_mem) h cut

theorem isFile_iff (normal : IsNormal path) : tree.isFile path = true ↔
    tree.locate path = .ok (names path) ∧
      ∃ content, tree.node? (names path) = some (.file content) := by
  unfold isFile at?
  cases located : tree.locate path with
  | error e => simp
  | ok place =>
    obtain rfl := locate_eq normal located
    rcases stands : tree.node? (names path) with _ | _ | content <;> simp [stands]

/-! ## Searching -/

theorem append_of_below? {first other : Place} (h : below? first other = some steps) :
    first ++ steps = other := by
  fun_induction below? first other with
  | case1 => simpa [eq_comm] using h
  | case2 => cases h
  | case3 name first other ih => simpa using ih h
  | case4 => cases h

theorem mem_keys_below (h : steps ∈ (tree.below place).keys) :
    steps ≠ [] ∧ place ++ steps ∈ tree.nodes.keys := by
  obtain ⟨⟨steps, node⟩, entry, rfl⟩ := List.mem_map.1 h
  obtain ⟨⟨other, node⟩, mem, eq⟩ := List.mem_filterMap.1 entry
  dsimp only at eq
  split at eq
  · cases eq
  · cases eq
  · next steps some_ cut =>
    cases eq
    rw [append_of_below? cut]
    exact ⟨fun empty => some_ empty, List.mem_map_of_mem mem⟩

/-- What is found below a folder: the paths of what stands there under a name
    with the ending. -/
theorem mem_findEnding {folder ending : Text} {files : List Text}
    (found : tree.findEnding folder ending = .ok files) :
    file ∈ files ↔ ∃ place steps, tree.locate (tidy folder) = .ok place ∧
      tree.node? place = some .folder ∧ steps ∈ (tree.below place).keys ∧
      ending <:+ steps.getLastD [] ∧ file = pathBelow (tidy folder) steps := by
  unfold findEnding at found
  dsimp only at found
  split at found
  · cases found
  · next failed =>
    cases found
    simp [failed]
  next place located =>
  split at found
  · next isFolder =>
    split at found
    · cases found
    · cases found
      rw [List.mem_mergeSort, List.mem_map]
      constructor
      · rintro ⟨steps, mem, rfl⟩
        obtain ⟨listed, suffix⟩ := List.mem_filter.1 mem
        exact ⟨place, steps, located, isFolder, listed, List.isSuffixOf_iff_suffix.1 suffix, rfl⟩
      · rintro ⟨other, steps, located', -, listed, suffix, rfl⟩
        obtain rfl : place = other := Except.ok.inj (located.symm.trans located')
        exact ⟨steps, List.mem_filter.2 ⟨listed, List.isSuffixOf_iff_suffix.2 suffix⟩, rfl⟩
  · next other =>
    cases found
    refine iff_of_false List.not_mem_nil ?_
    rintro ⟨place', steps, located', isFolder, -⟩
    obtain rfl : place = place' := Except.ok.inj (located.symm.trans located')
    exact other isFolder

/-- **What is found is in ascending order.** -/
theorem findEnding_ascending {folder ending : Text} {files : List Text}
    (found : tree.findEnding folder ending = .ok files) :
    files.Pairwise fun file later => Text.notAfter file later = true := by
  unfold findEnding at found
  dsimp only at found
  split at found
  · cases found
  · cases found
    exact .nil
  split at found
  · split at found
    · cases found
    · cases found
      exact @List.pairwise_mergeSort _ Text.notAfter (fun _ _ _ => Text.notAfter_trans)
        Text.notAfter_total _
  · cases found
    exact .nil

theorem names_pathBelow (folder : Text) (kept : ∀ step ∈ steps, Kept step) :
    root (pathBelow (tidy folder) steps) = root folder ∧
      names (pathBelow (tidy folder) steps) = names folder ++ steps := by
  have relative := isAbsolute_ofNames kept
  unfold pathBelow
  split
  · next eq =>
    have hr : root folder = [] := by
      rw [← root_tidy, eq]
      rfl
    have hn : names folder = [] := by
      rw [← names_tidy, eq]
      rfl
    rw [hr, hn, root_eq_nil_iff.2 relative, names_ofNames kept]
    exact ⟨rfl, rfl⟩
  · rw [root_join relative, names_join relative, root_tidy, names_tidy, names_ofNames kept]
    exact ⟨rfl, rfl⟩

theorem fileName_pathBelow {folder name : Text} (kept : ∀ step ∈ steps ++ [name], Kept step) :
    fileName (pathBelow folder (steps ++ [name])) = name := by
  have last : fileName (ofNames (steps ++ [name])) = name :=
    fileName_ofNames (kept name (by simp)).no_slash
  unfold pathBelow
  split
  · exact last
  · rw [fileName_join (isAbsolute_ofNames kept), last]

/-- **What is found below a folder**: proper names, behind those of the folder. -/
theorem WellFormed.exists_steps (well : tree.WellFormed) {folder ending : Text} {files : List Text}
    (found : tree.findEnding folder ending = .ok files) (mem : file ∈ files) :
    ∃ steps name, (∀ step ∈ steps ++ [name], Proper step) ∧ ending <:+ name ∧
      file = pathBelow (tidy folder) (steps ++ [name]) ∧ fileName file = name ∧
      root (absolute tree.here file) = root (absolute tree.here folder) ∧
      names (absolute tree.here file) = names (absolute tree.here folder) ++ (steps ++ [name]) ∧
      (tree.node? (names (absolute tree.here file))).isSome = true := by
  obtain ⟨place, steps, located, -, listed, suffix, rfl⟩ := (mem_findEnding found).1 mem
  obtain ⟨some_, key⟩ := mem_keys_below listed
  obtain ⟨steps, name, rfl⟩ := (List.eq_nil_or_concat' steps).resolve_left some_
  have proper : ∀ step ∈ steps ++ [name], Proper step := fun step mem =>
    well.proper _ key step (List.mem_append_right _ mem)
  have kept : ∀ step ∈ steps ++ [name], Kept step := fun step mem => (proper step mem).kept
  obtain ⟨hr, hn⟩ := names_pathBelow folder kept
  obtain ⟨hr, hn⟩ := absolute_of_below well.here.isAbsolute hr hn
    fun step mem => (proper step mem).ne_parent
  have same := absolute_congr tree.here (root_tidy folder) (names_tidy folder)
  refine ⟨steps, name, proper, ?_, rfl, fileName_pathBelow kept, hr, hn, ?_⟩
  · simpa using suffix
  · rw [hn, ← same, ← locate_absolute well.here located]
    exact isSome_node?_iff.2 (.inr key)

end FileTree

end IdlFlow
