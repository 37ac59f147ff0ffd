/-
  The characters of paths and imports.

  * `Text.Quiet s`: `s` has no quote, no bracket and no line end.

  Main statements: the path from one directory to another is quiet if the paths
  are (`Path.quiet_relative`), and the import of a quiet path is a line that
  closes what it opens (`Import.row_ofPath`).
-/
import IdlFlow.Proofs.Paragraphs
import IdlFlow.Proofs.Routes

namespace IdlFlow

open Layout

/-- The text has no quotes, brackets and line ends. -/
def Text.Quiet (s : Text) : Prop := ∀ c ∈ s, IsPlain c ∧ Text.isLineEnd c = false

instance : DecidablePred Text.Quiet := fun s =>
  List.decidableBAll (fun c => IsPlain c ∧ Text.isLineEnd c = false) s

namespace Text.Quiet

variable {s t : Text}

theorem append (hs : Quiet s) (ht : Quiet t) : Quiet (s ++ t) :=
  fun c mem => (List.mem_append.1 mem).elim (hs c) (ht c)

theorem of_subset (ht : Quiet t) (sub : ∀ c ∈ s, c ∈ t) : Quiet s :=
  fun c mem => ht c (sub c mem)

theorem weighs (h : Quiet s) : Weighs s 0 0 := weighs_of_isPlain fun c mem => (h c mem).1

theorem unbroken (h : Quiet s) : Unbroken s := fun c mem => (h c mem).2

theorem inline (h : Quiet s) : Inline s := ⟨⟨0, h.weighs⟩, h.unbroken⟩

end Text.Quiet

namespace Path

open Text

variable {here path start s : Text} {names : List Text}

/-! ## Parts of paths -/

theorem quiet_names (h : Quiet path) : ∀ name ∈ Path.names path, Quiet name := by
  intro name mem
  have part := (List.mem_filter.1 mem).1
  exact h.of_subset fun c hc => mem_of_mem_splitOn part hc

theorem quiet_ofNames (h : ∀ name ∈ names, Quiet name) : Quiet (ofNames names) := by
  intro c mem
  rcases mem_of_mem_intercalate mem with hc | ⟨name, hn, hc⟩
  · rw [List.mem_singleton.1 hc]
    decide
  · exact h name hn c hc

theorem quiet_root (path : Text) : Quiet (root path) := by
  unfold root
  split <;> decide

theorem quiet_assemble {root : Text} (hr : Quiet root) (h : ∀ name ∈ names, Quiet name) :
    Quiet (assemble root names) := by
  unfold assemble
  dsimp only
  split
  · decide
  · exact hr.append (quiet_ofNames h)

theorem quiet_tidy (h : Quiet path) : Quiet (tidy path) :=
  quiet_assemble (quiet_root path) (quiet_names h)

theorem quiet_normalize (h : Quiet path) : Quiet (normalize path) := by
  refine quiet_assemble (quiet_root path) fun name mem => ?_
  rcases mem_of_mem_foldl_below (List.mem_reverse.1 mem) with mem | mem
  · exact quiet_names h name mem
  · cases mem

theorem quiet_join (hs : Quiet start) (h : Quiet path) : Quiet (join start path) := by
  unfold join
  split
  · exact h
  · split
    · exact hs.append h
    · exact hs.append (Quiet.append (s := [slash]) (by decide) h)

theorem quiet_split (h : Quiet path) : Quiet (directory path) ∧ Quiet (fileName path) := by
  unfold directory fileName split
  split
  · next front last cut =>
    rw [append_of_cutLast cut] at h
    have hf : Quiet front := h.of_subset fun c mem => by simp [mem]
    have hl : Quiet last := h.of_subset fun c mem => by simp [mem]
    refine ⟨?_, hl⟩
    have whole : Quiet (front ++ [slash]) := hf.append (by decide)
    unfold dropSlashes
    split
    · exact whole
    · refine whole.of_subset fun c mem => ?_
      exact List.mem_reverse.1 ((List.dropWhile_sublist _).subset (List.mem_reverse.1 mem))
  · exact ⟨fun _ mem => (List.not_mem_nil mem).elim, h⟩

/-! ## Relative paths -/

theorem mem_dropShared {as bs : List Text} {name : Text} (h : name ∈ (dropShared as bs).2) :
    name ∈ bs := by
  obtain ⟨shared, -, eq⟩ := exists_dropShared as bs
  rw [eq]
  exact List.mem_append_right _ h

/-- **A relative path has the characters of the path it leads to.** -/
theorem quiet_relative (h : Quiet path) (base : isAbsolute path = true ∨ Quiet here)
    (led : relative? here path start = some s) : Quiet s := by
  have place : Quiet (absolute here path) := by
    refine quiet_normalize ?_
    rcases base with base | base
    · rw [join, if_pos base]
      exact h
    · exact quiet_join base h
  unfold relative? at led
  split at led
  · cases led
  · cases led
    refine quiet_assemble (by decide) fun name mem => ?_
    rcases List.mem_append.1 mem with mem | mem
    · obtain ⟨_, -, rfl⟩ := List.mem_map.1 mem
      decide
    · exact quiet_names place name (mem_dropShared mem)

end Path

namespace Import

open Text

theorem quiet_ofPath {path : Text} (h : Quiet path) :
    Quiet (ofPath path).binding ∧ Quiet (ofPath path).module := by
  have tidy := Path.quiet_tidy h
  obtain ⟨folder, name⟩ := Path.quiet_split tidy
  have stem : Quiet ((dropEnding? sourceEnding (Path.fileName (Path.tidy path))).getD
      (Path.fileName (Path.tidy path))) := by
    unfold dropEnding?
    split
    · exact name.of_subset fun c mem => List.mem_of_mem_take mem
    · exact name
  have module : Quiet (ofPath path).module := by
    unfold ofPath
    dsimp only
    split
    · exact Path.quiet_join folder stem
    · exact Quiet.append (by decide) (Path.quiet_join folder stem)
  exact ⟨(Path.quiet_split module).2, module⟩

theorem row_text {i : Import} (binding : Quiet i.binding) (module : Quiet i.module) :
    Row i.text := by
  have opening : Inline "import * as " := by decide
  have source : Inline " from " := by decide
  have ending : Quiet ".js" := by decide
  have named := module.append ending
  have place : Inline ('\'' :: (i.module ++ ".js") ++ ['\'']) := by
    refine .quoted (.inl rfl) (inside_of_dangles (fun mem => ?_) ?_) named.unbroken
    · exact absurd (named _ mem).1 (by decide)
    · exact Position.dangles_append (by decide) (by decide)
  have line := (((opening.append binding.inline).append source).append place).append
    inline_semicolon
  have front : (" from '" : Text) = " from " ++ ['\''] := by decide
  have back : (".js';" : Text) = ".js" ++ (['\''] ++ ";") := by decide
  unfold text
  refine .of_inline ?_ ?_
  · exact head_append (head_append (head_append (head_append ⟨'i', by decide, by decide⟩)))
  · rw [front, back]
    simpa only [List.append_assoc, List.cons_append, List.nil_append] using line

/-- **The import of a quiet path closes what it opens.** -/
theorem row_ofPath {path : Text} (h : Quiet path) : Row (ofPath path).text := by
  obtain ⟨binding, module⟩ := quiet_ofPath h
  exact row_text binding module

end Import

end IdlFlow
