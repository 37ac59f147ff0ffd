/-
  Text as the list of its characters, and the cuts that paths, names and
  documents make in it.

  * `splitOn` cuts at every occurrence of a character, `cutLast` at the last
    one only;
  * `dropEnding?` takes a given ending off;
  * `notAfter` is the order of texts by code points, in which two texts are
    always comparable (`notAfter_total`);
  * `byteCount` is the size of a text in UTF-8;
  * `intercalate_splitOn`: joining the parts of `splitOn` by the character
    gives the text back, so a cut loses nothing; `splitOn_intercalate`: cutting
    gives the parts back.
-/

namespace IdlFlow

/-- A text: its characters in order. -/
abbrev Text := List Char

/-- A string stands for the text of its characters. -/
instance : Coe String Text := ⟨String.toList⟩

namespace Text

/-! ## Cuts -/

/-- The parts between the occurrences of `c`: one more than there are
    occurrences, and possibly empty. -/
def splitOn (c : Char) : Text → List Text
  | [] => [[]]
  | d :: s =>
    if d = c then [] :: splitOn c s else
      match splitOn c s with
      | [] => [[d]]
      | part :: parts => (d :: part) :: parts

/-- The texts before and after the last `c`; none if there is no `c`. -/
def cutLast (c : Char) : Text → Option (Text × Text)
  | [] => none
  | d :: s =>
    match cutLast c s with
    | some (before, after) => some (d :: before, after)
    | none => if d = c then some ([], s) else none

/-- The text without the given ending; none if it ends otherwise. -/
def dropEnding? (ending s : Text) : Option Text :=
  if ending.isSuffixOf s then some (s.take (s.length - ending.length)) else none

/-! ## Order -/

/-- Whether a text comes before another one or is the same: characters are
    compared by code point, and what goes on comes later. -/
def notAfter : Text → Text → Bool
  | [], _ => true
  | _ :: _, [] => false
  | c :: s, d :: t => c.toNat < d.toNat || c = d && notAfter s t

/-! ## Size -/

/-- The number of bytes that a text takes in UTF-8. -/
def byteCount (s : Text) : Nat := s.foldl (fun n c => n + c.utf8Size) 0

/-! ## What the cuts keep -/

theorem splitOn_ne_nil (c : Char) (s : Text) : splitOn c s ≠ [] := by
  cases s with
  | nil => simp [splitOn]
  | cons d s =>
    simp only [splitOn]
    split
    · simp
    · split <;> simp

theorem intercalate_splitOn (c : Char) (s : Text) : [c].intercalate (splitOn c s) = s := by
  induction s with
  | nil => rfl
  | cons d s ih =>
    simp only [splitOn]
    cases h : splitOn c s with
    | nil => exact absurd h (splitOn_ne_nil c s)
    | cons part parts =>
      rw [h] at ih
      split
      · next hd => subst hd; simp [← ih, List.intercalate, List.intersperse]
      · cases parts <;> simp_all [List.intercalate, List.intersperse]

theorem splitOn_append (c : Char) (s t : Text) :
    splitOn c (s ++ c :: t) = splitOn c s ++ splitOn c t := by
  induction s with
  | nil => simp [splitOn]
  | cons d s ih =>
    simp only [List.cons_append, splitOn, ih]
    by_cases hd : d = c
    · simp [hd]
    · simp only [hd, if_false]
      cases h : splitOn c s with
      | nil => exact absurd h (splitOn_ne_nil c s)
      | cons part parts => rfl

theorem splitOn_of_not_mem {c : Char} {s : Text} (h : c ∉ s) : splitOn c s = [s] := by
  induction s with
  | nil => rfl
  | cons d s ih =>
    rw [List.mem_cons, not_or] at h
    simp [splitOn, ih h.2, Ne.symm h.1]

theorem not_mem_of_mem_splitOn {c : Char} {s part : Text} (h : part ∈ splitOn c s) : c ∉ part := by
  induction s generalizing part with
  | nil =>
    rw [splitOn, List.mem_singleton] at h
    simp [h]
  | cons d s ih =>
    simp only [splitOn] at h
    by_cases hd : d = c
    · simp only [hd, if_true, List.mem_cons] at h
      rcases h with rfl | h
      · simp
      · exact ih h
    · simp only [hd, if_false] at h
      cases hs : splitOn c s with
      | nil => exact absurd hs (splitOn_ne_nil c s)
      | cons first parts =>
        rw [hs] at ih
        simp only [hs, List.mem_cons] at h
        rcases h with rfl | h
        · simp only [List.mem_cons, not_or]
          exact ⟨Ne.symm hd, ih (by simp)⟩
        · exact ih (by simp [h])

theorem mem_intercalate_of_mem {c : Char} {separator part : Text} {parts : List Text}
    (mem : part ∈ parts) (hc : c ∈ part) : c ∈ separator.intercalate parts := by
  induction parts with
  | nil => simp at mem
  | cons first others ih =>
    cases others with
    | nil =>
      rw [List.mem_singleton] at mem
      simpa [List.intercalate_singleton, ← mem] using hc
    | cons next others =>
      rw [List.intercalate_cons_cons]
      rcases List.mem_cons.1 mem with rfl | mem
      · simp [hc]
      · exact List.mem_append_right _ (ih mem)

theorem mem_of_mem_intercalate {c : Char} {separator : Text} {parts : List Text}
    (h : c ∈ separator.intercalate parts) : c ∈ separator ∨ ∃ part ∈ parts, c ∈ part := by
  induction parts with
  | nil => simp [List.intercalate] at h
  | cons first others ih =>
    cases others with
    | nil =>
      rw [List.intercalate_singleton] at h
      exact .inr ⟨first, by simp, h⟩
    | cons next others =>
      rw [List.intercalate_cons_cons, List.mem_append, List.mem_append] at h
      rcases h with (h | h) | h
      · exact .inr ⟨first, by simp, h⟩
      · exact .inl h
      · exact (ih h).imp id fun ⟨part, mem, hc⟩ => ⟨part, List.mem_cons_of_mem _ mem, hc⟩

theorem mem_of_mem_splitOn {c d : Char} {s part : Text} (h : part ∈ splitOn c s) (hd : d ∈ part) :
    d ∈ s := by
  rw [← intercalate_splitOn c s]
  exact mem_intercalate_of_mem h hd

/-- Cutting undoes joining where no part has the character. -/
theorem splitOn_intercalate {c : Char} {parts : List Text} (ne : parts ≠ [])
    (h : ∀ part ∈ parts, c ∉ part) :
    splitOn c ([c].intercalate parts) = parts := by
  induction parts with
  | nil => exact absurd rfl ne
  | cons part parts ih =>
    cases parts with
    | nil =>
      rw [List.intercalate_singleton]
      exact splitOn_of_not_mem (h part (by simp))
    | cons next parts =>
      rw [List.intercalate_cons_cons, List.append_assoc, List.singleton_append, splitOn_append,
        splitOn_of_not_mem (h part (by simp)),
        ih (by simp) fun p mem => h p (List.mem_cons_of_mem _ mem)]
      rfl

theorem append_of_cutLast {c : Char} {s before after : Text}
    (h : cutLast c s = some (before, after)) : s = before ++ c :: after := by
  induction s generalizing before with
  | nil => simp [cutLast] at h
  | cons d s ih =>
    simp only [cutLast] at h
    cases hs : cutLast c s with
    | none =>
      rw [hs] at h
      by_cases hd : d = c <;> simp_all
    | some p =>
      obtain ⟨b, a⟩ := p
      simp only [hs, Option.some.injEq, Prod.mk.injEq] at h
      obtain ⟨rfl, rfl⟩ := h
      simp [ih hs]

theorem cutLast_of_not_mem {c : Char} {s : Text} (h : c ∉ s) : cutLast c s = none := by
  cases cut : cutLast c s with
  | none => rfl
  | some parts =>
    obtain ⟨before, after⟩ := parts
    rw [append_of_cutLast cut] at h
    simp at h

theorem cutLast_append {c : Char} {before after : Text} (h : c ∉ after) :
    cutLast c (before ++ c :: after) = some (before, after) := by
  induction before with
  | nil => simp [cutLast, cutLast_of_not_mem h]
  | cons d before ih => rw [List.cons_append, cutLast, ih]

/-- Behind the last occurrence of a character there is none. -/
theorem exists_last {c : Char} {s : Text} (h : c ∈ s) :
    ∃ before after, c ∉ after ∧ s = before ++ c :: after := by
  induction s with
  | nil => cases h
  | cons d s ih =>
    by_cases mem : c ∈ s
    · obtain ⟨before, after, free, rfl⟩ := ih mem
      exact ⟨d :: before, after, free, rfl⟩
    · obtain rfl : c = d := (List.mem_cons.1 h).resolve_right mem
      exact ⟨[], s, mem, rfl⟩

/-! ## The order of texts -/

theorem notAfter_trans {s t u : Text} (h : notAfter s t = true) (h' : notAfter t u = true) :
    notAfter s u = true := by
  induction s generalizing t u with
  | nil => rfl
  | cons c s ih =>
    cases t with
    | nil => cases h
    | cons d t =>
      cases u with
      | nil => cases h'
      | cons e u =>
        simp only [notAfter, Bool.or_eq_true, Bool.and_eq_true, decide_eq_true_eq] at h h' ⊢
        rcases h with less | ⟨rfl, h⟩
        · rcases h' with less' | ⟨rfl, -⟩
          · exact .inl (Nat.lt_trans less less')
          · exact .inl less
        · exact h'.imp_right fun ⟨eq, h'⟩ => ⟨eq, ih h h'⟩

theorem notAfter_total (s t : Text) : (notAfter s t || notAfter t s) = true := by
  induction s generalizing t with
  | nil => rfl
  | cons c s ih =>
    cases t with
    | nil => rfl
    | cons d t =>
      have rest := ih t
      simp only [notAfter, Bool.or_eq_true, Bool.and_eq_true, decide_eq_true_eq] at rest ⊢
      rcases Nat.lt_trichotomy c.toNat d.toNat with less | same | more
      · exact .inl (.inl less)
      · obtain rfl := Char.toNat_inj.1 same
        exact rest.imp (fun h => .inr ⟨rfl, h⟩) fun h => .inr ⟨rfl, h⟩
      · exact .inr (.inl more)

end Text

end IdlFlow
