/-
  The characters of names.

  * `Text.Neutral c`: layout takes `c` as it is, since it is no blank and none
    of the marks that layout knows;
  * `CodeRange.Apart`: a table has nothing in common with blanks and marks;
    `Text.misses`: nor with a range.

  Main statements: letters are no digits (`isDigit_of_isLetter`); the
  characters of identifiers are neutral (`neutral_of_continuesWord`), and so
  are their capitals (`neutral_of_mem_capital`), the digits of integers and the
  characters of doubles; changing a name keeps its characters neutral if what
  is put around it is (`NameRule.IsNeutral.apply`).
-/
import IdlFlow.Idl.Piece
import IdlFlow.Declaration.ValueExpr
import IdlFlow.Naming
import IdlFlow.Text.Blank

namespace IdlFlow

namespace Text

/-- The marks that layout knows. -/
def marks : List Char := ['\'', '"', '\\', '/', '|', '{', '(', '[', '}', ')', ']']

/-- No blank, and none of the marks that layout knows. -/
def Neutral (c : Char) : Prop := isBlank c = false ∧ c ∉ marks

instance : DecidablePred Neutral := fun _ => inferInstanceAs (Decidable (_ ∧ _))

/-- The code points of blanks and marks. -/
def reserved : List CodeRange := blanks ++ marks.map fun c => (c.toNat, c.toNat)

theorem neutral_of_outside {c : Char} (h : ∀ r ∈ reserved, c.toNat < r.1 ∨ r.2 < c.toNat) :
    Neutral c := by
  constructor
  · cases blank : isBlank c with
    | false => rfl
    | true =>
      obtain ⟨r, mem, low, high⟩ := CodeRange.exists_of_covers blank
      have := h r (List.mem_append_left _ mem)
      omega
  · intro mem
    have := h (c.toNat, c.toNat) (List.mem_append_right _ (List.mem_map_of_mem mem))
    omega

end Text

/-- No range of a table has a blank or a mark. -/
abbrev CodeRange.Apart (ranges : List CodeRange) : Prop :=
  ∀ r ∈ ranges, ∀ q ∈ Text.reserved, r.2 < q.1 ∨ q.2 < r.1

theorem CodeRange.Apart.neutral {ranges : List CodeRange} (apart : Apart ranges) {c : Char}
    (h : covers ranges c.toNat = true) : Text.Neutral c := by
  obtain ⟨r, mem, low, high⟩ := exists_of_covers h
  refine Text.neutral_of_outside fun q hq => ?_
  have := apart r mem q hq
  omega

namespace Text

/-! ## Letters and numbers -/

theorem placelessDigits_apart : CodeRange.Apart placelessDigits := by decide +kernel

theorem wholeNumerals_apart : CodeRange.Apart wholeNumerals := by decide +kernel

theorem exists_of_valueFrom {starts : List Nat} {n v : Nat} (h : valueFrom starts n = some v) :
    ∃ start ∈ starts, start ≤ n ∧ n < start + 10 := by
  induction starts with
  | nil => simp [valueFrom] at h
  | cons start more ih =>
    simp only [valueFrom] at h
    split at h
    · cases h
    · split at h
      · exact ⟨start, by simp, by omega, by omega⟩
      · obtain ⟨other, mem, bounds⟩ := ih h
        exact ⟨other, by simp [mem], bounds⟩

/-- The ranges of the decimal digits. -/
def decimalDigits : List CodeRange := zeros.map fun start => (start, start + 9)

theorem decimalDigits_apart : CodeRange.Apart decimalDigits := by decide +kernel

theorem neutral_of_isDigit {c : Char} (h : isDigit c = true) : Neutral c := by
  rw [isDigit, Bool.or_eq_true] at h
  rcases h with h | h
  · obtain ⟨v, hv⟩ := Option.isSome_iff_exists.1 h
    obtain ⟨start, mem, low, high⟩ := exists_of_valueFrom hv
    refine neutral_of_outside fun q hq => ?_
    have := decimalDigits_apart (start, start + 9) (List.mem_map_of_mem mem) q hq
    omega
  · exact placelessDigits_apart.neutral h

/-- Whether an ascending table misses a range: whatever lies in the range is
    not found. -/
def misses : List CodeRange → CodeRange → Bool
  | [], _ => true
  | r :: ranges, q => Nat.blt q.2 r.1 || Nat.blt r.2 q.1 && misses ranges q

theorem covers_of_misses {ranges : List CodeRange} {q : CodeRange} {n : Nat}
    (h : misses ranges q = true) (low : q.1 ≤ n) (high : n ≤ q.2) :
    CodeRange.covers ranges n = false := by
  induction ranges with
  | nil => rfl
  | cons r ranges ih =>
    simp only [misses, Bool.or_eq_true, Bool.and_eq_true, Nat.blt_eq] at h
    simp only [CodeRange.covers, Bool.and_eq_false_imp, Bool.or_eq_false_iff, decide_eq_true_eq,
      decide_eq_false_iff_not]
    rcases h with below | ⟨above, others⟩
    · omega
    · exact fun _ => ⟨by omega, ih others⟩

theorem letters_miss :
    (reserved ++ (decimalDigits ++ placelessDigits)).all (misses letters) = true := by
  decide +kernel

/-- A letter lies outside of blanks, marks and digits. -/
theorem outside_of_isLetter {c : Char} (h : isLetter c = true) :
    ∀ q ∈ reserved ++ (decimalDigits ++ placelessDigits), c.toNat < q.1 ∨ q.2 < c.toNat := by
  intro q mem
  refine Decidable.byContradiction fun inside => ?_
  obtain ⟨low, high⟩ : q.1 ≤ c.toNat ∧ c.toNat ≤ q.2 := by omega
  have := covers_of_misses (List.all_eq_true.1 letters_miss q mem) low high
  rw [isLetter, this] at h
  cases h

/-- A letter is no digit. -/
theorem isDigit_of_isLetter {c : Char} (h : isLetter c = true) : isDigit c = false := by
  cases digit : isDigit c with
  | false => rfl
  | true =>
    rw [isDigit, Bool.or_eq_true] at digit
    rcases digit with digit | digit
    · obtain ⟨v, hv⟩ := Option.isSome_iff_exists.1 digit
      obtain ⟨start, mem, low, high⟩ := exists_of_valueFrom hv
      have listed : (start, start + 9) ∈ decimalDigits := List.mem_map_of_mem mem
      have := outside_of_isLetter h (start, start + 9) (by simp [listed])
      omega
    · obtain ⟨r, mem, low, high⟩ := CodeRange.exists_of_covers digit
      have := outside_of_isLetter h r (by simp [mem])
      omega

theorem neutral_of_isNumber {c : Char} (h : isNumber c = true) : Neutral c := by
  rw [isNumber, Bool.or_eq_true] at h
  exact h.elim neutral_of_isDigit wholeNumerals_apart.neutral

theorem neutral_of_isLetter {c : Char} (h : isLetter c = true) : Neutral c :=
  neutral_of_outside fun q mem => outside_of_isLetter h q (List.mem_append_left _ mem)

/-- **The characters of words are neutral.** -/
theorem neutral_of_continuesWord {c : Char} (h : Piece.continuesWord c = true) : Neutral c := by
  simp only [Piece.continuesWord, Bool.or_eq_true, decide_eq_true_eq] at h
  rcases h with ((h | h) | rfl) | rfl
  · exact neutral_of_isLetter h
  · exact neutral_of_isNumber h
  · decide
  · decide

/-! ## Capitals -/

/-- A code that is no blank and no mark gives a neutral character; one that is
    none of a character gives the null character. -/
theorem neutral_ofNat {n : Nat} (h : ∀ r ∈ reserved, n < r.1 ∨ r.2 < n) :
    Neutral (Char.ofNat n) := by
  by_cases valid : n.isValidChar
  · have code : (Char.ofNat n).toNat = n := by
      rw [Char.ofNat, dif_pos valid]
      rfl
    refine neutral_of_outside fun r mem => ?_
    rw [code]
    exact h r mem
  · have : Char.ofNat n = '\x00' := by simp [Char.ofNat, valid]; rfl
    rw [this]
    decide

/-- The ranges of the capitals of a table of runs. -/
def capitalRanges (runs : List CaseRun) : List CodeRange :=
  runs.map fun run => (run.firstCapital, run.firstCapital + (run.last - run.first))

theorem capitalRanges_apart : CodeRange.Apart (capitalRanges caseRuns) := by decide +kernel

theorem expansions_outside :
    ∀ e ∈ expansions, ∀ n ∈ e.2, ∀ r ∈ reserved, n < r.1 ∨ r.2 < n := by decide +kernel

theorem mem_of_expansionFrom {table : List (Nat × List Nat)} {n : Nat} {codes : List Nat}
    (h : expansionFrom table n = some codes) : (n, codes) ∈ table := by
  induction table with
  | nil => cases h
  | cons e more ih =>
    obtain ⟨m, capitals⟩ := e
    rw [expansionFrom] at h
    split at h
    · cases h
    · split at h
      · next eq =>
        cases h
        simp [eq]
      · exact List.mem_cons_of_mem _ (ih h)

/-- A code and its capital lie at the same place of a run. -/
theorem exists_run_of_capitalFrom {runs : List CaseRun} {n code : Nat}
    (h : capitalFrom runs n = some code) :
    ∃ r ∈ runs, r.first ≤ n ∧ n ≤ r.last ∧ (n - r.first) % r.stride = 0 ∧
      code = r.firstCapital + (n - r.first) := by
  induction runs with
  | nil => cases h
  | cons run more ih =>
    rw [capitalFrom] at h
    split at h
    · cases h
    · split at h
      · next above within =>
        cases h
        exact ⟨run, List.mem_cons_self, Nat.le_of_not_lt above, within.1, within.2, rfl⟩
      · obtain ⟨r, mem, place⟩ := ih h
        exact ⟨r, List.mem_cons_of_mem _ mem, place⟩

theorem exists_of_capitalFrom {runs : List CaseRun} {n code : Nat}
    (h : capitalFrom runs n = some code) :
    ∃ r ∈ capitalRanges runs, r.1 ≤ code ∧ code ≤ r.2 := by
  obtain ⟨run, mem, low, high, -, rfl⟩ := exists_run_of_capitalFrom h
  exact ⟨_, List.mem_map_of_mem mem, by dsimp only; omega, by dsimp only; omega⟩

/-- **Capitals of neutral characters are neutral.** -/
theorem neutral_of_mem_capital {c d : Char} (hc : Neutral c) (h : d ∈ capital c) : Neutral d := by
  unfold capital at h
  split at h
  · next codes he =>
    obtain ⟨n, mem, rfl⟩ := List.mem_map.1 h
    exact neutral_ofNat (expansions_outside _ (mem_of_expansionFrom he) n mem)
  · split at h
    · next code hr =>
      rw [List.mem_singleton.1 h]
      obtain ⟨r, mem, bounds⟩ := exists_of_capitalFrom hr
      refine neutral_ofNat fun q hq => ?_
      have := capitalRanges_apart r mem q hq
      omega
    · rw [List.mem_singleton.1 h]
      exact hc

end Text

/-! ## Texts of neutral characters -/

/-- All characters are neutral. -/
def Text.AllNeutral (s : Text) : Prop := ∀ c ∈ s, Text.Neutral c

instance : DecidablePred Text.AllNeutral := fun s =>
  List.decidableBAll Text.Neutral s

namespace Text.AllNeutral

variable {s t : Text}

theorem nil : AllNeutral [] := by simp [AllNeutral]

theorem append (hs : AllNeutral s) (ht : AllNeutral t) : AllNeutral (s ++ t) :=
  fun c mem => (List.mem_append.1 mem).elim (hs c) (ht c)

theorem cons {c : Char} (hc : Neutral c) (hs : AllNeutral s) : AllNeutral (c :: s) :=
  fun d mem => (List.mem_cons.1 mem).elim (fun e => e ▸ hc) (hs d)

theorem of_subset (ht : AllNeutral t) (sub : ∀ c ∈ s, c ∈ t) : AllNeutral s :=
  fun c mem => ht c (sub c mem)

theorem take (h : AllNeutral s) (n : Nat) : AllNeutral (s.take n) :=
  h.of_subset fun _ => List.mem_of_mem_take

theorem drop (h : AllNeutral s) (n : Nat) : AllNeutral (s.drop n) :=
  h.of_subset fun _ => List.mem_of_mem_drop

theorem replicate {c : Char} (hc : Neutral c) (n : Nat) : AllNeutral (List.replicate n c) := by
  intro d mem
  rw [List.eq_of_mem_replicate mem]
  exact hc

/-! ## Numbers -/

theorem digits (n : Nat) : AllNeutral (Decimal.digits n) := by
  intro c mem
  have digit : c.isDigit = true := Nat.isDigit_of_mem_toDigits (by decide) (by decide) mem
  have bounds : 0x30 ≤ c.toNat ∧ c.toNat ≤ 0x39 := by
    simpa [Char.isDigit, UInt32.le_iff_toNat_le] using digit
  have apart : CodeRange.Apart [(0x30, 0x39)] := by decide
  refine neutral_of_outside fun q hq => ?_
  have := apart (0x30, 0x39) (by simp) q hq
  omega

theorem numeral (i : Int) : AllNeutral (Decimal.numeral i) := by
  unfold Decimal.numeral
  split
  · exact .cons (by decide) (digits _)
  · exact digits _

theorem positional (hs : AllNeutral s) (point : Int) : AllNeutral (Binary64.positional s point) := by
  have zeros (n : Nat) : AllNeutral (List.replicate n '0') := replicate (by decide) n
  unfold Binary64.positional
  split
  · exact (append (by decide) (zeros _)).append hs
  · split
    · exact (hs.append (zeros _)).append (by decide)
    · exact (hs.take _).append (.cons (by decide) (hs.drop _))

theorem scientific (hs : AllNeutral s) (point : Int) : AllNeutral (Binary64.scientific s point) := by
  unfold Binary64.scientific
  refine append (append (append (hs.take 1) ?_) ?_) ?_
  · split
    · exact nil
    · exact .cons (by decide) (hs.drop 1)
  · split <;> decide
  · exact append (replicate (by decide) _) (digits _)

theorem shortest (significand : Nat) (exponent : Int) :
    AllNeutral (Binary64.shortest significand exponent).1 := by
  let hit := (Binary64.cell significand exponent).shortestFrom 1 17
  refine (digits hit.1).of_subset fun c mem => ?_
  have kept := (List.dropWhile_sublist _).subset (List.mem_reverse.1 mem)
  exact List.mem_reverse.1 kept

theorem magnitudeText (significand : Nat) (exponent : Int) :
    AllNeutral (Binary64.magnitudeText significand exponent) := by
  have written := shortest significand exponent
  unfold Binary64.magnitudeText
  split
  · decide
  · dsimp only
    split
    · exact written.positional _
    · exact written.scientific _

theorem double (x : Binary64) : AllNeutral (x.text ValueExpr.doubleWords) := by
  unfold Binary64.text
  split
  · exact .cons (by decide) (magnitudeText _ _)
  · exact magnitudeText _ _
  all_goals decide

/-! ## Names -/

theorem upperCamel (hs : AllNeutral s) : AllNeutral (upperCamel s) := by
  intro c mem
  obtain ⟨part, hpart, hc⟩ := List.mem_flatMap.1 mem
  have neutral : AllNeutral part := hs.of_subset fun d hd => mem_of_mem_splitOn hpart hd
  cases part with
  | nil => cases hc
  | cons d part =>
    rcases List.mem_append.1 hc with hc | hc
    · exact neutral_of_mem_capital (neutral d (by simp)) hc
    · exact neutral c (List.mem_cons_of_mem _ hc)

end Text.AllNeutral

namespace NameRule

/-- Only neutral characters are put around names. -/
def IsNeutral (rule : NameRule) : Prop :=
  Text.AllNeutral rule.before ∧ Text.AllNeutral rule.after

/-- **Changed names keep neutral characters.** -/
theorem IsNeutral.apply {rule : NameRule} (h : rule.IsNeutral) {name : Text}
    (hn : name.AllNeutral) : (rule.apply name).AllNeutral := by
  have segment {s : Text} (hs : s.AllNeutral) : (rule.segment s).AllNeutral := by
    unfold NameRule.segment
    refine (h.1.append ?_).append h.2
    split
    · exact hs.upperCamel
    · exact hs
  unfold NameRule.apply onLastSegment
  split
  · next segments last cut =>
    rw [Text.append_of_cutLast cut] at hn
    have front : Text.AllNeutral segments := hn.of_subset fun c mem => by simp [mem]
    have back : Text.AllNeutral last := hn.of_subset fun c mem => by simp [mem]
    exact front.append (.cons (by decide) (segment back))
  · exact segment hn

end NameRule

end IdlFlow
