/-
  Camel case.

  * `CaseRun.apart r q`: whether no capital of the run `r` is a letter of the
    run `q`;
  * `Text.Capital c`: the character `c` is its own capital.

  Main statements: a capital form begins with a capital (`Text.capital_cons`),
  and only that of an underscore has an underscore in it
  (`Text.eq_of_underscore_mem_capital`).  So the words of a name go to camel
  case one by one, and what they make up is a single word that camel case leaves
  as it is (`upperCamel_projection`).
-/
import IdlFlow.Proofs.Characters

namespace IdlFlow

namespace Text

/-! ## Tables of capitals -/

namespace CaseRun

/-- The last capital of a run. -/
def lastCapital (r : CaseRun) : Nat := r.firstCapital + (r.last - r.first)

/-- Whether the capitals of `r` and the letters of `q` lie in different ranges,
    or between each other. -/
def apart (r q : CaseRun) : Bool :=
  r.lastCapital.blt q.first || q.last.blt r.firstCapital ||
    ((r.stride == 2 || r.first == r.last) && q.stride == 2 &&
      (r.firstCapital + q.first) % 2 == 1)

end CaseRun

theorem caseRuns_apart : (caseRuns.all fun r => caseRuns.all r.apart) = true := by decide +kernel

theorem expansions_apart : (caseRuns.all fun r => expansions.all fun e =>
    e.1.blt r.firstCapital || r.lastCapital.blt e.1) = true := by decide +kernel

/-- No capital of a run has a capital in a run. -/
theorem capitalFrom_capital {n code : Nat} (h : capitalFrom caseRuns n = some code) :
    capitalFrom caseRuns code = none := by
  cases again : capitalFrom caseRuns code with
  | none => rfl
  | some code' =>
    obtain ⟨r, hr, low, high, place, rfl⟩ := exists_run_of_capitalFrom h
    obtain ⟨q, hq, low', high', place', -⟩ := exists_run_of_capitalFrom again
    have apart := List.all_eq_true.1 (List.all_eq_true.1 caseRuns_apart r hr) q hq
    simp only [CaseRun.apart, CaseRun.lastCapital, Bool.or_eq_true, Bool.and_eq_true, beq_iff_eq,
      Nat.blt_eq] at apart
    rcases apart with (below | above) | ⟨⟨even | single, even'⟩, odd⟩
    · omega
    · omega
    · rw [even] at place
      rw [even'] at place'
      omega
    · rw [even'] at place'
      omega

/-- No capital of a run has a capital form of several characters. -/
theorem expansionFrom_capital {n code : Nat} (h : capitalFrom caseRuns n = some code) :
    expansionFrom expansions code = none := by
  cases long : expansionFrom expansions code with
  | none => rfl
  | some codes =>
    obtain ⟨r, hr, low, high, -, rfl⟩ := exists_run_of_capitalFrom h
    have apart := List.all_eq_true.1 (List.all_eq_true.1 expansions_apart r hr) _
      (mem_of_expansionFrom long)
    simp only [CaseRun.lastCapital, Bool.or_eq_true, Nat.blt_eq] at apart
    omega

/-! ## Capitals -/

/-- The character is its own capital. -/
def Capital (c : Char) : Prop := capital c = [c]

instance : DecidablePred Capital := fun c => inferInstanceAs (Decidable (capital c = [c]))

theorem expansions_begin :
    ∀ e ∈ expansions, e.2 ≠ [] ∧ ∀ n ∈ e.2.head?, Capital (Char.ofNat n) := by decide +kernel

/-- A code is that of a character, or stands for the null character. -/
theorem ofNat_cases (n : Nat) : (Char.ofNat n).toNat = n ∨ Char.ofNat n = '\x00' := by
  by_cases valid : n.isValidChar
  · exact .inl (congrArg Char.toNat (dif_pos valid))
  · exact .inr (dif_neg valid)

theorem capital_of_capitalFrom {n code : Nat} (h : capitalFrom caseRuns n = some code) :
    Capital (Char.ofNat code) := by
  rcases ofNat_cases code with same | null
  · rw [Capital, capital, same, expansionFrom_capital h, capitalFrom_capital h]
  · rw [null]
    decide +kernel

theorem capital_ne_nil (c : Char) : capital c ≠ [] := by
  unfold capital
  split
  · next codes long => simpa using (expansions_begin _ (mem_of_expansionFrom long)).1
  · split <;> simp

/-- **A capital form begins with a capital.** -/
theorem capital_cons {c d : Char} {s : Text} (h : capital c = d :: s) : Capital d := by
  have form := h
  unfold capital at form
  split at form
  · next codes long =>
    obtain ⟨n, others, rfl, rfl, -⟩ := List.map_eq_cons_iff.1 form
    exact (expansions_begin _ (mem_of_expansionFrom long)).2 n rfl
  · split at form
    · next code short =>
      obtain ⟨rfl, -⟩ := List.cons.inj form
      exact capital_of_capitalFrom short
    · obtain ⟨rfl, rfl⟩ := List.cons.inj form
      exact h

/-- The code of the underscore. -/
def underscoreCode : Nat := 0x5F

theorem caseRuns_no_underscore : (caseRuns.all fun r =>
    underscoreCode.blt r.firstCapital || r.lastCapital.blt underscoreCode) = true := by
  decide +kernel

theorem expansions_no_underscore : ∀ e ∈ expansions, '_' ∉ e.2.map Char.ofNat := by decide +kernel

/-- **Only an underscore has one in its capital form.** -/
theorem eq_of_underscore_mem_capital {c : Char} (h : '_' ∈ capital c) : c = '_' := by
  unfold capital at h
  split at h
  · next codes long => exact absurd h (expansions_no_underscore _ (mem_of_expansionFrom long))
  · split at h
    · next code short =>
      have eq : '_' = Char.ofNat code := List.mem_singleton.1 h
      have same : code = underscoreCode := by
        rcases ofNat_cases code with same | null
        · rw [← same, ← eq]
          rfl
        · rw [null] at eq
          cases eq
      obtain ⟨r, hr, low, high, -, place⟩ := exists_run_of_capitalFrom short
      have apart := List.all_eq_true.1 caseRuns_no_underscore r hr
      simp only [CaseRun.lastCapital, Bool.or_eq_true, Nat.blt_eq] at apart
      omega
    · exact (List.mem_singleton.1 h).symm

end Text

/-! ## Camel case -/

variable {s : Text}

theorem underscore_not_mem_capitalise (h : '_' ∉ s) : '_' ∉ capitalise s := by
  cases s with
  | nil => exact h
  | cons c s =>
    rw [List.mem_cons, not_or] at h
    rw [capitalise, List.mem_append, not_or]
    exact ⟨fun mem => h.1 (Text.eq_of_underscore_mem_capital mem).symm, h.2⟩

theorem underscore_not_mem_upperCamel (s : Text) : '_' ∉ upperCamel s := by
  intro mem
  obtain ⟨part, hpart, mem⟩ := List.mem_flatMap.1 mem
  exact underscore_not_mem_capitalise (Text.not_mem_of_mem_splitOn hpart) mem

/-- Words in camel case begin with a capital, if they are not all empty. -/
theorem capital_of_flatMap {parts : List Text} {d : Char}
    (h : parts.flatMap capitalise = d :: s) : Text.Capital d := by
  induction parts with
  | nil => cases h
  | cons part parts ih =>
    rw [List.flatMap_cons] at h
    cases part with
    | nil => exact ih h
    | cons c part =>
      obtain ⟨e, others, form⟩ := List.exists_cons_of_ne_nil (Text.capital_ne_nil c)
      rw [capitalise, form] at h
      obtain ⟨rfl, -⟩ := List.cons.inj h
      exact Text.capital_cons form

theorem capitalise_upperCamel (s : Text) : capitalise (upperCamel s) = upperCamel s := by
  cases camel : upperCamel s with
  | nil => rfl
  | cons d t =>
    rw [capitalise, capital_of_flatMap camel]
    rfl

/-- **Camel case goes word by word, leaves no underscore, and changes nothing a
    second time.** -/
theorem upperCamel_projection (s t : Text) :
    upperCamel (s ++ '_' :: t) = upperCamel s ++ upperCamel t ∧
    '_' ∉ upperCamel s ∧
    upperCamel (upperCamel s) = upperCamel s := by
  have single := underscore_not_mem_upperCamel s
  refine ⟨?_, single, ?_⟩
  · rw [upperCamel, Text.splitOn_append, List.flatMap_append]
    rfl
  · calc upperCamel (upperCamel s)
        = [upperCamel s].flatMap capitalise := by rw [upperCamel, Text.splitOn_of_not_mem single]
      _ = capitalise (upperCamel s) := List.flatMap_singleton ..
      _ = upperCamel s := capitalise_upperCamel s

/-- A ligature becomes two capitals, a titlecase letter one. -/
example : upperCamel "_\ufb01x__\u01c5ab_c" = ("FIx\u01c4abC" : Text) := by decide +kernel

end IdlFlow
