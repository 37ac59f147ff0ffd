/-
  The bounds of the recursive parsers do not show.

  * `Same n p q`: two parsers do the same on at most `n` tokens;
  * `Shrinks`, `Progresses`: what a parser leaves is not longer than what it
    was given, or shorter.

  Main statements: with a bound of at least the number of tokens the bound
  does not matter, so that `typeRef`, `constValue`, `manyClosed` and
  `manyUntil` are the recursive parsers that their bounded versions unfold to
  (`typeRef_eq`, `constValue_eq`, `manyClosed_cons`, `manyUntil_cons`).
-/
import IdlFlow.Proofs.Soundness

namespace IdlFlow.Parser

open Grammar

variable {α β : Type}

/-! ## How much is left -/

/-- What is left is not longer. -/
def Shrinks (p : Parser α) : Prop :=
  ∀ ⦃tokens a rest⦄, p tokens = .ok (a, rest) → rest.length ≤ tokens.length

/-- If there is a token, one at least is taken. -/
def Progresses (p : Parser α) : Prop :=
  ∀ ⦃t tokens a rest⦄, p (t :: tokens) = .ok (a, rest) → rest.length ≤ tokens.length

namespace Sound

variable {p : Parser α} {Form : List Lexeme → α → Prop}

theorem shrinks (hp : Sound p Form) : Shrinks p := by
  intro tokens a rest h
  obtain ⟨s, e, -⟩ := hp h
  have := congrArg List.length e
  simp only [length_lexemes, List.length_append] at this
  omega

theorem progresses (hp : Sound p Form) (ne : ∀ s a, Form s a → s ≠ []) : Progresses p := by
  intro t tokens a rest h
  obtain ⟨s, e, hs⟩ := hp h
  have pos := List.length_pos_iff.2 (ne s a hs)
  have := congrArg List.length e
  simp only [length_lexemes, List.length_append, List.length_cons] at this
  omega

end Sound

/-! ## Parsers that do the same -/

/-- The parsers do the same on at most `n` tokens. -/
def Same (n : Nat) (p q : Parser α) : Prop := ∀ tokens, tokens.length ≤ n → p tokens = q tokens

namespace Same

variable {n : Nat} {p q : Parser α} {f g : α → Parser β}

theorem refl (p : Parser α) : Same n p p := fun _ _ => rfl

theorem bind (h : Same n p q) (hp : Shrinks p) (hf : ∀ a, Same n (f a) (g a)) :
    Same n (p >>= f) (q >>= g) := by
  intro tokens le
  change (p tokens >>= fun x => f x.1 x.2) = (q tokens >>= fun x => g x.1 x.2)
  rw [← h tokens le]
  cases hx : p tokens with
  | error e => rfl
  | ok x => exact hf x.1 x.2 (Nat.le_trans (hp hx) le)

theorem bind_left (hp : Shrinks p) (hf : ∀ a, Same n (f a) (g a)) :
    Same n (p >>= f) (p >>= g) :=
  (refl p).bind hp hf

theorem bind_right (h : Same n p q) (f : α → Parser β) : Same n (p >>= f) (q >>= f) := by
  intro tokens le
  change (p tokens >>= fun x => f x.1 x.2) = (q tokens >>= fun x => f x.1 x.2)
  rw [h tokens le]

theorem manyUpTo (closing : Option Mark) (h : Same n p q) (hp : Shrinks p) (bound : Nat) :
    Same n (manyUpTo closing p bound) (manyUpTo closing q bound) := by
  induction bound with
  | zero => exact refl _
  | succ bound ih =>
    intro tokens le
    simp only [Parser.manyUpTo, atClosing_bind]
    split
    · rfl
    · exact h.bind hp (fun _ => ih.bind_right _) tokens le

theorem manyClosed (closing : Mark) (h : Same n p q) (hp : Shrinks p) :
    Same n (manyClosed closing p) (manyClosed closing q) :=
  bind_right (fun tokens => h.manyUpTo (some closing) hp tokens.length tokens) _

theorem contained (h : Same n p q) : Same n (contained p) (contained q) :=
  bind_left sound_nativeType.shrinks fun _ =>
    bind_left (sound_mark _).shrinks fun _ => h.bind_right _

/-- One more token may be there where the next one is taken first. -/
theorem advance (h : Same n p q) : Same (n + 1) (advance >>= fun _ => p)
    (Parser.advance >>= fun _ => q) := by
  intro tokens le
  rw [advance_bind, advance_bind]
  exact h _ (by simp only [List.length_drop]; omega)

end Same

/-! ## Repetition -/

section
variable {item : Parser α} {closing : Option Mark}

theorem manyUpTo_nil (closing : Option Mark) (item : Parser α) (bound : Nat) :
    manyUpTo closing item bound [] = .ok ([], []) := by
  cases bound with
  | zero => rfl
  | succ bound =>
    rw [manyUpTo, atClosing_bind]
    rfl

theorem manyUpTo_eq (hi : Progresses item) {tokens : List Token} {b c : Nat}
    (hb : tokens.length ≤ b) (hc : tokens.length ≤ c) :
    manyUpTo closing item b tokens = manyUpTo closing item c tokens := by
  induction b generalizing c tokens with
  | zero =>
    obtain rfl := List.length_eq_zero_iff.1 (Nat.le_zero.1 hb)
    rw [manyUpTo_nil, manyUpTo_nil]
  | succ b ih =>
    cases tokens with
    | nil => rw [manyUpTo_nil, manyUpTo_nil]
    | cons t ts =>
      obtain _ | c := c
      · simp at hc
      simp only [manyUpTo, atClosing_bind]
      split
      · rfl
      · change (item (t :: ts) >>= fun x => _) = (item (t :: ts) >>= fun x => _)
        cases hx : item (t :: ts) with
        | error e => rfl
        | ok x =>
          have le := hi hx
          simp only [List.length_cons] at hb hc
          have others : manyUpTo closing item b x.2 = manyUpTo closing item c x.2 :=
            ih (by omega) (by omega)
          change (manyUpTo closing item b x.2 >>= fun y => _) =
            (manyUpTo closing item c x.2 >>= fun y => _)
          rw [others]

theorem manyUntil_nil (closing : Option Mark) (item : Parser α) :
    manyUntil closing item [] = .ok ([], []) :=
  manyUpTo_nil closing item 0

/-- The recursion of a repetition. -/
theorem manyUntil_cons (hi : Progresses item) {t : Token} {ts : List Token}
    (ht : ∀ m, closing = some m → t.lexeme ≠ .mark m) :
    manyUntil closing item (t :: ts) =
      (item >>= fun a => (a :: ·) <$> manyUntil closing item) (t :: ts) := by
  have go : ¬ ((lexemes (t :: ts)).head?.elim true fun l =>
      closing.any fun m => l = .mark m) = true := by
    cases closing with
    | none => simp
    | some m => simpa using ht m rfl
  rw [manyUntil, List.length_cons, manyUpTo, atClosing_bind, if_neg go]
  change (item (t :: ts) >>= fun x => _) = (item (t :: ts) >>= fun x => _)
  cases hx : item (t :: ts) with
  | error e => rfl
  | ok x =>
    change (manyUpTo closing item ts.length x.2 >>= fun y => _) =
      (manyUpTo closing item x.2.length x.2 >>= fun y => _)
    rw [manyUpTo_eq hi (hi hx) (Nat.le_refl _)]
    rfl

theorem manyClosed_nil (m : Mark) (item : Parser α) :
    manyClosed m item [] = .error (.unexpected (.kind (.mark m)) []) := by
  rw [manyClosed, bind_of_ok (manyUntil_nil _ _)]
  rfl

theorem manyClosed_closing {m : Mark} {t : Token} (ht : t.lexeme = .mark m) (item : Parser α)
    (ts : List Token) : manyClosed m item (t :: ts) = .ok ([], ts) := by
  have stop : manyUntil (some m) item (t :: ts) = .ok ([], t :: ts) := by
    rw [manyUntil, List.length_cons, manyUpTo, atClosing_bind, if_pos (by simp [ht])]
    rfl
  rw [manyClosed, bind_of_ok stop, mark, bind_assoc, peek_bind, if_pos (by simp [ht])]
  rfl

/-- The recursion of a repetition with its closing mark. -/
theorem manyClosed_cons {m : Mark} (hi : Progresses item) {t : Token} {ts : List Token}
    (ht : t.lexeme ≠ .mark m) :
    manyClosed m item (t :: ts) =
      (item >>= fun a => (a :: ·) <$> manyClosed m item) (t :: ts) := by
  have go : manyUntil (some m) item (t :: ts) =
      (item >>= fun a => (a :: ·) <$> manyUntil (some m) item) (t :: ts) :=
    manyUntil_cons hi fun m' e => by
      cases e
      exact ht
  change (manyUntil (some m) item (t :: ts) >>= fun x => _) = _
  rw [go]
  change ((item >>= fun a => (a :: ·) <$> manyUntil (some m) item) >>= fun items =>
    mark m >>= fun _ => pure items) (t :: ts) = _
  simp only [manyClosed, map_eq_pure_bind, bind_assoc, pure_bind]

end

/-! ## Types and constant values -/

section
variable {upTo : Nat → Parser α} {level : Parser α → Parser α}

/-- Where one more level needs one more token, a bound of at least the number
    of tokens does not matter. -/
theorem same_upTo (nil : ∀ b, upTo b [] = upTo 0 []) (succ : ∀ b, upTo (b + 1) = level (upTo b))
    (step : ∀ n b q, Same n (upTo b) q → Same (n + 1) (level (upTo b)) (level q)) {n b c : Nat}
    (hb : n ≤ b) (hc : n ≤ c) : Same n (upTo b) (upTo c) := by
  induction n generalizing b c with
  | zero =>
    intro tokens le
    obtain rfl := List.length_eq_zero_iff.1 (Nat.le_zero.1 le)
    rw [nil b, nil c]
  | succ n ih =>
    obtain ⟨b, rfl⟩ := Nat.exists_eq_add_of_lt hb
    obtain ⟨c, rfl⟩ := Nat.exists_eq_add_of_lt hc
    rw [succ, succ]
    exact step n _ _ (ih (by omega) (by omega))

/-- The recursion that the levels come from. -/
theorem levels_eq (nil : ∀ b, upTo b [] = upTo 0 []) (succ : ∀ b, upTo (b + 1) = level (upTo b))
    (step : ∀ n b q, Same n (upTo b) q → Same (n + 1) (level (upTo b)) (level q)) :
    (fun tokens => upTo tokens.length tokens) = level fun tokens => upTo tokens.length tokens := by
  have enough (n : Nat) : Same n (upTo n) fun tokens => upTo tokens.length tokens :=
    fun tokens le => same_upTo nil succ step le (Nat.le_refl _) tokens (Nat.le_refl _)
  funext tokens
  calc upTo tokens.length tokens
      = upTo (tokens.length + 1) tokens :=
        same_upTo nil succ step (Nat.le_refl _) (Nat.le_succ _) tokens (Nat.le_refl _)
    _ = level (upTo tokens.length) tokens := by rw [succ]
    _ = level (fun tokens => upTo tokens.length tokens) tokens :=
        step _ _ _ (enough tokens.length) tokens (Nat.le_succ _)

end

theorem shrinks_peek : Shrinks peek := by
  intro tokens a rest h
  cases h
  exact Nat.le_refl _

theorem same_typeRefOver {n : Nat} {p q : Parser TypeRef} (h : Same n p q) (hp : Shrinks p) :
    Same (n + 1) (typeRefOver p) (typeRefOver q) := by
  refine Same.bind_left shrinks_peek fun next => ?_
  split
  · exact Same.advance (h.contained.bind_right _)
  · exact Same.advance (h.contained.bind_right _)
  · refine Same.advance (Same.contained (h.bind hp fun key => ?_))
    exact Same.bind_left (sound_mark _).shrinks fun _ => h.bind_right _
  · exact Same.refl _

/-- The recursion of types. -/
theorem typeRef_eq : typeRef = typeRefOver typeRef :=
  levels_eq (fun b => by cases b <;> rfl) (fun _ => rfl)
    fun _ b _ h => same_typeRefOver h (sound_typeRefUpTo b).shrinks

theorem same_constValueOver {n : Nat} {p q : Parser ConstValue} (h : Same n p q)
    (hp : Shrinks p) (hv : Sound p ValueForm) :
    Same (n + 1) (constValueOver p) (constValueOver q) := by
  refine Same.bind_left shrinks_peek fun next => ?_
  split
  · exact Same.refl _
  · exact Same.refl _
  · exact Same.refl _
  · exact Same.refl _
  · exact Same.refl _
  · refine Same.advance (Same.bind_right (Same.manyClosed _ ?_ (sound_separated hv).shrinks) _)
    exact h.bind_right _
  · refine Same.advance (Same.bind_right (Same.manyClosed _ ?_ (sound_entry hv).shrinks) _)
    refine h.bind hp fun key => Same.bind_left (sound_mark _).shrinks fun _ => h.bind_right _
  · exact Same.refl _

/-- The recursion of constant values. -/
theorem constValue_eq : constValue = constValueOver constValue :=
  levels_eq (fun b => by cases b <;> rfl) (fun _ => rfl)
    fun _ b _ h => same_constValueOver h (sound_constValueUpTo b).shrinks (sound_constValueUpTo b)

end IdlFlow.Parser
