/-
  How much work reading is.

  * `Shadows stream first p q c d`: from every place at or behind `first`, the
    guarded parser `p` does what the parser `q` does on the tokens left there, and
    no guard stops it.  If it succeeds it makes at most `rate` steps for every
    entry that it takes, and `c` more; if it fails, `rate` for every entry left,
    and `d` more.

  The bounds of a sequence add up (`Shadows.bind`).  What takes an entry has a
  negative `c`, and so pays for what comes before and behind it without taking
  one; a loop costs no more than its last look since every turn pays for itself
  (`shadows_manyUntil`), and the recursive parsers since every level does.

  Main statement: guarded reading comes to the same as reading, within a number
  of steps that is linear in the number of tokens (`Guarded.parse_spec`).
-/
import IdlFlow.Proofs.Guarded
import IdlFlow.Proofs.Promptness
import IdlFlow.Proofs.Refusal

namespace IdlFlow

open IdlFlow.Parser

/-- The steps that an entry pays for. -/
def rate : Int := 16

variable {α β : Type} {stream : TokenStream} {i j k steps m : Nat} {c d c₁ d₁ : Int}

/-- What the guarded run may come to from the place `i` and after `steps` steps,
    if the other one comes to the first outcome. -/
inductive Agrees (stream : TokenStream) (i steps : Nat) (c d : Int) :
    Except Failure (α × List Token) → Except Stop α × Meter → Prop
  | ok {a : α} {j more : Nat} : i ≤ j → j ≤ stream.tokens.length →
    (more : Int) ≤ rate * (j - i) + c →
    Agrees stream i steps c d (.ok (a, stream.tokens.drop j)) (.ok a, ⟨j, steps + more⟩)
  | error {failure : Failure} {j more : Nat} : j ≤ stream.tokens.length →
    (more : Int) ≤ rate * (stream.tokens.length - i) + d →
    Agrees stream i steps c d (.error failure)
      (.error (.refused (failure.inStream stream)), ⟨j, steps + more⟩)

/-- A token at least is taken. -/
def Parser.Consumes (q : Parser α) : Prop :=
  ∀ ⦃tokens a rest⦄, q tokens = .ok (a, rest) → rest.length < tokens.length

theorem Parser.Sound.consumes {q : Parser α} {Form : List Lexeme → α → Prop} (h : Sound q Form)
    (ne : ∀ s a, Form s a → s ≠ []) : Consumes q := by
  intro tokens a rest run
  obtain ⟨s, e, form⟩ := h run
  have some := List.length_pos_iff.2 (ne s a form)
  have whole := congrArg List.length e
  simp only [length_lexemes, List.length_append] at whole
  omega

/-- At the place `i` the guarded parser does what the other one does. -/
def ShadowsAt (stream : TokenStream) (i : Nat) (p : Guarded α) (q : Parser α) (c d : Int) : Prop :=
  i ≤ stream.tokens.length → ∀ steps,
    Agrees stream i steps c d (q (stream.tokens.drop i)) (p stream.entries ⟨i, steps⟩)

/-- And so it does at every place behind. -/
def Shadows (stream : TokenStream) (first : Nat) (p : Guarded α) (q : Parser α) (c d : Int) :
    Prop :=
  ∀ i, first ≤ i → ShadowsAt stream i p q c d

/-- The end is an entry. -/
theorem length_entries (stream : TokenStream) :
    stream.entries.length = stream.tokens.length + 1 := by simp [TokenStream.entries]

/-! ## Outcomes -/

namespace Agrees

variable {x : Except Failure (α × List Token)} {y : Except Stop α × Meter}

theorem mono (h : Agrees stream i steps c₁ d₁ x y) (hc : c₁ ≤ c) (hd : d₁ ≤ d) :
    Agrees stream i steps c d x y := by
  cases h with
  | ok le bound cost => exact .ok le bound (by omega)
  | error bound cost => exact .error bound (by omega)

/-- After `m` steps on the way to a later place. -/
theorem shift (h : Agrees stream k (steps + m) c d x y) (le : i ≤ k)
    (cost : (m : Int) ≤ rate * (k - i) + c₁) :
    Agrees stream i steps (c₁ + c) (c₁ + d) x y := by
  unfold rate at cost
  cases h with
  | ok le' bound cost' =>
    rw [Nat.add_assoc]
    refine .ok (Nat.le_trans le le') bound ?_
    unfold rate at cost' ⊢
    push_cast
    omega
  | error bound cost' =>
    rw [Nat.add_assoc]
    refine .error bound ?_
    unfold rate at cost' ⊢
    push_cast
    omega

end Agrees

/-! ## Sequences -/

namespace ShadowsAt

variable {p : Guarded α} {q q' : Parser α}

theorem mono (h : ShadowsAt stream i p q c₁ d₁) (hc : c₁ ≤ c) (hd : d₁ ≤ d) :
    ShadowsAt stream i p q c d := fun bound steps => (h bound steps).mono hc hd

theorem congr (h : ShadowsAt stream i p q c d)
    (eq : q' (stream.tokens.drop i) = q (stream.tokens.drop i)) : ShadowsAt stream i p q' c d := by
  intro bound steps
  rw [eq]
  exact h bound steps

theorem pure (a : α) : ShadowsAt stream i (pure a) (pure a) 0 0 :=
  fun bound steps => by
    change Agrees stream i steps 0 0 (.ok (a, _)) (.ok a, ⟨i, steps + 0⟩)
    exact .ok (Nat.le_refl i) bound (by simp)

/-- One parser and then the other, which may rely on what the first one has
    done. -/
theorem bind {f : α → Guarded β} {g : α → Parser β} (hp : ShadowsAt stream i p q c₁ d₁)
    (hf : ∀ a j, i ≤ j → q (stream.tokens.drop i) = .ok (a, stream.tokens.drop j) →
      ShadowsAt stream j (f a) (g a) c d) :
    ShadowsAt stream i (p >>= f) (q >>= g) (c₁ + c) (max d₁ (c₁ + d)) := by
  intro bound steps
  have first := hp bound steps
  generalize run : q (stream.tokens.drop i) = x at first
  generalize run' : p stream.entries ⟨i, steps⟩ = y at first
  cases first with
  | ok le bound' cost =>
    rw [bind_of_ok run, Guarded.bind_ok run']
    exact ((hf _ _ le run bound' _).shift le cost).mono (Int.le_refl _) (Int.le_max_right ..)
  | error bound' cost =>
    rw [bind_of_error run, Guarded.bind_error run']
    exact .error bound' (by omega)

theorem map (h : ShadowsAt stream i p q c d) (g : α → β) :
    ShadowsAt stream i (g <$> p) (g <$> q) c d := by
  intro bound steps
  have first := h bound steps
  change Agrees stream i steps _ _ ((q >>= fun a => Pure.pure (g a)) (stream.tokens.drop i))
    ((p >>= fun a => Pure.pure (g a)) stream.entries ⟨i, steps⟩)
  generalize run : q (stream.tokens.drop i) = x at first
  generalize run' : p stream.entries ⟨i, steps⟩ = y at first
  cases first with
  | ok le bound' cost =>
    rw [bind_of_ok run, Guarded.bind_ok run']
    exact .ok le bound' cost
  | error bound' cost =>
    rw [bind_of_error run, Guarded.bind_error run']
    exact .error bound' cost

/-! ## Guards -/

theorem look (bound : i ≤ stream.tokens.length) :
    stream.entries[i]? = some ((stream.tokens.drop i).head?.map Token.lexeme,
      (stream.tokens.drop i).head?.elim stream.finish Token.position) := by
  rw [TokenStream.entries, List.head?_drop]
  rcases Nat.lt_or_eq_of_le bound with inside | rfl
  · rw [List.getElem?_append_left (by simpa using inside), List.getElem?_map,
      List.getElem?_eq_getElem inside]
    rfl
  · simp

theorem call (h : ShadowsAt stream i p q c d) :
    ShadowsAt stream i (Guarded.call p) q (1 + c) (1 + d) := by
  intro bound steps
  rw [Guarded.call_eq (look bound)]
  exact (h bound (steps + 1)).shift (Nat.le_refl i) (by simp)

/-- What takes a token is not idle. -/
theorem consuming (h : ShadowsAt stream i p q c d)
    (takes : ∀ ⦃a rest⦄, q (stream.tokens.drop i) = .ok (a, rest) →
      rest.length < (stream.tokens.drop i).length) :
    ShadowsAt stream i (Guarded.consuming p) q c d := by
  intro bound steps
  have result := h bound steps
  rw [Guarded.consuming]
  generalize run : q (stream.tokens.drop i) = x at result takes
  generalize p stream.entries ⟨i, steps⟩ = y at result
  cases result with
  | @ok a j more le bound' cost =>
    have taken := takes rfl
    simp only [List.length_drop] at taken
    have onward : i < j := by omega
    simp only [onward, if_true]
    exact .ok le bound' cost
  | error bound' cost => exact .error bound' cost

/-! ## Single tokens -/

/-- A look at the next token, of which there may be none. -/
theorem peek {f : Option Lexeme → Guarded α} {g : Option Lexeme → Parser α}
    (none : i = stream.tokens.length → ShadowsAt stream i (f none) (g none) c d)
    (some : ∀ l, i < stream.tokens.length → (lexemes (stream.tokens.drop i)).head? = some l →
      ShadowsAt stream i (f (some l)) (g (some l)) c d) :
    ShadowsAt stream i (Guarded.peek >>= f) (Parser.peek >>= g) (1 + c) (1 + d) := by
  intro bound steps
  rw [Guarded.peek_bind (look bound), peek_bind, ← List.head?_map]
  suffices here : ShadowsAt stream i (f (lexemes (stream.tokens.drop i)).head?)
      (g (lexemes (stream.tokens.drop i)).head?) c d from
    (here bound (steps + 1)).shift (Nat.le_refl i) (by simp)
  cases head : (lexemes (stream.tokens.drop i)).head? with
  | none =>
    refine none (Nat.le_antisymm bound ?_)
    simpa [lexemes] using head
  | some l =>
    refine some l (Nat.lt_of_not_le fun beyond => ?_) head
    rw [List.drop_eq_nil_of_le beyond] at head
    cases head

theorem token (inside : i < stream.tokens.length) :
    ((stream.tokens.drop i).head?.map Token.lexeme).isSome = true := by
  simpa [List.head?_drop] using inside

theorem advance (inside : i < stream.tokens.length) :
    ShadowsAt stream i Guarded.advance Parser.advance (1 - rate) d := by
  intro bound steps
  rw [Guarded.advance_eq (look bound) (token inside), Parser.advance, List.drop_drop]
  exact .ok (Nat.le_succ i) inside (by unfold rate; push_cast; omega)

/-- A step to the next place, which the token pays for. -/
theorem advance_bind {p : Guarded α} {q : Parser α} (inside : i < stream.tokens.length)
    (h : ShadowsAt stream (i + 1) p q c d) :
    ShadowsAt stream i (Guarded.advance >>= fun _ => p) (Parser.advance >>= fun _ => q)
      (1 - rate + c) (1 - rate + d) := by
  intro bound steps
  rw [Guarded.advance_bind (look bound) (token inside), Parser.advance_bind, List.drop_drop]
  exact (h inside (steps + 1)).shift (Nat.le_succ i) (by push_cast; unfold rate; omega)

/-- A step at the end, which nothing pays for. -/
theorem advance_bind_finish {p : Guarded α} {q : Parser α} (finish : i = stream.tokens.length)
    (h : ShadowsAt stream i p q c d) :
    ShadowsAt stream i (Guarded.advance >>= fun _ => p) (Parser.advance >>= fun _ => q)
      (1 + c) (1 + d) := by
  intro bound steps
  have none : stream.tokens.drop i = [] := List.drop_eq_nil_of_le (by omega)
  rw [Guarded.advance_bind_none (look bound) (by simp [none]), Parser.advance_bind,
    show (stream.tokens.drop i).drop 1 = stream.tokens.drop i by simp [none]]
  exact (h bound (steps + 1)).shift (Nat.le_refl i) (by simp)

theorem fail (wanted : Wanted) : ShadowsAt stream i (Guarded.fail wanted : Guarded α)
    (Parser.fail wanted) c 1 := by
  intro bound steps
  rw [Guarded.fail_eq (look bound), Parser.fail]
  exact Agrees.error bound (by unfold rate; omega)

theorem valued (value : Except NumeralError α) :
    ShadowsAt stream i (Guarded.valued value) (Parser.valued value) 0 0 := by
  cases value with
  | ok a => exact .pure a
  | error e =>
    intro bound steps
    change Agrees stream i steps 0 0 _
      (.error (.refused ((Failure.numeral e).inStream stream)), ⟨i, steps + 0⟩)
    exact .error bound (by unfold rate; push_cast; omega)

end ShadowsAt

namespace Shadows

variable {first : Nat} {p : Guarded α} {q : Parser α}

theorem mono (h : Shadows stream first p q c₁ d₁) (hc : c₁ ≤ c) (hd : d₁ ≤ d) :
    Shadows stream first p q c d := fun i le => (h i le).mono hc hd

theorem pure (a : α) : Shadows stream first (pure a) (pure a) 0 0 := fun _ _ => .pure a

theorem bind {f : α → Guarded β} {g : α → Parser β} (hp : Shadows stream first p q c₁ d₁)
    (hf : ∀ a, Shadows stream first (f a) (g a) c d) :
    Shadows stream first (p >>= f) (q >>= g) (c₁ + c) (max d₁ (c₁ + d)) :=
  fun i le => (hp i le).bind fun a j onward _ => hf a j (Nat.le_trans le onward)

theorem map (h : Shadows stream first p q c d) (g : α → β) :
    Shadows stream first (g <$> p) (g <$> q) c d := fun i le => (h i le).map g

theorem discard (h : Shadows stream first p q c d) :
    Shadows stream first (discard p) (discard q) c d := h.map _

theorem call (h : Shadows stream first p q c d) :
    Shadows stream first (Guarded.call p) q (1 + c) (1 + d) := fun i le => (h i le).call

theorem consuming (h : Shadows stream first p q c d) (takes : Consumes q) :
    Shadows stream first (Guarded.consuming p) q c d :=
  fun i le => (h i le).consuming fun _ _ run => takes run

/-- One of two parsers, which have the same bounds. -/
theorem ite {p' : Guarded α} {q' : Parser α} (h : Shadows stream first p q c d)
    (h' : Shadows stream first p' q' c d) (b : Bool) :
    Shadows stream first (if b then p else p') (if b then q else q') c d := by
  cases b
  · exact h'
  · exact h

end Shadows

/-! ## Single tokens -/

section

variable {first : Nat}

theorem shadows_mark (m : Mark) :
    Shadows stream first (Guarded.mark m) (mark m) (3 - rate) 3 := by
  intro i _
  refine (ShadowsAt.call (.peek (c := 1 - rate) (d := 1) ?_ ?_)).mono (by decide) (by decide)
  · intro _
    exact .fail _
  · intro l inside _
    by_cases here : l = .mark m
    · simpa [here] using ShadowsAt.advance inside
    · simpa [here] using ShadowsAt.fail (.kind (.mark m))

theorem shadows_next? (l : Lexeme) :
    Shadows stream first (Guarded.next? l) (next? l) 2 2 := by
  intro i _
  refine (ShadowsAt.call (.peek (c := 0) (d := 0) ?_ ?_)).mono (by decide) (by decide)
  · intro _
    exact .pure false
  · intro l' inside _
    by_cases here : l' = l
    · simpa [here] using (ShadowsAt.advance_bind inside (.pure true)).mono (by decide) (by decide)
    · simpa [here] using ShadowsAt.pure false

theorem shadows_identifier :
    Shadows stream first Guarded.identifier identifier (3 - rate) 3 := by
  intro i _
  refine (ShadowsAt.call (.peek (c := 1 - rate) (d := 1) ?_ ?_)).mono (by decide) (by decide)
  · intro _
    exact .fail _
  · rintro (_ | _ | name | _ | _) inside _
    case identifier =>
      exact (ShadowsAt.advance_bind inside (.pure name)).mono (by decide) (by decide)
    all_goals exact .fail _

theorem shadows_string :
    Shadows stream first Guarded.string string (3 - rate) 3 := by
  intro i _
  refine (ShadowsAt.call (.peek (c := 1 - rate) (d := 1) ?_ ?_)).mono (by decide) (by decide)
  · intro _
    exact .fail _
  · rintro (_ | _ | _ | _ | content) inside _
    case string =>
      exact (ShadowsAt.advance_bind inside (.pure content)).mono (by decide) (by decide)
    all_goals exact .fail _

theorem shadows_integer :
    Shadows stream first Guarded.integer integer (3 - rate) 3 := by
  intro i _
  refine (ShadowsAt.call (.peek (c := 1 - rate) (d := 1) ?_ ?_)).mono (by decide) (by decide)
  · intro _
    exact .fail _
  · rintro (_ | _ | _ | n | _) inside _
    case numeral =>
      have valued : ShadowsAt stream i (Guarded.advance >>= fun _ => Guarded.valued n.integer)
          (advance >>= fun _ => valued n.integer) (1 - rate) 1 :=
        (ShadowsAt.advance_bind inside (.valued _)).mono (by decide) (by decide)
      change ShadowsAt stream i (if n.isInteger = true then _ else _)
        (if n.isInteger = true then _ else _) _ _
      cases n.isInteger
      · exact .fail _
      · exact valued
    all_goals exact .fail _

/-- The end is taken as an empty text. -/
theorem shadows_anyToken :
    Shadows stream first Guarded.anyToken anyToken 3 3 := by
  intro i _
  refine (ShadowsAt.call (.peek (c := 1) (d := 1) ?_ ?_)).mono (by decide) (by decide)
  · intro finish
    exact .advance_bind_finish finish (.pure _)
  · intro l inside _
    exact (ShadowsAt.advance_bind inside (.pure _)).mono (by decide) (by decide)

theorem shadows_separator :
    Shadows stream first Guarded.separator separator 2 2 := by
  intro i _
  refine (ShadowsAt.call (.peek (c := 0) (d := 0) ?_ ?_)).mono (by decide) (by decide)
  · intro _
    exact .pure ()
  · intro l inside _
    by_cases here : some l = some (.mark .comma) ∨ some l = some (.mark .semicolon)
    · simpa only [here, if_true] using (ShadowsAt.advance inside).mono (by decide) (Int.le_refl _)
    · simpa only [here, if_false] using ShadowsAt.pure ()

/-- A part that may be missing, which pays for itself if it is there. -/
theorem shadows_optionally {p : Guarded α} {q : Parser α} (l : Lexeme)
    (h : Shadows stream first p q c d) (hc : c ≤ 0) (hd : 0 ≤ d) :
    Shadows stream first (Guarded.optionally l p) (optionally l q) 2 (2 + d) := by
  have part (b : Bool) : Shadows stream first (if b then some <$> p else pure none)
      (if b then some <$> q else pure none) 0 d :=
    .ite ((h.map some).mono hc (Int.le_refl d)) ((Shadows.pure none).mono (Int.le_refl 0) hd) b
  exact ((shadows_next? l).bind part).mono (Int.le_refl _) (by omega)

/-! ## Repetition -/

theorem Parser.atClosing_eq (closing : Option Mark) (tokens : List Token) :
    atClosing closing tokens = .ok ((lexemes tokens).head?.elim true fun l =>
      closing.any fun m => l = .mark m, tokens) := by
  have run := atClosing_bind closing Pure.pure tokens
  rwa [bind_pure] at run

theorem Parser.of_atClosing {closing : Option Mark} {b : Bool} {tokens rest : List Token}
    (h : atClosing closing tokens = .ok (b, rest)) :
    tokens = rest ∧ (b = false → rest ≠ []) := by
  rw [atClosing_eq] at h
  cases h
  refine ⟨rfl, ?_⟩
  rintro go rfl
  cases go

/-- A repetition is no turn or one and the others. -/
theorem Parser.manyUntil_eq {item : Parser α} (progress : Progresses item)
    (closing : Option Mark) :
    manyUntil closing item = do
      if ← atClosing closing then return []
      else
        let first ← item
        let others ← manyUntil closing item
        return first :: others := by
  funext tokens
  rw [atClosing_bind]
  cases tokens with
  | nil => exact manyUntil_nil closing item
  | cons t ts =>
    split
    · next stop =>
      rw [manyUntil, List.length_cons, manyUpTo, atClosing_bind, if_pos stop]
    · next go =>
      refine manyUntil_cons progress fun m eq here => go ?_
      simp [eq, here]

theorem shadows_atClosing (closing : Option Mark) :
    Shadows stream first (Guarded.atClosing closing) (atClosing closing) 2 2 := by
  intro i _
  refine (ShadowsAt.call (.peek (c := 0) (d := 0) ?_ ?_)).mono (by decide) (by decide)
  · intro _
    exact .pure true
  · intro l _ _
    exact .pure _

section

variable {item : Guarded α} {q : Parser α} {closing : Option Mark}

/-- By induction on the bound: every turn takes a token, and pays for itself. -/
theorem shadowsAt_manyUpTo (progress : Progresses q)
    (turn : ∀ i, first ≤ i → i < stream.tokens.length → ShadowsAt stream i item q (-3) d)
    (hd : 0 ≤ d) (bound : Nat) (le : first ≤ i) (enough : stream.tokens.length < i + bound) :
    ShadowsAt stream i (Guarded.manyUpTo closing item bound) (manyUntil closing q) 2 (3 + d) := by
  induction bound generalizing i with
  | zero => exact fun bound => by omega
  | succ bound ih =>
    rw [manyUntil_eq progress]
    refine ((shadows_atClosing closing i le).bind (c := 0) (d := 1 + d) ?_).mono (by decide)
      (by omega)
    intro b j onward run
    obtain ⟨-, left⟩ := of_atClosing run
    cases b with
    | true => exact (ShadowsAt.pure []).mono (Int.le_refl 0) (by omega)
    | false =>
      rw [if_neg Bool.false_ne_true, if_neg Bool.false_ne_true]
      intro here
      have inside : j < stream.tokens.length :=
        Nat.lt_of_not_le fun beyond => left rfl (List.drop_eq_nil_of_le beyond)
      have shorter : ∀ ⦃a rest⦄, q (stream.tokens.drop j) = .ok (a, rest) →
          rest.length < (stream.tokens.drop j).length := by
        rw [List.drop_eq_getElem_cons inside]
        exact fun a rest run => Nat.lt_succ_of_le (progress run)
      have first := ((turn j (Nat.le_trans le onward) inside).call).consuming shorter
      refine ((first.bind (c := 2) (d := 3 + d) fun a k onward' run' => ?_).mono (by decide)
        (by omega)) here
      have taken := shorter run'
      simp only [List.length_drop] at taken
      have others := ih (Nat.le_trans le (Nat.le_trans onward onward')) (by omega)
      exact (others.map (a :: ·)).mono (Int.le_refl _) (Int.le_refl _)

theorem shadows_manyUntil (progress : Progresses q)
    (turn : ∀ i, first ≤ i → i < stream.tokens.length → ShadowsAt stream i item q (-3) d)
    (hd : 0 ≤ d) :
    Shadows stream first (Guarded.manyUntil closing item) (manyUntil closing q) 3 (4 + d) := by
  intro i le
  have enough : stream.tokens.length < i + stream.entries.length := by
    rw [length_entries]
    omega
  have turns : ShadowsAt stream i (Guarded.manyUpTo closing item stream.entries.length)
      (manyUntil closing q) 2 (3 + d) := shadowsAt_manyUpTo progress turn hd _ le enough
  exact (ShadowsAt.call turns).mono (by decide) (by omega)

theorem shadows_manyClosed (m : Mark) (progress : Progresses q)
    (turn : ∀ i, first ≤ i → i < stream.tokens.length → ShadowsAt stream i item q (-3) d)
    (hd : 2 ≤ d) :
    Shadows stream first (Guarded.manyClosed m item) (manyClosed m q) (6 - rate) (4 + d) :=
  ((shadows_manyUntil progress turn (by omega)).bind fun items =>
    (shadows_mark m).bind fun _ => .pure items).mono (by decide) (by unfold rate; omega)

end

/-! ## Annotations and types -/

/-- The key of an annotation pays, since none is read at the end. -/
theorem shadowsAt_annotation (inside : i < stream.tokens.length) :
    ShadowsAt stream i Guarded.annotation annotation (-3) 3 := by
  have key : ShadowsAt stream i Guarded.anyToken anyToken (3 - rate) 3 :=
    (ShadowsAt.call (.peek (c := 1 - rate) (d := 1) (fun finish => by omega) fun l _ _ =>
      (ShadowsAt.advance_bind inside (.pure _)).mono (by decide) (by decide))).mono
      (by decide) (by decide)
  rw [annotation_eq]
  refine (key.bind (c := 4) (d := 5) fun key j onward _ => ?_).mono (by decide) (by decide)
  have others : Shadows stream j _ _ _ _ :=
    (shadows_optionally (.mark .equals) shadows_string (by decide) (by decide)).bind fun value =>
      shadows_separator.bind fun _ => .pure (key, value.getD [])
  exact (others j (Nat.le_refl j)).mono (by decide) (by decide)

theorem shadows_annotations :
    Shadows stream first Guarded.annotations annotations 3 10 := by
  have list : Shadows stream first _ _ _ _ := (shadows_manyClosed .rightParen progresses_annotated
    (fun i _ inside => shadowsAt_annotation inside) (by decide)).bind fun entries =>
      .pure (Assoc.ofList entries)
  exact ((shadows_next? (.mark .leftParen)).bind fun b =>
    .ite (list.mono (c := 0) (d := 7) (by decide) (by decide))
      ((Shadows.pure []).mono (by decide) (by decide)) b).call.mono (by decide) (by decide)

theorem shadows_nativeType :
    Shadows stream first Guarded.nativeType nativeType 3 6 :=
  ((shadows_next? (.identifier "cpp_type")).bind fun b =>
    .ite (shadows_string.discard.mono (c := 0) (d := 3) (by decide) (by decide))
      ((Shadows.pure ()).mono (by decide) (by decide)) b).call.mono (by decide) (by decide)

theorem shadows_contained {content : Guarded α} {q : Parser α}
    (h : Shadows stream first content q (8 - rate) 5) :
    Shadows stream first (Guarded.contained content) (contained q) (20 - 3 * rate) 6 := by
  refine (shadows_nativeType.bind fun _ => (shadows_mark .leftAngle).bind fun _ => h.bind fun a =>
    (shadows_mark .rightAngle).bind fun _ => shadows_annotations.discard.bind fun _ =>
      .pure a).mono (by decide) (by decide)

theorem shadows_typeName :
    Shadows stream first Guarded.typeName typeName (6 - rate) 3 :=
  (shadows_identifier.bind fun _ => shadows_annotations.bind fun _ => .pure _).mono
    (by decide) (by decide)

/-- One level of a type, whose keyword pays. -/
theorem shadowsAt_typeRefOver {inner : Guarded TypeRef} {q : Parser TypeRef}
    (h : Shadows stream (i + 1) inner q (8 - rate) 5) :
    ShadowsAt stream i (Guarded.typeRefOver inner) (typeRefOver q) (7 - rate) 4 := by
  have name : ShadowsAt stream i _ _ _ _ := shadows_typeName i (Nat.le_refl i)
  have entry := h.bind fun key => (shadows_mark .comma).bind fun _ => h.bind fun value =>
    .pure (TypeRef.map key value)
  have whole {p : Guarded TypeRef} {q : Parser TypeRef}
      (inside : i < stream.tokens.length)
      (h : Shadows stream (i + 1) p q (20 - 3 * rate) 6) :
      ShadowsAt stream i (Guarded.advance >>= fun _ => p) (advance >>= fun _ => q) (6 - rate) 3 :=
    (ShadowsAt.advance_bind inside (h (i + 1) (Nat.le_refl _))).mono (by decide) (by decide)
  refine (ShadowsAt.peek (c := 6 - rate) (d := 3) (fun _ => name) ?_).mono (by decide) (by decide)
  rintro (k | _ | _ | _ | _) inside _
  case keyword =>
    cases k
    case list =>
      exact whole inside (((shadows_contained h).bind fun t => .pure (TypeRef.list t)).mono
        (by decide) (by decide))
    case set =>
      exact whole inside (((shadows_contained h).bind fun t => .pure (TypeRef.set t)).mono
        (by decide) (by decide))
    case map =>
      exact whole inside (shadows_contained (entry.mono (by decide) (by decide)))
    all_goals exact name
  all_goals exact name

theorem consumes_typeRef : Consumes typeRef := sound_typeRef.consumes fun _ _ form => form.ne_nil

/-- By induction on the bound: a level goes down behind its keyword only. -/
theorem shadowsAt_typeRefUpTo (bound : Nat) (enough : stream.tokens.length < i + bound) :
    ShadowsAt stream i (Guarded.typeRefUpTo bound) typeRef (8 - rate) 5 := by
  induction bound generalizing i with
  | zero => exact fun bound => by omega
  | succ bound ih =>
    have inner : Shadows stream (i + 1) (Guarded.typeRefUpTo bound) typeRef (8 - rate) 5 :=
      fun j le => ih (by omega)
    have level := (shadowsAt_typeRefOver inner).congr (congrFun typeRef_eq _)
    exact (level.call.consuming fun _ _ run => consumes_typeRef run).mono (by decide) (by decide)

theorem shadows_typeRef : Shadows stream first Guarded.typeRef typeRef (8 - rate) 5 :=
  fun i _ => shadowsAt_typeRefUpTo _ (by rw [length_entries]; omega)

/-! ## Constant values -/

theorem consumes_constValue : Consumes constValue :=
  sound_constValue.consumes fun _ _ form => form.ne_nil

/-- One level of a value, whose first token pays. -/
theorem shadowsAt_constValueOver {inner : Guarded ConstValue}
    (h : Shadows stream (i + 1) inner constValue (3 - rate) 3) :
    ShadowsAt stream i (Guarded.constValueOver inner) (constValueOver constValue)
      (2 - rate) 2 := by
  have atom {p : Guarded ConstValue} {q : Parser ConstValue} (inside : i < stream.tokens.length)
      (h : Shadows stream (i + 1) p q 0 (rate - 1)) :
      ShadowsAt stream i (Guarded.advance >>= fun _ => p) (advance >>= fun _ => q) (1 - rate) 1 :=
    (ShadowsAt.advance_bind inside (h (i + 1) (Nat.le_refl _))).mono (by decide) (by decide)
  have item : Shadows stream (i + 1) (do
      let item ← inner
      Guarded.separator
      return item) (do
      let item ← constValue
      separator
      return item) (-3) 3 :=
    (h.bind fun item => shadows_separator.bind fun _ => .pure item).mono (by decide) (by decide)
  have entry : Shadows stream (i + 1) (do
      let key ← inner
      Guarded.mark .colon
      let value ← inner
      Guarded.separator
      return (key, value)) (do
      let key ← constValue
      mark .colon
      let value ← constValue
      separator
      return (key, value)) (-3) 3 :=
    (h.bind fun key => (shadows_mark .colon).bind fun _ => h.bind fun value =>
      shadows_separator.bind fun _ => .pure (key, value)).mono (by decide) (by decide)
  have separate : Progresses (do
      let item ← constValue
      separator
      return item) := by
    refine (sound_separated sound_constValue).progresses ?_
    rintro _ _ ⟨form, -⟩
    simp [form.ne_nil]
  have separateEntry : Progresses (do
      let key ← constValue
      mark .colon
      let value ← constValue
      separator
      return (key, value)) := by
    refine (sound_entry sound_constValue).progresses ?_
    rintro _ _ ⟨⟨_, -⟩, -⟩
    simp
  refine (ShadowsAt.peek (c := 1 - rate) (d := 1) (fun _ => .fail _) ?_).mono (by decide)
    (by decide)
  rintro (k | m | name | n | content) inside _
  case keyword =>
    cases k
    case trueValue => exact atom inside ((Shadows.pure _).mono (by decide) (by decide))
    case falseValue => exact atom inside ((Shadows.pure _).mono (by decide) (by decide))
    all_goals exact .fail _
  case mark =>
    cases m
    case leftBracket =>
      exact atom inside (((shadows_manyClosed _ separate (fun j le _ => item j le)
        (by decide)).bind fun items => .pure (ConstValue.list items)).mono (by decide) (by decide))
    case leftBrace =>
      exact atom inside (((shadows_manyClosed _ separateEntry (fun j le _ => entry j le)
        (by decide)).bind fun entries => .pure (ConstValue.map entries)).mono (by decide)
        (by decide))
    all_goals exact .fail _
  case identifier => exact atom inside ((Shadows.pure _).mono (by decide) (by decide))
  case string => exact atom inside ((Shadows.pure _).mono (by decide) (by decide))
  case numeral =>
    have valued {α : Type} (value : Except NumeralError α) (g : α → ConstValue) :
        Shadows stream (i + 1) (Guarded.valued value >>= fun a => pure (g a))
          (valued value >>= fun a => pure (g a)) 0 (rate - 1) :=
      fun j _ => ((ShadowsAt.valued value).bind fun a _ _ _ => .pure (g a)).mono (by decide)
        (by decide)
    exact atom inside (.ite (valued _ _) (valued _ _) n.isInteger)

theorem shadowsAt_constValueUpTo (bound : Nat) (enough : stream.tokens.length < i + bound) :
    ShadowsAt stream i (Guarded.constValueUpTo bound) constValue (3 - rate) 3 := by
  induction bound generalizing i with
  | zero => exact fun bound => by omega
  | succ bound ih =>
    have inner : Shadows stream (i + 1) (Guarded.constValueUpTo bound) constValue (3 - rate) 3 :=
      fun j le => ih (by omega)
    have level := (shadowsAt_constValueOver inner).congr (congrFun constValue_eq _)
    exact (level.call.consuming fun _ _ run => consumes_constValue run).mono (by decide)
      (by decide)

theorem shadows_constValue : Shadows stream first Guarded.constValue constValue (3 - rate) 3 :=
  fun i _ => shadowsAt_constValueUpTo _ (by rw [length_entries]; omega)

/-! ## Fields and functions -/

theorem shadows_fieldId : Shadows stream first Guarded.fieldId fieldId 1 4 := by
  intro i _
  have number : Shadows stream i _ _ _ _ := shadows_integer.bind fun id =>
    (shadows_mark .colon).bind fun _ => .pure (some id)
  refine (ShadowsAt.peek (c := 0) (d := 3) ?_ ?_).mono (by decide) (by decide)
  · intro _
    exact (ShadowsAt.pure none).mono (by decide) (by decide)
  · rintro (_ | _ | _ | n | _) _ _
    case numeral =>
      exact Shadows.ite (number.mono (by decide) (by decide))
        ((Shadows.pure none).mono (by decide) (by decide)) n.isInteger i (Nat.le_refl i)
    all_goals exact (ShadowsAt.pure none).mono (by decide) (by decide)

theorem shadows_optionality : Shadows stream first Guarded.optionality optionality 4 4 :=
  ((shadows_next? (.keyword .optional)).bind fun b =>
    .ite ((Shadows.pure true).mono (c := 2) (d := 2) (by decide) (by decide))
      (((shadows_next? (.keyword .required)).discard.bind fun _ => .pure false).mono (by decide)
        (by decide)) b).mono (by decide) (by decide)

theorem consumes_field : Consumes field := by
  refine sound_field.consumes ?_
  rintro _ _ ⟨-, -, -, -, -, -⟩
  simp

theorem shadows_field : Shadows stream first Guarded.field field (24 - 2 * rate) 11 := by
  have parts : Shadows stream first _ _ _ _ := shadows_fieldId.bind fun id =>
    shadows_optionality.bind fun optional => shadows_typeRef.bind fun type =>
    shadows_identifier.bind fun name =>
    (shadows_optionally (.mark .equals) shadows_constValue (by decide) (by decide)).bind
      fun default =>
    shadows_annotations.discard.bind fun _ => shadows_separator.bind fun _ =>
    .pure { name, type, id, optional, default : Field }
  rw [← field_eq] at parts
  exact (parts.call.consuming consumes_field).mono (by decide) (by decide)

theorem shadows_resultType : Shadows stream first Guarded.resultType resultType 2 7 :=
  ((shadows_next? (.identifier TypeRef.voidTag)).bind fun b =>
    .ite ((Shadows.pure _).mono (c := 0) (d := 5) (by decide) (by decide))
      (shadows_typeRef.mono (by decide) (by decide)) b).mono (by decide) (by decide)

theorem shadows_parameters : Shadows stream first Guarded.parameters parameters (9 - 2 * rate) 3 :=
  ((shadows_mark .leftParen).bind fun _ => shadows_manyClosed .rightParen progresses_field
    (fun i le _ => (shadows_field i le).mono (by decide) (Int.le_refl _)) (by decide)).mono
    (by decide) (by decide)

theorem consumes_function : Consumes function := by
  refine sound_function.consumes ?_
  rintro _ _ ⟨-, -, -, -, -, -⟩
  simp

theorem shadows_function : Shadows stream first Guarded.function function (24 - 3 * rate) 10 := by
  have parts : Shadows stream first _ _ _ _ := (shadows_next? (.keyword .oneway)).bind
    fun oneway => shadows_resultType.bind fun returns => shadows_identifier.bind fun name =>
    shadows_parameters.bind fun inputs =>
    (shadows_optionally (.keyword .throws) shadows_parameters (by decide) (by decide)).bind
      fun throws =>
    shadows_annotations.discard.bind fun _ => shadows_separator.bind fun _ =>
    .pure { name, returns, parameters := inputs, throws := throws.getD [], oneway : Function }
  rw [← function_eq] at parts
  exact (parts.call.consuming consumes_function).mono (by decide) (by decide)

/-! ## Definitions -/

theorem shadows_record (form : RecordForm) :
    Shadows stream first (Guarded.record form) (record form) 0 4 :=
  (shadows_identifier.bind fun name => (shadows_next? (.identifier "xsd_all")).discard.bind fun _ =>
    (shadows_mark .leftBrace).bind fun _ => (shadows_manyClosed .rightBrace progresses_field
      (fun i le _ => (shadows_field i le).mono (by decide) (Int.le_refl _)) (by decide)).bind
    fun fields => shadows_annotations.discard.bind fun _ =>
    .pure (Definition.record form name fields)).call.mono (by decide) (by decide)

theorem shadows_enumValue : Shadows stream first Guarded.enumValue enumValue (-3) 3 := by
  rw [enumValue_eq]
  exact (shadows_identifier.bind fun name =>
    (shadows_optionally (.mark .equals) shadows_integer (by decide) (by decide)).bind fun number =>
    shadows_annotations.discard.bind fun _ => shadows_separator.bind fun _ =>
    .pure { name, number : EnumValue }).mono (by decide) (by decide)

theorem shadows_enum : Shadows stream first Guarded.enum enum 0 4 :=
  (shadows_identifier.bind fun name => (shadows_mark .leftBrace).bind fun _ =>
    (shadows_manyClosed .rightBrace progresses_enumValue (fun i le _ => shadows_enumValue i le)
      (by decide)).bind fun values => shadows_annotations.discard.bind fun _ =>
    .pure (Definition.enum name values)).call.mono (by decide) (by decide)

theorem shadows_stringEnum : Shadows stream first Guarded.stringEnum stringEnum 0 4 := by
  have item : Shadows stream first Guarded.enumString (do
      discard string
      separator) (-3) 3 :=
    (shadows_string.discard.bind fun _ => shadows_separator).mono (by decide) (by decide)
  exact (shadows_identifier.bind fun name => (shadows_mark .leftBrace).bind fun _ =>
    (shadows_manyClosed .rightBrace progresses_enumString (fun i le _ => item i le)
      (by decide)).discard.bind fun _ => shadows_annotations.discard.bind fun _ =>
    .pure (Definition.unsupported "Senum" name)).call.mono (by decide) (by decide)

theorem shadows_typedef : Shadows stream first Guarded.typedef typedef 0 6 :=
  (shadows_typeRef.bind fun type => shadows_identifier.bind fun name =>
    shadows_annotations.discard.bind fun _ => shadows_separator.bind fun _ =>
    .pure (Definition.typedef name type)).call.mono (by decide) (by decide)

theorem shadows_service : Shadows stream first Guarded.service service 0 4 := by
  have parts : Shadows stream first _ _ _ _ := shadows_identifier.bind fun name =>
    (shadows_optionally (.keyword .extendsService) shadows_identifier (by decide)
      (by decide)).bind fun base =>
    (shadows_mark .leftBrace).bind fun _ => (shadows_manyClosed .rightBrace progresses_function
      (fun i le _ => (shadows_function i le).mono (by decide) (Int.le_refl _)) (by decide)).bind
    fun functions => shadows_annotations.discard.bind fun _ =>
    .pure (Definition.service name base functions)
  rw [← service_eq] at parts
  exact parts.call.mono (by decide) (by decide)

theorem shadows_const : Shadows stream first Guarded.const const 0 6 :=
  (shadows_typeRef.bind fun type => shadows_identifier.bind fun name =>
    (shadows_mark .equals).bind fun _ => shadows_constValue.bind fun value =>
    shadows_separator.bind fun _ => .pure (Definition.const name type value)).call.mono
    (by decide) (by decide)

/-! ## Documents -/

/-- The same keywords begin statements, which pay but for their keyword. -/
theorem shadows_statementOf (stream : TokenStream) (first : Nat) (k : Keyword) :
    (Guarded.statementOf k = none ∧ statementOf k = none) ∨
      ∃ p q, Guarded.statementOf k = some p ∧ statementOf k = some q ∧
        Shadows stream first p q 0 6 := by
  cases k
  case includeFile =>
    exact .inr ⟨_, _, rfl, rfl, (shadows_string.map _).mono (by decide) (by decide)⟩
  case includeNative =>
    exact .inr ⟨_, _, rfl, rfl, (shadows_string.map _).mono (by decide) (by decide)⟩
  case namespaceOf =>
    exact .inr ⟨_, _, rfl, rfl, (shadows_anyToken.bind fun scope => shadows_identifier.bind
      fun name => .pure (Statement.namespace_ scope name)).mono (by decide) (by decide)⟩
  case const => exact .inr ⟨_, _, rfl, rfl, shadows_const.map _⟩
  case typedef => exact .inr ⟨_, _, rfl, rfl, shadows_typedef.map _⟩
  case enum =>
    exact .inr ⟨_, _, rfl, rfl, (shadows_enum.map _).mono (by decide) (by decide)⟩
  case senum =>
    exact .inr ⟨_, _, rfl, rfl, (shadows_stringEnum.map _).mono (by decide) (by decide)⟩
  case struct =>
    exact .inr ⟨_, _, rfl, rfl, ((shadows_record _).map _).mono (by decide) (by decide)⟩
  case union =>
    exact .inr ⟨_, _, rfl, rfl, ((shadows_record _).map _).mono (by decide) (by decide)⟩
  case exception =>
    exact .inr ⟨_, _, rfl, rfl, ((shadows_record _).map _).mono (by decide) (by decide)⟩
  case service =>
    exact .inr ⟨_, _, rfl, rfl, (shadows_service.map _).mono (by decide) (by decide)⟩
  all_goals exact .inl ⟨rfl, rfl⟩

theorem shadows_statement : Shadows stream first Guarded.statement statement (-3) 2 := by
  intro i _
  refine (ShadowsAt.peek (c := 7 - rate) (d := 1) (fun _ => .fail _) ?_).mono (by decide)
    (by decide)
  rintro (k | m | _ | _ | _) inside _
  case keyword =>
    rcases shadows_statementOf stream (i + 1) k with ⟨none, none'⟩ | ⟨p, q, some, some', shadows⟩
    · simpa only [none, none'] using ShadowsAt.fail .definition
    · simpa only [some, some'] using
        (ShadowsAt.advance_bind inside (shadows (i + 1) (Nat.le_refl _))).mono (by decide)
          (by decide)
  case mark =>
    have separator := (ShadowsAt.advance_bind inside (.pure Statement.separator)).mono
      (c := 7 - rate) (d := 1) (by decide) (by decide)
    cases m
    case comma => exact separator
    case semicolon => exact separator
    all_goals exact .fail _
  all_goals exact .fail _

theorem shadows_document : Shadows stream first Guarded.document document 3 6 :=
  ((shadows_manyUntil progresses_statement (fun i le _ => shadows_statement i le)
    (by decide)).bind fun statements => .pure (Document.ofStatements statements)).mono
    (by decide) (by decide)

end

/-- **Reading ends within a number of steps that is linear in the number of
    tokens.**  From the first entry on, guarded reading comes to the document or
    the error that reading comes to, and so to none of the faults: whatever it
    looks at is there, every turn of a loop and every type, value, field and
    function read takes a token, and no bound on turns or levels is reached. -/
theorem Guarded.parse_spec (stream : TokenStream) :
    (Guarded.parse stream.entries).1 = stream.parse.mapError .refused ∧
    (∀ f, (Guarded.parse stream.entries).1 ≠ .error (.fault f)) ∧
    (Guarded.parse stream.entries).2.place ≤ stream.tokens.length ∧
    (Guarded.parse stream.entries).2.steps ≤ 16 * stream.tokens.length + 6 := by
  have run : Agrees stream 0 0 _ _ _ _ := shadows_document 0 (Nat.le_refl 0) (Nat.zero_le _) 0
  rw [List.drop_zero] at run
  rw [TokenStream.parse, Guarded.parse]
  generalize Parser.document stream.tokens = x at run
  generalize Guarded.document stream.entries ⟨0, 0⟩ = y at run
  cases run with
  | ok _ bound cost =>
    unfold rate at cost
    refine ⟨rfl, fun f h => ?_, bound, by dsimp only; omega⟩
    cases h
  | error bound cost =>
    unfold rate at cost
    refine ⟨rfl, fun f h => ?_, bound, by dsimp only; omega⟩
    cases h

/-- A text that ends within two lists, of eight tokens. -/
example : (Guarded.parse (TokenStream.ofText "const a b = [[-1, ").entries).2 = ⟨8, 46⟩ := by
  decide +kernel

end IdlFlow
