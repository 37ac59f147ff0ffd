/-
  How parsers read.

  * `Sound p Form`: what `p` takes off the tokens is a form of what it returns;
  * `Reads p s a r`: on tokens that say `s`, `p` returns `a` and leaves tokens
    that say `r`;
  * both go through sequences (`Sound.bind`, `Reads.bind`), and the lemmas on
    single tokens give them for the parsers that all others are made of.
-/
import IdlFlow.Proofs.Grammar

namespace IdlFlow.Parser

open Grammar

variable {α β : Type}

/-- What tokens say. -/
def lexemes (tokens : List Token) : List Lexeme := tokens.map Token.lexeme

@[simp] theorem lexemes_nil : lexemes [] = [] := rfl

@[simp] theorem lexemes_cons (t : Token) (ts : List Token) :
    lexemes (t :: ts) = t.lexeme :: lexemes ts := rfl

@[simp] theorem length_lexemes (tokens : List Token) : (lexemes tokens).length = tokens.length :=
  List.length_map ..

/-! ## Running -/

theorem bind_eq_ok {p : Parser α} {f : α → Parser β} {tokens rest : List Token} {b : β} :
    (p >>= f) tokens = .ok (b, rest) ↔
      ∃ a mid, p tokens = .ok (a, mid) ∧ f a mid = .ok (b, rest) := by
  change (p tokens >>= fun x => f x.1 x.2) = _ ↔ _
  cases h : p tokens with
  | error e => simp [bind, Except.bind]
  | ok x =>
    constructor
    · intro hf; exact ⟨x.1, x.2, rfl, hf⟩
    · rintro ⟨a, mid, hx, hf⟩; cases hx; exact hf

theorem bind_of_ok {p : Parser α} {f : α → Parser β} {tokens mid : List Token} {a : α}
    (h : p tokens = .ok (a, mid)) : (p >>= f) tokens = f a mid := by
  change (p tokens >>= fun x => f x.1 x.2) = _
  rw [h]; rfl

theorem pure_eq_ok {a b : α} {tokens rest : List Token} :
    (pure a : Parser α) tokens = .ok (b, rest) ↔ a = b ∧ tokens = rest := by
  change Except.ok (a, tokens) = _ ↔ _
  simp

theorem map_eq (g : α → β) (p : Parser α) : g <$> p = p >>= fun a => pure (g a) := rfl

theorem discard_eq (p : Parser α) : discard p = p >>= fun _ => pure () := rfl

/-! ## Soundness -/

/-- What the parser takes off the tokens is a form of what it returns. -/
def Sound (p : Parser α) (Form : List Lexeme → α → Prop) : Prop :=
  ∀ ⦃tokens a rest⦄, p tokens = .ok (a, rest) →
    ∃ s, lexemes tokens = s ++ lexemes rest ∧ Form s a

namespace Sound

variable {p : Parser α} {Form : List Lexeme → α → Prop}

/-- The first part of a sequence. -/
theorem bind (hp : Sound p Form) {f : α → Parser β} {tokens rest : List Token} {b : β}
    (h : (p >>= f) tokens = .ok (b, rest)) :
    ∃ a s mid, Form s a ∧ lexemes tokens = s ++ lexemes mid ∧ f a mid = .ok (b, rest) := by
  obtain ⟨a, mid, h₁, h₂⟩ := bind_eq_ok.1 h
  obtain ⟨s, e, hs⟩ := hp h₁
  exact ⟨a, s, mid, hs, e, h₂⟩

theorem map (hp : Sound p Form) {g : α → β} {Form' : List Lexeme → β → Prop}
    (hg : ∀ s a, Form s a → Form' s (g a)) : Sound (g <$> p) Form' := by
  intro tokens b rest h
  rw [map_eq] at h
  obtain ⟨a, s, mid, hs, e, h⟩ := hp.bind h
  obtain ⟨rfl, rfl⟩ := pure_eq_ok.1 h
  exact ⟨s, e, hg s a hs⟩

theorem discard (hp : Sound p Form) : Sound (discard p) fun s _ => ∃ a, Form s a :=
  hp.map (g := fun _ => ()) fun _ a h => ⟨a, h⟩

end Sound

/-! ## Reading -/

/-- On tokens that say `s` the parser returns `a` and leaves tokens that say
    `r`. -/
def Reads (p : Parser α) (s : List Lexeme) (a : α) (r : List Lexeme) : Prop :=
  ∀ tokens, lexemes tokens = s → ∃ rest, p tokens = .ok (a, rest) ∧ lexemes rest = r

namespace Reads

theorem bind {p : Parser α} {f : α → Parser β} {s r r' : List Lexeme} {a : α} {b : β}
    (hp : Reads p s a r) (hf : Reads (f a) r b r') : Reads (p >>= f) s b r' := by
  intro tokens h
  obtain ⟨mid, h₁, hm⟩ := hp tokens h
  obtain ⟨rest, h₂, hr⟩ := hf mid hm
  exact ⟨rest, by rw [bind_of_ok h₁, h₂], hr⟩

theorem pure (a : α) (s : List Lexeme) : Reads (pure a) s a s :=
  fun tokens h => ⟨tokens, rfl, h⟩

theorem map {p : Parser α} {s r : List Lexeme} {a : α} (hp : Reads p s a r) (g : α → β) :
    Reads (g <$> p) s (g a) r := by
  rw [map_eq]
  exact hp.bind (.pure _ _)

theorem discard {p : Parser α} {s r : List Lexeme} {a : α} (hp : Reads p s a r) :
    Reads (discard p) s () r := by
  rw [discard_eq]
  exact hp.bind (.pure _ _)

/-- A parser whose bound is the number of tokens. -/
theorem of_length {p : Nat → Parser α} {s r : List Lexeme} {a : α}
    (h : Reads (p s.length) s a r) : Reads (fun tokens => p tokens.length tokens) s a r := by
  intro tokens e
  have length : tokens.length = s.length := by rw [← length_lexemes, e]
  simpa only [length] using h tokens e

end Reads

/-! ## Single tokens -/

theorem peek_bind (f : Option Lexeme → Parser β) (tokens : List Token) :
    (peek >>= f) tokens = f (lexemes tokens).head? tokens := by
  have run : peek tokens = .ok ((lexemes tokens).head?, tokens) := by
    rw [lexemes, List.head?_map]; rfl
  rw [bind_of_ok run]

theorem advance_bind (f : Unit → Parser β) (tokens : List Token) :
    (advance >>= f) tokens = f () (tokens.drop 1) := rfl

theorem anyToken_bind {tokens : List Token} {l : Lexeme} (h : (lexemes tokens).head? = some l)
    (f : Text → Parser β) : (anyToken >>= f) tokens = f l.value (tokens.drop 1) := by
  rw [anyToken, bind_assoc, peek_bind, h]; rfl

theorem fail_ne_ok {wanted : Wanted} {tokens : List Token} {x : α × List Token} :
    (fail wanted : Parser α) tokens ≠ .ok x := by
  simp [fail]

theorem lexemes_drop {tokens : List Token} {l : Lexeme} (h : (lexemes tokens).head? = some l) :
    lexemes tokens = l :: lexemes (tokens.drop 1) := by
  cases tokens with
  | nil => simp at h
  | cons t ts => simpa using h

theorem reads_peek (s : List Lexeme) : Reads peek s s.head? s := by
  rintro tokens rfl
  exact ⟨tokens, by simp [peek, lexemes], rfl⟩

theorem reads_advance (l : Lexeme) (r : List Lexeme) : Reads advance (l :: r) () r := by
  intro tokens h
  exact ⟨tokens.drop 1, rfl, by cases tokens <;> simp_all⟩

theorem reads_anyToken (l : Lexeme) (r : List Lexeme) : Reads anyToken (l :: r) l.value r :=
  (reads_peek _).bind ((reads_advance l r).bind (.pure _ r))

theorem sound_mark (m : Mark) : Sound (mark m) fun s _ => s = [.mark m] := by
  intro tokens a rest h
  rw [mark, peek_bind] at h
  split at h
  · next head =>
    cases h
    exact ⟨_, lexemes_drop head, rfl⟩
  · exact absurd h fail_ne_ok

theorem reads_mark (m : Mark) (r : List Lexeme) : Reads (mark m) (.mark m :: r) () r :=
  (reads_peek _).bind <| by
    rw [if_pos List.head?_cons]
    exact reads_advance _ r

theorem sound_identifier : Sound identifier IdentifierForm := by
  intro tokens a rest h
  rw [identifier, peek_bind] at h
  rcases head : (lexemes tokens).head? with _ | (_ | _ | name | _ | _) <;> rw [head] at h
  case some.identifier => cases h; exact ⟨_, lexemes_drop head, .mk a⟩
  all_goals exact absurd h fail_ne_ok

theorem reads_identifier (name : Text) (r : List Lexeme) :
    Reads identifier (.identifier name :: r) name r :=
  (reads_peek _).bind ((reads_advance _ r).bind (.pure name r))

theorem sound_string : Sound string StringForm := by
  intro tokens a rest h
  rw [string, peek_bind] at h
  rcases head : (lexemes tokens).head? with _ | (_ | _ | _ | _ | content) <;> rw [head] at h
  case some.string => cases h; exact ⟨_, lexemes_drop head, .mk a⟩
  all_goals exact absurd h fail_ne_ok

theorem reads_string (content : Text) (r : List Lexeme) :
    Reads string (.string content :: r) content r :=
  (reads_peek _).bind ((reads_advance _ r).bind (.pure content r))

theorem valued_eq_ok {value : Except NumeralError α} {a : α} {tokens rest : List Token} :
    valued value tokens = .ok (a, rest) ↔ value = .ok a ∧ tokens = rest := by
  cases value <;> simp [valued]

theorem reads_valued (a : α) (r : List Lexeme) : Reads (valued (.ok a)) r a r :=
  fun tokens h => ⟨tokens, rfl, h⟩

theorem sound_integer : Sound integer IntegerForm := by
  intro tokens a rest h
  rw [integer, peek_bind] at h
  rcases head : (lexemes tokens).head? with _ | (_ | _ | _ | n | _) <;> rw [head] at h
  case some.numeral =>
    change (if n.isInteger = true then _ else _ : Parser Int) tokens = _ at h
    split at h
    · next whole =>
      obtain ⟨value, rfl⟩ := valued_eq_ok.1 h
      exact ⟨_, lexemes_drop head, .mk whole value⟩
    · exact absurd h fail_ne_ok
  all_goals exact absurd h fail_ne_ok

theorem reads_integer {s : List Lexeme} {i : Int} (h : IntegerForm s i) (r : List Lexeme) :
    Reads integer (s ++ r) i r := by
  cases h with
  | @mk n i whole value =>
    refine (reads_peek _).bind ?_
    change Reads (if n.isInteger = true then _ else _) _ _ _
    rw [if_pos whole, value]
    exact (reads_advance _ r).bind (reads_valued i r)

/-! ## Optional parts -/

/-- Whether the given lexeme is next; if so, it is taken. -/
def next? (l : Lexeme) : Parser Bool := do
  if (← peek) = some l then
    advance
    return true
  else return false

theorem mark?_eq (m : Mark) : mark? m = next? (.mark m) := rfl

theorem keyword?_eq (k : Keyword) : keyword? k = next? (.keyword k) := rfl

theorem identifier?_eq (name : Text) : identifier? name = next? (.identifier name) := rfl

theorem of_next? {l : Lexeme} {b : Bool} {tokens rest : List Token}
    (h : next? l tokens = .ok (b, rest)) :
    (b = true ∧ lexemes tokens = l :: lexemes rest) ∨
      (b = false ∧ tokens = rest ∧ (lexemes rest).head? ≠ some l) := by
  rw [next?, peek_bind] at h
  split at h
  · next head =>
    cases h
    exact .inl ⟨rfl, lexemes_drop head⟩
  · next head =>
    obtain ⟨rfl, rfl⟩ := pure_eq_ok.1 h
    exact .inr ⟨rfl, rfl, head⟩

theorem reads_next? (l : Lexeme) (r : List Lexeme) : Reads (next? l) (l :: r) true r :=
  (reads_peek _).bind <| by
    rw [if_pos List.head?_cons]
    exact (reads_advance l r).bind (.pure true r)

theorem reads_next?_false {l : Lexeme} {r : List Lexeme} (h : r.head? ≠ some l) :
    Reads (next? l) r false r :=
  (reads_peek _).bind <| by
    rw [if_neg h]
    exact .pure false r

/-- What stands after the given lexeme, if that is next. -/
def optionally (l : Lexeme) (p : Parser α) : Parser (Option α) := do
  if ← next? l then some <$> p else return none

theorem optionally_bind (l : Lexeme) (p : Parser α) (k : Option α → Parser β) :
    optionally l p >>= k =
      next? l >>= fun b => if b = true then some <$> p >>= k else pure none >>= k := by
  simp only [optionally, bind_assoc]
  congr; funext b; cases b <;> rfl

section
variable {l : Lexeme} {p : Parser α} {Form : List Lexeme → α → Prop}

theorem sound_optionally (hp : Sound p Form) : Sound (optionally l p) (After l Form) := by
  intro tokens a rest h
  obtain ⟨b, mid, hb, h⟩ := bind_eq_ok.1 h
  rcases of_next? hb with ⟨rfl, e⟩ | ⟨rfl, rfl, -⟩
  · rw [if_pos rfl, map_eq] at h
    obtain ⟨a, s, mid, hs, e', h⟩ := hp.bind h
    obtain ⟨rfl, rfl⟩ := pure_eq_ok.1 h
    exact ⟨l :: s, by rw [e, e']; rfl, .some hs⟩
  · obtain ⟨rfl, rfl⟩ := pure_eq_ok.1 h
    exact ⟨[], rfl, .none⟩

/-- If an optional part is missing, what begins it is not next. -/
theorem head_of_optionally {tokens rest : List Token}
    (h : optionally l p tokens = .ok (none, rest)) : (lexemes rest).head? ≠ some l := by
  obtain ⟨b, mid, hb, h⟩ := bind_eq_ok.1 h
  rcases of_next? hb with ⟨rfl, -⟩ | ⟨rfl, rfl, head⟩
  · rw [if_pos rfl, map_eq] at h
    obtain ⟨a, mid, -, h⟩ := bind_eq_ok.1 h
    cases (pure_eq_ok.1 h).1
  · obtain ⟨-, rfl⟩ := pure_eq_ok.1 h
    exact head

theorem reads_optionally {s r : List Lexeme} {o : Option α} (h : After l Form s o)
    (hr : s = [] → r.head? ≠ some l) (hp : ∀ s a, Form s a → Reads p (s ++ r) a r) :
    Reads (optionally l p) (s ++ r) o r := by
  cases h with
  | none => exact (reads_next?_false (hr rfl)).bind (.pure none r)
  | some h => exact (reads_next? l _).bind ((hp _ _ h).map some)

end

theorem of_separator {u : Unit} {tokens rest : List Token} (h : separator tokens = .ok (u, rest)) :
    ∃ s, lexemes tokens = s ++ lexemes rest ∧ SeparatorForm s ∧
      (s = [] → (lexemes rest).head? ≠ some (.mark .comma) ∧
        (lexemes rest).head? ≠ some (.mark .semicolon)) := by
  rw [separator, peek_bind] at h
  split at h
  · next head =>
    cases h
    rcases head with head | head
    · exact ⟨_, lexemes_drop head, .comma, by simp⟩
    · exact ⟨_, lexemes_drop head, .semicolon, by simp⟩
  · next head =>
    obtain ⟨-, rfl⟩ := pure_eq_ok.1 h
    exact ⟨[], rfl, .none, fun _ => not_or.1 head⟩

theorem sound_separator : Sound separator fun s _ => SeparatorForm s := by
  intro tokens u rest h
  obtain ⟨s, e, hs, -⟩ := of_separator h
  exact ⟨s, e, hs⟩

theorem reads_separator {s r : List Lexeme} (h : SeparatorForm s)
    (hr : s = [] → r.head? ≠ some (.mark .comma) ∧ r.head? ≠ some (.mark .semicolon)) :
    Reads separator (s ++ r) () r := by
  refine (reads_peek _).bind ?_
  cases h with
  | none =>
    rw [List.nil_append, if_neg (not_or.2 (hr rfl))]
    exact .pure () r
  | comma => exact reads_advance _ r
  | semicolon => exact reads_advance _ r

/-! ## Repetition -/

theorem atClosing_bind (closing : Option Mark) (f : Bool → Parser β) (tokens : List Token) :
    (atClosing closing >>= f) tokens =
      f ((lexemes tokens).head?.elim true fun l => closing.any fun m => l = .mark m) tokens := by
  rw [atClosing, bind_assoc, peek_bind]
  cases (lexemes tokens).head? <;> rfl

theorem sound_manyUpTo {item : Parser α} {Item : List Lexeme → α → Prop} (hi : Sound item Item)
    (closing : Option Mark) (bound : Nat) : Sound (manyUpTo closing item bound) (Many Item) := by
  induction bound with
  | zero =>
    intro tokens as rest h
    obtain ⟨rfl, rfl⟩ := pure_eq_ok.1 h
    exact ⟨[], rfl, .nil⟩
  | succ bound ih =>
    intro tokens as rest h
    rw [manyUpTo, atClosing_bind] at h
    split at h
    · obtain ⟨rfl, rfl⟩ := pure_eq_ok.1 h
      exact ⟨[], rfl, .nil⟩
    · obtain ⟨a, s₁, ts₁, h₁, e₁, h⟩ := hi.bind h
      obtain ⟨others, s₂, ts₂, h₂, e₂, h⟩ := ih.bind h
      obtain ⟨rfl, rfl⟩ := pure_eq_ok.1 h
      exact ⟨s₁ ++ s₂, by rw [e₁, e₂, List.append_assoc], .cons h₁ h₂⟩

theorem sound_manyClosed {item : Parser α} {Item : List Lexeme → α → Prop} (hi : Sound item Item)
    (closing : Mark) : Sound (manyClosed closing item) (Closed closing Item) := by
  intro tokens as rest h
  obtain ⟨as, mid, h₁, h⟩ := bind_eq_ok.1 h
  obtain ⟨s, e₁, hs⟩ := sound_manyUpTo hi _ _ h₁
  obtain ⟨-, _, mid, rfl, e₂, h⟩ := (sound_mark closing).bind h
  obtain ⟨rfl, rfl⟩ := pure_eq_ok.1 h
  exact ⟨_, by rw [e₁, e₂, List.append_assoc], .mk hs⟩

end IdlFlow.Parser
