/-
  Where parsers fail.

  * `Completes p used`: tokens can be put behind `used` so that `p` reads them
    all, whatever comes then;
  * `ExactAt p tokens`: whatever way `p` ends on the tokens, it could have gone
    on differently from where it stands, and of what is left it has seen the
    next token alone;
  * `Exact n p`: this for all tokens of at most `n`.

  Main statement: every parser is exact (`exact_statement`).  Hence the token
  that a failure names is the first one that is wrong, and a numeral without a
  value fails only where one with a value could stand.
-/
import IdlFlow.Proofs.Levels

namespace IdlFlow

namespace Numeral

/-- A numeral with a value, one of an integer or not. -/
def sample (whole : Bool) : Numeral := ⟨none, .decimal ['0'] (if whole then none else ['0']) none⟩

@[simp] theorem isInteger_sample (whole : Bool) : (sample whole).isInteger = whole := by
  cases whole <;> rfl

/-- The numeral has no value of its sort, for the given reason. -/
def Fails (n : Numeral) (e : NumeralError) : Prop :=
  if n.isInteger then n.integer = .error e else n.double = .error e

theorem Fails.unique {n : Numeral} {e e' : NumeralError} (h : n.Fails e) (h' : n.Fails e') :
    e = e' := by
  unfold Fails at h h'
  split at h <;> simp_all

end Numeral

/-- What a parser sees of a lexeme that it does not take: of a numeral only
    whether it is one of an integer. -/
def Lexeme.shape : Lexeme → Lexeme
  | numeral n => numeral (.sample n.isInteger)
  | l => l

namespace Parser

variable {α β : Type}

/-- What a parser sees of the next token. -/
def look (tokens : List Token) : Option Lexeme := (lexemes tokens).head?.map Lexeme.shape

theorem look_append {used : List Token} (h : used ≠ []) (r r' : List Token) :
    look (used ++ r) = look (used ++ r') := by
  cases used with
  | nil => exact absurd rfl h
  | cons t used => rfl

theorem look_append_congr {r r' : List Token} (h : look r = look r') (used : List Token) :
    look (used ++ r) = look (used ++ r') := by
  cases used with
  | nil => exact h
  | cons t used => rfl

theorem look_append_cons {l l' : Lexeme} (h : l.shape = l'.shape) (used : List Token)
    (p p' : Position) (r r' : List Token) :
    look (used ++ ⟨l, p⟩ :: r) = look (used ++ ⟨l', p'⟩ :: r') := by
  cases used with
  | nil => simp [look, h]
  | cons t used => rfl

theorem shape_sample (n : Numeral) :
    (Lexeme.numeral (.sample n.isInteger)).shape = (Lexeme.numeral n).shape := by
  simp [Lexeme.shape]

/-- The parser reads `used` and then some more, whatever comes behind. -/
def Completes (p : Parser α) (used : List Token) : Prop :=
  ∃ more a, ∀ rest, p (used ++ more ++ rest) = .ok (a, rest)

/-- The three ways a parser can end on tokens.  Each depends on no more than
    what is used and the look of the next token. -/
inductive ExactAt (p : Parser α) : List Token → Prop
  | ok (used rest : List Token) (a : α) : Completes p used →
      (∀ rest', look rest' = look rest → p (used ++ rest') = .ok (a, rest')) →
      ExactAt p (used ++ rest)
  | unexpected (used rest : List Token) (wanted : Wanted) : Completes p used →
      (∀ rest', look rest' = look rest →
        p (used ++ rest') = .error (.unexpected wanted rest')) →
      ExactAt p (used ++ rest)
  | numeral (used after : List Token) (n : Numeral) (position : Position) (e : NumeralError) :
      n.Fails e → Completes p (used ++ [⟨.numeral (.sample n.isInteger), position⟩]) →
      (∀ after', p (used ++ ⟨.numeral n, position⟩ :: after') = .error (.numeral e)) →
      ExactAt p (used ++ ⟨.numeral n, position⟩ :: after)

/-! ## Sequences -/

theorem bind_of_error {p : Parser α} {f : α → Parser β} {tokens : List Token} {e : Failure}
    (h : p tokens = .error e) : (p >>= f) tokens = .error e := by
  change (p tokens >>= fun x => f x.1 x.2) = _
  rw [h]
  rfl

section
variable {p : Parser α} {f : α → Parser β} {used used' tokens rest : List Token} {a : α}

theorem Completes.bind_left (hp : Completes p used) (start : ∀ a, Completes (f a) []) :
    Completes (p >>= f) used := by
  obtain ⟨more, a, run⟩ := hp
  obtain ⟨more', b, run'⟩ := start a
  refine ⟨more ++ more', b, fun rest => ?_⟩
  rw [← List.append_assoc, List.append_assoc _ more', bind_of_ok (run _)]
  simpa using run' rest

theorem Completes.bind_right
    (run : ∀ rest', look rest' = look rest → p (used ++ rest') = .ok (a, rest'))
    (hf : Completes (f a) used') (next : ∀ r, look (used' ++ r) = look rest) :
    Completes (p >>= f) (used ++ used') := by
  obtain ⟨more, b, run'⟩ := hf
  refine ⟨more, b, fun rest => ?_⟩
  have first := run (used' ++ (more ++ rest)) (next _)
  rw [List.append_assoc, List.append_assoc, bind_of_ok first]
  simpa using run' rest

/-- A sequence is exact where its parts are. -/
theorem ExactAt.bind (hp : ExactAt p tokens)
    (hf : ∀ a rest, p tokens = .ok (a, rest) → ExactAt (f a) rest)
    (start : ∀ a, Completes (f a) []) : ExactAt (p >>= f) tokens := by
  cases hp with
  | unexpected used rest wanted more run =>
    exact .unexpected used rest wanted (more.bind_left start) fun rest' h =>
      bind_of_error (run rest' h)
  | numeral used after n position e fails more run =>
    exact .numeral used after n position e fails (more.bind_left start) fun after' =>
      bind_of_error (run after')
  | ok used rest a more run =>
    -- If the second part has used nothing, the first one is completed instead.
    have completes (used' rest' : List Token) (e : rest = used' ++ rest')
        (h : Completes (f a) used') : Completes (p >>= f) (used ++ used') := by
      by_cases ne : used' = []
      · rw [ne, List.append_nil]
        exact more.bind_left start
      · exact .bind_right run h fun r => e ▸ look_append ne r rest'
    have then_ (r : List Token) (h : look r = look rest) : (p >>= f) (used ++ r) = f a r :=
      bind_of_ok (run r h)
    cases hf a rest (run rest rfl) with
    | ok used' rest' b more' run' =>
      rw [← List.append_assoc]
      refine .ok (used ++ used') rest' b (completes used' rest' rfl more') fun r h => ?_
      rw [List.append_assoc, then_ _ (look_append_congr h used'), run' r h]
    | unexpected used' rest' wanted more' run' =>
      rw [← List.append_assoc]
      refine .unexpected (used ++ used') rest' wanted (completes used' rest' rfl more') fun r h => ?_
      rw [List.append_assoc, then_ _ (look_append_congr h used'), run' r h]
    | numeral used' after n position e fails more' run' =>
      rw [← List.append_assoc]
      refine .numeral (used ++ used') after n position e fails ?_ fun after' => ?_
      · rw [List.append_assoc]
        refine .bind_right run more' fun r => ?_
        rw [List.append_assoc]
        exact look_append_cons (shape_sample n) used' position position r after
      · rw [List.append_assoc, then_ _ (look_append_cons rfl used' position position after' after),
          run' after']

end

/-- What a parser does where the next token looks a certain way can be taken
    from another one. -/
theorem ExactAt.congr {p q : Parser α} {tokens : List Token} {C : Option Lexeme → Prop}
    (same : ∀ r, C (look r) → p r = q r) (next : C (look tokens)) (start : Completes p [])
    (h : ExactAt q tokens) : ExactAt p tokens := by
  have completes {used : List Token} (e : used = [] ∨ ∀ r, look (used ++ r) = look tokens)
      (hq : Completes q used) : Completes p used := by
    rcases e with rfl | e
    · exact start
    · obtain ⟨more, a, run⟩ := hq
      refine ⟨more, a, fun rest => ?_⟩
      rw [same _ (by rw [List.append_assoc, e]; exact next), run]
  cases h with
  | ok used rest a more run =>
    refine .ok used rest a (completes ?_ more) fun r e => ?_
    · exact (em (used = [])).imp id fun ne r => look_append ne r rest
    · rw [same _ (by rw [look_append_congr e]; exact next), run r e]
  | unexpected used rest wanted more run =>
    refine .unexpected used rest wanted (completes ?_ more) fun r e => ?_
    · exact (em (used = [])).imp id fun ne r => look_append ne r rest
    · rw [same _ (by rw [look_append_congr e]; exact next), run r e]
  | numeral used after n position e fails more run =>
    refine .numeral used after n position e fails (completes (.inr fun r => ?_) more) fun r => ?_
    · rw [List.append_assoc]
      exact look_append_cons (shape_sample n) used position position r after
    · rw [same _ (by rw [look_append_cons rfl]; exact next), run]

/-- The parser can be completed from its start, and is exact on all tokens of
    at most `n`. -/
structure Exact (n : Nat) (p : Parser α) : Prop where
  start : Completes p []
  on : ∀ tokens, tokens.length ≤ n → ExactAt p tokens

theorem ExactAt.length_le {p : Parser α} {tokens rest : List Token} {a : α}
    (h : ExactAt p tokens) (run : p tokens = .ok (a, rest)) : rest.length ≤ tokens.length := by
  cases h with
  | ok used rest' a' _ run' =>
    rw [run' rest' rfl] at run
    cases run
    simp
  | unexpected used rest' wanted _ run' =>
    rw [run' rest' rfl] at run
    cases run
  | numeral used after n position e _ _ run' =>
    rw [run' after] at run
    cases run

namespace Exact

variable {n : Nat} {p : Parser α}

theorem bind {f : α → Parser β} (hp : Exact n p) (hf : ∀ a, Exact n (f a)) :
    Exact n (p >>= f) where
  start := hp.start.bind_left fun a => (hf a).start
  on tokens le := (hp.on tokens le).bind
    (fun a rest run => (hf a).on rest (Nat.le_trans ((hp.on tokens le).length_le run) le))
    fun a => (hf a).start

theorem pure (a : α) : Exact n (pure a : Parser α) where
  start := ⟨[], a, fun _ => rfl⟩
  on tokens _ := .ok [] tokens a ⟨[], a, fun _ => rfl⟩ fun _ _ => rfl

theorem map (hp : Exact n p) (g : α → β) : Exact n (g <$> p) := by
  rw [map_eq]
  exact hp.bind fun a => .pure (g a)

theorem discard (hp : Exact n p) : Exact n (discard p) := by
  rw [discard_eq]
  exact hp.bind fun _ => .pure ()

end Exact

/-! ## Choices by the next token -/

/-- What a parser does with the next token: leave it, take it and go on, or
    take it for its value. -/
inductive Move (α : Type)
  | stop
  | go (q : Parser α)
  | value (v : Except NumeralError α)

/-- The parser that moves by the next token, and does as `otherwise` says if it
    leaves it. -/
def moving (move : Lexeme → Move α) (otherwise : Parser α) : Parser α
  | [] => otherwise []
  | t :: tokens =>
    match move t.lexeme with
    | .stop => otherwise (t :: tokens)
    | .go q => q tokens
    | .value v => valued v tokens

/-- A parser that takes nothing: it fails, or returns something fixed. -/
inductive Idle : Parser α → Prop
  | fail (wanted : Wanted) : Idle (fail wanted)
  | pure (a : α) : Idle (pure a)

section
variable {move : Lexeme → Move α} {otherwise : Parser α} {n : Nat}

theorem completes_go {l : Lexeme} {q : Parser α} (h : move l = .go q) (hq : Completes q []) :
    Completes (moving move otherwise) [] := by
  obtain ⟨more, a, run⟩ := hq
  refine ⟨⟨l, .start⟩ :: more, a, fun rest => ?_⟩
  simpa [moving, h] using run rest

theorem completes_value {l : Lexeme} {a : α} (h : move l = .value (.ok a)) :
    Completes (moving move otherwise) [] :=
  ⟨[⟨l, .start⟩], a, fun rest => by simp [moving, h, valued]⟩

/-- Whether the next token is left shows in its look. -/
theorem moving_of_look
    (stop : ∀ m : Numeral, move (.numeral m) = .stop ↔ move (.numeral (.sample m.isInteger)) = .stop)
    {tokens tokens' : List Token} (h : look tokens' = look tokens)
    (left : ∀ l, (lexemes tokens).head? = some l → move l = .stop) :
    moving move otherwise tokens' = otherwise tokens' := by
  have shape (l : Lexeme) : move l = .stop ↔ move l.shape = .stop := by
    cases l with
    | numeral m => exact stop m
    | _ => rfl
  cases tokens' with
  | nil => rfl
  | cons t' ts' =>
    cases tokens with
    | nil => simp [look] at h
    | cons t ts =>
      have h : t'.lexeme.shape = t.lexeme.shape := by simpa [look] using h
      have := (shape t.lexeme).1 (left t.lexeme rfl)
      rw [← h] at this
      simp [moving, (shape t'.lexeme).2 this]

/-- **Choices are exact**: what is seen of a token that is left is its look,
    and a token taken for its value has one or fails. -/
theorem exact_moving (idle : Idle otherwise) (start : Completes (moving move otherwise) [])
    (stop : ∀ m : Numeral, move (.numeral m) = .stop ↔
      move (.numeral (.sample m.isInteger)) = .stop)
    (go : ∀ l q, move l = .go q → ∀ m < n, Exact m q)
    (value : ∀ l v, move l = .value v → ∃ m, l = .numeral m ∧ (∀ e, v = .error e → m.Fails e) ∧
      ∃ a, move (.numeral (.sample m.isInteger)) = .value (.ok a)) :
    Exact n (moving move otherwise) where
  start := start
  on tokens le := by
    have leave (left : ∀ l, (lexemes tokens).head? = some l → move l = .stop) :
        ExactAt (moving move otherwise) tokens := by
      cases idle with
      | fail wanted =>
        exact .unexpected [] tokens wanted start fun _ h => moving_of_look stop h left
      | pure a => exact .ok [] tokens a start fun _ h => moving_of_look stop h left
    cases tokens with
    | nil => exact leave (by simp)
    | cons t ts =>
      cases h : move t.lexeme with
      | stop => exact leave fun l e => by cases e; exact h
      | go q =>
        have step (r : List Token) : moving move otherwise (t :: r) = q r := by simp [moving, h]
        have complete (used : List Token) (hq : Completes q used) :
            Completes (moving move otherwise) (t :: used) := by
          obtain ⟨more, a, run⟩ := hq
          exact ⟨more, a, fun rest => by simpa [step] using run rest⟩
        have exact_ := go _ _ h ts.length le
        cases exact_.on ts (Nat.le_refl _) with
        | ok used rest a more run =>
          exact .ok (t :: used) rest a (complete used more) fun r e => (step _).trans (run r e)
        | unexpected used rest wanted more run =>
          exact .unexpected (t :: used) rest wanted (complete used more) fun r e =>
            (step _).trans (run r e)
        | numeral used after m position e fails more run =>
          exact .numeral (t :: used) after m position e fails (complete _ more) fun r =>
            (step _).trans (run r)
      | value v =>
        obtain ⟨m, hm, fails, a, ok⟩ := value _ _ h
        have step (r : List Token) : moving move otherwise (t :: r) = valued v r := by
          simp [moving, h]
        cases v with
        | ok b => exact .ok [t] ts b ⟨[], b, fun rest => step rest⟩ fun r _ => step r
        | error e =>
          obtain ⟨l, position⟩ := t
          obtain rfl : l = .numeral m := hm
          refine .numeral [] ts m position e (fails e rfl) ⟨[], a, fun rest => ?_⟩ fun r => step r
          simp [moving, ok, valued]

end

end Parser

end IdlFlow
