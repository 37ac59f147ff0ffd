/-
  Where the fault of a refused text is.

  Main statement: a failure that names an entry of a stream names the first one
  with which no document goes on (`parse_unexpected_entry`): what stands before
  it begins a stream that is read, and no stream that begins with it as well
  is, whatever type, value or statement the parser was about to read.
-/
import IdlFlow.Proofs.Lexing
import IdlFlow.Proofs.Refusal

namespace IdlFlow.Parser

/-- A token as an entry of its stream. -/
abbrev entry (token : Token) : Option Lexeme × Position := (some token.lexeme, token.position)

theorem said_entries (stream : TokenStream) :
    stream.entries.map Prod.fst = (lexemes stream.tokens).map some ++ [none] := by
  simp [TokenStream.entries, lexemes]

/-- Lexemes that other ones begin with stand in front of them. -/
theorem exists_of_begins {s t : List Lexeme} (h : s.map some <+: t.map some ++ [none]) :
    ∃ more, t = s ++ more := by
  induction s generalizing t with
  | nil => exact ⟨t, rfl⟩
  | cons l s ih =>
    cases t with
    | nil => simp at h
    | cons l' t =>
      simp only [List.map_cons, List.cons_append, List.cons_prefix_cons, Option.some.injEq] at h
      obtain ⟨rfl, h⟩ := h
      obtain ⟨more, rfl⟩ := ih h
      exact ⟨more, rfl⟩

/-- An end that follows some lexemes ends them. -/
theorem eq_of_ended {s t : List Lexeme} (h : s.map some ++ [none] <+: t.map some ++ [none]) :
    s = t := by
  obtain ⟨more, rfl⟩ := exists_of_begins ((List.prefix_append _ _).trans h)
  rw [List.map_append, List.append_assoc, List.prefix_append_right_inj] at h
  cases more with
  | nil => simp
  | cons l more => simp at h

/-- The tokens before a fault begin a stream that is read. -/
theorem exists_parse_of_ends {used : List Token} (h : Ends used) :
    ∃ other d, TokenStream.parse other = .ok d ∧ used.map entry <+: other.entries := by
  obtain ⟨more, as, all⟩ := h
  refine ⟨⟨used ++ more, .start⟩, .ofStatements as, ?_, ?_⟩
  · rw [parse_of_statements, all]
  · simp [TokenStream.entries]

/-- **Failures name the first fault.** -/
theorem parse_unexpected_entry {stream : TokenStream} {wanted : Wanted} {found : Option Lexeme}
    {position : Position} (h : stream.parse = .error (.unexpected wanted found position)) :
    ∃ k, stream.entries[k]? = some (found, position) ∧
      (∃ other d, TokenStream.parse other = .ok d ∧ stream.entries.take k <+: other.entries) ∧
      ∀ other : TokenStream,
        (stream.entries.take (k + 1)).map Prod.fst <+: other.entries.map Prod.fst →
        ∀ d, other.parse ≠ .ok d := by
  obtain ⟨tokens, finish⟩ := stream
  have refused := h
  rw [parse_of_statements] at h
  cases endsAt tokens with
  | ok _ as all => simp [all] at h
  | numeral used after n position e _ _ run => simp [run, Failure.inStream] at h
  | unexpected used rest wanted ends run =>
    rw [run rest rfl] at h
    simp only [Failure.inStream, Except.error.injEq, ParseError.unexpected.injEq] at h
    obtain ⟨-, rfl, rfl⟩ := h
    have split : TokenStream.entries ⟨used ++ rest, finish⟩ =
        used.map entry ++ (rest.map entry ++ [(none, finish)]) := by
      simp [TokenStream.entries]
    refine ⟨used.length, ?_, ?_, fun other begins d read => ?_⟩
    · rw [split, List.getElem?_append_right (by simp)]
      cases rest <;> simp
    · rw [split, List.take_left' (by simp)]
      exact exists_parse_of_ends ends
    · rw [said_entries, split] at begins
      cases rest with
      | nil =>
        -- the end is the fault, so the other stream says what the refused one does
        have front : (lexemes used).map some ++ [none] <+:
            (lexemes other.tokens).map some ++ [none] := by
          rw [List.take_of_length_le (by simp)] at begins
          simpa [lexemes, entry, Function.comp_def] using begins
        have same : lexemes (used ++ []) = lexemes other.tokens := by
          simpa using eq_of_ended front
        rw [parse_eq_ok.2 (same ▸ parse_eq_ok.1 read)] at refused
        cases refused
      | cons t rest =>
        have front : (lexemes used ++ [t.lexeme]).map some <+:
            (lexemes other.tokens).map some ++ [none] := by
          rw [List.take_append, List.take_of_length_le (by simp)] at begins
          simpa [lexemes, entry, Function.comp_def] using begins
        obtain ⟨more, eq⟩ := exists_of_begins front
        have viable : Viable (lexemes used ++ [t.lexeme]) := viable_of_ok read eq
        exact not_viable_of_run run rfl rfl viable

/-- A list without the type of its elements. -/
def unfinishedList : Text := "struct S { 1: map<i32, list<> > a }"

theorem parse_unexpected_entry_inType :
    (TokenStream.ofText unfinishedList).parse =
        .error (.unexpected (.kind .identifier) (some (.mark .rightAngle)) ⟨1, 29⟩) ∧
      ∃ k : Nat,
        (TokenStream.ofText unfinishedList).entries[k]? =
          some (some (.mark .rightAngle), ⟨1, 29⟩) ∧
        (∃ other d, TokenStream.parse other = .ok d ∧
          (TokenStream.ofText unfinishedList).entries.take k <+: other.entries) ∧
        ∀ other : TokenStream,
          ((TokenStream.ofText unfinishedList).entries.take (k + 1)).map Prod.fst <+:
            other.entries.map Prod.fst →
          ∀ d, other.parse ≠ .ok d := by
  have refused : (TokenStream.ofText unfinishedList).parse =
      .error (.unexpected (.kind .identifier) (some (.mark .rightAngle)) ⟨1, 29⟩) := by
    decide +kernel
  exact ⟨refused, parse_unexpected_entry refused⟩

end IdlFlow.Parser
