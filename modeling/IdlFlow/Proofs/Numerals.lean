/-
  Numerals in front of a text.

  * `Text.Longest Form t rest`: `t` has a form, and no text of that form with
    which `t ++ rest` begins is longer;
  * `Numeral.Written n`: every part of `n` is made of the characters that such
    a part may have, and `n` begins as a numeral does.

  Main statements: where a numeral starts, the scan takes a written numeral off
  (`written_scan`), and the longest one (`longest_scan`); a text is the one of
  one written numeral only (`Written.eq_of_text_eq`), so the numeral of a
  longest text is the one that is scanned (`scan_of_longest`).
-/
import IdlFlow.Idl.Piece

namespace IdlFlow

/-! ## Longest texts of a form -/

/-- No text of a form is longer than `t` in front of `t ++ rest`. -/
structure Text.Longest (Form : Text → Prop) (t rest : Text) : Prop where
  form : Form t
  longest : ∀ u, Form u → u <+: t ++ rest → u.length ≤ t.length

theorem Text.Longest.unique {Form : Text → Prop} {t u rest others : Text}
    (ht : Longest Form t rest) (hu : Longest Form u others) (whole : t ++ rest = u ++ others) :
    t = u ∧ rest = others := by
  have le : u.length ≤ t.length := ht.longest u hu.form (whole ▸ List.prefix_append u others)
  have ge : t.length ≤ u.length := hu.longest t ht.form (whole ▸ List.prefix_append t rest)
  exact List.append_inj whole (Nat.le_antisymm ge le)

/-- A form that is cut at the first character of a class is the longest one
    there. -/
theorem Text.Longest.of_stop {Form : Text → Prop} {t rest : Text} {p : Char → Bool}
    (form : Form t) (all : ∀ u, Form u → ∀ c ∈ u, p c = true)
    (stop : ∀ c ∈ rest.head?, p c = false) : Longest Form t rest := by
  refine ⟨form, fun u hu front => Nat.le_of_not_lt fun longer => ?_⟩
  -- otherwise `u` reaches into the rest, whose first character is none of the form's
  obtain ⟨v, rfl⟩ : t <+: u :=
    List.prefix_of_prefix_length_le (List.prefix_append t rest) front (by omega)
  have front : v <+: rest := (List.prefix_append_right_inj t).1 front
  cases v with
  | nil => simp at longer
  | cons c v =>
    obtain ⟨others, rfl⟩ := front
    have := stop c rfl
    rw [all _ hu c (by simp)] at this
    cases this

theorem Text.stop_dropWhile (p : Char → Bool) (s : Text) :
    ∀ c ∈ (s.dropWhile p).head?, p c = false := by
  intro c first
  have := List.head?_dropWhile_not p s
  rw [Option.mem_def.1 first] at this
  simpa using this

/-! ## Written numerals -/

/-- A power of ten has a letter `e` of either case, a sign or none, and
    digits, possibly none. -/
structure PowerOfTen.Written (p : PowerOfTen) : Prop where
  letter : p.letter = 'e' ∨ p.letter = 'E'
  sign : ∀ c ∈ p.sign, Numeral.isSign c = true
  digits : ∀ c ∈ p.digits, Text.isDigit c = true

/-- A magnitude has hexadecimal digits, possibly none, after a zero and the
    letter `x` of either case; or it has digits in front of its point or a
    point. -/
inductive Magnitude.Written : Magnitude → Prop
  | hexadecimal {letter : Char} {digits : Text} :
    letter = 'x' ∨ letter = 'X' →
    (∀ c ∈ digits, Numeral.isHexDigit c = true) →
    Written (.hexadecimal letter digits)
  | decimal {whole : Text} {fraction : Option Text} {power : Option PowerOfTen} :
    (∀ c ∈ whole, Text.isDigit c = true) →
    (∀ digits ∈ fraction, ∀ c ∈ digits, Text.isDigit c = true) →
    (∀ p ∈ power, p.Written) →
    (whole = [] → fraction ≠ none) →
    Written (.decimal whole fraction power)

/-- A numeral has a sign or none, and a digit first if it has none. -/
structure Numeral.Written (n : Numeral) : Prop where
  sign : ∀ c ∈ n.sign, Numeral.isSign c = true
  magnitude : n.magnitude.Written
  unsigned : n.sign = none → ∀ c ∈ n.text.head?, Text.isDigit c = true

/-- A text is the one of a written numeral. -/
def Numeral.Form (t : Text) : Prop := ∃ n : Numeral, n.Written ∧ n.text = t

namespace Numeral

/-! ## Characters of the parts -/

theorem isDigit_of_isSign {c : Char} (h : isSign c = true) : Text.isDigit c = false := by
  simp only [isSign, Bool.or_eq_true, decide_eq_true_eq] at h
  rcases h with rfl | rfl <;> decide

theorem isSign_of_isDigit {c : Char} (h : Text.isDigit c = true) : isSign c = false := by
  cases sign : isSign c with
  | false => rfl
  | true => rw [isDigit_of_isSign sign] at h; cases h

theorem isDigit_of_letter {c : Char} (h : c = 'e' ∨ c = 'E') : Text.isDigit c = false := by
  rcases h with rfl | rfl <;> decide

/-! ## The rest is a suffix -/

theorem takeSign_suffix (s : Text) : (takeSign s).2 <:+ s :=
  ⟨_, text_takeSign s⟩

theorem takeFraction_suffix (s : Text) : (takeFraction s).2 <:+ s :=
  ⟨_, text_takeFraction s⟩

theorem takePower_suffix (s : Text) : (takePower s).2 <:+ s :=
  ⟨_, text_takePower s⟩

/-! ## What is scanned is written -/

theorem isSign_takeSign (s : Text) : ∀ c ∈ (takeSign s).1, isSign c = true := by
  cases s with
  | nil => simp [takeSign]
  | cons d s => by_cases h : isSign d = true <;> simp [takeSign, h]

theorem isDigit_takeWhile (s : Text) : ∀ c ∈ s.takeWhile Text.isDigit, Text.isDigit c = true :=
  List.all_eq_true.1 List.all_takeWhile

theorem isDigit_takeFraction (s : Text) :
    ∀ digits ∈ (takeFraction s).1, ∀ c ∈ digits, Text.isDigit c = true := by
  cases s with
  | nil => simp [takeFraction]
  | cons d s =>
    by_cases h : d = '.'
    · simpa [takeFraction, h] using isDigit_takeWhile s
    · simp [takeFraction, h]

theorem written_takePower (s : Text) : ∀ p ∈ (takePower s).1, p.Written := by
  cases s with
  | nil => simp [takePower]
  | cons d s =>
    by_cases h : d = 'e' ∨ d = 'E'
    · simp only [takePower, if_pos h, Option.mem_def, Option.some.injEq, forall_eq']
      exact ⟨h, isSign_takeSign s, isDigit_takeWhile _⟩
    · simp [takePower, h]

/-- A digit or a point starts a decimal magnitude. -/
theorem written_takeDecimal {c : Char} (h : Text.isDigit c = true ∨ c = '.') (s : Text) :
    (takeDecimal (c :: s)).1.Written := by
  refine .decimal (isDigit_takeWhile _) (isDigit_takeFraction _) (written_takePower _) ?_
  rcases h with h | rfl
  · simp [h]
  · have none : Text.isDigit '.' = false := by decide
    simp [none]

theorem written_takeMagnitude {c : Char} (h : Text.isDigit c = true ∨ c = '.') (s : Text) :
    (takeMagnitude (c :: s)).1.Written := by
  unfold takeMagnitude
  split
  · next d t heq =>
    obtain ⟨rfl, rfl⟩ := List.cons.inj heq
    split
    · next letter => exact .hexadecimal letter (List.all_eq_true.1 List.all_takeWhile)
    · exact written_takeDecimal h _
  · exact written_takeDecimal h s

/-- **Where a numeral starts, a written one is scanned.** -/
theorem written_scan {s : Text} (h : Piece.startsNumeral s = true) : (scan s).1.Written := by
  cases s with
  | nil => simp [Piece.startsNumeral] at h
  | cons c s =>
    by_cases sign : isSign c = true
    · -- the character after the sign starts the magnitude
      cases s with
      | nil => simp [Piece.startsNumeral, isDigit_of_isSign sign] at h
      | cons d s =>
        have starts : Text.isDigit d = true ∨ d = '.' := by
          simpa [Piece.startsNumeral, isDigit_of_isSign sign, sign] using h
        refine ⟨?_, ?_, ?_⟩
        · simp [scan, takeSign, sign]
        · simpa [scan, takeSign, sign] using written_takeMagnitude starts s
        · simp [scan, takeSign, sign]
    · have digit : Text.isDigit c = true := by
        cases s <;> simp_all [Piece.startsNumeral]
      have whole : (scan (c :: s)).1.text ++ (scan (c :: s)).2 = c :: s := text_scan _
      refine ⟨?_, ?_, fun _ d first => ?_⟩
      · simp [scan, takeSign, sign]
      · simpa [scan, takeSign, sign] using written_takeMagnitude (.inl digit) s
      · obtain ⟨others, eq⟩ := List.head?_eq_some_iff.1 first
        rw [eq] at whole
        obtain ⟨rfl, -⟩ := List.cons.inj whole
        exact digit

/-! ## What is scanned is longest -/

/-- The rest after digits in front of a text. -/
theorem dropWhile_suffix_of_digits {digits : Text} (h : ∀ c ∈ digits, Text.isDigit c = true)
    (s : Text) : (digits ++ s).dropWhile Text.isDigit <:+ s := by
  rw [List.dropWhile_append_of_pos h]
  exact List.dropWhile_suffix _

theorem takePower_suffix_of_written {p : PowerOfTen} (h : p.Written) (s : Text) :
    (takePower (p.text ++ s)).2 <:+ s := by
  have rest : (takePower (p.text ++ s)).2 =
      (takeSign (p.sign.toList ++ p.digits ++ s)).2.dropWhile Text.isDigit := by
    simp [PowerOfTen.text, takePower, h.letter]
  rw [rest]
  cases sign : p.sign with
  | some c =>
    have := h.sign c sign
    simpa [takeSign, this] using dropWhile_suffix_of_digits h.digits s
  | none =>
    cases digits : p.digits with
    | nil => exact (List.dropWhile_suffix _).trans (takeSign_suffix s)
    | cons c others =>
      have all := h.digits
      rw [digits] at all
      have : isSign c = false := isSign_of_isDigit (all c (by simp))
      simpa [takeSign, this] using dropWhile_suffix_of_digits all s

/-- A point ends the digits, and so does a power of ten. -/
theorem takeFraction_power {p : PowerOfTen} (h : p.Written) (s : Text) :
    (takeFraction ((p.text ++ s).dropWhile Text.isDigit)).2 = p.text ++ s := by
  have letter : p.letter ≠ '.' := by
    rcases h.letter with e | e <;> rw [e] <;> decide
  simp [PowerOfTen.text, takeFraction, isDigit_of_letter h.letter, letter]

theorem takeDecimal_suffix_of_written {whole : Text} {fraction : Option Text}
    {power : Option PowerOfTen} (h : (Magnitude.decimal whole fraction power).Written) (s : Text) :
    (takeDecimal ((Magnitude.decimal whole fraction power).text ++ s)).2 <:+ s := by
  obtain _ | ⟨hw, hf, hp, -⟩ := h
  have point : Text.isDigit '.' = false := by decide
  simp only [takeDecimal, Magnitude.text, List.append_assoc]
  rw [List.dropWhile_append_of_pos hw]
  cases fraction with
  | none =>
    cases power with
    | none =>
      exact (takePower_suffix _).trans
        ((takeFraction_suffix _).trans (List.dropWhile_suffix _))
    | some p =>
      have power := hp p rfl
      simpa [takeFraction_power power] using takePower_suffix_of_written power s
  | some digits =>
    have all := hf digits rfl
    have rest : (takeFraction ((('.' :: digits) ++ (power.elim [] PowerOfTen.text ++ s)).dropWhile
        Text.isDigit)).2 = (power.elim [] PowerOfTen.text ++ s).dropWhile Text.isDigit := by
      simp [takeFraction, point, List.dropWhile_append_of_pos all]
    rw [Option.elim_some, rest]
    cases power with
    | none => exact (takePower_suffix _).trans (List.dropWhile_suffix _)
    | some p =>
      have power := hp p rfl
      have stop : (p.text ++ s).dropWhile Text.isDigit = p.text ++ s := by
        simp [PowerOfTen.text, isDigit_of_letter power.letter]
      rw [Option.elim_some, stop]
      exact takePower_suffix_of_written power s

/-- The characters of a decimal magnitude. -/
theorem mem_text_decimal {whole : Text} {fraction : Option Text} {power : Option PowerOfTen}
    (h : (Magnitude.decimal whole fraction power).Written) {c : Char}
    (mem : c ∈ (Magnitude.decimal whole fraction power).text) :
    Text.isDigit c = true ∨ isSign c = true ∨ c = '.' ∨ c = 'e' ∨ c = 'E' := by
  obtain _ | ⟨hw, hf, hp, -⟩ := h
  simp only [Magnitude.text, List.mem_append] at mem
  rcases mem with (mem | mem) | mem
  · exact .inl (hw c mem)
  · cases fraction with
    | none => cases mem
    | some digits =>
      rcases List.mem_cons.1 mem with rfl | mem
      · simp
      · exact .inl (hf digits rfl c mem)
  · cases power with
    | none => cases mem
    | some p =>
      have power := hp p rfl
      simp only [Option.elim_some, PowerOfTen.text, List.cons_append, List.mem_cons,
        List.mem_append, Option.mem_toList] at mem
      rcases mem with rfl | mem | mem
      · exact .inr (.inr (.inr power.letter))
      · exact .inr (.inl (power.sign c mem))
      · exact .inl (power.digits c mem)

theorem not_mem_text_decimal {whole : Text} {fraction : Option Text} {power : Option PowerOfTen}
    (h : (Magnitude.decimal whole fraction power).Written) {c : Char} (letter : c = 'x' ∨ c = 'X') :
    c ∉ (Magnitude.decimal whole fraction power).text := by
  intro mem
  have := mem_text_decimal h mem
  clear mem
  rcases letter with rfl | rfl <;> revert this <;> decide

/-- A magnitude begins with a digit or a point. -/
theorem exists_text_magnitude {m : Magnitude} (h : m.Written) :
    ∃ c t, m.text = c :: t ∧ (Text.isDigit c = true ∨ c = '.') := by
  cases m with
  | hexadecimal letter digits => exact ⟨'0', letter :: digits, rfl, by decide⟩
  | decimal whole fraction power =>
    obtain _ | ⟨hw, -, -, some⟩ := h
    cases whole with
    | cons d others => exact ⟨d, _, rfl, .inl (hw d (by simp))⟩
    | nil =>
      obtain ⟨digits, rfl⟩ := Option.ne_none_iff_exists'.1 (some rfl)
      exact ⟨'.', _, rfl, .inr rfl⟩

theorem takeMagnitude_suffix_of_written {m : Magnitude} (h : m.Written) (s : Text) :
    (takeMagnitude (m.text ++ s)).2 <:+ s := by
  cases m with
  | hexadecimal letter digits =>
    obtain ⟨hl, all⟩ | _ := h
    have rest : (takeMagnitude ((Magnitude.hexadecimal letter digits).text ++ s)).2 =
        (digits ++ s).dropWhile isHexDigit := by
      simp [Magnitude.text, takeMagnitude, hl]
    rw [rest, List.dropWhile_append_of_pos all]
    exact List.dropWhile_suffix _
  | decimal whole fraction power =>
    have through := takeDecimal_suffix_of_written h s
    unfold takeMagnitude
    split
    · next c t eq =>
      split
      · next letter =>
        -- no decimal magnitude has the letter, so it stands behind the zero
        have mem := not_mem_text_decimal h letter
        obtain ⟨d, u, text, -⟩ := exists_text_magnitude h
        have behind : s = c :: t := by
          rw [text] at eq mem
          rcases u with _ | ⟨e, u⟩
          · exact (List.cons.inj eq).2
          · simp only [List.cons_append, List.cons.injEq] at eq
            simp [eq.2.1] at mem
        rw [behind]
        exact (List.dropWhile_suffix _).trans (List.suffix_cons c t)
      · rwa [← eq]
    · exact through

theorem takeSign_text {n : Numeral} (h : n.Written) (s : Text) :
    takeSign (n.text ++ s) = (n.sign, n.magnitude.text ++ s) := by
  cases sign : n.sign with
  | some c =>
    have := h.sign c sign
    simp [text, sign, takeSign, this]
  | none =>
    obtain ⟨c, t, eq, first⟩ := exists_text_magnitude h.magnitude
    have : isSign c = false := first.elim isSign_of_isDigit (by rintro rfl; decide)
    simp [text, sign, takeSign, eq, this]

theorem scan_suffix_of_written {n : Numeral} (h : n.Written) (s : Text) :
    (scan (n.text ++ s)).2 <:+ s := by
  simp only [scan, takeSign_text h]
  exact takeMagnitude_suffix_of_written h.magnitude s

/-- **Where a numeral starts, the longest one is scanned.** -/
theorem longest_scan {s : Text} (h : Piece.startsNumeral s = true) :
    Text.Longest Form (scan s).1.text (scan s).2 := by
  refine ⟨⟨_, written_scan h, rfl⟩, ?_⟩
  rintro _ ⟨n, written, rfl⟩ front
  rw [text_scan] at front
  obtain ⟨rest, rfl⟩ := front
  have whole := congrArg List.length (text_scan (n.text ++ rest))
  have short := (scan_suffix_of_written written rest).length_le
  simp only [List.length_append] at whole
  omega

/-! ## One numeral for a text -/

/-- Digits that nothing continues are cut off as they are. -/
theorem cut_digits {digits rest : Text} (h : ∀ c ∈ digits, Text.isDigit c = true)
    (stop : ∀ c ∈ rest.head?, Text.isDigit c = false) :
    (digits ++ rest).takeWhile Text.isDigit = digits ∧
      (digits ++ rest).dropWhile Text.isDigit = rest := by
  rw [List.takeWhile_append_of_pos h, List.dropWhile_append_of_pos h]
  cases rest with
  | nil => simp
  | cons c rest => simp [stop c rfl]

theorem takePower_text {p : PowerOfTen} (h : p.Written) : takePower p.text = (some p, []) := by
  obtain ⟨letter, sign, digits⟩ := p
  have signed : takeSign (sign.toList ++ digits) = (sign, digits) := by
    cases sign with
    | some c => simp [takeSign, h.sign c rfl]
    | none =>
      cases digits with
      | nil => rfl
      | cons c digits => simp [takeSign, isSign_of_isDigit (h.digits c (by simp))]
  have cut : digits.takeWhile Text.isDigit = digits ∧ digits.dropWhile Text.isDigit = [] := by
    simpa using @cut_digits digits [] h.digits (by simp)
  simp only [PowerOfTen.text, List.cons_append, takePower, if_pos h.letter, signed, cut]

/-- A power of ten begins with no digit and no point. -/
theorem head_power {power : Option PowerOfTen} (h : ∀ p ∈ power, p.Written) :
    ∀ c ∈ (power.elim [] PowerOfTen.text).head?, Text.isDigit c = false ∧ c ≠ '.' := by
  intro c first
  cases power with
  | none => cases first
  | some p =>
    cases first
    have letter := (h p rfl).letter
    exact ⟨isDigit_of_letter letter, by rcases letter with e | e <;> rw [e] <;> decide⟩

theorem takeFraction_text {fraction : Option Text} {power : Option PowerOfTen}
    (hf : ∀ digits ∈ fraction, ∀ c ∈ digits, Text.isDigit c = true)
    (hp : ∀ p ∈ power, p.Written) :
    takeFraction (fraction.elim [] ('.' :: ·) ++ power.elim [] PowerOfTen.text) =
      (fraction, power.elim [] PowerOfTen.text) := by
  have head := head_power hp
  cases fraction with
  | none =>
    generalize power.elim [] PowerOfTen.text = t at head
    cases t with
    | nil => rfl
    | cons c t => simp [takeFraction, (head c rfl).2]
  | some digits =>
    obtain ⟨run, rest⟩ := cut_digits (hf digits rfl) fun c first => (head c first).1
    simp [takeFraction, run, rest]

theorem takeDecimal_text {whole : Text} {fraction : Option Text} {power : Option PowerOfTen}
    (h : (Magnitude.decimal whole fraction power).Written) :
    takeDecimal (Magnitude.decimal whole fraction power).text =
      (.decimal whole fraction power, []) := by
  obtain _ | ⟨hw, hf, hp, -⟩ := h
  have stop : ∀ c ∈ (fraction.elim [] ('.' :: ·) ++ power.elim [] PowerOfTen.text).head?,
      Text.isDigit c = false := by
    cases fraction with
    | none => exact fun c first => (head_power hp c first).1
    | some digits =>
      rintro c ⟨⟩
      decide
  obtain ⟨run, rest⟩ := cut_digits hw stop
  have power : takePower (power.elim [] PowerOfTen.text) = (power, []) := by
    cases power with
    | none => rfl
    | some p => exact takePower_text (hp p rfl)
  simp only [takeDecimal, Magnitude.text, List.append_assoc, run, rest, takeFraction_text hf hp,
    power]

theorem takeMagnitude_text {m : Magnitude} (h : m.Written) : takeMagnitude m.text = (m, []) := by
  cases m with
  | hexadecimal letter digits =>
    obtain ⟨hl, all⟩ | _ := h
    have run : digits.takeWhile isHexDigit = digits := by
      simpa using @List.takeWhile_append_of_pos _ isHexDigit digits [] all
    have rest : digits.dropWhile isHexDigit = [] := by
      simpa using @List.dropWhile_append_of_pos _ isHexDigit digits [] all
    simp [Magnitude.text, takeMagnitude, hl, run, rest]
  | decimal whole fraction power =>
    have read := takeDecimal_text h
    unfold takeMagnitude
    split
    · next c t eq =>
      split
      · next letter =>
        exact absurd (by simp [eq]) (not_mem_text_decimal h letter)
      · rwa [← eq]
    · exact read

theorem scan_text {n : Numeral} (h : n.Written) : scan n.text = (n, []) := by
  have signed := takeSign_text h []
  simp only [List.append_nil] at signed
  simp only [scan, signed, takeMagnitude_text h.magnitude]

/-- A text is the one of one written numeral only. -/
theorem Written.eq_of_text_eq {n m : Numeral} (hn : n.Written) (hm : m.Written)
    (eq : n.text = m.text) : n = m := by
  have := scan_text hn
  rw [eq, scan_text hm] at this
  exact (congrArg Prod.fst this).symm

/-- A numeral starts where the text of a written one does. -/
theorem startsNumeral_of_written {n : Numeral} (h : n.Written) (s : Text) :
    Piece.startsNumeral (n.text ++ s) = true := by
  obtain ⟨c, t, eq, first⟩ := exists_text_magnitude h.magnitude
  cases sign : n.sign with
  | some d => simp [text, sign, eq, Piece.startsNumeral, h.sign d sign, first]
  | none =>
    have digit : Text.isDigit c = true := h.unsigned sign c (by simp [text, sign, eq])
    cases rest : t ++ s <;> simp [text, sign, eq, rest, Piece.startsNumeral, digit]

/-- **The longest numeral in front of a text is the scanned one.** -/
theorem scan_of_longest {n : Numeral} {rest : Text} (h : n.Written)
    (longest : Text.Longest Form n.text rest) : scan (n.text ++ rest) = (n, rest) := by
  have starts := startsNumeral_of_written h rest
  obtain ⟨text, behind⟩ := (longest_scan starts).unique longest (text_scan _)
  exact Prod.ext ((written_scan starts).eq_of_text_eq h text) behind

end Numeral

end IdlFlow
