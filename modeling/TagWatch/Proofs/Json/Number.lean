import Mathlib.Data.List.TakeWhile
import TagWatch.Json.Token
import TagWatch.Proofs.Text.Dotted

/-!
# How numbers are written

A number is an optional minus sign, digits without a zero too many in front, and an optional
fraction and an optional exponent (`SpellsNumber`). This is what the test for numbers accepts
(`isNumber_iff`): each of the parts begins with a character that none of the parts before it can
have, so a text is put together in one way only.
-/

namespace TagWatch.Json

open Text

variable {s rest : List Char} {p : Char → Bool}

/-! ## Blocks of characters -/

theorem takeWhile_append_of_stop (hs : ∀ c ∈ s, p c = true)
    (hrest : ∀ c, rest.head? = some c → p c = false) : (s ++ rest).takeWhile p = s := by
  rw [List.takeWhile_append_of_pos hs]
  cases rest with
  | nil => simp
  | cons c rest => simp [hrest c rfl]

theorem dropWhile_append_of_stop (hs : ∀ c ∈ s, p c = true)
    (hrest : ∀ c, rest.head? = some c → p c = false) : (s ++ rest).dropWhile p = rest := by
  rw [List.dropWhile_append_of_pos hs]
  cases rest with
  | nil => rfl
  | cons c rest => simp [hrest c rfl]

/-! ## Parts of a number -/

/-- At least one digit, and nothing else. -/
structure IsDigits (s : List Char) : Prop where
  ne_nil : s ≠ []
  digits : ∀ c ∈ s, c.isDigit = true

/-- How a fraction is written, if there is one. -/
inductive SpellsFraction : List Char → Prop
  | absent : SpellsFraction []
  | present {digits : List Char} (hdigits : IsDigits digits) : SpellsFraction ('.' :: digits)

/-- How an exponent is written, if there is one. -/
inductive SpellsExponent : List Char → Prop
  | absent : SpellsExponent []
  | present {mark : Char} {sign digits : List Char} (hmark : mark = 'e' ∨ mark = 'E')
    (hsign : sign = [] ∨ sign = ['+'] ∨ sign = ['-']) (hdigits : IsDigits digits) :
    SpellsExponent (mark :: (sign ++ digits))

/-- How a number is written: perhaps a minus sign, digits without a zero too many in front, and
perhaps a fraction and an exponent. -/
inductive SpellsNumber : List Char → Prop
  | intro {sign whole fraction exponent : List Char} (hsign : sign = [] ∨ sign = ['-'])
    (hwhole : IsDigits whole) (hplain : Plain whole) (hfraction : SpellsFraction fraction)
    (hexponent : SpellsExponent exponent) :
    SpellsNumber (sign ++ (whole ++ (fraction ++ exponent)))

theorem isDigits_iff : (!s.isEmpty && s.all Char.isDigit) = true ↔ IsDigits s := by
  rw [Bool.and_eq_true, Bool.not_eq_true', List.isEmpty_eq_false_iff, List.all_eq_true]
  exact ⟨fun h => ⟨h.1, h.2⟩, fun h => ⟨h.ne_nil, h.digits⟩⟩

theorem IsDigits.ne_cons (h : IsDigits s) {c : Char} (hc : c.isDigit = false) (rest : List Char) :
    s ≠ c :: rest := by
  rintro rfl
  rw [h.digits c List.mem_cons_self] at hc
  cases hc

/-! ## The test for numbers -/

theorem isExponent_iff : isExponent s = true ↔ SpellsExponent s := by
  constructor
  · intro h
    cases s with
    | nil => exact .absent
    | cons e s =>
      unfold isExponent at h
      rw [Bool.and_eq_true, Bool.or_eq_true, decide_eq_true_eq, decide_eq_true_eq] at h
      obtain ⟨hmark, h⟩ := h
      split at h
      · next digits =>
        have hplus : SpellsExponent (e :: (['+'] ++ digits)) :=
          .present hmark (.inr (.inl rfl)) (isDigits_iff.mp h)
        exact hplus
      · next digits =>
        have hminus : SpellsExponent (e :: (['-'] ++ digits)) :=
          .present hmark (.inr (.inr rfl)) (isDigits_iff.mp h)
        exact hminus
      · have hbare : SpellsExponent (e :: ([] ++ s)) :=
          .present hmark (.inl rfl) (isDigits_iff.mp h)
        exact hbare
  · intro h
    cases h with
    | absent => rfl
    | present hmark hsign hdigits =>
      unfold isExponent
      rw [Bool.and_eq_true, Bool.or_eq_true, decide_eq_true_eq, decide_eq_true_eq]
      refine ⟨hmark, ?_⟩
      rcases hsign with rfl | rfl | rfl
      · split
        · next heq => exact absurd heq (hdigits.ne_cons (by decide) _)
        · next heq => exact absurd heq (hdigits.ne_cons (by decide) _)
        · exact isDigits_iff.mpr hdigits
      · exact isDigits_iff.mpr hdigits
      · exact isDigits_iff.mpr hdigits

theorem SpellsExponent.head (h : SpellsExponent s) {c : Char} (hc : s.head? = some c) :
    c = 'e' ∨ c = 'E' := by
  cases h with
  | absent => cases hc
  | present hmark _ _ => exact Option.some.inj hc ▸ hmark

theorem SpellsExponent.not_isDigit (h : SpellsExponent s) {c : Char} (hc : s.head? = some c) :
    c.isDigit = false := by
  rcases h.head hc with rfl | rfl <;> rfl

theorem isFraction_iff : isFraction s = true ↔
    ∃ fraction exponent, s = fraction ++ exponent ∧ SpellsFraction fraction ∧
      SpellsExponent exponent := by
  constructor
  · intro h
    unfold isFraction at h
    split at h
    · next s =>
      rw [Bool.and_eq_true, Bool.not_eq_true', List.isEmpty_eq_false_iff, isExponent_iff] at h
      refine ⟨'.' :: s.takeWhile Char.isDigit, s.dropWhile Char.isDigit, ?_,
        .present ⟨h.1, ?_⟩, h.2⟩
      · rw [List.cons_append, List.takeWhile_append_dropWhile]
      · intro c hc
        exact List.mem_takeWhile_imp hc
    · exact ⟨[], s, rfl, .absent, isExponent_iff.mp h⟩
  · rintro ⟨fraction, exponent, rfl, hfraction, hexponent⟩
    cases hfraction with
    | absent =>
      unfold isFraction
      split
      · next heq =>
        have hdot := hexponent.head (c := '.') (by rw [← List.nil_append exponent, heq]; rfl)
        exact absurd hdot (by decide)
      · exact isExponent_iff.mpr hexponent
    | present hdigits =>
      have hstop (c : Char) (hc : exponent.head? = some c) := hexponent.not_isDigit hc
      rw [List.cons_append, isFraction, takeWhile_append_of_stop hdigits.digits hstop,
        dropWhile_append_of_stop hdigits.digits hstop, isExponent_iff.mpr hexponent]
      simpa using hdigits.ne_nil

/-- What follows the digits of a number does not go on with them. -/
theorem not_isDigit_of_isFraction (h : isFraction s = true) {c : Char} (hc : s.head? = some c) :
    c.isDigit = false := by
  obtain ⟨fraction, exponent, rfl, hfraction, hexponent⟩ := isFraction_iff.mp h
  cases hfraction with
  | absent => exact hexponent.not_isDigit hc
  | present _ =>
    obtain rfl := Option.some.inj hc
    rfl

theorem isUnsigned_iff : isUnsigned s = true ↔
    ∃ whole tail, s = whole ++ tail ∧ IsDigits whole ∧ Plain whole ∧ isFraction tail = true := by
  constructor
  · intro h
    rw [isUnsigned, Bool.and_eq_true] at h
    obtain ⟨hwhole, htail⟩ := h
    refine ⟨s.takeWhile Char.isDigit, s.dropWhile Char.isDigit,
      List.takeWhile_append_dropWhile.symm, ⟨?_, ?_⟩, ?_, htail⟩
    · intro hnil
      rw [hnil] at hwhole
      cases hwhole
    · intro c hc
      exact List.mem_takeWhile_imp hc
    · intro hzero
      obtain ⟨others, hothers⟩ := List.head?_eq_some_iff.mp hzero
      cases others with
      | nil => exact hothers
      | cons d others =>
        rw [hothers] at hwhole
        cases hwhole
  · rintro ⟨whole, tail, rfl, hwhole, hplain, htail⟩
    have hstop (c : Char) (hc : tail.head? = some c) := not_isDigit_of_isFraction htail hc
    rw [isUnsigned, takeWhile_append_of_stop hwhole.digits hstop,
      dropWhile_append_of_stop hwhole.digits hstop, htail, Bool.and_true]
    split
    · exact absurd rfl hwhole.ne_nil
    · exact absurd (hplain rfl) (by simp)
    · rfl

/-- The test for numbers accepts what is written as a number. -/
theorem isNumber_iff : isNumber s = true ↔ SpellsNumber s := by
  constructor
  · intro h
    unfold isNumber at h
    split at h
    · obtain ⟨whole, tail, rfl, hwhole, hplain, htail⟩ := isUnsigned_iff.mp h
      obtain ⟨fraction, exponent, rfl, hfraction, hexponent⟩ := isFraction_iff.mp htail
      have hminus : SpellsNumber (['-'] ++ (whole ++ (fraction ++ exponent))) :=
        .intro (.inr rfl) hwhole hplain hfraction hexponent
      exact hminus
    · obtain ⟨whole, tail, rfl, hwhole, hplain, htail⟩ := isUnsigned_iff.mp h
      obtain ⟨fraction, exponent, rfl, hfraction, hexponent⟩ := isFraction_iff.mp htail
      have hbare : SpellsNumber ([] ++ (whole ++ (fraction ++ exponent))) :=
        .intro (.inl rfl) hwhole hplain hfraction hexponent
      exact hbare
  · rintro ⟨hsign, hwhole, hplain, hfraction, hexponent⟩
    have hunsigned := isUnsigned_iff.mpr ⟨_, _, rfl, hwhole, hplain,
      isFraction_iff.mpr ⟨_, _, rfl, hfraction, hexponent⟩⟩
    rcases hsign with rfl | rfl
    · obtain ⟨c, digits, rfl⟩ := List.exists_cons_of_ne_nil hwhole.ne_nil
      unfold isNumber
      split
      · next heq =>
        obtain rfl : c = '-' := (List.cons.inj heq).1
        exact absurd rfl (hwhole.ne_cons (by decide) digits)
      · exact hunsigned
    · exact hunsigned

/-- A natural number is written with its digits alone. -/
theorem spellsNumber_toDigits (n : Nat) : SpellsNumber (Nat.toDigits 10 n) := by
  have hdigits : IsDigits (Nat.toDigits 10 n) := ⟨Nat.toDigits_ne_nil, fun c hc =>
    Nat.isDigit_of_mem_toDigits (by decide) (by decide) hc⟩
  have h := SpellsNumber.intro (.inl rfl) hdigits (plain_toDigits n) .absent .absent
  rwa [List.append_nil, List.append_nil, List.nil_append] at h

/-! ## The characters of a number -/

theorem IsDigits.isNumberChar (h : IsDigits s) : ∀ c ∈ s, isNumberChar c = true := by
  intro c hc
  simp [Json.isNumberChar, h.digits c hc]

theorem SpellsNumber.isNumberChar (h : SpellsNumber s) : ∀ c ∈ s, isNumberChar c = true := by
  obtain ⟨hsign, hwhole, -, hfraction, hexponent⟩ := h
  simp only [List.mem_append]
  rintro c (hc | hc | hc | hc)
  · rcases hsign with rfl | rfl
    · cases hc
    · obtain rfl := List.mem_singleton.mp hc
      rfl
  · exact hwhole.isNumberChar c hc
  · cases hfraction with
    | absent => cases hc
    | present hdigits =>
      rcases List.mem_cons.mp hc with rfl | hc
      · rfl
      · exact hdigits.isNumberChar c hc
  · cases hexponent with
    | absent => cases hc
    | present hmark hsign hdigits =>
      rw [List.mem_cons, List.mem_append] at hc
      rcases hc with rfl | hc | hc
      · rcases hmark with rfl | rfl <;> rfl
      · rcases hsign with rfl | rfl | rfl <;> simp_all [Json.isNumberChar]
      · exact hdigits.isNumberChar c hc

/-- A number begins with a digit or a minus sign. -/
theorem SpellsNumber.head (h : SpellsNumber s) :
    ∃ c rest, s = c :: rest ∧ (c.isDigit || c = '-') = true := by
  obtain ⟨hsign, hwhole, -, -, -⟩ := h
  rcases hsign with rfl | rfl
  · obtain ⟨c, digits, rfl⟩ := List.exists_cons_of_ne_nil hwhole.ne_nil
    exact ⟨c, _, rfl, by simp [hwhole.digits c List.mem_cons_self]⟩
  · exact ⟨'-', _, rfl, rfl⟩

end TagWatch.Json
