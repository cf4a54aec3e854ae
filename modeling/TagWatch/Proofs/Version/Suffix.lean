import TagWatch.Decision.Decide
import TagWatch.Proofs.Version.Grammar
import TagWatch.Proofs.Version.Selection

/-!
# The suffix of a tag and the ending of its version

What follows the first hyphen of a tag is looked at twice. The suffix of a tag (`tagSuffix`), which
is shown in a trace, leaves out a text of digits alone. A version keeps as text
(`Version.qualifier`) what is no packaging revision: its variant, by which candidates are chosen, or
its prerelease.

**Theorem (`tagSuffix_qualifier`).** Of every tag that holds a version the suffix is what the
version keeps as text, except in two cases. A numeral with a plus sign is a revision, and yet a
suffix; a numeral that does not fit into 64 bits is a variant, and yet no suffix.

So the two agree exactly where "digits alone" and "a revision" mean the same, and both exceptions
are numerals.
-/

namespace TagWatch

open Text

namespace Text

variable {s : List Char}

/-- A numeral with a plus sign in front. -/
def IsPlusNumeral (s : List Char) : Prop := ∃ digits, s = '+' :: digits ∧ IsNumeral digits

/-- Digits alone that do not fit into 64 bits. -/
structure IsLongNumeral (s : List Char) : Prop where
  digits : ∀ c ∈ s, c.isDigit = true
  large : 18446744073709551615 < digitsValue s

/-- A numeral has digits alone, or a plus sign in front of them. -/
theorem isSigned_iff : (∃ n, IsSigned s n) ↔ IsNumeral s ∨ IsPlusNumeral s := by
  constructor
  · rintro ⟨n, digits, rfl | rfl, hnumeral, -⟩
    · exact .inl hnumeral
    · exact .inr ⟨digits, rfl, hnumeral⟩
  · rintro (hnumeral | ⟨digits, rfl, hnumeral⟩)
    · exact ⟨_, s, .inl rfl, hnumeral, rfl⟩
    · exact ⟨_, digits, .inr rfl, hnumeral, rfl⟩

theorem IsPlusNumeral.not_digits (h : IsPlusNumeral s) : ¬ ∀ c ∈ s, c.isDigit = true := by
  obtain ⟨digits, rfl, -⟩ := h
  intro hdigits
  exact absurd (hdigits '+' List.mem_cons_self) (by decide)

theorem IsLongNumeral.not_isSigned (h : IsLongNumeral s) : ¬ ∃ n, IsSigned s n := by
  intro hsigned
  rcases isSigned_iff.mp hsigned with hnumeral | hplus
  · exact absurd hnumeral.bounded (Nat.not_le.mpr h.large)
  · exact hplus.not_digits h.digits

/-- Digits alone are a revision unless there are too many of them, and a revision has digits alone
unless there is a plus sign in front. -/
theorem digits_iff_isSigned_iff (hne : s ≠ []) :
    ((∀ c ∈ s, c.isDigit = true) ↔ ∃ n, IsSigned s n) ↔
      ¬ IsPlusNumeral s ∧ ¬ IsLongNumeral s := by
  constructor
  · intro h
    constructor
    · intro hplus
      exact hplus.not_digits (h.mpr (isSigned_iff.mpr (.inr hplus)))
    · intro hlong
      exact hlong.not_isSigned (h.mp hlong.digits)
  · rintro ⟨hplus, hlong⟩
    rw [isSigned_iff, or_iff_left hplus]
    constructor
    · intro hdigits
      refine ⟨hne, hdigits, Nat.le_of_not_lt ?_⟩
      intro hlarge
      exact hlong ⟨hdigits, hlarge⟩
    · intro hnumeral
      exact hnumeral.digits

end Text

/-! ## What is kept of an ending -/

/-- What is kept of an ending as a text: a variant or a prerelease. -/
def Ending.text? : Ending → Option String
  | .prerelease p => some p.render
  | .variant s => some s
  | _ => Option.none

namespace Ending.Spells

variable {rest : List Char} {e : Ending} (h : Spells (some rest) e)
include h

theorem text?_eq_none_iff : e.text? = Option.none ↔ ∃ n, IsSigned rest n := by
  cases h with
  | revision hsigned => exact iff_of_true rfl ⟨_, hsigned⟩
  | prerelease hother _ _ =>
    refine iff_of_false (Option.some_ne_none _) ?_
    rintro ⟨n, hsigned⟩
    exact hother n hsigned
  | variant hother _ =>
    refine iff_of_false (Option.some_ne_none _) ?_
    rintro ⟨n, hsigned⟩
    exact hother n hsigned

/-- An ending is kept as it is written. -/
theorem text?_eq (hkept : e.text? ≠ Option.none) : e.text? = some (String.ofList rest) := by
  cases h with
  | revision _ => exact absurd rfl hkept
  | prerelease _ _ hparts => exact congrArg some hparts.render
  | variant _ _ => rfl

end Ending.Spells

namespace Version

variable {tag : String} {v : Version} {head rest : List Char}

/-- What a version keeps as a text of what follows the first hyphen. -/
def qualifier (v : Version) : Option String := v.ending.text?

/-- The ending of a version is what follows the first hyphen of its tag. -/
theorem spells_ending (h : ofTag? tag = some v) :
    Ending.Spells ((cut '-' tag.toList).map Prod.snd) v.ending := by
  obtain ⟨mark, numerals, ending, hwritten⟩ := exists_written h
  have hspells := (hwritten.ofTag?_eq_some_iff.mp h).ending
  rw [hwritten.cut_eq]
  cases ending with
  | none => exact hspells
  | some s => exact hspells

theorem ne_nil_of_cut (h : ofTag? tag = some v) (hcut : cut '-' tag.toList = some (head, rest)) :
    rest ≠ [] := by
  rintro rfl
  rw [ofTag?, ofChars?, hcut] at h
  cases h

/-- A release keeps only its variant. -/
theorem qualifier_of_release (h : ofTag? tag = some v) (hrelease : v.isPrerelease = false) :
    v.qualifier = v.variant := by
  have hspells := spells_ending h
  obtain ⟨_, _, _, _, _, e⟩ := v
  cases e with
  | none => rfl
  | revision _ => rfl
  | variant _ => rfl
  | prerelease p =>
    have hnil : p = [] := by simpa [isPrerelease, prerelease] using hrelease
    generalize (cut '-' tag.toList).map Prod.snd = rest at hspells
    cases hspells with
    | prerelease _ _ hparts => exact absurd hnil hparts.ne_nil

/-- Without a hyphen a version keeps nothing. -/
theorem qualifier_of_cut_eq_none (h : ofTag? tag = some v) (hcut : cut '-' tag.toList = none) :
    v.qualifier = none := by
  have hspells := spells_ending h
  rw [hcut, Option.map_none] at hspells
  rw [qualifier]
  generalize v.ending = e at hspells
  cases hspells with
  | none => rfl

end Version

/-! ## The suffix -/

section Suffix

variable {tag : String} {v : Version} {head rest : List Char}

theorem tagSuffix_of_digits (hcut : cut '-' tag.toList = some (head, rest))
    (hdigits : ∀ c ∈ rest, c.isDigit = true) : tagSuffix tag = none := by
  rw [tagSuffix, hcut]
  exact if_pos (List.all_eq_true.mpr hdigits)

theorem tagSuffix_of_not_digits (hcut : cut '-' tag.toList = some (head, rest))
    (hdigits : ¬ ∀ c ∈ rest, c.isDigit = true) : tagSuffix tag = some (String.ofList rest) := by
  rw [tagSuffix, hcut]
  exact if_neg (mt List.all_eq_true.mp hdigits)

/-- Both texts are the whole of what follows the hyphen, or absent. -/
theorem tagSuffix_eq_qualifier_iff (h : Version.ofTag? tag = some v)
    (hcut : cut '-' tag.toList = some (head, rest)) :
    tagSuffix tag = v.qualifier ↔ ¬ IsPlusNumeral rest ∧ ¬ IsLongNumeral rest := by
  have hspells := Version.spells_ending h
  rw [hcut, Option.map_some] at hspells
  rw [← digits_iff_isSigned_iff (Version.ne_nil_of_cut h hcut), ← hspells.text?_eq_none_iff,
    Version.qualifier]
  by_cases hdigits : ∀ c ∈ rest, c.isDigit = true
  · rw [tagSuffix_of_digits hcut hdigits, iff_true_left hdigits]
    exact eq_comm
  · rw [tagSuffix_of_not_digits hcut hdigits, iff_false_left hdigits]
    constructor
    · intro heq hnone
      rw [hnone] at heq
      cases heq
    · intro hkept
      exact (hspells.text?_eq hkept).symm

/-- The trace of an answered fetch shows the suffix of the tag. -/
theorem ContainerState.suffix_decide {s : ContainerState} {fetch : FetchResult}
    (h : fetch.error = none) : (s.decide fetch).trace.suffix = tagSuffix s.tag := by
  rw [ContainerState.decide, h]
  rfl

/-- **The suffix of a tag is what its version keeps as text of its ending**, exactly if the ending
is neither a numeral with a plus sign nor one that does not fit into 64 bits. The first of these is
a revision with a suffix, and the second a variant without one. The trace of a decision shows the
suffix; where the two texts agree, and the tag is no prerelease, this is the variant that all
candidates for the tag have. -/
theorem tagSuffix_qualifier (h : Version.ofTag? tag = some v) :
    (tagSuffix tag = v.qualifier ↔ ∀ head rest, tag.toList = head ++ '-' :: rest → '-' ∉ head →
      ¬ IsPlusNumeral rest ∧ ¬ IsLongNumeral rest) ∧
    (∀ head rest, tag.toList = head ++ '-' :: rest → '-' ∉ head →
      (IsPlusNumeral rest → tagSuffix tag = some (String.ofList rest) ∧ v.qualifier = none) ∧
      (IsLongNumeral rest → tagSuffix tag = none ∧ v.qualifier = some (String.ofList rest))) ∧
    ∀ (s : ContainerState) (fetch : FetchResult), s.tag = tag → fetch.error = none →
      (s.decide fetch).trace.suffix = tagSuffix tag ∧
      (tagSuffix tag = v.qualifier → v.isPrerelease = false →
        ∀ scope prereleases tags, ∀ t ∈ candidates v scope prereleases tags,
          t.version.variant = (s.decide fetch).trace.suffix) := by
  refine ⟨?_, ?_, ?_⟩
  · cases hcut : cut '-' tag.toList with
    | none =>
      rw [Version.qualifier_of_cut_eq_none h hcut]
      refine iff_of_true (by simp [tagSuffix, hcut]) ?_
      intro head rest htag
      exact absurd (htag ▸ List.mem_append_right head List.mem_cons_self)
        (cut_eq_none_iff.mp hcut)
    | some p =>
      obtain ⟨head, rest⟩ := p
      rw [tagSuffix_eq_qualifier_iff h hcut]
      constructor
      · intro hplain head' rest' htag hhead
        have hcut' := cut_eq_some_iff.mpr ⟨htag, hhead⟩
        rw [hcut] at hcut'
        obtain ⟨-, rfl⟩ := Prod.mk.inj (Option.some.inj hcut')
        exact hplain
      · intro hplain
        obtain ⟨htag, hhead⟩ := cut_eq_some_iff.mp hcut
        exact hplain head rest htag hhead
  · intro head rest htag hhead
    have hcut : cut '-' tag.toList = some (head, rest) := cut_eq_some_iff.mpr ⟨htag, hhead⟩
    have hspells := Version.spells_ending h
    rw [hcut, Option.map_some] at hspells
    constructor
    · intro hplus
      refine ⟨tagSuffix_of_not_digits hcut hplus.not_digits, ?_⟩
      exact hspells.text?_eq_none_iff.mpr (isSigned_iff.mpr (.inr hplus))
    · intro hlong
      refine ⟨tagSuffix_of_digits hcut hlong.digits, hspells.text?_eq ?_⟩
      exact mt hspells.text?_eq_none_iff.mp hlong.not_isSigned
  · rintro s fetch rfl hanswered
    rw [ContainerState.suffix_decide hanswered]
    refine ⟨rfl, ?_⟩
    intro hsame hrelease scope prereleases tags t ht
    have heligible := (Version.candidate_iff.mp (List.mem_filter.mp ht).2).1
    rw [hsame, Version.qualifier_of_release h hrelease]
    exact heligible.variant

/-- A packaging revision with a plus sign is shown as a suffix, and a numeral that is too long is a
variant that is not shown. -/
theorem tagSuffix_qualifier_numerals :
    Version.ofTag? "1.0.0-+5" = some ⟨false, 3, 1, 0, 0, .revision 5⟩ ∧
      tagSuffix "1.0.0-+5" = some "+5" ∧
    Version.ofTag? "1.0.0-99999999999999999999" =
        some ⟨false, 3, 1, 0, 0, .variant "99999999999999999999"⟩ ∧
      tagSuffix "1.0.0-99999999999999999999" = none := by
  have hplus : Version.ofTag? "1.0.0-+5" = some ⟨false, 3, 1, 0, 0, .revision 5⟩ := by
    decide +kernel
  have hlong : Version.ofTag? "1.0.0-99999999999999999999" =
      some ⟨false, 3, 1, 0, 0, .variant "99999999999999999999"⟩ := by decide +kernel
  refine ⟨hplus, ?_, hlong, ?_⟩
  · refine (((tagSuffix_qualifier hplus).2.1 "1.0.0".toList "+5".toList rfl (by decide)).1 ?_).1
    exact ⟨['5'], rfl, by decide, by simp, by decide⟩
  · refine (((tagSuffix_qualifier hlong).2.1 "1.0.0".toList "99999999999999999999".toList rfl
      (by decide)).2 ?_).1
    exact ⟨by simp, by decide⟩

end Suffix

end TagWatch
