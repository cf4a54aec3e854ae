import Mathlib.Data.List.Forall2
import TagWatch.Proofs.Registry.Name
import TagWatch.Proofs.Version.Spelling

/-!
# Floating tags hold no version

A tag counts as floating for one of two reasons: it is a well-known floating name, in letters of any
case, or it holds no version. The first reason adds nothing to the second one.

**Theorem (`isFloatingTag_iff`).** A tag is floating if and only if it holds no version.

A version begins with a digit or a `v` (`begins_of_ofTag?`), and no floating name begins so.
-/

namespace TagWatch

open Text

namespace Version

/-- A text begins with a digit or a `v`, small or capital. -/
def Begins (s : List Char) : Prop :=
  ∃ c rest, s = c :: rest ∧ (c.isDigit = true ∨ c = 'v' ∨ c = 'V')

theorem Begins.append {s : List Char} (h : Begins s) (rest : List Char) : Begins (s ++ rest) := by
  obtain ⟨c, s, rfl, hc⟩ := h
  exact ⟨c, s ++ rest, rfl, hc⟩

theorem begins_of_word? {s : List Char} {n : Nat} (h : word? s = some n) : Begins s := by
  obtain ⟨hne, hdigits, -⟩ := word?_eq_some_iff.mp h
  obtain ⟨c, rest, rfl⟩ := List.exists_cons_of_ne_nil hne
  exact ⟨c, rest, rfl, .inl (hdigits c List.mem_cons_self)⟩

theorem begins_joinWith {part : List Char} (h : Begins part) (c : Char)
    (parts : List (List Char)) : Begins (joinWith c (part :: parts)) := by
  cases parts with
  | nil => exact h
  | cons => exact h.append _

/-- A version begins with a digit or a `v`. -/
theorem begins_of_ofTag? {tag : String} {v : Version} (h : ofTag? tag = some v) :
    Begins tag.toList := by
  obtain ⟨⟨ending, htag⟩, -, -, hnumerals⟩ := spelled_of_ofTag? h
  rw [htag]
  apply Begins.append
  rw [mark]
  fun_cases markIn (headOf tag) with
  | case1 => exact ⟨'v', _, rfl, .inr (.inl rfl)⟩
  | case2 => exact ⟨'V', _, rfl, .inr (.inr rfl)⟩
  | case3 =>
    obtain ⟨part, parts, hparts⟩ :=
      List.exists_cons_of_ne_nil (fields_ne_nil '.' (dropMark (headOf tag)).2)
    rw [numerals, hparts] at hnumerals ⊢
    obtain ⟨n, -, hpart, -, -⟩ := List.forall₂_cons_left_iff.mp hnumerals
    exact begins_joinWith (begins_of_word? hpart) '.' parts

theorem toLower_of_isDigit {c : Char} (h : c.isDigit = true) : c.toLower = c := by
  rw [Char.isDigit, Bool.and_eq_true, decide_eq_true_eq, decide_eq_true_eq] at h
  have hhigh : c.toNat ≤ 57 := UInt32.le_iff_toNat_le.mp h.2
  apply Char.toNat_inj.mp
  rw [toNat_toLower, if_neg (by omega)]

/-- Small letters begin in the same way. -/
theorem begins_lower {s : List Char} (h : Begins s) : Begins (lower s) := by
  obtain ⟨c, rest, rfl, hc⟩ := h
  refine ⟨c.toLower, lower rest, rfl, ?_⟩
  rcases hc with hdigit | rfl | rfl
  · left
    rw [toLower_of_isDigit hdigit]
    exact hdigit
  · exact .inr (.inl rfl)
  · exact .inr (.inl rfl)

end Version

/-- No floating name begins like a version. -/
theorem not_begins_of_mem_floatingNames {name : String} (h : name ∈ floatingNames) :
    ¬ Version.Begins name.toList := by
  have hall : ∀ name ∈ floatingNames,
      name.toList.head?.any (fun c => c.isDigit || c == 'v' || c == 'V') = false := by decide
  rintro ⟨c, rest, hname, hc⟩
  have hhead := hall name h
  rw [hname, List.head?_cons, Option.any_some, Bool.or_eq_false_iff, Bool.or_eq_false_iff,
    beq_eq_false_iff_ne, beq_eq_false_iff_ne] at hhead
  obtain ⟨⟨hdigit, hv⟩, hV⟩ := hhead
  rcases hc with hc | hc | hc
  · rw [hc] at hdigit
    cases hdigit
  · exact hv hc
  · exact hV hc

/-- A floating name holds no version, in letters of any case. -/
theorem ofTag?_of_floatingName {tag : String} (h : lowerString tag ∈ floatingNames) :
    Version.ofTag? tag = none := by
  by_contra hne
  obtain ⟨v, hv⟩ := Option.ne_none_iff_exists'.mp hne
  apply not_begins_of_mem_floatingNames h
  rw [lowerString, String.toList_ofList]
  exact Version.begins_lower (Version.begins_of_ofTag? hv)

/-- **A tag is floating if and only if it holds no version.** -/
theorem isFloatingTag_iff {tag : String} :
    isFloatingTag tag = true ↔ Version.ofTag? tag = none := by
  rw [isFloatingTag, Bool.or_eq_true, List.contains_iff_mem, Option.isNone_iff_eq_none,
    or_iff_right_of_imp ofTag?_of_floatingName]

end TagWatch
