import TagWatch.Proofs.Text.Dotted
import TagWatch.Version.Basic

/-!
# How a version is written in a tag

Different tags can hold the same version: there may be a `v` in front, small or capital, and the
numbers may have leading zeros. `mark` is what stands in front, `numerals` are the numbers as they
are written. A tag that holds a version consists of its mark, its numerals with dots between them
and an ending, and its numerals denote the numbers of the version (`spelled_of_ofTag?`).
-/

namespace TagWatch.Version

open Text

/-- The part of a tag before its first hyphen. -/
def headOf (tag : String) : List Char :=
  match cut '-' tag.toList with
  | none => tag.toList
  | some (head, _) => head

/-- The `v` in front of a text, if there is one. -/
def markIn : List Char → List Char
  | 'v' :: _ => ['v']
  | 'V' :: _ => ['V']
  | _ => []

/-- The `v` in front of a tag, if there is one. -/
def mark (tag : String) : List Char := markIn (headOf tag)

/-- The numbers in a tag as they are written. -/
def numerals (tag : String) : List (List Char) := fields '.' (dropMark (headOf tag)).2

/-- The numbers of a version that are written in its tag. -/
def numbers (v : Version) : List Nat := [v.major, v.minor, v.patch].take v.components

/-- A tag is a spelling of a version. -/
structure Spelled (tag : String) (v : Version) : Prop where
  toList : ∃ ending, tag.toList = mark tag ++ joinWith '.' (numerals tag) ++ ending
  prefixed : v.prefixed = true ↔ mark tag ≠ []
  components : v.components ≤ 3
  numerals : List.Forall₂ (fun s n => word? s = some n) (numerals tag) (numbers v)

theorem markIn_append_dropMark (s : List Char) : markIn s ++ (dropMark s).2 = s := by
  fun_cases markIn s with
  | case1 => rfl
  | case2 => rfl
  | case3 s hv hV => rw [dropMark.eq_3 s hv hV]; rfl

theorem dropMark_fst_iff (s : List Char) : (dropMark s).1 = true ↔ markIn s ≠ [] := by
  fun_cases markIn s with
  | case1 => simp [dropMark]
  | case2 => simp [dropMark]
  | case3 s hv hV => simp [dropMark.eq_3 s hv hV]

theorem exists_ending (tag : String) : ∃ ending, tag.toList = headOf tag ++ ending := by
  rw [headOf]
  split
  · exact ⟨[], (List.append_nil _).symm⟩
  · next head rest h => exact ⟨'-' :: rest, (cut_eq_some_iff.mp h).1⟩

theorem mark_of_ne_nil {tag : String} (h : mark tag ≠ []) : mark tag = tag.toList.take 1 := by
  obtain ⟨ending, htag⟩ := exists_ending tag
  rw [htag, mark] at *
  generalize headOf tag = head at h
  fun_cases markIn head with
  | case1 => rfl
  | case2 => rfl
  | case3 _ hv hV => exact absurd (markIn.eq_3 _ hv hV) h

theorem numbers_of_ofNumbers {prefixed : Bool} {ending : Ending} {ns : List Nat} {v : Version}
    (h : ofNumbers prefixed ending ns = some v) :
    numbers v = ns ∧ v.prefixed = prefixed ∧ v.components ≤ 3 := by
  unfold ofNumbers at h
  split at h
  · obtain rfl := Option.some.inj h
    exact ⟨rfl, rfl, Nat.le_of_ble_eq_true rfl⟩
  · obtain rfl := Option.some.inj h
    exact ⟨rfl, rfl, Nat.le_of_ble_eq_true rfl⟩
  · obtain rfl := Option.some.inj h
    exact ⟨rfl, rfl, Nat.le_of_ble_eq_true rfl⟩
  · cases h

theorem ofHead_spelled {tag : String} {ending : Ending} {v : Version}
    (h : ofHead (headOf tag) ending = some v) : Spelled tag v := by
  obtain ⟨ns, hns, hv⟩ := Option.bind_eq_some_iff.mp h
  obtain ⟨hnumbers, hprefixed, hcomponents⟩ := numbers_of_ofNumbers hv
  refine ⟨?_, ?_, hcomponents, hnumbers ▸ forall₂_of_mapM hns⟩
  · obtain ⟨rest, htag⟩ := exists_ending tag
    refine ⟨rest, ?_⟩
    rw [htag, mark, numerals, joinWith_fields, markIn_append_dropMark]
  · rw [hprefixed]
    exact dropMark_fst_iff (headOf tag)

/-- **A tag that holds a version is a spelling of it.** -/
theorem spelled_of_ofTag? {tag : String} {v : Version} (h : ofTag? tag = some v) :
    Spelled tag v := by
  rw [ofTag?, ofChars?] at h
  cases hcut : cut '-' tag.toList with
  | none =>
    rw [hcut] at h
    have hhead : headOf tag = tag.toList := by rw [headOf, hcut]
    exact ofHead_spelled (hhead ▸ h)
  | some p =>
    obtain ⟨head, rest⟩ := p
    rw [hcut] at h
    have hhead : headOf tag = head := by rw [headOf, hcut]
    simp only at h
    split at h
    · cases h
    · exact ofHead_spelled (hhead ▸ h)

end TagWatch.Version
