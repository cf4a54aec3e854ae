import TagWatch.Version.Order

/-!
# The order of versions is a total preorder

Every comparison that `Version.cmp` is made of is oriented and transitive, so `Version.cmp` is
too: the instances follow the definitions from the inside out. A later version has no smaller
major number, and within one major number no smaller minor number (`major_le_of_isLE`,
`minor_le_of_isLE`); this is all that the scopes of updates ask of the order.
-/

namespace TagWatch

open Std

/-! ## Identifiers and prereleases -/

instance : TransCmp Identifier.cmp where
  eq_swap {a b} := by
    cases a with
    | number m =>
      cases b with
      | number n =>
        show compare m n = (compare n m).swap
        exact OrientedCmp.eq_swap
      | word t => rfl
    | word s =>
      cases b with
      | number n => rfl
      | word t =>
        show compare s t = (compare t s).swap
        exact OrientedCmp.eq_swap
  isLE_trans {a b c} hab hbc := by
    cases a with
    | number m =>
      cases c with
      | word u => rfl
      | number k =>
        cases b with
        | word t => cases hbc
        | number n =>
          change (compare m n).isLE at hab
          change (compare n k).isLE at hbc
          show (compare m k).isLE
          exact TransCmp.isLE_trans hab hbc
    | word s =>
      cases b with
      | number n => cases hab
      | word t =>
        cases c with
        | number k => cases hbc
        | word u =>
          change (compare s t).isLE at hab
          change (compare t u).isLE at hbc
          show (compare s u).isLE
          exact TransCmp.isLE_trans hab hbc

/-- Between prereleases that are not empty, precedence is lexicographic. -/
theorem Prerelease.cmp_cons (i j : Identifier) (p q : Prerelease) :
    Prerelease.cmp (i :: p) (j :: q) = List.compareLex Identifier.cmp (i :: p) (j :: q) := rfl

instance : TransCmp Prerelease.cmp where
  eq_swap {a b} := by
    cases a with
    | nil => cases b <;> rfl
    | cons i p =>
      cases b with
      | nil => rfl
      | cons j q =>
        rw [Prerelease.cmp_cons, Prerelease.cmp_cons]
        exact OrientedCmp.eq_swap
  isLE_trans {a b c} hab hbc := by
    cases c with
    | nil => cases a <;> rfl
    | cons k r =>
      cases b with
      | nil => cases hbc
      | cons j q =>
        cases a with
        | nil => cases hab
        | cons i p =>
          rw [Prerelease.cmp_cons] at hab hbc ⊢
          exact TransCmp.isLE_trans hab hbc

/-! ## Revisions and versions -/

instance : TransCmp cmpRevision where
  eq_swap {a b} := by
    cases a with
    | none => cases b <;> rfl
    | some m =>
      cases b with
      | none => rfl
      | some n =>
        show compare m n = (compare n m).swap
        exact OrientedCmp.eq_swap
  isLE_trans {a b c} hab hbc := by
    cases a with
    | none => cases c <;> rfl
    | some m =>
      cases b with
      | none => cases hab
      | some n =>
        cases c with
        | none => cases hbc
        | some k =>
          change (compare m n).isLE at hab
          change (compare n k).isLE at hbc
          show (compare m k).isLE
          exact TransCmp.isLE_trans hab hbc

/-- An order that looks at values through a function is as transitive as the order on them. -/
theorem transCmp_comap {α β : Type} (cmp : β → β → Ordering) [TransCmp cmp] (f : α → β) :
    TransCmp fun a b => cmp (f a) (f b) where
  eq_swap {a b} := by
    show cmp (f a) (f b) = (cmp (f b) (f a)).swap
    exact OrientedCmp.eq_swap
  isLE_trans {a b c} hab hbc := by
    change (cmp (f a) (f b)).isLE at hab
    change (cmp (f b) (f c)).isLE at hbc
    show (cmp (f a) (f c)).isLE
    exact TransCmp.isLE_trans hab hbc

namespace Version

instance : TransCmp Version.cmp :=
  have : TransCmp fun a b : Version => Prerelease.cmp a.prerelease b.prerelease :=
    transCmp_comap _ _
  have : TransCmp fun a b : Version => cmpRevision a.revision b.revision := transCmp_comap _ _
  inferInstanceAs <| TransCmp <| compareLex (compareOn Version.major) <|
    compareLex (compareOn Version.minor) <| compareLex (compareOn Version.patch) <|
      compareLex (fun a b => Prerelease.cmp a.prerelease b.prerelease)
        (fun a b => cmpRevision a.revision b.revision)

theorem precedes_iff {a b : Version} : a.precedes b = true ↔ b.cmp a = .gt := by
  rw [precedes, beq_iff_eq]

/-- A version that is not later has no larger major number. -/
theorem major_le_of_isLE {a b : Version} (h : (a.cmp b).isLE) : a.major ≤ b.major := by
  have h' : (compare a.major b.major).isLE := Ordering.isLE_left_of_isLE_then h
  exact Nat.isLE_compare.mp h'

/-- Of two versions with one major number, the one that is not later has no larger minor
number. -/
theorem minor_le_of_isLE {a b : Version} (h : (a.cmp b).isLE) (hm : a.major = b.major) :
    a.minor ≤ b.minor := by
  have hmajor : compare a.major b.major = .eq := Nat.compare_eq_eq.mpr hm
  rw [cmp, hmajor, Ordering.eq_then] at h
  exact Nat.isLE_compare.mp (Ordering.isLE_left_of_isLE_then h)

end Version

end TagWatch
