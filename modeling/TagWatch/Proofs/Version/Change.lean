import TagWatch.Proofs.Decision.Consistency
import TagWatch.Proofs.Version.Adoption
import TagWatch.Proofs.Version.Newest

/-!
# Changes of version add up

The level of a change is read from the first number that differs, while the order of versions also
looks at the prerelease and the packaging revision.

**Theorem (`change?_graded`).** No version changes to itself, of two versions at most one changes to
the other, and neither does exactly if they agree in all that the order looks at. Two changes in a
row are one change, whose level is the larger of the two.

The level of a change is the least scope around the older version that holds the newer one
(`change?_eq_some_iff`). A scope that holds the end of two changes in a row also holds the version
between them, because the numbers that a scope fixes come first in the order
(`inside_iff_of_between`). So the scopes that hold the end are those that reach as far as both
levels, and so it goes for any number of changes in a row (`Climb.change?_eq`).
-/

namespace TagWatch

open Std

/-! ## Levels -/

namespace Level

variable {x y s : Level}

theorem max_le_iff : x.max y ≤ s ↔ x ≤ s ∧ y ≤ s := by
  cases x <;> cases y <;> cases s <;> decide

/-- A level is known by the levels that it does not exceed. -/
theorem eq_of_forall_le_iff (h : ∀ s, x ≤ s ↔ y ≤ s) : x = y := by
  have hxy : x ≤ y := (h y).mpr (Nat.le_refl _)
  have hyx : y ≤ x := (h x).mp (Nat.le_refl _)
  have hrank : x.rank = y.rank := Nat.le_antisymm hxy hyx
  cases x <;> cases y <;> first | rfl | cases hrank

end Level

namespace Version

variable {a b c : Version} {x y : Level}

/-! ## One change -/

/-- Two versions agree in all that the order looks at. -/
structure Same (a b : Version) : Prop where
  major : a.major = b.major
  minor : a.minor = b.minor
  patch : a.patch = b.patch
  prerelease : a.prerelease = b.prerelease
  revision : a.revision = b.revision

theorem cmp_eq_iff : a.cmp b = .eq ↔ a.Same b := by
  simp only [cmp, Ordering.then_eq_eq, LawfulEqCmp.compare_eq_iff_eq]
  constructor
  · rintro ⟨hmajor, hminor, hpatch, hprerelease, hrevision⟩
    exact { major := hmajor, minor := hminor, patch := hpatch, prerelease := hprerelease,
            revision := hrevision }
  · intro h
    exact ⟨h.major, h.minor, h.patch, h.prerelease, h.revision⟩

theorem change?_eq_none_iff : a.change? b = none ↔ b.cmp a ≠ .gt := by
  rw [← Option.not_isSome_iff_eq_none, change?_isSome_iff]

theorem inside_iff_of_change? (h : a.change? b = some x) (scope : Level) :
    Inside scope a b ↔ x ≤ scope := by
  unfold change? at h
  split at h
  · cases h
  · split at h
    · next hmajor =>
      cases h
      cases scope <;> simp [Inside, hmajor] <;> decide
    · next hmajor =>
      rw [ne_eq, Decidable.not_not] at hmajor
      split at h
      · next hminor =>
        cases h
        cases scope <;> simp [Inside, hmajor, hminor] <;> decide
      · next hminor =>
        rw [ne_eq, Decidable.not_not] at hminor
        cases h
        cases scope <;> simp [Inside, hmajor, hminor] <;> decide

/-- The level of a change is the least scope that holds the newer version. -/
theorem change?_eq_some_iff :
    a.change? b = some x ↔ b.cmp a = .gt ∧ ∀ scope, Inside scope a b ↔ x ≤ scope := by
  constructor
  · intro h
    have hnewer : b.cmp a = .gt := change?_isSome_iff.mp (by simp [h])
    exact ⟨hnewer, inside_iff_of_change? h⟩
  · intro ⟨hnewer, hinside⟩
    obtain ⟨y, hy⟩ := Option.isSome_iff_exists.mp (change?_isSome_iff.mpr hnewer)
    have hyx : y = x := by
      apply Level.eq_of_forall_le_iff
      intro scope
      rw [← inside_iff_of_change? hy, hinside]
    rw [hy, hyx]

/-! ## Changes in a row -/

/-- A scope holds the last of three versions if and only if it leads from each to the next. -/
theorem inside_iff_of_between {scope : Level} (hab : b.cmp a = .gt) (hbc : c.cmp b = .gt) :
    Inside scope a c ↔ Inside scope a b ∧ Inside scope b c := by
  constructor
  · intro hc
    have hle : (b.cmp c).isLE := Ordering.isLE_of_eq_lt (OrientedCmp.lt_of_gt hbc)
    have hb : Inside scope a b := inside_of_isLE hab hle hc
    refine ⟨hb, ?_⟩
    cases scope with
    | major => trivial
    | minor => exact Eq.trans hc (Eq.symm hb)
    | patch => exact ⟨hc.1.trans hb.1.symm, hc.2.trans hb.2.symm⟩
  · intro ⟨hb, hc⟩
    exact hb.trans hc

theorem change?_trans (hab : a.change? b = some x) (hbc : b.change? c = some y) :
    a.change? c = some (x.max y) := by
  rw [change?_eq_some_iff] at hab hbc ⊢
  refine ⟨TransCmp.gt_trans hbc.1 hab.1, ?_⟩
  intro scope
  rw [inside_iff_of_between hab.1 hbc.1, hab.2, hbc.2, Level.max_le_iff]

/-- A way from one version to a newer one over any number of releases in between, and the largest
level of a change on the way. -/
inductive Climb : Version → Version → Level → Prop
  | one {a b : Version} {x : Level} : a.change? b = some x → Climb a b x
  | more {a b c : Version} {x y : Level} :
      Climb a b x → b.change? c = some y → Climb a c (x.max y)

/-- The level of a jump is the largest one on the way, whichever releases the way passes. -/
theorem Climb.change?_eq (h : Climb a b x) : a.change? b = some x := by
  induction h with
  | one hab => exact hab
  | more _ hbc hab => exact change?_trans hab hbc

/-- **The change of version is a graded strict order.** No version changes to itself; of two versions
at most one changes to the other, and neither does if and only if their numbers, prereleases and
revisions are equal; and the level of two changes in a row is the larger of the two levels. -/
theorem change?_graded (a b c : Version) :
    a.change? a = none ∧
    (a.change? b = none ∨ b.change? a = none) ∧
    (a.change? b = none ∧ b.change? a = none ↔ a.Same b) ∧
    ∀ x y, a.change? b = some x → b.change? c = some y → a.change? c = some (x.max y) := by
  have hself : a.change? a = none := by
    have heq : a.cmp a = .eq := ReflCmp.compare_self
    rw [change?_eq_none_iff, heq]
    decide
  have hswap : b.cmp a = (a.cmp b).swap := OrientedCmp.eq_swap
  refine ⟨hself, ?_, ?_, ?_⟩
  · rw [change?_eq_none_iff, change?_eq_none_iff, hswap]
    cases a.cmp b <;> decide
  · rw [change?_eq_none_iff, change?_eq_none_iff, hswap, ← cmp_eq_iff]
    cases a.cmp b <;> decide
  · intro x y hab hbc
    exact change?_trans hab hbc

/-- From a release candidate to its release is a patch, from there to a repackaged minor release a
minor change, and so the whole jump is minor. -/
theorem change?_graded_repackaged :
    ∃ a b c : Version, ofTag? "1.0.0-rc.1" = some a ∧ ofTag? "1.0.0" = some b ∧
      ofTag? "1.1.0-2" = some c ∧ a.change? b = some .patch ∧ b.change? c = some .minor ∧
      a.change? c = some .minor := by
  refine ⟨⟨false, 3, 1, 0, 0, .prerelease [.word ['r', 'c'], .number 1]⟩,
    ⟨false, 3, 1, 0, 0, .none⟩, ⟨false, 3, 1, 1, 0, .revision 2⟩, ?_⟩
  have hpatch : change? ⟨false, 3, 1, 0, 0, .prerelease [.word ['r', 'c'], .number 1]⟩
      ⟨false, 3, 1, 0, 0, .none⟩ = some .patch := by decide
  have hminor : change? ⟨false, 3, 1, 0, 0, .none⟩ ⟨false, 3, 1, 1, 0, .revision 2⟩ =
      some .minor := by decide
  exact ⟨by decide +kernel, by decide +kernel, by decide +kernel, hpatch, hminor,
    (change?_graded _ _ _).2.2.2 .patch .minor hpatch hminor⟩

end Version

end TagWatch
