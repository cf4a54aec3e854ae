import TagWatch.Proofs.Version.Order
import TagWatch.Version.Selection

/-!
# What the choice of a tag amounts to

`Eligible` and `Inside` say, field by field, when a version may replace the current one and when
it lies within a scope. The tag that `latestInScope` chooses is eligible and inside, and no
eligible tag inside the scope is later (`latestInScope_spec`); there is a choice as soon as there
is such a tag (`latestInScope_isSome_iff`).

A newer version that is not later than one inside a scope is inside it as well
(`Version.inside_of_isLE`), because the numbers that a scope fixes come first in the order. So a
choice without a scope leaves the scope whenever some eligible tag does.
-/

namespace TagWatch

open Std

namespace Version

/-- A version may replace the current one, the scope aside. -/
structure Eligible (current : Version) (prereleases : Bool) (v : Version) : Prop where
  components : v.components = current.components
  variant : v.variant = current.variant
  /-- A prerelease must be asked for, or follow a prerelease. -/
  allowed : v.isPrerelease = true → prereleases = true ∨ current.isPrerelease = true
  newer : v.cmp current = .gt

/-- A version lies within a scope around the current one. -/
def Inside (scope : Level) (current v : Version) : Prop :=
  match scope with
  | .patch => v.major = current.major ∧ v.minor = current.minor
  | .minor => v.major = current.major
  | .major => True

theorem eligible_iff {current v : Version} {prereleases : Bool} :
    current.eligible prereleases v = true ↔ current.Eligible prereleases v := by
  rw [eligible]
  simp only [Bool.and_eq_true, beq_iff_eq, Bool.or_eq_true, Bool.not_eq_true', precedes_iff,
    allowsPrereleases]
  constructor
  · rintro ⟨⟨⟨hc, hv⟩, hp⟩, hn⟩
    refine ⟨hc, hv, fun hpre => hp.resolve_right fun h => ?_, hn⟩
    rw [hpre] at h
    cases h
  · rintro ⟨hc, hv, hp, hn⟩
    refine ⟨⟨⟨hc, hv⟩, ?_⟩, hn⟩
    cases hpre : v.isPrerelease with
    | false => exact .inr rfl
    | true => exact .inl (hp hpre)

theorem within_iff {scope : Level} {current v : Version} :
    within scope current v = true ↔ Inside scope current v := by
  cases scope <;> simp [within, Inside]

instance {current v : Version} {prereleases : Bool} : Decidable (current.Eligible prereleases v) :=
  decidable_of_iff _ eligible_iff

instance {scope : Level} {current v : Version} : Decidable (Inside scope current v) :=
  decidable_of_iff _ within_iff

theorem candidate_iff {current v : Version} {scope : Level} {prereleases : Bool} :
    current.candidate scope prereleases v = true ↔
      current.Eligible prereleases v ∧ Inside scope current v := by
  rw [candidate, Bool.and_eq_true, eligible_iff, within_iff]

/-- A newer version that is not later than one inside a scope is inside the scope too: it lies
between the current version and the other one. -/
theorem inside_of_isLE {scope : Level} {current v w : Version} (hw : w.cmp current = .gt)
    (hle : (w.cmp v).isLE) (hv : Inside scope current v) : Inside scope current w := by
  have hge : (current.cmp w).isLE := Ordering.isLE_of_eq_lt (OrientedCmp.lt_of_gt hw)
  have hmajor := major_le_of_isLE hge
  have hmajor' := major_le_of_isLE hle
  cases scope with
  | major => trivial
  | minor =>
    have hv' : v.major = current.major := hv
    show w.major = current.major
    omega
  | patch =>
    obtain ⟨hv₁, hv₂⟩ := hv
    have h : w.major = current.major := by omega
    have hminor := minor_le_of_isLE hge h.symm
    have hminor' := minor_le_of_isLE hle (h.trans hv₁.symm)
    exact ⟨h, by omega⟩

end Version

/-! ## The last of the largest elements -/

section LastMax

variable {α : Type} {cmp : α → α → Ordering}

theorem lastMax_eq_none_iff {l : List α} : lastMax cmp l = none ↔ l = [] := by
  cases l <;> simp [lastMax]

theorem foldl_later_mem (a : α) (l : List α) :
    l.foldl (fun best b => if cmp best b == .gt then best else b) a ∈ a :: l := by
  induction l generalizing a with
  | nil => exact List.mem_singleton.mpr rfl
  | cons b l ih =>
    rw [List.foldl_cons]
    rcases List.mem_cons.mp (ih (if cmp a b == .gt then a else b)) with h | h
    · rw [h]
      split
      · exact List.mem_cons_self
      · exact List.mem_cons_of_mem _ List.mem_cons_self
    · exact List.mem_cons_of_mem _ (List.mem_cons_of_mem _ h)

theorem lastMax_mem {l : List α} {m : α} (h : lastMax cmp l = some m) : m ∈ l := by
  cases l with
  | nil => cases h
  | cons a l =>
    obtain rfl := Option.some.inj h
    exact foldl_later_mem a l

variable [TransCmp cmp]

theorem isLE_foldl_later (a : α) (l : List α) :
    ∀ x ∈ a :: l,
      (cmp x (l.foldl (fun best b => if cmp best b == .gt then best else b) a)).isLE := by
  induction l generalizing a with
  | nil =>
    intro x hx
    obtain rfl := List.mem_singleton.mp hx
    exact ReflCmp.isLE_rfl
  | cons b l ih =>
    intro x hx
    rw [List.foldl_cons]
    -- Both `a` and `b` are at most the one of them that is kept.
    have hkept : (cmp a (if cmp a b == .gt then a else b)).isLE ∧
        (cmp b (if cmp a b == .gt then a else b)).isLE := by
      split
      · next h =>
        exact ⟨ReflCmp.isLE_rfl, Ordering.isLE_of_eq_lt (OrientedCmp.lt_of_gt (beq_iff_eq.mp h))⟩
      · next h =>
        exact ⟨Ordering.isLE_iff_ne_gt.mpr fun hgt => h (beq_iff_eq.mpr hgt), ReflCmp.isLE_rfl⟩
    have hbest := ih (if cmp a b == .gt then a else b) _ List.mem_cons_self
    rcases List.mem_cons.mp hx with rfl | hx
    · exact TransCmp.isLE_trans hkept.1 hbest
    · rcases List.mem_cons.mp hx with rfl | hx
      · exact TransCmp.isLE_trans hkept.2 hbest
      · exact ih _ x (List.mem_cons_of_mem _ hx)

theorem isLE_lastMax {l : List α} {m : α} (h : lastMax cmp l = some m) :
    ∀ x ∈ l, (cmp x m).isLE := by
  cases l with
  | nil => cases h
  | cons a l =>
    obtain rfl := Option.some.inj h
    exact isLE_foldl_later a l

end LastMax

/-! ## The chosen tag -/

instance (current : Version) : TransCmp current.prefer :=
  have : TransCmp fun a b : Version =>
      compare (a.prefixed == current.prefixed) (b.prefixed == current.prefixed) :=
    transCmp_comap compare fun v : Version => v.prefixed == current.prefixed
  inferInstanceAs <| TransCmp <| compareLex Version.cmp fun a b : Version =>
    compare (a.prefixed == current.prefixed) (b.prefixed == current.prefixed)

theorem mem_candidates {current : Version} {scope : Level} {prereleases : Bool}
    {tags : List String} {t : VersionedTag} :
    t ∈ candidates current scope prereleases tags ↔
      t.tag ∈ tags ∧ Version.ofTag? t.tag = some t.version ∧
        current.Eligible prereleases t.version ∧ Version.Inside scope current t.version := by
  rw [candidates, List.mem_filter, List.mem_filterMap, Version.candidate_iff]
  constructor
  · rintro ⟨⟨tag, hmem, htag⟩, hcand⟩
    obtain ⟨v, hv, rfl⟩ := Option.map_eq_some_iff.mp htag
    exact ⟨hmem, hv, hcand⟩
  · rintro ⟨hmem, hv, hcand⟩
    exact ⟨⟨t.tag, hmem, by rw [VersionedTag.ofTag?, hv]; rfl⟩, hcand⟩

variable {currentTag : String} {current : Version} {tags : List String} {scope : Level}
  {prereleases : Bool}

/-- The chosen tag is eligible and inside the scope, and no other such tag is later. -/
theorem latestInScope_spec (hc : Version.ofTag? currentTag = some current) {tag : String}
    (h : latestInScope currentTag tags scope prereleases = some tag) :
    tag ∈ tags ∧ ∃ v, Version.ofTag? tag = some v ∧ current.Eligible prereleases v ∧
      Version.Inside scope current v ∧
      ∀ t ∈ tags, ∀ w, Version.ofTag? t = some w → current.Eligible prereleases w →
        Version.Inside scope current w → (w.cmp v).isLE := by
  rw [latestInScope, hc, Option.bind_some] at h
  obtain ⟨m, hm, rfl⟩ := Option.map_eq_some_iff.mp h
  obtain ⟨hmem, hv, helig, hin⟩ := mem_candidates.mp (lastMax_mem hm)
  refine ⟨hmem, m.version, hv, helig, hin, fun t ht w hw hwe hwi => ?_⟩
  have : TransCmp fun a b : VersionedTag => current.prefer a.version b.version :=
    transCmp_comap current.prefer VersionedTag.version
  have hle := isLE_lastMax hm ⟨t, w⟩ (mem_candidates.mpr ⟨ht, hw, hwe, hwi⟩)
  exact Ordering.isLE_left_of_isLE_then hle

/-- A tag is chosen if and only if there is one to choose. -/
theorem latestInScope_isSome_iff (hc : Version.ofTag? currentTag = some current) :
    (latestInScope currentTag tags scope prereleases).isSome = true ↔
      ∃ t ∈ tags, ∃ v, Version.ofTag? t = some v ∧ current.Eligible prereleases v ∧
        Version.Inside scope current v := by
  constructor
  · intro h
    obtain ⟨tag, htag⟩ := Option.isSome_iff_exists.mp h
    obtain ⟨hmem, v, hv, helig, hin, -⟩ := latestInScope_spec hc htag
    exact ⟨tag, hmem, v, hv, helig, hin⟩
  · rintro ⟨t, ht, v, hv, helig, hin⟩
    rw [latestInScope, hc, Option.bind_some, Option.isSome_map]
    rw [Option.isSome_iff_ne_none, ne_eq, lastMax_eq_none_iff]
    exact List.ne_nil_of_mem (mem_candidates.mpr ⟨ht, hv, helig, hin⟩ : ⟨t, v⟩ ∈ _)

/-- Two scopes that the same eligible tags lie within lead to the same choice. -/
theorem latestInScope_congr (hc : Version.ofTag? currentTag = some current) {scope' : Level}
    (h : ∀ t ∈ tags, ∀ v, Version.ofTag? t = some v → current.Eligible prereleases v →
      (Version.Inside scope current v ↔ Version.Inside scope' current v)) :
    latestInScope currentTag tags scope prereleases =
      latestInScope currentTag tags scope' prereleases := by
  have hcand : candidates current scope prereleases tags =
      candidates current scope' prereleases tags := by
    refine List.filter_congr fun t ht => ?_
    obtain ⟨tag, hmem, htag⟩ := List.mem_filterMap.mp ht
    obtain ⟨v, hv, rfl⟩ := Option.map_eq_some_iff.mp htag
    rw [Bool.eq_iff_iff, Version.candidate_iff, Version.candidate_iff]
    exact and_congr_right (h tag hmem v hv)
  rw [latestInScope, latestInScope, hc, Option.bind_some, Option.bind_some, hcand]

end TagWatch
