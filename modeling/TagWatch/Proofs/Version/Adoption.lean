import TagWatch.Proofs.Decision.Scope

/-!
# Adopting the chosen tag

A container that adopts the chosen tag is checked from then on with that tag as the current one. This
changes what may replace it: prereleases may be ruled out that were allowed before, the scope lies
around other numbers, and another mark in front is preferred.

**Theorem (`latestInScope_adopted`).** Updating converges in one step: nothing in the same list
replaces the chosen tag, and a decision on it proposes no other tag.

What may replace the chosen version may replace the current one as well (`Version.Eligible.trans`,
`Version.Inside.trans`), so it would have been chosen instead. The mark in front plays no part,
because it only tells versions apart that are not newer than each other.
-/

namespace TagWatch

namespace Version

variable {current v w : Version} {scope : Level} {prereleases : Bool}

/-- A version that may replace one that may replace the current one may replace the current one. -/
theorem Eligible.trans (hv : current.Eligible prereleases v) (hw : v.Eligible prereleases w) :
    current.Eligible prereleases w where
  components := hw.components.trans hv.components
  variant := hw.variant.trans hv.variant
  allowed := by
    intro hpre
    -- a prerelease is allowed after `v`, so `v` was allowed after `current` for the same reason
    rcases hw.allowed hpre with h | h
    · exact .inl h
    · exact hv.allowed h
  newer := Std.TransCmp.gt_trans hw.newer hv.newer

theorem Inside.trans (hv : Inside scope current v) (hw : Inside scope v w) :
    Inside scope current w := by
  cases scope with
  | major => trivial
  | minor => exact Eq.trans hw hv
  | patch => exact ⟨hw.1.trans hv.1, hw.2.trans hv.2⟩

end Version

/-- A decision proposes another tag only if the fetch found a newer one. -/
theorem decide_of_latest_eq_none (state : ContainerState) {fetch : FetchResult}
    (h : fetch.error = none → fetch.latest = none) :
    (state.decide fetch).kind ≠ some .tag ∧ (state.decide fetch).change = none := by
  unfold ContainerState.decide
  cases herror : fetch.error with
  | some error => exact ⟨nofun, rfl⟩
  | none =>
    have hsame : judgeTag state.tag fetch.latest = .same := by
      rw [h herror]
      rfl
    simp only [ContainerState.decideAnswered, hsame, TagVerdict.change?, Option.isSome_none,
      Bool.false_eq_true, if_false]
    refine ⟨?_, trivial⟩
    split <;> simp

/-- **Updating converges in one step.** A tag that was chosen from a list holds a version. When it is
the current tag, nothing is chosen from the same list any more, and no decision on what a check
against this list found proposes another tag. -/
theorem latestInScope_adopted {currentTag tag : String} {tags : List String} {scope : Level}
    {prereleases : Bool} (h : latestInScope currentTag tags scope prereleases = some tag) :
    (∃ v, Version.ofTag? tag = some v) ∧
    latestInScope tag tags scope prereleases = none ∧
    ∀ (state : ContainerState) (fetch : FetchResult), state.tag = tag →
      (fetch.error = none → fetch.latest = latestInScope state.tag tags scope prereleases) →
      (state.decide fetch).kind ≠ some .tag ∧ (state.decide fetch).change = none := by
  obtain ⟨current, hc, -⟩ := Option.bind_eq_some_iff.mp h
  obtain ⟨-, v, hv, helig, hin, hmax⟩ := latestInScope_spec hc h
  have hnone : latestInScope tag tags scope prereleases = none := by
    rw [← Option.not_isSome_iff_eq_none]
    intro hsome
    obtain ⟨t, ht, w, hw, hwe, hwi⟩ := (latestInScope_isSome_iff hv).mp hsome
    have hle := hmax t ht w hw (helig.trans hwe) (hin.trans hwi)
    rw [hwe.newer] at hle
    cases hle
  refine ⟨⟨v, hv⟩, hnone, ?_⟩
  rintro state fetch rfl hlatest
  apply decide_of_latest_eq_none
  intro herror
  rw [hlatest herror, hnone]

/-- A prerelease with a `v` in front is replaced by the release without one, and this is the end. -/
theorem latestInScope_adopted_release :
    latestInScope "v1.2.0-rc.1" ["1.2.0-rc.2", "1.2.0", "1.3.0", "1.2"] .patch false =
        some "1.2.0" ∧
      latestInScope "1.2.0" ["1.2.0-rc.2", "1.2.0", "1.3.0", "1.2"] .patch false = none ∧
      (ContainerState.decide ⟨"1.2.0", none, .patch, "ghcr.io", false⟩
        (.ofListing "1.2.0" ["1.2.0-rc.2", "1.2.0", "1.3.0", "1.2"] .patch false [])).kind ≠
          some .tag := by
  have hchosen : latestInScope "v1.2.0-rc.1" ["1.2.0-rc.2", "1.2.0", "1.3.0", "1.2"] .patch false =
      some "1.2.0" := by decide +kernel
  obtain ⟨-, hnone, hdecide⟩ := latestInScope_adopted hchosen
  exact ⟨hchosen, hnone, (hdecide ⟨"1.2.0", none, .patch, "ghcr.io", false⟩ _ rfl fun _ => rfl).1⟩

end TagWatch
