import TagWatch.Decision.Decide
import TagWatch.Proofs.Version.Selection

/-!
# Decisions agree with the choice of tags about the scope

A fetch searches a list of tags twice, for the newest tag inside the scope and for the newest tag
of all, and a decision compares the two as texts.

**Theorem (`decide_ofListing`).** The decision proposes an update if and only if some eligible
tag lies inside the scope, and reports a tag outside the scope if and only if some eligible tag
lies there.

The two searches give different texts exactly when an eligible tag lies outside. If there is one,
the newest tag of all lies outside too, by `Version.inside_of_isLE`, and the newest tag inside
does not; if there is none, both searches have the same candidates and break ties alike.
-/

namespace TagWatch

open Std

/-- What a fetch finds in a list of tags: the newest one inside the scope, and the newest one of
all, which is searched for only when the scope leaves something out. -/
def FetchResult.ofListing (currentTag : String) (tags : List String) (scope : Level)
    (prereleases : Bool) (listed : List String) : FetchResult :=
  let latest := latestInScope currentTag tags scope prereleases
  .success listed latest
    (if scope = .major then latest else TagWatch.latestOverall currentTag tags prereleases) none

/-! ## Newer tags -/

namespace Version

/-- The level of a change to a newer version, which a scope around the current one bounds. -/
theorem exists_change {current v : Version} (h : v.cmp current = .gt) :
    ∃ change, current.change? v = some change ∧
      ∀ scope, Inside scope current v → change ≤ scope := by
  have hp : current.precedes v = true := precedes_iff.mpr h
  by_cases hmajor : v.major = current.major
  · by_cases hminor : v.minor = current.minor
    · refine ⟨.patch, ?_, fun scope _ => ?_⟩
      · simp only [change?, hp, hmajor, hminor, Bool.not_true, ne_eq, not_true, if_false,
          Bool.false_eq_true]
      · show Level.rank .patch ≤ scope.rank
        exact Nat.zero_le _
    · refine ⟨.minor, ?_, fun scope hin => ?_⟩
      · simp only [change?, hp, hmajor, hminor, Bool.not_true, ne_eq, not_true, not_false_eq_true,
          if_true, if_false, Bool.false_eq_true]
      · cases scope with
        | patch => exact absurd hin.2 hminor
        | minor => exact Nat.le_refl _
        | major => exact Nat.le_succ _
  · refine ⟨.major, ?_, fun scope hin => ?_⟩
    · simp only [change?, hp, hmajor, Bool.not_true, ne_eq, not_false_eq_true, if_true, if_false,
        Bool.false_eq_true]
    · cases scope with
      | patch => exact absurd hin.1 hmajor
      | minor => exact absurd hin hmajor
      | major => exact Nat.le_refl _

/-- A tag that holds a newer version is not the current tag. -/
theorem tag_ne_of_newer {currentTag tag : String} {current v : Version}
    (hc : ofTag? currentTag = some current) (ht : ofTag? tag = some v)
    (h : v.cmp current = .gt) : tag ≠ currentTag := by
  rintro rfl
  obtain rfl : current = v := Option.some.inj (hc.symm.trans ht)
  rw [show current.cmp current = .eq from ReflCmp.compare_self] at h
  cases h

end Version

variable {currentTag : String} {current : Version}

theorem judgeTag_of_newer (hc : Version.ofTag? currentTag = some current) {tag : String}
    {v : Version} (ht : Version.ofTag? tag = some v) {change : Level}
    (hn : v.cmp current = .gt) (hch : current.change? v = some change) :
    judgeTag currentTag (some tag) = .update change := by
  simp only [judgeTag, if_neg (Version.tag_ne_of_newer hc ht hn), hc, ht, hch]

theorem judgeScope_of_newer (hc : Version.ofTag? currentTag = some current)
    {latest : Option String} {tag : String} {v : Version} (ht : Version.ofTag? tag = some v)
    (hn : v.cmp current = .gt) (hne : latest ≠ some tag) :
    judgeScope currentTag latest (some tag) = .blocked tag := by
  obtain ⟨change, hch, -⟩ := Version.exists_change hn
  have h : ¬ (tag = currentTag ∨ latest = some tag) := by
    rintro (h | h)
    · exact Version.tag_ne_of_newer hc ht hn h
    · exact hne h
  simp only [judgeScope, if_neg h, hc, ht, hch, Option.isSome_some, if_true]

/-- Nothing lies outside the scope when both searches give the same answer. -/
theorem judgeScope_self (latest : Option String) :
    judgeScope currentTag latest latest = .clear := by
  cases latest <;> simp [judgeScope]

/-! ## Decisions on listed tags -/

section Listing

variable {tags : List String} {scope : Level} {prereleases : Bool}

/-- The newest tag inside the scope, if there is one, is an update that the scope admits. -/
theorem judgeTag_latestInScope (hc : Version.ofTag? currentTag = some current)
    (tags : List String) (scope : Level) (prereleases : Bool) :
    let latest := latestInScope currentTag tags scope prereleases
    let verdict := judgeTag currentTag latest
    verdict.change?.isSome = latest.isSome ∧ verdict.anomalies = [] ∧
      ∀ change, verdict.change? = some change → change ≤ scope := by
  intro latest verdict
  cases hl : latest with
  | none =>
    have hverdict : verdict = .same := by
      show judgeTag currentTag latest = .same
      rw [hl]; rfl
    rw [hverdict]
    exact ⟨rfl, rfl, fun change h => by cases h⟩
  | some tag =>
    obtain ⟨-, v, hv, helig, hin, -⟩ := latestInScope_spec hc hl
    obtain ⟨change, hch, hle⟩ := Version.exists_change helig.newer
    have hverdict : verdict = .update change := by
      show judgeTag currentTag latest = .update change
      rw [hl]
      exact judgeTag_of_newer hc hv helig.newer hch
    rw [hverdict]
    refine ⟨rfl, rfl, fun c h => ?_⟩
    obtain rfl : change = c := Option.some.inj h
    exact hle scope hin

/-- Without an eligible tag outside the scope, both searches give the same answer. -/
theorem latestInScope_eq_latestOverall (hc : Version.ofTag? currentTag = some current)
    (h : ∀ t ∈ tags, ∀ v, Version.ofTag? t = some v → current.Eligible prereleases v →
      Version.Inside scope current v) :
    latestInScope currentTag tags scope prereleases = latestOverall currentTag tags prereleases :=
  latestInScope_congr hc fun t ht v hv helig => iff_of_true (h t ht v hv helig) trivial

/-- With an eligible tag outside the scope, the newest tag of all lies outside. -/
theorem latestOverall_of_outside (hc : Version.ofTag? currentTag = some current)
    (h : ∃ t ∈ tags, ∃ v, Version.ofTag? t = some v ∧ current.Eligible prereleases v ∧
      ¬ Version.Inside scope current v) :
    ∃ tag v, latestOverall currentTag tags prereleases = some tag ∧
      Version.ofTag? tag = some v ∧ v.cmp current = .gt ∧ ¬ Version.Inside scope current v := by
  obtain ⟨t, ht, w, hw, hwe, hout⟩ := h
  have hsome : (latestOverall currentTag tags prereleases).isSome = true :=
    (latestInScope_isSome_iff hc).mpr ⟨t, ht, w, hw, hwe, trivial⟩
  obtain ⟨tag, htag⟩ := Option.isSome_iff_exists.mp hsome
  obtain ⟨-, v, hv, helig, -, hmax⟩ := latestInScope_spec hc htag
  have hle := hmax t ht w hw hwe trivial
  exact ⟨tag, v, htag, hv, helig.newer, fun hin => hout (Version.inside_of_isLE hwe.newer hle hin)⟩

/-- The newest tag of all is kept out if and only if an eligible tag lies outside the scope. -/
theorem judgeScope_latestOverall (hc : Version.ofTag? currentTag = some current)
    (tags : List String) (scope : Level) (prereleases : Bool) :
    let verdict := judgeScope currentTag (latestInScope currentTag tags scope prereleases)
      (latestOverall currentTag tags prereleases)
    ((verdict.block scope).isSome = true ↔ ∃ t ∈ tags, ∃ v, Version.ofTag? t = some v ∧
      current.Eligible prereleases v ∧ ¬ Version.Inside scope current v) ∧
    verdict.anomalies = [] := by
  intro verdict
  by_cases h : ∃ t ∈ tags, ∃ v, Version.ofTag? t = some v ∧ current.Eligible prereleases v ∧
      ¬ Version.Inside scope current v
  · obtain ⟨tag, v, htag, hv, hn, hout⟩ := latestOverall_of_outside hc h
    have hverdict : verdict = .blocked tag := by
      show judgeScope _ _ (latestOverall currentTag tags prereleases) = _
      rw [htag]
      refine judgeScope_of_newer hc hv hn fun hl => ?_
      obtain ⟨-, w, hw, -, hin, -⟩ := latestInScope_spec hc hl
      obtain rfl : v = w := Option.some.inj (hv.symm.trans hw)
      exact hout hin
    rw [hverdict]
    exact ⟨iff_of_true rfl h, rfl⟩
  · have hall : ∀ t ∈ tags, ∀ v, Version.ofTag? t = some v → current.Eligible prereleases v →
        Version.Inside scope current v := fun t ht v hv helig =>
      Decidable.byContradiction fun hout => h ⟨t, ht, v, hv, helig, hout⟩
    have hverdict : verdict = .clear := by
      show judgeScope _ (latestInScope currentTag tags scope prereleases) _ = _
      rw [latestInScope_eq_latestOverall hc hall]
      exact judgeScope_self _
    rw [hverdict]
    exact ⟨iff_of_false Bool.false_ne_true h, rfl⟩

end Listing

/-- The digest of a tag that holds a version plays no part in a decision without metadata. -/
theorem judgeDigest_of_listing (state : ContainerState)
    (hc : Version.ofTag? state.tag = some current) (tags listed : List String)
    (prereleases : Bool) :
    let fetch := FetchResult.ofListing state.tag tags state.scope prereleases listed
    judgeDigest state.tag (state.isFloating fetch) state.digest fetch.digest = .unused := by
  simp only [FetchResult.ofListing, ContainerState.isFloating, FetchResult.success,
    FetchResult.digest, hc, Option.isNone_some, Bool.or_false, Option.bind_none, judgeDigest]

/-- The newest tag of all in a fetched list, whether or not it was searched for by itself. -/
theorem latestOverall_ofListing (currentTag : String) (tags listed : List String)
    (scope : Level) (prereleases : Bool) :
    (FetchResult.ofListing currentTag tags scope prereleases listed).latestOverall =
      latestOverall currentTag tags prereleases := by
  show (if scope = .major then _ else _) = _
  split
  · next h => rw [h]; rfl
  · rfl

/-- A decision on listed tags, in terms of the verdicts on the two searches. -/
theorem decide_ofListing_eq (state : ContainerState)
    (hc : Version.ofTag? state.tag = some current) (tags listed : List String)
    (prereleases : Bool) :
    let latest := latestInScope state.tag tags state.scope prereleases
    let tag := judgeTag state.tag latest
    let scope := judgeScope state.tag latest (latestOverall state.tag tags prereleases)
    let decision := state.decide (.ofListing state.tag tags state.scope prereleases listed)
    decision.kind = (if tag.change?.isSome then some .tag else none) ∧
      decision.hasUpdate = tag.change?.isSome ∧ decision.change = tag.change? ∧
      decision.outsideScope = (scope.block state.scope).isSome ∧
      decision.trace.anomalies = tag.anomalies ++ scope.anomalies := by
  intro latest tag scope decision
  have hdigest := judgeDigest_of_listing state hc tags listed prereleases
  have hoverall := latestOverall_ofListing state.tag tags listed state.scope prereleases
  have hdecision : decision =
      state.decideAnswered (.ofListing state.tag tags state.scope prereleases listed) := rfl
  have hlatest : (FetchResult.ofListing state.tag tags state.scope prereleases listed).latest =
      latest := rfl
  rw [hdecision]
  simp only [ContainerState.decideAnswered, hdigest, hoverall, hlatest, DigestVerdict.changed,
    DigestVerdict.anomalies, Bool.false_eq_true, if_false, List.append_nil]
  refine ⟨rfl, ?_, rfl, rfl, rfl⟩
  show (if tag.change?.isSome then some UpdateKind.tag else none).isSome = _
  cases tag.change?.isSome <;> rfl

/-- **Decisions agree with the choice of tags about the scope.** Let the current tag hold a
version, and let the fetch find what a list of tags offers. There is an update if and only if an
eligible tag lies inside the scope; it is then an update of the tag, by a change that the scope
admits. A tag outside the scope is reported if and only if an eligible tag lies there. Nothing
about the fetch looks odd, and unless an eligible tag lies outside, both searches choose the same
text. -/
theorem decide_ofListing (state : ContainerState)
    (hc : Version.ofTag? state.tag = some current) (tags listed : List String)
    (prereleases : Bool) :
    let decision := state.decide (.ofListing state.tag tags state.scope prereleases listed)
    (decision.hasUpdate = true ↔ ∃ t ∈ tags, ∃ v, Version.ofTag? t = some v ∧
      current.Eligible prereleases v ∧ Version.Inside state.scope current v) ∧
    (decision.hasUpdate = true →
      decision.kind = some .tag ∧ ∃ change ≤ state.scope, decision.change = some change) ∧
    (decision.outsideScope = true ↔ ∃ t ∈ tags, ∃ v, Version.ofTag? t = some v ∧
      current.Eligible prereleases v ∧ ¬ Version.Inside state.scope current v) ∧
    decision.trace.anomalies = [] ∧
    ((∀ t ∈ tags, ∀ v, Version.ofTag? t = some v → current.Eligible prereleases v →
        Version.Inside state.scope current v) →
      latestInScope state.tag tags state.scope prereleases =
        latestOverall state.tag tags prereleases) := by
  intro decision
  obtain ⟨hkind, hupdate, hchange, hout, hodd⟩ :=
    decide_ofListing_eq state hc tags listed prereleases
  obtain ⟨htag, htagOdd, hlevel⟩ := judgeTag_latestInScope hc tags state.scope prereleases
  obtain ⟨hscope, hscopeOdd⟩ := judgeScope_latestOverall hc tags state.scope prereleases
  refine ⟨?_, fun h => ?_, ?_, ?_, latestInScope_eq_latestOverall hc⟩
  · rw [hupdate, htag]
    exact latestInScope_isSome_iff hc
  · rw [hupdate] at h
    obtain ⟨change, hch⟩ := Option.isSome_iff_exists.mp h
    exact ⟨by rw [hkind, h]; rfl, change, hlevel change hch, by rw [hchange, hch]⟩
  · rw [hout]
    exact hscope
  · rw [hodd, htagOdd, hscopeOdd]
    rfl

/-- Two spellings of one version lie inside the scope and make an update, and a prerelease of the
next minor version is reported. -/
theorem decide_ofListing_patch :
    Version.ofTag? "1.2.3" = some ⟨false, 3, 1, 2, 3, .none⟩ ∧
    (ContainerState.decide ⟨"1.2.3", none, .patch, "ghcr.io", true⟩
      (.ofListing "1.2.3" ["1.2.4", "v1.2.4", "1.3.0-rc.1", "1.2"] .patch true [])).hasUpdate =
        true ∧
    (ContainerState.decide ⟨"1.2.3", none, .patch, "ghcr.io", true⟩
      (.ofListing "1.2.3" ["1.2.4", "v1.2.4", "1.3.0-rc.1", "1.2"] .patch true [])).outsideScope =
        true := by
  have hc : Version.ofTag? "1.2.3" = some ⟨false, 3, 1, 2, 3, .none⟩ := by decide
  have hin : Version.ofTag? "1.2.4" = some ⟨false, 3, 1, 2, 4, .none⟩ := by decide
  have hout : Version.ofTag? "1.3.0-rc.1" =
      some ⟨false, 3, 1, 3, 0, .prerelease [.word ['r', 'c'], .number 1]⟩ := by decide
  obtain ⟨hupdate, -, hscope, -, -⟩ := decide_ofListing
    ⟨"1.2.3", none, .patch, "ghcr.io", true⟩ hc ["1.2.4", "v1.2.4", "1.3.0-rc.1", "1.2"] [] true
  exact ⟨hc, hupdate.mpr ⟨_, by decide, _, hin, by decide, by decide⟩,
    hscope.mpr ⟨_, by decide, _, hout, by decide, by decide⟩⟩

end TagWatch
