import TagWatch.Proofs.Decision.Consistency
import TagWatch.Proofs.Fetch.Conversation
import TagWatch.Proofs.Version.Sublist

/-!
# When a reported tag really lies outside the scope

A decision does not look at the numbers that a scope fixes. It reports the newest tag of all as
lying outside the scope when it is newer than the current tag and is not the newest tag inside the
scope, and so it relies on the fetch to have searched for both with care.

**Theorem (`decide_outsideScope`).** The report says no more than that. It is right, and complete,
if the newest tag of all was chosen from a list of tags, and the newest one inside the scope from
what a query finds of that list, unless the query misses the former. Nothing is ever reported for
a fetch that leaves nothing out.

A newest tag of all that lies inside the scope is the newest tag inside the scope
(`latestInScope_of_inside`), since every other newer tag lies between it and the current one. So
the two searches can only differ for such a tag when the query misses it (`outside_missed`).
-/

namespace TagWatch

/-- The newest tags of a fetch were chosen from one list of tags, those inside the scope from what a
query finds of it. -/
structure FetchResult.ChosenFrom (fetch : FetchResult) (state : ContainerState)
    (tags : List String) (found : String → Bool) (prereleases : Bool) : Prop where
  latest : fetch.latest = latestInScope state.tag (tags.filter found) state.scope prereleases
  latestOverall : fetch.latestOverall = TagWatch.latestOverall state.tag tags prereleases

/-! ## The two searches -/

section Searches

variable {currentTag overall : String} {current v : Version} {tags : List String} {scope : Level}
  {prereleases : Bool}

/-- The newest tag of all is the newest one inside every scope that it lies in. -/
theorem latestInScope_of_inside (hc : Version.ofTag? currentTag = some current)
    (h : latestOverall currentTag tags prereleases = some overall)
    (hv : Version.ofTag? overall = some v) (hin : Version.Inside scope current v) :
    latestInScope currentTag tags scope prereleases = some overall := by
  obtain ⟨-, w, hw, -, -, hmax⟩ := latestInScope_spec hc h
  obtain rfl : v = w := Option.some.inj (hv.symm.trans hw)
  rw [latestInScope_eq_latestOverall hc, h]
  intro t ht u hu helig
  exact Version.inside_of_isLE helig.newer (hmax t ht u hu helig trivial) hin

/-- A query that finds the newest tag of all makes the two searches differ exactly if that tag lies
outside the scope. -/
theorem latestInScope_ne_iff (hc : Version.ofTag? currentTag = some current)
    (h : latestOverall currentTag tags prereleases = some overall)
    (hv : Version.ofTag? overall = some v) {found : String → Bool}
    (hfound : Version.Inside scope current v → found overall = true) :
    latestInScope currentTag (tags.filter found) scope prereleases ≠ some overall ↔
      ¬ Version.Inside scope current v := by
  apply not_congr
  constructor
  · intro hlatest
    obtain ⟨-, w, hw, -, hin, -⟩ := latestInScope_spec hc hlatest
    obtain rfl : v = w := Option.some.inj (hv.symm.trans hw)
    exact hin
  · intro hin
    have hwhole := latestInScope_of_inside hc h hv hin
    rw [latestInScope_filter, hwhole]
    intro chosen hchosen
    obtain rfl : overall = chosen := Option.some.inj (hwhole.symm.trans hchosen)
    exact hfound hin

end Searches

/-! ## The report -/

section Report

variable {state : ContainerState} {fetch : FetchResult} {current v : Version} {overall : String}

/-- What is reported, when both tags hold versions. -/
theorem decide_outsideScope_iff (h : fetch.error = none)
    (hc : Version.ofTag? state.tag = some current) (ho : fetch.latestOverall = some overall)
    (hv : Version.ofTag? overall = some v) :
    (state.decide fetch).outsideScope = true ↔
      v.cmp current = .gt ∧ fetch.latest ≠ some overall := by
  rw [ContainerState.decide_answered h]
  refine judgeScope_block_isSome_iff.trans ?_
  constructor
  · rintro ⟨tag, htag, -, hlatest, hnewer⟩
    obtain rfl : overall = tag := Option.some.inj (ho.symm.trans htag)
    exact ⟨hnewer current v hc hv, hlatest⟩
  · rintro ⟨hnewer, hlatest⟩
    refine ⟨overall, ho, Version.tag_ne_of_newer hc hv hnewer, hlatest, ?_⟩
    intro current' v' hc' hv'
    obtain rfl : current = current' := Option.some.inj (hc.symm.trans hc')
    obtain rfl : v = v' := Option.some.inj (hv.symm.trans hv')
    exact hnewer

/-- The report is right about tags that were chosen from one list. -/
theorem decide_outsideScope_iff_of_chosenFrom (h : fetch.error = none)
    (hc : Version.ofTag? state.tag = some current) (ho : fetch.latestOverall = some overall)
    (hv : Version.ofTag? overall = some v) {tags : List String} {found : String → Bool}
    {prereleases : Bool} (hchosen : fetch.ChosenFrom state tags found prereleases)
    (hfound : Version.Inside state.scope current v → found overall = true) :
    (state.decide fetch).outsideScope = true ↔ ¬ Version.Inside state.scope current v := by
  have hoverall : latestOverall state.tag tags prereleases = some overall :=
    hchosen.latestOverall.symm.trans ho
  obtain ⟨-, w, hw, helig, -⟩ := latestInScope_spec hc hoverall
  obtain rfl : v = w := Option.some.inj (hv.symm.trans hw)
  rw [decide_outsideScope_iff h hc ho hv, and_iff_right helig.newer, hchosen.latest]
  exact latestInScope_ne_iff hc hoverall hv hfound

/-- What a fetch finds when its scope leaves nothing out is the same tag twice, or no tag. -/
theorem FetchRequest.Reports.latestOverall_eq {r : FetchRequest} (h : r.Reports fetch)
    (hscope : r.scope = .major) : fetch.latestOverall = fetch.latest := by
  cases h with
  | failed text => rfl
  | floating metadata => rfl
  | known tags hsame => exact hsame hscope

/-- **When a reported tag really lies outside the scope.** Let a fetch have given an answer, and let
the current tag and the newest tag of all hold versions. The latter is reported exactly if it is
newer than the current tag and is not what the fetch took for the newest tag inside the scope. It
is reported exactly if it lies outside the scope, when both were chosen from one list of tags and
the query for the scope finds it unless it lies outside. A fetch whose scope leaves nothing out
leads to no report. -/
theorem decide_outsideScope (h : fetch.error = none)
    (hc : Version.ofTag? state.tag = some current) (ho : fetch.latestOverall = some overall)
    (hv : Version.ofTag? overall = some v) :
    let decision := state.decide fetch
    (decision.outsideScope = true ↔ v.cmp current = .gt ∧ fetch.latest ≠ some overall) ∧
    (∀ tags found prereleases, fetch.ChosenFrom state tags found prereleases →
      (Version.Inside state.scope current v → found overall = true) →
      (decision.outsideScope = true ↔ ¬ Version.Inside state.scope current v)) ∧
    (∀ r : FetchRequest, r.Reports fetch → r.scope = .major → decision.outsideScope = false) := by
  intro decision
  have hiff : decision.outsideScope = true ↔ v.cmp current = .gt ∧ fetch.latest ≠ some overall :=
    decide_outsideScope_iff h hc ho hv
  refine ⟨hiff, ?_, ?_⟩
  · intro tags found prereleases hchosen hfound
    exact decide_outsideScope_iff_of_chosenFrom h hc ho hv hchosen hfound
  · intro r hreports hscope
    apply Bool.eq_false_iff.mpr
    intro hout
    apply (hiff.mp hout).2
    rw [← hreports.latestOverall_eq hscope, ho]

end Report

/-- A query for a text finds the newer patch, and the next minor version is reported. -/
theorem decide_outsideScope_patch :
    let state : ContainerState := ⟨"1.2.3", none, .patch, "dockerhub", false⟩
    let fetch : FetchResult := .success [] (some "1.2.4") (some "1.3.0") none
    (state.decide fetch).outsideScope = true := by
  intro state fetch
  have hc : Version.ofTag? state.tag = some ⟨false, 3, 1, 2, 3, .none⟩ := by decide
  have hv : Version.ofTag? "1.3.0" = some ⟨false, 3, 1, 3, 0, .none⟩ := by decide
  have hchosen : fetch.ChosenFrom state ["1.2.4", "1.3.0"]
      (Text.startsWith "1.2.".toList ·.toList) false := ⟨by decide +kernel, by decide +kernel⟩
  obtain ⟨-, houtside, -⟩ := @decide_outsideScope state fetch _ _ _ rfl hc rfl hv
  refine (houtside _ _ _ hchosen ?_).mpr (by decide)
  intro hin
  exact absurd hin (by decide)

/-- A newer patch without the mark of the current tag is missed by a query for it, and reported as
if it lay outside the scope. -/
theorem outside_missed :
    let state : ContainerState := ⟨"v1.2.3", none, .patch, "dockerhub", false⟩
    let fetch : FetchResult := .success [] none (some "1.2.4") none
    fetch.ChosenFrom state ["v1.2.3", "1.2.4"] (Text.occursIn "v1.2.".toList ·.toList) false ∧
      Version.ofTag? "v1.2.3" = some ⟨true, 3, 1, 2, 3, .none⟩ ∧
      Version.ofTag? "1.2.4" = some ⟨false, 3, 1, 2, 4, .none⟩ ∧
      (state.decide fetch).outsideScope = true ∧
      Version.Inside state.scope ⟨true, 3, 1, 2, 3, .none⟩ ⟨false, 3, 1, 2, 4, .none⟩ := by
  intro state fetch
  refine ⟨⟨by decide +kernel, by decide +kernel⟩, by decide, by decide, by decide +kernel, ?_⟩
  decide

end TagWatch
