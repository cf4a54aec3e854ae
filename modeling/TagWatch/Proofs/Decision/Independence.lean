import TagWatch.Proofs.Decision.Consistency

/-!
# What a decision does not depend on

What is proposed for a container should follow from its tag and from the newest tags that the
registry reported, and from nothing else that happens to be stored or fetched.

**Theorem (`decide_independent`).** Two decisions on one tag, after fetches that report the same
newest tags and flag the tag alike, say the same about tags. If the tag is not compared by digest,
they say the same about everything.

The verdict on digests is the only part that reads what may differ, and it fills the kind of the
update only where the verdict on tags left it empty. So the two decisions may differ in the kind,
but not in whether it is a newer tag.
-/

namespace TagWatch

/-- Two answers that report the same newest tags and flag the current tag alike. The listed tags
and the metadata may differ. -/
structure FetchResult.SameTags (fetch fetch' : FetchResult) : Prop where
  answered : fetch.error = none
  answered' : fetch'.error = none
  latest : fetch.latest = fetch'.latest
  latestOverall : fetch.latestOverall = fetch'.latestOverall
  floating : fetch.floating = fetch'.floating

/-- Two decisions that say the same about tags. -/
structure Decision.SameTags (d d' : Decision) : Prop where
  latest : d.latest = d'.latest
  latestOverall : d.latestOverall = d'.latestOverall
  change : d.change = d'.change
  outsideScope : d.outsideScope = d'.outsideScope
  /-- Either both are updates of the tag or none is. -/
  update : (d.hasUpdate = true ∧ d.kind = some .tag) ↔ (d'.hasUpdate = true ∧ d'.kind = some .tag)

/-- Two decisions that differ in their traces at most. -/
def Decision.SameVerdict (d d' : Decision) : Prop := { d with trace := d'.trace } = d'

theorem Decision.sameVerdict_iff {d d' : Decision} : d.SameVerdict d' ↔
    d.hasUpdate = d'.hasUpdate ∧ d.kind = d'.kind ∧ d.latest = d'.latest ∧
      d.latestOverall = d'.latestOverall ∧ d.change = d'.change ∧
      d.outsideScope = d'.outsideScope ∧ d.digestChanged = d'.digestChanged ∧
      d.newDigest = d'.newDigest ∧ d.baselineNeeded = d'.baselineNeeded := by
  cases d
  cases d'
  simp [SameVerdict]

/-- The scope is only named in what it keeps out: it does not decide whether there is such a tag. -/
theorem ScopeVerdict.isSome_block (verdict : ScopeVerdict) (scope scope' : Level) :
    (verdict.block scope).isSome = (verdict.block scope').isSome := by
  cases verdict <;> rfl

/-! ## The decisions -/

namespace Decision.Consistent

variable {state : ContainerState} {fetch : FetchResult} {d : Decision}

/-- An update of the tag is one that has a level. -/
theorem update_tag_iff (h : d.Consistent state fetch) :
    (d.hasUpdate = true ∧ d.kind = some .tag) ↔ d.change.isSome = true := by
  rw [← h.tag]
  refine and_iff_right_of_imp fun hkind => h.update.mpr ?_
  rw [hkind]
  rfl

/-- A tag that is not compared by digest is judged by the newest tags alone. -/
theorem of_not_comparedByDigest (h : d.Consistent state fetch)
    (hdigest : ¬ state.ComparedByDigest fetch) :
    d.hasUpdate = d.change.isSome ∧ d.kind = d.change.map (fun _ => .tag) ∧
      d.digestChanged = false ∧ d.newDigest = none ∧ d.baselineNeeded = false := by
  have hnew : d.newDigest = none := by
    apply Option.eq_none_iff_forall_ne_some.mpr
    intro new hsome
    exact hdigest ((h.reported new).mp hsome).2.1
  have hchanged : d.digestChanged = false := by
    apply Bool.eq_false_iff.mpr
    intro hchanged
    obtain ⟨-, new, -, hsome, -⟩ := h.changed.mp hchanged
    exact hdigest ((h.reported new).mp hsome).2.1
  have hbase : d.baselineNeeded = false :=
    Bool.eq_false_iff.mpr fun hbase => hdigest (h.baseline.mp hbase).2.1
  have hkind : d.kind = d.change.map fun _ => .tag := by
    cases hchange : d.change with
    | some change => exact h.tag.mpr (by rw [hchange]; rfl)
    | none =>
      -- Of the two kinds, a level is missing for the one and a digest for the other.
      apply Option.eq_none_iff_forall_ne_some.mpr
      rintro (_ | _) hkind
      · have hsome := h.tag.mp hkind
        rw [hchange] at hsome
        cases hsome
      · exact hdigest (h.digest.mp hkind).1
  refine ⟨?_, hkind, hchanged, hnew, hbase⟩
  rw [Bool.eq_iff_iff, h.update, hkind, Option.isSome_map]

end Decision.Consistent

section Decisions

variable {state state' : ContainerState} {fetch fetch' : FetchResult}

/-- What is said about tags comes from the verdicts on tags. -/
theorem sameTags_decideAnswered (htag : state.tag = state'.tag) (h : fetch.SameTags fetch') :
    (state.decideAnswered fetch).SameTags (state'.decideAnswered fetch') := by
  have hchange : (state.decideAnswered fetch).change = (state'.decideAnswered fetch').change := by
    show (judgeTag state.tag fetch.latest).change? = (judgeTag state'.tag fetch'.latest).change?
    rw [htag, h.latest]
  have houtside : (state.decideAnswered fetch).outsideScope =
      (state'.decideAnswered fetch').outsideScope := by
    show ((judgeScope state.tag fetch.latest fetch.latestOverall).block state.scope).isSome =
      ((judgeScope state'.tag fetch'.latest fetch'.latestOverall).block state'.scope).isSome
    rw [htag, h.latest, h.latestOverall]
    exact ScopeVerdict.isSome_block _ _ _
  refine ⟨h.latest, h.latestOverall, hchange, houtside, ?_⟩
  rw [(consistent_answered h.answered).update_tag_iff,
    (consistent_answered h.answered').update_tag_iff, hchange]

/-- A tag that holds a version, and that the registry does not flag, is not compared by digest. -/
theorem ContainerState.not_comparedByDigest (hversion : (Version.ofTag? state.tag).isSome = true)
    (hflag : fetch.floating = false) : ¬ state.ComparedByDigest fetch := by
  rintro (hfloating | hnone)
  · rw [hflag] at hfloating
    cases hfloating
  · rw [hnone] at hversion
    cases hversion

theorem sameVerdict_decideAnswered (htag : state.tag = state'.tag) (h : fetch.SameTags fetch')
    (hversion : (Version.ofTag? state.tag).isSome = true) (hflag : fetch.floating = false) :
    (state.decideAnswered fetch).SameVerdict (state'.decideAnswered fetch') := by
  have htags := sameTags_decideAnswered htag h
  obtain ⟨hupdate, hkind, hchanged, hnew, hbase⟩ :=
    (consistent_answered h.answered).of_not_comparedByDigest
      (ContainerState.not_comparedByDigest hversion hflag)
  obtain ⟨hupdate', hkind', hchanged', hnew', hbase'⟩ :=
    (consistent_answered h.answered').of_not_comparedByDigest
      (ContainerState.not_comparedByDigest (htag ▸ hversion) (h.floating ▸ hflag))
  apply Decision.sameVerdict_iff.mpr
  exact ⟨by rw [hupdate, hupdate', htags.change], by rw [hkind, hkind', htags.change],
    htags.latest, htags.latestOverall, htags.change, htags.outsideScope,
    by rw [hchanged, hchanged'], by rw [hnew, hnew'], by rw [hbase, hbase']⟩

/-- **What a decision does not depend on.** Take two decisions on one tag, whose fetches gave an
answer with the same newest tags and the same flag. Whatever digest, scope, registry and choice
about prereleases are stored, and whatever tags and metadata were fetched, the two name the same
tags, the same level and the same violation of the scope, and either both are updates of the tag
or none is. If the tag holds a version and is not flagged as floating, the decisions differ in
their traces at most, so no digest has any influence. -/
theorem decide_independent (htag : state.tag = state'.tag) (h : fetch.SameTags fetch') :
    (state.decide fetch).SameTags (state'.decide fetch') ∧
    ((Version.ofTag? state.tag).isSome = true → fetch.floating = false →
      (state.decide fetch).SameVerdict (state'.decide fetch')) := by
  rw [ContainerState.decide_answered h.answered, ContainerState.decide_answered h.answered']
  constructor
  · exact sameTags_decideAnswered htag h
  · intro hversion hflag
    exact sameVerdict_decideAnswered htag h hversion hflag

end Decisions

/-- The two containers share nothing but the tag, and the registry reports another digest. -/
theorem decide_independent_patch :
    let state : ContainerState := ⟨"1.2.3", some "sha256:a", .patch, "ghcr.io", false⟩
    let state' : ContainerState := ⟨"1.2.3", none, .major, "dockerhub", true⟩
    let fetch : FetchResult :=
      ⟨["1.2.4"], some "1.2.4", some "2.0.0", some ⟨some "sha256:b", none⟩, false, none⟩
    let fetch' : FetchResult := ⟨[], some "1.2.4", some "2.0.0", none, false, none⟩
    (state.decide fetch).SameTags (state'.decide fetch') ∧
      (state.decide fetch).SameVerdict (state'.decide fetch') := by
  intro state state' fetch fetch'
  obtain ⟨htags, hverdict⟩ :=
    @decide_independent state state' fetch fetch' rfl ⟨rfl, rfl, rfl, rfl, rfl⟩
  exact ⟨htags, hverdict (by decide) rfl⟩

end TagWatch
