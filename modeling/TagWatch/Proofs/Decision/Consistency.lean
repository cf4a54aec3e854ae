import TagWatch.Proofs.Decision.Scope

/-!
# The fields of a decision fit together

A decision has many fields, and those who store or print it read them one by one.

**Theorem (`decide_consistent`).** Whatever a fetch reports, and whatever is stored about the
container, the fields of the decision agree with each other and with its trace, and each is set
for the one reason that it stands for.

The three verdicts are independent of each other, so each field follows from one of them
(`judgeTag_change?_isSome_iff`, `judgeDigest_changed_iff`, `judgeDigest_isBaseline_iff`,
`judgeScope_block_isSome_iff`). Only the kind of the update depends on two, where a newer tag goes
before another digest.
-/

namespace TagWatch

/-- The current tag is compared by digest: the registry flags it as floating, or it holds no
version. -/
def ContainerState.ComparedByDigest (state : ContainerState) (fetch : FetchResult) : Prop :=
  fetch.floating = true ∨ Version.ofTag? state.tag = none

/-- The fields of a decision agree with each other, and with what was stored and fetched. -/
structure Decision.Consistent (state : ContainerState) (fetch : FetchResult) (d : Decision) :
    Prop where
  update : d.hasUpdate = true ↔ d.kind.isSome = true
  tag : d.kind = some .tag ↔ d.change.isSome = true
  newer : d.change.isSome = true ↔ ∃ latest current candidate, d.latest = some latest ∧
    Version.ofTag? state.tag = some current ∧ Version.ofTag? latest = some candidate ∧
    candidate.cmp current = .gt
  /-- A newer tag goes before another digest. -/
  digest : d.kind = some .digest ↔
    state.ComparedByDigest fetch ∧ d.digestChanged = true ∧ d.change = none
  changed : d.digestChanged = true ↔ ∃ stored new, state.digest = some stored ∧
    d.newDigest = some new ∧ stored ≠ new
  reported : ∀ new, d.newDigest = some new ↔
    fetch.error = none ∧ state.ComparedByDigest fetch ∧ fetch.digest = some new
  baseline : d.baselineNeeded = true ↔ fetch.error = none ∧ state.ComparedByDigest fetch ∧
    fetch.digest.isSome = true ∧ state.digest = none
  baseline_unchanged : d.baselineNeeded = true → d.digestChanged = false
  outside : d.outsideScope = true ↔ d.trace.block.isSome = true
  /-- The newest tag of all lies outside if it is another one than the current and the newest one
  inside, and is newer than the current one as far as they can be compared. -/
  beyond : d.trace.block.isSome = true ↔ ∃ overall, d.latestOverall = some overall ∧
    overall ≠ state.tag ∧ d.latest ≠ some overall ∧ ∀ current candidate,
      Version.ofTag? state.tag = some current → Version.ofTag? overall = some candidate →
      candidate.cmp current = .gt
  compared : d.newDigest.isSome = true ↔ d.trace.digest.isSome = true
  comparison : ∀ c, d.trace.digest = some c → d.newDigest = some c.current ∧
    c.previous = state.digest ∧ c.changed = d.digestChanged
  /-- A failed fetch decides nothing, whatever else it reports. -/
  failed : fetch.error.isSome = true → d = .nothing d.trace ∧ d.trace.error = fetch.error

variable {currentTag : String}

/-! ## The verdict on the newest tag inside the scope -/

theorem Version.change?_isSome_iff {current candidate : Version} :
    (current.change? candidate).isSome = true ↔ candidate.cmp current = .gt := by
  constructor
  · intro h
    by_cases hp : current.precedes candidate = true
    · exact precedes_iff.mp hp
    · simp [change?, hp] at h
  · intro h
    obtain ⟨change, hch, -⟩ := exists_change h
    rw [hch]
    rfl

theorem judgeTag_change?_isSome_iff {latest : Option String} :
    (judgeTag currentTag latest).change?.isSome = true ↔ ∃ tag current candidate,
      latest = some tag ∧ Version.ofTag? currentTag = some current ∧
      Version.ofTag? tag = some candidate ∧ candidate.cmp current = .gt := by
  constructor
  · intro h
    unfold judgeTag at h
    split at h
    · cases h
    · next tag =>
      split at h
      · cases h
      · split at h
        · next current candidate hc ht =>
          refine ⟨tag, current, candidate, rfl, hc, ht, Version.change?_isSome_iff.mp ?_⟩
          split at h
          · next hch => rw [hch]; rfl
          · cases h
        · cases h
  · rintro ⟨tag, current, candidate, rfl, hc, ht, hn⟩
    obtain ⟨change, hch, -⟩ := Version.exists_change hn
    rw [judgeTag_of_newer hc ht hn hch]
    rfl

/-! ## The verdict on the reported digest -/

section Digest

variable {floating : Bool} {stored reported : Option String}

theorem judgeDigest_newDigest_iff {new : String} :
    (judgeDigest currentTag floating stored reported).newDigest = some new ↔
      floating = true ∧ reported = some new := by
  cases floating <;> cases reported <;> cases stored <;>
    simp [judgeDigest, DigestVerdict.newDigest]

theorem judgeDigest_changed_iff :
    (judgeDigest currentTag floating stored reported).changed = true ↔ ∃ old new,
      stored = some old ∧
      (judgeDigest currentTag floating stored reported).newDigest = some new ∧ old ≠ new := by
  cases floating <;> cases reported <;> cases stored <;>
    simp [judgeDigest, DigestVerdict.changed, DigestVerdict.newDigest]

theorem judgeDigest_isBaseline_iff :
    (judgeDigest currentTag floating stored reported).isBaseline = true ↔
      floating = true ∧ reported.isSome = true ∧ stored = none := by
  cases floating <;> cases reported <;> cases stored <;>
    simp [judgeDigest, DigestVerdict.isBaseline]

theorem judgeDigest_previous {c : DigestComparison}
    (h : (judgeDigest currentTag floating stored reported).comparison = some c) :
    c.previous = stored := by
  cases floating <;> cases reported <;> cases stored <;>
    simp [judgeDigest, DigestVerdict.comparison] at h <;> rw [← h]

/-- The comparison in the trace repeats the verdict. -/
theorem DigestVerdict.comparison_eq_map (v : DigestVerdict) : v.comparison = v.newDigest.map
    fun current => ⟨v.comparison.bind (·.previous), current, v.changed⟩ := by
  cases v <;> rfl

end Digest

/-! ## The verdict on the newest tag of all -/

theorem judgeScope_block_isSome_iff {latest latestOverall : Option String} {scope : Level} :
    ((judgeScope currentTag latest latestOverall).block scope).isSome = true ↔ ∃ overall,
      latestOverall = some overall ∧ overall ≠ currentTag ∧ latest ≠ some overall ∧
      ∀ current candidate, Version.ofTag? currentTag = some current →
        Version.ofTag? overall = some candidate → candidate.cmp current = .gt := by
  cases latestOverall with
  | none => simp [judgeScope, ScopeVerdict.block]
  | some overall =>
    simp only [judgeScope, Option.some.injEq, exists_eq_left']
    by_cases hsame : overall = currentTag ∨ latest = some overall
    · rw [if_pos hsame]
      refine iff_of_false Bool.false_ne_true ?_
      rintro ⟨hcur, hin, -⟩
      exact hsame.elim hcur hin
    · rw [if_neg hsame, ← and_assoc, ← not_or, and_iff_right hsame]
      cases hc : Version.ofTag? currentTag with
      | none => simp [ScopeVerdict.block]
      | some current =>
        cases ho : Version.ofTag? overall with
        | none => simp [ScopeVerdict.block]
        | some candidate =>
          simp only [Option.some.injEq, Version.change?_isSome_iff]
          by_cases hn : candidate.cmp current = .gt
          · simp [hn, ScopeVerdict.block]
          · simp [hn, ScopeVerdict.block]

/-! ## Decisions -/

theorem ContainerState.isFloating_iff {state : ContainerState} {fetch : FetchResult} :
    state.isFloating fetch = true ↔ state.ComparedByDigest fetch := by
  simp [isFloating, ComparedByDigest]

theorem ContainerState.decide_failed {state : ContainerState} {fetch : FetchResult}
    {error : String} (h : fetch.error = some error) :
    state.decide fetch = .nothing { state.trace with error := some error } := by
  simp only [decide, h]

theorem ContainerState.decide_answered {state : ContainerState} {fetch : FetchResult}
    (h : fetch.error = none) : state.decide fetch = state.decideAnswered fetch := by
  simp only [decide, h]

/-- The decision that proposes nothing fits a failed fetch. -/
theorem consistent_nothing {state : ContainerState} {fetch : FetchResult} {trace : Trace}
    (herror : fetch.error.isSome = true) (htrace : trace.error = fetch.error)
    (hdigest : trace.digest = none) (hblock : trace.block = none) :
    (Decision.nothing trace).Consistent state fetch := by
  have hne : fetch.error ≠ none := Option.isSome_iff_ne_none.mp herror
  constructor <;> simp [Decision.nothing, hne, htrace, hdigest, hblock]

/-- The fields of an answered decision, through the verdicts that fill them. -/
theorem consistent_answered {state : ContainerState} {fetch : FetchResult}
    (h : fetch.error = none) : (state.decideAnswered fetch).Consistent state fetch where
  update := Iff.rfl
  tag := by
    simp only [ContainerState.decideAnswered]
    split
    · next htag => exact iff_of_true rfl htag
    · next htag =>
      refine iff_of_false ?_ htag
      split <;> simp
  newer := judgeTag_change?_isSome_iff
  digest := by
    have hfloating : (state.decideAnswered fetch).digestChanged = true →
        state.ComparedByDigest fetch := by
      intro hchanged
      obtain ⟨-, new, -, hnew, -⟩ := judgeDigest_changed_iff.mp hchanged
      exact ContainerState.isFloating_iff.mp (judgeDigest_newDigest_iff.mp hnew).1
    rw [and_iff_right_of_imp fun hboth => hfloating hboth.1]
    simp only [ContainerState.decideAnswered, ← Option.not_isSome_iff_eq_none]
    split
    · next htag => exact iff_of_false (by decide) fun hboth => hboth.2 htag
    · next htag =>
      rw [and_iff_left htag]
      split
      · next hchanged => exact iff_of_true rfl hchanged
      · next hchanged => exact iff_of_false (by decide) hchanged
  changed := judgeDigest_changed_iff
  reported new := by
    rw [and_iff_right h, ← ContainerState.isFloating_iff]
    exact judgeDigest_newDigest_iff
  baseline := by
    rw [and_iff_right h, ← ContainerState.isFloating_iff]
    exact judgeDigest_isBaseline_iff
  baseline_unchanged := by
    intro hbase
    obtain ⟨-, -, hstored⟩ := judgeDigest_isBaseline_iff.mp hbase
    refine Bool.eq_false_iff.mpr fun hchanged => ?_
    obtain ⟨old, -, hold, -⟩ := judgeDigest_changed_iff.mp hchanged
    rw [hstored] at hold
    cases hold
  outside := Iff.rfl
  beyond := judgeScope_block_isSome_iff
  compared := by
    show _ ↔ (DigestVerdict.comparison _).isSome = true
    rw [DigestVerdict.comparison_eq_map, Option.isSome_map]
    exact Iff.rfl
  comparison c hc := by
    refine ⟨?_, judgeDigest_previous hc, ?_⟩
    all_goals
      rw [show (state.decideAnswered fetch).trace.digest = DigestVerdict.comparison _ from rfl,
        DigestVerdict.comparison_eq_map] at hc
      obtain ⟨current, hcurrent, rfl⟩ := Option.map_eq_some_iff.mp hc
    · exact hcurrent
    · rfl
  failed := by
    intro herror
    rw [h] at herror
    cases herror

/-- **The fields of a decision fit together.** Whatever was stored and fetched, there is an update
if and only if it has a kind. It is an update of the tag exactly if it has a level, which means
that the newest tag holds a newer version than the current one. It is an update of the digest
exactly if a tag that is compared by digest has another digest than the stored one and there is no
newer tag. A digest that was reported for such a tag and has nothing to compare with is a baseline
and never a change. The trace holds the tag that the scope keeps out and the comparison of digests
exactly if the decision reports them, and nothing is decided after a failed fetch. -/
theorem decide_consistent (state : ContainerState) (fetch : FetchResult) :
    (state.decide fetch).Consistent state fetch := by
  cases h : fetch.error with
  | some error =>
    rw [ContainerState.decide_failed h]
    exact consistent_nothing (by rw [h]; rfl) h.symm rfl rfl
  | none =>
    rw [ContainerState.decide_answered h]
    exact consistent_answered h

/-- The registry flags a year as floating, and reports a newer year and another digest. -/
example :
    let decision := ContainerState.decide ⟨"2024", some "sha256:a", .major, "ghcr.io", false⟩
      ⟨["2025"], some "2025", some "2025", some ⟨some "sha256:b", none⟩, true, none⟩
    decision.kind = some .tag ∧ decision.digestChanged = true ∧
      decision.newDigest = some "sha256:b" := by
  decide

end TagWatch
