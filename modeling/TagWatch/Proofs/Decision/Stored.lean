import TagWatch.Proofs.Decision.Consistency

/-!
# Storing the reported digest

Whoever acts on a decision stores the digest that it reports, so that the next check compares with
that one.

**Theorem (`decide_stored`).** Storing the digest silences the verdict on digests and nothing else:
on the same fetch there is no changed digest and no baseline any more, and all that is said about
tags stays. One time is enough, since the next decision reports the same digest again.

A reported digest does not depend on the stored one, and compared with itself it has not changed. If
none is reported, the stored one is left alone, and nothing was compared with it anyway.
-/

namespace TagWatch

/-- The state in which the digest that a decision reports has been stored. -/
def ContainerState.store (state : ContainerState) (d : Decision) : ContainerState :=
  { state with digest := d.newDigest.or state.digest }

/-- The decision that remains when the reported digest is the stored one. -/
def Decision.settled (d : Decision) : Decision :=
  { d with
    hasUpdate := d.change.isSome
    kind := d.change.map fun _ => .tag
    digestChanged := false
    baselineNeeded := false
    trace :=
      { d.trace with
        currentDigest := d.newDigest.or d.trace.currentDigest
        digest := d.newDigest.map fun digest => ⟨some digest, digest, false⟩ } }

/-! ## The verdict on the stored digest -/

/-- The verdict that remains when the reported digest is the stored one. -/
def DigestVerdict.settled : DigestVerdict → DigestVerdict
  | compared _ current => compared current current
  | baseline current => compared current current
  | verdict => verdict

namespace DigestVerdict

variable (verdict : DigestVerdict)

theorem changed_settled : verdict.settled.changed = false := by
  cases verdict <;> simp [settled, changed]

theorem newDigest_settled : verdict.settled.newDigest = verdict.newDigest := by
  cases verdict <;> rfl

theorem isBaseline_settled : verdict.settled.isBaseline = false := by
  cases verdict <;> rfl

theorem comparison_settled : verdict.settled.comparison =
    verdict.newDigest.map fun digest => ⟨some digest, digest, false⟩ := by
  cases verdict <;> simp [settled, comparison, newDigest]

theorem anomalies_settled : verdict.settled.anomalies = verdict.anomalies := by
  cases verdict <;> rfl

end DigestVerdict

/-- A reported digest that has been stored is compared with itself. -/
theorem judgeDigest_stored (currentTag : String) (floating : Bool)
    (stored reported : Option String) :
    judgeDigest currentTag floating
        ((judgeDigest currentTag floating stored reported).newDigest.or stored) reported =
      (judgeDigest currentTag floating stored reported).settled := by
  cases floating <;> cases reported <;> cases stored <;> rfl

/-! ## The next decision -/

section Decisions

variable (state : ContainerState) (fetch : FetchResult)

theorem decideAnswered_store :
    (state.store (state.decideAnswered fetch)).decideAnswered fetch =
      (state.decideAnswered fetch).settled := by
  let state' := state.store (state.decideAnswered fetch)
  have hverdict : judgeDigest state'.tag (state'.isFloating fetch) state'.digest fetch.digest =
      (judgeDigest state.tag (state.isFloating fetch) state.digest fetch.digest).settled :=
    judgeDigest_stored _ _ _ _
  have hkind (change : Option Level) : (if change.isSome = true then some UpdateKind.tag
      else if false = true then some .digest else none) = change.map fun _ => .tag := by
    cases change <;> rfl
  show state'.decideAnswered fetch = _
  rw [ContainerState.decideAnswered]
  dsimp only
  rw [hverdict, DigestVerdict.changed_settled, DigestVerdict.newDigest_settled,
    DigestVerdict.isBaseline_settled, DigestVerdict.comparison_settled,
    DigestVerdict.anomalies_settled, hkind, Option.isSome_map]
  rfl

/-- The next decision on the same fetch is what remains of the first one. -/
theorem decide_store :
    (state.store (state.decide fetch)).decide fetch = (state.decide fetch).settled := by
  cases h : fetch.error with
  | some error =>
    rw [ContainerState.decide_failed h, ContainerState.decide_failed h]
    rfl
  | none =>
    rw [ContainerState.decide_answered h, ContainerState.decide_answered h]
    exact decideAnswered_store state fetch

end Decisions

/-- **Storing the digest silences the verdict on it and nothing else.** After the digest that a
decision reports has been stored, the next decision on the same fetch has no changed digest, needs
no baseline and is no update of the digest. It reports the same digest, level and violation of the
scope as before, and is an update exactly if the first decision was one of the tag; in every other
field, those of the trace included, the two agree. Storing once more changes nothing. -/
theorem decide_stored (state : ContainerState) (fetch : FetchResult) :
    let d := state.decide fetch
    let state' := state.store d
    let d' := state'.decide fetch
    (d'.digestChanged = false ∧ d'.baselineNeeded = false ∧ d'.kind ≠ some .digest) ∧
      (d'.newDigest = d.newDigest ∧ d'.change = d.change ∧ d'.outsideScope = d.outsideScope) ∧
      (d'.hasUpdate = true ↔ d.kind = some .tag) ∧
      d' = d.settled ∧
      (state'.store d').decide fetch = d' := by
  intro d state' d'
  have hd' : d' = d.settled := decide_store state fetch
  have hstate : state'.store d' = state' := by
    rw [hd']
    show { state with digest := d.newDigest.or (d.newDigest.or state.digest) } = state'
    rw [← Option.or_assoc, Option.or_self]
    rfl
  have hkind : d.settled.kind ≠ some .digest := by
    show d.change.map _ ≠ _
    cases d.change <;> simp
  refine ⟨?_, ?_, ?_, hd', by rw [hstate]⟩
  · rw [hd']
    exact ⟨rfl, rfl, hkind⟩
  · rw [hd']
    exact ⟨rfl, rfl, rfl⟩
  · rw [hd', (decide_consistent state fetch).tag]
    exact Iff.rfl

/-- The registry flags a year as floating, reports a newer year and a digest where none is stored:
storing the digest leaves the update of the tag. -/
example :
    let state : ContainerState := ⟨"2024", none, .major, "ghcr.io", false⟩
    let fetch : FetchResult :=
      ⟨["2025"], some "2025", some "2025", some ⟨some "sha256:b", none⟩, true, none⟩
    let d' := (state.store (state.decide fetch)).decide fetch
    (state.decide fetch).baselineNeeded = true ∧ d'.baselineNeeded = false ∧
      d'.kind = some .tag := by
  decide

end TagWatch
