import TagWatch.Decision.Basic
import TagWatch.Fetch.Result
import TagWatch.Image.Container
import TagWatch.Version.Order

/-!
# Deciding on an update

`ContainerState.decide` compares what a fetch found with the state of a container. It looks at
three things.

* **Tags.** A newest tag that differs from the current one is an update if both hold versions
  and it is newer, and an anomaly otherwise.
* **Digests.** Only a floating tag is compared by digest. A digest that differs from the stored
  one is an update unless a newer tag is one already; the first digest seen is a baseline.
* **Scope.** A newest tag outside the scope is reported when it is newer, or cannot be compared.

A failed fetch decides nothing.
-/

namespace TagWatch

/-- What a decision needs to know about a container. -/
structure ContainerState where
  tag : String
  /-- The stored digest of the current tag. -/
  digest : Option String
  scope : Level
  registry : String
  prereleases : Bool
  deriving Repr, DecidableEq

/-- The state of a container for a given choice about prereleases. -/
def Container.state (c : Container) (prereleases : Bool) : ContainerState :=
  ⟨c.tag, c.digest, c.scope, c.registry, prereleases⟩

/-- What the newest tag inside the scope amounts to. -/
inductive TagVerdict where
  | same
  | update (change : Level)
  | anomaly (what : Anomaly)
  deriving Repr, DecidableEq

namespace TagVerdict

/-- The level of the update, if there is one. -/
def change? : TagVerdict → Option Level
  | update change => some change
  | _ => none

/-- The anomaly, if there is one. -/
def anomalies : TagVerdict → List Anomaly
  | anomaly what => [what]
  | _ => []

end TagVerdict

/-- What the reported digest amounts to. -/
inductive DigestVerdict where
  /-- There is nothing to compare. -/
  | unused
  | compared (previous current : String)
  | baseline (current : String)
  | anomaly (what : Anomaly)
  deriving Repr, DecidableEq

namespace DigestVerdict

/-- Whether a stored digest differs from the reported one. -/
def changed : DigestVerdict → Bool
  | compared previous current => previous != current
  | _ => false

/-- The reported digest, if it counts. -/
def newDigest : DigestVerdict → Option String
  | compared _ current => some current
  | baseline current => some current
  | _ => none

/-- Whether the reported digest is the first one seen. -/
def isBaseline : DigestVerdict → Bool
  | baseline _ => true
  | _ => false

/-- The comparison for the trace. -/
def comparison : DigestVerdict → Option DigestComparison
  | compared previous current => some ⟨some previous, current, previous != current⟩
  | baseline current => some ⟨none, current, false⟩
  | _ => none

/-- The anomaly, if there is one. -/
def anomalies : DigestVerdict → List Anomaly
  | anomaly what => [what]
  | _ => []

end DigestVerdict

/-- What the newest tag of all amounts to. -/
inductive ScopeVerdict where
  | clear
  | blocked (tag : String)
  | anomaly (what : Anomaly)
  deriving Repr, DecidableEq

namespace ScopeVerdict

/-- The tag that the scope keeps out. -/
def block (scope : Level) : ScopeVerdict → Option ScopeBlock
  | blocked tag => some ⟨tag, scope⟩
  | _ => none

/-- The anomaly, if there is one. -/
def anomalies : ScopeVerdict → List Anomaly
  | anomaly what => [what]
  | _ => []

end ScopeVerdict

/-- Judges the newest tag inside the scope against the current tag. -/
def judgeTag (currentTag : String) (latest : Option String) : TagVerdict :=
  match latest with
  | none => .same
  | some latest =>
    if latest = currentTag then .same
    else match Version.ofTag? currentTag, Version.ofTag? latest with
      | some current, some candidate =>
        match current.change? candidate with
        | some change => .update change
        | none => .anomaly (.notNewer latest currentTag)
      | _, _ => .anomaly (.incomparable currentTag latest)

/-- Judges the reported digest against the stored one. -/
def judgeDigest (currentTag : String) (floating : Bool) (stored reported : Option String) :
    DigestVerdict :=
  match floating, reported with
  | true, some current =>
    match stored with
    | some previous => .compared previous current
    | none => .baseline current
  | true, none => .anomaly (.digestMissing currentTag)
  | false, some _ => .anomaly .digestIgnored
  | false, none => .unused

/-- Judges the newest tag of all against the current tag and the newest one inside the scope. -/
def judgeScope (currentTag : String) (latest latestOverall : Option String) : ScopeVerdict :=
  match latestOverall with
  | none => .clear
  | some overall =>
    if overall = currentTag ∨ latest = some overall then .clear
    else match Version.ofTag? currentTag, Version.ofTag? overall with
      | some current, some candidate =>
        if (current.change? candidate).isSome then .blocked overall
        else .anomaly (.overallNotNewer overall currentTag)
      | _, _ => .blocked overall

/-- The facts about a container that every trace begins with. -/
def ContainerState.trace (s : ContainerState) : Trace where
  registry := s.registry
  currentTag := s.tag
  currentDigest := s.digest
  scope := s.scope
  prereleases := s.prereleases

/-- Whether the current tag is compared by digest: the registry says so, or it holds no version. -/
def ContainerState.isFloating (s : ContainerState) (fetch : FetchResult) : Bool :=
  fetch.floating || (Version.ofTag? s.tag).isNone

/-- The verdict on a container whose fetch gave an answer. -/
def ContainerState.decideAnswered (s : ContainerState) (fetch : FetchResult) : Decision :=
  let floating := s.isFloating fetch
  let tag := judgeTag s.tag fetch.latest
  let digest := judgeDigest s.tag floating s.digest fetch.digest
  let scope := judgeScope s.tag fetch.latest fetch.latestOverall
  let kind : Option UpdateKind :=
    if tag.change?.isSome then some .tag else if digest.changed then some .digest else none
  { hasUpdate := kind.isSome
    kind := kind
    latest := fetch.latest
    latestOverall := fetch.latestOverall
    change := tag.change?
    outsideScope := (scope.block s.scope).isSome
    digestChanged := digest.changed
    newDigest := digest.newDigest
    baselineNeeded := digest.isBaseline
    trace :=
      { s.trace with
        suffix := tagSuffix s.tag
        floating := floating
        tagCount := fetch.tags.length
        latest := fetch.latest
        latestOverall := fetch.latestOverall
        change := tag.change?
        digest := digest.comparison
        block := scope.block s.scope
        anomalies := tag.anomalies ++ digest.anomalies ++ scope.anomalies } }

/-- The verdict on a container, given what a fetch for it found. -/
def ContainerState.decide (s : ContainerState) (fetch : FetchResult) : Decision :=
  match fetch.error with
  | some error => .nothing { s.trace with error := some error }
  | none => s.decideAnswered fetch

end TagWatch
