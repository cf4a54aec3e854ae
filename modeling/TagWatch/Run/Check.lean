import TagWatch.Decision.Decide
import TagWatch.Run.Pool

/-!
# Checking containers

A check run decides on every container of a list. Containers with equal keys are fetched once,
the fetches of all groups run side by side under the limiter, and each container is then judged
by the answer to its group and its own state.

A container counts as a cache hit when it did not cost a fetch: the answer was kept, or the fetch
succeeded and an earlier container of its group is charged for it.
-/

namespace TagWatch

/-- The outcome of a run for one container. -/
structure ContainerCheck where
  containerId : String
  containerName : String
  image : String
  currentTag : String
  cacheHit : Bool
  decision : Decision
  deriving Repr, DecidableEq

/-- The outcome of a run: one check for each container, in order, and the counters. -/
structure Report where
  checks : List ContainerCheck
  metrics : Metrics
  deriving Repr, DecidableEq

namespace Report

/-- The checks that found an update. -/
def updates (r : Report) : List ContainerCheck := r.checks.filter (·.decision.hasUpdate)

end Report

/-- Whether prereleases count for each container of a list. Of containers with one id the last
one decides. -/
def prereleaseLookup (settings : FetchSettings) (containers : List Container) :
    PrereleaseLookup :=
  .ofList (containers.map fun c => (c.id, settings.prereleasesFor c))

/-- What a run knows while it judges its containers. -/
structure Judging where
  metrics : Metrics
  /-- The keys that an earlier container is charged for. -/
  charged : List Key
  checks : List ContainerCheck

/-- Judges one container by the answers to the groups. -/
def Judging.judge (lookup : PrereleaseLookup) (responses : Table Key FetchResponse)
    (j : Judging) (c : Container) : Judging :=
  let key := c.keyIn lookup
  match responses.get? key with
  | none => j
  | some response =>
    let first := !j.charged.contains key
    let cacheHit := response.cacheHit || (!first && response.result.error.isNone)
    let decision := (c.state (lookup.getD c.id false)).decide response.result
    let metrics := j.metrics.recordCheck key.registry 0 cacheHit
    { metrics :=
        if decision.trace.error.isSome then metrics.recordError
        else if decision.hasUpdate then metrics.recordUpdate
        else metrics
      charged := if first then j.charged ++ [key] else j.charged
      checks := j.checks ++ [⟨c.id, c.name, c.image, c.tag, cacheHit, decision⟩] }

/-- The report on a list of containers, given the answers to their groups. -/
def judgeAll (lookup : PrereleaseLookup) (responses : Table Key FetchResponse)
    (containers : List Container) (metrics : Metrics) : Report :=
  let j := containers.foldl (Judging.judge lookup responses) ⟨metrics, [], []⟩
  ⟨j.checks, j.metrics.finalize⟩

/-- The fetch of a group: the stored digest of its first member goes along. -/
def groupFetch (settings : FetchSettings) (key : Key) (members : List Container) :
    FetchProgram FetchResponse :=
  FetchProgram.fetch settings true (.ofKey key (members.head?.bind (·.digest)))

variable {σ : Type}

/-- Checks every container of a list once, in a run of its own. -/
def checkContainers (service : Service σ) (settings : FetchSettings)
    (containers : List Container) (w : World σ) : Report × World σ :=
  let lookup := prereleaseLookup settings containers
  let (groups, context) := Context.group {} containers lookup
  let programs := groups.entries.map fun g => groupFetch settings g.1 g.2
  let (outcomes, w) := Pool.run service programs { w with context := context }
  let answered := (groups.keys.zip outcomes).filterMap fun (key, r?) => r?.map fun r => (key, r)
  (judgeAll lookup ⟨answered⟩ containers w.context.metrics, w)

end TagWatch
