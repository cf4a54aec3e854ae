import TagWatch.Fetch.Result
import TagWatch.Image.Container
import TagWatch.Run.Metrics

/-!
# The context of a run

A run keeps the answers that it got, by key, and its counters. Containers with equal keys form a
**group**, which needs one fetch; groups stand in the order of their first members, and members
in the order of the containers.
-/

namespace TagWatch

/-- The answers and counters of one run. -/
structure Context where
  cache : Table Key FetchResult := .empty
  metrics : Metrics := {}
  deriving Repr, DecidableEq

/-- The members of each group, by key. -/
abbrev Groups := Table Key (List Container)

/-- Whether prereleases count for each container, by container id. -/
abbrev PrereleaseLookup := Table String Bool

/-- The key of a container, where a container that is not in the lookup gets no prereleases. -/
def Container.keyIn (c : Container) (lookup : PrereleaseLookup) : Key :=
  c.key (lookup.getD c.id false)

/-- The groups of a list of containers. -/
def groupContainers (containers : List Container) (lookup : PrereleaseLookup) : Groups :=
  containers.foldl (fun groups c => groups.alter (c.keyIn lookup) [] (· ++ [c])) .empty

namespace Context

/-- The groups of a list of containers, which are counted. -/
def group (ctx : Context) (containers : List Container) (lookup : PrereleaseLookup) :
    Groups × Context :=
  let groups := groupContainers containers lookup
  (groups, { ctx with metrics := ctx.metrics.recordGroups containers.length groups.size })

/-- The answer kept for a key. -/
def get? (ctx : Context) (k : Key) : Option FetchResult := ctx.cache.get? k

/-- The context with an answer kept for a key. -/
def set (ctx : Context) (k : Key) (r : FetchResult) : Context :=
  { ctx with cache := ctx.cache.set k r }

/-- The context with its counters changed. -/
def onMetrics (ctx : Context) (f : Metrics → Metrics) : Context :=
  { ctx with metrics := f ctx.metrics }

end Context

end TagWatch
