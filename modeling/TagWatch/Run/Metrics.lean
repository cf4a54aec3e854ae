import TagWatch.Registry.Name

/-!
# Counters of a run

What a run counts while it checks containers: the containers, the groups that they fall into,
the calls to each registry, the updates and the errors, and the time that each check took.
-/

namespace TagWatch

/-- The counters of one registry. -/
structure RegistryStats where
  apiCalls : Nat := 0
  cacheHits : Nat := 0
  cacheMisses : Nat := 0
  deriving Repr, DecidableEq

/-- The counters of one run. -/
structure Metrics where
  totalContainers : Nat := 0
  checkedContainers : Nat := 0
  deduplicatedContainers : Nat := 0
  uniqueImages : Nat := 0
  updatesFound : Nat := 0
  errors : Nat := 0
  /-- The time of each check, in microseconds. -/
  latencies : List Nat := []
  registries : Table String RegistryStats := .empty
  /-- Whether the run is over. -/
  completed : Bool := false
  deriving Repr, DecidableEq

/-- A number of microseconds in seconds. -/
def secondsOfMicros (us : Nat) : Float :=
  Float.ofNat (us / 1000000) + Float.ofNat (us % 1000000 * 1000) / 1000000000.0

namespace RegistryStats

/-- One more check: a hit, or else a miss that cost a call. -/
def record (s : RegistryStats) (cacheHit : Bool) : RegistryStats :=
  if cacheHit then { s with cacheHits := s.cacheHits + 1 }
  else { s with cacheMisses := s.cacheMisses + 1, apiCalls := s.apiCalls + 1 }

end RegistryStats

namespace Metrics

/-- The calls to all registries together. -/
def totalApiCalls (m : Metrics) : Nat :=
  m.registries.entries.foldl (fun n e => n + e.2.apiCalls) 0

/-- The fraction of containers that needed no fetch of their own. -/
def dedupRatio (m : Metrics) : Float :=
  if m.totalContainers = 0 then 0.0
  else Float.ofNat m.deduplicatedContainers / Float.ofNat m.totalContainers

/-- The mean time of a check in seconds. -/
def averageLatency? (m : Metrics) : Option Float :=
  if m.latencies.isEmpty then none
  else some ((m.latencies.map secondsOfMicros).foldl (· + ·) 0.0 / Float.ofNat m.latencies.length)

/-- One more check of a container of some registry. -/
def recordCheck (m : Metrics) (registry : String) (latency : Nat) (cacheHit : Bool) : Metrics :=
  { m with
    checkedContainers := m.checkedContainers + 1
    latencies := m.latencies ++ [latency]
    registries := m.registries.alter (Registry.canonical registry) {} (·.record cacheHit) }

/-- One more container with an update. -/
def recordUpdate (m : Metrics) : Metrics := { m with updatesFound := m.updatesFound + 1 }

/-- One more container whose fetch failed. -/
def recordError (m : Metrics) : Metrics := { m with errors := m.errors + 1 }

/-- The containers and groups of the run. -/
def recordGroups (m : Metrics) (containers groups : Nat) : Metrics :=
  { m with
    totalContainers := containers
    uniqueImages := groups
    deduplicatedContainers := containers - groups }

/-- The counters of a run that is over. -/
def finalize (m : Metrics) : Metrics := { m with completed := true }

end Metrics

end TagWatch
