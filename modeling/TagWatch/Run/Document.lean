import TagWatch.Json.Printer
import TagWatch.Run.Check
import TagWatch.Text.Fixed

/-!
# Reports as JSON

A report is written as an object with its checks and its counters. Every field is always there,
and what is absent is null. The moments between which the run took place are no part of a report
and are given apart, as texts.
-/

namespace TagWatch

open Json

/-- A comparison of digests as JSON. -/
def DigestComparison.toJson (d : DigestComparison) : Json :=
  ofMembers [("previous", ofOption ofText d.previous), ("current", ofText d.current),
    ("changed", .bool d.changed)]

/-- A trace as JSON. -/
def Trace.toJson (t : Trace) : Json :=
  ofMembers [("registry", ofText t.registry), ("currentTag", ofText t.currentTag),
    ("currentDigest", ofOption ofText t.currentDigest), ("scope", ofText t.scope.name),
    ("includePrereleases", .bool t.prereleases), ("suffix", ofOption ofText t.suffix),
    ("floatingTag", .bool t.floating), ("tagCount", ofNat t.tagCount),
    ("latestTag", ofOption ofText t.latest),
    ("latestMajorTag", ofOption ofText t.latestOverall),
    ("changeType", ofOption (fun level => ofText level.name) t.change),
    ("digest", ofOption DigestComparison.toJson t.digest),
    ("scopeBlockingReason", ofOption (fun block => ofText block.message) t.block),
    ("error", ofOption ofText t.error),
    ("anomalies", .array (t.anomalies.map fun anomaly => ofText anomaly.message))]

/-- A decision as JSON. -/
def Decision.toJson (d : Decision) : Json :=
  ofMembers [("hasUpdate", .bool d.hasUpdate),
    ("updateKind", ofOption (fun kind => ofText kind.name) d.kind),
    ("latestTag", ofOption ofText d.latest),
    ("latestMajorTag", ofOption ofText d.latestOverall),
    ("changeType", ofOption (fun level => ofText level.name) d.change),
    ("isScopeViolation", .bool d.outsideScope), ("digestChanged", .bool d.digestChanged),
    ("newDigest", ofOption ofText d.newDigest),
    ("digestBaselineNeeded", .bool d.baselineNeeded), ("trace", d.trace.toJson)]

/-- The outcome for a container as JSON. -/
def ContainerCheck.toJson (c : ContainerCheck) : Json :=
  ofMembers [("containerId", ofText c.containerId), ("containerName", ofText c.containerName),
    ("image", ofText c.image), ("currentTag", ofText c.currentTag),
    ("cacheHit", .bool c.cacheHit), ("decision", c.decision.toJson)]

/-- The counters of a registry as JSON. -/
def RegistryStats.toJson (s : RegistryStats) : Json :=
  ofMembers [("apiCalls", ofNat s.apiCalls), ("cacheHits", ofNat s.cacheHits),
    ("cacheMisses", ofNat s.cacheMisses)]

/-- When a run began and when it was over. -/
structure RunTimes where
  started : String
  completed : String
  deriving Repr, DecidableEq

/-- The counters of a run as JSON: the times of the checks in seconds, and the registries in the
order of their names. A run that is not over has no time of completion. -/
def Metrics.toJson (times : RunTimes) (m : Metrics) : Json :=
  let registries := m.registries.entries.mergeSort fun a b => a.1 ≤ b.1
  ofMembers [("startedAt", ofText times.started),
    ("completedAt", if m.completed then ofText times.completed else .null),
    ("totalContainers", ofNat m.totalContainers),
    ("checkedContainers", ofNat m.checkedContainers),
    ("deduplicatedContainers", ofNat m.deduplicatedContainers),
    ("uniqueImages", ofNat m.uniqueImages), ("updatesFound", ofNat m.updatesFound),
    ("errors", ofNat m.errors),
    ("latencies", .array (m.latencies.map fun us => .number (Text.withPoint 6 us))),
    ("registries", ofMembers (registries.map fun r => (r.1, r.2.toJson)))]

/-- A report as JSON. -/
def Report.toJson (times : RunTimes) (r : Report) : Json :=
  ofMembers [("checks", .array (r.checks.map ContainerCheck.toJson)),
    ("metrics", r.metrics.toJson times)]

end TagWatch
