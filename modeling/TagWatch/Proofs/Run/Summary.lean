import TagWatch.Proofs.Decision.Consistency
import TagWatch.Proofs.Run.Fetched
import TagWatch.Proofs.Run.Sharing
import TagWatch.Proofs.Text.Dotted
import TagWatch.Run.Summary

/-!
# The summary tells the decisions

The summary never looks at the kind of an update. It finds the status of a container in the newest
tag, the digests and the error of a decision, which a decision on an arbitrary result could combine
in ways that have no words of their own: an update without a newest tag and without another digest,
or another digest beside a newest tag that is no update.

**Theorem (`summary_tells`).** Whatever the registries, the limits and the containers are, the
summary of a run has a line for each check, in order, with a note if the scope keeps a newer tag
out, and then the totals. The text of a status tells exactly one thing about the decision and the
fetch that it is based on (`Decision.Tells`), none of the words for a missing tag or digest is used,
and the totals count the lines that tell an update or an error.

A fetch reports a newest tag or a digest, and never both (`FetchRequest.Reports.latest_eq_none`).
The answers of a run are such reports, since what a fetch finds was kept by another one that visited
the registry (`History.reported`). Nothing is assumed about the limiter; a container whose group got
no answer has no check.
-/

namespace TagWatch

/-! ## Statuses -/

/-- What the summary can tell about a container. -/
inductive Status where
  | error (text : String)
  | newTag (latest : String)
  | newDigest
  | baseline (digest : String)
  | upToDate
  deriving Repr, DecidableEq

namespace Status

/-- The words for a status. -/
def text : Status → String
  | error text => "error: " ++ text
  | newTag latest => "update available: " ++ latest
  | newDigest => "new digest available"
  | baseline digest => "digest recorded: " ++ digest
  | upToDate => "up to date"

@[simp] theorem text_error (text : String) : (error text).text = "error: " ++ text := rfl

@[simp] theorem text_newTag (latest : String) :
    (newTag latest).text = "update available: " ++ latest := rfl

@[simp] theorem text_newDigest : newDigest.text = "new digest available" := rfl

@[simp] theorem text_baseline (digest : String) :
    (baseline digest).text = "digest recorded: " ++ digest := rfl

@[simp] theorem text_upToDate : upToDate.text = "up to date" := rfl

/-- No two statuses have the same words. -/
theorem text_inj {s s' : Status} : s.text = s'.text ↔ s = s' := by
  rw [← String.toList_inj]
  cases s <;> cases s' <;> simp [String.toList_inj]

/-- The words for an update without a newest tag are those of no status. -/
theorem text_ne_update (s : Status) : s.text ≠ "update available" := by
  rw [← String.toList_inj.ne]
  cases s <;> simp

end Status

/-- The words tell an update: a newer tag or another digest. -/
def tellsUpdate (words : String) : Bool :=
  Text.startsWith "update available: ".toList words.toList || words == "new digest available"

/-- The words tell an error. -/
def tellsError (words : String) : Bool := Text.startsWith "error: ".toList words.toList

namespace Status

theorem tellsUpdate_text {s : Status} :
    tellsUpdate s.text = true ↔ s = .newDigest ∨ ∃ latest, s = .newTag latest := by
  rw [tellsUpdate, Bool.or_eq_true, Text.startsWith_iff, beq_iff_eq,
    show "new digest available" = newDigest.text from rfl, text_inj]
  cases s <;> simp

theorem tellsError_text {s : Status} : tellsError s.text = true ↔ ∃ e, s = .error e := by
  rw [tellsError, Text.startsWith_iff]
  cases s <;> simp

end Status

/-- What a status says about a decision and the fetch that it is based on. -/
def Decision.Tells (d : Decision) (fetch : FetchResult) : Status → Prop
  | .error text => fetch.error = some text
  | .newTag latest => d.kind = some .tag ∧ d.latest = some latest
  | .newDigest => d.kind = some .digest
  | .baseline digest => d.baselineNeeded = true ∧ d.newDigest = some digest
  | .upToDate => fetch.error = none ∧ d.kind = none ∧ d.baselineNeeded = false

/-! ## The status of a decision -/

/-- A fetch that reports a digest reports no newest tag. -/
theorem FetchRequest.Reports.latest_eq_none {r : FetchRequest} {result : FetchResult}
    (h : r.Reports result) (hdigest : result.digest.isSome) : result.latest = none := by
  cases h with
  | failed text => rfl
  | floating metadata => rfl
  | known tags _ => cases hdigest

/-- The words for a decision stand for a status, which is the only one that fits. -/
structure Decision.Worded (d : Decision) (fetch : FetchResult) (s : Status) : Prop where
  text : d.status = s.text
  tells : ∀ s', d.Tells fetch s' ↔ s = s'
  update : d.hasUpdate = true ↔ s = .newDigest ∨ ∃ latest, s = .newTag latest
  baseline : d.baselineNeeded = true → ∃ digest, s = .baseline digest

namespace Decision

variable {state : ContainerState} {r : FetchRequest} {fetch : FetchResult} {d : Decision}
  {s : Status}

theorem Worded.status_eq_iff (h : d.Worded fetch s) (s' : Status) :
    d.status = s'.text ↔ d.Tells fetch s' := by
  rw [h.text, Status.text_inj, h.tells]

theorem Worded.tellsUpdate_status (h : d.Worded fetch s) : tellsUpdate d.status = d.hasUpdate := by
  rw [Bool.eq_iff_iff, h.update, h.text, Status.tellsUpdate_text]

theorem Worded.tellsError_status (h : d.Worded fetch s) :
    tellsError d.status = fetch.error.isSome := by
  rw [Bool.eq_iff_iff, h.text, Status.tellsError_text, Option.isSome_iff_exists]
  exact exists_congr fun e => (h.tells (.error e)).symm

/-- The baseline that is needed is there. -/
theorem Worded.isSome_newDigest (h : d.Worded fetch s) (hneeded : d.baselineNeeded = true) :
    d.newDigest.isSome = true := by
  obtain ⟨digest, rfl⟩ := h.baseline hneeded
  obtain ⟨-, hdigest⟩ := (h.tells (.baseline digest)).mpr rfl
  rw [hdigest]
  rfl

theorem Consistent.exists_newDigest (h : d.Consistent state fetch)
    (hneeded : d.baselineNeeded = true) : ∃ new, d.newDigest = some new := by
  obtain ⟨hok, hcompared, hdigest, -⟩ := h.baseline.mp hneeded
  obtain ⟨new, hnew⟩ := Option.isSome_iff_exists.mp hdigest
  exact ⟨new, (h.reported new).mpr ⟨hok, hcompared, hnew⟩⟩

/-- The decision that proposes nothing after a failed fetch tells the error. -/
theorem worded_nothing {trace : Trace} {e : String} (herror : fetch.error = some e)
    (htrace : trace.error = some e) : (nothing trace).Worded fetch (.error e) := by
  refine ⟨by simp [status, nothing, htrace], fun s' => ?_, by simp [nothing], Bool.noConfusion⟩
  cases s' <;> simp [Tells, nothing, herror]

/-- When a digest that counts leaves no room for a newest tag, there is one status. -/
theorem Consistent.exists_worded (h : d.Consistent state fetch) (hok : fetch.error = none)
    (htrace : d.trace.error = none)
    (halone : ∀ new, d.newDigest = some new → d.latest = none) : ∃ s, d.Worded fetch s := by
  cases hkind : d.kind with
  | none =>
    have hno : d.hasUpdate = false := by
      rw [Bool.eq_false_iff, Ne, h.update, hkind]
      exact Bool.noConfusion
    cases hneeded : d.baselineNeeded with
    | true =>
      obtain ⟨new, hnew⟩ := h.exists_newDigest hneeded
      refine ⟨.baseline new, by simp [status, htrace, hno, hneeded, hnew], fun s' => ?_,
        by simp [hno], fun _ => ⟨new, rfl⟩⟩
      cases s' <;> simp [Tells, hok, hkind, hneeded, hnew]
    | false =>
      refine ⟨.upToDate, by simp [status, htrace, hno, hneeded], fun s' => ?_, by simp [hno],
        by simp [hneeded]⟩
      cases s' <;> simp [Tells, hok, hkind, hneeded]
  | some kind =>
    have hyes : d.hasUpdate = true := by
      rw [h.update, hkind]
      rfl
    cases kind with
    | tag =>
      obtain ⟨latest, -, -, hlatest, -⟩ := h.newer.mp (h.tag.mp hkind)
      have hneeded : d.baselineNeeded = false := by
        refine Bool.eq_false_iff.mpr fun hneeded => ?_
        obtain ⟨new, hnew⟩ := h.exists_newDigest hneeded
        rw [halone new hnew] at hlatest
        cases hlatest
      refine ⟨.newTag latest, by simp [status, htrace, hyes, hlatest], fun s' => ?_, by simp [hyes],
        by simp [hneeded]⟩
      cases s' <;> simp [Tells, hok, hkind, hlatest, hneeded]
    | digest =>
      obtain ⟨-, hchanged, -⟩ := h.digest.mp hkind
      obtain ⟨-, new, -, hnew, -⟩ := h.changed.mp hchanged
      have hneeded : d.baselineNeeded = false := by
        refine Bool.eq_false_iff.mpr fun hneeded => ?_
        rw [h.baseline_unchanged hneeded] at hchanged
        cases hchanged
      refine ⟨.newDigest, by simp [status, htrace, hyes, halone new hnew, hchanged], fun s' => ?_,
        by simp [hyes], by simp [hneeded]⟩
      cases s' <;> simp [Tells, hok, hkind, hneeded]

/-- **A decision on a report has one status.** -/
theorem exists_worded (state : ContainerState) (h : r.Reports fetch) :
    ∃ s, (state.decide fetch).Worded fetch s := by
  cases herror : fetch.error with
  | some e =>
    rw [ContainerState.decide_failed herror]
    exact ⟨.error e, worded_nothing herror rfl⟩
  | none =>
    rw [ContainerState.decide_answered herror]
    have hfits : (state.decideAnswered fetch).Consistent state fetch := consistent_answered herror
    refine hfits.exists_worded herror rfl fun new hnew => ?_
    obtain ⟨-, -, hdigest⟩ := (hfits.reported new).mp hnew
    exact h.latest_eq_none (by rw [hdigest]; rfl)

end Decision

/-- The line on a container has a note after it if the scope keeps a newer tag out. -/
theorem ContainerCheck.lines_eq (check : ContainerCheck) :
    check.lines = (check.containerName ++ "  " ++ check.decision.status) ::
      match check.decision.trace.block with
      | some b => ["    note: " ++ b.message]
      | none => [] := by
  rw [lines]
  cases check.decision.trace.block <;> rfl

/-! ## Whole runs -/

section Runs

variable {σ : Type} {service : Service σ} {settings : FetchSettings} {w : World σ}

/-- Fetches that run side by side when nothing is kept end with reports, and leave the counters
alone. -/
theorem Pool.run_reported (service : Service σ) (calls : List FetchCall)
    (hempty : ∀ k, w.context.get? k = none) :
    let o := Pool.run service (calls.map FetchCall.program) w
    (∀ response, some response ∈ o.1 → ∃ r : FetchRequest, r.Reports response.result) ∧
      o.2.context.metrics = w.context.metrics := by
  obtain ⟨ps, hinterleaved, hvalues⟩ := Pool.run_interleaved service (calls.map FetchCall.program) w
  obtain ⟨told, htold, hcontext⟩ := hinterleaved.history
  refine ⟨fun response hresponse => ?_, ?_⟩
  · rw [hvalues] at hresponse
    obtain ⟨p, hp, hvalue⟩ := List.mem_map.mp hresponse
    obtain ⟨i, hi⟩ := List.mem_iff_getElem?.mp hp
    cases p with
    | done r =>
      obtain rfl := Option.some.inj hvalue
      exact htold.reported hempty hi
    | ask q next => cases hvalue
  · rw [show (Pool.run service (calls.map FetchCall.program) w).2.context = _ from hcontext]
    exact Context.metrics_after _ _

/-- The answers that a run gets for its groups. -/
def groupAnswers (service : Service σ) (settings : FetchSettings) (containers : List Container)
    (w : World σ) : Table Key FetchResponse :=
  let lookup := prereleaseLookup settings containers
  let groups := groupContainers containers lookup
  answered groups.keys (Pool.run service (groups.entries.map fun g => groupFetch settings g.1 g.2)
    (w.grouped containers lookup)).1

/-- The report of a run comes from the answers for its groups, and each of them was reported. -/
theorem checkContainers_groupAnswers (service : Service σ) (settings : FetchSettings)
    (containers : List Container) (w : World σ) :
    let lookup := prereleaseLookup settings containers
    let answers := groupAnswers service settings containers w
    (checkContainers service settings containers w).1 = judgeAll lookup answers containers
      (({} : Metrics).recordGroups containers.length (groupContainers containers lookup).size) ∧
    ∀ k response, answers.get? k = some response →
      ∃ r : FetchRequest, r.Reports response.result := by
  rw [checkContainers_eq, groupAnswers]
  dsimp only
  generalize prereleaseLookup settings containers = lookup
  have hcalls : ((groupContainers containers lookup).entries.map fun g =>
      groupFetch settings g.1 g.2) = ((groupContainers containers lookup).entries.map fun g =>
        FetchCall.mk settings (.ofKey g.1 (g.2.head?.bind (·.digest)))).map FetchCall.program := by
    rw [List.map_map]
    rfl
  obtain ⟨hreported, hmetrics⟩ := Pool.run_reported service
    ((groupContainers containers lookup).entries.map fun g =>
      FetchCall.mk settings (.ofKey g.1 (g.2.head?.bind (·.digest))))
    (w := w.grouped containers lookup) fun _ => rfl
  rw [← hcalls] at hreported hmetrics
  refine ⟨?_, fun k response hget => hreported response (mem_of_get?_answered hget)⟩
  exact congrArg (judgeAll lookup _ containers) hmetrics

/-- **The summary tells the decisions**, whatever the registries, the limits and the containers are.
It has one line for each check, in order, with a note if and only if the scope keeps a newer tag
out, and after an empty line the totals. There is one check for each container whose group got an
answer. Its status is one of five, and the words for a status are used exactly when it fits: an
error if the fetch failed with it, a newest tag or a new digest if the update is of this kind, and a
digest if it is the baseline that is needed. A newest tag and a baseline are never missing when they
are told. The updates and errors in the totals are the numbers of the statuses that tell one. -/
theorem summary_tells (service : Service σ) (settings : FetchSettings)
    (containers : List Container) (w : World σ) :
    let lookup := prereleaseLookup settings containers
    let answers := groupAnswers service settings containers w
    let report := (checkContainers service settings containers w).1
    let m := report.metrics
    report.summary = Text.unlines (report.checks.flatMap (fun check =>
        (check.containerName ++ "  " ++ check.decision.status) ::
          match check.decision.trace.block with
          | some b => ["    note: " ++ b.message]
          | none => []) ++
      ["", toString m.checkedContainers ++ " checked, " ++ toString m.uniqueImages ++
        " unique images, " ++ toString m.totalApiCalls ++ " API calls, " ++
        toString (report.checks.countP fun check => tellsUpdate check.decision.status) ++
        " updates, " ++
        toString (report.checks.countP fun check => tellsError check.decision.status) ++
        " errors"]) ∧
    List.Forall₂ (fun c check => ∃ response, answers.get? (c.keyIn lookup) = some response ∧
        check.Says c ((c.state (lookup.getD c.id false)).decide response.result) ∧
        (∃ s : Status, check.decision.status = s.text) ∧
        (∀ s : Status, check.decision.status = s.text ↔ check.decision.Tells response.result s) ∧
        check.decision.status ≠ "update available" ∧
        (check.decision.baselineNeeded = true → check.decision.newDigest.isSome = true))
      (containers.filter fun c => (answers.get? (c.keyIn lookup)).isSome) report.checks := by
  intro lookup answers report m
  obtain ⟨hreport, hreported⟩ := checkContainers_groupAnswers service settings containers w
  have hget : ∀ c ∈ containers.filter fun c => (answers.get? (c.keyIn lookup)).isSome,
      ∃ response, answers.get? (c.keyIn lookup) = some response :=
    fun c hc => Option.isSome_iff_exists.mp (List.mem_filter.mp hc).2
  rw [← judgeAll_filter] at hreport
  have hsays := judgeAll_says hget
    (({} : Metrics).recordGroups containers.length (groupContainers containers lookup).size)
  obtain ⟨hjudged, hcounts⟩ := judgeAll_counts containers.length
    (groupContainers containers lookup).size hget
  rw [← hreport] at hsays hjudged hcounts
  have hworded {c : Container} {check : ContainerCheck} {response : FetchResponse}
      (hresponse : answers.get? (c.keyIn lookup) = some response)
      (hverdict : check.Says c ((c.state (lookup.getD c.id false)).decide response.result)) :
      ∃ s, check.decision.Worded response.result s := by
    obtain ⟨r, hr⟩ := hreported _ _ hresponse
    rw [hverdict.decision]
    exact Decision.exists_worded _ hr
  -- the words for every check tell what is counted
  have htells : ∀ check ∈ report.checks,
      tellsUpdate check.decision.status = check.decision.hasUpdate ∧
        tellsError check.decision.status = check.decision.trace.error.isSome := by
    intro check hcheck
    obtain ⟨c, -, response, hresponse, hverdict⟩ := exists_of_forall₂ hsays.flip hcheck
    obtain ⟨s, hs⟩ := hworded hresponse hverdict
    refine ⟨hs.tellsUpdate_status, ?_⟩
    rw [hs.tellsError_status, hverdict.decision, error_decide]
  have hupdates : m.updatesFound =
      report.checks.countP fun check => tellsUpdate check.decision.status := by
    rw [hcounts.updates, hjudged.countP_zip (·.decision.hasUpdate)]
    exact List.countP_congr fun check hcheck => by rw [(htells check hcheck).1]
  have herrors : m.errors =
      report.checks.countP fun check => tellsError check.decision.status := by
    rw [hcounts.errors, hjudged.countP_zip (·.decision.trace.error.isSome)]
    exact List.countP_congr fun check hcheck => by rw [(htells check hcheck).2]
  refine ⟨?_, hsays.imp fun c check => ?_⟩
  · rw [← hupdates, ← herrors, ← funext ContainerCheck.lines_eq]
    rfl
  · rintro ⟨response, hresponse, hverdict⟩
    obtain ⟨s, hs⟩ := hworded hresponse hverdict
    refine ⟨response, hresponse, hverdict, ⟨s, hs.text⟩, hs.status_eq_iff, ?_, hs.isSome_newDigest⟩
    rw [hs.text]
    exact s.text_ne_update

/-- A newer tag, a digest to compare with later, and a registry that cannot be asked. -/
example :
    let s : Prepared.State :=
      ⟨⟨[("nginx", { tags := some ["1.2.3", "1.3.0", "2.0.0"] }),
          ("tool", { metadata := ⟨[("latest", ⟨some "sha256:1", none⟩)]⟩ })]⟩,
        ⟨[("ghcr", { error := some (.unsupportedRegistry "ghcr") })]⟩, []⟩
    let containers : List Container :=
      [⟨"a", "web", "docker.io", "nginx", "1.2.3", .minor, none, none⟩,
        ⟨"b", "tool", "docker.io", "tool", "latest", .minor, none, none⟩,
        ⟨"c", "job", "ghcr.io", "tool", "1.0.0", .minor, none, none⟩]
    (checkContainers Prepared.service {} containers (.fresh (.fresh ⟨[]⟩ 1) s)).1.lines =
      ["web  update available: 1.3.0",
        "    note: 2.0.0 is available but outside the 'minor' update scope",
        "tool  digest recorded: sha256:1", "job  error: Unsupported registry: ghcr", "",
        "3 checked, 3 unique images, 3 API calls, 1 updates, 1 errors"] := by
  decide +kernel

end Runs

end TagWatch
