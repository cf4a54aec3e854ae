import TagWatch.Proofs.Run.Batch
import TagWatch.Proofs.Run.Inquiries
import TagWatch.Proofs.Run.Judging

/-!
# The report of a run is exact

**Theorem (`checkContainers_exact`).** Whatever the registries answer, a run has one check for each
container, and its counters are the numbers of the checks that they stand for. In a group whose
fetch failed no container is a hit. In a group whose fetch succeeded all but the first are, as long
as no other group keeps its answer in the same place.

**Theorem (`totalApiCalls_checkContainers`).** A run reports one call for each client that it asked
for, and one more for each container that shares a failed fetch with an earlier one.

A group is an inquiry for its key. A hit is an answer that was found, and what was found has been
kept by another group (`Pool.run_groups`). That can be: the fetch of a group makes the name of its
registry canonical once more (`Key.asked`), which changes nothing when there is no slash in the name
(`asked_keyIn`), but turns `https://h` into `h` (`first_of_group_hit`).
-/

namespace TagWatch

variable {σ : Type} {service : Service σ} {log : σ → List String → Prop} {settings : FetchSettings}
  {w : World σ} {k : Key}

/-! ## The answers to the groups -/

/-- The key under which the fetch of a group looks for an answer and keeps it: the name of the
registry is made canonical once more. -/
def Key.asked (k : Key) : Key := { k with registry := Registry.canonical k.registry }

theorem FetchRequest.key_ofKey (k : Key) (digest : Option String) :
    (FetchRequest.ofKey k digest).key = k.asked := rfl

/-- The fetch of a group as an inquiry. -/
def Key.inquiry (k : Key) : Inquiry := ⟨k.asked, true⟩

theorem isMadeBy_groupFetch (k : Key) (members : List Container) :
    k.inquiry.IsMadeBy (groupFetch settings k members) :=
  FetchProgram.rest_fetch (r := .ofKey k (members.head?.bind (·.digest))) true

/-- No other key has its answer in the same place. -/
def Key.AskedAlone (keys : List Key) (k : Key) : Prop := ∀ k' ∈ keys, k'.asked = k.asked → k' = k

theorem Key.askedAlone_congr {keys keys' : List Key} (h : ∀ k, k ∈ keys ↔ k ∈ keys') (k : Key) :
    k.AskedAlone keys ↔ k.AskedAlone keys' :=
  forall_congr' fun k' => imp_congr_left (h k')

/-- What becomes of the groups of a run, and of the log of clients that were asked for. -/
structure Grouped (log : σ → List String → Prop) (w : World σ) (keys : List Key)
    (o : List (Option FetchResponse) × World σ) : Prop where
  answers : List.Forall₂ (fun k outcome => ∃ response, outcome = some response ∧
    (response.cacheHit = true → response.result.error = none ∧ ¬ k.AskedAlone keys)) keys o.1
  metrics : o.2.context.metrics = w.context.metrics
  logged : (∀ k ∈ keys, k.AskedAlone keys) → ∃ asked,
    asked.Perm (keys.map (·.asked.registry)) ∧ ∀ l, log w.service l → log o.2.service (l ++ asked)

/-- A hit is an answer that was found. -/
theorem FetchProgram.Ends.eq_found {inRun : Bool} {st : Progress} {response : FetchResponse}
    (h : FetchProgram.Ends inRun st response) (hhit : response.cacheHit = true) :
    st = .found response.result := by
  cases h with
  | found result _ => rfl
  | _ => cases hhit

/-- A fetch that ended without a kept answer has asked for one client. -/
theorem FetchProgram.Ends.asked_eq {inRun : Bool} {st : Progress} {response : FetchResponse}
    (h : FetchProgram.Ends inRun st response) (hmiss : response.cacheHit ≠ true)
    (registry : String) : st.asked registry = [registry] := by
  cases h with
  | found result _ => exact absurd rfl hmiss
  | _ => rfl

/-- Answers are added by fetches that have kept them. -/
theorem Course.eq_kept {c : Course} {k : Key} {result : FetchResult} (h : (k, result) ∈ c.entries) :
    c.inquiry.key = k ∧ c.progress = .kept result := by
  obtain ⟨q, st⟩ := c
  cases st with
  | kept _ =>
    cases List.mem_singleton.mp h
    exact ⟨rfl, rfl⟩
  | _ => cases h

/-- When nothing was kept before, an answer that is found was kept by a fetch of the same key. -/
theorem Told.found {qs : List Inquiry} {cs : List Course} {c : Course} {result : FetchResult}
    {o : List (Option FetchResponse) × World σ} (h : Told log w qs cs o)
    (hempty : w.context.cache = .empty) (hc : c ∈ cs) (hfound : c.progress = .found result) :
    result.error = none ∧
      ∃ c' ∈ cs, c'.inquiry.key = c.inquiry.key ∧ c'.progress = .kept result := by
  have hnone : w.context.get? c.inquiry.key = none := by
    rw [Context.get?, hempty, Table.get?_empty]
  rcases h.traced.found c hc result hfound with hget | hmem
  · rw [show w.context.get? c.inquiry.key = some result from hget] at hnone
    cases hnone
  · obtain ⟨c', hc', hentry⟩ := List.mem_flatMap.mp hmem
    obtain ⟨hkey, hkept⟩ := Course.eq_kept hentry
    obtain ⟨_, -, response, -, hends⟩ := exists_of_forall₂ h.ended hc'
    rw [hkept] at hends
    cases hends with
    | kept _ _ _ hok => exact ⟨hok, c', hc', hkey, hkept⟩

/-- The groups of a run are fetched side by side. -/
theorem Pool.run_groups {keys : List Key} {programs : List (FetchProgram FetchResponse)}
    (hlog : service.Logs log) (hr : w.Rested) (hempty : w.context.cache = .empty)
    (hnodup : keys.Nodup) (hprograms : List.Forall₂ (fun k => k.inquiry.IsMadeBy) keys programs) :
    Grouped log w keys (Pool.run service programs w) := by
  obtain ⟨cs, htold⟩ := Pool.run_inquiries hlog hr (List.forall₂_map_left_iff.mpr hprograms)
  generalize Pool.run service programs w = o at *
  obtain ⟨pairs, rfl, rfl, hpairs⟩ : ∃ pairs : List (Key × Course), keys = pairs.map Prod.fst ∧
      cs = pairs.map Prod.snd ∧ ∀ p ∈ pairs, p.1.inquiry = p.2.inquiry :=
    exists_pairs_of_map_eq htold.traced.inquiries.symm
  have halone : ∀ p ∈ pairs, ∀ result, p.2.progress = .found result →
      result.error = none ∧ ¬ p.1.AskedAlone (pairs.map Prod.fst) := by
    intro p hp result hfound
    obtain ⟨hok, c', hc', hkey, hkept⟩ := htold.found hempty (List.mem_map_of_mem hp) hfound
    refine ⟨hok, fun halone => ?_⟩
    obtain ⟨p', hp', rfl⟩ := List.mem_map.mp hc'
    rw [← hpairs p hp, ← hpairs p' hp'] at hkey
    obtain rfl : p' = p := List.inj_on_of_nodup_map hnodup hp' hp
      (halone p'.1 (List.mem_map_of_mem hp') hkey)
    rw [hfound] at hkept
    cases hkept
  refine ⟨?_, ?_, fun hall => ?_⟩
  · rw [List.forall₂_map_left_iff]
    refine forall₂_imp_mem (List.forall₂_map_left_iff.mp htold.ended) ?_
    rintro p hp _ - ⟨response, rfl, hends⟩
    exact ⟨response, rfl, fun hhit => halone p hp _ (hends.eq_found hhit)⟩
  · obtain ⟨entries, -, hcontext⟩ := htold.traced.written
    rw [show o.2.context = w.context.keep entries from hcontext, Context.metrics_keep]
  · obtain ⟨asked, hperm, hlogged⟩ := htold.traced.logged
    refine ⟨asked, hperm.trans (.of_eq ?_), hlogged⟩
    have hasked : ∀ p ∈ pairs, p.2.asked = [p.1.asked.registry] := by
      intro p hp
      obtain ⟨_, -, response, -, hends⟩ :=
        exists_of_forall₂ (List.forall₂_map_left_iff.mp htold.ended) hp
      rw [Course.asked, ← hpairs p hp]
      refine hends.asked_eq (fun hhit => ?_) _
      exact (halone p hp _ (hends.eq_found hhit)).2 (hall p.1 (List.mem_map_of_mem hp))
    rw [List.flatMap_map, List.map_map, List.map_eq_flatMap]
    exact List.flatMap_congr hasked

/-! ## Whole runs -/

/-- What a run reports, given the answers to its groups. -/
structure Accounted (log : σ → List String → Prop) (lookup : PrereleaseLookup)
    (containers : List Container) (w : World σ) (responses : Table Key FetchResponse)
    (o : Report × World σ) : Prop where
  answered : ∀ c ∈ containers, ∃ response, responses.get? (c.keyIn lookup) = some response
  hit : ∀ c ∈ containers, ∀ response, responses.get? (c.keyIn lookup) = some response →
    response.cacheHit = true → response.result.error = none ∧
      ¬ (c.keyIn lookup).AskedAlone (containers.map (·.keyIn lookup))
  judged : Judged lookup responses containers o.1.checks
  counts : o.1.metrics.Counts lookup containers.length
    (containers.map (·.keyIn lookup)).dedup.length (containers.zip o.1.checks)
  logged : (∀ k ∈ containers.map (·.keyIn lookup),
    k.AskedAlone (containers.map (·.keyIn lookup))) → ∃ asked,
      asked.Perm ((containers.map (·.keyIn lookup)).dedup.map (·.asked.registry)) ∧
      ∀ l, log w.service l → log o.2.service (l ++ asked)

theorem checkContainers_accounted (hlog : service.Logs log) (hr : w.Rested)
    (containers : List Container) : ∃ responses,
      Accounted log (prereleaseLookup settings containers) containers w responses
        (checkContainers service settings containers w) := by
  obtain ⟨hnodup, hmem⟩ := keys_groupContainers containers (prereleaseLookup settings containers)
  have hperm := keys_groupContainers_perm containers (prereleaseLookup settings containers)
  rw [checkContainers_eq]
  dsimp only [Context.group]
  generalize prereleaseLookup settings containers = lookup at *
  generalize groupContainers containers lookup = groups at *
  have hprograms : List.Forall₂ (fun k => k.inquiry.IsMadeBy) groups.keys
      (groups.entries.map fun g => groupFetch settings g.1 g.2) := by
    rw [Table.keys, List.forall₂_map_left_iff, List.forall₂_map_right_iff, List.forall₂_same]
    exact fun g _ => isMadeBy_groupFetch g.1 g.2
  have hgrouped := Pool.run_groups hlog (hr.withContext ⟨.empty,
    ({} : Metrics).recordGroups containers.length groups.size⟩) rfl hnodup hprograms
  generalize Pool.run service _ _ = o at hgrouped ⊢
  have hkeys (k : Key) : k ∈ groups.keys ↔ k ∈ containers.map (·.keyIn lookup) := by
    rw [hmem, List.mem_map]
  have hsize : groups.size = (containers.map (·.keyIn lookup)).dedup.length := by
    rw [← hperm.length_eq, Table.keys, List.length_map, Table.size]
  have hget : ∀ c ∈ containers, ∃ response,
      (answered groups.keys o.1).get? (c.keyIn lookup) = some response ∧
        (response.cacheHit = true → response.result.error = none ∧
          ¬ (c.keyIn lookup).AskedAlone groups.keys) :=
    fun c hc => get?_answered ((hmem _).mpr ⟨c, hc, rfl⟩) hgrouped.answers
  have hanswered := fun c hc => (hget c hc).imp fun _ => And.left
  obtain ⟨hjudged, hcounts⟩ := judgeAll_counts containers.length groups.size hanswered
  refine ⟨answered groups.keys o.1, hanswered, fun c hc response hresponse => ?_, ?_, ?_,
    fun halone => ?_⟩
  · obtain ⟨response', hresponse', hhit⟩ := hget c hc
    obtain rfl : response' = response := Option.some.inj (hresponse'.symm.trans hresponse)
    rwa [← Key.askedAlone_congr hkeys]
  · rw [hgrouped.metrics]
    exact hjudged
  · rw [hgrouped.metrics, ← hsize]
    exact hcounts
  · obtain ⟨asked, hasked, hlogged⟩ := hgrouped.logged fun k hk =>
      (Key.askedAlone_congr hkeys k).mpr (halone k ((hkeys k).mp hk))
    exact ⟨asked, hasked.trans (hperm.map _), hlogged⟩

/-- The name of a registry without a slash is made canonical once and for all. -/
theorem asked_keyIn {c : Container} (h : '/' ∉ c.registry.toList) (lookup : PrereleaseLookup) :
    (c.keyIn lookup).asked = c.keyIn lookup :=
  (FetchRequest.key_ofKey (c.keyIn lookup) none).symm.trans (key_ofKey h rfl none)

theorem askedAlone_of_no_slash {containers : List Container} (lookup : PrereleaseLookup)
    (hslash : ∀ c ∈ containers, '/' ∉ c.registry.toList) :
    ∀ k ∈ containers.map (·.keyIn lookup), k.AskedAlone (containers.map (·.keyIn lookup)) := by
  rw [List.forall_mem_map]
  intro c hc k' hk' h
  obtain ⟨c', hc', rfl⟩ := List.mem_map.mp hk'
  rwa [asked_keyIn (hslash c hc), asked_keyIn (hslash c' hc')] at h

/-- No check has both an error and an update. -/
theorem Accounted.hasUpdate_eq_false {lookup : PrereleaseLookup} {containers : List Container}
    {responses : Table Key FetchResponse} {o : Report × World σ}
    (h : Accounted log lookup containers w responses o) :
    ∀ p ∈ containers.zip o.1.checks, p.2.decision.trace.error.isSome →
      p.2.decision.hasUpdate = false := by
  intro p hp herror
  obtain ⟨response, again, -, hjudges⟩ := h.judged.judges p hp
  rw [hjudges.decision, error_decide] at herror
  rw [hjudges.decision]
  exact hasUpdate_decide herror

/-- The checks of a group: no hits after a fetch that failed, and otherwise only the first container
is a miss, if no other group has its answer in the same place. -/
theorem Accounted.group {lookup : PrereleaseLookup} {containers : List Container}
    {responses : Table Key FetchResponse} {o : Report × World σ}
    (h : Accounted log lookup containers w responses o) (hk : k ∈ containers.map (·.keyIn lookup)) :
    (∃ e, ∀ check ∈ groupChecks lookup containers o.1.checks k,
      check.decision.trace.error = some e ∧ check.cacheHit = false) ∨
    (∀ check ∈ groupChecks lookup containers o.1.checks k, check.decision.trace.error = none) ∧
      (k.AskedAlone (containers.map (·.keyIn lookup)) →
        ∃ n, (groupChecks lookup containers o.1.checks k).map (·.cacheHit) =
          false :: List.replicate n true) := by
  obtain ⟨c, hc, rfl⟩ := List.mem_map.mp hk
  obtain ⟨response, hget⟩ := h.answered c hc
  cases hresult : response.result.error with
  | some e =>
    refine .inl ⟨e, forall_groupChecks fun p hp hpk => ?_⟩
    have herror := (h.judged.error_eq hget p hp hpk).trans hresult
    have hfailed : p.2.decision.trace.error.isSome := by rw [herror]; rfl
    exact ⟨herror, h.judged.not_hit (fun c hc response hget hit =>
      (h.hit c hc response hget hit).1) p hp hfailed⟩
  | none =>
    refine .inr ⟨forall_groupChecks fun p hp hpk => ?_, fun halone => ?_⟩
    · exact (h.judged.error_eq hget p hp hpk).trans hresult
    · have hmiss : response.cacheHit = false :=
        Bool.eq_false_iff.mpr fun hit => (h.hit c hc response hget hit).2 halone
      rcases h.judged.hits_eq hget hmiss hresult with ⟨hnot, -⟩ | ⟨-, hhits⟩
      · exact absurd hk hnot
      · exact hhits

/-- **The report of a run is exact**, whatever the registries answer. Every counter is a number of
checks, no check has both an error and an update, and in a group whose fetch succeeded the first
container alone is a miss, as long as no other group has its answer under the same key; that is so
when there is no slash in any registry. -/
theorem checkContainers_exact (service : Service σ) (settings : FetchSettings)
    (containers : List Container) (w : World σ) (hr : w.Rested) :
    let report := (checkContainers service settings containers w).1
    let m := report.metrics
    let lookup := prereleaseLookup settings containers
    let keys := containers.map (·.keyIn lookup)
    report.checks.map (·.containerId) = containers.map (·.id) ∧
    report.checks.length = m.totalContainers ∧ m.checkedContainers = m.totalContainers ∧
    m.latencies.length = m.totalContainers ∧
    m.registries.total (fun s => s.cacheHits + s.cacheMisses) = m.totalContainers ∧
    m.uniqueImages = keys.dedup.length ∧
    m.uniqueImages + m.deduplicatedContainers = m.totalContainers ∧
    m.updatesFound = report.updates.length ∧
    m.errors = report.checks.countP (·.decision.trace.error.isSome) ∧
    (∀ check ∈ report.checks,
      check.decision.trace.error.isSome → check.decision.hasUpdate = false) ∧
    (∀ name, (m.registries.getD name {}).cacheHits = (containers.zip report.checks).countP
        (fun p => p.1.countedAt lookup = name ∧ p.2.cacheHit = true) ∧
      (m.registries.getD name {}).cacheMisses = (containers.zip report.checks).countP
        (fun p => p.1.countedAt lookup = name ∧ p.2.cacheHit = false) ∧
      (m.registries.getD name {}).apiCalls = (m.registries.getD name {}).cacheMisses) ∧
    (∀ k ∈ keys,
      (∃ e, ∀ check ∈ groupChecks lookup containers report.checks k,
        check.decision.trace.error = some e ∧ check.cacheHit = false) ∨
      (∀ check ∈ groupChecks lookup containers report.checks k,
        check.decision.trace.error = none) ∧
        ((∀ k' ∈ keys, k'.asked = k.asked → k' = k) →
          ∃ n, (groupChecks lookup containers report.checks k).map (·.cacheHit) =
            false :: List.replicate n true)) ∧
    ((∀ c ∈ containers, '/' ∉ c.registry.toList) →
      ∀ k ∈ keys, ∀ k' ∈ keys, k'.asked = k.asked → k' = k) := by
  intro report m lookup keys
  obtain ⟨responses, h⟩ : ∃ responses, Accounted (fun _ _ => True) lookup containers w responses
    (checkContainers service settings containers w) :=
    checkContainers_accounted service.logs_nothing hr containers
  have hlength : report.checks.length = containers.length := h.judged.length_eq
  have hchecks : (containers.zip report.checks).map Prod.snd = report.checks :=
    List.map_snd_zip (Nat.le_of_eq hlength)
  have hzip : (containers.zip report.checks).length = m.totalContainers := by
    rw [← List.length_map (f := Prod.snd), hchecks, hlength, h.counts.totalContainers]
  have hcount (test : ContainerCheck → Bool) :
      (containers.zip report.checks).countP (fun p => test p.2) = report.checks.countP test :=
    List.countP_map.symm.trans (congrArg (List.countP test) hchecks)
  have hle : keys.dedup.length ≤ containers.length :=
    (List.dedup_sublist keys).length_le.trans_eq (List.length_map _)
  refine ⟨h.judged.ids_eq, ?_, ?_, ?_, ?_, h.counts.uniqueImages, ?_, ?_, ?_, ?_, ?_, ?_, ?_⟩
  · rw [hlength, h.counts.totalContainers]
  · rw [h.counts.checked, hzip]
  · rw [h.counts.latencies, hzip]
  · rw [h.counts.total, hzip]
  · rw [h.counts.uniqueImages, h.counts.deduplicated, h.counts.totalContainers]
    exact Nat.add_sub_cancel' hle
  · rw [h.counts.updates, hcount (·.decision.hasUpdate), Report.updates,
      List.countP_eq_length_filter]
  · rw [h.counts.errors, hcount (·.decision.trace.error.isSome)]
  · intro check hcheck herror
    rw [← hchecks] at hcheck
    obtain ⟨p, hp, rfl⟩ := List.mem_map.mp hcheck
    exact h.hasUpdate_eq_false p hp herror
  · exact fun name => ⟨h.counts.hits name, h.counts.misses name, h.counts.calls name⟩
  · exact fun k hk => h.group hk
  · exact askedAlone_of_no_slash lookup

/-- Two containers of one group, and one whose registry cannot be asked. -/
theorem checkContainers_exact_failure :
    let s : Prepared.State := ⟨⟨[("nginx", { tags := some ["1.2.3", "1.3.0"] })]⟩,
      ⟨[("ghcr", { error := some (.unsupportedRegistry "ghcr") })]⟩, []⟩
    let containers : List Container :=
      [⟨"a", "a", "docker.io", "nginx", "1.2.3", .minor, none, none⟩,
        ⟨"b", "b", "ghcr.io", "tool", "1.0.0", .minor, none, none⟩,
        ⟨"c", "c", "Index.Docker.io", "nginx", "1.2.3", .minor, none, none⟩]
    let w := World.fresh (.fresh ⟨[]⟩ 1) s
    (checkContainers Prepared.service {} containers w).1.metrics.checkedContainers = 3 ∧
      (checkContainers Prepared.service {} containers w).1.metrics.errors = 1 ∧
      (checkContainers Prepared.service {} containers w).1.checks.map (·.cacheHit) =
        [false, false, true] := by
  intro s containers w
  have hhits : (checkContainers Prepared.service {} containers w).1.checks.map (·.cacheHit) =
      [false, false, true] := by decide +kernel
  have herrors : (checkContainers Prepared.service {} containers w).1.checks.countP
      (·.decision.trace.error.isSome) = 1 := by decide +kernel
  obtain ⟨-, hlength, hchecked, -, -, -, -, -, hcount, -⟩ :=
    checkContainers_exact Prepared.service {} containers w (World.rested_fresh _ _ _)
  refine ⟨?_, ?_, hhits⟩
  · rw [hchecked, ← hlength, ← List.length_map (f := fun check => check.cacheHit), hhits]
    rfl
  · rw [hcount, herrors]

/-- A registry with a slash may become the name of another one when it is made canonical once more.
The answer to the one group is then kept where the other group looks for its own. -/
theorem first_of_group_hit :
    let s : Prepared.State := ⟨⟨[("app", { tags := some ["1.0.0"] })]⟩, ⟨[]⟩, []⟩
    let containers : List Container :=
      [⟨"a", "a", "https://https://h", "app", "1.0.0", .minor, none, none⟩,
        ⟨"b", "b", "h", "app", "1.0.0", .minor, none, none⟩]
    let w := World.fresh (.fresh ⟨[]⟩ 1) s
    (checkContainers Prepared.service {} containers w).1.checks.map
      (fun check => (check.containerId, check.cacheHit, check.decision.trace.error)) =
        [("a", false, none), ("b", true, none)] ∧
      (containers.map (·.keyIn (prereleaseLookup {} containers))).Nodup := by
  decide +kernel

/-- **Calls are counted by containers.** There is one client for each distinct key; the calls that
are reported are these and one more for each container that shares a failed fetch with an earlier
one. -/
theorem totalApiCalls_checkContainers (service : Service σ) (settings : FetchSettings)
    (containers : List Container) (hslash : ∀ c ∈ containers, '/' ∉ c.registry.toList)
    (w : World (σ × List String)) (hr : w.Rested) :
    let o := checkContainers service.recorded settings containers w
    let lookup := prereleaseLookup settings containers
    let failed := failedKeys lookup containers o.1.checks
    ∃ asked, o.2.service.2 = w.service.2 ++ asked ∧
      asked.Perm ((containers.map (·.keyIn lookup)).dedup.map (·.registry)) ∧
      o.1.metrics.totalApiCalls + failed.dedup.length = asked.length + failed.length ∧
      (o.1.metrics.totalApiCalls = asked.length ↔ failed.Nodup) := by
  intro o lookup failed
  obtain ⟨responses, h⟩ : ∃ responses,
      Accounted (fun s l => s.2 = l) lookup containers w responses o :=
    checkContainers_accounted service.logs_recorded hr containers
  have halone := askedAlone_of_no_slash lookup hslash
  obtain ⟨asked, hperm, hlogged⟩ := h.logged halone
  have hmisses := h.judged.misses_eq fun c hc response hget => Bool.eq_false_iff.mpr fun hhit =>
    (h.hit c hc response hget hhit).2 (halone _ (List.mem_map_of_mem hc))
  have hasked : asked.length = (containers.map (·.keyIn lookup)).dedup.length :=
    hperm.length_eq.trans (List.length_map _)
  have hcalls : o.1.metrics.totalApiCalls + failed.dedup.length = asked.length + failed.length := by
    rw [Metrics.totalApiCalls_eq, h.counts.totalCalls, hasked]
    exact hmisses
  refine ⟨asked, hlogged _ rfl, hperm.trans (.of_eq ?_), hcalls, ?_⟩
  · refine List.map_congr_left fun k hk => ?_
    obtain ⟨c, hc, rfl⟩ := List.mem_map.mp (List.mem_dedup.mp hk)
    rw [asked_keyIn (hslash c hc)]
  · calc o.1.metrics.totalApiCalls = asked.length
      _ ↔ failed.dedup.length = failed.length := by omega
      _ ↔ failed.dedup = failed := ⟨failed.dedup_sublist.eq_of_length, congrArg List.length⟩
      _ ↔ failed.Nodup := List.dedup_eq_self

/-- Two containers share a fetch that fails: one client is asked for, and two calls are reported. -/
theorem totalApiCalls_checkContainers_shared :
    let s : Prepared.State := ⟨⟨[]⟩, ⟨[]⟩, []⟩
    let containers : List Container :=
      [⟨"a", "a", "ghcr.io", "tool", "1.0.0", .minor, none, none⟩,
        ⟨"b", "b", "ghcr.io", "tool", "1.0.0", .minor, none, none⟩]
    let w : World (Prepared.State × List String) := .fresh (.fresh ⟨[]⟩ 1) (s, [])
    (checkContainers Prepared.service.recorded {} containers w).2.service.2 = ["ghcr"] ∧
      (checkContainers Prepared.service.recorded {} containers w).1.metrics.totalApiCalls = 2 := by
  intro s containers w
  have hasked : (checkContainers Prepared.service.recorded {} containers w).2.service.2 =
      ["ghcr"] := by decide +kernel
  have hfailed : (failedKeys (prereleaseLookup {} containers) containers
      (checkContainers Prepared.service.recorded {} containers w).1.checks).length = 2 ∧
      (failedKeys (prereleaseLookup {} containers) containers
        (checkContainers Prepared.service.recorded {} containers w).1.checks).dedup.length = 1 := by
    decide +kernel
  obtain ⟨asked, hclients, -, hcalls, -⟩ := totalApiCalls_checkContainers Prepared.service {}
    containers (by decide) w (World.rested_fresh _ _ _)
  rw [hasked] at hclients
  rw [hfailed.1, hfailed.2, ← show ["ghcr"] = asked from hclients] at hcalls
  exact ⟨hasked, by simpa using hcalls⟩

end TagWatch
