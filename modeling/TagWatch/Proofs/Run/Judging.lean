import Mathlib.Algebra.Ring.Nat
import Mathlib.Data.List.Dedup
import TagWatch.Run.Check

/-!
# The counters of a run add up

A run judges its containers one after another, and counts each of them in several places. The
answers to the groups are given here; where they come from plays no part.

**Theorem (`judgeAll_counts`).** When the key of every container has an answer, there is one check
for each container, in order (`Judged`), and every counter is a count over these checks
(`Metrics.Counts`). A container is a hit when the answer to its group was kept before, or when the
fetch of its group succeeded and an earlier container has the same key.

Both are invariants of the loop over the containers (`Judging.Accounts`). A registry counts one
container in one entry of a table, so that the sum over all entries grows by one
(`Table.total_alter`).
-/

namespace TagWatch

/-! ## Sums over tables -/

namespace Table

variable {κ α : Type} [DecidableEq κ] {f : α → Nat}

/-- The sum of a quantity over all values of a table. -/
def total (f : α → Nat) (t : Table κ α) : Nat := (t.entries.map fun e => f e.2).sum

theorem total_put (k : κ) (a d : α) (hd : f d = 0) (l : List (κ × α)) :
    ((put k a l).map fun e => f e.2).sum + f ((find k l).getD d) =
      (l.map fun e => f e.2).sum + f a := by
  induction l with
  | nil => simp [put, find, hd]
  | cons e rest ih =>
    by_cases he : e.1 = k
    · simp only [put, find, if_pos he, List.map_cons, List.sum_cons, Option.getD_some]
      omega
    · simp only [put, find, if_neg he, List.map_cons, List.sum_cons]
      omega

/-- When the value under a key grows by some quantity, so does the sum. -/
theorem total_alter (t : Table κ α) (k : κ) {d : α} (hd : f d = 0) {g : α → α} {n : Nat}
    (hg : ∀ a, f (g a) = f a + n) : (t.alter k d g).total f = t.total f + n := by
  have hput := total_put k (g (t.getD k d)) d hd t.entries
  have hgrown := hg (t.getD k d)
  simp only [total, alter, set, getD, get?] at hput hgrown ⊢
  omega

theorem getD_alter (t : Table κ α) (k k' : κ) (d : α) (g : α → α) :
    (t.alter k d g).getD k' d = if k' = k then g (t.getD k d) else t.getD k' d := by
  rw [getD, alter, get?_set]
  split <;> rfl

end Table

/-! ## Verdicts -/

/-- A verdict carries the error of its fetch. -/
theorem error_decide (s : ContainerState) (fetch : FetchResult) :
    (s.decide fetch).trace.error = fetch.error := by
  rw [ContainerState.decide]
  cases herror : fetch.error with
  | none => rfl
  | some error => rfl

/-- After an error there is no update. -/
theorem hasUpdate_decide {s : ContainerState} {fetch : FetchResult} (h : fetch.error.isSome) :
    (s.decide fetch).hasUpdate = false := by
  obtain ⟨error, herror⟩ := Option.isSome_iff_exists.mp h
  rw [ContainerState.decide, herror]
  rfl

/-! ## Checks -/

/-- The registry whose counters a container is counted in. -/
def Container.countedAt (c : Container) (lookup : PrereleaseLookup) : String :=
  Registry.canonical (c.keyIn lookup).registry

/-- What a check says about a container, given the answer to its group and whether an earlier
container has the same key. -/
structure ContainerCheck.Judges (check : ContainerCheck) (lookup : PrereleaseLookup) (c : Container)
    (response : FetchResponse) (again : Prop) : Prop where
  id : check.containerId = c.id
  decision : check.decision = (c.state (lookup.getD c.id false)).decide response.result
  cacheHit : check.cacheHit = true ↔
    response.cacheHit = true ∨ again ∧ response.result.error = none

/-- The checks of some containers, in order. -/
inductive Judged (lookup : PrereleaseLookup) (responses : Table Key FetchResponse) :
    List Container → List ContainerCheck → Prop where
  | nil : Judged lookup responses [] []
  | snoc {seen : List Container} {checks : List ContainerCheck} {c : Container}
    {check : ContainerCheck} {response : FetchResponse} :
    Judged lookup responses seen checks → responses.get? (c.keyIn lookup) = some response →
      check.Judges lookup c response (c.keyIn lookup ∈ seen.map (·.keyIn lookup)) →
        Judged lookup responses (seen ++ [c]) (checks ++ [check])

variable {lookup : PrereleaseLookup} {responses : Table Key FetchResponse} {seen : List Container}
  {checks : List ContainerCheck} {c : Container} {check : ContainerCheck}

theorem Judged.length_eq (h : Judged lookup responses seen checks) :
    checks.length = seen.length := by
  induction h with
  | nil => rfl
  | snoc _ _ _ ih => rw [List.length_append, List.length_append, ih]; rfl

theorem Judged.ids_eq (h : Judged lookup responses seen checks) :
    checks.map (·.containerId) = seen.map (·.id) := by
  induction h with
  | nil => rfl
  | snoc _ _ hjudges ih => rw [List.map_append, List.map_append, ih, List.map_singleton,
      List.map_singleton, hjudges.id]

/-- The checks beside the containers that they are on, without the containers. -/
theorem Judged.countP_zip (h : Judged lookup responses seen checks) (test : ContainerCheck → Bool) :
    (seen.zip checks).countP (fun p => test p.2) = checks.countP test := by
  refine List.countP_map.symm.trans (congrArg (List.countP test) ?_)
  exact List.map_snd_zip (Nat.le_of_eq h.length_eq)

/-- The containers with their checks, one by one. -/
theorem Judged.zip_concat (h : Judged lookup responses seen checks) (c : Container)
    (check : ContainerCheck) : (seen ++ [c]).zip (checks ++ [check]) =
      seen.zip checks ++ [(c, check)] :=
  List.zip_append h.length_eq.symm

/-- Every container was judged by the answer to its group. -/
theorem Judged.judges (h : Judged lookup responses seen checks) :
    ∀ p ∈ seen.zip checks, ∃ response again, responses.get? (p.1.keyIn lookup) = some response ∧
      p.2.Judges lookup p.1 response again := by
  induction h with
  | nil => exact fun p hp => absurd hp List.not_mem_nil
  | @snoc seen checks c check response hjudged hget hjudges ih =>
    intro p hp
    rw [hjudged.zip_concat] at hp
    rcases List.mem_append.mp hp with hp | hp
    · exact ih p hp
    · obtain rfl := List.mem_singleton.mp hp
      exact ⟨response, _, hget, hjudges⟩

/-- The checks of the containers of a group, in order. -/
def groupChecks (lookup : PrereleaseLookup) (containers : List Container)
    (checks : List ContainerCheck) (k : Key) : List ContainerCheck :=
  ((containers.zip checks).filter fun p => p.1.keyIn lookup = k).map Prod.snd

variable {k : Key} {response : FetchResponse}

theorem forall_groupChecks {P : ContainerCheck → Prop}
    (h : ∀ p ∈ seen.zip checks, p.1.keyIn lookup = k → P p.2) :
    ∀ check ∈ groupChecks lookup seen checks k, P check := by
  intro check hcheck
  obtain ⟨p, hp, rfl⟩ := List.mem_map.mp hcheck
  obtain ⟨hp, hk⟩ := List.mem_filter.mp hp
  exact h p hp (of_decide_eq_true hk)

/-- The checks of a group have the error of its fetch. -/
theorem Judged.error_eq (h : Judged lookup responses seen checks)
    (hget : responses.get? k = some response) :
    ∀ p ∈ seen.zip checks, p.1.keyIn lookup = k →
      p.2.decision.trace.error = response.result.error := by
  rintro p hp rfl
  obtain ⟨response', again, hget', hjudges⟩ := h.judges p hp
  obtain rfl : response' = response := Option.some.inj (hget'.symm.trans hget)
  rw [hjudges.decision, error_decide]

/-- What fails is never a hit. -/
theorem Judged.not_hit (h : Judged lookup responses seen checks)
    (hsound : ∀ c ∈ seen, ∀ response, responses.get? (c.keyIn lookup) = some response →
      response.cacheHit = true → response.result.error = none) :
    ∀ p ∈ seen.zip checks, p.2.decision.trace.error.isSome → p.2.cacheHit = false := by
  intro p hp herror
  obtain ⟨response, again, hget, hjudges⟩ := h.judges p hp
  rw [hjudges.decision, error_decide] at herror
  refine Bool.eq_false_iff.mpr fun hhit => ?_
  have hok : response.result.error = none :=
    (hjudges.cacheHit.mp hhit).elim (hsound p.1 (List.of_mem_zip hp).1 _ hget) (·.2)
  rw [hok] at herror
  cases herror

theorem Judged.groupChecks_concat (h : Judged lookup responses seen checks) (c : Container)
    (check : ContainerCheck) (k : Key) :
    groupChecks lookup (seen ++ [c]) (checks ++ [check]) k =
      groupChecks lookup seen checks k ++ if c.keyIn lookup = k then [check] else [] := by
  rw [groupChecks, h.zip_concat, List.filter_append, List.map_append]
  by_cases hk : c.keyIn lookup = k <;> simp [groupChecks, hk]

/-- In a group whose fetch succeeded, and found no kept answer, the first container alone is no
hit. -/
theorem Judged.hits_eq (h : Judged lookup responses seen checks)
    (hget : responses.get? k = some response) (hmiss : response.cacheHit = false)
    (hok : response.result.error = none) :
    (k ∉ seen.map (·.keyIn lookup) ∧ groupChecks lookup seen checks k = []) ∨
      k ∈ seen.map (·.keyIn lookup) ∧
      ∃ n, (groupChecks lookup seen checks k).map (·.cacheHit) =
        false :: List.replicate n true := by
  induction h with
  | nil => exact .inl ⟨List.not_mem_nil, rfl⟩
  | @snoc seen checks c check response' hjudged hget' hjudges ih =>
    rw [hjudged.groupChecks_concat, List.map_append, List.mem_append]
    by_cases hk : c.keyIn lookup = k
    · subst hk
      obtain rfl : response' = response := Option.some.inj (hget'.symm.trans hget)
      have hhit : check.cacheHit = true ↔ c.keyIn lookup ∈ seen.map (·.keyIn lookup) := by
        rw [hjudges.cacheHit, hmiss, hok]
        simp
      refine .inr ⟨.inr (List.mem_singleton_self _), ?_⟩
      rw [if_pos rfl, List.map_append]
      rcases ih with ⟨hnew, hnil⟩ | ⟨hold, n, hmap⟩
      · refine ⟨0, ?_⟩
        rw [hnil, List.map_singleton, Bool.eq_false_iff.mpr (mt hhit.mp hnew)]
        rfl
      · refine ⟨n + 1, ?_⟩
        rw [hmap, List.map_singleton, hhit.mpr hold, List.replicate_succ']
        rfl
    · rw [if_neg hk, List.append_nil, List.map_singleton, List.mem_singleton,
        or_iff_left (Ne.symm hk)]
      exact ih

/-- The keys of the containers whose fetch failed, in order. -/
def failedKeys (lookup : PrereleaseLookup) (containers : List Container)
    (checks : List ContainerCheck) : List Key :=
  ((containers.zip checks).filter fun p => p.2.decision.trace.error.isSome).map (·.1.keyIn lookup)

theorem length_dedup_concat {α : Type} [DecidableEq α] (l : List α) (a : α) :
    (l ++ [a]).dedup.length = l.dedup.length + if a ∈ l then 0 else 1 := by
  rw [(List.perm_append_singleton a l).dedup.length_eq, List.dedup_cons]
  split
  · rfl
  · exact List.length_cons

theorem Judged.failedKeys_concat (h : Judged lookup responses seen checks) (c : Container)
    (check : ContainerCheck) :
    failedKeys lookup (seen ++ [c]) (checks ++ [check]) = failedKeys lookup seen checks ++
      if check.decision.trace.error.isSome then [c.keyIn lookup] else [] := by
  rw [failedKeys, h.zip_concat, List.filter_append, List.map_append]
  by_cases herror : check.decision.trace.error.isSome <;> simp [failedKeys, herror]

/-- A key that has failed stays one. -/
theorem Judged.mem_failedKeys (h : Judged lookup responses seen checks)
    (hget : responses.get? k = some response) (hfailed : response.result.error.isSome) :
    k ∈ failedKeys lookup seen checks ↔ k ∈ seen.map (·.keyIn lookup) := by
  simp only [failedKeys, List.mem_map, List.mem_filter]
  constructor
  · rintro ⟨p, ⟨hp, -⟩, hk⟩
    exact ⟨p.1, (List.of_mem_zip hp).1, hk⟩
  · rintro ⟨c, hc, hk⟩
    rw [← List.map_fst_zip (Nat.le_of_eq h.length_eq.symm)] at hc
    obtain ⟨p, hp, rfl⟩ := List.mem_map.mp hc
    refine ⟨p, ⟨hp, ?_⟩, hk⟩
    rwa [h.error_eq hget p hp hk]

/-- When no group found a kept answer, there is one miss for each group, and one more for each
container that shares a failed fetch with an earlier one. -/
theorem Judged.misses_eq (h : Judged lookup responses seen checks)
    (hmiss : ∀ c ∈ seen, ∀ response, responses.get? (c.keyIn lookup) = some response →
      response.cacheHit = false) :
    (seen.zip checks).countP (!·.2.cacheHit) + (failedKeys lookup seen checks).dedup.length =
      (seen.map (·.keyIn lookup)).dedup.length + (failedKeys lookup seen checks).length := by
  induction h with
  | nil => rfl
  | @snoc seen checks c check response hjudged hget hjudges ih =>
    have ih := ih fun c' hc' => hmiss c' (List.mem_append_left _ hc')
    have hanew := hmiss c (List.mem_append_right _ (List.mem_singleton_self c)) response hget
    have herror : check.decision.trace.error = response.result.error := by
      rw [hjudges.decision, error_decide]
    have hhit := hjudges.cacheHit
    simp only [hanew, Bool.false_eq_true, false_or] at hhit
    rw [hjudged.zip_concat, hjudged.failedKeys_concat, List.countP_append, List.countP_singleton,
      List.map_append, List.map_singleton, length_dedup_concat]
    cases hfailed : response.result.error with
    | some e =>
      have hsome : response.result.error.isSome := by rw [hfailed]; rfl
      have hnot : check.cacheHit = false := by
        rw [hfailed] at hhit
        simpa using hhit
      rw [herror, if_pos hsome, length_dedup_concat, List.length_append, List.length_singleton,
        hnot]
      simp only [hjudged.mem_failedKeys hget hsome, Bool.not_false, if_true]
      omega
    | none =>
      simp only [hfailed, and_true] at hhit
      have hnone : ¬ check.decision.trace.error.isSome := by rw [herror, hfailed]; exact nofun
      rw [if_neg hnone, List.append_nil]
      simp only [← hhit]
      cases check.cacheHit
      · simp only [Bool.not_false, if_true, Bool.false_eq_true, if_false]
        omega
      · simp only [Bool.not_true, Bool.false_eq_true, if_false, if_true]
        omega

/-! ## Counters -/

/-- The counters of a run that has judged some containers, out of a number of containers in a number
of groups. -/
structure Metrics.Counts (m : Metrics) (lookup : PrereleaseLookup) (containers groups : Nat)
    (judged : List (Container × ContainerCheck)) : Prop where
  totalContainers : m.totalContainers = containers
  uniqueImages : m.uniqueImages = groups
  deduplicated : m.deduplicatedContainers = containers - groups
  checked : m.checkedContainers = judged.length
  latencies : m.latencies.length = judged.length
  updates : m.updatesFound = judged.countP (·.2.decision.hasUpdate)
  errors : m.errors = judged.countP (·.2.decision.trace.error.isSome)
  hits : ∀ name, (m.registries.getD name {}).cacheHits =
    judged.countP fun p => p.1.countedAt lookup = name ∧ p.2.cacheHit = true
  misses : ∀ name, (m.registries.getD name {}).cacheMisses =
    judged.countP fun p => p.1.countedAt lookup = name ∧ p.2.cacheHit = false
  calls : ∀ name, (m.registries.getD name {}).apiCalls = (m.registries.getD name {}).cacheMisses
  total : m.registries.total (fun s => s.cacheHits + s.cacheMisses) = judged.length
  totalCalls : m.registries.total (·.apiCalls) = judged.countP (!·.2.cacheHit)

namespace RegistryStats

variable (s : RegistryStats) (cacheHit : Bool)

theorem cacheHits_record :
    (s.record cacheHit).cacheHits = s.cacheHits + if cacheHit = true then 1 else 0 := by
  cases cacheHit <;> rfl

theorem cacheMisses_record :
    (s.record cacheHit).cacheMisses = s.cacheMisses + if cacheHit = false then 1 else 0 := by
  cases cacheHit <;> rfl

theorem apiCalls_record :
    (s.record cacheHit).apiCalls = s.apiCalls + if cacheHit = false then 1 else 0 := by
  cases cacheHit <;> rfl

end RegistryStats

namespace Metrics

/-- The counters after a verdict: an error, an update or neither. -/
def recordVerdict (m : Metrics) (d : Decision) : Metrics :=
  if d.trace.error.isSome then m.recordError else if d.hasUpdate then m.recordUpdate else m

variable {m : Metrics} {containers groups : Nat} {judged : List (Container × ContainerCheck)}

theorem recordVerdict_eq {d : Decision}
    (herror : d.trace.error.isSome → d.hasUpdate = false) (m : Metrics) :
    m.recordVerdict d = { m with
      updatesFound := m.updatesFound + if d.hasUpdate then 1 else 0
      errors := m.errors + if d.trace.error.isSome then 1 else 0 } := by
  rw [recordVerdict]
  by_cases he : d.trace.error.isSome
  · rw [if_pos he, if_pos he, herror he]
    rfl
  · rw [if_neg he, if_neg he]
    split <;> rfl

theorem counts_recordGroups (lookup : PrereleaseLookup) (containers groups : Nat) :
    (({} : Metrics).recordGroups containers groups).Counts lookup containers groups [] :=
  ⟨rfl, rfl, rfl, rfl, rfl, rfl, rfl, fun _ => rfl, fun _ => rfl, fun _ => rfl, rfl, rfl⟩

/-- One more container is counted, with the verdict on it. -/
theorem Counts.recordCheck (h : m.Counts lookup containers groups judged) (latency : Nat)
    (herror : check.decision.trace.error.isSome → check.decision.hasUpdate = false) :
    ((m.recordCheck (c.keyIn lookup).registry latency check.cacheHit).recordVerdict
      check.decision).Counts lookup containers groups (judged ++ [(c, check)]) := by
  rw [recordVerdict_eq herror]
  have hregistry (name : String) :
      ((m.recordCheck (c.keyIn lookup).registry latency check.cacheHit).registries.getD name {}) =
        if name = c.countedAt lookup then
          (m.registries.getD (c.countedAt lookup) {}).record check.cacheHit
        else m.registries.getD name {} :=
    Table.getD_alter m.registries (c.countedAt lookup) name {} (·.record check.cacheHit)
  refine ⟨h.totalContainers, h.uniqueImages, h.deduplicated, ?_, ?_, ?_, ?_, ?_, ?_, ?_, ?_, ?_⟩
  · simp [Metrics.recordCheck, h.checked]
  · simp [Metrics.recordCheck, h.latencies]
  · simp [Metrics.recordCheck, h.updates, List.countP_append, List.countP_singleton]
  · simp [Metrics.recordCheck, h.errors, List.countP_append, List.countP_singleton]
  · intro name
    rw [hregistry, List.countP_append, ← h.hits, List.countP_singleton]
    by_cases hname : name = c.countedAt lookup
    · simp [hname, RegistryStats.cacheHits_record]
    · simp [hname, Ne.symm hname]
  · intro name
    rw [hregistry, List.countP_append, ← h.misses, List.countP_singleton]
    by_cases hname : name = c.countedAt lookup
    · simp [hname, RegistryStats.cacheMisses_record]
    · simp [hname, Ne.symm hname]
  · intro name
    rw [hregistry]
    by_cases hname : name = c.countedAt lookup
    · rw [if_pos hname, RegistryStats.apiCalls_record, RegistryStats.cacheMisses_record, h.calls]
    · rw [if_neg hname, h.calls]
  · have hrecord (s : RegistryStats) : (s.record check.cacheHit).cacheHits +
        (s.record check.cacheHit).cacheMisses = s.cacheHits + s.cacheMisses + 1 := by
      rw [RegistryStats.record]
      split <;> simp only <;> omega
    rw [List.length_append, List.length_singleton, ← h.total]
    exact Table.total_alter (f := fun s : RegistryStats => s.cacheHits + s.cacheMisses) _ _ rfl
      hrecord
  · rw [List.countP_append, ← h.totalCalls, List.countP_singleton]
    simp only [Bool.not_eq_true']
    exact Table.total_alter (f := RegistryStats.apiCalls) _ _ rfl fun s => s.apiCalls_record _

/-- The counters do not depend on whether the run is over. -/
theorem Counts.finalize (h : m.Counts lookup containers groups judged) :
    m.finalize.Counts lookup containers groups judged :=
  ⟨h.totalContainers, h.uniqueImages, h.deduplicated, h.checked, h.latencies, h.updates, h.errors,
    h.hits, h.misses, h.calls, h.total, h.totalCalls⟩

theorem totalApiCalls_eq (m : Metrics) : m.totalApiCalls = m.registries.total (·.apiCalls) := by
  rw [totalApiCalls, Table.total, List.sum_eq_foldl, List.foldl_map]

end Metrics

/-! ## The loop over the containers -/

namespace Judging

variable {j : Judging} {response : FetchResponse} {n groups : Nat}

/-- What is known after some containers have been judged. -/
structure Accounts (j : Judging) (lookup : PrereleaseLookup) (responses : Table Key FetchResponse)
    (n groups : Nat) (seen : List Container) : Prop where
  judged : Judged lookup responses seen j.checks
  charged : ∀ k, k ∈ j.charged ↔ k ∈ seen.map (·.keyIn lookup)
  counted : j.metrics.Counts lookup n groups (seen.zip j.checks)

/-- A container whose key has an answer is judged and counted. -/
theorem judge_eq (hget : responses.get? (c.keyIn lookup) = some response) :
    ∃ check : ContainerCheck,
      check.Judges lookup c response (c.keyIn lookup ∈ j.charged) ∧
      j.judge lookup responses c =
        { metrics := (j.metrics.recordCheck (c.keyIn lookup).registry 0
            check.cacheHit).recordVerdict check.decision
          charged := if j.charged.contains (c.keyIn lookup) then j.charged
            else j.charged ++ [c.keyIn lookup]
          checks := j.checks ++ [check] } := by
  rw [Judging.judge, hget]
  refine ⟨⟨c.id, c.name, c.image, c.tag, response.cacheHit ||
      (j.charged.contains (c.keyIn lookup) && response.result.error.isNone),
      (c.state (lookup.getD c.id false)).decide response.result⟩, ⟨rfl, rfl, ?_⟩, ?_⟩
  · rw [Bool.or_eq_true, Bool.and_eq_true, List.contains_iff_mem, Option.isNone_iff_eq_none]
  · dsimp only
    rw [Bool.not_not]
    congr 1
    cases j.charged.contains (c.keyIn lookup) <;> rfl

/-- One more container is judged. -/
theorem Accounts.judge (h : j.Accounts lookup responses n groups seen)
    (hget : responses.get? (c.keyIn lookup) = some response) :
    (j.judge lookup responses c).Accounts lookup responses n groups (seen ++ [c]) := by
  obtain ⟨check, hjudges, hjudge⟩ := judge_eq (j := j) hget
  have herror : check.decision.trace.error.isSome → check.decision.hasUpdate = false := by
    rw [hjudges.decision, error_decide]
    exact hasUpdate_decide
  rw [hjudge]
  refine ⟨.snoc h.judged hget ?_, fun k => ?_, ?_⟩
  · rwa [h.charged] at hjudges
  · rw [List.map_append, List.mem_append, ← h.charged]
    split
    · next hmem =>
      refine ⟨.inl, fun hk => hk.elim id fun hk => ?_⟩
      rw [List.mem_singleton.mp hk]
      exact List.contains_iff_mem.mp hmem
    · exact List.mem_append
  · rw [List.zip_append h.judged.length_eq.symm]
    exact h.counted.recordCheck 0 herror

/-- All containers are judged. -/
theorem Accounts.foldl {rest : List Container} (h : j.Accounts lookup responses n groups seen)
    (hget : ∀ c ∈ rest, ∃ response, responses.get? (c.keyIn lookup) = some response) :
    (rest.foldl (Judging.judge lookup responses) j).Accounts lookup responses n groups
      (seen ++ rest) := by
  induction rest generalizing seen j with
  | nil => rwa [List.append_nil]
  | cons c rest ih =>
    obtain ⟨response, hc⟩ := hget c List.mem_cons_self
    rw [List.append_cons]
    exact ih (h.judge hc) fun c' hc' => hget c' (List.mem_cons_of_mem _ hc')

end Judging

/-- When the key of every container has an answer, each of them is judged and counted. -/
theorem judgeAll_counts {containers : List Container} (n groups : Nat)
    (hget : ∀ c ∈ containers, ∃ response, responses.get? (c.keyIn lookup) = some response) :
    let report := judgeAll lookup responses containers (({} : Metrics).recordGroups n groups)
    Judged lookup responses containers report.checks ∧
      report.metrics.Counts lookup n groups (containers.zip report.checks) := by
  have hstart : Judging.Accounts ⟨({} : Metrics).recordGroups n groups, [], []⟩
      lookup responses n groups [] :=
    ⟨.nil, fun k => Iff.rfl, Metrics.counts_recordGroups lookup n groups⟩
  have hend := hstart.foldl hget
  exact ⟨hend.judged, hend.counted.finalize⟩

/-- Containers without an answer play no part. -/
theorem judgeAll_filter (lookup : PrereleaseLookup) (responses : Table Key FetchResponse)
    (containers : List Container) (metrics : Metrics) :
    judgeAll lookup responses
      (containers.filter fun c => (responses.get? (c.keyIn lookup)).isSome) metrics =
        judgeAll lookup responses containers metrics := by
  have hjudge : (fun (j : Judging) (c : Container) =>
      if (responses.get? (c.keyIn lookup)).isSome = true then j.judge lookup responses c else j) =
        Judging.judge lookup responses := by
    funext j c
    split
    · rfl
    · next hnone => rw [Judging.judge, Option.not_isSome_iff_eq_none.mp hnone]
  rw [judgeAll, judgeAll, List.foldl_filter, hjudge]

end TagWatch
