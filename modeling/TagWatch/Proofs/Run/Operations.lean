import TagWatch.Proofs.Run.Accounting

/-!
# The order of operations on a context

Everyone who takes part in a run shares one context, and nothing fixes the order in which they use
it. An operation on the context is done in one piece, so whatever they do is a list of operations.

**Theorem (`Context.performAll_order_independent`).** After every operation the counters agree with
each other. Checks, updates and errors may be recorded in any order, also under other names for the
same registries: only the list of times shows it. The end of the run can be noted any number of
times. The answer that is kept for a key is the last one that was set for it.

Each part reads off one thing that an operation does. What is recorded is a list of records
(`Metrics.Tells`), and each counter of it is a count of some of them. Anything else that is done
leaves these counters alone, and does the same to a context without them (`Context.bare_perform`).
The report of a run comes about in this way, too (`judgeAll_eq_performAll`).
-/

namespace TagWatch

/-! ## Operations -/

namespace Context

/-- What can be done with the context of a run. -/
inductive Operation where
  | group (containers : List Container) (lookup : PrereleaseLookup)
  | get (k : Key)
  | set (k : Key) (result : FetchResult)
  | check (registry : String) (latency : Nat) (cacheHit : Bool)
  | update
  | error
  | finalize
  deriving DecidableEq

/-- The context after an operation. -/
def perform (ctx : Context) : Operation → Context
  | .group containers lookup => (ctx.group containers lookup).2
  | .get _ => ctx
  | .set k result => ctx.set k result
  | .check registry latency cacheHit => ctx.onMetrics (·.recordCheck registry latency cacheHit)
  | .update => ctx.onMetrics .recordUpdate
  | .error => ctx.onMetrics .recordError
  | .finalize => ctx.onMetrics .finalize

/-- The context after some operations. -/
def performAll (ctx : Context) (ops : List Operation) : Context := ops.foldl perform ctx

variable {ctx : Context} {ops ops' : List Operation} {op : Operation}

theorem performAll_append (ctx : Context) (ops ops' : List Operation) :
    ctx.performAll (ops ++ ops') = (ctx.performAll ops).performAll ops' :=
  List.foldl_append

theorem performAll_concat (ctx : Context) (ops : List Operation) (op : Operation) :
    ctx.performAll (ops ++ [op]) = (ctx.performAll ops).perform op :=
  performAll_append ctx ops [op]

end Context

open Context

/-! ## Counters that agree -/

theorem RegistryStats.checks_record (s : RegistryStats) (cacheHit : Bool) :
    (s.record cacheHit).cacheHits + (s.record cacheHit).cacheMisses =
      s.cacheHits + s.cacheMisses + 1 := by
  rw [cacheHits_record, cacheMisses_record]
  cases cacheHit <;> simp <;> omega

/-- The counters agree with each other. -/
structure Metrics.Consistent (m : Metrics) : Prop where
  latencies : m.latencies.length = m.checkedContainers
  /-- Every registry has one entry. -/
  registries : m.registries.keys.Nodup
  total : m.registries.total (fun s => s.cacheHits + s.cacheMisses) = m.checkedContainers
  calls : ∀ name, (m.registries.getD name {}).apiCalls = (m.registries.getD name {}).cacheMisses
  groups : m.uniqueImages + m.deduplicatedContainers = m.totalContainers

namespace Metrics

variable {m m' : Metrics}

theorem Consistent.recordCheck (h : m.Consistent) (registry : String) (latency : Nat)
    (cacheHit : Bool) : (m.recordCheck registry latency cacheHit).Consistent := by
  refine ⟨?_, Table.nodup_keys_set h.registries _ _, ?_, fun name => ?_, h.groups⟩
  · rw [Metrics.recordCheck, List.length_append, h.latencies]
    rfl
  · rw [Metrics.recordCheck, ← h.total]
    exact Table.total_alter (f := fun s : RegistryStats => s.cacheHits + s.cacheMisses) _ _ rfl
      fun s => s.checks_record cacheHit
  · rw [Metrics.recordCheck, Table.getD_alter]
    split
    · rw [RegistryStats.apiCalls_record, RegistryStats.cacheMisses_record, h.calls]
    · exact h.calls name

/-- An operation keeps the counters in agreement. -/
theorem Consistent.perform {ctx : Context} (h : ctx.metrics.Consistent) (op : Operation) :
    (ctx.perform op).metrics.Consistent := by
  cases op with
  | group containers lookup =>
    exact ⟨h.latencies, h.registries, h.total, h.calls,
      Nat.add_sub_of_le (size_groupContainers_le containers lookup)⟩
  | get k => exact h
  | set k result => exact h
  | check registry latency cacheHit => exact h.recordCheck registry latency cacheHit
  | update => exact ⟨h.latencies, h.registries, h.total, h.calls, h.groups⟩
  | error => exact ⟨h.latencies, h.registries, h.total, h.calls, h.groups⟩
  | finalize => exact ⟨h.latencies, h.registries, h.total, h.calls, h.groups⟩

theorem Consistent.performAll {ctx : Context} (h : ctx.metrics.Consistent) (ops : List Operation) :
    (ctx.performAll ops).metrics.Consistent := by
  induction ops generalizing ctx with
  | nil => exact h
  | cons op ops ih => exact ih (h.perform op)

theorem consistent_performAll (ops : List Operation) :
    (({} : Context).performAll ops).metrics.Consistent := by
  have hempty : ({} : Context).metrics.Consistent :=
    ⟨rfl, List.nodup_nil, rfl, fun _ => rfl, rfl⟩
  exact hempty.performAll ops

end Metrics

/-! ## What is recorded -/

theorem filterMap_concat {α β : Type} (f : α → Option β) (l : List α) (a : α) :
    (l ++ [a]).filterMap f = l.filterMap f ++ (f a).toList := by
  rw [List.filterMap_append]
  cases h : f a <;> simp [h]

/-- What is recorded: a check, where the registry has its canonical name, an update or an error. -/
inductive Record where
  | check (name : String) (latency : Nat) (cacheHit : Bool)
  | update
  | error
  deriving DecidableEq

/-- The record that an operation makes. -/
def Context.Operation.record? : Operation → Option Record
  | check registry latency cacheHit => some (.check (Registry.canonical registry) latency cacheHit)
  | update => some .update
  | error => some .error
  | group _ _ | get _ | set _ _ | finalize => none

namespace Record

/-- The time of a check. -/
def latency? : Record → Option Nat
  | check _ latency _ => some latency
  | update | error => none

/-- Whether a check of a given registry was a hit. -/
def hitAt? (name : String) : Record → Option Bool
  | check name' _ cacheHit => if name' = name then some cacheHit else none
  | update | error => none

end Record

/-- The counters of a registry, given which of its checks were hits; a registry without checks has
none. -/
def RegistryStats.ofHits (hits : List Bool) : Option RegistryStats :=
  if hits = [] then none
  else some
    { apiCalls := hits.count false, cacheHits := hits.count true, cacheMisses := hits.count false }

theorem RegistryStats.ofHits_concat (hits : List Bool) (cacheHit : Bool) :
    ofHits (hits ++ [cacheHit]) = some (((ofHits hits).getD {}).record cacheHit) := by
  by_cases h : hits = []
  · subst h
    cases cacheHit <;> rfl
  · rw [ofHits, if_neg (List.append_ne_nil_of_left_ne_nil h _), ofHits, if_neg h]
    cases cacheHit <;> simp [record]

theorem RegistryStats.ofHits_perm {hits hits' : List Bool} (h : hits.Perm hits') :
    ofHits hits = ofHits hits' := by
  by_cases hnil : hits = []
  · subst hnil
    rw [h.nil_eq]
  · have hnil' : hits' ≠ [] := fun hnil' => hnil (h.trans (.of_eq hnil')).eq_nil
    rw [ofHits, if_neg hnil, ofHits, if_neg hnil', h.count_eq, h.count_eq]

/-- The counters tell what was recorded. -/
structure Metrics.Tells (m : Metrics) (records : List Record) : Prop where
  latencies : m.latencies = records.filterMap Record.latency?
  checked : m.checkedContainers = m.latencies.length
  updates : m.updatesFound = records.count .update
  errors : m.errors = records.count .error
  registries : ∀ name,
    m.registries.get? name = RegistryStats.ofHits (records.filterMap (Record.hitAt? name))

namespace Metrics

variable {m m' : Metrics} {records records' : List Record} {ctx : Context}

theorem Tells.recordCheck (h : m.Tells records) (registry : String) (latency : Nat)
    (cacheHit : Bool) : (m.recordCheck registry latency cacheHit).Tells
      (records ++ [.check (Registry.canonical registry) latency cacheHit]) := by
  refine ⟨?_, ?_, ?_, ?_, fun name => ?_⟩
  · rw [Metrics.recordCheck, h.latencies, filterMap_concat]
    rfl
  · rw [Metrics.recordCheck, h.checked, List.length_append]
    rfl
  · rw [List.count_append, ← h.updates]
    rfl
  · rw [List.count_append, ← h.errors]
    rfl
  · rw [Metrics.recordCheck, Table.alter, Table.get?_set, filterMap_concat, Record.hitAt?]
    by_cases hname : name = Registry.canonical registry
    · rw [if_pos hname, if_pos hname.symm, Option.toList_some, RegistryStats.ofHits_concat, hname,
        Table.getD, h.registries]
    · rw [if_neg hname, if_neg (Ne.symm hname), Option.toList_none, List.append_nil, h.registries]

/-- An operation tells the record that it makes. -/
theorem Tells.perform (h : ctx.metrics.Tells records) (op : Operation) :
    (ctx.perform op).metrics.Tells (records ++ op.record?.toList) := by
  cases op with
  | check registry latency cacheHit => exact h.recordCheck registry latency cacheHit
  | update | error =>
    rw [Operation.record?, Option.toList_some]
    refine ⟨?_, h.checked, ?_, ?_, fun name => ?_⟩
    · rw [filterMap_concat, Record.latency?, Option.toList_none, List.append_nil]
      exact h.latencies
    · rw [List.count_append, ← h.updates]
      rfl
    · rw [List.count_append, ← h.errors]
      rfl
    · rw [filterMap_concat, Record.hitAt?, Option.toList_none, List.append_nil]
      exact h.registries name
  | group _ _ | get _ | set _ _ | finalize =>
    rw [Operation.record?, Option.toList_none, List.append_nil]
    exact ⟨h.latencies, h.checked, h.updates, h.errors, h.registries⟩

theorem tells_performAll (ops : List Operation) :
    (({} : Context).performAll ops).metrics.Tells (ops.filterMap Operation.record?) := by
  induction ops using List.reverseRecOn with
  | nil => exact ⟨rfl, rfl, rfl, rfl, fun _ => rfl⟩
  | append_singleton ops op ih =>
    rw [performAll_concat, filterMap_concat]
    exact ih.perform op

/-- Counters that tell the same records, in any order, are the same but for the order of the
times. -/
theorem Tells.perm (h : m.Tells records) (h' : m'.Tells records') (hperm : records.Perm records') :
    m.latencies.Perm m'.latencies ∧ m.checkedContainers = m'.checkedContainers ∧
      m.updatesFound = m'.updatesFound ∧ m.errors = m'.errors ∧
      ∀ name, m.registries.get? name = m'.registries.get? name := by
  have hlatencies : m.latencies.Perm m'.latencies := by
    rw [h.latencies, h'.latencies]
    exact hperm.filterMap _
  refine ⟨hlatencies, ?_, ?_, ?_, fun name => ?_⟩
  · rw [h.checked, h'.checked, hlatencies.length_eq]
  · rw [h.updates, h'.updates, hperm.count_eq]
  · rw [h.errors, h'.errors, hperm.count_eq]
  · rw [h.registries, h'.registries]
    exact RegistryStats.ofHits_perm (hperm.filterMap _)

end Metrics

/-! ## What is done besides recording -/

/-- Whether an operation records something. -/
def Context.Operation.isRecord (op : Operation) : Bool := op.record?.isSome

/-- The counters without those of records. -/
def Metrics.bare (m : Metrics) : Metrics :=
  { m with
    checkedContainers := 0
    updatesFound := 0
    errors := 0
    latencies := []
    registries := .empty }

namespace Context

/-- The context without the counters of records. -/
def bare (ctx : Context) : Context := ctx.onMetrics Metrics.bare

variable {ctx : Context} {ops ops' : List Operation} {k : Key}

/-- Recording does not change a context without counters of records, and everything else does the
same to it as to the whole context. -/
theorem bare_perform (ctx : Context) (op : Operation) :
    (ctx.perform op).bare = if op.isRecord then ctx.bare else ctx.bare.perform op := by
  cases op <;> rfl

theorem bare_performAll (ctx : Context) (ops : List Operation) :
    (ctx.performAll ops).bare = ctx.bare.performAll (ops.filter (!·.isRecord)) := by
  induction ops generalizing ctx with
  | nil => rfl
  | cons op ops ih =>
    show ((ctx.perform op).performAll ops).bare = _
    rw [ih, bare_perform, List.filter_cons]
    cases op.isRecord <;> rfl

/-- Contexts with the same answers and the same counters, but for the order in which times and
registries are listed. -/
structure Alike (ctx ctx' : Context) : Prop where
  cache : ctx.cache = ctx'.cache
  counters : { ctx.metrics with latencies := [], registries := .empty } =
    { ctx'.metrics with latencies := [], registries := .empty }
  latencies : ctx.metrics.latencies.Perm ctx'.metrics.latencies
  registries : ∀ name, ctx.metrics.registries.get? name = ctx'.metrics.registries.get? name
  calls : ctx.metrics.totalApiCalls = ctx'.metrics.totalApiCalls

end Context

/-- Tables with distinct keys that cannot be told apart by reading have the same entries. -/
theorem Table.perm_of_get?_eq {κ α : Type} [DecidableEq κ] {t t' : Table κ α}
    (hn : t.keys.Nodup) (hn' : t'.keys.Nodup) (h : ∀ k, t.get? k = t'.get? k) :
    t.entries.Perm t'.entries := by
  refine (List.perm_ext_iff_of_nodup (.of_map _ hn) (.of_map _ hn')).mpr fun e => ?_
  rw [mem_entries_iff hn, mem_entries_iff hn', h]

namespace Context

variable {ctx : Context} {ops ops' : List Operation} {k : Key}

/-- Lists of operations that record the same in any order, and do the rest in the same order, lead
to the same context. -/
theorem alike_performAll
    (hrecords : (ops.filterMap Operation.record?).Perm (ops'.filterMap Operation.record?))
    (hrest : ops.filter (!·.isRecord) = ops'.filter (!·.isRecord)) :
    (({} : Context).performAll ops).Alike (({} : Context).performAll ops') := by
  obtain ⟨hlatencies, hchecked, hupdates, herrors, hregistries⟩ :=
    (Metrics.tells_performAll ops).perm (Metrics.tells_performAll ops') hrecords
  have hbare : (({} : Context).performAll ops).bare = (({} : Context).performAll ops').bare := by
    rw [bare_performAll, bare_performAll, hrest]
  obtain ⟨hcache, hmetrics⟩ := Context.mk.inj hbare
  refine ⟨hcache, ?_, hlatencies, hregistries, ?_⟩
  · simp only [Metrics.bare, Metrics.mk.injEq, true_and] at hmetrics ⊢
    obtain ⟨htotal, hdeduplicated, hunique, hcompleted⟩ := hmetrics
    exact ⟨htotal, hchecked, hdeduplicated, hunique, hupdates, herrors, hcompleted⟩
  · rw [Metrics.totalApiCalls_eq, Metrics.totalApiCalls_eq, Table.total, Table.total]
    exact ((Table.perm_of_get?_eq (Metrics.consistent_performAll ops).registries
      (Metrics.consistent_performAll ops').registries hregistries).map _).sum_nat

/-! ## The end of a run -/

/-- The context of a run that is over or not. -/
def endedIf (ctx : Context) (ended : Bool) : Context :=
  ctx.onMetrics fun m => { m with completed := ended }

/-- Whether the run is over plays no part in any other operation. -/
theorem perform_endedIf {op : Operation} (h : op ≠ .finalize) (ctx : Context) (ended : Bool) :
    (ctx.endedIf ended).perform op = (ctx.perform op).endedIf ended := by
  cases op with
  | finalize => exact absurd rfl h
  | _ => rfl

theorem performAll_eq_endedIf (ops : List Operation) :
    ({} : Context).performAll ops =
      (({} : Context).performAll (ops.filter (· ≠ .finalize))).endedIf (.finalize ∈ ops) := by
  induction ops using List.reverseRecOn with
  | nil => rfl
  | append_singleton ops op ih =>
    rw [performAll_concat, ih, List.filter_append]
    by_cases hop : op = .finalize
    · subst hop
      simp [endedIf, perform, onMetrics, Metrics.finalize]
    · rw [perform_endedIf hop, List.filter_cons_of_pos (by simpa using hop), List.filter_nil,
        performAll_concat]
      simp [Ne.symm hop]

/-! ## Answers -/

/-- The answer that an operation sets for a key. -/
def Operation.answer? (k : Key) : Operation → Option FetchResult
  | set k' result => if k' = k then some result else none
  | group _ _ | get _ | check _ _ _ | update | error | finalize => none

theorem get?_perform (ctx : Context) (op : Operation) (k : Key) :
    (ctx.perform op).get? k = (op.answer? k).or (ctx.get? k) := by
  cases op with
  | set k' result =>
    rw [perform, get?_set, Operation.answer?]
    by_cases h : k' = k
    · rw [if_pos h, if_pos h.symm, Option.some_or]
    · rw [if_neg h, if_neg (Ne.symm h), Option.none_or]
  | _ => rfl

/-- The last answer that was set is kept. -/
theorem get?_performAll (ctx : Context) (ops : List Operation) (k : Key) :
    (ctx.performAll ops).get? k =
      ((ops.filterMap (Operation.answer? k)).getLast?).or (ctx.get? k) := by
  induction ops using List.reverseRecOn with
  | nil => rfl
  | append_singleton ops op ih =>
    rw [performAll_concat, get?_perform, ih, filterMap_concat, List.getLast?_append,
      Option.or_assoc]
    cases op.answer? k <;> rfl

/-- **The counters of a run agree with each other and do not depend on the order of its checks.**
They agree after each operation. Lists of operations that record the same, in any order and under
any names for the registries, and do the rest in the same order lead to the same counters and
answers. That the run is over changes nothing else, however often it is noted. The answer kept for a
key is the last one that was set for it, whatever else is done. -/
theorem performAll_order_independent (ops : List Operation) :
    (∀ n, (({} : Context).performAll (ops.take n)).metrics.Consistent) ∧
    (∀ ops' : List Operation,
      (ops.filterMap Operation.record?).Perm (ops'.filterMap Operation.record?) →
      ops.filter (!·.isRecord) = ops'.filter (!·.isRecord) →
      (({} : Context).performAll ops).Alike (({} : Context).performAll ops')) ∧
    ({} : Context).performAll ops =
      (({} : Context).performAll (ops.filter (· ≠ .finalize))).endedIf (.finalize ∈ ops) ∧
    ∀ k, (({} : Context).performAll ops).get? k =
      (ops.filterMap (Operation.answer? k)).getLast? := by
  refine ⟨fun n => Metrics.consistent_performAll _, fun ops' => alike_performAll, ?_, ?_⟩
  · exact performAll_eq_endedIf ops
  · intro k
    rw [get?_performAll]
    exact Option.or_none

/-- Checks of two registries under several names, and a run that is over twice. -/
theorem performAll_order_independent_names :
    let k : Key := .make "docker.io" "library/nginx" "1.25" .minor false
    let group : Operation :=
      .group [⟨"a", "a", "docker.io", "library/nginx", "1.25", .minor, none, none⟩] .empty
    let ops : List Operation :=
      [group, .check "docker.io" 200 false, .set k (.failed "x"), .check "dockerhub" 0 true, .update,
        .finalize, .check "ghcr.io" 400 false, .set k (.failed "y"), .error, .finalize]
    let ops' : List Operation :=
      [.error, .check "GHCR.io/" 400 false, group, .update, .check "index.docker.io" 0 true,
        .set k (.failed "x"), .finalize, .set k (.failed "y"),
        .check "https://registry.hub.docker.com" 200 false, .finalize]
    (({} : Context).performAll ops).Alike (({} : Context).performAll ops') ∧
      (({} : Context).performAll ops').get? k = some (.failed "y") := by
  intro k group ops ops'
  obtain ⟨-, halike, -, -⟩ := performAll_order_independent ops
  obtain ⟨-, -, -, hget⟩ := performAll_order_independent ops'
  refine ⟨halike ops' (by decide +kernel) (by decide +kernel), ?_⟩
  rw [hget]
  decide +kernel

end Context

/-! ## The report of a run -/

section Report

variable {lookup : PrereleaseLookup} {responses : Table Key FetchResponse}

/-- Judging a container records a check if its key has an answer, and then at most one error or
update. -/
theorem Judging.exists_records (j : Judging) (c : Container) :
    ∃ ops : List Operation, (∀ op ∈ ops, op.isRecord = true) ∧
      ∀ ctx : Context, ctx.metrics = j.metrics →
        (ctx.performAll ops).metrics = (j.judge lookup responses c).metrics := by
  cases hget : responses.get? (c.keyIn lookup) with
  | none =>
    refine ⟨[], List.forall_mem_nil _, fun ctx hctx => ?_⟩
    rw [Judging.judge, hget]
    exact hctx
  | some response =>
    obtain ⟨check, -, hjudge⟩ := Judging.judge_eq (j := j) hget
    rw [hjudge]
    let verdict : List Operation :=
      if check.decision.trace.error.isSome then [.error]
      else if check.decision.hasUpdate then [.update] else []
    refine ⟨.check (c.keyIn lookup).registry 0 check.cacheHit :: verdict, ?_, ?_⟩
    · rw [List.forall_mem_cons]
      refine ⟨rfl, ?_⟩
      unfold verdict
      split
      · exact List.forall_mem_singleton.mpr rfl
      · split
        · exact List.forall_mem_singleton.mpr rfl
        · exact List.forall_mem_nil _
    · intro ctx hctx
      rw [← hctx, Metrics.recordVerdict]
      unfold verdict
      split
      · rfl
      · split <;> rfl

/-- The counters of a report come about by records of checks, and the end of the run. -/
theorem judgeAll_eq_performAll (lookup : PrereleaseLookup) (responses : Table Key FetchResponse)
    (containers : List Container) (ctx : Context) :
    ∃ ops : List Operation, (∀ op ∈ ops, op.isRecord = true) ∧
      (judgeAll lookup responses containers ctx.metrics).metrics =
        (ctx.performAll (ops ++ [.finalize])).metrics := by
  have hloop (j : Judging) (hj : ctx.metrics = j.metrics) :
      ∃ ops : List Operation, (∀ op ∈ ops, op.isRecord = true) ∧
        (ctx.performAll ops).metrics =
          (containers.foldl (Judging.judge lookup responses) j).metrics := by
    induction containers generalizing ctx j with
    | nil => exact ⟨[], List.forall_mem_nil _, hj⟩
    | cons c containers ih =>
      obtain ⟨ops, hops, hjudge⟩ := j.exists_records c
      obtain ⟨rest, hrest, hloop⟩ := ih (ctx.performAll ops) _ (hjudge ctx hj)
      refine ⟨ops ++ rest, List.forall_mem_append.mpr ⟨hops, hrest⟩, ?_⟩
      rw [performAll_append, hloop]
      rfl
  obtain ⟨ops, hops, hmetrics⟩ := hloop ⟨ctx.metrics, [], []⟩ rfl
  refine ⟨ops, hops, ?_⟩
  rw [performAll_concat, perform, onMetrics, hmetrics]
  rfl

end Report

end TagWatch
