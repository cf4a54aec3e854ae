import TagWatch.Proofs.Decision.Consistency
import TagWatch.Proofs.Run.Fetched

/-!
# Whose choice about prereleases counts

Whether prereleases count for a container is its own choice or the default of the run. A run looks
the choice up by the id of the container, when it forms the groups and again when it judges.

**Theorem (`checkContainers_prereleases`).** Each container is fetched for and judged under the
choice of the last container with its id. This is its own choice whenever the containers with its
id agree, and so if no other container has its id. When the clients choose the newest tags from
lists, as those on a network do (`Web.service_chooses`), a container that is checked without
prereleases and has a stable tag is told of stable tags only, whatever the other containers choose.

Containers with one id that do not agree are all checked under the choice of the last of them
(`first_of_two_overridden`).
-/

namespace TagWatch

open Limit (Ticket)

/-! ## The choice that counts for an id -/

/-- The last container of a list with an id. -/
structure LastWith (containers : List Container) (id : String) (last : Container) : Prop where
  id_eq : last.id = id
  last : ∃ before after, containers = before ++ last :: after ∧ ∀ c ∈ after, c.id ≠ id

variable {settings : FetchSettings} {containers : List Container} {c last : Container}
  {id : String}

theorem LastWith.mem (h : LastWith containers id last) : last ∈ containers := by
  obtain ⟨before, after, rfl, -⟩ := h.last
  exact List.mem_append_right _ List.mem_cons_self

/-- Of the containers with an id, one is the last. -/
theorem exists_lastWith (h : ∃ c ∈ containers, c.id = id) :
    ∃ last, LastWith containers id last := by
  induction containers with
  | nil =>
    obtain ⟨c, hc, -⟩ := h
    cases hc
  | cons first rest ih =>
    by_cases hlater : ∃ c ∈ rest, c.id = id
    · obtain ⟨last, hid, before, after, rfl, hafter⟩ := ih hlater
      exact ⟨last, hid, first :: before, after, rfl, hafter⟩
    · obtain ⟨c, hc, hid⟩ := h
      rcases List.mem_cons.mp hc with rfl | hc
      · refine ⟨c, hid, [], rest, rfl, ?_⟩
        intro c' hc' hid'
        exact hlater ⟨c', hc', hid'⟩
      · exact absurd ⟨c, hc, hid⟩ hlater

/-- The choice of the last container with an id is the one that is looked up. -/
theorem LastWith.getD_prereleaseLookup (h : LastWith containers id last) :
    (prereleaseLookup settings containers).getD id false = settings.prereleasesFor last := by
  obtain ⟨rfl, before, after, rfl, hafter⟩ := h
  have hget : (prereleaseLookup settings (before ++ last :: after)).get? last.id =
      some (settings.prereleasesFor last) := by
    rw [prereleaseLookup, Table.ofList, List.map_append, List.map_cons, List.foldl_append,
      List.foldl_cons]
    apply Table.get?_foldl_set
    · intro e he hid
      obtain ⟨c, hc, rfl⟩ := List.mem_map.mp he
      exact absurd hid (hafter c hc)
    · left
      rw [Table.get?_set, if_pos rfl]
  rw [Table.getD, hget]
  rfl

/-! ## Decisions under a choice -/

section Decisions

variable {state : ContainerState} {fetch : FetchResult}

theorem prereleases_decide (state : ContainerState) (fetch : FetchResult) :
    (state.decide fetch).trace.prereleases = state.prereleases := by
  cases h : fetch.error with
  | none =>
    rw [ContainerState.decide_answered h]
    rfl
  | some error =>
    rw [ContainerState.decide_failed h]
    rfl

/-- A decision names no newest tags but those that were fetched. -/
theorem newest_of_decide {tag : String} :
    ((state.decide fetch).latest = some tag → fetch.latest = some tag) ∧
      ((state.decide fetch).latestOverall = some tag → fetch.latestOverall = some tag) := by
  cases h : fetch.error with
  | none =>
    rw [ContainerState.decide_answered h]
    exact ⟨id, id⟩
  | some error =>
    rw [ContainerState.decide_failed h]
    constructor
    · intro hlatest
      cases hlatest
    · intro hoverall
      cases hoverall

end Decisions

/-! ## Checks under a choice -/

variable {σ : Type} {service : Service σ} {w w' : World σ} {entries : List (Ticket × Note)}
  {check : ContainerCheck} {prereleases : Bool}

/-- A container was fetched for and judged under a choice about prereleases. -/
structure ContainerCheck.Under (check : ContainerCheck) (service : Service σ)
    (settings : FetchSettings) (entries : List (Ticket × Note)) (c : Container)
    (prereleases : Bool) : Prop where
  /-- The result that is judged was fetched for a key with this choice. -/
  judged : ∃ result, FetchedFor settings entries (c.key prereleases) result ∧
    check.Says c ((c.state prereleases).decide result)
  traced : check.decision.trace.prereleases = prereleases
  /-- Without prereleases none is told to a container that has none. -/
  stable : service.Chooses → prereleases = false → IsStable c.tag → ∀ tag,
    check.decision.latest = some tag ∨ check.decision.latestOverall = some tag → IsStable tag

theorem FetchedFor.under {result : FetchResult} (hdiary : Diary service w entries w')
    (hfor : FetchedFor settings entries (c.key prereleases) result)
    (hverdict : check.Says c ((c.state prereleases).decide result)) :
    check.Under service settings entries c prereleases := by
  refine ⟨⟨result, hfor, hverdict⟩, ?_, ?_⟩
  · rw [hverdict.decision, prereleases_decide]
    rfl
  · rintro hservice rfl hstable tag htag
    obtain ⟨hlatest, hoverall⟩ := hfor.chosen hservice hdiary
    rw [hverdict.decision] at htag
    rcases htag with htag | htag
    · obtain ⟨tags, htags⟩ := hlatest tag (newest_of_decide.1 htag)
      exact latestInScope_stable htags hstable
    · obtain ⟨tags, htags⟩ := hoverall tag (newest_of_decide.2 htag)
      exact latestInScope_stable htags hstable

/-- **Whose choice about prereleases counts.** A run has one check for each container, in order. The
container was fetched for and judged under the choice of the last container with its id, and so
under its own choice if all containers with its id agree. The run has a diary in which the fetches
are noted with the answers of the service. -/
theorem checkContainers_prereleases (service : Service σ) (settings : FetchSettings)
    (containers : List Container) (w : World σ) (hr : w.Rested) :
    let o := checkContainers service settings containers w
    ∃ entries,
      Diary service (w.grouped containers (prereleaseLookup settings containers)) entries o.2 ∧
      List.Forall₂ (fun c check =>
        (∃ last, LastWith containers c.id last ∧
          check.Under service settings entries c (settings.prereleasesFor last)) ∧
        ((∀ c' ∈ containers, c'.id = c.id →
            settings.prereleasesFor c' = settings.prereleasesFor c) →
          check.Under service settings entries c (settings.prereleasesFor c)))
        containers o.1.checks := by
  obtain ⟨entries, hdiary, hchecks⟩ := checkContainers_fetched service settings containers hr
  refine ⟨entries, hdiary, forall₂_imp_mem hchecks ?_⟩
  intro c hc check _ ⟨result, hfor, hverdict⟩
  obtain ⟨last, hlast⟩ := exists_lastWith ⟨c, hc, rfl⟩
  have hunder : check.Under service settings entries c (settings.prereleasesFor last) := by
    rw [Container.keyIn, hlast.getD_prereleaseLookup] at hfor
    rw [hlast.getD_prereleaseLookup] at hverdict
    exact hfor.under hdiary hverdict
  refine ⟨⟨last, hlast, hunder⟩, ?_⟩
  intro hagree
  rw [← hagree last hlast.mem hlast.id_eq]
  exact hunder

/-- One of two containers opts in, and it alone is told of a prerelease. -/
theorem checkContainers_prereleases_apart :
    let network : Http.Network Unit := fun _ s =>
      (.response 200 [] (.text "\x7b\"tags\":[\"1.0.0\",\"1.0.1-rc.1\"]\x7d"), s)
    let service := Web.service {} network
    let containers : List Container :=
      [⟨"a", "a", "registry.test", "app", "1.0.0", .minor, none, none⟩,
        ⟨"b", "b", "registry.test", "app", "1.0.0", .minor, some true, none⟩]
    let o := checkContainers service {} containers (.fresh (.fresh ⟨[]⟩ 1) ⟨[], ()⟩)
    o.1.checks.map (·.decision.latest) = [none, some "1.0.1-rc.1"] ∧
      ∃ entries, List.Forall₂ (fun c check =>
        check.Under service {} entries c (FetchSettings.prereleasesFor {} c))
        containers o.1.checks := by
  intro network service containers o
  obtain ⟨entries, -, hchecks⟩ := checkContainers_prereleases service {} containers
    (.fresh (.fresh ⟨[]⟩ 1) ⟨[], ()⟩) (World.rested_fresh _ _ _)
  have hagree : IdsAgree {} containers := by
    unfold IdsAgree
    decide
  refine ⟨by decide +kernel, entries, forall₂_imp_mem hchecks ?_⟩
  intro c hc check _ hcheck
  apply hcheck.2
  intro c' hc' hid
  exact hagree c' hc' c hc hid

/-- Two containers with one id: the one that does not opt in is told of a prerelease, because the
other one does. -/
theorem first_of_two_overridden :
    let network : Http.Network Unit := fun _ s =>
      (.response 200 [] (.text "\x7b\"tags\":[\"1.0.0\",\"1.0.1-rc.1\"]\x7d"), s)
    let first : Container := ⟨"a", "a", "registry.test", "app", "1.0.0", .minor, none, none⟩
    let second : Container := ⟨"a", "b", "registry.test", "app", "1.0.0", .minor, some true, none⟩
    let o := checkContainers (Web.service {} network) {} [first, second]
      (.fresh (.fresh ⟨[]⟩ 1) ⟨[], ()⟩)
    FetchSettings.prereleasesFor {} first = false ∧ IsStable first.tag ∧
      o.1.checks.map (fun check => (check.containerName, check.decision.trace.prereleases,
        check.decision.latest)) =
          [("a", true, some "1.0.1-rc.1"), ("b", true, some "1.0.1-rc.1")] ∧
      ¬ IsStable "1.0.1-rc.1" := by
  exact ⟨by decide, by decide, by decide +kernel, by decide⟩

end TagWatch
