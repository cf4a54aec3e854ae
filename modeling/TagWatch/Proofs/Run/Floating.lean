import TagWatch.Client.Web
import TagWatch.Proofs.Run.Fetched
import TagWatch.Proofs.Run.Prereleases
import TagWatch.Proofs.Version.Floating

/-!
# Fetches and decisions agree on floating tags

A client says whether the current tag is floating, and the fetch asks for metadata or for newer tags
accordingly. The decision counts a tag as floating if the fetch did or if it holds no version.

**Theorem (`checkContainers_floating`).** When the clients go by the name of the tag, both are the
same: the tag of a container is floating exactly if it holds no version. Then a digest counts only
for a tag without a version, a newer tag only for one with a version, and no digest is ever told
without being asked for.

The fetch and the decision meet in the result. `FetchResult.Fits` says what a result without an error
tells for which tags; it holds of all that is fetched (`FetchedFor.fits`), and the decision on such
a result follows from its fields (`decide_floats`).
-/

namespace TagWatch

/-! ## Decisions -/

/-- What a result without an error tells fits the tag: for a floating tag nothing is known about
newer tags, and for any other no digest. -/
structure FetchResult.Fits (fetch : FetchResult) (tag : String) : Prop where
  floating : fetch.floating = true ↔ Version.ofTag? tag = none
  latestOverall : fetch.floating = true → fetch.latestOverall = none
  digest : fetch.floating = false → fetch.digest = none

/-- A decision on a tag agrees with a result on whether it is floating. -/
structure Decision.Floats (d : Decision) (tag : String) (fetch : FetchResult) : Prop where
  traced : d.trace.error = none → d.trace.floating = fetch.floating
  fetched : d.trace.error = none → (fetch.floating = true ↔ Version.ofTag? tag = none)
  /-- A digest counts only for a tag that holds no version. -/
  digest : d.kind = some .digest ∨ d.digestChanged = true ∨ d.baselineNeeded = true →
    Version.ofTag? tag = none
  /-- A newer tag counts only for one that holds a version. -/
  version : d.kind = some .tag ∨ d.outsideScope = true → (Version.ofTag? tag).isSome = true
  digestIgnored : Anomaly.digestIgnored ∉ d.trace.anomalies

section Anomalies

variable {currentTag : String}

theorem digestIgnored_judgeTag (latest : Option String) :
    Anomaly.digestIgnored ∉ (judgeTag currentTag latest).anomalies := by
  fun_cases judgeTag currentTag latest <;> simp_all [TagVerdict.anomalies]

theorem digestIgnored_judgeDigest {floating : Bool} {stored reported : Option String} :
    Anomaly.digestIgnored ∈ (judgeDigest currentTag floating stored reported).anomalies ↔
      floating = false ∧ reported.isSome = true := by
  fun_cases judgeDigest currentTag floating stored reported <;> simp [DigestVerdict.anomalies]

theorem digestIgnored_judgeScope (latest latestOverall : Option String) :
    Anomaly.digestIgnored ∉ (judgeScope currentTag latest latestOverall).anomalies := by
  fun_cases judgeScope currentTag latest latestOverall <;> simp_all [ScopeVerdict.anomalies]

end Anomalies

section Decisions

variable {state : ContainerState} {fetch : FetchResult}

theorem FetchResult.Fits.comparedByDigest (h : fetch.Fits state.tag) :
    state.ComparedByDigest fetch ↔ fetch.floating = true :=
  or_iff_left_of_imp h.floating.mpr

/-- The digest of a result that fits is never ignored. -/
theorem digestIgnored_decideAnswered (h : fetch.Fits state.tag) :
    Anomaly.digestIgnored ∉ (state.decideAnswered fetch).trace.anomalies := by
  have hdigest : Anomaly.digestIgnored ∉ (judgeDigest state.tag (state.isFloating fetch)
      state.digest fetch.digest).anomalies := by
    rw [digestIgnored_judgeDigest]
    rintro ⟨hfloating, hreported⟩
    rw [ContainerState.isFloating, Bool.or_eq_false_iff] at hfloating
    rw [h.digest hfloating.1] at hreported
    cases hreported
  intro hmem
  rcases List.mem_append.mp hmem with hmem | hmem
  · rcases List.mem_append.mp hmem with hmem | hmem
    · exact digestIgnored_judgeTag _ hmem
    · exact hdigest hmem
  · exact digestIgnored_judgeScope _ _ hmem

theorem decide_floats (h : fetch.error = none → fetch.Fits state.tag) :
    (state.decide fetch).Floats state.tag fetch := by
  cases herror : fetch.error with
  | some error =>
    rw [ContainerState.decide_failed herror]
    refine ⟨fun hnone => ?_, fun hnone => ?_, fun hdigest => ?_, fun hversion => ?_, ?_⟩
    · cases hnone
    · cases hnone
    · rcases hdigest with hdigest | hdigest | hdigest <;> cases hdigest
    · rcases hversion with hversion | hversion <;> cases hversion
    · exact List.not_mem_nil
  | none =>
    have hfits := h herror
    have hconsistent : (state.decide fetch).Consistent state fetch := by
      rw [ContainerState.decide_answered herror]
      exact consistent_answered herror
    have hdigest (hc : state.ComparedByDigest fetch) : Version.ofTag? state.tag = none :=
      hfits.floating.mp (hfits.comparedByDigest.mp hc)
    refine ⟨fun _ => ?_, fun _ => hfits.floating, ?_, ?_, ?_⟩
    · rw [ContainerState.decide_answered herror, Bool.eq_iff_iff]
      exact ContainerState.isFloating_iff.trans hfits.comparedByDigest
    · rintro (hkind | hchanged | hbaseline)
      · exact hdigest (hconsistent.digest.mp hkind).1
      · obtain ⟨stored, new, -, hnew, -⟩ := hconsistent.changed.mp hchanged
        exact hdigest ((hconsistent.reported new).mp hnew).2.1
      · exact hdigest (hconsistent.baseline.mp hbaseline).2.1
    · rintro (hkind | houtside)
      · obtain ⟨latest, current, candidate, -, hcurrent, -⟩ :=
          hconsistent.newer.mp (hconsistent.tag.mp hkind)
        rw [hcurrent]
        rfl
      · obtain ⟨overall, hoverall, -⟩ := hconsistent.beyond.mp (hconsistent.outside.mp houtside)
        rw [Option.isSome_iff_ne_none]
        intro hunversioned
        have hnone := hfits.latestOverall (hfits.floating.mpr hunversioned)
        rw [newest_of_decide.2 hoverall] at hnone
        cases hnone
    · rw [ContainerState.decide_answered herror]
      exact digestIgnored_decideAnswered hfits

end Decisions

/-! ## Fetches -/

/-- The clients of a service go by the name of a tag to tell whether it is floating. -/
def Service.FloatsByName {σ : Type} (service : Service σ) : Prop :=
  ∀ id tag s, (service.answer id (.isFloating tag) s).1 = isFloatingTag tag

/-- Clients on a network go by the name of a tag. -/
theorem Web.service_floatsByName {σ : Type} (f : Web.Factory) (network : Http.Network σ) :
    (Web.service f network).FloatsByName := by
  intro id tag s
  show (Web.answer network id (.isFloating tag) s).1 = isFloatingTag tag
  rw [Web.answer]
  cases s.clients.getD id (.make Registry.hub "" 1) with
  | hub e => rfl
  | distribution e memory => rfl

/-- Whether a result counts its tag as floating was told by the client. -/
theorem FetchRequest.Visit.exists_floating {r : FetchRequest} {settings : FetchSettings}
    {inRun : Bool} {said : List Event} {response : FetchResponse}
    (h : r.Visit settings inRun said response) (hok : response.result.error = none) :
    ∃ id, Reply.event id ⟨.isFloating r.tag, response.result.floating⟩ ∈ said := by
  cases h with
  | refused waited e => cases hok
  | @served waited id floating uses replies e? hasked =>
    cases e? with
    | some e => cases hok
    | none =>
      refine ⟨id, ?_⟩
      apply List.mem_append_left
      apply List.mem_append_right
      apply List.mem_append_left
      exact List.mem_map_of_mem List.mem_cons_self

theorem FetchRequest.Reports.fits {r : FetchRequest} {fetch : FetchResult} {tag : String}
    (h : r.Reports fetch) (hok : fetch.error = none)
    (hfloating : fetch.floating = isFloatingTag tag) : fetch.Fits tag := by
  refine ⟨?_, ?_, ?_⟩
  · rw [hfloating]
    exact isFloatingTag_iff
  · intro hyes
    cases h with
    | failed text => cases hok
    | floating metadata => rfl
    | known tags hmajor => cases hyes
  · intro hno
    cases h with
    | failed text => cases hok
    | floating metadata => cases hno
    | known tags hmajor => rfl

variable {σ : Type} {service : Service σ} {settings : FetchSettings} {w w' : World σ}
  {entries : List (Limit.Ticket × Note)}

/-- What is fetched for a key fits its tag. -/
theorem FetchedFor.fits {k : Key} {result : FetchResult} (hservice : service.FloatsByName)
    (hdiary : Diary service w entries w') (h : FetchedFor settings entries k result)
    (hok : result.error = none) : result.Fits k.tag := by
  obtain @⟨t, r, said, response, before, hkey, hvisit, rfl, hnotes⟩ := h
  obtain ⟨-, -, htag, -, -⟩ := Key.mk.inj hkey
  rw [← show r.tag = k.tag from htag]
  refine hvisit.reports.fits hok ?_
  obtain ⟨id, hmem⟩ := hvisit.exists_floating hok
  have htold : Note.told ⟨.call id (.isFloating r.tag), response.result.floating⟩ ∈
      notesOf t entries := by
    rw [hnotes]
    apply List.mem_append_right
    apply List.mem_flatMap.mpr
    exact ⟨_, hmem, List.mem_cons_of_mem _ List.mem_cons_self⟩
  obtain ⟨s, hs⟩ := hdiary.exists_answer htold
  exact hs.trans (hservice id r.tag s)

/-! ## Checks -/

/-- **Fetches and decisions agree on floating tags.** A tag is floating by its name if and only if it
holds no version. So when the clients go by the name, each container is judged by a result that was
fetched for its key, and the decision, the result and the tag itself agree on whether the tag is
floating. -/
theorem checkContainers_floating :
    (∀ tag, isFloatingTag tag = true ↔ Version.ofTag? tag = none) ∧
    ∀ {σ : Type} (service : Service σ) (settings : FetchSettings) (containers : List Container)
      (w : World σ), service.FloatsByName → w.Rested →
      let lookup := prereleaseLookup settings containers
      let o := checkContainers service settings containers w
      ∃ entries, Diary service (w.grouped containers lookup) entries o.2 ∧
        List.Forall₂ (fun c check => ∃ result, FetchedFor settings entries (c.keyIn lookup) result ∧
          check.decision.trace.error = result.error ∧ check.decision.Floats c.tag result)
          containers o.1.checks := by
  refine ⟨fun tag => isFloatingTag_iff, ?_⟩
  intro σ service settings containers w hservice hr lookup o
  obtain ⟨entries, hdiary, hchecks⟩ := checkContainers_fetched service settings containers hr
  refine ⟨entries, hdiary, hchecks.imp ?_⟩
  rintro c check ⟨result, hfor, hverdict⟩
  refine ⟨result, hfor, ?_, ?_⟩
  · rw [hverdict.decision, error_decide]
  · rw [hverdict.decision]
    have hfits (hok : result.error = none) : result.Fits c.tag := hfor.fits hservice hdiary hok
    exact decide_floats hfits

/-- A floating name in capital letters gets another digest, and a version a newer tag. -/
theorem checkContainers_floating_latest :
    let network : Http.Network Unit := fun _ s =>
      (.response 200 [("Docker-Content-Digest", "sha256:b")]
        (.text "\x7b\"tags\":[\"1.0.0\",\"1.1.0\"]\x7d"), s)
    let service := Web.service {} network
    let containers : List Container :=
      [⟨"a", "a", "registry.test", "app", "LATEST", .minor, none, some "sha256:a"⟩,
        ⟨"b", "b", "registry.test", "app", "1.0.0", .minor, none, some "sha256:a"⟩]
    let w := World.fresh (.fresh ⟨[]⟩ 1) ⟨[], ()⟩
    let o := checkContainers service {} containers w
    (service.FloatsByName ∧ w.Rested) ∧
      o.1.checks.map (fun check => (check.decision.kind, check.decision.trace.floating)) =
        [(some .digest, true), (some .tag, false)] ∧
      ∃ entries, List.Forall₂ (fun c check => ∃ result,
        FetchedFor {} entries (c.keyIn (prereleaseLookup {} containers)) result ∧
        check.decision.Floats c.tag result) containers o.1.checks := by
  intro network service containers w o
  have hservice : service.FloatsByName := Web.service_floatsByName {} network
  have hr : w.Rested := World.rested_fresh _ _ _
  obtain ⟨entries, -, hchecks⟩ :=
    checkContainers_floating.2 service {} containers w hservice hr
  refine ⟨⟨hservice, hr⟩, by decide +kernel, entries, hchecks.imp ?_⟩
  rintro c check ⟨result, hfor, -, hfloats⟩
  exact ⟨result, hfor, hfloats⟩

end TagWatch
