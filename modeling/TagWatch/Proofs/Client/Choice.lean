import TagWatch.Client.Web
import TagWatch.Proofs.Fetch.Conversation
import TagWatch.Proofs.Version.Selection

/-!
# Clients choose from lists of tags

**Theorem (`Web.service_chooses`).** Whatever the network does, an answer about a newest tag is the
tag that is chosen from some list for the current tag, the scope and the choice about prereleases in
the question, or an error.

So a client that is asked for no prereleases proposes none for a tag that is none
(`latestInScope_stable`).
-/

namespace TagWatch

open Http

/-! ## Tags without a prerelease -/

/-- A tag that holds no prerelease of a version. -/
def IsStable (tag : String) : Prop :=
  ∀ v, Version.ofTag? tag = some v → v.isPrerelease = false

instance (tag : String) : Decidable (IsStable tag) :=
  decidable_of_iff ((Version.ofTag? tag).all (!·.isPrerelease) = true) <| by
    cases h : Version.ofTag? tag <;> simp [IsStable, h]

/-- Without prereleases, none is chosen for a tag that is none. -/
theorem latestInScope_stable {currentTag tag : String} {tags : List String} {scope : Level}
    (h : latestInScope currentTag tags scope false = some tag) (hstable : IsStable currentTag) :
    IsStable tag := by
  intro v hv
  cases hc : Version.ofTag? currentTag with
  | none =>
    rw [latestInScope, hc] at h
    cases h
  | some current =>
    obtain ⟨-, w, hw, helig, -⟩ := latestInScope_spec hc h
    obtain rfl : v = w := Option.some.inj (hv.symm.trans hw)
    apply Bool.eq_false_iff.mpr
    intro hpre
    rcases helig.allowed hpre with hasked | hcurrent
    · cases hasked
    · rw [hstable current hc] at hcurrent
      cases hcurrent

/-! ## Choices -/

/-- An answer that is no error is chosen from some list of tags. -/
def IsChoice (choose : List String → Option String) (a : Except RegistryError (Option String)) :
    Prop :=
  ∀ newest, a = .ok newest → ∃ tags, newest = choose tags

/-- A newest tag that is told is the one that is chosen from some list for the question. -/
def Reply.Chosen : Reply → Prop
  | ⟨.latest _ tag scope _ prereleases, a⟩ =>
    IsChoice (fun tags => latestInScope tag tags scope prereleases) a
  | ⟨.latestOverall _ tag prereleases, a⟩ =>
    IsChoice (fun tags => latestOverall tag tags prereleases) a
  | _ => True

/-- The clients of a service choose the newest tags that they tell. -/
def Service.Chooses {σ : Type} (service : Service σ) : Prop :=
  ∀ id call s, Reply.Chosen ⟨call, (service.answer id call s).1⟩

theorem isChoice_error (choose : List String → Option String) (e : RegistryError) :
    IsChoice choose (.error e) := fun _ h => nomatch h

theorem isChoice_ok (choose : List String → Option String) (tags : List String) :
    IsChoice choose (.ok (choose tags)) := fun _ h => ⟨tags, (Except.ok.inj h).symm⟩

variable {σ : Type} (handler : Handler Request (fun _ => Except NetworkFailure Response) σ)
  (e : Endpoint) (image tag : String) (scope : Level) (prereleases : Bool) (s : σ)

theorem Hub.isChoice_latest : IsChoice (fun tags => latestInScope tag tags scope prereleases)
    ((Hub.latest e image tag scope prereleases).run handler s).1 := by
  rw [Hub.latest, Program.run_bind]
  rcases ((Hub.listTags e image (Hub.scopeFilter tag scope)).run handler s).1 with error | tags
  · exact isChoice_error _ error
  · exact isChoice_ok _ tags

theorem Hub.isChoice_latestOverall :
    IsChoice (fun tags => TagWatch.latestOverall tag tags prereleases)
      ((Hub.latestOverall e image tag prereleases).run handler s).1 := by
  rw [Hub.latestOverall, Program.run_bind]
  rcases ((Hub.listTags e image none).run handler s).1 with error | tags
  · exact isChoice_error _ error
  · exact isChoice_ok _ tags

/-- A client that looks into its list of tags chooses from it. -/
theorem Distribution.isChoice_choose (choose : List String → Option String)
    (memory : Distribution.Memory) :
    IsChoice choose (((Distribution.choose e image choose).run memory).run handler s).1.1 := by
  rw [Distribution.choose, StateT.run_bind, Program.run_bind]
  rcases (((Distribution.knownTags e image).run memory).run handler s).1 with
    ⟨error | tags, memory'⟩
  · exact isChoice_error _ error
  · exact isChoice_ok _ tags

theorem Hub.chosen_answer (call : Call) :
    Reply.Chosen ⟨call, ((Hub.answer e call).run handler s).1⟩ := by
  cases call with
  | latest image tag scope digest prereleases =>
    exact Hub.isChoice_latest handler e image tag scope prereleases s
  | latestOverall image tag prereleases =>
    exact Hub.isChoice_latestOverall handler e image tag prereleases s
  | _ => trivial

theorem Distribution.chosen_answer (call : Call) (memory : Distribution.Memory) :
    Reply.Chosen ⟨call, (((Distribution.answer e call).run memory).run handler s).1.1⟩ := by
  cases call with
  | latest image tag scope digest prereleases =>
    exact Distribution.isChoice_choose handler e image s _ memory
  | latestOverall image tag prereleases =>
    exact Distribution.isChoice_choose handler e image s _ memory
  | _ => trivial

/-- **Clients choose from lists of tags**, whatever the network does. -/
theorem Web.service_chooses (f : Web.Factory) (network : Network σ) :
    (Web.service f network).Chooses := by
  intro id call s
  show Reply.Chosen ⟨call, (Web.answer network id call s).1⟩
  rw [Web.answer]
  cases s.clients.getD id (.make Registry.hub "" 1) with
  | hub e =>
    have h := Hub.chosen_answer (fun r s => network.exchange r s) e s.network call
    rw [Network.run, WebClient.answer, Program.run_bind]
    exact h
  | distribution e memory =>
    have h := Distribution.chosen_answer (fun r s => network.exchange r s) e s.network call memory
    rw [Network.run, WebClient.answer, Program.run_bind]
    exact h

end TagWatch
