import TagWatch.Client.Web
import TagWatch.Proofs.Client.Listing
import TagWatch.Proofs.Run.Instant

/-!
# A fetch works on one list of tags

A fetch asks the client for the distribution interface up to three questions about the tags of an
image: for all of them, for the newest one inside the scope and for the newest one of all. The
client lists the tags for the first question and answers the others from the list that it kept
(`does_choose`), whatever the registry would answer by then.

**Theorem (`fetch_snapshot`).** When a fetch of a tag that is not floating succeeds, both newest tags
are the ones chosen from the tags in its result. These tags are what one walk along the pages of
the list brought, and the network is left as this walk leaves it: nothing is sent afterwards.
-/

namespace TagWatch

open Http

variable {σ : Type}

/-! ## Answers of a client -/

namespace Distribution

variable {handler : Handler Request (fun _ => Except NetworkFailure Response) σ} {e : Endpoint}
  {image : String} {memory : Memory} {tags : List String}

/-- Questions about the newest tag are answered from the list that was kept. -/
theorem does_choose (h : memory.tags.get? image = some tags) (newest : List String → Option String)
    (s : σ) :
    (Interpreter.session handler).Does (choose e image newest) (memory, s) []
      (.ok (newest tags)) (memory, s) := by
  have hknown : (Interpreter.session handler).Does (knownTags e image) (memory, s) [] (.ok tags)
      (memory, s) := (Interpreter.does_get handler memory s).bind_pure (by simp only [h])
  exact hknown.bind_pure rfl

/-- A client that is closed forgets everything. -/
theorem does_close (memory : Memory) (s : σ) :
    (Interpreter.session handler).Does (answer e .close) (memory, s) [] () ({}, s) := ⟨rfl, rfl⟩

/-- A list that was kept is there. -/
theorem get?_keptAfter (image : String) (kept : Table String (List String)) (tags : List String) :
    (keptAfter image kept (.ok tags)).get? image = some tags := by
  rw [keptAfter, Table.get?_set, if_pos rfl]

end Distribution

/-! ## A fetch and its client -/

namespace Web

variable (f : Factory) (network : Network σ) {e : Endpoint} {memory memory' : Distribution.Memory}
  {id : ClientId} {n n' : σ} {s : State σ}

/-- What a client for the distribution interface says to the network. -/
abbrev talk : Interpreter Distribution.Session (Distribution.Memory × σ) Exchange :=
  .session fun r s => network.exchange r s

/-- A client for the distribution interface, with what it remembers, and the state of the
network. -/
structure Serving (id : ClientId) (e : Endpoint) (memory : Distribution.Memory) (n : σ)
    (s : State σ) : Prop where
  client : s.clients[id]? = some (.distribution e memory)
  network : s.network = n

theorem instant_service : (service f network).Instant := fun _ _ _ => rfl

/-- A client answers a call, and remembers what it learned. -/
theorem Serving.call (h : Serving id e memory n s) (call : Call) {said : List Exchange}
    {a : call.Answer}
    (hdoes : (talk network).Does (Distribution.answer e call) (memory, n) said a (memory', n')) :
    ∃ s', (service f network).handler (.call id call) s = (a, s') ∧
      Serving id e memory' n' s' := by
  obtain ⟨hclient, rfl⟩ := h
  have hget : s.clients.getD id (.make Registry.hub "" 1) = .distribution e memory := by
    rw [List.getD_eq_getElem?_getD, hclient]
    rfl
  have hsession : network.run ((Distribution.answer e call).run memory) s.network =
      ((a, memory'), n') := by
    have hrun := hdoes.run
    change (let ((a, memory), n) := network.run ((Distribution.answer e call).run memory) s.network
      (a, (memory, n))) = _ at hrun
    generalize network.run ((Distribution.answer e call).run memory) s.network = o at hrun ⊢
    obtain ⟨⟨a', memory''⟩, n''⟩ := o
    obtain ⟨rfl, hrest⟩ := Prod.ext_iff.mp hrun
    obtain ⟨rfl, rfl⟩ := Prod.ext_iff.mp hrest
    rfl
  have hrun : network.run ((WebClient.distribution e memory).answer call) s.network =
      ((a, .distribution e memory'), n') := by
    change Program.run _ _ _ = _ at hsession
    rw [Network.run, WebClient.answer, Program.run_bind, hsession]
    rfl
  refine ⟨⟨s.clients.set id (.distribution e memory'), n'⟩, ?_, ?_, rfl⟩
  · show answer network id call s = _
    rw [answer, hget, hrun]
  · rw [List.getElem?_set_self (List.getElem?_eq_some_iff.mp hclient).1]

/-! ## The questions of a fetch -/

open FetchProgram

variable {settings : FetchSettings} {r : FetchRequest}

/-- The first step of a program. -/
theorem run_ask {Q : Type} {A : Q → Type} {α τ : Type} {handler : Handler Q A τ} {q : Q} {a : A q}
    {s s' : τ} (h : handler q s = (a, s')) (next : A q → Program Q A α) :
    (Program.ask q next).run handler s = (next a).run handler s' := by
  rw [Program.run, h]

/-- The client is asked for all tags first, and then for the newest one inside the scope. -/
theorem Serving.askTags (h : Serving id e memory n s)
    {listing : Except RegistryError (List String × Option String)} {s' : State σ}
    (hrun : (askTags settings id r).run (service f network).handler s = (listing, s')) :
    (∃ error, listing = .error error) ∨ ∃ tags visits memory₁ n',
      listing = .ok (tags, latestInScope r.tag tags r.scope r.prereleases) ∧
      Walk (talk network) (Distribution.page e r.image) e.maxPages
        (Distribution.listUrl e r.image) (memory, n) visits (memory₁, n') ∧
      outcome visits = .ok tags ∧
      ∃ memory', memory'.tags.get? r.image = some tags ∧ Serving id e memory' n' s' := by
  obtain ⟨s₁, huses, h₁⟩ := h.call f network .usesTagCache
    ((talk network).does_pure true (memory, n))
  obtain ⟨visits, memory₁, n', hwalk, -, -, -, hdoes⟩ :=
    Distribution.allTags_walk (fun r s => network.exchange r s) e r.image memory n
  obtain ⟨s₂, hall, h₂⟩ := h₁.call f network (.allTags r.image) hdoes
  replace hrun := (run_ask huses _).symm.trans hrun
  replace hrun := (run_ask hall _).symm.trans hrun
  cases houtcome : outcome visits with
  | error error =>
    rw [houtcome] at hrun
    exact .inl ⟨error, (Prod.ext_iff.mp hrun).1.symm⟩
  | ok tags =>
    rw [houtcome] at hrun h₂
    have hkept := Distribution.get?_keptAfter r.image memory.tags tags
    obtain ⟨s₃, hlatest, h₃⟩ := h₂.call f network
      (.latest r.image r.tag r.scope r.digest r.prereleases) (Distribution.does_choose hkept _ n')
    replace hrun := (run_ask hlatest _).symm.trans hrun
    obtain ⟨rfl, rfl⟩ := Prod.ext_iff.mp hrun
    exact .inr ⟨tags, visits, memory₁, n', rfl, hwalk, houtcome, _, hkept, h₃⟩

/-- The newest tag of all is chosen from the list that was kept. -/
theorem Serving.askOverall (h : Serving id e memory n s) {tags : List String}
    (hkept : memory.tags.get? r.image = some tags) :
    ∃ s', (askOverall id r (latestInScope r.tag tags r.scope r.prereleases)).run
        (service f network).handler s =
          (TagWatch.latestOverall r.tag tags r.prereleases, s') ∧
      Serving id e memory n s' := by
  rw [FetchProgram.askOverall]
  by_cases hmajor : r.scope = .major
  · rw [if_pos hmajor, hmajor]
    exact ⟨s, rfl, h⟩
  · rw [if_neg hmajor]
    obtain ⟨s', hoverall, h'⟩ := h.call f network (.latestOverall r.image r.tag r.prereleases)
      (Distribution.does_choose hkept _ n)
    exact ⟨s', run_ask hoverall _, h'⟩

/-- What a fetch of a tag that is not floating asks its client. -/
theorem Serving.askClient (h : Serving id e memory n s) (htag : isFloatingTag r.tag = false)
    {result : Except RegistryError FetchResult} {s' : State σ}
    (hrun : (askClient settings id r).run (service f network).handler s = (result, s')) :
    (∃ error, result = .error error) ∨ ∃ tags visits memory₁ n',
      result = .ok (.success tags (latestInScope r.tag tags r.scope r.prereleases)
        (TagWatch.latestOverall r.tag tags r.prereleases) none) ∧
      Walk (talk network) (Distribution.page e r.image) e.maxPages
        (Distribution.listUrl e r.image) (memory, n) visits (memory₁, n') ∧
      outcome visits = .ok tags ∧ ∃ memory', Serving id e memory' n' s' := by
  obtain ⟨s₁, hfloating, h₁⟩ := h.call f network (.isFloating r.tag)
    ((talk network).does_pure (isFloatingTag r.tag) (memory, n))
  rw [htag] at hfloating
  replace hrun := (run_ask hfloating _).symm.trans hrun
  change ((FetchProgram.askTags settings id r) >>= _).run (service f network).handler s₁ = _ at hrun
  rw [Program.run_bind] at hrun
  generalize hlisting : (FetchProgram.askTags settings id r).run (service f network).handler s₁ = o
    at hrun
  obtain ⟨listing, s₂⟩ := o
  rcases h₁.askTags f network hlisting with ⟨error, rfl⟩ |
    ⟨tags, visits, memory₁, n', rfl, hwalk, houtcome, memory', hkept, h₂⟩
  · exact .inl ⟨error, (Prod.ext_iff.mp hrun).1.symm⟩
  · obtain ⟨s₃, hoverall, h₃⟩ := h₂.askOverall f network hkept
    change ((FetchProgram.askOverall id r _) >>= _).run (service f network).handler s₂ = _ at hrun
    rw [Program.run_bind, hoverall] at hrun
    obtain ⟨rfl, rfl⟩ := Prod.ext_iff.mp hrun
    exact .inr ⟨tags, visits, memory₁, n', rfl, hwalk, houtcome, memory', h₃⟩

/-- A client is made, asked and closed. -/
theorem askRegistry_snapshot {registry : String}
    (hclient : f.make registry = .ok (.distribution e memory)) (htag : isFloatingTag r.tag = false)
    {result : Except RegistryError FetchResult} {s' : State σ}
    (hrun : (askRegistry settings registry r).run (service f network).handler s = (result, s')) :
    (∃ error, result = .error error) ∨ ∃ tags visits memory₁,
      result = .ok (.success tags (latestInScope r.tag tags r.scope r.prereleases)
        (TagWatch.latestOverall r.tag tags r.prereleases) none) ∧
      Walk (talk network) (Distribution.page e r.image) e.maxPages
        (Distribution.listUrl e r.image) (memory, s.network) visits (memory₁, s'.network) ∧
      outcome visits = .ok tags := by
  let s₁ : State σ := { s with clients := s.clients ++ [.distribution e memory] }
  have hconnect : (service f network).handler (.connect registry) s = (.ok s.clients.length, s₁) := by
    show connect f registry s = _
    rw [connect, hclient]
    rfl
  have h₁ : Serving s.clients.length e memory s.network s₁ :=
    ⟨List.getElem?_concat_length, rfl⟩
  replace hrun := (run_ask hconnect _).symm.trans hrun
  change ((FetchProgram.askClient settings s.clients.length r) >>= _).run
    (service f network).handler s₁ = _ at hrun
  rw [Program.run_bind] at hrun
  generalize hasked :
    (FetchProgram.askClient settings s.clients.length r).run (service f network).handler s₁ = o
    at hrun
  obtain ⟨answered, s₂⟩ := o
  -- Whatever the client answered, it is closed after that.
  have hanswered : answered = result := (Prod.ext_iff.mp hrun).1
  subst hanswered
  rcases h₁.askClient f network htag hasked with ⟨error, rfl⟩ |
    ⟨tags, visits, memory₁, n', rfl, hwalk, houtcome, memory', h₂⟩
  · exact .inl ⟨error, rfl⟩
  · obtain ⟨s₃, hclose, h₃⟩ := h₂.call f network .close (Distribution.does_close memory' n')
    replace hrun := (run_ask hclose _).symm.trans hrun
    obtain ⟨-, rfl⟩ := Prod.ext_iff.mp hrun
    exact .inr ⟨tags, visits, memory₁, rfl, h₃.network ▸ hwalk, houtcome⟩

end Web

/-- **A fetch works on one list of tags**, whatever the network does. -/
theorem fetch_snapshot (f : Web.Factory) (network : Network σ) (settings : FetchSettings)
    (inRun : Bool) (r : FetchRequest) (w w' : World (Web.State σ)) (response : FetchResponse)
    {e : Endpoint} {memory : Distribution.Memory}
    (hclient : f.make r.key.registry = .ok (.distribution e memory))
    (htag : isFloatingTag r.tag = false)
    (hrun : Pool.run (Web.service f network) [.fetch settings inRun r] w = ([some response], w'))
    (hanew : response.cacheHit = false) (hok : response.result.error = none) :
    response.result.latest =
        latestInScope r.tag response.result.tags r.scope r.prereleases ∧
      response.result.latestOverall =
        latestOverall r.tag response.result.tags r.prereleases ∧
      ∃ visits memory',
        Walk (.session fun r s => network.exchange r s) (Distribution.page e r.image) e.maxPages
          (Distribution.listUrl e r.image) (memory, w.service.network) visits
          (memory', w'.service.network) ∧
        outcome visits = .ok response.result.tags := by
  have halone := Pool.run_alone (Web.instant_service f network) hrun
  rw [hanew] at halone
  obtain ⟨waited, hafter⟩ := halone.resolve_left Bool.false_ne_true
  rw [FetchProgram.afterPermit, Program.run_bind] at hafter
  generalize hregistry : (FetchProgram.askRegistry settings r.key.registry r).run
    (Web.service f network).handler w.service = o at hafter
  obtain ⟨result, s⟩ := o
  rcases Web.askRegistry_snapshot f network hclient htag hregistry with ⟨error, rfl⟩ |
    ⟨tags, visits, memory', rfl, hwalk, houtcome⟩
  · obtain ⟨rfl, -⟩ := Prod.ext_iff.mp hafter
    cases hok
  · have hend : (⟨.success tags (latestInScope r.tag tags r.scope r.prereleases)
        (latestOverall r.tag tags r.prereleases) none, false, waited⟩, s) =
        (response, w'.service) := by
      cases inRun with
      | true => exact hafter
      | false => exact hafter
    obtain ⟨hresponse, hs⟩ := Prod.mk.inj hend
    subst hresponse hs
    exact ⟨rfl, rfl, visits, memory', hwalk, houtcome⟩

/-- A network that counts requests has counted one when a list has a single page. -/
theorem fetch_snapshot_counted :
    let network : Network Nat := fun _ n =>
      (.response 200 [] (.text "\x7b\"tags\":[\"1.2.3\",\"1.2.4\",\"2.0.0\"]\x7d"), n + 1)
    let r : FetchRequest := ⟨"registry.test", "app", "1.2.3", .patch, false, none⟩
    let w : World (Web.State Nat) := .fresh (.fresh ⟨[]⟩ 1) ⟨[], 0⟩
    let w' := (Pool.run (Web.service {} network) [.fetch {} false r] w).2
    latestInScope "1.2.3" ["1.2.3", "1.2.4", "2.0.0"] .patch false = some "1.2.4" ∧
      latestOverall "1.2.3" ["1.2.3", "1.2.4", "2.0.0"] false = some "2.0.0" ∧
      w'.service.network = 1 ∧
      ∃ visits memory',
        Walk (.session fun r s => network.exchange r s)
          (Distribution.page (.make "https://registry.test" 10) "app") 10
          (Distribution.listUrl (.make "https://registry.test" 10) "app") ({}, 0) visits
          (memory', w'.service.network) ∧
        outcome visits = .ok ["1.2.3", "1.2.4", "2.0.0"] := by
  intro network r w w'
  let response : FetchResponse :=
    ⟨.success ["1.2.3", "1.2.4", "2.0.0"] (some "1.2.4") (some "2.0.0") none, false, 0⟩
  have hrun : Pool.run (Web.service {} network) [.fetch {} false r] w = ([some response], w') :=
    Prod.ext (by decide +kernel) rfl
  have hclient : ({} : Web.Factory).make r.key.registry =
      .ok (.distribution (.make "https://registry.test" 10) {}) := by decide +kernel
  obtain ⟨hlatest, hoverall, hwalk⟩ := fetch_snapshot {} network {} false r w w' response
    hclient (by decide +kernel) hrun rfl rfl
  exact ⟨hlatest.symm, hoverall.symm, by decide +kernel, hwalk⟩

end TagWatch
