import TagWatch.Proofs.Client.Answer
import TagWatch.Client.Web

/-!
# Lists of tags, whatever the servers do

Both kinds of client list the tags of an image page by page. Written with one page as a step of
its own (`Hub.page`, `Distribution.page`), their loops are the same `follow`, so that what holds
of every walk holds of both.

A page costs the client for Docker Hub one request. It costs the client for the distribution
interface one round of at most three (`Round`): the request, when that is challenged a request for
a token, and when a token is handed out the request once more. Only a list that was read without a
failure is kept.
-/

namespace TagWatch

open Http

variable {σ : Type} (handler : Handler Request (fun _ => Except NetworkFailure Response) σ)

/-! ## Docker Hub -/

namespace Hub

/-- One page of a list of tags. -/
def page (image url : String) : HttpProgram (Except RegistryError (Page HubTag)) := do
  match ← fetchJson TagPage.ofJson? url image with
  | .error e => return .error e
  | .ok here => return .ok ⟨here.tags, here.next⟩

theorem listPages_eq_follow (image : String) (pages : Nat) (url : String) (found : List HubTag) :
    listPages image pages url found = follow (page image) pages url found := by
  induction pages generalizing url found with
  | zero => rfl
  | succ pages ih =>
    rw [listPages, follow, page, bind_assoc]
    refine bind_congr fun answer => ?_
    rcases answer with e | ⟨_ | next, tags⟩
    · rfl
    · rfl
    · exact ih next (found ++ tags)

section Pages

variable (image : String) {url : String} {answer : Except NetworkFailure Response} {s s' : σ}

/-- A value at an address costs one request, and is what is received with the answer. -/
theorem does_fetchJson {α : Type} (read : Json → Option α)
    (hanswer : handler ⟨.get, url, none, none⟩ s = (answer, s')) :
    (Interpreter.http handler).Does (fetchJson read url image) s
      [⟨⟨.get, url, none, none⟩, answer⟩] (received image read answer) s' := by
  refine (Interpreter.does_send handler hanswer).bind_pure ?_
  cases answer <;> rfl

/-- A page costs one request, and is what is received with the answer. -/
theorem does_page (hanswer : handler ⟨.get, url, none, none⟩ s = (answer, s')) :
    (Interpreter.http handler).Does (page image url) s [⟨⟨.get, url, none, none⟩, answer⟩]
      (received image readPage answer) s' := by
  refine (does_fetchJson handler image TagPage.ofJson? hanswer).bind_pure ?_
  rw [received_readPage]
  cases received image TagPage.ofJson? answer <;> rfl

end Pages

theorem page_spec (image url : String) (s : σ) :
    ∃ answer s', (Interpreter.http handler).Does (page image url) s
      [⟨⟨.get, url, none, none⟩, answer⟩] (received image readPage answer) s' :=
  ⟨_, _, does_page handler image rfl⟩

/-- A page is asked for with one request, and brings what is received with the answer. -/
def Asked (image : String) (v : Visit HubTag Exchange) : Prop :=
  ∃ answer, v.said = [⟨⟨.get, v.url, none, none⟩, answer⟩] ∧
    v.brought = received image readPage answer

theorem asked_of_does {image url : String} {said : List Exchange}
    {brought : Except RegistryError (Page HubTag)} {s s' : σ}
    (h : (Interpreter.http handler).Does (page image url) s said brought s') :
    Asked image ⟨url, brought, said⟩ := by
  obtain ⟨answer, _, hpage⟩ := page_spec handler image url s
  exact ⟨answer, h.said.symm.trans hpage.said, congrArg Prod.fst (h.run.symm.trans hpage.run)⟩

end Hub

/-! ## The distribution interface -/

namespace Distribution

/-- One page of a list of tags. -/
def page (e : Endpoint) (image url : String) : Session (Except RegistryError (Page String)) := do
  match ← send .get url "application/json" image with
  | .error e => return .error e
  | .ok response =>
    match response.content image readTagList with
    | .error e => return .error e
    | .ok tags =>
      return .ok
        ⟨tags.getD [], ((response.header? "link").bind Link.next?).map (linkUrl e)⟩

theorem listPages_eq_follow (e : Endpoint) (image : String) (pages : Nat) (url : String)
    (found : List String) :
    listPages e image pages url found = follow (page e image) pages url found := by
  induction pages generalizing url found with
  | zero => rfl
  | succ pages ih =>
    rw [listPages, follow, page, bind_assoc]
    refine bind_congr fun answer => ?_
    rcases answer with error | response
    · rfl
    · simp only
      rcases response.content image readTagList with error | tags
      · rfl
      · rcases (response.header? "link").bind Link.next? with _ | link
        · rfl
        · exact ih (linkUrl e link) (found ++ tags.getD [])

/-- What is said to get one response: the request; when it is challenged, a request for a token
as well; and when a token is handed out, the request once more with it. No further challenge is
answered. -/
inductive Round (method : Method) (url accept image : String) :
    List Exchange → Except RegistryError Response → Prop
  | plain {token : Option String} {answer : Except NetworkFailure Response} :
    (∀ response, answer = .ok response → ∀ c, ¬ Challenges c response) →
      Round method url accept image [⟨⟨method, url, some accept, token⟩, answer⟩]
        (answer.mapError .network)
  /-- No token is handed out. -/
  | denied {token : Option String} {response : Response} {c : Challenge}
      {answer : Except NetworkFailure Response} {e : RegistryError} :
    Challenges c response → Handed image answer (.error e) →
      Round method url accept image
        [⟨⟨method, url, some accept, token⟩, .ok response⟩,
          ⟨⟨.get, c.tokenUrl image, none, none⟩, answer⟩]
        (.error e)
  /-- A token is handed out. -/
  | renewed {token : Option String} {response : Response} {c : Challenge} {handed : String}
      {grant answer : Except NetworkFailure Response} :
    Challenges c response → Handed image grant (.ok handed) →
      Round method url accept image
        [⟨⟨method, url, some accept, token⟩, .ok response⟩,
          ⟨⟨.get, c.tokenUrl image, none, none⟩, grant⟩,
          ⟨⟨method, url, some accept, some handed⟩, answer⟩]
        (answer.mapError .network)

namespace Round

variable {method : Method} {url accept image : String} {said : List Exchange}
  {got : Except RegistryError Response}

theorem length_le (h : Round method url accept image said got) : said.length ≤ 3 := by
  cases h <;> simp

/-- The response is the last answer. -/
theorem last {response : Response} (h : Round method url accept image said (.ok response)) :
    ∃ request, said.getLast? = some ⟨request, .ok response⟩ := by
  generalize hgot : Except.ok response = got at h
  cases h with
  | @plain _ answer _ | @renewed _ _ _ _ _ answer _ _ =>
    cases answer with
    | error failure => cases hgot
    | ok last =>
      obtain rfl := Except.ok.inj hgot
      exact ⟨_, rfl⟩
  | denied => cases hgot

end Round

/-- A request for a token is one request and leaves the memory as it is. -/
theorem fetchToken_spec (c : Challenge) (image : String) (memory : Memory) (s : σ) :
    ∃ answer result s', (Interpreter.session handler).Does (fetchToken c image) (memory, s)
        [⟨⟨.get, c.tokenUrl image, none, none⟩, answer⟩] result (memory, s') ∧
      Handed image answer result := by
  rcases hanswer : handler ⟨.get, c.tokenUrl image, none, none⟩ s with ⟨answer, s'⟩
  have hexchange := Interpreter.does_exchange handler memory hanswer
  have hbrings : Brings image IsToken answer (received image readToken answer) :=
    (received_eq_iff readToken_eq_some_iff).mp rfl
  rcases answer with failure | response
  · exact ⟨_, .error (.network failure), s', hexchange.bind_pure rfl, .failed hbrings⟩
  · rcases hcontent : response.content image readToken with e | _ | token
    · exact ⟨_, .error e, s', hexchange.bind_pure (by simp only [hcontent]),
        .failed (hcontent ▸ hbrings)⟩
    · exact ⟨_, _, s', hexchange.bind_pure (by simp only [hcontent]),
        .withheld (hcontent ▸ hbrings)⟩
    · exact ⟨_, .ok token, s', hexchange.bind_pure (by simp only [hcontent]),
        .token (hcontent ▸ hbrings)⟩

/-- A response costs one round of requests, and getting it leaves the lists of tags as they are. -/
theorem send_spec (method : Method) (url accept image : String) (memory : Memory) (s : σ) :
    ∃ said result memory' s', (Interpreter.session handler).Does (send method url accept image)
        (memory, s) said result (memory', s') ∧
      Round method url accept image said result ∧ memory'.tags = memory.tags := by
  let request : Request := ⟨method, url, some accept, memory.tokens.get? image⟩
  rcases hanswer : handler request s with ⟨answer, s₁⟩
  have hfirst := Interpreter.does_exchange handler memory hanswer
  have hget := Interpreter.does_get handler memory s
  rcases answer with failure | response
  · exact ⟨_, .error (.network failure), memory, s₁, hget.bind (hfirst.bind_pure rfl),
      .plain (by simp), rfl⟩
  rcases hchallenge : challenge? response with _ | c
  · refine ⟨_, .ok response, memory, s₁, hget.bind (hfirst.bind_pure ?_), .plain ?_, rfl⟩
    · simp only [hchallenge]
    · rintro _ ⟨⟩ c hc
      rw [challenge?_eq_some_iff.mpr hc] at hchallenge
      cases hchallenge
  obtain ⟨handed, result, s₂, hfetch, hhanded⟩ := fetchToken_spec handler c image memory s₁
  rcases result with e | token
  · refine ⟨[⟨request, .ok response⟩, ⟨⟨.get, c.tokenUrl image, none, none⟩, handed⟩], .error e,
      memory, s₂, hget.bind (hfirst.bind ?_),
      .denied (challenge?_eq_some_iff.mp hchallenge) hhanded, rfl⟩
    simp only [hchallenge]
    exact hfetch.bind_pure rfl
  · let kept : Memory := { memory with tokens := memory.tokens.set image token }
    rcases hlast : handler ⟨method, url, some accept, some token⟩ s₂ with ⟨answer, s₃⟩
    have hmodify := Interpreter.does_modify handler
      (fun m => { m with tokens := m.tokens.set image token }) memory s₂
    have hagain := Interpreter.does_exchange handler kept hlast
    refine ⟨[⟨request, .ok response⟩, ⟨⟨.get, c.tokenUrl image, none, none⟩, handed⟩,
      ⟨⟨method, url, some accept, some token⟩, answer⟩], answer.mapError .network, kept, s₃,
      hget.bind (hfirst.bind ?_), .renewed (challenge?_eq_some_iff.mp hchallenge) hhanded, rfl⟩
    simp only [hchallenge]
    refine hfetch.bind (hmodify.bind (hagain.bind_pure ?_))
    cases answer <;> rfl

/-- The round of requests for one page. -/
abbrev PageRound (image url : String) : List Exchange → Except RegistryError Response → Prop :=
  Round .get url "application/json" image

/-- The page in a response. -/
def pageIn (e : Endpoint) (image : String) (r : Response) : Except RegistryError (Page String) :=
  (r.content image readTagList).map fun tags =>
    ⟨tags.getD [], ((r.header? "link").bind Link.next?).map (linkUrl e)⟩

/-- A next page is named by the link of an answer to a request for this one. -/
def NamesNext (e : Endpoint) (said : List Exchange) (next : String) : Prop :=
  ∃ request response link, (⟨request, .ok response⟩ : Exchange) ∈ said ∧
    (response.header? "link").bind Link.next? = some link ∧ next = linkUrl e link

/-- A page costs a round of requests, and is the one in the response. -/
theorem page_spec (e : Endpoint) (image url : String) (memory : Memory) (s : σ) :
    ∃ said got memory' s', (Interpreter.session handler).Does (page e image url) (memory, s) said
        (got.bind (pageIn e image)) (memory', s') ∧
      PageRound image url said got ∧ memory'.tags = memory.tags := by
  obtain ⟨said, got, memory', s', hsend, hround, htags⟩ :=
    send_spec handler .get url "application/json" image memory s
  refine ⟨said, got, memory', s', hsend.bind_pure ?_, hround, htags⟩
  rcases got with error | response
  · rfl
  · simp only [Except.bind, pageIn]
    cases response.content image readTagList <;> rfl

/-- A page is asked for with a round of requests, and brings the one in the response. -/
def Asked (e : Endpoint) (image : String) (v : Visit String Exchange) : Prop :=
  ∃ got, PageRound image v.url v.said got ∧ v.brought = got.bind (pageIn e image)

theorem asked_of_does {e : Endpoint} {image url : String} {said : List Exchange}
    {brought : Except RegistryError (Page String)} {s s' : Memory × σ}
    (h : (Interpreter.session handler).Does (page e image url) s said brought s') :
    Asked e image ⟨url, brought, said⟩ := by
  obtain ⟨said', got, _, _, hpage, hround, -⟩ := page_spec handler e image url s.1 s.2
  obtain rfl : said' = said := hpage.said.symm.trans h.said
  exact ⟨got, hround, congrArg Prod.fst (h.run.symm.trans hpage.run)⟩

/-- The next page is the one that the last answer names. -/
theorem Asked.next {e : Endpoint} {image : String} {v : Visit String Exchange} {here : Page String}
    (h : Asked e image v) (hhere : v.brought = .ok here) :
    ∃ request response, v.said.getLast? = some ⟨request, .ok response⟩ ∧
      here.next = ((response.header? "link").bind Link.next?).map (linkUrl e) := by
  obtain ⟨got, hround, hbrought⟩ := h
  rw [hhere] at hbrought
  cases got with
  | error error => cases hbrought
  | ok response =>
    obtain ⟨request, hlast⟩ := hround.last
    refine ⟨request, response, hlast, ?_⟩
    change Except.ok here = pageIn e image response at hbrought
    unfold pageIn at hbrought
    cases hcontent : response.content image readTagList with
    | error error =>
      rw [hcontent] at hbrought
      cases hbrought
    | ok tags =>
      rw [hcontent] at hbrought
      rw [Except.ok.inj hbrought]

/-- The lists that are kept once a list was asked for: a list is kept when there is one. -/
def keptAfter (image : String) (tags : Table String (List String)) :
    Except RegistryError (List String) → Table String (List String)
  | .ok list => tags.set image list
  | .error _ => tags

/-- **To list tags is to walk along their pages**, with one round of requests for each. The list is
kept, unless a page failed. -/
theorem allTags_walk (e : Endpoint) (image : String) (memory : Memory) (s : σ) :
    ∃ visits memory' s',
      Walk (.session handler) (page e image) e.maxPages (listUrl e image) (memory, s) visits
        (memory', s') ∧
      visits.length ≤ e.maxPages ∧ (∀ v ∈ visits, Asked e image v) ∧
      memory'.tags = memory.tags ∧
      (Interpreter.session handler).Does (allTags e image) (memory, s) (visits.flatMap Visit.said)
        (outcome visits)
        ({ memory' with tags := keptAfter image memory.tags (outcome visits) }, s') := by
  obtain ⟨visits, ⟨memory', s'⟩, h, hlength, hdoes⟩ :=
    follow_walk (.session handler) (page e image) e.maxPages (listUrl e image) (memory, s)
  rw [← listPages_eq_follow] at hdoes
  have htags : memory'.tags = memory.tags := by
    refine h.keeps (fun s => s.1.tags) fun url s => ?_
    obtain ⟨_, _, _, _, hpage, -, htags⟩ := page_spec handler e image url s.1 s.2
    rw [hpage.run]
    exact htags
  refine ⟨visits, memory', s', h, hlength, h.forall_visit (asked_of_does handler), htags, ?_⟩
  rcases houtcome : outcome visits with error | tags
  · rw [houtcome] at hdoes
    rw [keptAfter, ← htags]
    exact hdoes.bind_pure rfl
  · rw [houtcome] at hdoes
    rw [keptAfter, ← htags, ← List.append_nil (visits.flatMap _)]
    exact hdoes.bind ((Interpreter.does_modify handler _ memory' s').bind_pure rfl)

end Distribution

end TagWatch
