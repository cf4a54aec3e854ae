import TagWatch.Client.Web
import TagWatch.Proofs.Client.Listing
import TagWatch.Proofs.Http.Origin

/-!
# Where a client takes its credentials

A client for the distribution interface keeps the token of an image and sends it with every request
about the image. Where it sends these requests, the server has a say in: it names the pages of a list
and the place to ask for a token.

**Theorem (`authorization_stays`).** A request with credentials goes to the scheme, host and socket
of the registry's address, whatever the servers answer, but for two kinds of request. A page that was
named by a link which does not begin with a slash gets the token wherever the link leads. A request
for a token carries no token, but the login that stands in the address it was told to ask at.

Each request of a transcript is justified by the answers before it (`Justified`), which is shown
along the walk from page to page (`follows_walk`). What begins with the address of the registry and a
slash stays on its server (`origin_below`). With other links the token is sent to foreign servers
(`token_sent_elsewhere`).
-/

namespace TagWatch.Distribution

open Http

/-! ## Justified requests -/

/-- The address of a request about an image: it lies below the address of the registry, or an earlier
answer named it as the next page. -/
inductive Named (e : Endpoint) (before : List Exchange) : String → Prop where
  | below (rest : List Char) : Named e before (e.baseUrl ++ String.ofList ('/' :: rest))
  | linked {url : String} : NamesNext e before url → Named e before url

/-- A request is about an image, or asks for a token because an earlier answer told to. -/
inductive Justified (e : Endpoint) (before : List Exchange) (r : Request) : Prop where
  | named : Named e before r.url → Justified e before r
  | token {request : Request} {response : Response} {c : Challenge} {image : String} :
    (⟨request, .ok response⟩ : Exchange) ∈ before → challenge? response = some c →
      r = ⟨.get, c.tokenUrl image, none, none⟩ → Justified e before r

/-- Every request of a transcript is justified by what was said before it. -/
inductive Follows (e : Endpoint) : List Exchange → List Exchange → Prop where
  | nil (before : List Exchange) : Follows e before []
  | cons {before rest : List Exchange} {x : Exchange} : Justified e before x.1 →
    Follows e (before ++ [x]) rest → Follows e before (x :: rest)

section Follows

variable {e : Endpoint} {before before' said said' : List Exchange} {url : String}

theorem NamesNext.mono (h : NamesNext e before url) (hsub : before ⊆ before') :
    NamesNext e before' url := by
  obtain ⟨request, response, link, hmem, hlink, rfl⟩ := h
  exact ⟨request, response, link, hsub hmem, hlink, rfl⟩

theorem Named.mono (h : Named e before url) (hsub : before ⊆ before') : Named e before' url := by
  cases h with
  | below rest => exact .below rest
  | linked hnext => exact .linked (hnext.mono hsub)

theorem Follows.append (h : Follows e before said) (h' : Follows e (before ++ said) said') :
    Follows e before (said ++ said') := by
  induction h with
  | nil before => rwa [List.append_nil] at h'
  | cons hx _ ih =>
    refine .cons hx (ih ?_)
    rwa [List.append_assoc, List.singleton_append]

/-- Each request of a transcript has its own reason. -/
theorem Follows.justified {x : Exchange} {after : List Exchange}
    (h : Follows e before (said ++ x :: after)) : Justified e (before ++ said) x.1 := by
  induction said generalizing before with
  | nil =>
    cases h with
    | cons hx _ => rwa [List.append_nil]
  | cons y said ih =>
    cases h with
    | cons _ hrest =>
      rw [← List.singleton_append, ← List.append_assoc]
      exact ih hrest

end Follows

/-! ## Transcripts -/

variable {σ : Type} (handler : Handler Request (fun _ => Except NetworkFailure Response) σ)
  {e : Endpoint} {before : List Exchange}

/-- The requests of a round are for one address, but for the one for a token. -/
theorem Round.follows {method : Method} {url accept image : String} {said : List Exchange}
    {got : Except RegistryError Response} (h : Round method url accept image said got)
    (hurl : Named e before url) : Follows e before said := by
  cases h with
  | plain _ => exact .cons (.named hurl) (.nil _)
  | denied hchallenge _ =>
    exact .cons (.named hurl)
      (.cons (.token List.mem_concat_self (challenge?_eq_some_iff.mpr hchallenge) rfl) (.nil _))
  | renewed hchallenge _ =>
    refine .cons (.named hurl)
      (.cons (.token List.mem_concat_self (challenge?_eq_some_iff.mpr hchallenge) rfl)
        (.cons (.named (hurl.mono ?_)) (.nil _)))
    rw [List.append_assoc]
    exact List.subset_append_left _ _

/-- A walk goes from page to page by the links in the answers. -/
theorem follows_walk {image url : String} {pages : Nat} {s s' : Memory × σ}
    {visits : List (Visit String Exchange)}
    (h : Walk (.session handler) (page e image) pages url s visits s') (hurl : Named e before url) :
    Follows e before (visits.flatMap Visit.said) := by
  induction h generalizing before with
  | capped => exact .nil before
  | broken hdoes | last hdoes =>
    obtain ⟨_, hround, -⟩ := asked_of_does handler hdoes
    rw [List.flatMap_singleton]
    exact hround.follows hurl
  | @more _ _ next _ _ _ said _ _ hdoes _ ih =>
    have hasked := asked_of_does handler hdoes
    obtain ⟨request, response, hlast, hhere⟩ := hasked.next rfl
    obtain ⟨link, hlink, hurl'⟩ := Option.map_eq_some_iff.mp hhere.symm
    have hnames : NamesNext e said next :=
      ⟨request, response, link, List.mem_of_getLast? hlast, hlink, hurl'.symm⟩
    obtain ⟨_, hround, -⟩ := hasked
    rw [List.flatMap_cons]
    exact (hround.follows hurl).append (ih (.linked (hnames.mono (List.subset_append_right _ _))))

theorem named_listUrl (image : String) : Named e before (listUrl e image) := by
  have h : listUrl e image = e.baseUrl ++
      String.ofList ('/' :: ("v2/" ++ image ++ "/tags/list?n=" ++ toString pageSize).toList) := by
    apply String.toList_inj.mp
    simp [listUrl]
  rw [h]
  exact .below _

theorem named_manifestUrl (image tag : String) : Named e before (manifestUrl e image tag) := by
  have h : manifestUrl e image tag = e.baseUrl ++
      String.ofList ('/' :: ("v2/" ++ image ++ "/manifests/" ++ tag).toList) := by
    apply String.toList_inj.mp
    simp [manifestUrl]
  rw [h]
  exact .below _

theorem follows_allTags (image : String) (s : Memory × σ) :
    Follows e before ((Interpreter.session handler).said (allTags e image) s) := by
  obtain ⟨_, _, _, hwalk, -, -, -, hdoes⟩ := allTags_walk handler e image s.1 s.2
  rw [hdoes.said]
  exact follows_walk handler hwalk (named_listUrl image)

theorem follows_choose (image : String) (newest : List String → Option String)
    (s : Memory × σ) :
    Follows e before ((Interpreter.session handler).said (choose e image newest) s) := by
  rw [choose, Interpreter.said_bind_silent fun known s => by cases known <;> rfl, knownTags,
    Interpreter.said_bind]
  split
  · exact .nil before
  · exact follows_allTags handler image s

theorem follows_metadata (image tag : String) (s : Memory × σ) :
    Follows e before ((Interpreter.session handler).said (metadata e image tag) s) := by
  rw [metadata, Interpreter.said_bind_silent fun answer s => by
    rcases answer with error | response
    · rfl
    · dsimp only
      split
      · rfl
      · split <;> rfl]
  obtain ⟨_, _, _, _, hdoes, hround, -⟩ :=
    send_spec handler .head (manifestUrl e image tag) manifestTypes image s.1 s.2
  rw [hdoes.said]
  exact hround.follows (named_manifestUrl image tag)

/-- All requests of a call are justified, whatever the servers answer. -/
theorem follows_answer (call : Call) (s : Memory × σ) :
    Follows e before ((Interpreter.session handler).said (answer e call) s) := by
  cases call with
  | usesTagCache | isFloating _ | close => exact .nil before
  | allTags image => exact follows_allTags handler image s
  | latest image tag scope digest prereleases => exact follows_choose handler image _ s
  | latestOverall image tag prereleases => exact follows_choose handler image _ s
  | metadata image tag => exact follows_metadata handler image tag s

/-! ## Credentials -/

/-- Where a request with credentials goes to: the server of the registry, a page that was named by a
link which does not begin with a slash, or the place to ask for a token, where only the login in its
address goes along. -/
inductive Entrusted (e : Endpoint) (base : Url) (before : List Exchange) (r : Request)
    (sent : Sent) : Prop where
  | home : sent.url.origin = base.origin → Entrusted e base before r sent
  | linked {request : Request} {response : Response} {link : String} :
    (⟨request, .ok response⟩ : Exchange) ∈ before →
      (response.header? "link").bind Link.next? = some link → link.toList.head? ≠ some '/' →
        r.url = linkUrl e link → Entrusted e base before r sent
  | realm {request : Request} {response : Response} {c : Challenge} {image : String}
    {login : Login} : (⟨request, .ok response⟩ : Exchange) ∈ before →
      challenge? response = some c → r = ⟨.get, c.tokenUrl image, none, none⟩ →
        sent.url.login = some login → sent.authorization = some login.authorization →
          Entrusted e base before r sent

/-- A request that can be sent has an address that can be read. -/
theorem read_of_prepare {r : Request} {sent : Sent} (h : r.prepare = .ok sent) :
    Url.read r.url = .ok sent.url ∧
      sent.authorization = (sent.url.login.map Login.authorization).or
        (r.token.map ("Bearer " ++ ·)) := by
  rw [Request.prepare] at h
  split at h
  · cases h
  · next url hurl =>
    split at h
    · obtain rfl := Except.ok.inj h
      exact ⟨hurl, rfl⟩
    · cases h

/-- A link that begins with a slash goes on from the address of the registry. -/
theorem linkUrl_of_slash {link : String} {rest : List Char} (h : link.toList = '/' :: rest) :
    linkUrl e link = e.baseUrl ++ String.ofList ('/' :: rest) := by
  have hscheme : Text.startsWith "http".toList ('/' :: rest) = false := rfl
  rw [linkUrl, h, hscheme, if_neg Bool.false_ne_true, ← h, String.ofList_toList]

theorem Justified.entrusted {baseUrl : String} {cap : Nat} {base : Url} {r : Request} {sent : Sent}
    (hbase : Url.read baseUrl = .ok base) (h : Justified (.make baseUrl cap) before r)
    (hsent : r.prepare = .ok sent) (hauthorization : sent.authorization.isSome = true) :
    Entrusted (.make baseUrl cap) base before r sent := by
  obtain ⟨hread, hcredentials⟩ := read_of_prepare hsent
  cases h with
  | named hnamed =>
    generalize hurl : r.url = url at hread hnamed
    cases hnamed with
    | below rest => exact .home (origin_below hbase hread)
    | linked hnext =>
      obtain ⟨request, response, link, hmem, hlink, rfl⟩ := hnext
      by_cases hslash : link.toList.head? = some '/'
      · obtain ⟨rest, hrest⟩ := List.head?_eq_some_iff.mp hslash
        rw [linkUrl_of_slash hrest] at hread
        exact .home (origin_below hbase hread)
      · exact .linked hmem hlink hslash hurl
  | token hmem hchallenge hr =>
    rw [hr, Option.map_none, Option.or_none] at hcredentials
    rw [hcredentials, Option.isSome_map] at hauthorization
    obtain ⟨login, hlogin⟩ := Option.isSome_iff_exists.mp hauthorization
    rw [hlogin] at hcredentials
    exact .realm hmem hchallenge hr hlogin hcredentials

/-- **Credentials stay with the registry**, but for pages that were named by a link which does not
begin with a slash, and for logins in the addresses at which to ask for a token. -/
theorem authorization_stays (baseUrl : String) (cap : Nat) {base : Url}
    (hbase : Url.read baseUrl = .ok base) (call : Call) (memory : Memory) (s : σ) :
    ∀ before x after, (Interpreter.session handler).said (answer (.make baseUrl cap) call)
        (memory, s) = before ++ x :: after →
      ∀ sent, x.1.prepare = .ok sent → sent.authorization.isSome = true →
        Entrusted (.make baseUrl cap) base before x.1 sent := by
  intro before x after hsaid sent hsent hauthorization
  have hfollows : Follows (.make baseUrl cap) [] (before ++ x :: after) := by
    rw [← hsaid]
    exact follows_answer handler call (memory, s)
  exact hfollows.justified.entrusted hbase hsent hauthorization

/-- The token goes along to the second page, on the server of the registry. -/
theorem authorization_stays_second_page :
    let network : Network Unit := fun _ s =>
      (.response 200 [("Link", "</v2/app/tags/list?last=1.0.0>; rel=\"next\"")]
        (.text "\x7b\"tags\":[\"1.0.0\"]\x7d"), s)
    let e : Endpoint := .make "http://reg.test//" 2
    let base : Url := ⟨false, none, .domain "reg.test", none, "//"⟩
    let memory : Memory := { tokens := ⟨[("app", "t")]⟩ }
    let said := (Interpreter.session fun r s => network.exchange r s).said
      (answer e (.allTags "app")) (memory, ())
    let request : Request :=
      ⟨.get, "http://reg.test/v2/app/tags/list?last=1.0.0", some "application/json", some "t"⟩
    let sent : Sent := ⟨.get, ⟨false, none, .domain "reg.test", none, "/v2/app/tags/list?last=1.0.0"⟩,
      some "Bearer t", "application/json", userAgent⟩
    Url.read "http://reg.test//" = .ok base ∧ request.prepare = .ok sent ∧
      ∃ before answer, said = before ++ [⟨request, answer⟩] ∧ Entrusted e base before request sent := by
  intro network e base memory said request sent
  have hbase : Url.read "http://reg.test//" = .ok base := by decide +kernel
  have hsent : request.prepare = .ok sent := by decide +kernel
  have hsaid : said = said.dropLast ++ [⟨request, (network.exchange request ()).1⟩] := by
    decide +kernel
  refine ⟨hbase, hsent, said.dropLast, _, hsaid, ?_⟩
  exact authorization_stays _ "http://reg.test//" 2 hbase (.allTags "app") memory () _ _ [] hsaid
    sent hsent rfl

/-- A server hands out a token at an address with a login, and has its second page elsewhere: the login
goes to the one place and the token to the other, and neither is the server of the registry. -/
theorem token_sent_elsewhere :
    let network : Network Unit := fun sent s =>
      (match sent.url.host, sent.authorization with
        | .domain "auth.test", _ => .response 200 [] (.text "\x7b\"token\":\"t\"\x7d")
        | .domain "other.test", _ => .response 200 [] (.text "\x7b\"tags\":[\"1.1.0\"]\x7d")
        | _, none => .response 401
          [("WWW-Authenticate", "Bearer realm=\"http://me:pw@auth.test/token\"")] .binary
        | _, some _ => .response 200 [("Link", "<http://other.test/tags>; rel=\"next\"")]
          (.text "\x7b\"tags\":[\"1.0.0\"]\x7d"), s)
    let base : Url := ⟨false, none, .domain "reg.test", none, "/"⟩
    let said := (Interpreter.session fun r s => network.exchange r s).said
      (answer (.make "http://reg.test" 10) (.allTags "app")) ({}, ())
    Url.read "http://reg.test" = .ok base ∧
      (said.filterMap (·.1.prepare.toOption)).map (fun sent => (sent.url.host, sent.authorization)) =
        [(.domain "reg.test", none), (.domain "auth.test", some "Basic bWU6cHc="),
          (.domain "reg.test", some "Bearer t"), (.domain "other.test", some "Bearer t")] ∧
      ¬ ∀ x ∈ said, ∀ sent, x.1.prepare = .ok sent → sent.authorization.isSome = true →
        sent.url.origin = base.origin := by
  intro network base said
  refine ⟨by decide +kernel, by decide +kernel, ?_⟩
  have helsewhere : ∃ sent ∈ said.filterMap (·.1.prepare.toOption),
      sent.authorization.isSome = true ∧ sent.url.origin ≠ base.origin := by decide +kernel
  intro hall
  obtain ⟨sent, hmem, hauthorization, horigin⟩ := helsewhere
  obtain ⟨x, hx, hsent⟩ := List.mem_filterMap.mp hmem
  cases hprepare : x.1.prepare with
  | error failure =>
    rw [hprepare] at hsent
    cases hsent
  | ok sent' =>
    rw [hprepare] at hsent
    obtain rfl := Option.some.inj hsent
    exact horigin (hall x hx sent' hprepare hauthorization)

end TagWatch.Distribution
