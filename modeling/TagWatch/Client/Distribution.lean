import TagWatch.Client.Call
import TagWatch.Client.Challenge
import TagWatch.Client.Endpoint
import TagWatch.Client.Link
import TagWatch.Client.Status
import TagWatch.Json.Record
import TagWatch.Table
import TagWatch.Version.Selection

/-!
# The client for the OCI distribution interface

Registries of this kind list the tags of an image page by page, each page naming the next one in
its header `Link`, and hand out anonymous tokens to pull an image when they are challenged to.

**Memory.** The client keeps the token of each image and, once a list was read to its end, the
tags of the image. Questions about the newest tag are answered from that list, which is read
first if need be. Closing the client empties its memory.

**Tokens.** A request goes out with the token of its image, if there is one. When the answer is a
challenge, a token is asked for, kept, and the request repeated once with it.
-/

namespace TagWatch.Distribution

open Http

/-- What a client keeps between its requests, by image. -/
structure Memory where
  tokens : Table String String := .empty
  tags : Table String (List String) := .empty
  deriving Repr, DecidableEq

/-- A program that sends requests and uses the memory of a client. -/
abbrev Session := StateT Memory HttpProgram

/-- The kinds of manifest that a client takes. -/
def manifestTypes : String :=
  "application/vnd.oci.image.index.v1+json, " ++
    "application/vnd.docker.distribution.manifest.list.v2+json, " ++
    "application/vnd.oci.image.manifest.v1+json, " ++
    "application/vnd.docker.distribution.manifest.v2+json"

/-- Reads a page of a list of tags, on which the list may be missing. -/
def readTagList (j : Json) : Option (Option (List String)) :=
  match j.fields? false ["tags"] with
  | some [tags] => Json.nullable (Json.list? Json.text?) tags
  | _ => none

/-- Reads the answer to a question for a token: the token goes by one of two names. -/
def readToken (j : Json) : Option (Option String) :=
  match j.fields? false ["token", "access_token"] with
  | some [token, accessToken] => do
    let token ← Json.nullable Json.text? token
    let accessToken ← Json.nullable Json.text? accessToken
    return token.or accessToken
  | _ => none

/-! ## Requests -/

/-- Sends one request. -/
def exchange (r : Request) : Session (Except NetworkFailure Response) :=
  StateT.lift (HttpProgram.send r)

/-- Asks for a token to pull an image, as a challenge says. -/
def fetchToken (c : Challenge) (image : String) : Session (Except RegistryError String) := do
  match ← exchange ⟨.get, c.tokenUrl image, none, none⟩ with
  | .error failure => return .error (.network failure)
  | .ok response =>
    match response.content image readToken with
    | .error e => return .error e
    | .ok (some token) => return .ok token
    | .ok none => return .error (.unauthorized ("no token issued for " ++ image))

/-- The challenge in a response that refuses a request. -/
def challenge? (r : Response) : Option Challenge :=
  if r.status = 401 then (r.header? "www-authenticate").bind Challenge.read? else none

/-- Sends a request about an image, with a token if one is needed. -/
def send (method : Method) (url accept image : String) :
    Session (Except RegistryError Response) := do
  let memory ← get
  match ← exchange ⟨method, url, some accept, memory.tokens.get? image⟩ with
  | .error failure => return .error (.network failure)
  | .ok response =>
    match challenge? response with
    | none => return .ok response
    | some c =>
      match ← fetchToken c image with
      | .error e => return .error e
      | .ok token =>
        modify fun m => { m with tokens := m.tokens.set image token }
        match ← exchange ⟨method, url, some accept, some token⟩ with
        | .error failure => return .error (.network failure)
        | .ok response => return .ok response

/-! ## Lists of tags -/

/-- The address of the first page of tags. -/
def listUrl (e : Endpoint) (image : String) : String :=
  e.baseUrl ++ "/v2/" ++ image ++ "/tags/list?n=" ++ toString pageSize

/-- The address that a link leads to: one that begins with `http` stands for itself, and any
other goes on from the address of the registry. -/
def linkUrl (e : Endpoint) (link : String) : String :=
  if Text.startsWith "http".toList link.toList then link else e.baseUrl ++ link

/-- The tags on a number of pages, from an address on, after those that were found before. -/
def listPages (e : Endpoint) (image : String) :
    (pages : Nat) → (url : String) → List String → Session (Except RegistryError (List String))
  | 0, _, found => return .ok found
  | pages + 1, url, found => do
    match ← send .get url "application/json" image with
    | .error e => return .error e
    | .ok response =>
      match response.content image readTagList with
      | .error e => return .error e
      | .ok tags =>
        let found := found ++ tags.getD []
        match (response.header? "link").bind Link.next? with
        | some link => listPages e image pages (linkUrl e link) found
        | none => return .ok found

/-- The tags of an image, which are kept. -/
def allTags (e : Endpoint) (image : String) : Session (Except RegistryError (List String)) := do
  match ← listPages e image e.maxPages (listUrl e image) [] with
  | .error error => return .error error
  | .ok tags =>
    modify fun m => { m with tags := m.tags.set image tags }
    return .ok tags

/-- The tags of an image that were kept, or else those that are listed now. -/
def knownTags (e : Endpoint) (image : String) : Session (Except RegistryError (List String)) := do
  let memory ← get
  match memory.tags.get? image with
  | some tags => return .ok tags
  | none => allTags e image

/-- The newest tag that is chosen from the tags of an image. -/
def choose (e : Endpoint) (image : String) (newest : List String → Option String) :
    Session (Except RegistryError (Option String)) := do
  match ← knownTags e image with
  | .error error => return .error error
  | .ok tags => return .ok (newest tags)

/-! ## Single tags -/

/-- The address of the manifest of a tag. -/
def manifestUrl (e : Endpoint) (image tag : String) : String :=
  e.baseUrl ++ "/v2/" ++ image ++ "/manifests/" ++ tag

/-- The digest of a tag; none when there is no such tag. -/
def metadata (e : Endpoint) (image tag : String) :
    Session (Except RegistryError (Option TagMetadata)) := do
  match ← send .head (manifestUrl e image tag) manifestTypes image with
  | .error error => return .error error
  | .ok response =>
    if response.status = 404 then return .ok none
    else match response.error? image with
      | some error => return .error error
      | none => return .ok (some ⟨response.header? "docker-content-digest", none⟩)

/-- Answers a call. -/
def answer (e : Endpoint) : (call : Call) → Session call.Answer
  | .usesTagCache => pure true
  | .isFloating tag => pure (isFloatingTag tag)
  | .allTags image => allTags e image
  | .latest image tag scope _ prereleases =>
    choose e image fun tags => latestInScope tag tags scope prereleases
  | .latestOverall image tag prereleases =>
    choose e image fun tags => TagWatch.latestOverall tag tags prereleases
  | .metadata image tag => metadata e image tag
  | .close => set ({} : Memory)

end TagWatch.Distribution
