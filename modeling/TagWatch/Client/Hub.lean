import TagWatch.Client.Call
import TagWatch.Client.Endpoint
import TagWatch.Client.Status
import TagWatch.Json.Record
import TagWatch.Version.Selection

/-!
# The Docker Hub client

Docker Hub lists the tags of a repository page by page, each page naming the next one, and can
list only the tags whose names contain a text. The newest tag inside a scope is therefore looked
for among the tags that contain the numbers which the scope keeps.
-/

namespace TagWatch.Hub

open Http

/-- A tag as Docker Hub describes it. -/
structure HubTag where
  name : String
  digest : Option String
  lastUpdated : Option String
  deriving Repr, DecidableEq

/-- A page of a list of tags. -/
structure TagPage where
  /-- The address of the next page. -/
  next : Option String
  tags : List HubTag
  deriving Repr, DecidableEq

/-- Reads a tag. -/
def HubTag.ofJson? (j : Json) : Option HubTag :=
  match j.fields? false ["name", "digest", "last_updated"] with
  | some [name, digest, updated] => do
    return ⟨← Json.required Json.text? name, ← Json.nullable Json.text? digest,
      ← Json.nullable Json.text? updated⟩
  | _ => none

/-- Reads a page. -/
def TagPage.ofJson? (j : Json) : Option TagPage :=
  match j.fields? false ["next", "results"] with
  | some [next, results] => do
    return ⟨← Json.nullable Json.text? next,
      ← Json.required (Json.list? HubTag.ofJson?) results⟩
  | _ => none

/-- The repository of an image: official images live in the namespace `library`. -/
def repository (image : String) : String :=
  if image.toList.contains '/' then image else "library/" ++ image

/-- The address of the first page of tags whose names contain a text, or of all tags. -/
def listUrl (e : Endpoint) (image : String) (filter : Option String) : String :=
  e.baseUrl ++ "/v2/repositories/" ++ repository image ++ "/tags?page_size=" ++
    toString pageSize ++
    (match filter with
      | some text => "&name=" ++ text
      | none => "")

/-- The address of a single tag. -/
def tagUrl (e : Endpoint) (image tag : String) : String :=
  e.baseUrl ++ "/v2/repositories/" ++ repository image ++ "/tags/" ++ tag

/-- The value at an address. -/
def fetchJson {α : Type} (read : Json → Option α) (url image : String) :
    HttpProgram (Except RegistryError α) := do
  match ← HttpProgram.send ⟨.get, url, none, none⟩ with
  | .error failure => return .error (.network failure)
  | .ok response => return response.content image read

/-- The tags on a number of pages, from an address on, after those that were found before. -/
def listPages (image : String) :
    (pages : Nat) → (url : String) → List HubTag → HttpProgram (Except RegistryError (List HubTag))
  | 0, _, found => return .ok found
  | pages + 1, url, found => do
    match ← fetchJson TagPage.ofJson? url image with
    | .error e => return .error e
    | .ok page =>
      match page.next with
      | some next => listPages image pages next (found ++ page.tags)
      | none => return .ok (found ++ page.tags)

/-- The names of the tags that contain a text, or of all tags. -/
def listTags (e : Endpoint) (image : String) (filter : Option String) :
    HttpProgram (Except RegistryError (List String)) := do
  match ← listPages image e.maxPages (listUrl e image filter) [] with
  | .error e => return .error e
  | .ok tags => return .ok (tags.map (·.name))

/-- The text that every tag inside a scope contains: the numbers which the scope keeps, as in
`v1.2.` for `v1.2.3` and the scope `patch`. A tag without such numbers gives none. -/
def scopeFilter (tag : String) (scope : Level) : Option String :=
  (Version.ofTag? tag).bind fun v =>
    let mark := if v.prefixed then String.ofList (tag.toList.take 1) else ""
    match scope with
    | .patch =>
      if v.components = 3 then
        some (mark ++ toString v.major ++ "." ++ toString v.minor ++ ".")
      else if v.components = 2 then some (mark ++ toString v.major ++ ".")
      else none
    | .minor => if v.components ≥ 2 then some (mark ++ toString v.major ++ ".") else none
    | .major => none

/-- The newest tag inside a scope. -/
def latest (e : Endpoint) (image tag : String) (scope : Level) (prereleases : Bool) :
    HttpProgram (Except RegistryError (Option String)) := do
  match ← listTags e image (scopeFilter tag scope) with
  | .error e => return .error e
  | .ok tags => return .ok (latestInScope tag tags scope prereleases)

/-- The newest tag of all. -/
def latestOverall (e : Endpoint) (image tag : String) (prereleases : Bool) :
    HttpProgram (Except RegistryError (Option String)) := do
  match ← listTags e image none with
  | .error e => return .error e
  | .ok tags => return .ok (TagWatch.latestOverall tag tags prereleases)

/-- What is known about a tag; none when there is no such tag. -/
def metadata (e : Endpoint) (image tag : String) :
    HttpProgram (Except RegistryError (Option TagMetadata)) := do
  match ← fetchJson HubTag.ofJson? (tagUrl e image tag) image with
  | .ok found => return .ok (some ⟨found.digest, found.lastUpdated⟩)
  | .error (.notFound _) => return .ok none
  | .error e => return .error e

/-- Answers a call. -/
def answer (e : Endpoint) : (call : Call) → HttpProgram call.Answer
  | .usesTagCache => .done false
  | .isFloating tag => .done (isFloatingTag tag)
  | .allTags image => listTags e image none
  | .latest image tag scope _ prereleases => latest e image tag scope prereleases
  | .latestOverall image tag prereleases => latestOverall e image tag prereleases
  | .metadata image tag => metadata e image tag
  | .close => .done ()

end TagWatch.Hub
