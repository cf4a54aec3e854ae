import TagWatch.Client.Hub
import TagWatch.Proofs.Client.Paging
import TagWatch.Proofs.Json.Field
import TagWatch.Proofs.Json.Value

/-!
# What answers say

A client asks for a document of some kind. What the answer brings (`Brings`) depends on nothing
but the answer itself: without a response there is a failure of the network, a status that is no
success means an error (`Response.Refuses`), and otherwise the body is JSON text that spells such a
document (`Response.Says`), or it is no such document.

The documents are stated as records of their fields: the pages of tags of both kinds of registry
(`Hub.IsPage`, `Distribution.IsTagList`) and the answer to a question for a token
(`Distribution.IsToken`). In each of them the client reads what the document says, and in anything
else nothing; so what a client receives is what the answer brings (`received_eq_iff`).
-/

namespace TagWatch

open Http

/-! ## Responses -/

namespace Http.Response

/-- The body of a response spells a value. -/
def Says (r : Response) (j : Json) : Prop := ∃ text, r.body = .text text ∧ Json.Spells text j

/-- A status that says that the request succeeded. -/
def Succeeds (r : Response) : Prop := 200 ≤ r.status ∧ r.status < 300

/-- What a status that is no success means for a question about an image. -/
inductive Refuses (image : String) (r : Response) : RegistryError → Prop
  | notFound (h : r.status = 404) : Refuses image r (.notFound image)
  | unauthorized (h : r.status = 401 ∨ r.status = 403) :
    Refuses image r (.unauthorized (image ++ " (" ++ statusText r.status ++ ")"))
  | rateLimited (h : r.status = 429) : Refuses image r (.rateLimited r.retryAfter?)
  | unexpected (h : ¬ r.Succeeds) (hother : r.status ∉ [401, 403, 404, 429]) :
    Refuses image r (.invalidResponse ("Unexpected status: " ++ statusText r.status))

variable {image : String} {r : Response} {e : RegistryError}

theorem isSuccess_iff : r.isSuccess = true ↔ r.Succeeds := by
  rw [isSuccess, Bool.and_eq_true, decide_eq_true_eq, decide_eq_true_eq]
  exact Iff.rfl

theorem error?_eq_none_iff : r.error? image = none ↔ r.Succeeds := by
  rw [← isSuccess_iff, error?]
  constructor
  · intro h
    split_ifs at h
    assumption
  · intro hsuccess
    obtain ⟨hlow, hhigh⟩ := isSuccess_iff.mp hsuccess
    rw [if_neg (by omega), if_neg (by omega), if_neg (by omega), if_pos hsuccess]

/-- A status means one error, or none. -/
theorem error?_eq_some_iff : r.error? image = some e ↔ r.Refuses image e := by
  constructor
  · intro h
    unfold error? at h
    split at h
    · next h404 =>
      obtain rfl := Option.some.inj h
      exact .notFound h404
    split at h
    · next hdenied =>
      obtain rfl := Option.some.inj h
      exact .unauthorized hdenied
    split at h
    · next h429 =>
      obtain rfl := Option.some.inj h
      exact .rateLimited h429
    split at h
    · cases h
    · next h404 hdenied h429 hsuccess =>
      obtain rfl := Option.some.inj h
      refine .unexpected (mt isSuccess_iff.mpr hsuccess) ?_
      simp only [List.mem_cons, List.not_mem_nil, or_false]
      tauto
  · intro h
    cases h with
    | notFound h => rw [error?, if_pos h]
    | unauthorized h => rw [error?, if_neg (by omega), if_pos h]
    | rateLimited h => rw [error?, if_neg (by omega), if_neg (by omega), if_pos h]
    | unexpected h hother =>
      simp only [List.mem_cons, List.not_mem_nil, or_false, not_or] at hother
      rw [error?, if_neg (by omega), if_neg (by omega), if_neg (by omega),
        if_neg (mt isSuccess_iff.mp h)]

end Http.Response

/-! ## Documents in answers -/

/-- What an answer brings to a question about an image, for documents of a kind. -/
inductive Brings {α : Type} (image : String) (P : α → Json → Prop) :
    Except NetworkFailure Response → Except RegistryError α → Prop
  /-- There is no response. -/
  | failed (failure : NetworkFailure) : Brings image P (.error failure) (.error (.network failure))
  | refused {r : Response} {e : RegistryError} (h : r.Refuses image e) :
    Brings image P (.ok r) (.error e)
  /-- The body is no document of the kind. -/
  | unreadable {r : Response} (hsuccess : r.Succeeds) (h : ∀ j a, r.Says j → ¬ P a j) :
    Brings image P (.ok r)
      (.error (.invalidResponse ("error decoding response body for url (" ++ r.url ++ ")")))
  | document {r : Response} {j : Json} {a : α} (hsuccess : r.Succeeds) (hspelled : r.Says j)
    (h : P a j) : Brings image P (.ok r) (.ok a)

section Brings

variable {α : Type} {image : String} {read : Json → Option α} {P : α → Json → Prop}
  {r : Response} {answer : Except NetworkFailure Response} {result : Except RegistryError α}

/-- A body is decoded to what it says. -/
theorem decode_eq_ok_iff (hread : ∀ j a, read j = some a ↔ P a j) {a : α} :
    r.decode read = .ok a ↔ ∃ j, r.Says j ∧ P a j := by
  unfold Response.Says Response.decode
  cases r.body with
  | binary => simp
  | text content =>
    have hvalue : (Json.read? content).bind read = some a ↔ ∃ j, Json.Spells content j ∧ P a j := by
      simp only [Option.bind_eq_some_iff, Json.read?_eq_some_iff, hread]
    simp only [Body.text.injEq, exists_eq_left', ← hvalue]
    cases (Json.read? content).bind read <;> simp

/-- A body that is not decoded is an error of one kind. -/
theorem decode_eq_error {e : RegistryError} (h : r.decode read = .error e) :
    e = .invalidResponse ("error decoding response body for url (" ++ r.url ++ ")") := by
  unfold Response.decode at h
  dsimp only at h
  split at h
  · cases h
  · exact (Except.error.inj h).symm

/-- The content of a response is what it brings. -/
theorem content_eq_iff (hread : ∀ j a, read j = some a ↔ P a j) :
    r.content image read = result ↔ Brings image P (.ok r) result := by
  constructor
  · rintro rfl
    cases herror : r.error? image with
    | some e =>
      rw [Response.content, herror]
      exact .refused (Response.error?_eq_some_iff.mp herror)
    | none =>
      have hsuccess := Response.error?_eq_none_iff.mp herror
      rw [Response.content, herror]
      show Brings image P (.ok r) (r.decode read)
      cases hdecode : r.decode read with
      | ok a =>
        obtain ⟨j, hspelled, hj⟩ := (decode_eq_ok_iff hread).mp hdecode
        exact .document hsuccess hspelled hj
      | error e =>
        rw [decode_eq_error hdecode]
        refine .unreadable hsuccess fun j a hspelled hj => ?_
        rw [(decode_eq_ok_iff hread).mpr ⟨j, hspelled, hj⟩] at hdecode
        cases hdecode
  · intro h
    cases h with
    | refused h => rw [Response.content, Response.error?_eq_some_iff.mpr h]
    | unreadable hsuccess h =>
      rw [Response.content, Response.error?_eq_none_iff.mpr hsuccess]
      show r.decode read = _
      cases hdecode : r.decode read with
      | ok a =>
        obtain ⟨j, hspelled, hj⟩ := (decode_eq_ok_iff hread).mp hdecode
        exact absurd hj (h j a hspelled)
      | error e => rw [decode_eq_error hdecode]
    | document hsuccess hspelled h =>
      rw [Response.content, Response.error?_eq_none_iff.mpr hsuccess]
      exact (decode_eq_ok_iff hread).mpr ⟨_, hspelled, h⟩

/-- What a client receives with an answer. -/
def received (image : String) (read : Json → Option α) (answer : Except NetworkFailure Response) :
    Except RegistryError α :=
  match answer with
  | .error failure => .error (.network failure)
  | .ok r => r.content image read

theorem decode_map {β : Type} (f : α → β) :
    (r.decode read).map f = r.decode fun j => (read j).map f := by
  rw [Response.decode, Response.decode]
  cases r.body with
  | binary => rfl
  | text content =>
    dsimp only
    rcases Json.read? content with _ | j
    · rfl
    · simp only [Option.bind_some]
      cases read j <;> rfl

theorem received_map {β : Type} (f : α → β) :
    (received image read answer).map f = received image (fun j => (read j).map f) answer := by
  cases answer with
  | error failure => rfl
  | ok r =>
    rw [received, received, Response.content, Response.content]
    cases r.error? image with
    | some e => rfl
    | none => exact decode_map f

/-- A client receives what the answer brings. -/
theorem received_eq_iff (hread : ∀ j a, read j = some a ↔ P a j) :
    received image read answer = result ↔ Brings image P answer result := by
  cases answer with
  | error failure =>
    constructor
    · rintro rfl
      exact .failed failure
    · rintro ⟨⟩
      rfl
  | ok r => exact content_eq_iff hread

end Brings

/-! ## Docker Hub -/

namespace Hub

open Json (HasFields IsOptional IsText IsList)

/-- A tag as Docker Hub describes it. -/
def IsTag (t : HubTag) (j : Json) : Prop :=
  ∃ digest updated, IsOptional IsText t.digest digest ∧ IsOptional IsText t.lastUpdated updated ∧
    HasFields ["name", "digest", "last_updated"] [some (.ofText t.name), digest, updated] j

/-- A page of a list: its tags, and the address of the next page. -/
def IsPage (page : Page HubTag) (j : Json) : Prop :=
  ∃ next results, IsOptional IsText page.next next ∧ IsList IsTag page.found results ∧
    HasFields ["next", "results"] [next, some results] j

/-- Reads a page. -/
def readPage (j : Json) : Option (Page HubTag) :=
  (TagPage.ofJson? j).map fun here => ⟨here.tags, here.next⟩

theorem received_readPage {image : String} {answer : Except NetworkFailure Response} :
    received image readPage answer =
      (received image TagPage.ofJson? answer).map fun here => ⟨here.tags, here.next⟩ :=
  (received_map _).symm

theorem received_readPage_eq_ok_iff {image : String} {answer : Except NetworkFailure Response}
    {page : Page HubTag} : received image readPage answer = .ok page ↔
      ∃ r here, answer = .ok r ∧ r.content image TagPage.ofJson? = .ok here ∧
        ⟨here.tags, here.next⟩ = page := by
  rw [received_readPage]
  cases answer with
  | error failure => simp [received, Except.map]
  | ok r =>
    show (r.content image TagPage.ofJson?).map _ = .ok page ↔ _
    cases hcontent : r.content image TagPage.ofJson? <;> simp [Except.map, hcontent]

end Hub

/-! ## The distribution interface -/

namespace Distribution

open Json (HasFields IsOptional IsText IsList)

/-- A page of a list of tags, on which the list may be missing. -/
def IsTagList (tags : Option (List String)) (j : Json) : Prop :=
  ∃ field, IsOptional (IsList IsText) tags field ∧ HasFields ["tags"] [field] j

/-- The answer to a question for a token, which goes by one of two names. -/
def IsToken (token : Option String) (j : Json) : Prop :=
  ∃ first second token₁ token₂, IsOptional IsText first token₁ ∧ IsOptional IsText second token₂ ∧
    HasFields ["token", "access_token"] [token₁, token₂] j ∧ token = first.or second

/-- A response that refuses a request says where to ask for a token. -/
def Challenges (c : Challenge) (r : Response) : Prop :=
  r.status = 401 ∧
    ∃ header, r.header? "www-authenticate" = some header ∧ Challenge.read? header = some c

theorem challenge?_eq_some_iff {r : Response} {c : Challenge} :
    challenge? r = some c ↔ Challenges c r := by
  rw [challenge?, Option.ite_none_right_eq_some, Option.bind_eq_some_iff]
  exact Iff.rfl

/-- What an answer to a question for a token hands out. -/
inductive Handed (image : String) (answer : Except NetworkFailure Response) :
    Except RegistryError String → Prop
  | token {token : String} (h : Brings image IsToken answer (.ok (some token))) :
    Handed image answer (.ok token)
  | withheld (h : Brings image IsToken answer (.ok none)) :
    Handed image answer (.error (.unauthorized ("no token issued for " ++ image)))
  | failed {e : RegistryError} (h : Brings image IsToken answer (.error e)) :
    Handed image answer (.error e)

theorem readToken_eq_some_iff (j : Json) (token : Option String) :
    readToken j = some token ↔ IsToken token j := by
  constructor
  · intro h
    unfold readToken at h
    split at h
    · next token₁ token₂ hfields =>
      obtain ⟨first, hfirst, h⟩ := Option.bind_eq_some_iff.mp h
      obtain ⟨second, hsecond, h⟩ := Option.bind_eq_some_iff.mp h
      exact ⟨first, second, token₁, token₂, Json.nullable_text_eq_some_iff.mp hfirst,
        Json.nullable_text_eq_some_iff.mp hsecond, Json.fields?_eq_some_iff.mp hfields,
        (Option.some.inj h).symm⟩
    · cases h
  · rintro ⟨first, second, token₁, token₂, hfirst, hsecond, hfields, rfl⟩
    rw [readToken, Json.fields?_eq_some_iff.mpr hfields]
    simp [Json.nullable_text_eq_some_iff.mpr hfirst, Json.nullable_text_eq_some_iff.mpr hsecond]

end Distribution

end TagWatch
