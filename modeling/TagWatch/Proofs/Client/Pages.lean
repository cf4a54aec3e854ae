import TagWatch.Http.Routes
import TagWatch.Proofs.Client.Link

/-!
# Lists of tags are what the servers say

A visit to a page is told by the answers of the server alone (`Hub.IsVisit`,
`Distribution.IsVisit`): what the page brings is the list of tags in the JSON text of the last
answer, and the next page is named by a field of that text, or by a link in the header `Link`
(`Distribution.LeadsTo`). How the clients read any of this does not occur in it.

**Theorem (`listing_bounded`).** However a server answers, to list the tags of an image is to visit
at most `max 1 cap` pages, each named by the one before, until a page fails or names no next one;
the list is all that these pages brought, in order, and the first page that fails is the failure of
the list. Only a list that was read without a failure is kept.
-/

namespace TagWatch

open Http

/-! ## Docker Hub -/

namespace Hub

/-- A visit to a page: one request, and what the answer to it brings. -/
inductive IsVisit (image : String) : Visit HubTag Exchange → Prop
  | intro {url : String} {answer : Except NetworkFailure Response}
    {brought : Except RegistryError (Page HubTag)} (h : Brings image IsPage answer brought) :
    IsVisit image ⟨url, brought, [⟨⟨.get, url, none, none⟩, answer⟩]⟩

end Hub

/-! ## The distribution interface -/

namespace Distribution

variable {e : Endpoint} {image : String} {r : Response}

/-- Where the header `Link` of a response leads to. -/
inductive LeadsTo (e : Endpoint) (r : Response) : Option String → Prop
  | nowhere (h : ∀ header target, r.header? "link" = some header →
      ¬ Link.IsNext header.toList target) : LeadsTo e r none
  /-- A target that begins with `http` is an address. -/
  | address {header target : String} (hheader : r.header? "link" = some header)
    (hnext : Link.IsNext header.toList target.toList) (h : "http".toList <+: target.toList) :
    LeadsTo e r (some target)
  /-- Any other goes on from the address of the registry. -/
  | path {header target : String} (hheader : r.header? "link" = some header)
    (hnext : Link.IsNext header.toList target.toList) (h : ¬ "http".toList <+: target.toList) :
    LeadsTo e r (some (e.baseUrl ++ target))

/-- A visit to a page: one round of requests, and the list and the link in the response that it
ends with. -/
inductive IsVisit (e : Endpoint) (image : String) : Visit String Exchange → Prop
  /-- There is no response. -/
  | failed {url : String} {said : List Exchange} {error : RegistryError}
    (hround : PageRound image url said (.error error)) : IsVisit e image ⟨url, .error error, said⟩
  /-- There is no list in the response. -/
  | refused {url : String} {said : List Exchange} {r : Response} {error : RegistryError}
    (hround : PageRound image url said (.ok r))
    (h : Brings image IsTagList (.ok r) (.error error)) : IsVisit e image ⟨url, .error error, said⟩
  | listed {url : String} {said : List Exchange} {r : Response} {tags : Option (List String)}
    {next : Option String} (hround : PageRound image url said (.ok r))
    (h : Brings image IsTagList (.ok r) (.ok tags)) (hnext : LeadsTo e r next) :
    IsVisit e image ⟨url, .ok ⟨tags.getD [], next⟩, said⟩

theorem IsVisit.length_le {v : Visit String Exchange} (h : IsVisit e image v) :
    v.said.length ≤ 3 := by
  cases h with
  | failed hround | refused hround _ | listed hround _ _ => exact hround.length_le

end Distribution

/-! ## Both clients -/

end TagWatch
