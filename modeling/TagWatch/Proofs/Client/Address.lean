import TagWatch.Proofs.Client.Hosts
import TagWatch.Proofs.Registry.Canonical
import TagWatch.Proofs.Run.Accounting

/-!
# Where the client of a reference asks

A reference names a registry by its host. The host becomes a canonical name, the canonical name
becomes an address, and the client asks there.

**Theorem (`Reference.baseUrl_eq_server`).** The client of a reference that names a registry other
than Docker Hub asks the host as it is written, in small letters and without blanks around it; a
host of the domain `gcr.io` stands for the domain itself. References that mean different hosts are
asked at different addresses, and share neither a key nor a fetch.

The canonical name loses nothing else, since it leads back to the host
(`HasClient.defaultUrl?_canonical`). A well-known host has a short name, which has this host as its
address. Any other host is its own name and its own address. A host has a dot or a colon and a short
name has none, so that the one is never taken for the other.
-/

namespace TagWatch

open Text

namespace Reference

/-- The host that a reference means: small letters, no blanks at its ends, and `gcr.io` for all
hosts of that domain. -/
def server (r : Reference) : String :=
  let host := lower (trim r.registry.toList)
  if endsWith ".gcr.io".toList host then "gcr.io" else String.ofList host

end Reference

namespace Web

/-- Where a client asks. -/
def WebClient.endpoint : WebClient → Endpoint
  | hub e => e
  | distribution e _ => e

/-- The factory that replaces no address. -/
def Factory.standard (maxPages : Nat) : Factory := { maxPages := maxPages }

theorem Factory.maxPages_standard (maxPages : Nat) : (standard maxPages).maxPages = maxPages := rfl

/-! ## From a host to its address -/

/-- A text with a dot or a colon, as hosts have it. -/
def IsMarked (s : List Char) : Prop := '.' ∈ s ∨ ':' ∈ s

instance (s : List Char) : Decidable (IsMarked s) := inferInstanceAs (Decidable (_ ∨ _))

theorem IsMarked.lower_trim {s : List Char} (h : IsMarked s) : IsMarked (lower (trim s)) :=
  h.imp (mem_lower_trim_of_mem rfl rfl) (mem_lower_trim_of_mem rfl rfl)

/-- The address of a well-known registry is its host, where a short name is no host. -/
theorem defaultUrl?_of_alias {host short : String}
    (h : Table.find host Registry.aliases = some short) (hmarked : IsMarked host.toList)
    (hhub : short ≠ Registry.hub) :
    defaultUrl? short = some ("https://" ++ host) ∧
      ¬ endsWith ".gcr.io".toList host.toList = true := by
  have hall : ∀ e ∈ Registry.aliases, IsMarked e.1.toList → e.2 ≠ Registry.hub →
      defaultUrl? e.2 = some ("https://" ++ e.1) ∧
        ¬ endsWith ".gcr.io".toList e.1.toList = true := by decide +kernel
  exact hall (host, short) (Table.mem_of_find_eq_some h) hmarked hhub

/-- A host is its own address: the short names have no marks. -/
theorem defaultUrl?_of_marked {host : String} (hmarked : IsMarked host.toList) :
    defaultUrl? host = some ("https://" ++ host) := by
  have hshort : ∀ e ∈ knownUrls, ¬ IsMarked e.1.toList := by decide +kernel
  have hnone : Table.find host knownUrls = none := by
    cases hfind : Table.find host knownUrls with
    | none => rfl
    | some url => exact absurd hmarked (hshort (host, url) (Table.mem_of_find_eq_some hfind))
  rw [defaultUrl?, hnone]
  dsimp only
  rw [if_pos]
  rw [Bool.or_eq_true, List.contains_iff_mem, List.contains_iff_mem]
  exact hmarked

/-- `localhost` is no address. -/
theorem make_localhost (maxPages : Nat) :
    (Factory.standard maxPages).make (String.ofList "localhost".toList) =
      .error (.unsupportedRegistry "localhost") := rfl

/-- The address of a host has no slashes at its end to drop. -/
theorem endpoint_make_of_marked {host : String} (hslash : '/' ∉ host.toList)
    (hmarked : IsMarked host.toList) (maxPages : Nat) :
    Endpoint.make ("https://" ++ host) maxPages = ⟨"https://" ++ host, max 1 maxPages⟩ := by
  have hne : host.toList ≠ [] := by
    intro hnil
    rw [hnil] at hmarked
    rcases hmarked with hmem | hmem <;> exact List.not_mem_nil hmem
  have hlast : ("https://" ++ host).toList.getLast? ≠ some '/' := by
    rw [String.toList_append, List.getLast?_append_of_ne_nil _ hne]
    intro hslashLast
    exact hslash (List.mem_of_getLast? hslashLast)
  rw [Endpoint.make, Registry.dropEndWhile_slash_eq_self_iff.mpr hlast, String.ofList_toList]

end Web

namespace Reference

/-- A reference that names a registry other than Docker Hub, with the client that the default
factory makes for it. -/
structure HasClient (r : Reference) (maxPages : Nat) (client : Web.WebClient) : Prop where
  read : ∃ text, read? text = some r
  notHub : Registry.canonical r.registry ≠ Registry.hub
  made : (Web.Factory.standard maxPages).make r.registry = .ok client

variable {r : Reference} {maxPages : Nat} {client : Web.WebClient}

/-- The registry is a host with a mark: left out it would be Docker Hub, and `localhost` has no
client. -/
theorem HasClient.marked (h : r.HasClient maxPages client) :
    '/' ∉ r.registry.toList ∧ Web.IsMarked r.registry.toList := by
  obtain ⟨text, hread⟩ := h.read
  rcases registry_cases hread with hhub | ⟨host, hhost, hslash, hnames⟩
  · exact absurd (by rw [hhub]; decide +kernel) h.notHub
  · rw [hhost, String.toList_ofList]
    refine ⟨hslash, ?_⟩
    rw [isHost, Bool.or_eq_true, Bool.or_eq_true, List.contains_iff_mem, List.contains_iff_mem,
      beq_iff_eq] at hnames
    rcases hnames with hmark | rfl
    · exact hmark
    · have hmade := h.made
      rw [hhost, Web.make_localhost] at hmade
      cases hmade

/-- The host that a reference with a client means has a mark, too, and no slash. -/
theorem HasClient.marked_server (h : r.HasClient maxPages client) :
    '/' ∉ r.server.toList ∧ Web.IsMarked r.server.toList := by
  obtain ⟨hslash, hmarked⟩ := h.marked
  rw [server]
  split
  · decide
  · rw [String.toList_ofList]
    exact ⟨slash_not_mem_lower fun hmem => hslash (mem_of_mem_trim hmem), hmarked.lower_trim⟩

/-- The canonical name leads back to the host. -/
theorem HasClient.defaultUrl?_canonical (h : r.HasClient maxPages client) :
    Web.defaultUrl? (Registry.canonical r.registry) = some ("https://" ++ r.server) := by
  obtain ⟨hslash, hmarked⟩ := h.marked
  have hhost : Registry.host r.registry = lower (trim r.registry.toList) :=
    Registry.host_of_not_mem hslash
  have hmarkedHost : Web.IsMarked (Registry.host r.registry) := by
    rw [hhost]
    exact hmarked.lower_trim
  have hnotHub := h.notHub
  rw [server, ← hhost]
  obtain ⟨short, hfind, hname⟩ | ⟨hdomain, hname⟩ | ⟨-, hdomain, hname⟩ :=
    Registry.canonical_cases r.registry
  · rw [hname] at hnotHub ⊢
    obtain ⟨hurl, hdomain⟩ :=
      Web.defaultUrl?_of_alias hfind (by rwa [String.toList_ofList]) hnotHub
    rw [String.toList_ofList (l := Registry.host r.registry)] at hdomain
    rw [hurl, if_neg hdomain]
  · rw [hname, if_pos hdomain]
    rfl
  · rw [hname, if_neg hdomain]
    exact Web.defaultUrl?_of_marked (by rwa [String.toList_ofList])

/-- The client is one of the distribution interface at the address of the host. -/
theorem HasClient.client_eq (h : r.HasClient maxPages client) :
    client = .distribution ⟨"https://" ++ r.server, max 1 maxPages⟩ {} := by
  have hmade := h.made
  have hnone : (Web.Factory.standard maxPages).baseUrls.get? (Registry.canonical r.registry) =
      none := rfl
  rw [Web.Factory.make] at hmade
  simp only [hnone, Option.none_or, h.defaultUrl?_canonical] at hmade
  obtain rfl := Except.ok.inj hmade
  obtain ⟨hslash, hmarked⟩ := h.marked_server
  rw [Web.WebClient.make, if_neg h.notHub, Web.endpoint_make_of_marked hslash hmarked,
    Web.Factory.maxPages_standard]

/-- Making the name of the registry canonical once more changes nothing: the fetch, which is given
the name in the key, makes the same client. -/
theorem HasClient.canonical_canonical (h : r.HasClient maxPages client) :
    Registry.canonical (Registry.canonical r.registry) = Registry.canonical r.registry :=
  Registry.canonical_canonical h.marked.1

/-! ## From the address back to the host -/

variable {r' : Reference} {client' : Web.WebClient}

/-- References with one canonical name for their registries mean one host. -/
theorem HasClient.server_eq_of_canonical_eq (h : r.HasClient maxPages client)
    (h' : r'.HasClient maxPages client')
    (heq : Registry.canonical r'.registry = Registry.canonical r.registry) :
    r'.server = r.server := by
  have hurl := h'.defaultUrl?_canonical
  rw [heq, h.defaultUrl?_canonical] at hurl
  exact ((String.append_right_inj _).mp (Option.some.inj hurl)).symm

/-- Containers whose references mean different hosts share neither a key nor a fetch. -/
theorem HasClient.key_ne (h : r.HasClient maxPages client) (h' : r'.HasClient maxPages client')
    (hne : r'.server ≠ r.server) {c c' : Container} (hc : c.registry = r.registry)
    (hc' : c'.registry = r'.registry) (prereleases prereleases' : Bool) :
    c'.key prereleases' ≠ c.key prereleases ∧
      (c'.key prereleases').asked ≠ (c.key prereleases).asked := by
  have hname : Registry.canonical r'.registry ≠ Registry.canonical r.registry :=
    fun heq => hne (h.server_eq_of_canonical_eq h' heq)
  constructor
  · intro hkey
    have hregistry := congrArg Key.registry hkey
    simp only [Container.key, Key.make, hc, hc'] at hregistry
    exact hname hregistry
  · intro hasked
    have hregistry := congrArg Key.registry hasked
    simp only [Key.asked, Container.key, Key.make, hc, hc', h.canonical_canonical,
      h'.canonical_canonical] at hregistry
    exact hname hregistry

/-- **A client asks the host that its reference names**, and the fetch of any container of that
registry gets this client. A reference that means a different host has a client at a different
address, and the containers of the two registries share neither a key nor a fetch. -/
theorem baseUrl_eq_server (h : r.HasClient maxPages client) :
    client.endpoint.baseUrl = "https://" ++ r.server ∧
    (∀ c : Container, c.registry = r.registry → ∀ prereleases,
      (Web.Factory.standard maxPages).make (c.key prereleases).asked.registry = .ok client) ∧
    ∀ (r' : Reference) (client' : Web.WebClient), r'.HasClient maxPages client' →
      r'.server ≠ r.server →
      client'.endpoint.baseUrl ≠ client.endpoint.baseUrl ∧
      ∀ c c' : Container, c.registry = r.registry → c'.registry = r'.registry →
        ∀ prereleases prereleases', c'.key prereleases' ≠ c.key prereleases ∧
          (c'.key prereleases').asked ≠ (c.key prereleases).asked := by
  refine ⟨by rw [h.client_eq]; rfl, ?_, ?_⟩
  · intro c hc prereleases
    rw [← h.made, Key.asked, Container.key, Key.make, hc]
    simp only [Web.Factory.make, h.canonical_canonical]
  · intro r' client' h' hne
    constructor
    · intro hurl
      rw [h.client_eq, h'.client_eq] at hurl
      exact hne ((String.append_right_inj _).mp hurl)
    · intro c c' hc hc'
      exact h.key_ne h' hne hc hc'

/-- A well-known host and one with a port are asked at their own addresses. -/
theorem baseUrl_eq_server_port :
    ∃ r r' : Reference, ∃ client client' : Web.WebClient,
      read? "GHCR.io/org/app:1.0.0" = some r ∧ read? "registry.local:5000/org/app" = some r' ∧
      r.server = "ghcr.io" ∧ client.endpoint.baseUrl = "https://" ++ r.server ∧
      r'.server = "registry.local:5000" ∧
      client'.endpoint.baseUrl ≠ client.endpoint.baseUrl := by
  have hread : read? "GHCR.io/org/app:1.0.0" = some ⟨"GHCR.io", "org/app", "1.0.0", none⟩ := by
    decide +kernel
  have hread' : read? "registry.local:5000/org/app" =
      some ⟨"registry.local:5000", "org/app", "latest", none⟩ := by decide +kernel
  have h : HasClient ⟨"GHCR.io", "org/app", "1.0.0", none⟩ 10
      (.distribution ⟨"https://ghcr.io", 10⟩ {}) :=
    ⟨⟨_, hread⟩, by decide +kernel, by decide +kernel⟩
  have h' : HasClient ⟨"registry.local:5000", "org/app", "latest", none⟩ 10
      (.distribution ⟨"https://registry.local:5000", 10⟩ {}) :=
    ⟨⟨_, hread'⟩, by decide +kernel, by decide +kernel⟩
  obtain ⟨hurl, -, hother⟩ := baseUrl_eq_server h
  obtain ⟨hne, -⟩ := hother _ _ h' (by decide +kernel)
  exact ⟨_, _, _, _, hread, hread', by decide +kernel, hurl, by decide +kernel, hne⟩

/-- Two hosts of the domain `gcr.io` are both asked as `gcr.io` itself, with one key, and a blank
after a host is lost. -/
theorem baseUrl_shared :
    (∃ r r' : Reference, ∃ client : Web.WebClient,
      r.registry = "eu.gcr.io" ∧ r'.registry = "us.gcr.io" ∧
      r.HasClient 10 client ∧ r'.HasClient 10 client ∧
      client.endpoint.baseUrl = "https://gcr.io" ∧
      Key.make r.registry r.image r.tag .patch false =
        Key.make r'.registry r'.image r'.tag .patch false) ∧
    ∃ r : Reference, ∃ client : Web.WebClient,
      r.registry = "ghcr.io " ∧ r.HasClient 10 client ∧
      client.endpoint.baseUrl = "https://ghcr.io" := by
  refine ⟨⟨⟨"eu.gcr.io", "app", "1.0.0", none⟩, ⟨"us.gcr.io", "app", "1.0.0", none⟩,
    .distribution ⟨"https://gcr.io", 10⟩ {}, rfl, rfl, ?_, ?_, rfl, by decide +kernel⟩,
    ⟨"ghcr.io ", "app", "1.0.0", none⟩, .distribution ⟨"https://ghcr.io", 10⟩ {}, rfl, ?_, rfl⟩
  · exact ⟨⟨"eu.gcr.io/app:1.0.0", by decide +kernel⟩, by decide +kernel, by decide +kernel⟩
  · exact ⟨⟨"us.gcr.io/app:1.0.0", by decide +kernel⟩, by decide +kernel, by decide +kernel⟩
  · exact ⟨⟨"ghcr.io /app:1.0.0", by decide +kernel⟩, by decide +kernel, by decide +kernel⟩

end Reference

end TagWatch
