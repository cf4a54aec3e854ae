import TagWatch.Client.Distribution
import TagWatch.Client.Hub
import TagWatch.Http.Network
import TagWatch.Registry.Name

/-!
# Clients for registries on the web

Docker Hub has a client of its own; any other registry is asked through the OCI distribution
interface. The well-known registries have known addresses, a host of any other name is its own
address, and a single address can be given for each registry instead.
-/

namespace TagWatch.Web

open Http

/-- A client with what it remembers. -/
inductive WebClient where
  | hub (endpoint : Endpoint)
  | distribution (endpoint : Endpoint) (memory : Distribution.Memory)
  deriving Repr, DecidableEq

namespace WebClient

/-- The client for a registry by its canonical name. -/
def make (registry baseUrl : String) (maxPages : Nat) : WebClient :=
  if registry = Registry.hub then .hub (.make baseUrl maxPages)
  else .distribution (.make baseUrl maxPages) {}

/-- Answers a call. -/
def answer (c : WebClient) (call : Call) : HttpProgram (call.Answer × WebClient) := do
  match c with
  | hub e =>
    let a ← Hub.answer e call
    return (a, .hub e)
  | distribution e memory =>
    let (a, memory) ← (Distribution.answer e call).run memory
    return (a, .distribution e memory)

end WebClient

/-- The addresses of the well-known registries. -/
def knownUrls : List (String × String) :=
  [("dockerhub", "https://hub.docker.com"), ("ghcr", "https://ghcr.io"),
    ("quay", "https://quay.io"), ("lscr", "https://lscr.io"), ("gcr", "https://gcr.io"),
    ("gitlab", "https://registry.gitlab.com"), ("ecr", "https://public.ecr.aws")]

/-- The address of a registry by its canonical name: one that is not well known needs a dot or a
colon to be a host. -/
def defaultUrl? (registry : String) : Option String :=
  match Table.find registry knownUrls with
  | some url => some url
  | none =>
    if registry.toList.contains '.' || registry.toList.contains ':' then
      some ("https://" ++ registry)
    else none

/-- How clients are made. -/
structure Factory where
  maxPages : Nat := 10
  /-- The addresses that replace the default ones, by canonical name. -/
  baseUrls : Table String String := .empty
  deriving Repr, DecidableEq

namespace Factory

/-- The factory with the address of a registry replaced. -/
def withBaseUrl (f : Factory) (registry url : String) : Factory :=
  { f with baseUrls := f.baseUrls.set (Registry.canonical registry) url }

/-- Makes a client for a registry. -/
def make (f : Factory) (registry : String) : Except RegistryError WebClient :=
  let name := Registry.canonical registry
  match (f.baseUrls.get? name).or (defaultUrl? name) with
  | some url => .ok (.make name url f.maxPages)
  | none => .error (.unsupportedRegistry name)

end Factory

/-! ## The service -/

/-- The clients that were made, by their ids, and the state of the network. -/
structure State (σ : Type) where
  clients : List WebClient
  network : σ

variable {σ : Type}

/-- Makes a client. -/
def connect (f : Factory) (registry : String) (s : State σ) :
    Except RegistryError ClientId × State σ :=
  match f.make registry with
  | .ok client => (.ok s.clients.length, { s with clients := s.clients ++ [client] })
  | .error e => (.error e, s)

/-- Answers a call over the network. A client that was never made is one for Docker Hub without
an address. -/
def answer (network : Network σ) (id : ClientId) (call : Call) (s : State σ) :
    call.Answer × State σ :=
  let client := s.clients.getD id (.make Registry.hub "" 1)
  let ((a, client), n) := network.run (client.answer call) s.network
  (a, ⟨s.clients.set id client, n⟩)

/-- The service of clients on a network, on which calls take no time of their own. -/
def service (f : Factory) (network : Network σ) : Service (State σ) where
  connect := connect f
  start := fun _ _ s => (0, s)
  answer := answer network

end TagWatch.Web
