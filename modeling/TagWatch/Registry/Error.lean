/-!
# What can go wrong with a registry

Each way in which a question to a registry can fail is a constructor of `RegistryError`; the
wording of all of them is `message`.
-/

namespace TagWatch

/-- Why a request got no response. -/
inductive NetworkFailure where
  /-- The request could not be formed: the address does not parse or a header is not text. -/
  | malformed
  /-- The address uses a scheme other than `http` and `https`. -/
  | foreignScheme (url : String)
  /-- The request could not be sent, or the connection broke. -/
  | unreachable (url : String)
  deriving Repr, DecidableEq

/-- The description of a failed request. -/
def NetworkFailure.message : NetworkFailure → String
  | malformed => "builder error"
  | foreignScheme url => "builder error for url (" ++ url ++ ")"
  | unreachable url => "error sending request for url (" ++ url ++ ")"

/-- Why a question to a registry has no answer. -/
inductive RegistryError where
  | network (failure : NetworkFailure)
  | rateLimited (retryAfterSeconds : Option Nat)
  | notFound (what : String)
  | unauthorized (what : String)
  | invalidResponse (what : String)
  | unsupportedRegistry (name : String)
  deriving Repr, DecidableEq

/-- The text of an error. -/
def RegistryError.message : RegistryError → String
  | network failure => "Network error: " ++ failure.message
  | rateLimited none => "Rate limited"
  | rateLimited (some seconds) => "Rate limited: retry after " ++ toString seconds ++ " seconds"
  | notFound what => "Image not found: " ++ what
  | unauthorized what => "Unauthorized: " ++ what
  | invalidResponse what => "Invalid response: " ++ what
  | unsupportedRegistry name => "Unsupported registry: " ++ name

end TagWatch
