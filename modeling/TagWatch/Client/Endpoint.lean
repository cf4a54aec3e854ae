import TagWatch.Text.Blank

/-!
# Endpoints

An endpoint is where the interface of a registry is found, and how far its lists are followed.
-/

namespace TagWatch

/-- The number of tags that a page of a list is asked to hold. -/
def pageSize : Nat := 100

/-- The address of a registry and the number of pages of a list that are followed. -/
structure Endpoint where
  /-- The address, without slashes at its end. -/
  baseUrl : String
  maxPages : Nat
  deriving Repr, DecidableEq

/-- The endpoint at an address. At least one page is followed. -/
def Endpoint.make (baseUrl : String) (maxPages : Nat) : Endpoint :=
  ⟨String.ofList (Text.dropEndWhile (· = '/') baseUrl.toList), max 1 maxPages⟩

end TagWatch
