import TagWatch.Registry.Name
import TagWatch.Table

/-!
# Rate limits

A registry may be asked a number of times per minute, by a number of fetches at once. The
built-in limits are kept by canonical registry name; a registry that is not among them has the
limits `Rate.standard`.
-/

namespace TagWatch

/-- The limits of one registry. -/
structure Rate where
  requestsPerMinute : Nat
  concurrent : Nat
  /-- Reported only: the window and the number of slots are what is enforced. -/
  burst : Nat
  deriving Repr, DecidableEq

/-- Rate limits by registry name. -/
abbrev Rates := Table String Rate

/-- The limits of a registry that has none of its own. -/
def Rate.standard : Rate := ⟨30, 2, 5⟩

namespace Rates

/-- The limits of the well-known registries. -/
def builtIn : Rates :=
  ⟨[("dockerhub", ⟨30, 3, 5⟩), ("ghcr", ⟨60, 5, 10⟩), ("quay", ⟨60, 5, 10⟩),
    ("gcr", ⟨60, 5, 10⟩), ("lscr", ⟨60, 5, 10⟩), ("gitlab", ⟨60, 3, 5⟩),
    ("ecr", ⟨60, 5, 10⟩)]⟩

/-- The limits under a name, or the standard ones. -/
def lookup (rates : Rates) (name : String) : Rate := rates.getD name .standard

/-- The limits of a registry of any spelling. -/
def forRegistry (rates : Rates) (registry : String) : Rate :=
  rates.lookup (Registry.canonical registry)

/-- The built-in limits with others written over them, by canonical name. -/
def overriding (overrides : Rates) : Rates :=
  overrides.entries.foldl (fun rates e => rates.set (Registry.canonical e.1) e.2) builtIn

end Rates

end TagWatch
