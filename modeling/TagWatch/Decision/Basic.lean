import TagWatch.Level

/-!
# Decisions

A decision is the verdict on one container: whether there is an update, of which kind, and
whether a newer tag lies outside the scope. Its trace keeps every fact that led to it.
-/

namespace TagWatch

/-- How an update was found: a newer tag, or a floating tag that points at another digest. -/
inductive UpdateKind where
  | tag
  | digest
  deriving Repr, DecidableEq

/-- The word for a kind of update. -/
def UpdateKind.name : UpdateKind → String
  | tag => "tag"
  | digest => "digest"

/-- The stored digest of a floating tag beside the reported one. -/
structure DigestComparison where
  previous : Option String
  current : String
  changed : Bool
  deriving Repr, DecidableEq

/-- A fact about a fetch that does not fit the container. -/
inductive Anomaly where
  | notNewer (latest current : String)
  | incomparable (current latest : String)
  | digestMissing (tag : String)
  | digestIgnored
  | overallNotNewer (latest current : String)
  deriving Repr, DecidableEq

/-- The text of an anomaly. -/
def Anomaly.message : Anomaly → String
  | notNewer latest current => "latest tag " ++ latest ++ " is not newer than " ++ current
  | incomparable current latest =>
    "cannot compare " ++ current ++ " with " ++ latest ++ ": unparseable version"
  | digestMissing tag => "no digest reported for floating tag " ++ tag
  | digestIgnored => "digest ignored for semantic version tag"
  | overallNotNewer latest current =>
    "latest major tag " ++ latest ++ " is not newer than " ++ current

/-- A newer tag that the scope keeps out. -/
structure ScopeBlock where
  tag : String
  scope : Level
  deriving Repr, DecidableEq

/-- The text that tells which tag the scope keeps out. -/
def ScopeBlock.message (b : ScopeBlock) : String :=
  b.tag ++ " is available but outside the '" ++ b.scope.name ++ "' update scope"

/-- The facts that led to a decision. After a failed fetch only the facts about the container
and the error are filled in. -/
structure Trace where
  registry : String
  currentTag : String
  currentDigest : Option String
  scope : Level
  prereleases : Bool
  suffix : Option String := none
  floating : Bool := false
  tagCount : Nat := 0
  latest : Option String := none
  latestOverall : Option String := none
  change : Option Level := none
  digest : Option DigestComparison := none
  block : Option ScopeBlock := none
  error : Option String := none
  anomalies : List Anomaly := []
  deriving Repr, DecidableEq

/-- The verdict on one container. -/
structure Decision where
  hasUpdate : Bool
  kind : Option UpdateKind
  latest : Option String
  latestOverall : Option String
  change : Option Level
  outsideScope : Bool
  digestChanged : Bool
  newDigest : Option String
  /-- A digest was reported for a floating tag and none was stored before. -/
  baselineNeeded : Bool
  trace : Trace
  deriving Repr, DecidableEq

/-- The decision that proposes nothing. -/
def Decision.nothing (trace : Trace) : Decision :=
  ⟨false, none, none, none, none, false, false, none, false, trace⟩

end TagWatch
