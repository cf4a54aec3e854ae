/-!
# Results of fetches

What a registry told about one key: the tags of the image and the newest ones, or, for a
floating tag, the metadata of that tag, or the text of the error that prevented an answer.
-/

namespace TagWatch

/-- What a registry knows about a single tag. -/
structure TagMetadata where
  digest : Option String
  lastUpdated : Option String
  deriving Repr, DecidableEq

/-- The answer to one key. -/
structure FetchResult where
  /-- The tags of the image, empty when they were not listed. -/
  tags : List String
  /-- The newest tag inside the scope. -/
  latest : Option String
  /-- The newest tag, whatever the scope. -/
  latestOverall : Option String
  metadata : Option TagMetadata
  /-- Whether the registry tracks the current tag by digest. -/
  floating : Bool
  error : Option String
  deriving Repr, DecidableEq

namespace FetchResult

/-- The answer for a tag that holds a version. -/
def success (tags : List String) (latest latestOverall : Option String)
    (metadata : Option TagMetadata) : FetchResult :=
  ⟨tags, latest, latestOverall, metadata, false, none⟩

/-- The answer for a floating tag. -/
def ofFloating (metadata : TagMetadata) : FetchResult :=
  ⟨[], none, none, some metadata, true, none⟩

/-- The answer when the registry could not be asked. -/
def failed (error : String) : FetchResult := ⟨[], none, none, none, false, some error⟩

/-- The digest that the registry reported. -/
def digest (r : FetchResult) : Option String := r.metadata.bind (·.digest)

end FetchResult

end TagWatch
