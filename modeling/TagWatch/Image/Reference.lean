import TagWatch.Registry.Name

/-!
# Image references

A reference is written `[registry/]repository[:tag][@digest]`. The first part of the path is a
registry host when it contains a dot or a colon or is `localhost`; without one the registry is
`docker.io`. The tag follows the last colon after the last slash, and is `latest` when there is
none. On Docker Hub a repository of a single part lives in the namespace `library`.

`render` writes a reference with all its parts.
-/

namespace TagWatch

open Text

/-- The parts of an image reference. -/
structure Reference where
  /-- The registry as written, `docker.io` when it is left out. -/
  registry : String
  /-- The repository path. -/
  image : String
  tag : String
  /-- The digest that the reference is pinned to. -/
  digest : Option String
  deriving Repr, DecidableEq

namespace Reference

/-- Whether the first part of a path names a registry host. -/
def isHost (part : List Char) : Bool :=
  part.contains '.' || part.contains ':' || part == "localhost".toList

/-- The name and the digest on the two sides of the first `@`. -/
def splitDigest (s : List Char) : List Char × Option (List Char) :=
  match cut '@' s with
  | some (name, digest) => (name, some digest)
  | none => (s, none)

/-- The text up to and including the last slash, and the text after it. -/
def splitPath (s : List Char) : List Char × List Char :=
  match cutLast '/' s with
  | some (directory, file) => (directory ++ ['/'], file)
  | none => ([], s)

/-- The name and the tag on the two sides of the last colon after the last slash. -/
def splitTag (s : List Char) : List Char × List Char :=
  let (directory, file) := splitPath s
  match cutLast ':' file with
  | some (name, tag) => (directory ++ name, tag)
  | none => (s, "latest".toList)

/-- The registry and the path of a name. -/
def splitHost (name : List Char) : List Char × List Char :=
  match cut '/' name with
  | some (first, rest) => if isHost first then (first, rest) else ("docker.io".toList, name)
  | none => ("docker.io".toList, name)

/-- The repository that a path means on a registry. -/
def repository (registry : String) (path : List Char) : List Char :=
  if Registry.canonical registry == Registry.hub && !path.contains '/'
  then "library/".toList ++ path else path

/-- Reads the parts of a reference; its name and its tag must not be empty. -/
def read? (text : String) : Option Reference :=
  let (nameAndTag, digest) := splitDigest (trim text.toList)
  let (name, tag) := splitTag nameAndTag
  if name.isEmpty || tag.isEmpty then none
  else
    let (host, path) := splitHost name
    let registry := String.ofList host
    some
      { registry := registry
        image := String.ofList (repository registry path)
        tag := String.ofList tag
        digest := digest.map String.ofList }

/-- The reference with all its parts written out. -/
def render (r : Reference) : String :=
  r.registry ++ "/" ++ r.image ++ ":" ++ r.tag ++
    (match r.digest with
      | some d => "@" ++ d
      | none => "")

end Reference

end TagWatch
