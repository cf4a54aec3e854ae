import TagWatch.Table
import TagWatch.Text.Blank
import TagWatch.Text.Cut

/-!
# Registry names

A registry is named by its host, and the well-known registries also by a short **canonical**
name. `canonical` maps every spelling to one name: blanks around it, slashes at its end, the
case of its letters and a leading `https://` or `http://` do not matter. A host without a short
name stands for itself, in small letters.
-/

namespace TagWatch.Registry

open Text

/-- The canonical name of Docker Hub, which also stands for the empty host. -/
def hub : String := "dockerhub"

/-- The hosts and short names of the well-known registries, with their canonical names. -/
def aliases : List (String × String) :=
  [("", hub), ("docker.io", hub), ("index.docker.io", hub), ("registry-1.docker.io", hub),
    ("registry.hub.docker.com", hub), ("hub.docker.com", hub), ("dockerhub", hub),
    ("ghcr.io", "ghcr"), ("ghcr", "ghcr"), ("quay.io", "quay"), ("quay", "quay"),
    ("lscr.io", "lscr"), ("lscr", "lscr"), ("registry.gitlab.com", "gitlab"),
    ("gitlab", "gitlab"), ("public.ecr.aws", "ecr"), ("ecr", "ecr"), ("gcr.io", "gcr"),
    ("gcr", "gcr")]

/-- A text without a leading `https://`, or else without a leading `http://`. -/
def dropScheme (s : List Char) : List Char :=
  match strip? "https://".toList s with
  | some rest => rest
  | none => (strip? "http://".toList s).getD s

/-- The host that a registry name speaks of: no blanks around it, no slashes at its end, small
letters and no scheme. -/
def host (name : String) : List Char :=
  dropScheme (lower (dropEndWhile (· = '/') (trim name.toList)))

/-- The canonical name of a host in small letters. -/
def ofHost (host : List Char) : String :=
  match Table.find (String.ofList host) aliases with
  | some name => name
  | none => if endsWith ".gcr.io".toList host then "gcr" else String.ofList host

/-- The canonical name of a registry. -/
def canonical (name : String) : String := ofHost (host name)

end TagWatch.Registry
