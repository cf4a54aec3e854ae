import TagWatch.Http.Host
import TagWatch.Registry.Error
import TagWatch.Text.Blank

/-!
# Web addresses

An address that a request can be sent to has the scheme `http` or `https` and a host. Reading
brings it into its normal form: small letters in scheme and host, no socket number that the
scheme implies, a path that begins with a slash and goes neither to a place itself (`.`) nor back
from one (`..`), and characters that may not stand in an address written as `%` and two
hexadecimal digits for each byte of their UTF-8 form.

A name and a password may stand in front of the host. They are no part of the normal form, but
go along with the request.
-/

namespace TagWatch.Http

open Text

/-- A name and a password that a server asks for. -/
structure Login where
  name : List UInt8
  password : List UInt8
  deriving Repr, DecidableEq

/-- An address in its normal form, and the login that stood in it. -/
structure Url where
  /-- Whether the scheme is `https`. -/
  secure : Bool
  login : Option Login
  host : Host
  /-- The number of the socket at the host, unless the scheme implies it. -/
  socket : Option Nat
  /-- The path with the query and the fragment. -/
  target : String
  deriving Repr, DecidableEq

namespace Url

/-- The scheme of an address. -/
def scheme (u : Url) : String := if u.secure then "https" else "http"

/-- The text of an address, without the login. -/
def render (u : Url) : String :=
  u.scheme ++ "://" ++ u.host.render ++
    (match u.socket with
      | some socket => ":" ++ toString socket
      | none => "") ++ u.target

/-- What two addresses have in common when they lead to the same server. -/
def origin (u : Url) : Bool × Host × Option Nat := (u.secure, u.host, u.socket)

/-! ## Characters that have to be encoded -/

/-- Whether a character has to be encoded wherever it stands after the host. -/
def unsafeAnywhere (c : Char) : Bool :=
  c.toNat ≤ 0x20 || 0x7F ≤ c.toNat || c = '"' || c = '<' || c = '>'

/-- Whether a character has to be encoded in a path. -/
def unsafeInPath (c : Char) : Bool :=
  unsafeAnywhere c || c = '\x60' || c = '\x7b' || c = '\x7d'

/-- Whether a character has to be encoded in a query. -/
def unsafeInQuery (c : Char) : Bool := unsafeAnywhere c || c = '\''

/-- Whether a character has to be encoded in a fragment. -/
def unsafeInFragment (c : Char) : Bool := unsafeAnywhere c || c = '\x60'

/-! ## Reading -/

/-- The scheme in front of a colon, in small letters, and the text after it. -/
def splitScheme (s : List Char) : Option (List Char × List Char) :=
  match cut ':' s with
  | some (c :: scheme, rest) =>
    if c.isAlpha && scheme.all fun d => d.isAlphanum || d = '+' || d = '-' || d = '.' then
      some (lower (c :: scheme), rest)
    else none
  | _ => none

/-- Whether a character ends the host part of an address. -/
def endsHost (c : Char) : Bool := c = '/' || c = '\\' || c = '?' || c = '#'

/-- The login in front of the last `@`, and the text after it. A name and a password are parted by
the first colon; a login without any of them counts as none. -/
def splitLogin (s : List Char) : Option Login × List Char :=
  match cutLast '@' s with
  | none => (none, s)
  | some (login, rest) =>
    let (name, password) := (cut ':' login).getD (login, [])
    if name.isEmpty && password.isEmpty then (none, rest)
    else (some ⟨percentBytes name, percentBytes password⟩, rest)

/-- The host and the text of the socket number, after the first colon that stands in no brackets. -/
def splitSocket (bracketed : Bool) : List Char → List Char × List Char
  | [] => ([], [])
  | c :: rest =>
    if c = ':' && !bracketed then ([], rest)
    else
      let (host, socket) := splitSocket (c = '[' || bracketed && c ≠ ']') rest
      (c :: host, socket)

/-- The number of a socket: absent when it is not written or implied by the scheme. -/
def readSocket (secure : Bool) (s : List Char) : Option (Option Nat) :=
  if s.isEmpty then some none
  else if s.all Char.isDigit then
    let socket := s.foldl (fun n c => 10 * n + (c.toNat - '0'.toNat)) 0
    if socket ≥ 65536 then none
    else if socket = (if secure then 443 else 80) then some none
    else some (some socket)
  else none

/-- Whether a part of a path stands for the place before it. -/
def isBack (part : List Char) : Bool :=
  ["..", ".%2e", "%2e.", "%2e%2e"].contains (String.ofList (lower part))

/-- Whether a part of a path stands for the place itself. -/
def isHere (part : List Char) : Bool := [".", "%2e"].contains (String.ofList (lower part))

/-- The parts of a path after those that were gone through, the latest first, without parts that
go nowhere or back. A path that ends with one of them ends with a slash. -/
def resolve (done : List (List Char)) : List (List Char) → List (List Char)
  | [] => done.reverse
  | part :: rest =>
    let kept := if isBack part then done.drop 1 else done
    if isBack part || isHere part then
      if rest.isEmpty then ([] :: kept).reverse else resolve kept rest
    else resolve (part :: done) rest

/-- The normal form of a path. -/
def readPath (s : List Char) : List Char :=
  let slashed := s.map fun c => if c = '\\' then '/' else c
  '/' :: encode unsafeInPath (joinWith '/' (resolve [] (fields '/' (slashed.drop 1))))

/-- The normal form of what follows the host. -/
def readTarget (s : List Char) : List Char :=
  let (beforeFragment, fragment) := (cut '#' s).elim (s, none) fun p => (p.1, some p.2)
  let (path, query) :=
    (cut '?' beforeFragment).elim (beforeFragment, none) fun p => (p.1, some p.2)
  readPath path ++
    (query.elim [] fun q => '?' :: encode unsafeInQuery q) ++
    (fragment.elim [] fun f => '#' :: encode unsafeInFragment f)

/-- A text without the characters that are skipped in an address: blanks at its ends, and tabs
and ends of lines anywhere. -/
def clean (s : List Char) : List Char :=
  (trimWhile (fun c => c.toNat ≤ 0x20) s).filter fun c => c ≠ '\t' && c ≠ '\n' && c ≠ '\r'

/-- Reads an address. -/
def read (text : String) : Except NetworkFailure Url :=
  match splitScheme (clean text.toList) with
  | none => .error .malformed
  | some (scheme, rest) =>
    if scheme ≠ "http".toList ∧ scheme ≠ "https".toList then
      .error (.foreignScheme (String.ofList (scheme ++ ':' :: rest)))
    else
      let secure := scheme == "https".toList
      let rest := rest.dropWhile fun c => c = '/' || c = '\\'
      let (login, server) := splitLogin (rest.takeWhile (!endsHost ·))
      let (host, socket) := splitSocket false server
      match Host.read? host, readSocket secure socket with
      | some host, some socket =>
        .ok
          { secure := secure
            login := login
            host := host
            socket := socket
            target := String.ofList (readTarget (rest.dropWhile (!endsHost ·))) }
      | _, _ => .error .malformed

end Url

end TagWatch.Http
