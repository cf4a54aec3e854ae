import TagWatch.Program
import TagWatch.Registry.Error
import TagWatch.Text.Blank
import TagWatch.Text.Cut

/-!
# Requests and responses

A client describes a request by the text of its address, what it accepts and, if it has one, a
token. The body of a response either is text or not; no client looks at other bodies.
-/

namespace TagWatch.Http

/-- The method of a request. -/
inductive Method where
  | get
  | head
  deriving Repr, DecidableEq

/-- The word for a method. -/
def Method.name : Method → String
  | get => "GET"
  | head => "HEAD"

/-- A request as a client describes it. -/
structure Request where
  method : Method
  /-- The address as the client put it together. -/
  url : String
  /-- The kinds of content that the client takes, `*/*` when it does not say. -/
  accept : Option String
  /-- The token that goes along in the header `Authorization`. -/
  token : Option String
  deriving Repr, DecidableEq

/-- The body of a response. -/
inductive Body where
  | text (content : String)
  /-- Bytes that are not UTF-8 text. -/
  | binary
  deriving Repr, DecidableEq

/-- A response. -/
structure Response where
  /-- The address that was asked, in its normal form. -/
  url : String
  status : Nat
  headers : List (String × String)
  body : Body
  deriving Repr, DecidableEq

namespace Response

/-- Whether a character may stand in a header that is read as text. -/
def isHeaderChar (c : Char) : Bool := (0x20 ≤ c.toNat && c.toNat < 0x7F) || c = '\t'

/-- The text of a header, whose name is compared without regard to case. The first of several
headers of one name counts, and only if its text is visible ASCII. -/
def header? (r : Response) (name : String) : Option String :=
  match r.headers.find? fun h => Text.lowerString h.1 == Text.lowerString name with
  | some (_, value) =>
    let trimmed := Text.trimWhile (fun c => c = ' ' || c = '\t') value.toList
    if trimmed.all isHeaderChar then some (String.ofList trimmed) else none
  | none => none

/-- Whether a response says that the request succeeded. -/
def isSuccess (r : Response) : Bool := 200 ≤ r.status && r.status < 300

end Response

/-- The phrases that belong to the status codes. -/
def reasons : List (Nat × String) :=
  [(100, "Continue"), (101, "Switching Protocols"), (102, "Processing"), (200, "OK"),
    (201, "Created"), (202, "Accepted"), (203, "Non Authoritative Information"),
    (204, "No Content"), (205, "Reset Content"), (206, "Partial Content"), (207, "Multi-Status"),
    (208, "Already Reported"), (226, "IM Used"), (300, "Multiple Choices"),
    (301, "Moved Permanently"), (302, "Found"), (303, "See Other"), (304, "Not Modified"),
    (305, "Use Proxy"), (307, "Temporary Redirect"), (308, "Permanent Redirect"),
    (400, "Bad Request"), (401, "Unauthorized"), (402, "Payment Required"), (403, "Forbidden"),
    (404, "Not Found"), (405, "Method Not Allowed"), (406, "Not Acceptable"),
    (407, "Proxy Authentication Required"), (408, "Request Timeout"), (409, "Conflict"),
    (410, "Gone"), (411, "Length Required"), (412, "Precondition Failed"),
    (413, "Payload Too Large"), (414, "URI Too Long"), (415, "Unsupported Media Type"),
    (416, "Range Not Satisfiable"), (417, "Expectation Failed"), (418, "I'm a teapot"),
    (421, "Misdirected Request"), (422, "Unprocessable Entity"), (423, "Locked"),
    (424, "Failed Dependency"), (425, "Too Early"), (426, "Upgrade Required"),
    (428, "Precondition Required"), (429, "Too Many Requests"),
    (431, "Request Header Fields Too Large"), (451, "Unavailable For Legal Reasons"),
    (500, "Internal Server Error"), (501, "Not Implemented"), (502, "Bad Gateway"),
    (503, "Service Unavailable"), (504, "Gateway Timeout"), (505, "HTTP Version Not Supported"),
    (506, "Variant Also Negotiates"), (507, "Insufficient Storage"), (508, "Loop Detected"),
    (510, "Not Extended"), (511, "Network Authentication Required")]

/-- A status code with its phrase. -/
def statusText (status : Nat) : String :=
  toString status ++ " " ++ (reasons.lookup status).getD "<unknown status code>"

/-- A program whose questions are requests. -/
abbrev HttpProgram := Program Request fun _ => Except NetworkFailure Response

/-- Sends one request. -/
def HttpProgram.send (r : Request) : HttpProgram (Except NetworkFailure Response) :=
  .question r

end TagWatch.Http
