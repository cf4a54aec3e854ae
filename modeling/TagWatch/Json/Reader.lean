import TagWatch.Json.Basic
import TagWatch.Json.Token

/-!
# Reading JSON

A value is read from its tokens, one after another, by a machine. The machine keeps the
containers that are still open as a list of frames, the innermost first, and knows what may come
next; it needs no recursion, so that a value may be nested as deeply as memory allows.
-/

namespace TagWatch.Json

/-- An open container with the parts that it has so far, the latest first. -/
inductive Frame where
  | array (done : List Json)
  /-- An object in which the value of the given name comes next. -/
  | object (done : List (Option String × Json)) (name : Option String)
  deriving Repr

/-- What may come next, and the containers that are open around it. -/
inductive Reading where
  /-- A value. -/
  | value (outer : List Frame)
  /-- The first element of an array, or its end. -/
  | firstElement (outer : List Frame)
  /-- The first name of an object, or its end. -/
  | firstName (outer : List Frame)
  /-- A further name of an object. -/
  | nextName (done : List (Option String × Json)) (outer : List Frame)
  /-- The colon after a name. -/
  | colon (done : List (Option String × Json)) (name : Option String) (outer : List Frame)
  /-- What follows a complete value. -/
  | after (value : Json) (outer : List Frame)
  deriving Repr

namespace Reading

/-- A value begins. -/
def begin (outer : List Frame) : Token → Option Reading
  | .null => some (.after .null outer)
  | .bool b => some (.after (.bool b) outer)
  | .number literal => some (.after (.number literal) outer)
  | .string content => some (.after (.string content) outer)
  | .openArray => some (.firstElement outer)
  | .openObject => some (.firstName outer)
  | _ => none

/-- A token is read. -/
def step : Reading → Token → Option Reading
  | .value outer, t => begin outer t
  | .firstElement outer, .closeArray => some (.after (.array []) outer)
  | .firstElement outer, t => begin (.array [] :: outer) t
  | .firstName outer, .closeObject => some (.after (.object []) outer)
  | .firstName outer, .string name => some (.colon [] name outer)
  | .nextName done outer, .string name => some (.colon done name outer)
  | .colon done name outer, .colon => some (.value (.object done name :: outer))
  | .after v (.array done :: outer), .comma => some (.value (.array (v :: done) :: outer))
  | .after v (.array done :: outer), .closeArray =>
    some (.after (.array (v :: done).reverse) outer)
  | .after v (.object done name :: outer), .comma => some (.nextName ((name, v) :: done) outer)
  | .after v (.object done name :: outer), .closeObject =>
    some (.after (.object ((name, v) :: done).reverse) outer)
  | _, _ => none

/-- The value that has been read, if nothing is open. -/
def result? : Reading → Option Json
  | .after v [] => some v
  | _ => none

end Reading

/-- The value that a list of tokens spells. -/
def ofTokens? (tokens : List Token) : Option Json :=
  (tokens.foldlM Reading.step (.value [])).bind Reading.result?

/-- The value that a text spells, with nothing but white space around it. -/
def read? (text : String) : Option Json := (Token.scan text.toList).bind ofTokens?

end TagWatch.Json
