import TagWatch.Fetch.Fetch
import TagWatch.Json.Reader
import TagWatch.Json.Record
import TagWatch.Limit.Limiter

/-!
# Configuration

The configuration is a JSON record in which every field has a default; so is its section on
logging. `Config.load` tells apart why a configuration file cannot be used.
-/

namespace TagWatch

/-- What is logged, and where to. -/
structure LogConfig where
  level : String := "info"
  json : Bool := false
  /-- Whether the log is also written to a file. -/
  file : Bool := false
  deriving Repr, DecidableEq

/-- The configuration of the program. -/
structure Config where
  /-- Whether prereleases count for containers that do not say so themselves. -/
  includePrereleases : Bool := false
  /-- The number of fetches at once, over all registries. -/
  globalConcurrency : Nat := 10
  /-- Whether lists of tags are wanted from every registry. -/
  collectAllTags : Bool := false
  /-- The time that one request may take, in milliseconds. -/
  requestTimeoutMs : Nat := 30000
  /-- The number of pages of a list of tags that are followed. -/
  maxTagPages : Nat := 10
  /-- Rate limits that replace the built-in ones. -/
  rateLimits : Rates := .empty
  log : LogConfig := {}
  deriving Repr, DecidableEq

/-- Reads a rate limit, all of whose fields are required. -/
def Rate.ofJson? (j : Json) : Option Rate :=
  match j.fields? false ["requestsPerMinute", "concurrentLimit", "burstLimit"] with
  | some [rpm, concurrent, burst] => do
    return ⟨← Json.required Json.word? rpm, ← Json.required Json.word? concurrent,
      ← Json.required Json.word? burst⟩
  | _ => none

/-- Reads the section on logging. -/
def LogConfig.ofJson? (j : Json) : Option LogConfig :=
  let d : LogConfig := {}
  match j.fields? true ["level", "json", "file"] with
  | some [level, json, file] => do
    return ⟨← Json.withDefault d.level Json.text? level, ← Json.withDefault d.json Json.bool? json,
      ← Json.withDefault d.file Json.bool? file⟩
  | _ => none

namespace Config

/-- The names of the fields of a configuration, in their order. -/
def fieldNames : List String :=
  ["includePrereleases", "globalConcurrency", "collectAllTags", "requestTimeoutMs", "maxTagPages",
    "rateLimits", "log"]

/-- Reads a configuration. -/
def ofJson? (j : Json) : Option Config :=
  let d : Config := {}
  match j.fields? true fieldNames with
  | some [prereleases, concurrency, allTags, timeout, pages, limits, log] => do
    return {
      includePrereleases := ← Json.withDefault d.includePrereleases Json.bool? prereleases
      globalConcurrency := ← Json.withDefault d.globalConcurrency Json.word? concurrency
      collectAllTags := ← Json.withDefault d.collectAllTags Json.bool? allTags
      requestTimeoutMs := ← Json.withDefault d.requestTimeoutMs Json.word? timeout
      maxTagPages := ← Json.withDefault d.maxTagPages Json.word? pages
      rateLimits := ← Json.withDefault d.rateLimits (Json.table? Rate.ofJson?) limits
      log := ← Json.withDefault d.log LogConfig.ofJson? log }
  | _ => none

/-- Reads a configuration from the text of a file. -/
def read? (text : String) : Option Config := (Json.read? text).bind ofJson?

/-- The choices that a configuration makes for all fetches. -/
def fetchSettings (c : Config) : FetchSettings := ⟨c.includePrereleases, c.collectAllTags⟩

/-- The rate limits under a configuration. -/
def rates (c : Config) : Rates := Rates.overriding c.rateLimits

/-- The limiter for a configuration. -/
def limiter (c : Config) : Limit.Limiter := .fresh c.rates c.globalConcurrency

end Config

/-- What reading a file gives. -/
inductive FileContent where
  | missing
  | directory
  /-- The file may not be read. -/
  | forbidden
  | bytes (content : ByteArray)

/-- Why a configuration file cannot be used. -/
inductive ConfigError where
  | missing
  | directory
  | forbidden
  /-- The file is not UTF-8 text. -/
  | notText
  /-- The text is no configuration. -/
  | malformed
  deriving Repr, DecidableEq

namespace ConfigError

/-- Why the file could not be read, or none when it was read and not understood. -/
def reason? : ConfigError → Option String
  | missing => some "No such file or directory (os error 2)"
  | directory => some "Is a directory (os error 21)"
  | forbidden => some "Permission denied (os error 13)"
  | notText => some "stream did not contain valid UTF-8"
  | malformed => none

/-- The text of an error. -/
def message (e : ConfigError) : String :=
  match e.reason? with
  | some reason => "Failed to read config file: " ++ reason
  | none => "Failed to parse config file"

end ConfigError

namespace Config

/-- The configuration in a file. -/
def load : FileContent → Except ConfigError Config
  | .missing => .error .missing
  | .directory => .error .directory
  | .forbidden => .error .forbidden
  | .bytes content =>
    match String.fromUTF8? content with
    | none => .error .notText
    | some text =>
      match read? text with
      | some config => .ok config
      | none => .error .malformed

/-- The configuration in the file at the default place: without such a file the defaults. -/
def loadDefault : FileContent → Except ConfigError Config
  | .missing => .ok {}
  | content => load content

end Config

end TagWatch
