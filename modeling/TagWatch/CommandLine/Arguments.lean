import TagWatch.Level

/-!
# Command lines

The program has one command, `check`, with options and image references:

    check [--config PATH] [--scope SCOPE] [--prereleases] [--digest IMAGE=DIGEST]... [--json]
          IMAGE...

**Words.** An argument is an option when it begins with a hyphen and has more than that; after the
first `--` every argument is a reference. The value of an option is part of its word, behind an
equals sign, or the next word.

**When values are looked at.** A value that is a word of its own is examined when the next option
or reference has been recognised, or the arguments end. So a mistake in the name of an option is
reported before a mistake in the value in front of it, and `readCheck` keeps that option as
*pending* until then. Only `--digest` may be given more than once.
-/

namespace TagWatch.CommandLine

open Text

/-! ## Words -/

/-- What an argument looks like. -/
inductive Word where
  /-- The argument `--`. -/
  | separator
  /-- Two hyphens and a name, with or without a value behind an equals sign. -/
  | long (name : String) (value : Option String)
  /-- One hyphen and letters, of which the first one decides. -/
  | short (letter : Char)
  | plain (text : String)
  deriving Repr, DecidableEq

/-- What an argument looks like. -/
def Word.ofArgument (argument : String) : Word :=
  match argument.toList with
  | ['-', '-'] => .separator
  | '-' :: '-' :: s =>
    match cut '=' s with
    | some (name, value) => .long (String.ofList name) (some (String.ofList value))
    | none => .long (String.ofList s) none
  | '-' :: c :: _ => .short c
  | _ => .plain argument

/-! ## What is asked for -/

/-- What a check was asked to do. -/
structure CheckRequest where
  /-- The path of the configuration, unless it is the default one. -/
  config : Option String := none
  /-- How far updates may go, if that is said. -/
  scope : Option Level := none
  prereleases : Bool := false
  /-- Whether the report is printed as JSON. -/
  json : Bool := false
  /-- Last known digests with the references that they belong to. -/
  digests : List (String × String) := []
  references : List String := []
  deriving Repr, DecidableEq

/-- What the program was asked to do. -/
inductive Command where
  | help
  | version
  | check (request : CheckRequest)
  deriving Repr, DecidableEq

/-- Why a command line cannot be understood. -/
inductive UsageError where
  /-- There are no arguments. -/
  | nothingAsked
  | unknownCommand (word : String)
  | unknownOption (word : String)
  /-- An option has no value, or an empty one where that is none. -/
  | missingValue (option : String)
  | invalidValue (option value : String)
  /-- An option is there for the second time. -/
  | repeatedOption (option : String)
  /-- An option that takes no value has one. -/
  | unexpectedValue (option : String)
  | noReferences
  deriving Repr, DecidableEq

/-- The text of a complaint. -/
def UsageError.message : UsageError → String
  | nothingAsked => "a command is required"
  | unknownCommand word => "unrecognized command '" ++ word ++ "'"
  | unknownOption word => "unexpected argument '" ++ word ++ "'"
  | missingValue option => "a value is required for '" ++ option ++ "'"
  | invalidValue option value => "invalid value '" ++ value ++ "' for '" ++ option ++ "'"
  | repeatedOption option => "'" ++ option ++ "' cannot be used multiple times"
  | unexpectedValue option => "'" ++ option ++ "' takes no value"
  | noReferences => "at least one image reference is required"

/-! ## Options of a check -/

/-- An option that takes a value. -/
inductive ValueOption where
  | config
  | scope
  | digest
  deriving Repr, DecidableEq

/-- An option that is there or not. -/
inductive Switch where
  | prereleases
  | json
  deriving Repr, DecidableEq

/-- What an option of a check is. -/
inductive CheckOption where
  | valued (option : ValueOption)
  | switch (option : Switch)
  | help
  deriving Repr, DecidableEq

/-- The option as it is written. -/
def ValueOption.word : ValueOption → String
  | config => "--config"
  | scope => "--scope"
  | digest => "--digest"

/-- The option as it is written. -/
def Switch.word : Switch → String
  | prereleases => "--prereleases"
  | json => "--json"

/-- The option of a check with a given name. -/
def CheckOption.ofName? : String → Option CheckOption
  | "config" => some (.valued .config)
  | "scope" => some (.valued .scope)
  | "digest" => some (.valued .digest)
  | "prereleases" => some (.switch .prereleases)
  | "json" => some (.switch .json)
  | "help" => some .help
  | _ => none

/-- The image and the digest on the two sides of the first equals sign; neither is empty. -/
def readDigest? (value : String) : Option (String × String) :=
  match cut '=' value.toList with
  | some (image, digest) =>
    if image.isEmpty || digest.isEmpty then none
    else some (String.ofList image, String.ofList digest)
  | none => none

namespace CheckRequest

/-- The request with the value of an option. -/
def assign (r : CheckRequest) (option : ValueOption) (value : String) :
    Except UsageError CheckRequest :=
  let invalid : UsageError := .invalidValue option.word value
  match option with
  | .config =>
    if r.config.isSome then .error (.repeatedOption option.word)
    else if value.isEmpty then .error (.missingValue option.word)
    else .ok { r with config := some value }
  | .scope =>
    if r.scope.isSome then .error (.repeatedOption option.word)
    else match Level.read value with
      | .ok level => .ok { r with scope := some level }
      | .error _ => .error invalid
  | .digest =>
    match readDigest? value with
    | some d => .ok { r with digests := r.digests ++ [d] }
    | none => .error invalid

/-- The request with a switch turned on. -/
def turnOn (r : CheckRequest) (option : Switch) : Except UsageError CheckRequest :=
  match option with
  | .prereleases =>
    if r.prereleases then .error (.repeatedOption option.word)
    else .ok { r with prereleases := true }
  | .json =>
    if r.json then .error (.repeatedOption option.word) else .ok { r with json := true }

/-- The request with more references. -/
def addReferences (r : CheckRequest) (more : List String) : CheckRequest :=
  { r with references := r.references ++ more }

end CheckRequest

/-! ## Reading -/

/-- An option whose value has not been looked at, or has not even come yet. -/
structure Pending where
  option : ValueOption
  value : Option String
  deriving Repr, DecidableEq

/-- The request after the pending option was looked at. -/
def settle (r : CheckRequest) : Option Pending → Except UsageError CheckRequest
  | none => .ok r
  | some ⟨option, some value⟩ => r.assign option value
  | some ⟨option, none⟩ => .error (.missingValue option.word)

/-- The command of a request that is complete. -/
def finish (r : CheckRequest) : Except UsageError Command :=
  if r.references.isEmpty then .error .noReferences else .ok (.check r)

/-- Reads the arguments of a check, after a part of the request and a pending option. -/
def readCheck (r : CheckRequest) (pending : Option Pending) :
    List String → Except UsageError Command
  | [] => do finish (← settle r pending)
  | argument :: rest =>
    match Word.ofArgument argument with
    | .separator => do finish ((← settle r pending).addReferences rest)
    | .short letter =>
      if letter = 'h' then do
        let _ ← settle r pending
        return .help
      else .error (.unknownOption argument)
    | .long name value =>
      match CheckOption.ofName? name, value with
      | none, _ => .error (.unknownOption argument)
      | some (.valued option), some value => do
        readCheck (← (← settle r pending).assign option value) none rest
      | some (.valued option), none => do
        readCheck (← settle r pending) (some ⟨option, none⟩) rest
      | some (.switch option), some _ => .error (.unexpectedValue option.word)
      | some (.switch option), none => do
        readCheck (← (← settle r pending).turnOn option) none rest
      | some .help, some _ => .error (.unexpectedValue "--help")
      | some .help, none => do
        let _ ← settle r pending
        return .help
    | .plain text =>
      match pending with
      | some ⟨option, none⟩ => readCheck r (some ⟨option, some text⟩) rest
      | _ => do readCheck ((← settle r pending).addReferences [text]) none rest

/-- Reads the arguments after the word `help`: at most the name of a command. -/
def readHelp : List String → Except UsageError Command
  | [] => .ok .help
  | [topic] =>
    if topic = "check" ∨ topic = "help" then .ok .help else .error (.unknownCommand topic)
  | topic :: more :: _ =>
    .error (.unknownCommand (if topic = "check" ∨ topic = "help" then more else topic))

/-- Reads the arguments after a leading `--`, where no command can follow. -/
def readAfterSeparator : List String → Except UsageError Command
  | [] => .error .nothingAsked
  | word :: _ =>
    if word = "check" ∨ word = "help" then .error (.unknownOption "--")
    else .error (.unknownCommand word)

/-- Reads the arguments of the program. -/
def read : List String → Except UsageError Command
  | [] => .error .nothingAsked
  | argument :: rest =>
    match Word.ofArgument argument with
    | .separator => readAfterSeparator rest
    | .short 'V' => .ok .version
    | .short 'h' => .ok .help
    | .short _ => .error (.unknownOption argument)
    | .long name value =>
      if name = "version" ∨ name = "help" then
        if value.isSome then .error (.unexpectedValue ("--" ++ name))
        else .ok (if name = "version" then .version else .help)
      else .error (.unknownOption argument)
    | .plain word =>
      if word = "check" then readCheck {} none rest
      else if word = "help" then readHelp rest
      else .error (.unknownCommand word)

end TagWatch.CommandLine
