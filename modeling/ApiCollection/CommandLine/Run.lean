import ApiCollection.Project.Run
import ApiCollection.Project.Settings

/-!
# Runs from the command line

Arguments are options, each given at most once and followed by a value, and flags. A long name takes
its value behind an equals sign or from the next argument; a letter, also from the rest of its own
argument. The value of an option is looked at when the next option or flag comes, or at the end.

A run that fails says why: first what was being done, then the cause. A failure whose text is that
of the system or of a reader adds nothing.
-/

namespace ApiCollection.CommandLine

open Text

/-- Why arguments are not accepted, or what is asked for instead of a run. -/
inductive ArgumentError where
  | missingRequired
  | unknownArgument
  /-- A value is missing or is none of those that are possible. -/
  | invalidValue
  | invalidNumber
  | givenTwice
  /-- A flag with a value. -/
  | tooManyValues
  | help
  | version
  deriving DecidableEq, Repr

inductive Key where
  | project
  | out
  | baseUrl
  | format
  | wanted
  | unwanted
  | concurrency
  | seed
  deriving DecidableEq, Repr

inductive Flag where
  | verbose
  | help
  | version
  deriving DecidableEq, Repr

inductive Switch where
  | key (k : Key)
  | flag (f : Flag)
  deriving DecidableEq, Repr

def Switch.ofName? : String → Option Switch
  | "project" => some (.key .project)
  | "out" => some (.key .out)
  | "base-url" => some (.key .baseUrl)
  | "format" => some (.key .format)
  | "include" => some (.key .wanted)
  | "exclude" => some (.key .unwanted)
  | "concurrency" => some (.key .concurrency)
  | "seed" => some (.key .seed)
  | "verbose" => some (.flag .verbose)
  | "help" => some (.flag .help)
  | "version" => some (.flag .version)
  | _ => none

def Switch.ofLetter? : Char → Option Switch
  | 'o' => some (.key .out)
  | 'f' => some (.key .format)
  | 'v' => some (.flag .verbose)
  | 'h' => some (.flag .help)
  | 'V' => some (.flag .version)
  | _ => none

structure Arguments where
  project : String := ""
  outputPath : String := "./postman_collection.json"
  baseUrl : Option String := none
  output : OutputKind := .collection
  wanted : Option String := none
  unwanted : Option String := none
  concurrency : Nat := 5
  seed : UInt64 := 42
  verbose : Bool := false
  deriving DecidableEq, Repr

/-- A decimal number below 2^64, possibly with a plus sign. -/
def number? (text : String) : Option Nat :=
  let digits := match text.toList with
    | '+' :: rest => rest
    | digits => digits
  if digits.isEmpty || !digits.all Char.isDigit then none
  else
    let n := digits.foldl (fun n d => n * 10 + (d.toNat - '0'.toNat)) 0
    if n < Nat.pow 2 64 then some n else none

def output? : String → Option OutputKind
  | "postman" => some .collection
  | "openapi" => some .document
  | _ => none

def Arguments.set (a : Arguments) (key : Key) (value : String) : Except ArgumentError Arguments :=
  match key with
  | .project => .ok { a with project := value }
  | .out => if value.isEmpty then .error .invalidValue else .ok { a with outputPath := value }
  | .baseUrl => .ok { a with baseUrl := some value }
  | .format => match output? value with
    | some kind => .ok { a with output := kind }
    | none => .error .invalidValue
  | .wanted => .ok { a with wanted := some value }
  | .unwanted => .ok { a with unwanted := some value }
  | .concurrency => match number? value with
    | some n => .ok { a with concurrency := n }
    | none => .error .invalidNumber
  | .seed => match number? value with
    | some n => .ok { a with seed := .ofNat n }
    | none => .error .invalidNumber

structure ReaderState where
  arguments : Arguments := {}
  given : List Key := []
  /-- The option that was named last, and its value if that was read. -/
  pending : Option (Key × Option String) := none
  /-- Whether only plain arguments follow. -/
  plain : Bool := false

namespace ReaderState

def accept (st : ReaderState) (key : Key) (value : String) : Except ArgumentError ReaderState := do
  if st.given.contains key then .error .givenTwice
  return { st with arguments := ← st.arguments.set key value, given := key :: st.given }

def settle (st : ReaderState) : Except ArgumentError ReaderState :=
  match st.pending with
  | none => .ok st
  | some (_, none) => .error .invalidValue
  | some (key, some value) => { st with pending := none }.accept key value

def option (st : ReaderState) (key : Key) (value : Option String) :
    Except ArgumentError ReaderState := do
  let st ← st.settle
  match value with
  | some value => st.accept key value
  | none => return { st with pending := some (key, none) }

def flag (st : ReaderState) (f : Flag) : Except ArgumentError ReaderState := do
  let st ← st.settle
  match f with
  | .help => .error .help
  | .version => .error .version
  | .verbose =>
    if st.arguments.verbose then .error .givenTwice
    else return { st with arguments := { st.arguments with verbose := true } }

/-- Takes the letters of an argument. The first one that needs a value takes the rest for it. -/
def letters (st : ReaderState) : List Char → Except ArgumentError ReaderState
  | [] => .ok st
  | c :: rest =>
    match Switch.ofLetter? c with
    | none => .error .unknownArgument
    | some (.flag f) => do (← st.flag f).letters rest
    | some (.key k) => st.option k (match rest with
      | [] => none
      | '=' :: value => some (String.ofList value)
      | value => some (String.ofList value))

/-- Takes a long name, perhaps with a value. -/
def long (st : ReaderState) (text : List Char) : Except ArgumentError ReaderState :=
  let (name, value) := match cutAtChar? '=' text with
    | some (name, value) => (name, some (String.ofList value))
    | none => (text, none)
  match Switch.ofName? (String.ofList name), value with
  | none, _ => .error .unknownArgument
  | some (.key k), value => st.option k value
  | some (.flag _), some _ => .error .tooManyValues
  | some (.flag f), none => st.flag f

/-- Takes an argument that is no switch: the value that is waited for, if there is one. -/
def plainArgument (st : ReaderState) (text : String) : Except ArgumentError ReaderState :=
  match st.plain, st.pending with
  | false, some (key, none) => .ok { st with pending := some (key, some text) }
  | _, _ => .error .unknownArgument

def step (st : ReaderState) (argument : String) : Except ArgumentError ReaderState :=
  if st.plain then st.plainArgument argument
  else match argument.toList with
    | ['-', '-'] => .ok { st with plain := true }
    | '-' :: '-' :: text => st.long text
    | '-' :: c :: text => st.letters (c :: text)
    | _ => st.plainArgument argument

end ReaderState

def Arguments.parse (arguments : List String) : Except ArgumentError Arguments := do
  let st ← arguments.foldlM ReaderState.step {}
  let st ← st.settle
  if st.given.contains .project then return st.arguments else .error .missingRequired

def noWorkers : String := "--concurrency must be at least 1"

def Arguments.settings (a : Arguments) : Except String Settings :=
  if a.concurrency = 0 then .error noWorkers
  else .ok {
    source := .ofText a.project, outputPath := a.outputPath
    baseUrl := a.baseUrl.map fun url => String.ofList (dropEndWhile (· == '/') url.toList)
    output := a.output
    filter := {
      wanted := a.wanted.elim [] Pattern.patternList
      unwanted := a.unwanted.elim [] Pattern.patternList }
    concurrency := a.concurrency, seed := a.seed }

structure Trouble where
  failure : Option Failure := none
  /-- What is said, the outermost statement first. -/
  messages : List String
  deriving DecidableEq, Repr

def Trouble.ofFailure (failure : Failure) : Trouble :=
  { failure := failure, messages := "Generation failed" :: failure.message?.toList }

def Trouble.undetected (source : ProjectSource) : Trouble where
  messages := ["Could not detect an API description in " ++ source.text ++ ".\n" ++
    "Expected one of:\n" ++
    "  - an OpenAPI document (openapi.json, openapi.yaml, swagger.json, ...)\n" ++
    "  - Spring Boot controllers under src/main/java\n" ++
    "  - a URL serving an OpenAPI document (e.g. http://localhost:8080/v3/api-docs)"]

def run (arguments : Arguments) (network : Network) (fs : FileSystem) :
    FileSystem × Except Trouble Report :=
  match arguments.settings with
  | .error message => (fs, .error { messages := [message] })
  | .ok settings =>
    match settings.run network fs with
    | (fs, .ok (some report)) => (fs, .ok report)
    | (fs, .ok none) => (fs, .error (.undetected settings.source))
    | (fs, .error failure) => (fs, .error (.ofFailure failure))

end ApiCollection.CommandLine
