import ApiCollection.CommandLine.Run

/-!
# The program

The program takes a picture of the part of the disk that a run can look at, runs on it, and then
writes to the disk what the run has changed. It asks no servers.
-/

namespace ApiCollection.CommandLine

def placeOf (working : Place) (path : String) : Place :=
  (Path.parts path).foldl (fun place part =>
    match part with
    | .root => []
    | .current => place
    | .parent => place.dropLast
    | .name name => place ++ [name]) working

def pathOf (place : Place) : String := "/" ++ "/".intercalate place

def diskEntry (path : String) : IO.FS.DirEntry := { root := path, fileName := "" }

def look (place : Place) : IO (Option Entry) := do
  let path := (diskEntry (pathOf place)).root
  if ← path.isDir then return some .folder
  else if ← path.pathExists then
    let bytes ← (some <$> IO.FS.readBinFile path).catchExceptions fun _ => pure none
    return some (.file (bytes.map (·.toList)))
  else return none

partial def lookBelow (place : Place) : IO (List (Place × Entry)) := do
  match ← look place with
  | none => return []
  | some (.file bytes) => return [(place, .file bytes)]
  | some .folder =>
    let entries ← (diskEntry (pathOf place)).root.readDir.catchExceptions fun _ => pure #[]
    let below ← entries.toList.mapM fun e => lookBelow (place ++ [e.fileName])
    return (place, .folder) :: below.flatten

def lookAlong (place : Place) : IO (List (Place × Entry)) := do
  let found ← (List.range place.length).mapM fun n => do
    let here := place.take (n + 1)
    return (← look here).map fun entry => (here, entry)
  return found.filterMap id

/-- The part of the disk that matters for a run. -/
def picture (arguments : Arguments) : IO FileSystem := do
  let working := placeOf [] (← IO.currentDir).toString
  let project := placeOf working arguments.project
  let documents ← OpenApi.fileNames.mapM fun name => lookBelow (project ++ [name])
  let entries := (← lookAlong working) ++ (← lookAlong project) ++ documents.flatten ++
    (← lookBelow (project ++ ["src"]))
  let fs : FileSystem := { entries := entries, working := working }
  let others ← lookAlong (placeOf working arguments.outputPath)
  return { fs with entries := entries ++ others.filter fun e => (fs.at? e.1).isNone }

def commit (before after : FileSystem) : IO Unit :=
  after.entries.forM fun (place, entry) => do
    if before.at? place != some entry then
      match entry with
      | .folder => IO.FS.createDirAll (pathOf place)
      | .file bytes => IO.FS.writeBinFile (pathOf place) ⟨(bytes.getD []).toArray⟩

def usage : String :=
  "Usage: --project <PATH|URL> [OPTIONS]\n\n" ++
  "Options:\n" ++
  "      --project <PATH|URL>  Project directory, OpenAPI file, or OpenAPI URL\n" ++
  "  -o, --out <FILE>          Output file path [default: ./postman_collection.json]\n" ++
  "      --base-url <URL>      Override the base URL of the generated requests\n" ++
  "  -f, --format <FORMAT>     Output format: postman or openapi [default: postman]\n" ++
  "      --include <PATTERNS>  Only scan controller files matching these patterns\n" ++
  "      --exclude <PATTERNS>  Skip controller files matching these patterns\n" ++
  "      --concurrency <N>     Controller files processed in parallel [default: 5]\n" ++
  "      --seed <N>            Seed for generated example data [default: 42]\n" ++
  "  -v, --verbose             Enable verbose output\n" ++
  "  -h, --help                Print help\n" ++
  "  -V, --version             Print version"

def ArgumentError.message : ArgumentError → String
  | .missingRequired => "error: --project <PATH|URL> is required"
  | .unknownArgument => "error: unexpected argument"
  | .invalidValue => "error: a value is missing or not possible"
  | .invalidNumber => "error: invalid number"
  | .givenTwice => "error: an argument is given twice"
  | .tooManyValues => "error: unexpected value"
  | .help => usage
  | .version => "0.1.0"

/-- Runs with accepted arguments. The exit code tells whether that succeeded. -/
def perform (arguments : Arguments) : IO UInt32 := do
  let before ← picture arguments
  let (after, result) := run arguments (fun _ => none) before
  commit before after
  match result with
  | .ok report =>
    report.warnings.forM fun w => IO.eprintln ("Skipped " ++ w.text)
    IO.eprintln ("Output written to " ++ report.outputPath)
    return 0
  | .error trouble =>
    trouble.messages.head?.forM fun m => IO.eprintln ("Error: " ++ m)
    trouble.failure.forM fun f => IO.eprintln ("Code: " ++ f.code)
    if arguments.verbose then trouble.messages.forM IO.eprintln
    return 1

end ApiCollection.CommandLine

open ApiCollection.CommandLine in
def main (args : List String) : IO UInt32 := do
  match Arguments.parse args with
  | .ok arguments => perform arguments
  | .error e =>
    if e == .help || e == .version then
      IO.println e.message
      return 0
    IO.eprintln e.message
    return 2
