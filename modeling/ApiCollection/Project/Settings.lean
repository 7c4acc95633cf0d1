import ApiCollection.Files.Path
import ApiCollection.Pattern.Glob

/-!
# Settings of a run

What a run reads, what it writes and where, and the parameters of extraction and of examples.
-/

namespace ApiCollection

inductive ProjectSource where
  /-- A folder with sources or documents, or a document. -/
  | path (text : String)
  | url (address : String)
  deriving DecidableEq, Repr

def ProjectSource.ofText (text : String) : ProjectSource :=
  if Path.isUrl text then .url text else .path text

def ProjectSource.text : ProjectSource → String
  | .path text => text
  | .url address => address

inductive OutputKind where
  | collection
  | document
  deriving DecidableEq, Repr

structure Settings where
  source : ProjectSource
  outputPath : String := "./postman_collection.json"
  baseUrl : Option String := none
  output : OutputKind := .collection
  filter : Pattern.Filter := {}
  /-- How many files may be extracted at the same time. -/
  concurrency : Nat := 5
  seed : UInt64 := 42
  listSize : Nat := 2
  deriving DecidableEq, Repr

/-- The number of workers for a number of files: no more than there are files, and at least one. -/
def Settings.workerCount (s : Settings) (files : Nat) : Nat :=
  min (max s.concurrency 1) (max files 1)

/-- There is always a worker. -/
theorem Settings.workerCount_pos (s : Settings) (files : Nat) : 1 ≤ s.workerCount files := by
  simp only [workerCount]
  omega

/-- There are no more workers than files, unless there is no file. -/
theorem Settings.workerCount_le (s : Settings) {files : Nat} (h : 1 ≤ files) :
    s.workerCount files ≤ files := by
  simp only [workerCount]
  omega

end ApiCollection
