import ApiCollection.Decimal.Layout
import ApiCollection.Endpoint.Draft

/-!
# Interfaces

A source text contributes endpoints and the components that they refer to; the examples of a file
are drawn from one stream. An interface gathers what the files of a project contribute. Identifiers
of operations are kept apart by numbers, and the first component of a name stays.
-/

namespace ApiCollection

open ApiCollection.Random

/-- What is read from a source text. -/
structure SourceUnit where
  head : Java.ClassHead
  methods : List Java.MethodHead
  deriving DecidableEq, Repr

def SourceUnit.of (text : String) : SourceUnit :=
  ⟨Java.ClassHead.of text.toList, Java.methodHeads text.toList⟩

structure Extraction where
  className : String
  endpoints : List (Endpoint Json)
  schemas : Table Schema

/-- Extracts the endpoints of a source text, with examples from the stream of a seed. -/
def SourceUnit.extract (unit : SourceUnit) (cache : Dto.Cache) (seed : UInt64) (listSize : Nat) :
    Extraction :=
  let drafts := Draft.ofSource unit.head unit.methods
  { className := unit.head.name
    endpoints := ((drafts.mapM (Draft.draw cache listSize)).run (Stream.ofSeed seed)).1
    schemas := Schema.components cache (drafts.flatMap (·.shapes)) }

structure ApiInfo where
  title : String := "Spring Boot API"
  version : String := "1.0.0"
  description : Option String := none
  deriving DecidableEq, Repr

/-- A place where an interface can be reached. -/
structure Server where
  url : String
  description : Option String := none
  deriving DecidableEq, Repr

structure Api where
  info : ApiInfo := {}
  servers : List Server := []
  endpoints : List (Endpoint Json) := []
  schemas : Table Schema := []
  taken : List String := []

namespace Api

def numbered (id : String) (n : Nat) : String := id ++ "_" ++ Decimal.natText n

/-- The identifier itself when it is free, else the one with the least number from two on that is
free. Among one candidate more than there are identifiers in use, some candidate is free. -/
def freshId (used : List String) (id : String) : String :=
  if used.contains id then
    let candidates := (List.range (used.length + 1)).map fun n => numbered id (n + 2)
    (candidates.find? fun candidate => !used.contains candidate).getD id
  else id

def ids (api : Api) : List String := api.endpoints.map (·.id)

/-- Adds an endpoint, under a fresh identifier. -/
def addEndpoint (api : Api) (e : Endpoint Json) : Api :=
  let id := freshId api.taken e.id
  { api with endpoints := api.endpoints ++ [{ e with id := id }], taken := id :: api.taken }

def addSchema (api : Api) (name : String) (schema : Schema) : Api :=
  { api with schemas := api.schemas.insertNew name schema }

def setServer (api : Api) (url : String) : Api := { api with servers := [{ url := url }] }

/-- Adds what a source text contributes. -/
def merge (api : Api) (x : Extraction) : Api :=
  x.schemas.foldl (fun api (name, schema) => api.addSchema name schema)
    (x.endpoints.foldl addEndpoint api)

end Api
end ApiCollection
