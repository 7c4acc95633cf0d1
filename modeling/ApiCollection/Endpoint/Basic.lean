import ApiCollection.Schema.Basic
import ApiCollection.Text.Casing
import ApiCollection.Text.Chars

/-!
# Endpoints

An endpoint is one operation of an interface. Its parameters, its body and its responses may each
carry an example; the type of examples is a parameter, so that an endpoint can be laid out before
any example value is known.
-/

namespace ApiCollection

/-- The methods that an endpoint can have. -/
inductive HttpMethod where
  | get
  | post
  | put
  | delete
  | patch
  | options
  | head
  deriving DecidableEq, Repr

namespace HttpMethod

def name : HttpMethod → String
  | .get => "GET"
  | .post => "POST"
  | .put => "PUT"
  | .delete => "DELETE"
  | .patch => "PATCH"
  | .options => "OPTIONS"
  | .head => "HEAD"

/-- The key of the method in a path item. -/
def key : HttpMethod → String
  | .get => "get"
  | .post => "post"
  | .put => "put"
  | .delete => "delete"
  | .patch => "patch"
  | .options => "options"
  | .head => "head"

def all : List HttpMethod := [.get, .post, .put, .delete, .patch, .options, .head]

def ofName? (name : String) : Option HttpMethod := all.find? fun m => m.name == name

def ofText? (text : String) : Option HttpMethod := ofName? (Text.uppercase text)

def unsupportedMessage (text : String) : String :=
  "unsupported HTTP method: " ++ Text.uppercase text

@[simp] theorem ofName?_name (m : HttpMethod) : ofName? m.name = some m := by
  cases m <;> decide

end HttpMethod

inductive Location where
  | path
  | query
  | header
  | body
  deriving DecidableEq, Repr

def Location.name : Location → String
  | .path => "path"
  | .query => "query"
  | .header => "header"
  | .body => "body"

/-- A parameter in the path, the query or the header of a request. -/
structure Parameter (α : Type) where
  name : String
  type : String
  required : Bool
  schema : Schema
  example? : Option α
  description : Option String

structure Body (α : Type) where
  type : String
  required : Bool
  contentType : String
  schema : Schema
  example? : Option α

structure Response (α : Type) where
  status : UInt16
  description : String
  contentType : String := "application/json"
  schema : Option Schema := none
  example? : Option α := none

structure ParameterSet (α : Type) where
  path : List (Parameter α) := []
  query : List (Parameter α) := []
  header : List (Parameter α) := []

namespace ParameterSet

variable {α : Type}

/-- Adds a parameter behind those of its location. A body is no parameter of the set. -/
def push (s : ParameterSet α) (location : Location) (p : Parameter α) : ParameterSet α :=
  match location with
  | .path => { s with path := s.path ++ [p] }
  | .query => { s with query := s.query ++ [p] }
  | .header => { s with header := s.header ++ [p] }
  | .body => s

/-- The parameters with their locations: path, then query, then header. -/
def ordered (s : ParameterSet α) : List (Location × Parameter α) :=
  s.path.map (.path, ·) ++ s.query.map (.query, ·) ++ s.header.map (.header, ·)

def size (s : ParameterSet α) : Nat := s.path.length + s.query.length + s.header.length

end ParameterSet

/-- One operation of an interface. -/
structure Endpoint (α : Type) where
  id : String
  method : HttpMethod
  /-- The path, which begins with a slash. -/
  path : String
  /-- The display name. -/
  name : String
  description : Option String := none
  tags : List String := []
  parameters : ParameterSet α := {}
  body : Option (Body α) := none
  responses : List (Response α) := []

def rooted (path : String) : String :=
  if Text.startsWith ['/'] path.toList then path else "/" ++ path

/-- An endpoint that has nothing but a method, a path and a name, which is its identifier too. -/
def Endpoint.plain {α : Type} (method : HttpMethod) (path name : String) : Endpoint α :=
  { id := name, method := method, path := rooted path, name := name }

end ApiCollection
