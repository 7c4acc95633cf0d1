import ApiCollection.Enhancement.Requests

/-!
# Enhancement of collections

A collection is completed in six passes: default variables, default headers, references in
addresses, display names, order and example responses. What is there stays. The enhancer keeps the
variables that it has met and the stream that examples are drawn from.

In order, folders come before requests. Requests are ordered by their method, and those of one
method with lists first. What is equal in this order keeps its order.
-/

namespace ApiCollection.Enhancement

/-- The rank of a method in any case. -/
def methodRank (method : String) : Nat :=
  match Text.uppercase method with
  | "GET" => 1
  | "POST" => 2
  | "PUT" => 3
  | "PATCH" => 4
  | "DELETE" => 5
  | _ => 99

/-- Whether a name speaks of a list. -/
def namesList (name : String) : Bool :=
  let small := Text.lower name.toList
  Text.occursIn "list".toList small || Text.occursIn "all".toList small

/-- The rank of a node: folders first, then two ranks for each method. -/
def rank : Item → Nat
  | .folder _ _ _ => 0
  | .request r => 2 * methodRank r.request.method + if namesList r.name then 0 else 1

def precedes (a b : Item) : Bool := rank a ≤ rank b

mutual

def sortItem : Item → Item
  | .folder name description items =>
    .folder name description ((sortBelow items).mergeSort precedes)
  | .request r => .request r

def sortBelow : List Item → List Item
  | [] => []
  | item :: rest => sortItem item :: sortBelow rest

end

/-- Nodes in order, and everything below them. -/
def sortItems (items : List Item) : List Item := (sortBelow items).mergeSort precedes

end ApiCollection.Enhancement

namespace ApiCollection

open Enhancement ApiCollection.Random

/-- The address of the server when nothing else is known. -/
def Enhancement.defaultBaseUrl : String := "http://localhost:8080"

def Enhancement.defaultToken : String := "<JWT_TOKEN_HERE>"

/-- What passes over collections are made with. -/
structure Enhancer where
  cache : Dto.Cache := {}
  baseUrl : String := defaultBaseUrl
  /-- The variables that were met. -/
  discovered : Table String := []
  stream : Stream

namespace Collection

def addVariables (c : Collection) (found : Table String) : Collection :=
  found.foldl (fun c (key, value) => c.addVariable key value) c

def completeHeaders (c : Collection) : Collection := c.mapRequests Enhancement.completeHeaders

def improveNames (c : Collection) : Collection :=
  c.mapRequests fun r => { r with name := displayName r.name r.request.method }

def sort (c : Collection) : Collection := { c with items := sortItems c.items }

def referenced (c : Collection) : List String := c.requests.flatMap requestVariables

end Collection

namespace Enhancer

/-- Adds the variables that every collection has, and those that were met. -/
def addVariables (e : Enhancer) (c : Collection) : Collection :=
  ((c.addVariable "baseUrl" e.baseUrl).addVariable "token" defaultToken).addVariables e.discovered

def discoverIn (e : Enhancer) (c : Collection) : Enhancer :=
  { e with discovered := discover e.discovered c.referenced }

/-- Turns parameters in addresses into references to variables, and adds these. -/
def referVariables (e : Enhancer) (c : Collection) : Collection × Enhancer :=
  let e := e.discoverIn c
  ((c.mapRequests referRequest).addVariables e.discovered, e)

/-- Adds the examples that requests lack. -/
def completeResponses (e : Enhancer) (c : Collection) : Collection × Enhancer :=
  let (c, stream) := (c.visit (Enhancement.completeResponses e.cache)).run e.stream
  (c, { e with stream := stream })

/-- All passes in order. -/
def enhance (e : Enhancer) (c : Collection) : Collection × Enhancer :=
  let (c, e) := e.referVariables (e.addVariables c).completeHeaders
  e.completeResponses c.improveNames.sort

end Enhancer
end ApiCollection
