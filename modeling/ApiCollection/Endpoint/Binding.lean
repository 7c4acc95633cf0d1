import ApiCollection.Endpoint.Basic
import ApiCollection.Java.Parameter

/-!
# Mappings and bindings

A mapping directive turns a method into an endpoint: it names the request method and the part of
the path below the base path of the class. A binding directive says which part of a request a
parameter stands for. A parameter without one is not part of the interface.
-/

namespace ApiCollection

open Java Text

/-- The request method and the path of a mapping directive. -/
structure Mapping where
  method : HttpMethod
  /-- The path as written, perhaps empty. -/
  path : String
  directive : String
  deriving DecidableEq, Repr

namespace Mapping

def directiveNames : List String :=
  ["GetMapping", "PostMapping", "PutMapping", "DeleteMapping", "PatchMapping", "RequestMapping"]

/-- The word that an argument `method = …` names, with or without its type. -/
def namedMethod? (_ : Option Char) (cs : List Char) : Option String := do
  let value ← afterEquals? (← after? "method".toList cs)
  let value := skipBrace value
  let (word, _) ← ((after? "RequestMethod.".toList value).bind word?) <|> word? value
  return String.ofList word

/-- The request method of a mapping directive. A general mapping is for GET unless it names another
method. -/
def methodOf (d : Directive) : HttpMethod :=
  match d.name with
  | "PostMapping" => .post
  | "PutMapping" => .put
  | "DeleteMapping" => .delete
  | "PatchMapping" => .patch
  | "RequestMapping" =>
    ((d.args.bind fun args => find? namedMethod? args.toList).bind HttpMethod.ofText?).getD .get
  | _ => .get

def of? (directives : List Directive) : Option Mapping :=
  (directives.find? fun d => directiveNames.contains d.name).map fun d =>
    ⟨methodOf d, d.value.getD "", d.name⟩

/-- The base path of a class: the text of its mapping directive. -/
def basePath (directives : List Directive) : String :=
  ((directives.find? (·.name == "RequestMapping")).bind Directive.value).getD ""

/-- Joins a base path and a path below it with one slash; the result begins with a slash. -/
def joinPath (base sub : String) : String :=
  let base := trim base.toList
  let base := (before? ['/'] base).getD base
  let sub := trim sub.toList
  let joined := if sub.isEmpty || startsWith ['/'] sub then base ++ sub else base ++ '/' :: sub
  String.ofList (if startsWith ['/'] joined then joined else '/' :: joined)

end Mapping

def nonempty? (text : Option String) : Option String := text.filter fun s => !s.isEmpty

/-- The summary and the description that the first documentation directive gives. -/
def documentation (directives : List Directive) : Option String × Option String :=
  match directives.find? fun d => d.name == "Operation" || d.name == "ApiOperation" with
  | none => (none, none)
  | some d =>
    if d.name == "Operation" then
      (nonempty? (d.argument "summary"), nonempty? (d.argument "description"))
    else (d.value, nonempty? (d.argument "notes"))

/-- What a parameter is bound to. -/
structure Binding where
  name : String
  type : String
  location : Location
  required : Bool
  /-- The value that an absent parameter has. -/
  default : Option String
  deriving DecidableEq, Repr

namespace Binding

/-- The text of `key = "…"`. With `whole`, the key has to begin a word. -/
def assigned? (whole : Bool) (key : List Char) (prev : Option Char) (cs : List Char) :
    Option String := do
  guard (!whole || isBoundary prev)
  let value ← afterEquals? (← after? key cs)
  let (text, _) ← quoted? value
  return String.ofList text

/-- The text of a directive whose only argument is a string. -/
def bare? (_ : Option Char) (cs : List Char) : Option String := do
  let (_, rest) ← word? (← afterChar? '@' cs)
  let inside ← afterChar? '(' rest
  let (text, behind) ← quoted? (trimStart inside)
  let _ ← afterChar? ')' (trimStart behind)
  return String.ofList text

/-- The name that a directive gives to a parameter: `value`, else `name`, else a bare string, else
the identifier. -/
def boundName (d : Directive) (identifier : String) : String :=
  let raw := d.raw.toList
  (find? (assigned? true "value".toList) raw <|> find? (assigned? true "name".toList) raw <|>
    find? bare? raw).getD identifier

/-- The truth value of `required = …`. -/
def requirement? (_ : Option Char) (cs : List Char) : Option Bool := do
  let value ← afterEquals? (← after? "required".toList cs)
  if startsWith "true".toList value then return true
  else if startsWith "false".toList value then return false
  else none

/-- Whether a parameter has to be present; it has unless the directive says otherwise. -/
def isRequired (d : Directive) : Bool := (find? requirement? d.raw.toList).getD true

def defaultOf (d : Directive) : Option String :=
  find? (assigned? false "defaultValue".toList) d.raw.toList

def ofDirective? (p : Java.Parameter) (d : Directive) : Option Binding :=
  match d.name with
  | "PathVariable" => some ⟨boundName d p.name, p.type, .path, true, none⟩
  | "RequestParam" => some ⟨boundName d p.name, p.type, .query, isRequired d, defaultOf d⟩
  | "RequestBody" => some ⟨p.name, p.type, .body, isRequired d, none⟩
  | "RequestHeader" => some ⟨boundName d p.name, p.type, .header, isRequired d, defaultOf d⟩
  | _ => none

/-- The binding of a parameter, from its first binding directive. -/
def of? (p : Java.Parameter) : Option Binding := p.directives.findSome? (ofDirective? p)

end Binding
end ApiCollection
