import ApiCollection.Failure
import ApiCollection.Json.Parser
import ApiCollection.Text.Chars
import ApiCollection.Yaml.Reader

/-!
# Given documents

A document that is given is a JSON value, written in JSON or in YAML. It can be used when it names
a version that is known and has paths.
-/

namespace ApiCollection.OpenApi

inductive TextFormat where
  | json
  | yaml
  deriving DecidableEq, Repr

/-- How the text of a document is read when its format is not known for sure. -/
inductive Format where
  | json
  | yaml
  /-- JSON if it is well formed, else YAML. -/
  | unknown
  deriving DecidableEq, Repr

def Format.ofExtension : Option String → Format
  | some "yaml" | some "yml" => .yaml
  | some "json" => .json
  | _ => .unknown

def Format.ofMediaType (type : String) : Format :=
  if Text.occursIn "yaml".toList type.toList || Text.occursIn "yml".toList type.toList then .yaml
  else .unknown

def TextFormat.ofExtension : Option String → TextFormat
  | some "yaml" | some "yml" => .yaml
  | _ => .json

def parse? (format : Format) (text : String) : Option Json :=
  match format with
  | .json => Json.parse text
  | .yaml => Yaml.parse text
  | .unknown => (Json.parse text).or (Yaml.parse text)

/-- The text of a member, which is empty when it is no string. -/
def versionText (version : Json) : String := version.string?.getD ""

def versionDefect? (members : Json.Members) : Option Defect :=
  match members.get? "openapi", members.get? "swagger" with
  | some version, _ =>
    if Text.startsWith ['3', '.'] (versionText version).toList then none
    else some (.openApiVersion (versionText version))
  | none, some version =>
    if versionText version == "2.0" then none else some (.swaggerVersion (versionText version))
  | none, none => some .noVersion

def defect? (document : Json) : Option Defect :=
  match document.members? with
  | none => some .noObject
  | some members =>
    (versionDefect? members).or
      (if (document.getMembers "paths").isEmpty then some .noPaths else none)

def versionLabel (document : Json) : String :=
  match document.getString? "openapi", document.getString? "swagger" with
  | some version, _ => version
  | none, some version => "Swagger " ++ version
  | none, none => ""

end ApiCollection.OpenApi
