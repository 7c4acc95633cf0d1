/-!
# Failures

What can go wrong while a project is read and its artifacts are written. Each cause has a code that
stays the same and a message. What the file system or a reader says by itself is no part of the
messages.
-/

namespace ApiCollection

inductive Defect where
  | noObject
  | openApiVersion (version : String)
  | swaggerVersion (version : String)
  | noVersion
  | noPaths
  deriving DecidableEq, Repr

def Defect.message : Defect → String
  | .noObject => "Specification is not a valid object"
  | .openApiVersion version => "Unsupported OpenAPI version: " ++ version
  | .swaggerVersion version => "Unsupported Swagger version: " ++ version
  | .noVersion => "Missing \"openapi\" or \"swagger\" version field"
  | .noPaths => "Missing or invalid \"paths\" field"

inductive Failure where
  | projectNotFound (path : String)
  | noControllers (path : String)
  /-- A document could not be fetched or decoded. -/
  | fetch
  | invalidDocument (defect : Defect)
  /-- A source file could not be read. -/
  | unreadable (file reason : String)
  /-- A collection could not be made from a document. -/
  | conversion (reason : String)
  | io
  /-- A text is not well formed. -/
  | serialization
  deriving DecidableEq, Repr

namespace Failure

def code : Failure → String
  | .projectNotFound _ => "PROJECT_NOT_FOUND"
  | .noControllers _ => "NO_CONTROLLERS_FOUND"
  | .fetch => "OPENAPI_FETCH_FAILED"
  | .invalidDocument _ => "INVALID_OPENAPI"
  | .unreadable _ _ => "PARSE_ERROR"
  | .conversion _ => "CONVERSION_FAILED"
  | .io => "IO_ERROR"
  | .serialization => "SERIALIZATION_ERROR"

/-- What is said about a failure, unless it is the text of the system or of a reader. -/
def message? : Failure → Option String
  | .projectNotFound path => some ("Project path does not exist: " ++ path)
  | .noControllers path => some ("No Spring Boot controllers found in project: " ++ path)
  | .invalidDocument defect => some ("Invalid OpenAPI specification: " ++ defect.message)
  | .unreadable file reason => some ("Failed to parse Java file " ++ file ++ ": " ++ reason)
  | .conversion reason => some ("Failed to convert to Postman collection: " ++ reason)
  | .fetch | .io | .serialization => none

end Failure
end ApiCollection
