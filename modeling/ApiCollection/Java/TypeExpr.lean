import ApiCollection.Java.Nesting
import ApiCollection.Schema.Basic

/-!
# Type expressions

A type expression is a base name, its arguments in angle brackets and the number of array
suffixes. Reading one never fails: what cannot be understood becomes the type `Object`.

A base name is a scalar of the fixed table, a collection, a map, a wrapper around one value, a
stream of many values, or else the name of a model.
-/

namespace ApiCollection.Java

open Schema Text

/-- How a base type name is treated. -/
inductive TypeFamily where
  | scalar (kind : Kind) (format : Option String)
  | collection
  | map
  /-- A container whose shape is the shape of its argument. -/
  | wrapper
  /-- An asynchronous stream of many values. -/
  | stream
  /-- A model, to be described by a component. -/
  | named
  deriving DecidableEq, Repr

def scalarTypes : List (String × Kind × Option String) := [
  ("String", .string, none),
  ("CharSequence", .string, none),
  ("char", .string, none),
  ("Character", .string, none),
  ("int", .integer, some "int32"),
  ("Integer", .integer, some "int32"),
  ("short", .integer, some "int32"),
  ("Short", .integer, some "int32"),
  ("long", .integer, some "int64"),
  ("Long", .integer, some "int64"),
  ("byte", .integer, none),
  ("Byte", .integer, none),
  ("BigInteger", .integer, none),
  ("float", .number, some "float"),
  ("Float", .number, some "float"),
  ("double", .number, some "double"),
  ("Double", .number, some "double"),
  ("BigDecimal", .number, none),
  ("boolean", .boolean, none),
  ("Boolean", .boolean, none),
  ("Date", .string, some "date-time"),
  ("LocalDate", .string, some "date"),
  ("LocalDateTime", .string, some "date-time"),
  ("ZonedDateTime", .string, some "date-time"),
  ("OffsetDateTime", .string, some "date-time"),
  ("Instant", .string, some "date-time"),
  ("Timestamp", .string, some "date-time"),
  ("UUID", .string, some "uuid"),
  ("URI", .string, some "uri"),
  ("URL", .string, some "uri"),
  ("MultipartFile", .string, some "binary"),
  ("Object", .object, none),
  ("JsonNode", .object, none)]

def collectionTypes : List String :=
  ["List", "ArrayList", "LinkedList", "Set", "HashSet", "LinkedHashSet", "TreeSet", "SortedSet",
    "Collection", "Iterable"]

def mapTypes : List String :=
  ["Map", "HashMap", "LinkedHashMap", "TreeMap", "ConcurrentHashMap", "MultiValueMap"]

def wrapperTypes : List String :=
  ["Optional", "ResponseEntity", "HttpEntity", "Mono", "CompletableFuture", "CompletionStage",
    "Callable", "DeferredResult"]

def streamTypes : List String := ["Flux"]

def TypeFamily.of (base : String) : TypeFamily :=
  match scalarTypes.lookup base with
  | some (kind, format) => .scalar kind format
  | none =>
    if collectionTypes.contains base then .collection
    else if mapTypes.contains base then .map
    else if wrapperTypes.contains base then .wrapper
    else if streamTypes.contains base then .stream
    else .named

/-- A type as written in source text, with package qualifiers left out. -/
structure TypeExpr where
  /-- The name behind the last dot. -/
  base : String
  /-- The type arguments in order. -/
  args : List TypeExpr
  /-- The number of array suffixes. -/
  arrayDepth : Nat
  deriving BEq, Repr

namespace TypeExpr

def simple (base : String) : TypeExpr := ⟨base, [], 0⟩

def object : TypeExpr := simple "Object"

/-- The first argument; a raw use of a generic type has `Object`. -/
def firstArg (t : TypeExpr) : TypeExpr := t.args.head?.getD object

def element (t : TypeExpr) : TypeExpr := { t with arrayDepth := t.arrayDepth - 1 }

def family (t : TypeExpr) : TypeFamily := .of t.base

def dropWildcard (cs : List Char) : List Char :=
  match cs with
  | '?' :: rest =>
    let rest := trim rest
    match after? "extends".toList rest with
    | some bound => trim bound
    | none => match after? "super".toList rest with
      | some bound => trim bound
      | none => rest
  | _ => cs

/-- Reads array suffixes off the end of a reversed text. -/
def dropSuffixes : List Char → Nat × List Char
  | ']' :: '[' :: rest =>
    let (depth, head) := dropSuffixes (trimStart rest)
    (depth + 1, head)
  | '.' :: '.' :: '.' :: rest =>
    let (depth, head) := dropSuffixes (trimStart rest)
    (depth + 1, head)
  | cs => (0, cs)
termination_by cs => cs.length
decreasing_by
  all_goals
    have := length_trimStart_le rest
    simp only [List.length_cons]
    omega

/-- The number of array suffixes, and the text before them. -/
def splitSuffixes (cs : List Char) : Nat × List Char :=
  let (depth, head) := dropSuffixes cs.reverse
  (depth, head.reverse)

/-- The text before the first `<`, and the text between it and the last `>` behind it. -/
def splitArguments (cs : List Char) : List Char × Option (List Char) :=
  match cutAtChar? '<' cs with
  | none => (cs, none)
  | some (head, behind) => match cutAtChar? '>' behind.reverse with
    | none => (cs, none)
    | some (_, inner) => (head, some inner.reverse)

/-- The name behind the last dot; an empty one is read as `Object`. -/
def baseName (head : List Char) : String :=
  let name := trim (lastPiece '.' (trim head))
  if name.isEmpty then "Object" else String.ofList name

theorem length_dropWildcard_le (cs : List Char) : (dropWildcard cs).length ≤ cs.length := by
  have bound {word rest tail : List Char} (h : after? word rest = some tail) :
      (trim tail).length ≤ rest.length := by
    have := length_trim_le tail
    rw [after?_eq_some_iff.1 h, List.length_append]
    omega
  unfold dropWildcard
  split
  · rename_i rest
    have hr := length_trim_le rest
    simp only [List.length_cons]
    split
    · rename_i h; have := bound h; omega
    · split
      · rename_i h; have := bound h; omega
      · omega
  · exact Nat.le_refl _

theorem length_dropSuffixes_le (cs : List Char) : (dropSuffixes cs).2.length ≤ cs.length := by
  fun_induction dropSuffixes cs with
  | case1 rest depth head h ih =>
    have := length_trimStart_le rest
    simp only [h] at ih
    simp only [List.length_cons]
    omega
  | case2 rest depth head h ih =>
    have := length_trimStart_le rest
    simp only [h] at ih
    simp only [List.length_cons]
    omega
  | case3 => simp

theorem length_splitSuffixes_le (cs : List Char) : (splitSuffixes cs).2.length ≤ cs.length := by
  simpa [splitSuffixes] using length_dropSuffixes_le cs.reverse

theorem length_splitArguments_lt {cs inner : List Char}
    (h : (splitArguments cs).2 = some inner) : inner.length < cs.length := by
  unfold splitArguments at h
  split at h
  · simp at h
  · rename_i head behind hcut
    split at h
    · simp at h
    · rename_i inside hback
      simp only [Option.some.injEq] at h
      have h₁ := congrArg List.length (cutAtChar?_eq_some hcut)
      have h₂ := congrArg List.length (cutAtChar?_eq_some hback)
      simp only [List.length_append, List.length_cons, List.length_reverse] at h₁ h₂
      rw [← h, List.length_reverse]
      omega

/-- Reads a type such as `java.util.List<Map<String, Long>>[]`. -/
def ofChars (cs : List Char) : TypeExpr :=
  let body := (splitSuffixes (dropWildcard (trim cs))).2
  let depth := (splitSuffixes (dropWildcard (trim cs))).1
  let base := baseName (splitArguments body).1
  match _h : (splitArguments body).2 with
  | none => ⟨base, [], depth⟩
  | some inner =>
    let parts := (splitTopLevel ',' inner).filter fun part => !allBlank part
    ⟨base, parts.attach.map fun ⟨part, _⟩ => ofChars part, depth⟩
termination_by cs.length
decreasing_by
  rename_i hmem
  have h₁ := length_le_of_mem_splitTopLevel (List.mem_filter.1 hmem).1
  have h₂ : inner.length < (splitSuffixes (dropWildcard (trim cs))).2.length :=
    length_splitArguments_lt _h
  have h₃ := length_splitSuffixes_le (dropWildcard (trim cs))
  have h₄ := length_dropWildcard_le (trim cs)
  have h₅ := length_trim_le cs
  omega

def parse (text : String) : TypeExpr := ofChars text.toList

end TypeExpr
end ApiCollection.Java
