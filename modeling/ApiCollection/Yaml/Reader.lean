import ApiCollection.Yaml.Node

/-!
# Reading YAML

The value of a document is a JSON value. An alias stands for the node of its anchor. Keys are
scalars, and stand for their text; a repeated key keeps its first place and takes its last value.
Containers nest at most `maxDepth` deep, seen through aliases, and the number of aliases that are
followed is bounded by the size of the document.
-/

namespace ApiCollection.Yaml

/-- The deepest nesting of containers that is read. -/
def maxDepth : Nat := 128

def coreTag (name : String) : String := "tag:yaml.org,2002:" ++ name

def isForeign (tag : Option String) : Bool := tag.any fun t => Text.startsWith ['!'] t.toList

/-- The number or infinity that a scalar with a tag for reals stands for. -/
def realJson? (text : String) : Option Json :=
  (Scalar.real? text.toList).bind (Scalar.toJson? text)

/-- The value of a scalar. A core tag says how its text is read; any other one makes it a
string. -/
def scalarJson? (tag : Option String) (text : String) (plain : Bool) : Option Json :=
  match tag with
  | none => if plain then (Scalar.resolve text).toJson? text else some (.string text)
  | some tag =>
    if isForeign (some tag) then none
    else if tag == coreTag "bool" then (Scalar.bool? text).map .bool
    else if tag == coreTag "int" then
      (Scalar.integer? text.toList).bind fun n => (Scalar.integer n).toJson? text
    else if tag == coreTag "float" then realJson? text
    else if tag == coreTag "null" then
      if Scalar.isNull text && !text.isEmpty then some .null else none
    else some (.string text)

namespace Node

mutual

def anchored : Node → List (Nat × Node)
  | .alias _ => []
  | .scalar anchor tag text plain => (anchor.map (·, .scalar anchor tag text plain)).toList
  | .sequence anchor tag items =>
    (anchor.map (·, .sequence anchor tag items)).toList ++ anchoredItems items
  | .mapping anchor tag entries =>
    (anchor.map (·, .mapping anchor tag entries)).toList ++ anchoredEntries entries

def anchoredItems : List Node → List (Nat × Node)
  | [] => []
  | item :: rest => item.anchored ++ anchoredItems rest

def anchoredEntries : List (Node × Node) → List (Nat × Node)
  | [] => []
  | (key, value) :: rest => key.anchored ++ value.anchored ++ anchoredEntries rest

end

mutual

/-- The size of a node: one for a leaf, and two for a container besides what it contains. -/
def size : Node → Nat
  | .alias _ | .scalar _ _ _ _ => 1
  | .sequence _ _ items => 2 + sizeItems items
  | .mapping _ _ entries => 2 + sizeEntries entries

def sizeItems : List Node → Nat
  | [] => 0
  | item :: rest => item.size + sizeItems rest

def sizeEntries : List (Node × Node) → Nat
  | [] => 0
  | (key, value) :: rest => key.size + value.size + sizeEntries rest

end

end Node

/-- The nodes behind the aliases of a document, and how many aliases may be followed. -/
structure Targets where
  nodes : List (Nat × Node)
  limit : Nat

namespace Targets

def ofDocument (d : Node.Document) : Targets :=
  let anchored := d.root.anchored
  { nodes := d.places.filterMap fun (number, anchor) =>
      (anchored.lookup anchor).map fun node => (number, node)
    limit := 100 * d.root.size }

/-- The node itself, or the one behind it if it is an alias. The state counts aliases. -/
def follow (t : Targets) : Node → StateT Nat Option Node
  | .alias number => do
    let followed ← get
    set (followed + 1)
    if t.limit < followed + 1 then failure else t.nodes.lookup number
  | node => return node

def keyText (t : Targets) (node : Node) : StateT Nat Option String := do
  match ← t.follow node with
  | .scalar _ _ text _ => return text
  | _ => failure

def value (t : Targets) : Nat → Node → StateT Nat Option Json
  | 0, node => do
    match ← t.follow node with
    | .scalar _ tag text plain => scalarJson? tag text plain
    | _ => failure
  | depth + 1, node => do
    match ← t.follow node with
    | .scalar _ tag text plain => scalarJson? tag text plain
    | .sequence _ tag items =>
      if isForeign tag then failure
      else return .array (← items.mapM (t.value depth))
    | .mapping _ tag entries =>
      if isForeign tag then failure
      else
        let members ← entries.mapM fun (key, value) => do
          let name ← t.keyText key
          return (name, ← t.value depth value)
        return .object (Table.ofList members)
    | .alias _ => failure

end Targets

def parse (text : String) : Option Json := do
  let document ← Node.ofTokens? (← tokens? text)
  let t := Targets.ofDocument document
  return (← (t.value maxDepth document.root).run 0).1

end ApiCollection.Yaml
