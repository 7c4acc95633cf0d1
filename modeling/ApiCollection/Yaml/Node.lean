import ApiCollection.Table
import ApiCollection.Yaml.Token

/-!
# Nodes of YAML documents

Tokens are put together to nodes. An anchor gets the number of different names that are known
before it, and an alias the number that its name has then. The number of a name that is given again
may come up once more for the next new name; the place of a number is the last one that got it.
-/

namespace ApiCollection.Yaml

/-- A node. An anchor is given by its count among all anchors, an alias by a number. -/
inductive Node where
  | alias (number : Nat)
  | scalar (anchor : Option Nat) (tag : Option String) (text : String) (plain : Bool)
  | sequence (anchor : Option Nat) (tag : Option String) (items : List Node)
  | mapping (anchor : Option Nat) (tag : Option String) (entries : List (Node × Node))

namespace Node

instance : Inhabited Node := ⟨.scalar none none "" true⟩

def empty : Node := .scalar none none "" true

/-- What is known while nodes are put together. -/
structure Reader where
  tokens : List Token
  /-- What the handles of tags stand for. -/
  handles : Table String
  /-- The numbers of the names of anchors. -/
  names : Table Nat := []
  /-- How many anchors were met. -/
  anchors : Nat := 0
  /-- The anchors of the numbers, the last one first. -/
  places : List (Nat × Nat) := []

namespace Reader

def next (r : Reader) : Reader := { r with tokens := r.tokens.tail }

def sees (r : Reader) (tokens : List Token) : Bool := r.tokens.head?.any tokens.contains

def anchor (r : Reader) : Option Nat × Reader :=
  match r.tokens with
  | .anchor name :: rest =>
    let number := r.names.length
    (some r.anchors, { r with
      tokens := rest, names := r.names.insert name number, anchors := r.anchors + 1,
      places := (number, r.anchors) :: r.places })
  | _ => (none, r)

/-- Takes a tag, if there is one. Its handle has to be known. -/
def tag (r : Reader) : Option (Option String × Reader) :=
  match r.tokens with
  | .tag t :: rest =>
    if t.handle.isEmpty then some (some t.suffix, { r with tokens := rest })
    else (r.handles.get? t.handle).map fun start =>
      (some (start ++ t.suffix), { r with tokens := rest })
  | _ => some (none, r)

/-- Takes an anchor and a tag in any order. -/
def properties (r : Reader) : Option (Option Nat × Option String × Reader) := do
  match r.anchor with
  | (some anchor, r) =>
    let (tag, r) ← r.tag
    return (some anchor, tag, r)
  | (none, r) =>
    let (tag, r) ← r.tag
    if tag.isNone then return (none, none, r)
    else
      let (anchor, r) := r.anchor
      return (anchor, tag, r)

end Reader

/-- The tag of a scalar that is written. A lone exclamation mark is no tag. -/
def scalarTag (tag : Option String) : Option String := tag.filter (· != "!")

mutual

/-- Reads a node. Block collections are accepted where `block` says so, and the items of a sequence
without indentation where `indentless` does. -/
def read (block indentless : Bool) : Nat → Reader → Option (Node × Reader)
  | 0, _ => none
  | fuel + 1, r => match r.tokens with
    | .alias name :: rest => (r.names.get? name).map fun n => (.alias n, { r with tokens := rest })
    | _ => match r.properties with
      | none => none
      | some (anchor, tag, r) => match r.tokens with
        | .blockEntry :: _ =>
          if indentless then
            (readDashes false [] fuel r).map fun (items, r) => (.sequence anchor tag items, r)
          else if anchor.isSome || tag.isSome then some (.scalar anchor tag "" true, r)
          else none
        | .scalar text plain :: rest =>
          some (.scalar anchor (scalarTag tag) text plain, { r with tokens := rest })
        | .flowSequence :: _ =>
          (readFlowItems true [] fuel r.next).map fun (items, r) => (.sequence anchor tag items, r)
        | .flowMapping :: _ =>
          (readFlowEntries true [] fuel r.next).map fun (entries, r) =>
            (.mapping anchor tag entries, r)
        | .blockSequence :: _ =>
          if block then
            (readDashes true [] fuel r.next).map fun (items, r) => (.sequence anchor tag items, r)
          else if anchor.isSome || tag.isSome then some (.scalar anchor tag "" true, r)
          else none
        | .blockMapping :: _ =>
          if block then
            (readEntries [] fuel r.next).map fun (entries, r) => (.mapping anchor tag entries, r)
          else if anchor.isSome || tag.isSome then some (.scalar anchor tag "" true, r)
          else none
        | _ =>
          if anchor.isSome || tag.isSome then some (.scalar anchor tag "" true, r) else none

/-- Reads a node unless one of some tokens comes next; then nothing is written. -/
def readUnless (stops : List Token) (block indentless : Bool) :
    Nat → Reader → Option (Node × Reader)
  | 0, _ => none
  | fuel + 1, r => if r.sees stops then some (.empty, r) else read block indentless fuel r

/-- Reads the items of a sequence in a block, which has an end of its own when it is indented. -/
def readDashes (indented : Bool) (items : List Node) : Nat → Reader → Option (List Node × Reader)
  | 0, _ => none
  | fuel + 1, r =>
    if r.sees [.blockEntry] then
      let stops : List Token :=
        if indented then [.blockEntry, .blockEnd] else [.blockEntry, .key, .value, .blockEnd]
      match readUnless stops true false fuel r.next with
      | some (item, r) => readDashes indented (item :: items) fuel r
      | none => none
    else if !indented then some (items.reverse, r)
    else if r.sees [.blockEnd] then some (items.reverse, r.next)
    else none

def readEntries (entries : List (Node × Node)) :
    Nat → Reader → Option (List (Node × Node) × Reader)
  | 0, _ => none
  | fuel + 1, r =>
    let stops : List Token := [.key, .value, .blockEnd]
    if r.sees [.key] then
      match readUnless stops true true fuel r.next with
      | none => none
      | some (key, r) =>
        if r.sees [.value] then
          match readUnless stops true true fuel r.next with
          | none => none
          | some (value, r) => readEntries ((key, value) :: entries) fuel r
        else readEntries ((key, .empty) :: entries) fuel r
    else if r.sees [.blockEnd] then some (entries.reverse, r.next)
    else none

def readFlowItems (first : Bool) (items : List Node) : Nat → Reader → Option (List Node × Reader)
  | 0, _ => none
  | fuel + 1, r =>
    if r.sees [.flowSequenceEnd] then some (items.reverse, r.next)
    else if !first && !r.sees [.flowEntry] then none
    else
      let r := if first then r else r.next
      if r.sees [.flowSequenceEnd] then some (items.reverse, r.next)
      else
        let item := if r.sees [.key] then readPair fuel r.next else read false false fuel r
        match item with
        | some (item, r) => readFlowItems false (item :: items) fuel r
        | none => none

/-- Reads a mapping of one entry that is an item in brackets. A key that is not written takes the
token in its place along. -/
def readPair : Nat → Reader → Option (Node × Reader)
  | 0, _ => none
  | fuel + 1, r =>
    let key :=
      if r.sees [.value, .flowEntry, .flowSequenceEnd] then some (.empty, r.next)
      else read false false fuel r
    match key with
    | none => none
    | some (key, r) =>
      if r.sees [.value] then
        match readUnless [.flowEntry, .flowSequenceEnd] false false fuel r.next with
        | some (value, r) => some (.mapping none none [(key, value)], r)
        | none => none
      else some (.mapping none none [(key, .empty)], r)

def readFlowEntries (first : Bool) (entries : List (Node × Node)) :
    Nat → Reader → Option (List (Node × Node) × Reader)
  | 0, _ => none
  | fuel + 1, r =>
    if r.sees [.flowMappingEnd] then some (entries.reverse, r.next)
    else if !first && !r.sees [.flowEntry] then none
    else
      let r := if first then r else r.next
      if r.sees [.flowMappingEnd] then some (entries.reverse, r.next)
      else if r.sees [.key] then
        match readUnless [.value, .flowEntry, .flowMappingEnd] false false fuel r.next with
        | none => none
        | some (key, r) =>
          if r.sees [.value] then
            match readUnless [.flowEntry, .flowMappingEnd] false false fuel r.next with
            | none => none
            | some (value, r) => readFlowEntries false ((key, value) :: entries) fuel r
          else readFlowEntries false ((key, .empty) :: entries) fuel r
      else match read false false fuel r with
        | none => none
        | some (key, r) => readFlowEntries false ((key, .empty) :: entries) fuel r

end

/-- A document: its root and the anchors of the numbers, the last one first. -/
structure Document where
  root : Node
  places : List (Nat × Nat)

structure Directives where
  version : Bool := false
  handles : Table String := []

/-- Reads directives: at most one version, which is 1.1 or 1.2, and each handle once. -/
def readDirectives (d : Directives) : List Token → Option (Directives × List Token)
  | .versionDirective major minor :: rest =>
    if d.version || major != 1 || (minor != 1 && minor != 2) then none
    else readDirectives { d with version := true } rest
  | .tagDirective handle start :: rest =>
    if d.handles.has handle then none
    else readDirectives { d with handles := d.handles.insert handle start } rest
  | rest => some (d, rest)

def coreHandles : Table String := [("!", "!"), ("!!", "tag:yaml.org,2002:")]

def isBoundary : Token → Bool
  | .versionDirective _ _ | .tagDirective _ _ | .documentStart | .documentEnd => true
  | _ => false

/-- Puts the tokens of a text together, which holds at most one document. An empty text holds an
empty one. A node takes at most three steps for each of its tokens. -/
def ofTokens? (tokens : List Token) : Option Document := do
  if tokens.isEmpty then return ⟨.empty, []⟩
  let (directives, rest) ← readDirectives {} tokens
  let marked := rest.head? == some .documentStart
  let directed := match tokens with
    | .versionDirective _ _ :: _ | .tagDirective _ _ :: _ => true
    | _ => false
  if directed && !marked then none
  else
    let content := if marked then rest.tail else rest
    let r : Reader := { tokens := content, handles := directives.handles ++ coreHandles }
    let (root, r) ←
      if marked && content.head?.all isBoundary then some (.empty, r)
      else read true false (3 * content.length + 10) r
    if (r.tokens.dropWhile (· == .documentEnd)).isEmpty then return ⟨root, r.places⟩ else none

end Node
end ApiCollection.Yaml
