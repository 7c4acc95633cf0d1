import ApiCollection.Text.Chars

/-!
# Paths

A path is a text. Slashes cut it into pieces, and the pieces that count are its parts: empty pieces
and full stops do not, except a slash or a full stop at the very beginning. Paths are compared part
by part.
-/

namespace ApiCollection.Path

open Text

inductive Part where
  | root
  | current
  | parent
  | name (text : String)
  deriving DecidableEq, Repr

/-- What stands between slashes. -/
abbrev Piece := List Char

def pieces (path : String) : List Piece := splitAtChar '/' path.toList

def isIdle (piece : Piece) : Bool := piece == [] || piece == ['.']

def part? (piece : Piece) : Option Part :=
  if isIdle piece then none
  else if piece == ['.', '.'] then some .parent
  else some (.name (String.ofList piece))

def bodySteps : List Piece → List (Part × List Piece)
  | [] => []
  | piece :: rest => ((part? piece).map fun p => (p, rest)).toList ++ bodySteps rest

def steps : List Piece → List (Part × List Piece)
  | [] :: next :: rest => (.root, next :: rest) :: bodySteps (next :: rest)
  | ['.'] :: rest => (.current, rest) :: bodySteps rest
  | pieces => bodySteps pieces

def parts (path : String) : List Part := (steps (pieces path)).map Prod.fst

def isAbsolute (path : String) : Bool := path.toList.head? == some '/'

def dropIdleEnd (pieces : List Piece) : List Piece := (pieces.reverse.dropWhile isIdle).reverse

/-- The last part, if it is a name. -/
def fileName? (path : String) : Option String :=
  match (parts path).getLast? with
  | some (.name text) => some text
  | _ => none

/-- The last part for display, which is the whole path when it does not end in a name. -/
def displayName (path : String) : String := (fileName? path).getD path

/-- What follows the last full stop of a file name, unless nothing precedes that. -/
def nameExtension? (name : String) : Option String :=
  match splitAtChar '.' name.toList with
  | [[], _] => none
  | _ :: piece :: pieces => (piece :: pieces).getLast?.map String.ofList
  | _ => none

/-- The extension of a path, with small letters of ASCII. -/
def extension? (path : String) : Option String :=
  ((fileName? path).bind nameExtension?).map fun e => String.ofList (e.toList.map Char.toLower)

def join (folder path : String) : String :=
  if folder.isEmpty then path
  else if endsWith ['/'] folder.toList then folder ++ path
  else folder ++ "/" ++ path

/-- Joins names below a folder, one by one. -/
def joinNames (folder : String) (names : List String) : String := names.foldl join folder

def Part.rank : Part → Nat
  | .root => 0
  | .current => 1
  | .parent => 2
  | .name _ => 3

/-- The order of parts; names are compared character by character. -/
def Part.isBefore : Part → Part → Bool
  | .name a, .name b => a < b
  | a, b => a.rank < b.rank

def partsBefore : List Part → List Part → Bool
  | _, [] => false
  | [], _ :: _ => true
  | a :: as, b :: bs => a.isBefore b || (a == b && partsBefore as bs)

/-- The order of names along a path, name by name. -/
def namesBefore : List String → List String → Bool
  | _, [] => false
  | [], _ :: _ => true
  | a :: as, b :: bs => a < b || (a == b && namesBefore as bs)

def isBefore (a b : String) : Bool := partsBefore (parts a) (parts b)

/-- The pieces behind the parts of a folder, if a path begins with these. -/
def piecesBehind? : List Part → List (Part × List Piece) → List Piece → Option (List Piece)
  | [], _, here => some here
  | _ :: _, [], _ => none
  | p :: ps, (q, rest) :: steps, _ => if p = q then piecesBehind? ps steps rest else none

/-- The text of pieces, of which the ones at the end that do not count are left out. The beginning
of a path stays. -/
def wholeText : List Piece → List Char
  | [] => []
  | first :: rest =>
    if isIdle first && !rest.isEmpty then
      match dropIdleEnd rest with
      | [] => if first.isEmpty then ['/'] else first
      | kept => joinWith ['/'] (first :: kept)
    else joinWith ['/'] (first :: dropIdleEnd rest)

/-- A path as seen from a folder, written as it was; the whole path when it does not lie there. -/
def relativeTo (folder path : String) : String :=
  let all := pieces path
  match parts folder with
  | [] => String.ofList (wholeText all)
  | ps => match piecesBehind? ps (steps all) all with
    | some rest => String.ofList (joinWith ['/'] (dropIdleEnd (rest.dropWhile isIdle)))
    | none => path

/-- Whether a text is the address of a remote document. -/
def isUrl (text : String) : Bool :=
  startsWith "http://".toList text.toList || startsWith "https://".toList text.toList

end ApiCollection.Path
