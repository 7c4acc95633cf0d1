import ApiCollection.Decimal.Layout
import ApiCollection.Json.Value
import ApiCollection.Random.Draw
import ApiCollection.Text.Casing
import ApiCollection.Text.Chars

/-!
# Example values by name

The name of a field often says what its values look like. The rules are tried in order, and the
first one that applies to a name draws the value.

Examples lie in the leap year 2024. A moment is a number of seconds since its beginning.
-/

namespace ApiCollection.Example

open ApiCollection.Random Text

def monthLengths : List Nat := [31, 29, 31, 30, 31, 30, 31, 31, 30, 31, 30, 31]

def yearSeconds : Nat := 366 * 24 * 60 * 60

/-- The month and the day of a day that is counted from zero. `month` is the number of the first
of the months that are left. -/
def monthAndDay (month day : Nat) : List Nat → Nat × Nat
  | [] => (month, day + 1)
  | length :: rest =>
    if day < length then (month, day + 1) else monthAndDay (month + 1) (day - length) rest

def twoDigits (n : Nat) : String :=
  if n < 10 then "0" ++ Decimal.natText n else Decimal.natText n

def dateText (seconds : Nat) : String :=
  let (month, day) := monthAndDay 1 (seconds / 86400) monthLengths
  "2024-" ++ twoDigits month ++ "-" ++ twoDigits day

/-- The date and the time of a moment, to the millisecond. -/
def momentText (seconds : Nat) : String :=
  let time := seconds % 86400
  dateText seconds ++ "T" ++ twoDigits (time / 3600) ++ ":" ++ twoDigits (time / 60 % 60) ++ ":" ++
    twoDigits (time % 60) ++ ".000"

def firstNames : List String :=
  ["James", "Mary", "Robert", "Patricia", "John", "Jennifer", "Michael", "Linda", "David",
    "Elizabeth", "William", "Barbara", "Richard", "Susan", "Joseph", "Jessica"]

def lastNames : List String :=
  ["Smith", "Johnson", "Williams", "Brown", "Jones", "Garcia", "Miller", "Davis", "Rodriguez",
    "Martinez", "Hernandez", "Lopez", "Wilson", "Anderson", "Thomas", "Taylor"]

def emailDomains : List String := ["example.com", "example.org", "mail.example.net"]

def streets : List String :=
  ["Main Street", "Oak Avenue", "Maple Drive", "Cedar Lane", "Elm Street", "Park Road",
    "Lakeview Court", "Hillcrest Way"]

def cities : List String :=
  ["Springfield", "Riverside", "Franklin", "Greenville", "Bristol", "Clinton", "Fairview",
    "Salem", "Madison", "Georgetown"]

def states : List String :=
  ["California", "Texas", "Florida", "New York", "Oregon", "Ohio", "Georgia", "Colorado"]

def countries : List String :=
  ["United States", "Canada", "Germany", "France", "Japan", "Brazil", "Australia", "Spain"]

def companies : List String :=
  ["Acme Corp", "Globex Inc", "Initech", "Umbrella Group", "Stark Industries",
    "Wayne Enterprises", "Hooli", "Vandelay Industries"]

def jobTitles : List String :=
  ["Software Engineer", "Product Manager", "Data Analyst", "Account Executive",
    "Support Specialist", "Marketing Coordinator", "Operations Lead", "QA Engineer"]

def fillerWords : List String :=
  ["lorem", "ipsum", "dolor", "sit", "amet", "consectetur", "adipiscing", "elit", "sed", "do",
    "eiusmod", "tempor", "incididunt", "labore", "dolore", "magna", "aliqua", "veniam"]

def fullName : Draw String := do
  let first ← pick firstNames
  let last ← pick lastNames
  return first ++ " " ++ last

def email : Draw String := do
  let first ← pick firstNames
  let last ← pick lastNames
  let domain ← pick emailDomains
  return asciiLowercase first ++ "." ++ asciiLowercase last ++ "@" ++ domain

def userName : Draw String := do
  let first ← pick firstNames
  let number ← between 1 999
  return asciiLowercase first ++ Decimal.natText number

def phone : Draw String := do
  let area ← between 200 998
  let exchange ← between 100 998
  let line ← between 1000 9998
  return "+1-" ++ Decimal.natText area ++ "-" ++ Decimal.natText exchange ++ "-" ++
    Decimal.natText line

def street : Draw String := do
  let number ← between 1 9998
  let name ← pick streets
  return Decimal.natText number ++ " " ++ name

def withCapital (s : String) : String :=
  match s.toList with
  | [] => s
  | c :: rest => String.ofList (c.toUpper :: rest)

def sentence (length : Nat) : Draw String := do
  let chosen ← times length (pick fillerWords)
  return withCapital (" ".intercalate chosen) ++ "."

def webAddress : Draw String := do
  let word ← pick fillerWords
  return "https://www." ++ word ++ ".example.com"

def pictureAddress : Draw String := do
  let number ← between 1 499
  return "https://cdn.example.com/avatars/" ++ Decimal.natText number ++ ".png"

/-- A number of hundredths, drawn from a half-open range. -/
def amount (low high : Nat) : Draw Json := do
  let cents ← betweenLong low (high - 1)
  return .number (.real (cents.toFloat / 100.0).toBits)

def number (low high : Nat) : Draw Json := do
  return .int (← between low high)

def moment : Draw Nat := betweenLong 0 (yearSeconds - 1)

def timestamp : Draw String := do
  return momentText (← moment) ++ "Z"

/-- A rule: which names it applies to, given the name and the name with its case folded, and how a
value is drawn. -/
structure Rule where
  applies : (name folded : List Char) → Bool
  draw : Draw Json

/-- A rule for the names that hold one of some words, in any case. -/
def Rule.holding (needles : List String) (draw : Draw Json) : Rule :=
  ⟨fun _ folded => needles.any fun needle => occursIn needle.toList folded, draw⟩

def isPersonName (folded : List Char) : Bool :=
  folded == "name".toList ||
    ["first_name", "firstname", "last_name", "lastname", "full_name", "fullname"].any fun part =>
      occursIn part.toList folded

/-- Whether a name is `age`, or letters that finish with `Age`. -/
def isAgeName (name : List Char) : Bool :=
  name == "age".toList || match before? "Age".toList name with
    | some front => !front.isEmpty && front.all Char.isAlpha
    | none => false

/-- The rules in order of precedence. -/
def rules : List Rule := [
  .holding ["email"] (.string <$> email),
  ⟨fun _ folded => isPersonName folded, .string <$> fullName⟩,
  .holding ["username", "login"] (.string <$> userName),
  .holding ["password"] (return .string "********"),
  .holding ["phone", "mobile", "tel"] (.string <$> phone),
  .holding ["address", "street"] (.string <$> street),
  .holding ["city"] (.string <$> pick cities),
  .holding ["state", "province"] (.string <$> pick states),
  .holding ["country"] (.string <$> pick countries),
  .holding ["zip", "postal"] (return .string (Decimal.natText (← between 10000 99998))),
  .holding ["url", "website", "link"] (.string <$> webAddress),
  .holding ["image", "avatar", "photo", "picture"] (.string <$> pictureAddress),
  .holding ["title"] (.string <$> sentence 3),
  .holding ["description", "bio", "about", "summary"]
    (do return .string (← sentence (← between 8 13))),
  .holding ["content", "body", "text"]
    (do
      let first ← sentence 10
      let second ← sentence 12
      return .string (first ++ "\n" ++ second)),
  .holding ["company", "organization"] (.string <$> pick companies),
  .holding ["job", "position", "role"] (.string <$> pick jobTitles),
  .holding ["price", "amount", "cost", "total"] (amount 100 100000),
  .holding ["quantity", "count", "qty"] (number 1 100),
  ⟨fun name _ => isAgeName name, number 18 80⟩,
  .holding ["rating", "score"] (number 1 5),
  .holding ["status"] (.string <$> pick ["ACTIVE", "INACTIVE", "PENDING"]),
  .holding ["type", "category"] (.string <$> pick ["TYPE_A", "TYPE_B", "TYPE_C"]),
  .holding ["uuid", "guid"] (.string <$> uuid),
  .holding ["token"] (.string <$> alphanumericText 32),
  .holding ["code"] do
    return .string (String.ofList ((← alphanumericText 8).toList.map Char.toUpper))]

def rule? (name : String) : Option Rule :=
  rules.find? fun rule => rule.applies name.toList (name.toList.map foldChar)

end ApiCollection.Example
