import ApiCollection.Example.Value

/-!
# Model classes inside of model classes

An example is drawn by following a type through suffixes and containers, which is no deeper, and
through the fields of model classes, which is one level deeper. Drawing ends on every cache, also
when model classes refer to each other in circles: there are no more than three expanded model
classes inside of each other below a type, and a model class below them is null.
-/

namespace ApiCollection.Example

open Java ApiCollection.Random

section Equations

variable (named : String → Draw Json)

theorem ofFirst_eq (args : List TypeExpr) :
    ofFirst named args = ofType named (args.head?.getD .object) := by
  cases args with
  | nil => rfl
  | cons t rest => rfl

private theorem ofType_bytes {base : String} (byte : TypeExpr.isByteName base = true)
    (args : List TypeExpr) : ofType named ⟨base, args, 1⟩ = return .string "ZXhhbXBsZQ==" := by
  rw [ofType, suffixed, if_pos byte]

private theorem ofType_suffix {base : String} {depth : Nat}
    (other : depth = 0 → TypeExpr.isByteName base = false) (args : List TypeExpr) :
    ofType named ⟨base, args, depth + 1⟩ = pair (ofType named ⟨base, args, depth⟩) := by
  rw [ofType, ofType]
  cases depth with
  | zero => rw [suffixed, suffixed, other rfl, if_neg Bool.false_ne_true]
  | succ depth => rfl

variable {base : String} (args : List TypeExpr)

private theorem ofType_scalar {kind : Schema.Kind} {format : Option String}
    (family : TypeFamily.of base = .scalar kind format) :
    ofType named ⟨base, args, 0⟩ = scalar base := by
  rw [ofType, family, suffixed]

private theorem ofType_many
    (family : TypeFamily.of base = .collection ∨ TypeFamily.of base = .stream) :
    ofType named ⟨base, args, 0⟩ = pair (ofType named (args.head?.getD .object)) := by
  rw [← ofFirst_eq, ofType]
  obtain family | family := family <;> rw [family, suffixed]

private theorem ofType_map (family : TypeFamily.of base = .map) :
    ofType named ⟨base, args, 0⟩ = return freeForm := by
  rw [ofType, family, suffixed]

private theorem ofType_wrapper (family : TypeFamily.of base = .wrapper) :
    ofType named ⟨base, args, 0⟩ =
      if (args.head?.getD .object).base == "Void" then return .null
      else ofType named (args.head?.getD .object) := by
  rw [← ofFirst_eq, ofType, family, suffixed]

private theorem ofType_named (family : TypeFamily.of base = .named) :
    ofType named ⟨base, args, 0⟩ = named base := by
  rw [ofType, family, suffixed]

end Equations

/-- A value and the model classes that it is put together from. -/
inductive Tree where
  /-- A value that has no model classes in it. -/
  | plain (value : Json)
  /-- An array of two items. -/
  | pair (first second : Tree)
  /-- A model class that is expanded into an object. -/
  | model (name : String) (members : List (String × Tree))
  /-- A model class in whose place there is null. -/
  | blank (name : String)

namespace Tree

mutual

def value : Tree → Json
  | plain value => value
  | pair first second => .array [first.value, second.value]
  | model _ members => .object (memberValues members)
  | blank _ => .null

def memberValues : List (String × Tree) → Json.Members
  | [] => []
  | (key, part) :: rest => (key, part.value) :: memberValues rest

end

/-- The trees directly inside of a tree. -/
def parts : Tree → List Tree
  | plain _ => []
  | pair first second => [first, second]
  | model _ members => members.map Prod.snd
  | blank _ => []

def isModel : Tree → Bool
  | model _ _ => true
  | _ => false

def name? : Tree → Option String
  | model name _ => some name
  | blank name => some name
  | _ => none

/-- A path from the root of a tree down to a node, by the nodes above it. -/
inductive Path : Tree → List Tree → Tree → Prop
  | root {tree : Tree} : Path tree [] tree
  | part {tree part node : Tree} {above : List Tree} (inside : part ∈ tree.parts)
      (below : Path part above node) : Path tree (tree :: above) node

/-- Whether no path has more than `limit` expanded model classes. Behind as many a model class is
null, and before it is expanded if it is known. -/
structure Limited (cache : Dto.Cache) (limit : Nat) (tree : Tree) : Prop where
  few : ∀ above node, tree.Path above node → (above ++ [node]).countP isModel ≤ limit
  behind : ∀ above node, tree.Path above node → node.name?.isSome = true →
    limit ≤ above.countP isModel → node.value = .null
  before : ∀ above node name, tree.Path above node → node.name? = some name →
    above.countP isModel < limit → (cache.get? name).isSome = true → node.isModel = true

/-- Whether at most `levels` model classes are expanded inside of each other, and others are null
for a reason. -/
inductive Within (cache : Dto.Cache) : Nat → Tree → Prop
  | plain {levels : Nat} {value : Json} : Within cache levels (.plain value)
  | pair {levels : Nat} {first second : Tree} (one : Within cache levels first)
      (other : Within cache levels second) : Within cache levels (.pair first second)
  | behind {name : String} : Within cache 0 (.blank name)
  | unknown {levels : Nat} {name : String} (absent : cache.get? name = none) :
      Within cache (levels + 1) (.blank name)
  | model {levels : Nat} {name : String} {members : List (String × Tree)}
      (each : ∀ m ∈ members, Within cache levels m.2) :
      Within cache (levels + 1) (.model name members)

private theorem memberValues_append (members others : List (String × Tree)) :
    memberValues (members ++ others) = memberValues members ++ memberValues others := by
  induction members with
  | nil => rfl
  | cons m rest ih => rw [List.cons_append, memberValues, memberValues, ih, List.cons_append]

private theorem has_memberValues (members : List (String × Tree)) (key : String) :
    (memberValues members).has key = Table.has members key := by
  induction members with
  | nil => rfl
  | cons m rest ih =>
    rw [memberValues, Table.has, Table.has, List.any_cons, List.any_cons]
    exact congrArg (m.1 == key || ·) ih

private theorem memberValues_plain (members : Json.Members) :
    memberValues (members.map fun m => (m.1, .plain m.2)) = members := by
  induction members with
  | nil => rfl
  | cons m rest ih => rw [List.map_cons, memberValues, ih, value]

variable {cache : Dto.Cache} {limit : Nat} {tree node : Tree} {above : List Tree}

/-- The parts of a tree have what is left below its root. -/
theorem Within.part (h : Within cache limit tree) {part : Tree} (inside : part ∈ tree.parts) :
    ∃ rest, limit = [tree].countP isModel + rest ∧ Within cache rest part := by
  cases h with
  | plain | behind | unknown => cases inside
  | pair one other =>
    refine ⟨limit, (Nat.zero_add limit).symm, ?_⟩
    simp only [parts, List.mem_cons, List.not_mem_nil, or_false] at inside
    obtain rfl | rfl := inside
    · exact one
    · exact other
  | @model levels _ _ each =>
    obtain ⟨m, member, rfl⟩ := List.mem_map.1 inside
    exact ⟨levels, Nat.add_comm levels 1, each m member⟩

/-- A node has what is left below the nodes above it. -/
theorem Within.path (h : Within cache limit tree) (path : tree.Path above node) :
    ∃ rest, limit = above.countP isModel + rest ∧ Within cache rest node := by
  induction path generalizing limit with
  | root => exact ⟨limit, (Nat.zero_add limit).symm, h⟩
  | @part tree _ _ above inside below ih =>
    obtain ⟨rest, left, inner⟩ := h.part inside
    obtain ⟨rest', left', last⟩ := ih inner
    refine ⟨rest', ?_, last⟩
    rw [left, left', ← Nat.add_assoc, ← List.countP_append, List.singleton_append]

private theorem Within.limited (h : Within cache limit tree) : tree.Limited cache limit where
  few above node path := by
    obtain ⟨rest, left, last⟩ := h.path path
    rw [left, List.countP_append, Nat.add_le_add_iff_left]
    cases last with
    | plain | pair | behind | unknown => exact Nat.zero_le _
    | model => exact Nat.le_add_left _ _
  behind above node path named full := by
    obtain ⟨rest, left, last⟩ := h.path path
    obtain rfl : rest = 0 := by omega
    cases last with
    | plain | pair => cases named
    | behind => rfl
  before above node name path named room known := by
    obtain ⟨rest, left, last⟩ := h.path path
    cases last with
    | plain | pair => cases named
    | behind => omega
    | unknown absent =>
      obtain rfl := Option.some.inj named
      rw [absent] at known
      cases known
    | model => rfl

end Tree

inductive Goal where
  | type (t : TypeExpr)
  /-- A type as it is written. -/
  | text (type : String)
  | field (name type : String)
  | object (name : String) (fields : List Field)
  /-- An object that has some members, where some fields are left. -/
  | members (name : String) (members : List (String × Tree)) (left : List Field)

/-- A value is drawn at some depth, where the stream stands before and behind it. Only the fields of
a model class are one level deeper than the class. Every drawing is finite. -/
inductive Expands (cache : Dto.Cache) : Nat → Goal → Stream → Tree → Stream → Prop
  | bytes {depth : Nat} {base : String} {args : List TypeExpr} {s : Stream}
      (byte : TypeExpr.isByteName base = true) :
      Expands cache depth (.type ⟨base, args, 1⟩) s (.plain (.string "ZXhhbXBsZQ==")) s
  | suffix {depth n : Nat} {base : String} {args : List TypeExpr} {s inner after : Stream}
      {one two : Tree} (other : n = 0 → TypeExpr.isByteName base = false)
      (first : Expands cache depth (.type ⟨base, args, n⟩) s one inner)
      (second : Expands cache depth (.type ⟨base, args, n⟩) inner two after) :
      Expands cache depth (.type ⟨base, args, n + 1⟩) s (.pair one two) after
  | scalar {depth : Nat} {base : String} {args : List TypeExpr} {s : Stream}
      {kind : Schema.Kind} {format : Option String}
      (family : TypeFamily.of base = .scalar kind format) :
      Expands cache depth (.type ⟨base, args, 0⟩) s (.plain ((scalar base).run s).1)
        ((scalar base).run s).2
  | many {depth : Nat} {base : String} {args : List TypeExpr} {s inner after : Stream}
      {one two : Tree} (family : TypeFamily.of base = .collection ∨ TypeFamily.of base = .stream)
      (first : Expands cache depth (.type (args.head?.getD .object)) s one inner)
      (second : Expands cache depth (.type (args.head?.getD .object)) inner two after) :
      Expands cache depth (.type ⟨base, args, 0⟩) s (.pair one two) after
  | map {depth : Nat} {base : String} {args : List TypeExpr} {s : Stream}
      (family : TypeFamily.of base = .map) :
      Expands cache depth (.type ⟨base, args, 0⟩) s (.plain freeForm) s
  | void {depth : Nat} {base : String} {args : List TypeExpr} {s : Stream}
      (family : TypeFamily.of base = .wrapper) (void : (args.head?.getD .object).base = "Void") :
      Expands cache depth (.type ⟨base, args, 0⟩) s (.plain .null) s
  | wrapper {depth : Nat} {base : String} {args : List TypeExpr} {s after : Stream} {tree : Tree}
      (family : TypeFamily.of base = .wrapper) (value : (args.head?.getD .object).base ≠ "Void")
      (first : Expands cache depth (.type (args.head?.getD .object)) s tree after) :
      Expands cache depth (.type ⟨base, args, 0⟩) s tree after
  | behind {depth : Nat} {base : String} {args : List TypeExpr} {s : Stream}
      (family : TypeFamily.of base = .named) (deep : maxDtoDepth ≤ depth) :
      Expands cache depth (.type ⟨base, args, 0⟩) s (.blank base) s
  | unknown {depth : Nat} {base : String} {args : List TypeExpr} {s : Stream}
      (family : TypeFamily.of base = .named) (room : depth < maxDtoDepth)
      (absent : cache.get? base = none) :
      Expands cache depth (.type ⟨base, args, 0⟩) s (.blank base) s
  | model {depth : Nat} {base : String} {args : List TypeExpr} {s after : Stream} {dto : Dto}
      {tree : Tree} (family : TypeFamily.of base = .named) (room : depth < maxDtoDepth)
      (known : cache.get? base = some dto)
      (object : Expands cache (depth + 1) (.object base dto.fields) s tree after) :
      Expands cache depth (.type ⟨base, args, 0⟩) s tree after
  | nothing {depth : Nat} {type : String} {s : Stream} (blank : Text.allBlank type.toList = true) :
      Expands cache depth (.text type) s (.plain (.string "example")) s
  | text {depth : Nat} {type : String} {s after : Stream} {tree : Tree}
      (written : Text.allBlank type.toList = false)
      (read : Expands cache depth (.type (.parse type)) s tree after) :
      Expands cache depth (.text type) s tree after
  | ruled {depth : Nat} {name type : String} {s : Stream} {rule : Rule}
      (rule' : rule? name = some rule) :
      Expands cache depth (.field name type) s (.plain (rule.draw.run s).1) (rule.draw.run s).2
  | typed {depth : Nat} {name type : String} {s after : Stream} {tree : Tree}
      (unruled : rule? name = none) (text : Expands cache depth (.text type) s tree after) :
      Expands cache depth (.field name type) s tree after
  | object {depth : Nat} {name : String} {fields : List Field} {s after : Stream} {tree : Tree}
      (all : Expands cache depth
        (.members name (((identity name).run s).1.map fun m => (m.1, .plain m.2)) fields)
        ((identity name).run s).2 tree after) :
      Expands cache depth (.object name fields) s tree after
  | done {depth : Nat} {name : String} {members : List (String × Tree)} {s : Stream} :
      Expands cache depth (.members name members []) s (.model name members) s
  | present {depth : Nat} {name : String} {members : List (String × Tree)} {field : Field}
      {left : List Field} {s after : Stream} {tree : Tree}
      (has : Table.has members field.name = true)
      (rest : Expands cache depth (.members name members left) s tree after) :
      Expands cache depth (.members name members (field :: left)) s tree after
  | absent {depth : Nat} {name : String} {members : List (String × Tree)} {field : Field}
      {left : List Field} {s inner after : Stream} {part tree : Tree}
      (new : Table.has members field.name = false)
      (first : Expands cache depth (.field field.name field.type) s part inner)
      (rest : Expands cache depth (.members name (members ++ [(field.name, part)]) left) inner tree
        after) :
      Expands cache depth (.members name members (field :: left)) s tree after

/-- How a value is drawn where model classes may be expanded `levels` deep. -/
def Goal.draw (cache : Dto.Cache) (levels : Nat) : Goal → Draw Json
  | .type t => ofType (ofName cache levels) t
  | .text written => ofTypeText (ofName cache levels) written
  | .field name written => ofField (ofName cache levels) name written
  | .object name fields => .object <$> ofFields (ofName cache levels) name fields
  | .members _ present left =>
    .object <$> addFields (ofName cache levels) (Tree.memberValues present) left

variable {cache : Dto.Cache}

section Ends

def Ends (cache : Dto.Cache) (depth : Nat) (goal : Goal) : Prop :=
  ∀ s, ∃ tree after, Expands cache depth goal s tree after

variable {depth : Nat}

private theorem ends_suffixed {base : String} {args : List TypeExpr}
    (h : Ends cache depth (.type ⟨base, args, 0⟩)) (n : Nat) :
    Ends cache depth (.type ⟨base, args, n⟩) := by
  induction n with
  | zero => exact h
  | succ n ih =>
    intro s
    by_cases byte : n = 0 ∧ TypeExpr.isByteName base = true
    · obtain ⟨rfl, byte⟩ := byte
      exact ⟨_, _, .bytes byte⟩
    · obtain ⟨one, inner, first⟩ := ih s
      obtain ⟨two, after, second⟩ := ih inner
      refine ⟨_, _, .suffix (fun zero => ?_) first second⟩
      exact Bool.eq_false_iff.2 fun byte' => byte ⟨zero, byte'⟩

mutual

/-- The types of a depth have drawings if the model classes have. -/
theorem ends_type
    (h : ∀ base args, TypeFamily.of base = .named → Ends cache depth (.type ⟨base, args, 0⟩)) :
    ∀ t : TypeExpr, Ends cache depth (.type t)
  | ⟨base, args, n⟩ => by
    refine ends_suffixed ?_ n
    have inner := ends_first h args
    intro s
    cases family : TypeFamily.of base with
    | scalar kind format => exact ⟨_, _, .scalar family⟩
    | collection =>
      obtain ⟨one, between, first⟩ := inner s
      obtain ⟨two, after, second⟩ := inner between
      exact ⟨_, _, .many (.inl family) first second⟩
    | stream =>
      obtain ⟨one, between, first⟩ := inner s
      obtain ⟨two, after, second⟩ := inner between
      exact ⟨_, _, .many (.inr family) first second⟩
    | map => exact ⟨_, _, .map family⟩
    | wrapper =>
      by_cases void : (args.head?.getD .object).base = "Void"
      · exact ⟨_, _, .void family void⟩
      · obtain ⟨tree, after, first⟩ := inner s
        exact ⟨_, _, .wrapper family void first⟩
    | named => exact h base args family s

theorem ends_first
    (h : ∀ base args, TypeFamily.of base = .named → Ends cache depth (.type ⟨base, args, 0⟩)) :
    ∀ args : List TypeExpr, Ends cache depth (.type (args.head?.getD .object))
  | [] => fun _ => ⟨_, _, .scalar (by decide : TypeFamily.of "Object" = .scalar .object none)⟩
  | t :: _ => ends_type h t

end

theorem ends_field (h : ∀ t, Ends cache depth (.type t)) (name type : String) :
    Ends cache depth (.field name type) := by
  intro s
  cases rule : rule? name with
  | some rule' => exact ⟨_, _, .ruled rule⟩
  | none =>
    cases written : Text.allBlank type.toList with
    | true => exact ⟨_, _, .typed rule (.nothing written)⟩
    | false =>
      obtain ⟨tree, after, read⟩ := h (.parse type) s
      exact ⟨_, _, .typed rule (.text written read)⟩

theorem ends_members (h : ∀ t, Ends cache depth (.type t)) (name : String) (left : List Field)
    (members : List (String × Tree)) : Ends cache depth (.members name members left) := by
  induction left generalizing members with
  | nil => exact fun s => ⟨_, _, .done⟩
  | cons field left ih =>
    intro s
    cases has : Table.has members field.name with
    | true =>
      obtain ⟨tree, after, rest⟩ := ih members s
      exact ⟨_, _, .present has rest⟩
    | false =>
      obtain ⟨part, inner, first⟩ := ends_field h field.name field.type s
      obtain ⟨tree, after, rest⟩ := ih (members ++ [(field.name, part)]) inner
      exact ⟨_, _, .absent has first rest⟩

theorem ends_object (h : ∀ t, Ends cache depth (.type t)) (name : String) (fields : List Field) :
    Ends cache depth (.object name fields) := by
  intro s
  obtain ⟨tree, after, all⟩ := ends_members h name fields
    (((identity name).run s).1.map fun m => (m.1, .plain m.2)) ((identity name).run s).2
  exact ⟨_, _, .object all⟩

/-- Every type has a drawing. The induction is on the levels that are left. -/
theorem ends_of_depth (cache : Dto.Cache) (depth : Nat) (t : TypeExpr) :
    Ends cache depth (.type t) := by
  induction left : maxDtoDepth - depth generalizing depth t with
  | zero => exact ends_type (fun _ _ family s => ⟨_, _, .behind family (by omega)⟩) t
  | succ levels ih =>
    have deeper (t : TypeExpr) := ih (depth + 1) t (by omega)
    refine ends_type (fun base args family s => ?_) t
    cases known : cache.get? base with
    | none => exact ⟨_, _, .unknown family (by omega) known⟩
    | some dto =>
      obtain ⟨tree, after, object⟩ := ends_object deeper base dto.fields s
      exact ⟨_, _, .model family (by omega) known object⟩

/-- Every drawing ends. -/
theorem ends (cache : Dto.Cache) (depth : Nat) (goal : Goal) : Ends cache depth goal := by
  have types := ends_of_depth cache depth
  cases goal with
  | type t => exact types t
  | field name type => exact ends_field types name type
  | object name fields => exact ends_object types name fields
  | members name members left => exact ends_members types name left members
  | text type =>
    intro s
    cases written : Text.allBlank type.toList with
    | true => exact ⟨_, _, .nothing written⟩
    | false =>
      obtain ⟨tree, after, read⟩ := types (.parse type) s
      exact ⟨_, _, .text written read⟩

end Ends

/-- Where there is room at a depth, one level more is left than a level deeper. -/
theorem levels_eq {depth : Nat} (room : depth < maxDtoDepth) :
    maxDtoDepth - depth = maxDtoDepth - (depth + 1) + 1 := by
  omega

private theorem run_pair {draw : Draw Json} {s inner after : Stream} {one two : Json}
    (first : draw.run s = (one, inner)) (second : draw.run inner = (two, after)) :
    (pair draw).run s = (.array [one, two], after) := by
  rw [pair, StateT.run_bind, first]
  change (draw >>= fun second => return Json.array [one, second]).run inner = _
  rw [StateT.run_bind, second]
  rfl

/-- A drawing has the value that is drawn, and leaves the stream where drawing leaves it. -/
theorem Expands.run {depth : Nat} {goal : Goal} {s after : Stream} {tree : Tree}
    (h : Expands cache depth goal s tree after) :
    (goal.draw cache (maxDtoDepth - depth)).run s = (tree.value, after) := by
  induction h with
  | bytes byte =>
    rw [Goal.draw, ofType_bytes _ byte]
    rfl
  | suffix other _ _ one two =>
    rw [Goal.draw, ofType_suffix _ other]
    exact run_pair one two
  | scalar family =>
    rw [Goal.draw, ofType_scalar _ _ family]
    rfl
  | many family _ _ one two =>
    rw [Goal.draw, ofType_many _ _ family]
    exact run_pair one two
  | map family =>
    rw [Goal.draw, ofType_map _ _ family]
    rfl
  | void family void =>
    rw [Goal.draw, ofType_wrapper _ _ family, if_pos (beq_iff_eq.2 void)]
    rfl
  | wrapper family value _ first =>
    rw [Goal.draw, ofType_wrapper _ _ family, if_neg (by simpa using value)]
    exact first
  | behind family deep =>
    rw [Goal.draw, ofType_named _ _ family, Nat.sub_eq_zero_of_le deep]
    rfl
  | unknown family room absent =>
    rw [Goal.draw, ofType_named _ _ family, levels_eq room, ofName, absent]
    rfl
  | model family room known _ object =>
    rw [Goal.draw, ofType_named _ _ family, levels_eq room, ofName, known]
    exact object
  | nothing blank =>
    rw [Goal.draw, ofTypeText, if_pos blank]
    rfl
  | text written _ read =>
    rw [Goal.draw, ofTypeText, written, if_neg Bool.false_ne_true]
    exact read
  | ruled rule =>
    rw [Goal.draw, ofField, rule]
    rfl
  | typed unruled _ text =>
    rw [Goal.draw, ofField, unruled]
    exact text
  | object _ all =>
    rw [Goal.draw, Tree.memberValues_plain] at all
    exact all
  | done => rfl
  | present has _ rest =>
    rw [Goal.draw, addFields, Tree.has_memberValues, has, if_pos rfl]
    exact rest
  | absent new _ _ first rest =>
    rw [Goal.draw, Tree.memberValues_append] at rest
    rw [Goal.draw, addFields, Tree.has_memberValues, new, if_neg Bool.false_ne_true]
    rw [Goal.draw] at first
    rw [StateT.run_map, StateT.run_bind, first]
    exact rest

/-- There is a drawing with the value that is drawn, and none with another one. -/
theorem exists_expands_iff (cache : Dto.Cache) (depth : Nat) (goal : Goal) (s : Stream)
    (result : Json × Stream) :
    (∃ tree, Expands cache depth goal s tree result.2 ∧ tree.value = result.1) ↔
      result = (goal.draw cache (maxDtoDepth - depth)).run s := by
  constructor
  · rintro ⟨tree, drawn, value⟩
    rw [drawn.run, value]
  · rintro rfl
    obtain ⟨tree, after, drawn⟩ := ends cache depth goal s
    rw [drawn.run]
    exact ⟨tree, drawn, rfl⟩

/-- What the drawings of a goal keep to where `levels` levels are left: an object is one of them. -/
def Goal.Keeps (cache : Dto.Cache) (levels : Nat) (tree : Tree) : Goal → Prop
  | .members _ present _ =>
    (∀ m ∈ present, m.2.Within cache levels) → tree.Within cache (levels + 1)
  | .object _ _ => tree.Within cache (levels + 1)
  | .type _ | .text _ | .field _ _ => tree.Within cache levels

private theorem Expands.keeps {depth : Nat} {goal : Goal} {s after : Stream} {tree : Tree}
    (h : Expands cache depth goal s tree after) :
    goal.Keeps cache (maxDtoDepth - depth) tree := by
  induction h with
  | bytes | scalar | map | void | nothing | ruled => exact .plain
  | suffix _ _ _ one two => exact .pair one two
  | many _ _ _ one two => exact .pair one two
  | wrapper _ _ _ first => exact first
  | behind _ deep =>
    rw [Goal.Keeps, Nat.sub_eq_zero_of_le deep]
    exact .behind
  | unknown _ room absent =>
    rw [Goal.Keeps, levels_eq room]
    exact .unknown absent
  | model _ room _ _ object =>
    rw [Goal.Keeps, levels_eq room]
    exact object
  | text _ _ read => exact read
  | typed _ _ text => exact text
  | object _ all =>
    refine all fun m member => ?_
    obtain ⟨seed, -, rfl⟩ := List.mem_map.1 member
    exact .plain
  | done => exact fun each => .model each
  | present _ _ rest => exact rest
  | absent _ _ _ first rest =>
    intro each
    refine rest fun m member => ?_
    obtain old | new := List.mem_append.1 member
    · exact each m old
    · rw [List.mem_singleton.1 new]
      exact first

/-- On every cache, the values of types and of model classes are drawn in finitely many steps, and
in one way. Below a type there are at most three model classes inside of each other, and four with
the one that an example is for; behind as many, a model class is null. -/
theorem limited_expansions (cache : Dto.Cache) (s : Stream) :
    (∀ type : String,
      (∀ result : Json × Stream,
        (∃ tree, Expands cache 0 (.text type) s tree result.2 ∧ tree.value = result.1) ↔
          result = (forType cache type).run s) ∧
      ∀ tree after, Expands cache 0 (.text type) s tree after → tree.Limited cache 3) ∧
    ∀ name : String,
      (∀ result : Json × Stream,
        (∃ tree, Expands cache 0 (.object name (cache.fields name)) s tree result.2 ∧
          tree.value = result.1) ↔ result = (Json.object <$> dtoMembers cache name).run s) ∧
      ∀ tree after, Expands cache 0 (.object name (cache.fields name)) s tree after →
        tree.Limited cache 4 := by
  constructor
  · intro type
    refine ⟨exists_expands_iff cache 0 (.text type) s, fun tree after drawn => ?_⟩
    have within : tree.Within cache 3 := drawn.keeps
    exact within.limited
  · intro name
    refine ⟨exists_expands_iff cache 0 (.object name (cache.fields name)) s, ?_⟩
    intro tree after drawn
    have within : tree.Within cache 4 := drawn.keeps
    exact within.limited

/-- A list that goes on without an end is cut off behind three of its cells. -/
example : let cache := Dto.Cache.ofList [⟨"Cell", none, [⟨"next", "Cell"⟩]⟩]
    ((forType cache "Cell").run (.ofSeed 42)).1 =
      .object [("next", .object [("next", .object [("next", .null)])])] := by decide +kernel

end ApiCollection.Example
