import ApiCollection.Proofs.PathFilters
import ApiCollection.Proofs.Relocation

/-!
# What a scan finds

A tier holds the files below its folder whose names end as the tier says, as long as no name on the
way is hidden or that of build output. A scan takes the first tier that holds a file, and finds
those of its files that the filter keeps, that can be read and that mark a controller, in the order
of their paths. The names of the second tier end as those of the first one do, and it has the same
folder, so that it is never the first one with a file.
-/

namespace ApiCollection

open ApiCollection.Path (IsName joinNames)

variable {fs : FileSystem} {root path : String} {filter : Pattern.Filter} {tier : Tier}

/-- Names of hidden entries and of build output. -/
def IsAside (name : String) : Prop :=
  name.toList.head? = some '.' ∨ name = "target" ∨ name = "build"

instance : DecidablePred IsAside := fun _ => inferInstanceAs (Decidable (_ ∨ _ ∨ _))

/-- A tier holds the files that names lead to from its folder, none of which is aside, and the last
of which ends as the tier says. -/
def Tier.Holds (tier : Tier) (fs : FileSystem) (root path : String) : Prop :=
  ∃ folders name bytes, (∀ n ∈ folders ++ [name], IsName n ∧ ¬IsAside n) ∧
    tier.ending.toList <:+ name.toList ∧
    path = joinNames (Path.join root tier.folder) (folders ++ [name]) ∧
    fs.find? path = some (.file bytes)

private theorem isPassedOver_iff (name : String) : isPassedOver name = true ↔ IsAside name := by
  rw [isPassedOver, IsAside, Bool.or_eq_true, Bool.or_eq_true, Text.startsWith_singleton_iff,
    beq_iff_eq, beq_iff_eq, or_assoc]

/-- Above an entry of a tree there is an entry. -/
theorem FileSystem.IsTree.isSome_above (tree : fs.IsTree) {place names : List String}
    {entry : Entry} (found : fs.at? (place ++ names) = some entry) : (fs.at? place).isSome := by
  induction names using List.reverseRecOn generalizing entry with
  | nil =>
    rw [← List.append_nil place, found]
    rfl
  | append_singleton front name ih =>
    rw [← List.append_assoc] at found
    exact ih (tree.parent found)

namespace Project

variable {p : Project}

/-- A folder of a tree is a project. -/
theorem exists_of_isFolder (tree : fs.IsTree) (folder : fs.isFolder root = true) :
    ∃ p : Project, p.fs = fs ∧ p.root = root := by
  rw [FileSystem.isFolder, beq_iff_eq] at folder
  obtain ⟨place, located, found⟩ := Option.bind_eq_some_iff.1 folder
  exact ⟨⟨fs, tree, root, place, located, found⟩, rfl, rfl⟩

private theorem mem_below {sub names : List String} {through : String → Bool} :
    names ∈ p.below sub through ↔
      names ≠ [] ∧ p.IsFile (sub ++ names) ∧ names.all through = true := by
  rw [IsFile, at?, ← List.append_assoc]
  by_cases present : (p.at? sub).isSome
  · rw [below, if_pos present]
    exact FileSystem.mem_filesBelow p.tree
  · rw [below, if_neg present]
    refine iff_of_false List.not_mem_nil ?_
    rintro ⟨-, ⟨bytes, found⟩, -⟩
    exact present (p.tree.isSome_above found)

theorem mem_files_iff (known : tier ∈ tiers) :
    path ∈ tier.files p.fs p.root ↔ tier.Holds p.fs p.root path := by
  obtain ⟨first, rest, spelled, named⟩ := exists_names_folder known
  have nonempty := (named first List.mem_cons_self).ne_empty
  have joined (names : List String) :
      joinNames (p.path (first :: rest)) names = p.path (first :: rest ++ names) :=
    List.foldl_append.symm
  have open' (names : List String) :
      names.all (!isPassedOver ·) = true ↔ ∀ n ∈ names, ¬IsAside n := by
    simp [← isPassedOver_iff]
  rw [Tier.files, Tier.Holds, join_eq_path p spelled nonempty, walk_path p named, List.mem_map]
  simp only [List.mem_filter, List.mem_map, mem_below, joined, Text.endsWith_iff, open']
  constructor
  · rintro ⟨_, ⟨⟨names, ⟨nonempty, file, aside⟩, rfl⟩, ending⟩, rfl⟩
    obtain ⟨folders, name, rfl⟩ := (List.eq_nil_or_concat' names).resolve_left nonempty
    rw [List.getLast?_concat] at ending
    have named' : ∀ n ∈ first :: rest ++ (folders ++ [name]), IsName n := file.named
    obtain ⟨bytes, found⟩ := file
    refine ⟨folders, name, bytes, fun n member => ⟨?_, aside n member⟩, ending, rfl, ?_⟩
    · exact named' n (List.mem_append_right _ member)
    · rw [find?_path p named', found]
  · rintro ⟨folders, name, bytes, open', ending, rfl, found⟩
    have named' : ∀ n ∈ first :: rest ++ (folders ++ [name]), IsName n :=
      List.forall_mem_append.2 ⟨named, fun n member => (open' n member).1⟩
    rw [find?_path p named'] at found
    refine ⟨_, ⟨⟨folders ++ [name], ⟨?_, ⟨bytes, found⟩, ?_⟩, rfl⟩, ?_⟩, rfl⟩
    · exact List.append_ne_nil_of_right_ne_nil _ (List.cons_ne_nil _ _)
    · exact fun n member => (open' n member).2
    · rwa [List.getLast?_concat]

private theorem ordered_files (known : tier ∈ tiers) :
    (tier.files p.fs p.root).Pairwise fun a b => Path.isBefore a b = true :=
  (mirrored_files (fun _ => rfl : p.Same p) known).ordered

end Project

/-- A tier is the first one with a file. -/
structure Tier.IsFirst (tier : Tier) (fs : FileSystem) (root : String) : Prop where
  holds : ∃ path, tier.Holds fs root path
  others : ∃ front back, tiers = front ++ tier :: back ∧
    ∀ other ∈ front, ∀ path, ¬other.Holds fs root path

theorem Tier.IsFirst.mem (first : tier.IsFirst fs root) : tier ∈ tiers := by
  obtain ⟨front, back, same, -⟩ := first.others
  rw [same]
  exact List.mem_append_right _ List.mem_cons_self

theorem Tier.IsFirst.unique {other : Tier} (first : tier.IsFirst fs root)
    (first' : other.IsFirst fs root) : tier = other := by
  obtain ⟨⟨path, held⟩, front, back, same, others⟩ := first
  obtain ⟨⟨path', held'⟩, front', back', same', others'⟩ := first'
  rw [same, List.append_eq_append_iff] at same'
  obtain ⟨_ | ⟨t, between⟩, longer, behind⟩ | ⟨_ | ⟨t, between⟩, longer, behind⟩ := same'
  · exact (List.cons.inj behind).1
  · obtain ⟨rfl, -⟩ := List.cons.inj behind
    refine absurd held (others' tier ?_ path)
    rw [longer]
    exact List.mem_append_right _ List.mem_cons_self
  · exact (List.cons.inj behind).1.symm
  · obtain ⟨rfl, -⟩ := List.cons.inj behind
    refine absurd held' (others other ?_ path')
    rw [longer]
    exact List.mem_append_right _ List.mem_cons_self

/-- What a tier holds is held by a tier of the same folder that asks for less of a name. -/
theorem Tier.Holds.of_ending {other : Tier} (folder : tier.folder = other.folder)
    (ending : other.ending.toList <:+ tier.ending.toList) (held : tier.Holds fs root path) :
    other.Holds fs root path := by
  obtain ⟨folders, name, bytes, named, ends, same, found⟩ := held
  exact ⟨folders, name, bytes, named, ending.trans ends, folder ▸ same, found⟩

/-- The second tier is never the first one with a file. -/
theorem Tier.IsFirst.label_ne (first : tier.IsFirst fs root) : tier.label ≠ tiers[1].label := by
  intro label
  have known := first.mem
  obtain ⟨⟨path, held⟩, front, back, same, none⟩ := first
  have second : ∀ t ∈ tiers, t.label = tiers[1].label →
      t.folder = "src/main/java" ∧ t.ending = "RestController.java" := by decide
  obtain ⟨folder, ending⟩ := second tier known label
  cases front with
  | nil =>
    rw [← (List.cons.inj same).1] at label
    exact absurd label (by decide)
  | cons wider front =>
    obtain ⟨rfl, -⟩ := List.cons.inj same
    refine none _ List.mem_cons_self path (held.of_ending folder ?_)
    rw [ending]
    decide

def Tier.found? (tier : Tier) (fs : FileSystem) (root : String) : Option (String × List String) :=
  if (tier.files fs root).isEmpty then none else some (tier.label, tier.files fs root)

theorem Scan.discover_eq (fs : FileSystem) (root : String) :
    discover fs root = tiers.findSome? (·.found? fs root) := rfl

namespace Project

variable {p : Project}

theorem found?_eq_none_iff (known : tier ∈ tiers) :
    tier.found? p.fs p.root = none ↔ ∀ path, ¬tier.Holds p.fs p.root path := by
  have empty : (∀ path, ¬tier.Holds p.fs p.root path) ↔
      (tier.files p.fs p.root).isEmpty = true := by
    rw [List.isEmpty_iff, List.eq_nil_iff_forall_not_mem]
    exact forall_congr' fun path => not_congr (mem_files_iff known).symm
  rw [empty, Tier.found?]
  cases (tier.files p.fs p.root).isEmpty <;> simp

private theorem discover_eq_none_iff : Scan.discover p.fs p.root = none ↔
    ∀ tier ∈ tiers, ∀ path, ¬tier.Holds p.fs p.root path := by
  rw [Scan.discover_eq, List.findSome?_eq_none_iff]
  exact forall₂_congr fun tier known => found?_eq_none_iff known

private theorem found?_eq_some_iff {label : String} {files : List String} :
    tier.found? p.fs p.root = some (label, files) ↔
      tier.files p.fs p.root ≠ [] ∧ label = tier.label ∧ files = tier.files p.fs p.root := by
  rw [Tier.found?, ← List.isEmpty_eq_false_iff]
  cases (tier.files p.fs p.root).isEmpty <;> simp [eq_comm]

/-- What is discovered are the files of the first tier with a file. -/
theorem discover_eq_some_iff {label : String} {files : List String} :
    Scan.discover p.fs p.root = some (label, files) ↔ ∃ tier : Tier,
      tier.IsFirst p.fs p.root ∧ label = tier.label ∧ files = tier.files p.fs p.root := by
  rw [Scan.discover_eq, List.findSome?_eq_some_iff]
  constructor
  · rintro ⟨front, tier, back, same, taken, others⟩
    have known : ∀ t ∈ front ++ tier :: back, t ∈ tiers := fun t member => same ▸ member
    rw [List.forall_mem_append, List.forall_mem_cons] at known
    obtain ⟨nonempty, label, files⟩ := found?_eq_some_iff.1 taken
    obtain ⟨path, member⟩ := List.exists_mem_of_ne_nil _ nonempty
    refine ⟨tier, ⟨⟨path, (mem_files_iff known.2.1).1 member⟩, front, back, same, ?_⟩, label, files⟩
    exact fun other member => (found?_eq_none_iff (known.1 other member)).1 (others other member)
  · rintro ⟨tier, first, label, files⟩
    have known := first.mem
    obtain ⟨⟨path, held⟩, front, back, same, others⟩ := first
    refine ⟨front, tier, back, same, found?_eq_some_iff.2 ⟨?_, label, files⟩, ?_⟩
    · exact List.ne_nil_of_mem ((mem_files_iff known).2 held)
    · intro other member
      have known' : other ∈ tiers := same ▸ List.mem_append_left _ member
      exact (found?_eq_none_iff known').2 (others other member)

end Project

/-- Files that a filter keeps, that can be read and that mark a controller. -/
structure Survives (fs : FileSystem) (filter : Pattern.Filter) (path : String) : Prop where
  kept : filter.apply id [path] = [path]
  marked : ∃ bytes, fs.find? path = some (.file (some bytes)) ∧
    isController (Text.utf8TextLossy bytes) = true

private theorem marksController_iff : Scan.marksController fs path = true ↔
    ∃ bytes, fs.find? path = some (.file (some bytes)) ∧
      isController (Text.utf8TextLossy bytes) = true := by
  rw [Scan.marksController, FileSystem.readLossy, FileSystem.bytes?]
  obtain _ | _ | _ | bytes := fs.find? path <;> simp

private theorem mem_survivors_iff {files : List String} :
    path ∈ (filter.apply id files).filter (Scan.marksController fs) ↔
      path ∈ files ∧ Survives fs filter path := by
  have kept : filter.apply id [path] = [path] ↔ filter.passes path = true := by
    rw [Pattern.Filter.apply_eq_filter, List.filter_eq_self, List.forall_mem_singleton]
    rfl
  rw [List.mem_filter, Pattern.Filter.apply_eq_filter, List.mem_filter, marksController_iff,
    and_assoc]
  refine and_congr_right fun _ => ⟨?_, ?_⟩
  · rintro ⟨passed, marked⟩
    exact ⟨kept.2 passed, marked⟩
  · rintro ⟨passed, marked⟩
    exact ⟨kept.1 passed, marked⟩

/-- The survivors of a tier in the order of their paths, with the label of the tier and the number
of the files that it holds. -/
structure Scan.Exact (fs : FileSystem) (root : String) (filter : Pattern.Filter) (tier : Tier)
    (scan : Scan) : Prop where
  ordered : scan.controllers.Pairwise fun a b => Path.isBefore a b = true
  controllers : ∀ path, path ∈ scan.controllers ↔
    tier.Holds fs root path ∧ Survives fs filter path
  discovered : ∃ files : List String, files.Nodup ∧
    (∀ path, path ∈ files ↔ tier.Holds fs root path) ∧ scan.discovered = files.length
  label : scan.tier = tier.label

/-- What a scan of a folder may come to. -/
inductive Scan.Outcome (fs : FileSystem) (root : String) (filter : Pattern.Filter) :
    Except Failure Scan → Prop
  | empty (empty : ∀ tier ∈ tiers, ∀ path, ¬tier.Holds fs root path) :
      Outcome fs root filter (.error (.noControllers root))
  | lost {tier : Tier} (first : tier.IsFirst fs root)
      (lost : ∀ path, tier.Holds fs root path → ¬Survives fs filter path) :
      Outcome fs root filter (.error (.noControllers root))
  | found {tier : Tier} {scan : Scan} (first : tier.IsFirst fs root)
      (exact : scan.Exact fs root filter tier)
      (survives : ∃ path, tier.Holds fs root path ∧ Survives fs filter path) :
      Outcome fs root filter (.ok scan)

private theorem Project.outcome_scan (p : Project) (filter : Pattern.Filter) :
    Scan.Outcome p.fs p.root filter (Scan.of p.fs p.root filter) := by
  rw [Scan.of, p.isFolder_root, Bool.not_true, if_neg Bool.false_ne_true]
  cases found : Scan.discover p.fs p.root with
  | none => exact .empty (discover_eq_none_iff.1 found)
  | some result =>
    obtain ⟨label, files⟩ := result
    obtain ⟨tier, first, rfl, rfl⟩ := discover_eq_some_iff.1 found
    have held : ∀ path, path ∈ tier.files p.fs p.root ↔ tier.Holds p.fs p.root path :=
      fun _ => mem_files_iff first.mem
    have ordered := ordered_files (p := p) first.mem
    have members (path : String) : path ∈ (filter.apply id (tier.files p.fs p.root)).filter
        (Scan.marksController p.fs) ↔ tier.Holds p.fs p.root path ∧ Survives p.fs filter path := by
      rw [mem_survivors_iff, held]
    dsimp only
    split
    · rename_i none
      rw [List.isEmpty_iff, List.eq_nil_iff_forall_not_mem] at none
      exact .lost first fun path held survives => none path ((members path).2 ⟨held, survives⟩)
    · rename_i some
      rw [Bool.not_eq_true, List.isEmpty_eq_false_iff] at some
      obtain ⟨path, member⟩ := List.exists_mem_of_ne_nil _ some
      refine .found first ⟨?_, members, ⟨_, ?_, held, rfl⟩, rfl⟩ ⟨path, (members path).1 member⟩
      · rw [Pattern.Filter.apply_eq_filter]
        exact (ordered.filter _).filter _
      · refine ordered.imp fun before same => ?_
        rw [same, Path.isBefore_irrefl] at before
        cases before

/-- A scan finds the survivors of the first tier with a file. It fails when the project is no
folder, when there is no such tier and when no file of the tier survives, and the tier is never the
second one. -/
theorem Scan.exact_of (tree : fs.IsTree) (root : String) (filter : Pattern.Filter) :
    (Scan.of fs root filter = .error (.projectNotFound root) ↔ fs.isFolder root = false) ∧
    (Scan.of fs root filter = .error (.noControllers root) ↔ fs.isFolder root = true ∧
      ((∀ tier ∈ tiers, ∀ path, ¬tier.Holds fs root path) ∨
        ∃ tier : Tier, tier.IsFirst fs root ∧
          ∀ path, tier.Holds fs root path → ¬Survives fs filter path)) ∧
    (Scan.of fs root filter = .error (.projectNotFound root) ∨
      Scan.of fs root filter = .error (.noControllers root) ∨
      ∃ scan tier, Scan.of fs root filter = .ok scan ∧ tier.IsFirst fs root ∧
        scan.Exact fs root filter tier ∧ scan.tier ≠ tiers[1].label) := by
  cases folder : fs.isFolder root with
  | false =>
    have failed : Scan.of fs root filter = .error (.projectNotFound root) := by
      rw [Scan.of, folder]
      rfl
    rw [failed]
    simp
  | true =>
    obtain ⟨p, rfl, rfl⟩ := Project.exists_of_isFolder tree folder
    have outcome := p.outcome_scan filter
    generalize Scan.of p.fs p.root filter = result at outcome
    cases outcome with
    | empty empty => exact ⟨by simp, by simpa using .inl empty, .inr (.inl rfl)⟩
    | @lost tier first lost =>
      exact ⟨by simp, by simpa using .inr ⟨tier, first, lost⟩, .inr (.inl rfl)⟩
    | @found tier scan first exact survives =>
      obtain ⟨path, held, survives⟩ := survives
      refine ⟨by simp, iff_of_false (by rintro ⟨⟩) ?_, .inr (.inr ⟨scan, tier, rfl, first, exact, ?_⟩)⟩
      · rintro ⟨-, empty | ⟨other, first', lost⟩⟩
        · exact empty tier first.mem path held
        · exact lost path (first.unique first' ▸ held) survives
      · rw [exact.label]
        exact first.label_ne

def orderBytes : List UInt8 := Text.utf8Bytes "@Controller @ResponseBody class OrderController"

/-- A controller, one that may not be read, one in a folder of build output and one that a filter
leaves out. -/
def shop : FileSystem where
  entries := [(["shop"], .folder), (["shop", "src"], .folder), (["shop", "src", "main"], .folder),
    (["shop", "src", "main", "java"], .folder),
    (["shop", "src", "main", "java", "build"], .folder),
    (["shop", "src", "main", "java", "build", "OldController.java"],
      .file (some (Text.utf8Bytes "@RestController"))),
    (["shop", "src", "main", "java", "OrderController.java"],
      .file (some orderBytes)),
    (["shop", "src", "main", "java", "AdminController.java"],
      .file (some (Text.utf8Bytes "@RestController class AdminController"))),
    (["shop", "src", "main", "java", "KeyController.java"], .file none)]

def shopFilter : Pattern.Filter := { unwanted := ["Admin*"] }

theorem exact_shopScan : shop.IsTree ∧ ∃ scan, Scan.of shop "shop" shopFilter = .ok scan ∧
    scan.Exact shop "shop" shopFilter tiers[0] ∧ scan.tier ≠ tiers[1].label ∧
    "shop/src/main/java/OrderController.java" ∈ scan.controllers ∧
    "shop/src/main/java/AdminController.java" ∉ scan.controllers ∧
    "shop/src/main/java/KeyController.java" ∉ scan.controllers := by
  have tree : shop.IsTree := ⟨by decide, by decide, by decide⟩
  have held : tiers[0].Holds shop "shop" "shop/src/main/java/OrderController.java" :=
    ⟨[], "OrderController.java", some orderBytes, by decide, by decide, by decide,
      by decide +kernel⟩
  have survives : Survives shop shopFilter "shop/src/main/java/OrderController.java" :=
    ⟨by decide +kernel, orderBytes, by decide +kernel, by decide +kernel⟩
  have first : tiers[0].IsFirst shop "shop" := ⟨⟨_, held⟩, [], _, rfl, nofun⟩
  obtain ⟨notFound, noControllers, failed | failed | outcome⟩ :=
    Scan.exact_of tree "shop" shopFilter
  · exact absurd (notFound.1 failed) (by decide)
  · obtain ⟨-, empty | ⟨tier, first', lost⟩⟩ := noControllers.1 failed
    · exact absurd held (empty _ first.mem _)
    · exact absurd survives (lost _ (first.unique first' ▸ held))
  · obtain ⟨scan, tier, scanned, first', exact', label⟩ := outcome
    rw [← first.unique first'] at exact'
    refine ⟨tree, scan, scanned, exact', label, (exact'.controllers _).2 ⟨held, survives⟩, ?_, ?_⟩
    · intro member
      exact absurd ((exact'.controllers _).1 member).2.kept (by decide +kernel)
    · intro member
      obtain ⟨bytes, found, -⟩ := ((exact'.controllers _).1 member).2.marked
      have closed : shop.find? "shop/src/main/java/KeyController.java" = some (.file none) := by
        decide +kernel
      rw [closed] at found
      cases found

end ApiCollection
