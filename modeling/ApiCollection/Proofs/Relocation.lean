import ApiCollection.Proofs.FileTree
import ApiCollection.Proofs.ModelPlaces
import ApiCollection.Proofs.Scheduling

/-!
# Projects that lie elsewhere

A project is a folder with a path that leads to it. Two projects that hold the same tree come to the
same interface, wherever they lie and however their paths are written, with warnings about the same
files.
-/

namespace ApiCollection

open ApiCollection.Path (IsName joinNames namesBefore)

/-- What the extraction of a project may come to on some schedule of its workers. -/
inductive ProjectExtraction.Outcome (fs : FileSystem) (s : Settings) (root : String) :
    Except Failure ProjectExtraction → Prop
  | failed {failure : Failure} (scanned : Scan.of fs root s.filter = .error failure) :
      Outcome fs s root (.error failure)
  | extracted {scan : Scan} {pool : Pool String (Except Failure Extraction)}
      (scanned : Scan.of fs root s.filter = .ok scan)
      (run : Pool.Run (extractFile fs s (Dto.Cache.ofProject fs root) root)
        (.start scan.controllers (s.workerCount scan.controllers.length)) pool)
      (finished : pool.isFinished = true) :
      Outcome fs s root (.ok (.ofPool s.baseUrl (Dto.Cache.ofProject fs root)
        scan.controllers.length pool))

/-- A folder of a tree of files, with a path that leads to it. -/
structure Project where
  fs : FileSystem
  tree : fs.IsTree
  root : String
  place : Place
  located : fs.locate? root = some place
  folder : fs.at? place = some .folder

namespace Project

variable {p q : Project} {names sub : List String} {files files' : List String}

def at? (p : Project) (names : List String) : Option Entry := p.fs.at? (p.place ++ names)

def path (p : Project) (names : List String) : String := joinNames p.root names

/-- Two projects that hold the same tree. -/
def Same (p q : Project) : Prop := ∀ names, p.at? names = q.at? names

def IsFile (p : Project) (names : List String) : Prop :=
  ∃ bytes, p.at? names = some (.file bytes)

theorem root_ne_empty (p : Project) : p.root ≠ "" := FileSystem.ne_empty_of_locate? p.located

theorem isFolder_root (p : Project) : p.fs.isFolder p.root = true := by
  rw [FileSystem.isFolder, FileSystem.find?, p.located, Option.bind_some, p.folder]
  rfl

private theorem IsFile.ne_nil (h : p.IsFile names) : names ≠ [] := by
  rintro rfl
  obtain ⟨bytes, found⟩ := h
  rw [at?, List.append_nil, p.folder] at found
  cases found

theorem IsFile.named (h : p.IsFile names) : ∀ n ∈ names, IsName n := by
  obtain ⟨bytes, found⟩ := h
  intro n hn
  have nonempty : p.place ++ names ≠ [] :=
    List.append_ne_nil_of_right_ne_nil _ (List.ne_nil_of_mem hn)
  have member := (p.tree.at?_eq_some_iff nonempty).1 found
  exact p.tree.named _ member n (List.mem_append_right _ hn)

theorem find?_path (p : Project) (named : ∀ n ∈ names, IsName n) :
    p.fs.find? (p.path names) = p.at? names :=
  FileSystem.find?_joinNames p.tree p.located p.folder named

private theorem isBefore_path (h : p.IsFile names) (h' : p.IsFile sub) :
    Path.isBefore (p.path names) (p.path sub) = namesBefore names sub :=
  Path.isBefore_joinNames p.root_ne_empty h.named h'.named

theorem relativeTo_path (h : p.IsFile names) (q : Project) :
    Path.relativeTo p.root (p.path names) = Path.relativeTo q.root (q.path names) := by
  rw [path, path, Path.relativeTo_joinNames p.root_ne_empty h.named h.ne_nil,
    Path.relativeTo_joinNames q.root_ne_empty h.named h.ne_nil]

/-- Files of two projects that stand under the same names, in the order of names. -/
def Mirrored (p q : Project) (files files' : List String) : Prop :=
  ∃ found : List (List String), (∀ names ∈ found, p.IsFile names ∧ q.IsFile names) ∧
    found.Pairwise (fun a b => namesBefore a b = true) ∧
    files = found.map p.path ∧ files' = found.map q.path

namespace Mirrored

variable (mirrored : Mirrored p q files files')
include mirrored

theorem filter {f g : String → Bool} (agree : ∀ names, p.IsFile names → q.IsFile names →
    f (p.path names) = g (q.path names)) :
    Mirrored p q (files.filter f) (files'.filter g) := by
  obtain ⟨found, inside, ordered, rfl, rfl⟩ := mirrored
  refine ⟨found.filter (f ∘ p.path), ?_, ordered.filter _, List.filter_map, ?_⟩
  · exact fun names hn => inside names (List.mem_of_mem_filter hn)
  · rw [List.filter_map]
    exact congrArg _ (List.filter_congr fun names hn =>
      (agree names (inside names hn).1 (inside names hn).2).symm)

theorem filterMap_eq {β : Type} {f g : String → Option β} (agree : ∀ names, p.IsFile names →
    q.IsFile names → f (p.path names) = g (q.path names)) :
    files.filterMap f = files'.filterMap g := by
  obtain ⟨found, inside, -, rfl, rfl⟩ := mirrored
  rw [List.filterMap_map, List.filterMap_map]
  exact List.filterMap_congr fun names hn => agree names (inside names hn).1 (inside names hn).2

theorem length_eq : files.length = files'.length := by
  obtain ⟨found, -, -, rfl, rfl⟩ := mirrored
  rw [List.length_map, List.length_map]

theorem isEmpty_eq : files.isEmpty = files'.isEmpty := by
  rw [Bool.eq_iff_iff, List.isEmpty_iff_length_eq_zero, List.isEmpty_iff_length_eq_zero,
    length_eq mirrored]

theorem ordered : files.Pairwise fun a b => Path.isBefore a b = true := by
  obtain ⟨found, inside, ordered, rfl, -⟩ := mirrored
  refine List.pairwise_map.2 (ordered.imp_of_mem fun {a b} ha hb before => ?_)
  rwa [isBefore_path (inside a ha).1 (inside b hb).1]

private theorem symm : Mirrored q p files' files := by
  obtain ⟨found, inside, ordered, here, there⟩ := mirrored
  exact ⟨found, fun names hn => (inside names hn).symm, ordered, there, here⟩

/-- Seen from their projects, mirrored files are the same. -/
theorem map_relativeTo :
    files.map (Path.relativeTo p.root) = files'.map (Path.relativeTo q.root) := by
  obtain ⟨found, inside, -, rfl, rfl⟩ := mirrored
  rw [List.map_map, List.map_map]
  exact List.map_congr_left fun names hn => relativeTo_path (inside names hn).1 q

end Mirrored

/-- The files below a folder of a project, by their names from that folder on. -/
def below (p : Project) (sub : List String) (through : String → Bool) : List (List String) :=
  if (p.at? sub).isSome then p.fs.filesBelow (p.place ++ sub) through else []

theorem walk_path (p : Project) (named : ∀ n ∈ sub, IsName n) (through : String → Bool) :
    p.fs.walk (p.path sub) through =
      (p.below sub through).map fun names => (names, p.path (sub ++ names)) := by
  have located : p.fs.locate? (p.path sub) = _ :=
    FileSystem.locate?_joinNames p.tree p.located p.folder named
  have joined (names : List String) : joinNames (p.path sub) names = p.path (sub ++ names) :=
    List.foldl_append.symm
  rw [FileSystem.walk, located, below, at?]
  split
  · rename_i missing
    rw [if_neg fun found => by simp [found] at missing]
    rfl
  · rename_i there found
    split at found
    · rename_i present
      obtain rfl := Option.some.inj found
      simp only [if_pos present, joined]
    · cases found

private theorem below_eq (same : p.Same q) (sub : List String) (through : String → Bool) :
    p.below sub through = q.below sub through := by
  rw [below, below, same sub]
  split
  · refine FileSystem.filesBelow_eq p.tree q.tree (fun names => ?_) through
    rw [List.append_assoc, List.append_assoc]
    exact same (sub ++ names)
  · rfl

/-- The files that are found below a folder by their names are mirrored by any project that holds
the same tree. -/
theorem mirrored_walk (same : p.Same q) (named : ∀ n ∈ sub, IsName n) (through : String → Bool)
    (keep : List String → Bool) :
    Mirrored p q (((p.fs.walk (p.path sub) through).filter fun e => keep e.1).map Prod.snd)
      (((q.fs.walk (q.path sub) through).filter fun e => keep e.1).map Prod.snd) := by
  have found (r : Project) :
      ((r.fs.walk (r.path sub) through).filter fun e => keep e.1).map Prod.snd =
        (((r.below sub through).filter keep).map (sub ++ ·)).map r.path := by
    rw [walk_path r named, List.filter_map, List.map_map, List.map_map]
    rfl
  rw [found p, found q, ← below_eq same]
  refine ⟨_, ?_, ?_, rfl, rfl⟩
  · intro names hn
    obtain ⟨rest, hr, rfl⟩ := List.mem_map.1 hn
    have inside := List.mem_of_mem_filter hr
    rw [below] at inside
    split at inside
    · obtain ⟨-, ⟨bytes, file⟩, -⟩ := (FileSystem.mem_filesBelow p.tree).1 inside
      rw [List.append_assoc] at file
      exact ⟨⟨bytes, file⟩, bytes, (same _).symm.trans file⟩
    · cases inside
  · refine List.pairwise_map.2 (List.Pairwise.filter _ ?_)
    rw [below]
    split
    · refine (FileSystem.pairwise_filesBelow p.tree _ through).imp fun before => ?_
      rw [Path.namesBefore_eq] at before ⊢
      rwa [List.map_append, List.map_append, Path.partsBefore_append]
    · exact .nil

/-- Folders that extraction looks for are joined from names. -/
theorem join_eq_path (p : Project) {folder first : String} {rest : List String}
    (spelled : folder = joinNames first rest) (named : first ≠ "") :
    Path.join p.root folder = p.path (first :: rest) := by
  rw [spelled, ← Path.joinNames_join p.root_ne_empty named]
  rfl

/-- The folder of a tier is joined from names. -/
theorem exists_names_folder {tier : Tier} (known : tier ∈ tiers) :
    ∃ first rest, tier.folder = joinNames first rest ∧ ∀ n ∈ first :: rest, IsName n := by
  simp only [tiers, List.mem_cons, List.not_mem_nil, or_false] at known
  obtain rfl | rfl | rfl := known
  · exact ⟨"src", ["main", "java"], by decide, by decide⟩
  · exact ⟨"src", ["main", "java"], by decide, by decide⟩
  · exact ⟨"src", [], by decide, by decide⟩

theorem mirrored_files (same : p.Same q) {tier : Tier} (known : tier ∈ tiers) :
    Mirrored p q (tier.files p.fs p.root) (tier.files q.fs q.root) := by
  obtain ⟨first, rest, spelled, named⟩ := exists_names_folder known
  have nonempty := (named first List.mem_cons_self).ne_empty
  rw [Tier.files, Tier.files, join_eq_path p spelled nonempty, join_eq_path q spelled nonempty]
  exact mirrored_walk same named _ fun names =>
    Text.endsWith tier.ending.toList (names.getLast?.getD "").toList

private theorem readLossy_path (same : p.Same q) (hp : p.IsFile names) :
    p.fs.readLossy (p.path names) = q.fs.readLossy (q.path names) := by
  rw [FileSystem.readLossy, FileSystem.readLossy, FileSystem.bytes?, FileSystem.bytes?,
    find?_path p hp.named, find?_path q hp.named, same]

private theorem marksController_path (same : p.Same q) (hp : p.IsFile names) :
    Scan.marksController p.fs (p.path names) = Scan.marksController q.fs (q.path names) := by
  rw [Scan.marksController, Scan.marksController, readLossy_path same hp]

/-- The first tier with a file is the same one in both projects. -/
theorem discover_agree (same : p.Same q) :
    Scan.discover p.fs p.root = none ∧ Scan.discover q.fs q.root = none ∨
      ∃ label files files', Scan.discover p.fs p.root = some (label, files) ∧
        Scan.discover q.fs q.root = some (label, files') ∧ Mirrored p q files files' := by
  unfold Scan.discover
  have known : ∀ tier ∈ tiers, Mirrored p q (tier.files p.fs p.root) (tier.files q.fs q.root) :=
    fun _ => mirrored_files same
  revert known
  induction tiers with
  | nil => exact fun _ => .inl ⟨rfl, rfl⟩
  | cons tier rest ih =>
    intro known
    rw [List.forall_mem_cons] at known
    have empty := known.1.isEmpty_eq
    cases none : (tier.files p.fs p.root).isEmpty with
    | true =>
      rw [none] at empty
      simpa only [List.findSome?_cons, none, ← empty, if_true] using ih known.2
    | false =>
      rw [none] at empty
      refine .inr ⟨tier.label, _, _, ?_, ?_, known.1⟩
      · simp only [List.findSome?_cons, none, Bool.false_eq_true, if_false]
      · simp only [List.findSome?_cons, ← empty, Bool.false_eq_true, if_false]

/-- Two scans that find mirrored controllers, or none. -/
inductive ScanAgree (p q : Project) : Except Failure Scan → Except Failure Scan → Prop
  | noControllers : ScanAgree p q (.error (.noControllers p.root)) (.error (.noControllers q.root))
  | found {scan scan' : Scan} (mirrored : Mirrored p q scan.controllers scan'.controllers) :
      ScanAgree p q (.ok scan) (.ok scan')

theorem scan_agree (same : p.Same q) :
    ScanAgree p q (Scan.of p.fs p.root {}) (Scan.of q.fs q.root {}) := by
  have all (files : List String) : Pattern.Filter.apply {} id files = files := rfl
  simp only [Scan.of, isFolder_root, Bool.not_true, Bool.false_eq_true, if_false, all]
  rcases discover_agree same with ⟨none, none'⟩ | ⟨label, files, files', some, some', mirrored⟩
  · rw [none, none']
    exact .noControllers
  · have kept := mirrored.filter fun _ hp _ => marksController_path same hp
    simp only [some, some', kept.isEmpty_eq]
    split
    · exact .noControllers
    · exact .found kept

theorem read_path (same : p.Same q) (hp : p.IsFile names) :
    (p.fs.read (p.path names)).toOption = (q.fs.read (q.path names)).toOption := by
  simp only [FileSystem.read, FileSystem.bytes?, find?_path p hp.named, find?_path q hp.named,
    same names]
  split
  · rfl
  · split <;> rfl

private theorem declaration_ofFile? (same : p.Same q) (hp : p.IsFile names) :
    (Dto.ofFile? p.fs (p.path names)).map Dto.declaration =
      (Dto.ofFile? q.fs (q.path names)).map Dto.declaration := by
  have read := read_path same hp
  unfold Dto.ofFile?
  cases here : p.fs.read (p.path names) <;> cases there : q.fs.read (q.path names) <;>
    simp only [here, there, Except.toOption, reduceCtorEq, Option.some.injEq] at read
  · rfl
  · rw [read]
    exact Dto.declaration_ofSource? _ _ _

private theorem mirrored_candidates (same : p.Same q) :
    Mirrored p q (Dto.candidates p.fs p.root) (Dto.candidates q.fs q.root) := by
  have spelled : Dto.sourceFolder = joinNames "src" ["main", "java"] := by decide
  have named : ∀ n ∈ ["src", "main", "java"], IsName n := by decide
  rw [Dto.candidates, Dto.candidates, join_eq_path p spelled (by decide),
    join_eq_path q spelled (by decide)]
  exact mirrored_walk same named _ Dto.isCandidate

private theorem cache_alike (same : p.Same q) :
    (Dto.Cache.ofProject p.fs p.root).Alike (.ofProject q.fs q.root) := by
  rw [Dto.Cache.ofProject, Dto.Cache.ofProject, if_pos p.isFolder_root, if_pos q.isFolder_root]
  refine Dto.alike_ofList ?_
  rw [List.map_filterMap, List.map_filterMap]
  exact (mirrored_candidates same).filterMap_eq fun _ hp _ => declaration_ofFile? same hp

/-- Settings that leave no file out, draw the same examples and name the same server. -/
structure SameSettings (s t : Settings) : Prop where
  unfiltered : s.filter = {}
  unfiltered' : t.filter = {}
  seed : s.seed = t.seed
  listSize : s.listSize = t.listSize
  baseUrl : s.baseUrl = t.baseUrl

variable {s t : Settings}

private theorem fileSeed_path (hp : p.IsFile names) (q : Project) (seed : UInt64) :
    fileSeed seed (p.path names) p.root = fileSeed seed (q.path names) q.root := by
  rw [fileSeed, fileSeed, relativeTo_path hp q]

theorem extractFile_path (same : p.Same q) (settings : SameSettings s t) (hp : p.IsFile names) :
    (extractFile p.fs s (Dto.Cache.ofProject p.fs p.root) p.root (p.path names)).toOption =
      (extractFile q.fs t (Dto.Cache.ofProject q.fs q.root) q.root (q.path names)).toOption := by
  have read := read_path same hp
  unfold extractFile SourceUnit.ofFile
  cases here : p.fs.read (p.path names) <;> cases there : q.fs.read (q.path names) <;>
    simp only [here, there, Except.toOption, reduceCtorEq, Option.some.injEq] at read
  · rfl
  · rw [read, settings.seed, settings.listSize, fileSeed_path hp q]
    exact congrArg some ((cache_alike same).extract_eq _ _ _)

private theorem isOk_extractFile_path (same : p.Same q) (settings : SameSettings s t)
    (hp : p.IsFile names) :
    (!(extractFile p.fs s (Dto.Cache.ofProject p.fs p.root) p.root (p.path names)).isOk) =
      !(extractFile q.fs t (Dto.Cache.ofProject q.fs q.root) q.root (q.path names)).isOk := by
  have known (r : Except Failure Extraction) : r.isOk = r.toOption.isSome := by cases r <;> rfl
  rw [known, known, extractFile_path same settings hp]

end Project

section Ordered

variable {task : String → Except Failure Extraction} {files : List String}

theorem apart_of_isBefore {a b : String} (h : Path.isBefore a b = true) : Apart a b := by
  intro same
  rw [Path.isBefore, same, Path.partsBefore_irrefl] at h
  cases h

variable (ordered : files.Pairwise fun a b => Path.isBefore a b = true)
include ordered

theorem holds_inOrder :
    Harvest.Holds (Harvest.of (Pool.inOrder task files)) (Pool.inOrder task files) :=
  Harvest.holds_of (apart_inOrder (ordered.imp apart_of_isBefore))

/-- Extractions that arrive in the order of their paths stay in this order. -/
theorem extracted_of_ordered : (Harvest.of (Pool.inOrder task files)).extracted =
    (Pool.inOrder task files).filterMap Harvest.extraction? := by
  have held : Harvest.Holds _ (Pool.inOrder task files) := holds_inOrder ordered
  refine held.extracted.eq_of_pairwise ?_ held.ordered ?_
  · intro a b _ _ before after
    rw [Path.isBefore_asymm before] at after
    cases after
  · refine List.pairwise_filterMap.2 (List.pairwise_map.2 (ordered.imp ?_))
    intro a b before e he f hf
    rw [Harvest.extraction?_fst he, Harvest.extraction?_fst hf]
    exact before

private theorem map_snd_extracted : (Harvest.of (Pool.inOrder task files)).extracted.map Prod.snd =
    files.filterMap fun file => (task file).toOption := by
  rw [extracted_of_ordered ordered, List.map_filterMap, Pool.inOrder, List.filterMap_map]
  refine List.filterMap_congr fun file _ => ?_
  dsimp only [Function.comp_apply]
  cases task file <;> rfl

/-- So do warnings. -/
theorem map_path_warnings :
    (FileWarning.sort (Harvest.of (Pool.inOrder task files)).warnings).map (·.path) =
      files.filter fun file => !(task file).isOk := by
  have held : Harvest.Holds _ (Pool.inOrder task files) := holds_inOrder ordered
  have sorted : FileWarning.sort (Harvest.of (Pool.inOrder task files)).warnings =
      (Pool.inOrder task files).filterMap Harvest.warning? := by
    rw [held.warnings]
    refine List.mergeSort_of_pairwise (List.pairwise_filterMap.2 (List.pairwise_map.2 ?_))
    refine ordered.imp fun before v hv w hw => ?_
    rw [Harvest.warning?_path hv, Harvest.warning?_path hw, Path.isBefore_asymm before]
    rfl
  rw [sorted, skipped_inOrder]

end Ordered

/-- When the controllers are in the order of their paths, every schedule comes to the outcome of one
worker that takes them in this order. -/
theorem ProjectExtraction.outcome_iff {fs : FileSystem} {s : Settings} {root : String}
    (ordered : ∀ scan, Scan.of fs root s.filter = .ok scan →
      scan.controllers.Pairwise fun a b => Path.isBefore a b = true)
    {outcome : Except Failure ProjectExtraction} :
    Outcome fs s root outcome ↔ outcome = ProjectExtraction.of fs s root := by
  constructor
  · rintro (failed | ⟨scanned, run, finished⟩)
    · simp only [ProjectExtraction.of, failed]
      rfl
    · have apart := (ordered _ scanned).imp apart_of_isBefore
      exact (ProjectExtraction.of_eq_ofPool scanned apart run finished).symm
  · rintro rfl
    cases scanned : Scan.of fs root s.filter with
    | error failure =>
      have failed : ProjectExtraction.of fs s root = .error failure := by
        simp only [ProjectExtraction.of, scanned]
        rfl
      rw [failed]
      exact .failed scanned
    | ok scan =>
      have apart := (ordered _ scanned).imp apart_of_isBefore
      obtain ⟨pool, run, finished⟩ := Pool.exists_run_finished
        (extractFile fs s (Dto.Cache.ofProject fs root) root) scan.controllers
        (s.workerCount_pos scan.controllers.length)
      rw [ProjectExtraction.of_eq_ofPool scanned apart run finished]
      exact .extracted scanned run finished

namespace Project

variable {p q : Project} {s t : Settings}

/-- Two extractions that differ only in where their projects lie. -/
inductive Agree (p q : Project) :
    Except Failure ProjectExtraction → Except Failure ProjectExtraction → Prop
  | noControllers : Agree p q (.error (.noControllers p.root)) (.error (.noControllers q.root))
  | extracted {x y : ProjectExtraction} (api : x.api = y.api)
      (controllers : x.controllers = y.controllers)
      (warnings : x.warnings.map (fun w => Path.relativeTo p.root w.path) =
        y.warnings.map fun w => Path.relativeTo q.root w.path) :
      Agree p q (.ok x) (.ok y)

private theorem ordered_scan (p : Project) (unfiltered : s.filter = {}) (scan : Scan)
    (scanned : Scan.of p.fs p.root s.filter = .ok scan) :
    scan.controllers.Pairwise fun a b => Path.isBefore a b = true := by
  have agree := scan_agree (p := p) (q := p) fun _ => rfl
  rw [unfiltered] at scanned
  rw [scanned] at agree
  cases agree with
  | found mirrored => exact mirrored.ordered

private theorem agree_of (same : p.Same q) (settings : SameSettings s t) :
    Agree p q (ProjectExtraction.of p.fs s p.root) (ProjectExtraction.of q.fs t q.root) := by
  have scans := scan_agree same
  unfold ProjectExtraction.of
  rw [settings.unfiltered, settings.unfiltered']
  generalize Scan.of p.fs p.root {} = scan, Scan.of q.fs q.root {} = scan' at scans
  cases scans with
  | noControllers => exact .noControllers
  | found mirrored =>
    let task := extractFile p.fs s (Dto.Cache.ofProject p.fs p.root) p.root
    let task' := extractFile q.fs t (Dto.Cache.ofProject q.fs q.root) q.root
    have ordered := mirrored.ordered
    have ordered' := mirrored.symm.ordered
    refine .extracted ?_ mirrored.length_eq ?_
    · have extracted := mirrored.filterMap_eq (f := fun file => (task file).toOption)
        (g := fun file => (task' file).toOption) fun _ hp _ => extractFile_path same settings hp
      rw [← map_snd_extracted ordered, ← map_snd_extracted ordered'] at extracted
      simp only [ProjectExtraction.ofResults, ProjectExtraction.gather, settings.baseUrl]
      rw [extracted]
    · have skipped := (mirrored.filter (f := fun file => !(task file).isOk)
        (g := fun file => !(task' file).isOk)
        fun _ hp _ => isOk_extractFile_path same settings hp).map_relativeTo
      rw [← map_path_warnings ordered, ← map_path_warnings ordered', List.map_map,
        List.map_map] at skipped
      simp only [ProjectExtraction.ofResults, List.map_nil, List.append_nil]
      exact skipped

/-- Every schedule comes to one outcome in each of two projects with the same tree, and these
outcomes agree. -/
theorem outcomes_agree (same : p.Same q) (settings : SameSettings s t) :
    ∃ here there, (∀ outcome, ProjectExtraction.Outcome p.fs s p.root outcome ↔ outcome = here) ∧
      (∀ outcome, ProjectExtraction.Outcome q.fs t q.root outcome ↔ outcome = there) ∧
      Agree p q here there :=
  ⟨ProjectExtraction.of p.fs s p.root, ProjectExtraction.of q.fs t q.root,
    fun _ => ProjectExtraction.outcome_iff (p.ordered_scan settings.unfiltered),
    fun _ => ProjectExtraction.outcome_iff (q.ordered_scan settings.unfiltered'),
    agree_of same settings⟩

/-- The text of a controller, which lies in both of the following projects. -/
def pingFile : Entry :=
  .file (some (Text.utf8Bytes "@RestController class Ping \x7b @GetMapping String ping(); \x7d"))

def atRoot : Project where
  fs := {
    entries := [(["app"], .folder), (["app", "src"], .folder),
      (["app", "src", "Ping.java"], pingFile)] }
  tree := ⟨by decide, by decide, by decide⟩
  root := "/app/"
  place := ["app"]
  located := by decide
  folder := by decide

/-- The same project in a folder that searches pass over, by a path from the working directory. -/
def atWork : Project where
  fs := {
    entries := [(["home"], .folder), (["home", ".target"], .folder),
      (["home", ".target", "src"], .folder), (["home", ".target", "src", "Ping.java"], pingFile)]
    working := ["home"] }
  tree := ⟨by decide, by decide, by decide⟩
  root := "./.target"
  place := ["home", ".target"]
  located := by decide
  folder := by decide

theorem outcomes_agree_of_hidden : atRoot.Same atWork ∧
    SameSettings { source := .path "/app/", concurrency := 1 } { source := .path "./.target" } ∧
    ∃ here there,
      (∀ outcome, ProjectExtraction.Outcome atRoot.fs { source := .path "/app/", concurrency := 1 }
        atRoot.root outcome ↔ outcome = here) ∧
      (∀ outcome, ProjectExtraction.Outcome atWork.fs { source := .path "./.target" }
        atWork.root outcome ↔ outcome = there) ∧ Agree atRoot atWork here there := by
  have same : atRoot.Same atWork := by
    intro names
    cases names with
    | nil => decide
    | cons n rest =>
      simp [at?, FileSystem.at?, atRoot, atWork, List.lookup_cons]
  have settings : SameSettings { source := .path "/app/", concurrency := 1 }
      { source := .path "./.target" } := ⟨rfl, rfl, rfl, rfl, rfl⟩
  exact ⟨same, settings, outcomes_agree same settings⟩

end Project

end ApiCollection
