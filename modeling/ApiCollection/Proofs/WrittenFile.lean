import ApiCollection.Project.Run
import ApiCollection.Proofs.TextPieces

/-!
# What a run writes

A run decides everything before it writes, so that a run that fails for any other reason than
writing has changed nothing. Writing makes the folders that are missing on the way and one file.
-/

namespace ApiCollection

namespace FileSystem

variable {fs before after : FileSystem} {place next other : Place} {piece : Path.Piece}
  {pieces : List Path.Piece}

theorem folder_of_target? (h : fs.target? place piece = some next) :
    fs.at? place = some .folder := by
  by_contra none
  rw [target?, if_pos (by simpa using none)] at h
  cases h

theorem target?_congr (first : before.at? place = some .folder)
    (second : after.at? place = some .folder) :
    after.target? place piece = before.target? place piece := by
  simp only [target?, first, second]

theorem enter?_eq_some_iff : fs.enter? place piece = some next ↔
    fs.target? place piece = some next ∧ (fs.at? next).isSome := by
  simp only [enter?, Option.bind_eq_bind, Option.bind_eq_some_iff, Option.ite_none_right_eq_some,
    Option.some.injEq]
  exact ⟨fun ⟨_, found, present, same⟩ => same ▸ ⟨found, present⟩,
    fun ⟨found, present⟩ => ⟨_, found, present, rfl⟩⟩

/-- All that was there is still there, and folders are folders still. -/
structure Grows (before after : FileSystem) : Prop where
  working : after.working = before.working
  folders : ∀ place, before.at? place = some .folder → after.at? place = some .folder
  present : ∀ place, (before.at? place).isSome → (after.at? place).isSome

theorem Grows.target? (grows : Grows before after) (h : before.target? place piece = some next) :
    after.target? place piece = some next := by
  have folder := folder_of_target? h
  rwa [target?_congr folder (grows.folders _ folder)]

theorem Grows.enter? (grows : Grows before after) (h : before.enter? place piece = some next) :
    after.enter? place piece = some next := by
  rw [enter?_eq_some_iff] at h ⊢
  exact ⟨grows.target? h.1, grows.present _ h.2⟩

/-- A path leads where it led. -/
theorem Grows.foldlM_enter? (grows : Grows before after)
    (h : pieces.foldlM before.enter? place = some next) :
    pieces.foldlM after.enter? place = some next := by
  induction pieces generalizing place with
  | nil => exact h
  | cons piece pieces ih =>
    rw [List.foldlM_cons, Option.bind_eq_bind, Option.bind_eq_some_iff] at h ⊢
    obtain ⟨step, entered, rest⟩ := h
    exact ⟨step, grows.enter? entered, ih rest⟩

private theorem Grows.start (grows : Grows before after) (pieces : List Path.Piece) :
    after.start pieces = before.start pieces := by
  unfold FileSystem.start
  split
  · rfl
  · exact grows.working

/-- Nothing has changed but for folders that were missing on the way along some pieces. -/
structure Made (before after : FileSystem) (place : Place) (pieces : List Path.Piece) : Prop where
  working : after.working = before.working
  entries : ∀ other, after.at? other = before.at? other ∨
    before.at? other = none ∧ after.at? other = some .folder ∧
      ∃ front rest, pieces = front ++ rest ∧ front.foldlM after.enter? place = some other

theorem Made.grows (made : Made before after place pieces) : Grows before after := by
  refine ⟨made.working, fun other folder => ?_, fun other present => ?_⟩
  · rcases made.entries other with same | ⟨missing, -⟩
    · rw [same, folder]
    · cases missing.symm.trans folder
  · rcases made.entries other with same | ⟨missing, -⟩
    · rwa [same]
    · rw [missing] at present
      cases present

private theorem Made.cons (made : Made before after next pieces)
    (entered : after.enter? place piece = some next) :
    Made before after place (piece :: pieces) := by
  refine ⟨made.working, fun other => ?_⟩
  rcases made.entries other with same | ⟨missing, folder, front, rest, split, leads⟩
  · exact .inl same
  · refine .inr ⟨missing, folder, piece :: front, rest, by rw [split]; rfl, ?_⟩
    rwa [List.foldlM_cons, entered]

theorem Made.refl (fs : FileSystem) (place : Place) (pieces : List Path.Piece) :
    Made fs fs place pieces := ⟨rfl, fun _ => .inl rfl⟩

theorem ne_nil_of_at? (missing : fs.at? next = none) : next ≠ [] := by
  rintro rfl
  cases missing

/-- A folder that was missing and has been put at the first step of the way. -/
theorem Made.of_put (missing : before.at? next = none)
    (made : Made (before.put next .folder) after place (piece :: pieces))
    (entered : after.enter? place piece = some next) :
    Made before after place (piece :: pieces) := by
  have put : (before.put next .folder).at? next = some .folder :=
    at?_put_self before (ne_nil_of_at? missing) _
  refine ⟨made.working, fun other => ?_⟩
  by_cases first : other = next
  · subst first
    refine .inr ⟨missing, made.grows.folders _ put, [piece], pieces, rfl, ?_⟩
    rw [List.foldlM_cons, entered]
    rfl
  · have same := made.entries other
    rwa [at?_put_of_ne before first] at same

private theorem Made.put (target : fs.target? place piece = some next)
    (missing : fs.at? next = none) :
    Made fs (fs.put next .folder) place [piece] := by
  have put : (fs.put next .folder).at? next = some .folder :=
    at?_put_self fs (ne_nil_of_at? missing) _
  have folder := folder_of_target? target
  have apart : place ≠ next := by
    rintro rfl
    cases missing.symm.trans folder
  refine ⟨rfl, fun other => ?_⟩
  by_cases first : other = next
  · subst first
    have entered : (fs.put other .folder).enter? place piece = some other := by
      refine enter?_eq_some_iff.2 ⟨?_, by rw [put]; rfl⟩
      rwa [target?_congr folder ((at?_put_of_ne fs apart _).trans folder)]
    refine .inr ⟨missing, put, [piece], [], rfl, ?_⟩
    rw [List.foldlM_cons, entered]
    rfl
  · exact .inl (at?_put_of_ne fs first _)

/-- Making folders makes those that are missing, and if it comes to an end, the pieces lead there. -/
theorem made_makeFolders (fs : FileSystem) (place : Place) (pieces : List Path.Piece) :
    Made fs (fs.makeFolders place pieces).1 place pieces ∧
      ∀ last, (fs.makeFolders place pieces).2 = some last →
        pieces.foldlM (fs.makeFolders place pieces).1.enter? place = some last := by
  induction pieces generalizing fs place with
  | nil => exact ⟨.refl _ _ _, fun _ h => h⟩
  | cons piece pieces ih =>
    cases target : fs.target? place piece with
    | none => simpa [makeFolders, makeFolder, target] using Made.refl fs place (piece :: pieces)
    | some next =>
      -- whatever is made behind this piece, its folder stays
      have step {made : FileSystem} (grows : Grows fs made) (there : (made.at? next).isSome) :
          (made.makeFolders next pieces).1.enter? place piece = some next :=
        (ih made next).1.grows.enter? (enter?_eq_some_iff.2 ⟨grows.target? target, there⟩)
      have leads {made : FileSystem}
          (entered : (made.makeFolders next pieces).1.enter? place piece = some next) :
          ∀ last, (made.makeFolders next pieces).2 = some last →
            (piece :: pieces).foldlM (made.makeFolders next pieces).1.enter? place = some last := by
        intro last h
        rw [List.foldlM_cons, entered]
        exact (ih made next).2 last h
      cases there : fs.at? next with
      | none =>
        have put : (fs.put next .folder).at? next = some .folder :=
          at?_put_self fs (ne_nil_of_at? there) _
        have entered := step (Made.put target there).grows (by rw [put]; rfl)
        simp only [makeFolders, makeFolder, target, there]
        exact ⟨((ih _ next).1.cons entered).of_put there entered, leads entered⟩
      | some entry =>
        cases entry with
        | folder =>
          have entered := step ⟨rfl, fun _ h => h, fun _ h => h⟩ (by rw [there]; rfl)
          simp only [makeFolders, makeFolder, target, there]
          exact ⟨(ih fs next).1.cons entered, leads entered⟩
        | file bytes =>
          simpa [makeFolders, makeFolder, target, there] using Made.refl fs place (piece :: pieces)

/-- Whether a folder lies on the way to what a path leads to. -/
def IsOnWay (fs : FileSystem) (path : String) (place : Place) : Prop :=
  ∃ front rest, rest ≠ [] ∧ Path.pieces path = front ++ rest ∧
    front.foldlM fs.enter? (fs.start (Path.pieces path)) = some place

/-- The text of one file has been written: the path leads to it, and besides it there are only new
folders on the way. -/
structure Written (before after : FileSystem) (path text : String) (place : Place) : Prop where
  located : after.locate? path = some place
  content : after.at? place = some (.file (some (Text.utf8Bytes text)))
  free : ∀ entry, before.at? place = some entry → entry ≠ .folder
  working : after.working = before.working
  others : ∀ other, other ≠ place → after.at? other = before.at? other ∨
    before.at? other = none ∧ after.at? other = some .folder ∧ after.IsOnWay path other

/-- Writing into a folder that is there succeeds at the place behind the path, or changes
nothing. -/
theorem writeFile_cases (fs : FileSystem) (path : String) (bytes : List UInt8) :
    fs.writeFile path bytes = (fs, some .io) ∨ ∃ front name folder place,
      Path.pieces path = front ++ [name] ∧ Path.isIdle name = false ∧
        front.foldlM fs.enter? (fs.start (Path.pieces path)) = some folder ∧
        fs.target? folder name = some place ∧ (∀ entry, fs.at? place = some entry → entry ≠ .folder) ∧
        fs.writeFile path bytes = (fs.put place (.file (some bytes)), none) := by
  have nonempty : Path.pieces path ≠ [] := Text.splitWhere_ne_nil _ _
  have named : (Path.pieces path).getLast?.getD [] = (Path.pieces path).getLast nonempty := by
    rw [List.getLast?_eq_some_getLast nonempty]
    rfl
  simp only [writeFile, named]
  split
  · exact .inl rfl
  · rename_i folder leads
    split
    · exact .inl rfl
    · rename_i plain
      split
      · exact .inl rfl
      · rename_i place target
        have parts := (List.dropLast_append_getLast nonempty).symm
        have idle : Path.isIdle ((Path.pieces path).getLast nonempty) = false := by
          simp only [Bool.or_eq_true, not_or, Bool.not_eq_true] at plain
          exact plain.1
        split
        · exact .inl rfl
        · exact .inl rfl
        · rename_i free _
          refine .inr ⟨_, _, folder, place, parts, idle, leads, target, ?_, rfl⟩
          rintro entry there rfl
          exact free there

private theorem dropIdleEnd_concat {front : List Path.Piece} (busy : Path.isIdle piece = false) :
    Path.dropIdleEnd (front ++ [piece]) = front ++ [piece] := by
  simp [Path.dropIdleEnd, busy]

private theorem grows_put_file (free : ∀ entry, fs.at? place = some entry → entry ≠ .folder)
    (nonempty : place ≠ []) (bytes : Option (List UInt8)) :
    Grows fs (fs.put place (.file bytes)) := by
  refine ⟨rfl, fun other folder => ?_, fun other present => ?_⟩
  · have apart : other ≠ place := fun same => free _ (same ▸ folder) rfl
    rwa [at?_put_of_ne fs apart]
  · by_cases same : other = place
    · rw [same, at?_put_self fs nonempty]
      rfl
    · rwa [at?_put_of_ne fs same]

private theorem isEmpty_of_busy {path : String} {front : List Path.Piece} {name : Path.Piece}
    (parts : Path.pieces path = front ++ [name]) (busy : Path.isIdle name = false) :
    path.isEmpty = false := by
  rw [Bool.eq_false_iff]
  intro empty
  rw [String.isEmpty_iff.1 empty] at parts
  cases front with
  | nil =>
    obtain rfl : [] = name := List.head_eq_of_cons_eq parts
    cases busy
  | cons first front => simp [Path.pieces, Text.splitAtChar, Text.splitWhere] at parts

/-- Behind folders that have been made, a file that is put is all else that changes. -/
theorem Made.written {middle : FileSystem} {path text : String} {front : List Path.Piece}
    {name : Path.Piece} {folder : Place} (parts : Path.pieces path = front ++ [name])
    (made : Made fs middle (fs.start (Path.pieces path)) front) (busy : Path.isIdle name = false)
    (leads : front.foldlM middle.enter? (middle.start (Path.pieces path)) = some folder)
    (target : middle.target? folder name = some place)
    (free : ∀ entry, middle.at? place = some entry → entry ≠ .folder) :
    Written fs (middle.put place (.file (some (Text.utf8Bytes text)))) path text place := by
  have nonempty : place ≠ [] := by
    rintro rfl
    exact free _ rfl rfl
  have grows := grows_put_file free nonempty (some (Text.utf8Bytes text))
  have content := at?_put_self middle nonempty (.file (some (Text.utf8Bytes text)))
  refine ⟨?_, content, ?_, made.working, ?_⟩
  · rw [locate?, if_neg (by simp [isEmpty_of_busy parts busy]), follow?, parts, List.foldlM_append, ← parts,
      grows.start, grows.foldlM_enter? leads]
    have entered := enter?_eq_some_iff.2 ⟨grows.target? target, by rw [content]; rfl⟩
    simp [entered]
  · intro entry there
    rcases made.entries place with same | ⟨missing, -⟩
    · exact free entry (same.trans there)
    · cases missing.symm.trans there
  · intro other apart
    rw [at?_put_of_ne middle apart]
    rcases made.entries other with same | ⟨missing, there, beginning, rest, split, way⟩
    · exact .inl same
    · refine .inr ⟨missing, there, beginning, rest ++ [name], by simp, ?_, ?_⟩
      · rw [parts, split, List.append_assoc]
      · rw [grows.start, made.grows.start]
        exact grows.foldlM_enter? way

/-- Writing fails for no other reason than that it cannot be done, or writes a file. -/
theorem write_cases (fs : FileSystem) (path text : String) :
    (fs.write path text).2 = some .io ∨
      (fs.write path text).2 = none ∧ ∃ place, Written fs (fs.write path text).1 path text place := by
  have file {middle : FileSystem} (made : ∀ front name, Path.pieces path = front ++ [name] →
      Path.isIdle name = false → Made fs middle (fs.start (Path.pieces path)) front) :
      (middle.writeFile path (Text.utf8Bytes text)).2 = some .io ∨
        (middle.writeFile path (Text.utf8Bytes text)).2 = none ∧
          ∃ place, Written fs (middle.writeFile path (Text.utf8Bytes text)).1 path text place := by
    rcases writeFile_cases middle path (Text.utf8Bytes text) with
      failed | ⟨front, name, folder, place, parts, busy, leads, target, free, done⟩
    · exact .inl (by rw [failed])
    · rw [done]
      exact .inr ⟨rfl, place, (made front name parts busy).written parts busy leads target free⟩
  simp only [write]
  split
  · exact file fun front _ _ _ => .refl _ _ front
  · have spec := made_makeFolders fs (fs.start (Path.dropIdleEnd (Path.pieces path)))
      (Path.dropIdleEnd (Path.pieces path)).dropLast
    split
    · rename_i middle last made
      rw [made] at spec
      refine file fun front name parts busy => ?_
      have kept := spec.1
      rw [parts, dropIdleEnd_concat busy, List.dropLast_concat] at kept
      rwa [parts]
    · exact .inl rfl

end FileSystem

namespace Settings

/-- The text that a run writes: the collection in JSON, or the document in the format that the
extension tells. -/
def Prints (s : Settings) (loaded : Loaded) (text : String) : Prop :=
  match s.output with
  | .collection => ∃ c, s.collection loaded.document loaded.cache = .ok c ∧ text = c.toJson.pretty
  | .document => text =
    if Path.extension? s.outputPath ∈ [some "yaml", some "yml"] then Yaml.print loaded.document
    else loaded.document.pretty

private theorem documentText_eq (path : String) (document : Json) : documentText path document =
    if Path.extension? path ∈ [some "yaml", some "yml"] then Yaml.print document
    else document.pretty := by
  unfold documentText OpenApi.TextFormat.ofExtension
  split <;> simp_all [OpenApi.TextFormat.print]

/-- A conversion that fails says why. -/
theorem convert_error {document : Json} {options : Conversion.Options} {failure : Failure}
    (h : Conversion.convert document options = .error failure) :
    ∃ reason, failure = .conversion reason := by
  unfold Conversion.convert at h
  split at h
  · exact ⟨_, (Except.error.inj h).symm⟩
  · dsimp only at h
    split at h
    · exact ⟨_, (Except.error.inj h).symm⟩
    · cases h

private theorem exists_of_bind_eq_ok {α β : Type} {x : Except Failure α} {f : α → Except Failure β}
    {b : β}
    (h : x >>= f = .ok b) : ∃ a, x = .ok a ∧ f a = .ok b := by
  cases x with
  | error failure => cases h
  | ok a => exact ⟨a, rfl, h⟩

private theorem eq_error_or_of_bind_eq_error {α β : Type} {x : Except Failure α}
    {f : α → Except Failure β} {failure : Failure} (h : x >>= f = .error failure) :
    x = .error failure ∨ ∃ a, x = .ok a ∧ f a = .error failure := by
  cases x with
  | error other => exact .inl (congrArg _ (Except.error.inj h))
  | ok a => exact .inr ⟨a, rfl, h⟩

/-- A search for controllers fails for two reasons. -/
theorem scan_error {fs : FileSystem} {root : String} {filter : Pattern.Filter} {failure : Failure}
    (h : Scan.of fs root filter = .error failure) :
    failure = .projectNotFound root ∨ failure = .noControllers root := by
  unfold Scan.of at h
  split at h
  · exact .inl (Except.error.inj h).symm
  · split at h
    · exact .inr (Except.error.inj h).symm
    · dsimp only at h
      split at h
      · exact .inr (Except.error.inj h).symm
      · cases h

/-- What is generated is the text of a document that is loaded. -/
theorem prints_of_generate {s : Settings} {fs : FileSystem} {d : Description} {report : Report}
    {text : String} (h : s.generate fs d = .ok (report, text)) :
    ∃ loaded, s.load fs d = .ok loaded ∧ s.Prints loaded text := by
  obtain ⟨loaded, load, h⟩ := exists_of_bind_eq_ok h
  obtain ⟨⟨artifact, requests⟩, made, h⟩ := exists_of_bind_eq_ok h
  obtain rfl : artifact = text := (Prod.mk.inj (Except.ok.inj h)).2
  refine ⟨loaded, load, ?_⟩
  unfold Settings.artifact at made
  unfold Prints
  cases output : s.output with
  | document =>
    rw [output] at made
    rw [← documentText_eq]
    exact (Prod.mk.inj (Except.ok.inj made)).1.symm
  | collection =>
    rw [output] at made
    obtain ⟨c, converted, made⟩ := exists_of_bind_eq_ok made
    exact ⟨c, converted, (Prod.mk.inj (Except.ok.inj made)).1.symm⟩

/-- A file that cannot be read is never why nothing is generated. -/
theorem code_of_generate_error {s : Settings} {fs : FileSystem} {d : Description}
    {failure : Failure} (h : s.generate fs d = .error failure) : failure.code ≠ "PARSE_ERROR" := by
  rcases eq_error_or_of_bind_eq_error h with load | ⟨loaded, -, h⟩
  · cases d with
    | sources root =>
      rcases eq_error_or_of_bind_eq_error load with scanned | ⟨x, -, h⟩
      · rcases eq_error_or_of_bind_eq_error scanned with scanned | ⟨scan, -, h⟩
        · rcases scan_error scanned with rfl | rfl <;> simp [Failure.code]
        · cases h
      · cases h
    | remote url document => cases load
    | localFile path document => cases load
  · rcases eq_error_or_of_bind_eq_error h with made | ⟨_, -, h⟩
    · unfold Settings.artifact at made
      cases output : s.output with
      | document =>
        rw [output] at made
        cases made
      | collection =>
        rw [output] at made
        rcases eq_error_or_of_bind_eq_error made with converted | ⟨_, -, h⟩
        · rcases eq_error_or_of_bind_eq_error converted with converted | ⟨_, -, h⟩
          · obtain ⟨reason, rfl⟩ := convert_error converted
            simp [Failure.code]
          · cases h
        · cases h
    · cases h

/-- What a run leaves behind. Without a description, and when it fails before it writes, that is
what was there; when it succeeds, one file is written with the text of what it has loaded. -/
def Leaves (s : Settings) (network : Network) (before after : FileSystem) :
    Except Failure (Option Report) → Prop
  | .ok none => after = before
  | .error failure =>
    failure.code ≠ "PARSE_ERROR" ∧ (failure.code ≠ "IO_ERROR" → after = before)
  | .ok (some _) => ∃ d loaded text place, Description.find? network before s.source = some d ∧
    s.load before d = .ok loaded ∧ s.Prints loaded text ∧
      before.Written after s.outputPath text place

private theorem leaves_runWith {s : Settings} {network : Network} {fs : FileSystem}
    {d : Description}
    (found : Description.find? network fs s.source = some d) :
    s.Leaves network fs (s.runWith fs d).1 ((s.runWith fs d).2.map some) := by
  cases generated : s.generate fs d with
  | error failure =>
    have failed : s.runWith fs d = (fs, .error failure) := by rw [runWith, generated]
    rw [failed]
    exact ⟨code_of_generate_error generated, fun _ => rfl⟩
  | ok made =>
    obtain ⟨report, text⟩ := made
    obtain ⟨loaded, load, prints⟩ := prints_of_generate generated
    cases wrote : fs.write s.outputPath text with
    | mk after outcome =>
      have spec := fs.write_cases s.outputPath text
      rw [wrote] at spec
      rcases spec with rfl | ⟨rfl, place, written⟩
      · have failed : s.runWith fs d = (after, .error .io) := by rw [runWith, generated]; simp [wrote]
        rw [failed]
        exact ⟨by decide, fun other => absurd rfl other⟩
      · have done : s.runWith fs d = (after, .ok report) := by rw [runWith, generated]; simp [wrote]
        rw [done]
        exact ⟨d, loaded, text, place, found, load, prints, written⟩

/-- A run that fails leaves the file system as it was, unless it is the writing that fails; a run
that succeeds changes one file, besides folders that were missing on the way to it. -/
theorem leaves_run (s : Settings) (network : Network) (fs : FileSystem) :
    s.Leaves network fs (s.run network fs).1 (s.run network fs).2 := by
  unfold run
  cases found : Description.find? network fs s.source with
  | none => rfl
  | some d => exact leaves_runWith found

end Settings
end ApiCollection
