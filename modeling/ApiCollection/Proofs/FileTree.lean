import ApiCollection.Files.FileSystem
import ApiCollection.Proofs.JoinedPaths
import Mathlib.Data.List.Nodup

/-!
# Trees of files

In a tree of files a path that joins names to a folder leads to the entry that these names lead to,
and nowhere if there is none. The files below a folder are therefore told by the entries below it,
wherever the folder lies.
-/

namespace ApiCollection.FileSystem

open ApiCollection.Path (IsName joinNames trunk namesBefore)

variable {fs other : FileSystem} {root name : String} {place place' : Place} {names : List String}
  {entry : Entry} {through : String → Bool}

/-- A tree: every entry has a place of its own, names that a path can spell, and a folder that it
lies in. -/
structure IsTree (fs : FileSystem) : Prop where
  nodup : (fs.entries.map Prod.fst).Nodup
  named : ∀ e ∈ fs.entries, ∀ n ∈ e.1, IsName n
  held : ∀ e ∈ fs.entries, e.1 ≠ [] ∧ fs.at? e.1.dropLast = some .folder

theorem IsTree.at?_eq_some_iff (tree : fs.IsTree) (h : place ≠ []) :
    fs.at? place = some entry ↔ (place, entry) ∈ fs.entries := by
  rw [at?, if_neg (by simpa using h), List.lookup_eq_some_iff]
  constructor
  · rintro ⟨front, back, same, -⟩
    rw [same]
    exact List.mem_append_right _ List.mem_cons_self
  · intro member
    obtain ⟨front, back, same⟩ := List.append_of_mem member
    refine ⟨front, back, same, fun e he => ?_⟩
    have nodup := tree.nodup
    rw [same, List.map_append, List.map_cons, List.nodup_middle, List.nodup_cons] at nodup
    refine bne_iff_ne.2 fun here => nodup.1 ?_
    exact List.mem_append_left _ (List.mem_map.2 ⟨e, he, here.symm⟩)

theorem IsTree.parent (tree : fs.IsTree) (h : fs.at? (place ++ [name]) = some entry) :
    fs.at? place = some .folder := by
  have held := (tree.held _ ((tree.at?_eq_some_iff (by simp)).1 h)).2
  rwa [List.dropLast_concat] at held

private theorem IsTree.enter?_name (tree : fs.IsTree) (h : IsName name) :
    fs.enter? place name.toList =
      if (fs.at? (place ++ [name])).isSome then some (place ++ [name]) else none := by
  by_cases folder : fs.at? place = some .folder
  · have target : fs.target? place name.toList = some (place ++ [name]) := by
      rw [target?, folder, if_neg (by simp), if_neg (ne_true_of_eq_false h.1),
        if_neg (by simpa using h.2.1), String.ofList_toList]
    rw [enter?, target]
    rfl
  · have target : fs.target? place name.toList = none := by
      rw [target?, if_pos (by simpa using folder)]
    have missing : fs.at? (place ++ [name]) = none :=
      Option.eq_none_iff_forall_ne_some.2 fun _ found => folder (tree.parent found)
    rw [enter?, target, missing]
    rfl

/-- Names lead down from a folder as far as something is there. -/
theorem IsTree.foldlM_enter? (tree : fs.IsTree) (folder : fs.at? place = some .folder)
    (named : ∀ n ∈ names, IsName n) : (names.map String.toList).foldlM fs.enter? place =
      if (fs.at? (place ++ names)).isSome then some (place ++ names) else none := by
  induction names using List.reverseRecOn with
  | nil => simp [folder]
  | append_singleton front name ih =>
    rw [List.forall_mem_append, List.forall_mem_singleton] at named
    rw [List.map_append, List.foldlM_append, ih named.1, ← List.append_assoc]
    cases above : fs.at? (place ++ front) with
    | some entry =>
      rw [← tree.enter?_name named.2]
      exact (Option.bind_some _ _).trans (bind_pure _)
    | none =>
      have missing : fs.at? (place ++ front ++ [name]) = none := by
        refine Option.eq_none_iff_forall_ne_some.2 fun _ found => ?_
        rw [tree.parent found] at above
        cases above
      rw [missing]
      rfl

private theorem eq_of_enter?_nil {next : Place} (h : fs.enter? place [] = some next) :
    next = place := by
  obtain ⟨target, is, found⟩ := Option.bind_eq_some_iff.1 h
  rw [target?, if_pos (c := Path.isIdle [] = true) rfl] at is
  split at is
  · cases is
  · rw [Option.some.inj is]
    split at found
    · exact (Option.some.inj found).symm
    · cases found

theorem start_pieces (fs : FileSystem) (path : String) :
    fs.start (Path.pieces path) = if Path.isAbsolute path then [] else fs.working := by
  unfold Path.pieces Path.isAbsolute Text.splitAtChar
  cases path.toList with
  | nil => rfl
  | cons c cs =>
    cases slash : c == '/' with
    | true =>
      obtain ⟨piece, rest, split⟩ :=
        List.exists_cons_of_ne_nil (Text.splitWhere_ne_nil (· == '/') cs)
      rw [Text.splitWhere_cons_of_pos (p := (· == '/')) slash, split, List.head?_cons,
        if_pos (by simpa using slash)]
      rfl
    | false =>
      obtain ⟨piece, rest, -, split⟩ := Text.splitWhere_cons_of_neg (p := (· == '/')) slash cs
      rw [split, List.head?_cons, if_neg (by simpa using slash)]
      rfl

private theorem isAbsolute_joinNames (h : root ≠ "") (names : List String) :
    Path.isAbsolute (joinNames root names) = Path.isAbsolute root := by
  induction names generalizing root with
  | nil => rfl
  | cons name names ih =>
    have step : Path.isAbsolute (Path.join root name) = Path.isAbsolute root := by
      have full : root.toList ≠ [] := mt String.toList_eq_nil_iff.1 h
      obtain ⟨c, cs, text⟩ := List.exists_cons_of_ne_nil full
      rw [Path.join_of_ne_empty h]
      unfold Path.isAbsolute
      split <;> simp [String.toList_append, text]
    exact (ih (Path.join_ne_empty h name)).trans step

section Located

variable (tree : fs.IsTree) (located : fs.locate? root = some place)
  (folder : fs.at? place = some .folder)
include located

theorem ne_empty_of_locate? : root ≠ "" := by
  rintro rfl
  cases located

/-- The trunk of a folder leads to it, with or without a slash behind. -/
theorem foldlM_trunk : (trunk root).foldlM fs.enter?
    (if Path.isAbsolute root then [] else fs.working) = some place := by
  have nonempty := ne_empty_of_locate? located
  rw [locate?, if_neg (by simpa using nonempty), follow?, start_pieces] at located
  rcases Path.pieces_eq_trunk_or nonempty with ⟨-, whole⟩ | whole
  · rwa [whole] at located
  · rw [whole, List.foldlM_append] at located
    obtain ⟨there, found, last⟩ := Option.bind_eq_some_iff.1 located
    have stays : fs.enter? there [] = some place := by
      simpa only [List.foldlM_cons, List.foldlM_nil, bind_pure] using last
    rw [found, eq_of_enter?_nil stays]

include tree folder

theorem locate?_joinNames (named : ∀ n ∈ names, IsName n) : fs.locate? (joinNames root names) =
    if (fs.at? (place ++ names)).isSome then some (place ++ names) else none := by
  obtain rfl | below := eq_or_ne names []
  · rw [List.append_nil, folder]
    exact located
  · have nonempty := ne_empty_of_locate? located
    rw [locate?, if_neg (by simpa using Path.joinNames_ne_empty nonempty names), follow?,
      start_pieces, isAbsolute_joinNames nonempty, Path.pieces_joinNames nonempty named below,
      List.foldlM_append, foldlM_trunk located]
    exact (Option.bind_some _ _).trans (tree.foldlM_enter? folder named)

/-- A joined path finds what its names lead to. -/
theorem find?_joinNames (named : ∀ n ∈ names, IsName n) :
    fs.find? (joinNames root names) = fs.at? (place ++ names) := by
  rw [find?, locate?_joinNames tree located folder named]
  cases found : fs.at? (place ++ names) with
  | none => rfl
  | some entry => exact found

end Located

theorem mem_filesBelow (tree : fs.IsTree) : names ∈ fs.filesBelow place through ↔
    names ≠ [] ∧ (∃ bytes, fs.at? (place ++ names) = some (.file bytes)) ∧
      names.all through = true := by
  rw [filesBelow, List.mem_mergeSort, List.mem_filterMap]
  constructor
  · rintro ⟨⟨there, _ | bytes⟩, member, found⟩
    · cases found
    · obtain ⟨below, passed⟩ := Option.filter_eq_some_iff.1 found
      obtain ⟨nonempty, rfl⟩ := below?_eq_some_iff.1 below
      exact ⟨nonempty, ⟨bytes, (tree.at?_eq_some_iff (by simp [nonempty])).2 member⟩, passed⟩
  · rintro ⟨nonempty, ⟨bytes, found⟩, passed⟩
    refine ⟨_, (tree.at?_eq_some_iff (by simp [nonempty])).1 found, ?_⟩
    exact Option.filter_eq_some_iff.2 ⟨below?_eq_some_iff.2 ⟨nonempty, rfl⟩, passed⟩

theorem nodup_filesBelow (tree : fs.IsTree) (place : Place) (through : String → Bool) :
    (fs.filesBelow place through).Nodup := by
  refine (List.mergeSort_perm _ _).nodup_iff.2 (List.pairwise_filterMap.2 ?_)
  refine (List.pairwise_map.1 tree.nodup).imp ?_
  rintro ⟨there, _ | bytes⟩ ⟨there', _ | bytes'⟩ apart names found names' found' <;>
    try contradiction
  obtain ⟨-, rfl⟩ := below?_eq_some_iff.1 (Option.filter_eq_some_iff.1 found).1
  obtain ⟨-, rfl⟩ := below?_eq_some_iff.1 (Option.filter_eq_some_iff.1 found').1
  rintro rfl
  exact apart rfl

theorem pairwise_filesBelow (tree : fs.IsTree) (place : Place) (through : String → Bool) :
    (fs.filesBelow place through).Pairwise fun a b => namesBefore a b = true := by
  have sorted : (fs.filesBelow place through).Pairwise fun a b => (!namesBefore b a) = true := by
    refine List.pairwise_mergeSort (fun a b c first second => ?_) (fun a b => ?_) _
    · simp only [Path.namesBefore_eq, Bool.not_eq_true'] at first second ⊢
      exact Path.not_partsBefore_trans first second
    · simp only [Path.namesBefore_eq]
      cases reverse : Path.partsBefore (b.map .name) (a.map .name) with
      | false => rfl
      | true => rw [Path.partsBefore_asymm reverse]; rfl
  refine (sorted.and (nodup_filesBelow tree place through)).imp ?_
  rintro a b ⟨before, apart⟩
  rw [Path.namesBefore_eq] at before ⊢
  rcases Path.partsBefore_or_eq_or (a.map .name) (b.map .name) with strict | same | reverse
  · exact strict
  · exact absurd (Path.map_name_injective same) apart
  · rw [reverse] at before
    cases before

/-- The files below two folders are the same when the entries are. -/
theorem filesBelow_eq (tree : fs.IsTree) (tree' : other.IsTree)
    (same : ∀ names, fs.at? (place ++ names) = other.at? (place' ++ names))
    (through : String → Bool) :
    fs.filesBelow place through = other.filesBelow place' through := by
  refine List.Perm.eq_of_pairwise ?_ (pairwise_filesBelow tree place through)
    (pairwise_filesBelow tree' place' through) ?_
  · intro a b _ _ before after
    rw [Path.namesBefore_eq] at before after
    rw [Path.partsBefore_asymm before] at after
    cases after
  · refine (List.perm_ext_iff_of_nodup (nodup_filesBelow tree place through)
      (nodup_filesBelow tree' place' through)).2 fun names => ?_
    rw [mem_filesBelow tree, mem_filesBelow tree', same]

end ApiCollection.FileSystem
