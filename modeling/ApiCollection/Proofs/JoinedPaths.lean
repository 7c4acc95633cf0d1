import ApiCollection.Proofs.PathOrder
import ApiCollection.Proofs.TextPieces

/-!
# Joined paths

Names that are joined to the path of a folder stand behind its pieces, in whatever way that path is
written. The joined path has the parts of the folder and then the names, so that names tell both how
it is seen from the folder and where it stands among other paths of the folder.
-/

namespace ApiCollection.Path

open Text

variable {folder path name : String} {names others : List String}

/-- Whether a text can be the name of an entry in a folder. -/
def IsName (name : String) : Prop :=
  isIdle name.toList = false ∧ name.toList ≠ ['.', '.'] ∧ '/' ∉ name.toList

instance : DecidablePred IsName := fun _ => inferInstanceAs (Decidable (_ ∧ _ ∧ _))

def trunk (folder : String) : List Piece :=
  match before? ['/'] folder.toList with
  | some front => splitAtChar '/' front
  | none => pieces folder

private theorem pieces_ne_nil (path : String) : pieces path ≠ [] := splitWhere_ne_nil _ _

private theorem trunk_ne_nil (folder : String) : trunk folder ≠ [] := by
  unfold trunk
  split
  · exact splitWhere_ne_nil _ _
  · exact pieces_ne_nil folder

/-- The pieces of a folder are its trunk and perhaps an empty piece behind a slash. -/
theorem pieces_eq_trunk_or (h : folder ≠ "") :
    trunk folder ≠ [[]] ∧ pieces folder = trunk folder ∨ pieces folder = trunk folder ++ [[]] := by
  unfold trunk
  split
  · rename_i front slash
    right
    rw [pieces, before?_eq_some_iff.1 slash]
    exact splitAtChar_append '/' front []
  · refine .inl ⟨fun single => h ?_, rfl⟩
    exact String.toList_eq_nil_iff.1 (splitWhere_eq_singleton_nil single)

theorem join_of_ne_empty (h : folder ≠ "") (path : String) :
    join folder path =
      if endsWith ['/'] folder.toList then folder ++ path else folder ++ "/" ++ path := by
  rw [join, if_neg (by simpa using h)]

theorem join_ne_empty (h : folder ≠ "") (path : String) : join folder path ≠ "" := by
  rw [join_of_ne_empty h]
  split <;> simp [h]

theorem pieces_join (h : folder ≠ "") (path : String) :
    pieces (join folder path) = trunk folder ++ pieces path := by
  rw [join_of_ne_empty h, trunk, endsWith]
  split
  · rename_i slash
    obtain ⟨front, found⟩ := Option.isSome_iff_exists.1 slash
    rw [found, pieces, String.toList_append, before?_eq_some_iff.1 found, List.append_assoc]
    exact splitAtChar_append '/' front path.toList
  · rename_i slash
    rw [Option.not_isSome_iff_eq_none.1 slash, pieces, String.toList_append, String.toList_append,
      List.append_assoc]
    exact splitAtChar_append '/' folder.toList path.toList

theorem endsWith_slash_join (folder : String) (h : path ≠ "") :
    endsWith ['/'] (join folder path).toList = endsWith ['/'] path.toList := by
  have behind (front : List Char) :
      endsWith ['/'] (front ++ path.toList) = endsWith ['/'] path.toList := by
    have last := List.getLast?_append_of_ne_nil front (mt String.toList_eq_nil_iff.1 h)
    rw [Bool.eq_iff_iff, endsWith_singleton_iff, endsWith_singleton_iff, last]
  unfold join
  split
  · rfl
  · split
    · rw [String.toList_append, behind]
    · rw [String.toList_append, behind]

/-- Joining is associative, so that a path with slashes can be joined name by name. -/
theorem join_join (h : folder ≠ "") (hp : path ≠ "") (other : String) :
    join (join folder path) other = join folder (join path other) := by
  rw [join_of_ne_empty (join_ne_empty h path), endsWith_slash_join folder hp, join_of_ne_empty hp,
    join_of_ne_empty h, join_of_ne_empty h]
  split <;> split <;> simp [String.append_assoc]

theorem joinNames_join (h : folder ≠ "") (hp : path ≠ "") (names : List String) :
    joinNames (join folder path) names = join folder (joinNames path names) := by
  induction names generalizing path with
  | nil => rfl
  | cons name names ih =>
    rw [joinNames, List.foldl_cons, join_join h hp]
    exact ih (join_ne_empty hp name)

theorem IsName.ne_empty (h : IsName name) : name ≠ "" := by
  rintro rfl
  exact absurd h.1 (by decide)

theorem IsName.pieces_eq (h : IsName name) : pieces name = [name.toList] := by
  refine splitWhere_of_none fun c hc => beq_eq_false_iff_ne.2 ?_
  rintro rfl
  exact h.2.2 hc

private theorem IsName.part? (h : IsName name) : part? name.toList = some (.name name) := by
  rw [Path.part?, if_neg (ne_true_of_eq_false h.1), if_neg (by simpa using h.2.1),
    String.ofList_toList]

private theorem trunk_join (hf : folder ≠ "") (h : IsName name) :
    trunk (join folder name) = trunk folder ++ [name.toList] := by
  have open_ : before? ['/'] (join folder name).toList = none := by
    rw [← Option.not_isSome_iff_eq_none, ← endsWith, endsWith_slash_join folder h.ne_empty,
      endsWith_singleton_iff]
    exact fun last => h.2.2 (List.mem_of_getLast? last)
  rw [trunk, open_, ← h.pieces_eq]
  exact pieces_join hf name

theorem joinNames_ne_empty (hf : folder ≠ "") (names : List String) :
    joinNames folder names ≠ "" := by
  induction names generalizing folder with
  | nil => exact hf
  | cons name names ih => exact ih (join_ne_empty hf name)

private theorem trunk_joinNames (hf : folder ≠ "") (named : ∀ n ∈ names, IsName n) :
    trunk (joinNames folder names) = trunk folder ++ names.map String.toList := by
  induction names generalizing folder with
  | nil => exact (List.append_nil _).symm
  | cons name names ih =>
    rw [List.forall_mem_cons] at named
    have step := ih (join_ne_empty hf name) named.2
    rw [trunk_join hf named.1, List.append_assoc] at step
    exact step

theorem pieces_joinNames (hf : folder ≠ "") (named : ∀ n ∈ names, IsName n)
    (nonempty : names ≠ []) :
    pieces (joinNames folder names) = trunk folder ++ names.map String.toList := by
  obtain ⟨front, name, rfl⟩ := (List.eq_nil_or_concat' names).resolve_left nonempty
  rw [List.forall_mem_append, List.forall_mem_singleton] at named
  have joined : joinNames folder (front ++ [name]) = join (joinNames folder front) name :=
    List.foldl_concat ..
  rw [joined, pieces_join (joinNames_ne_empty hf front), trunk_joinNames hf named.1,
    named.2.pieces_eq, List.map_append, List.append_assoc]
  rfl

private theorem filterMap_part? (named : ∀ n ∈ names, IsName n) :
    (names.map String.toList).filterMap part? = names.map .name := by
  induction names with
  | nil => rfl
  | cons name names ih =>
    rw [List.forall_mem_cons] at named
    rw [List.map_cons, List.filterMap_cons, named.1.part?, ih named.2, List.map_cons]

def firstPart? (piece : Piece) : Option Part :=
  if piece == [] then some .root else if piece == ['.'] then some .current else part? piece

theorem map_fst_bodySteps (ps : List Piece) : (bodySteps ps).map Prod.fst = ps.filterMap part? := by
  induction ps with
  | nil => rfl
  | cons p ps ih =>
    rw [bodySteps, List.map_append, ih, List.filterMap_cons]
    cases part? p <;> rfl

/-- A path has a step for its first piece and the steps of the pieces behind it. -/
theorem steps_cons {first : Piece} {rest : List Piece} (h : first :: rest ≠ [[]]) :
    steps (first :: rest) =
      ((firstPart? first).map fun p => (p, rest)).toList ++ bodySteps rest := by
  unfold steps
  split
  · rename_i same
    obtain ⟨rfl, rfl⟩ := List.cons_eq_cons.1 same
    rfl
  · rename_i same
    obtain ⟨rfl, rfl⟩ := List.cons_eq_cons.1 same
    rfl
  · rename_i notRoot notCurrent
    have full : first ≠ [] := by
      rintro rfl
      cases rest with
      | nil => exact h rfl
      | cons next rest => exact notRoot next rest rfl
    have other : first ≠ ['.'] := by
      rintro rfl
      exact notCurrent rest rfl
    rw [bodySteps, firstPart?, if_neg (by simpa using full), if_neg (by simpa using other)]

private theorem firstPart?_isSome (piece : Piece) : (firstPart? piece).isSome := by
  unfold firstPart? part? isIdle
  split
  · rfl
  · split
    · rfl
    · rename_i full other
      rw [if_neg (by simp_all)]
      split <;> rfl

/-- The first part of a folder, and the pieces whose parts follow. -/
theorem exists_trunk (h : folder ≠ "") : ∃ first rest part, trunk folder = first :: rest ∧
    firstPart? first = some part ∧ parts folder = part :: rest.filterMap part? := by
  obtain ⟨first, rest, split⟩ := List.exists_cons_of_ne_nil (trunk_ne_nil folder)
  obtain ⟨part, is⟩ := Option.isSome_iff_exists.1 (firstPart?_isSome first)
  refine ⟨first, rest, part, split, is, ?_⟩
  rcases pieces_eq_trunk_or h with ⟨full, whole⟩ | whole
  · rw [parts, whole, split, steps_cons (split ▸ full), is, List.map_append, map_fst_bodySteps]
    rfl
  · rw [parts, whole, split, List.cons_append, steps_cons (by simp), is, List.map_append,
      map_fst_bodySteps, List.filterMap_append]
    exact congrArg (part :: ·) (List.append_nil _)

variable (hf : folder ≠ "") (named : ∀ n ∈ names, IsName n)
include hf named

private theorem parts_joinNames :
    parts (joinNames folder names) = parts folder ++ names.map .name := by
  obtain rfl | nonempty := eq_or_ne names []
  · exact (List.append_nil _).symm
  · obtain ⟨first, rest, part, split, is, whole⟩ := exists_trunk hf
    rw [parts, pieces_joinNames hf named nonempty, split, List.cons_append,
      steps_cons (by simp [nonempty]), is, List.map_append, map_fst_bodySteps,
      List.filterMap_append, filterMap_part? named, whole]
    rfl

omit hf named in
/-- What is left behind the parts of some pieces begins with what stands behind these pieces. -/
theorem piecesBehind?_bodySteps (front back here : List Piece)
    (start : here.dropWhile isIdle = (front ++ back).dropWhile isIdle) :
    ∃ rest, piecesBehind? (front.filterMap part?) (bodySteps (front ++ back)) here = some rest ∧
      rest.dropWhile isIdle = back.dropWhile isIdle := by
  induction front generalizing here with
  | nil => exact ⟨here, by cases bodySteps ([] ++ back) <;> rfl, start⟩
  | cons piece front ih =>
    rw [List.cons_append, bodySteps]
    by_cases idle : isIdle piece = true
    · have none : part? piece = none := if_pos idle
      rw [List.filterMap_cons, none]
      rw [List.cons_append, List.dropWhile_cons_of_pos idle] at start
      exact ih here start
    · obtain ⟨part, is⟩ : ∃ part, part? piece = some part := by
        rw [part?, if_neg idle]
        split <;> exact ⟨_, rfl⟩
      rw [List.filterMap_cons, is]
      obtain ⟨rest, found, same⟩ := ih (front ++ back) rfl
      refine ⟨rest, ?_, same⟩
      rw [← found]
      exact if_pos rfl

omit hf in
theorem dropWhile_isIdle :
    (names.map String.toList).dropWhile isIdle = names.map String.toList := by
  cases names with
  | nil => rfl
  | cons name names =>
    exact List.dropWhile_cons_of_neg (ne_true_of_eq_false (named name List.mem_cons_self).1)

omit hf in
private theorem dropIdleEnd_names :
    dropIdleEnd (names.map String.toList) = names.map String.toList := by
  have busy : ∀ n ∈ names.reverse, IsName n := fun n hn => named n (List.mem_reverse.1 hn)
  rw [dropIdleEnd, ← List.map_reverse, dropWhile_isIdle busy, List.map_reverse,
    List.reverse_reverse]

/-- Seen from the folder, a joined path is the names with slashes between them. -/
theorem relativeTo_joinNames (nonempty : names ≠ []) : relativeTo folder (joinNames folder names) =
    String.ofList (joinWith ['/'] (names.map String.toList)) := by
  obtain ⟨first, rest, part, split, is, whole⟩ := exists_trunk hf
  have pieces := pieces_joinNames hf named nonempty
  rw [split, List.cons_append] at pieces
  obtain ⟨behind, found, same⟩ :=
    piecesBehind?_bodySteps rest (names.map String.toList) (rest ++ _) rfl
  have left : piecesBehind? (parts folder) (steps (Path.pieces (joinNames folder names)))
      (Path.pieces (joinNames folder names)) = some behind := by
    rw [pieces, steps_cons (by simp [nonempty]), is, whole, ← found]
    exact if_pos rfl
  rw [relativeTo]
  split
  · rename_i none
    rw [whole] at none
    cases none
  · have seen := same.trans (dropWhile_isIdle named)
    rw [left]
    dsimp only
    rw [seen, dropIdleEnd_names named]

omit hf named in
theorem namesBefore_eq (as bs : List String) :
    namesBefore as bs = partsBefore (as.map .name) (bs.map .name) := by
  induction as generalizing bs with
  | nil => cases bs <;> rfl
  | cons a as ih =>
    cases bs with
    | nil => rfl
    | cons b bs =>
      have same : (Part.name a == Part.name b) = (a == b) := Bool.eq_iff_iff.2 (by simp)
      rw [namesBefore, ih, List.map_cons, List.map_cons, partsBefore, same]
      rfl

omit hf named in
theorem map_name_injective : Function.Injective (List.map Part.name) :=
  List.map_injective_iff.2 fun _ _ same => Part.name.inj same

omit hf named in
theorem partsBefore_append (front as bs : List Part) :
    partsBefore (front ++ as) (front ++ bs) = partsBefore as bs := by
  induction front with
  | nil => rfl
  | cons p front ih => simp [partsBefore, Part.isBefore_irrefl, ih]

theorem isBefore_joinNames (named' : ∀ n ∈ others, IsName n) :
    isBefore (joinNames folder names) (joinNames folder others) = namesBefore names others := by
  rw [isBefore, parts_joinNames hf named, parts_joinNames hf named', partsBefore_append,
    namesBefore_eq]

end ApiCollection.Path
