import ApiCollection.Endpoint.Binding
import ApiCollection.Proofs.ConvertedFolders

/-!
# Paths of endpoints

The path of an endpoint is joined of the base path of its class and the path of its method. Slashes
at the joint come and go, but the segments between slashes do not change: they are those of the one
path and then those of the other.
-/

namespace ApiCollection.Mapping

open Text Conversion

/-- The pieces of a text between slashes, without the empty ones. -/
def segments (cs : List Char) : List (List Char) := (splitAtChar '/' cs).filter fun s => !s.isEmpty

private theorem slashSegments_eq (path : String) : slashSegments path = segments path.toList := rfl

@[simp] theorem segments_nil : segments [] = [] := rfl

theorem segments_append_slash (xs ys : List Char) :
    segments (xs ++ '/' :: ys) = segments xs ++ segments ys := by
  rw [segments, splitAtChar_append, List.filter_append]
  rfl

theorem segments_slash_cons (cs : List Char) : segments ('/' :: cs) = segments cs :=
  segments_append_slash [] cs

def withSlash (cs : List Char) : List Char := if startsWith ['/'] cs then cs else '/' :: cs

theorem head?_withSlash (cs : List Char) : (withSlash cs).head? = some '/' := by
  rw [withSlash]
  split
  · rename_i slash
    exact startsWith_singleton_iff.1 slash
  · rfl

private theorem segments_withSlash (cs : List Char) : segments (withSlash cs) = segments cs := by
  rw [withSlash]
  split
  · rfl
  · exact segments_slash_cons cs

private theorem segments_withoutSlash (cs : List Char) :
    segments ((before? ['/'] cs).getD cs) = segments cs := by
  cases slash : before? ['/'] cs with
  | none => rfl
  | some front =>
    rw [before?_eq_some_iff.1 slash, segments_append_slash, segments_nil, List.append_nil]
    rfl

/-- Two texts with a slash between them, unless nothing follows or there is one already. -/
def withJoint (base sub : List Char) : List Char :=
  if sub.isEmpty || startsWith ['/'] sub then base ++ sub else base ++ '/' :: sub

private theorem segments_withJoint (base sub : List Char) :
    segments (withJoint base sub) = segments base ++ segments sub := by
  rw [withJoint]
  split
  · rename_i joined
    obtain empty | slash := Bool.or_eq_true_iff.1 joined
    · rw [List.isEmpty_iff.1 empty, List.append_nil, segments_nil, List.append_nil]
    · obtain ⟨rest, rfl⟩ := List.head?_eq_some_iff.1 (startsWith_singleton_iff.1 slash)
      rw [segments_append_slash, segments_slash_cons]
  · exact segments_append_slash base sub

theorem toList_joinPath (base sub : String) :
    (joinPath base sub).toList =
      withSlash (withJoint ((before? ['/'] (trim base.toList)).getD (trim base.toList))
        (trim sub.toList)) :=
  String.toList_ofList

private theorem rooted_joinPath (base sub : String) :
    rooted (joinPath base sub) = joinPath base sub := by
  have slash : startsWith ['/'] (joinPath base sub).toList = true := by
    rw [startsWith_singleton_iff, toList_joinPath]
    exact head?_withSlash _
  exact if_pos slash

/-- A joined path begins with a slash and has the segments of its two parts, one behind the other. The
address of an operation with that path has the same segments, with colons for braces. -/
theorem segments_joinPath (base sub : String) :
    let parts := segments (trim base.toList) ++ segments (trim sub.toList)
    (joinPath base sub).toList.head? = some '/' ∧
      slashSegments (joinPath base sub) = parts ∧
      ∀ (document : Json) (options : Options) (o : Operation),
        List.Forall₂ ColonForm parts ((requestItem document options
          { o with path := rooted (joinPath base sub) }).request.url.path.map String.toList) := by
  intro parts
  have same : slashSegments (joinPath base sub) = parts := by
    rw [slashSegments_eq, toList_joinPath, segments_withSlash, segments_withJoint,
      segments_withoutSlash]
  refine ⟨?_, same, ?_⟩
  · rw [toList_joinPath]
    exact head?_withSlash _
  · intro document options o
    rw [path_requestItem, rooted_joinPath, ← same]
    exact colonForm_addressSegments (joinPath base sub)

example : joinPath " api/users/ " "\x7bid\x7d" = "/api/users/\x7bid\x7d" ∧
    joinPath "" "" = "/" := by decide +kernel

end ApiCollection.Mapping
