import Mathlib.Data.List.Infix
import ResourceAssembler.Proofs.Paths.Parent

/-!
# The directories above an absolute path

From an absolute path one climbs to the top, and each step takes the last segment away. So there are
as many directories above it as it has segments, and together with the path itself they denote all
that its segments start with, the longest first.
-/

namespace ResourceAssembler.Paths

/-- The segments that pieces name, the last piece first. -/
def segmentsUpwards (pieces : List (List Char)) : List String :=
  (pieces.reverse.filter (!isIdle ·)).map String.ofList

/-- The places from the top down to the one that the segments lead to, the deepest first. -/
def placesUpwards (segments : List String) : List Denoted :=
  segments.inits.reverse.map ( Denoted.mk true)

theorem placesUpwards_concat (segments : List String) (last : String) :
    placesUpwards (segments ++ [last]) = ⟨true, segments ++ [last]⟩ :: placesUpwards segments := by
  simp [placesUpwards, List.inits_append]

/-- The pieces of a path from the top. -/
theorem denoted_ofReversed {pieces : List (List Char)} (hslash : ∀ piece ∈ pieces, '/' ∉ piece) :
    denoted (ofReversed ['/'] pieces) = ⟨true, segmentsUpwards pieces⟩ := by
  have hslash' : ∀ piece ∈ pieces.reverse, '/' ∉ piece := fun piece hpiece =>
    hslash piece (List.mem_reverse.mp hpiece)
  have htext : ofReversed ['/'] pieces = "" ++ "/" ++ tidied pieces.reverse :=
    ofReversed_eq ['/'] pieces
  rw [htext, denoted_append_slash_append, Denoted.under, segments_tidied hslash']
  rfl

/-- Climbing takes one segment away after the other. -/
theorem map_denoted_climb {pieces : List (List Char)} (hslash : ∀ piece ∈ pieces, '/' ∉ piece) :
    ⟨true, segmentsUpwards pieces⟩ :: (climb ['/'] pieces).map denoted =
      placesUpwards (segmentsUpwards pieces) := by
  induction pieces with
  | nil => rfl
  | cons piece rest ih =>
      have hrest : ∀ other ∈ rest, '/' ∉ other := fun other hother =>
        hslash other (List.mem_cons_of_mem _ hother)
      cases hidle : isIdle piece with
      | true =>
          have hsegments : segmentsUpwards (piece :: rest) = segmentsUpwards rest := by
            simp [segmentsUpwards, hidle]
          rw [hsegments, climb, if_pos hidle]
          exact ih hrest
      | false =>
          have hsegments : segmentsUpwards (piece :: rest) =
              segmentsUpwards rest ++ [String.ofList piece] := by
            simp [segmentsUpwards, hidle]
          rw [hsegments, climb, hidle, if_neg Bool.false_ne_true, List.map_cons,
            denoted_ofReversed hrest, ih hrest, placesUpwards_concat]

/-- An absolute path and the directories above it lead to all places on the way to the top. -/
theorem map_denoted_ancestors {path : String} (habsolute : isAbsolute path = true) :
    (ancestors path).map denoted = placesUpwards (segments path) := by
  obtain ⟨back, rfl⟩ := exists_eq_slash_append habsolute
  have hanchor : anchor ("/" ++ back) = ['/'] := by simp [anchor]
  have hdropped : ("/" ++ back).toList.drop ['/'].length = back.toList := by simp
  have hslash : ∀ piece ∈ (splitPieces back.toList).reverse, '/' ∉ piece := fun piece hpiece =>
    not_mem_of_mem_splitPieces (List.mem_reverse.mp hpiece)
  have hsegments : segments ("/" ++ back) = segmentsUpwards (splitPieces back.toList).reverse := by
    have hback := segments_append_slash_append "" back
    rw [segments_empty, List.nil_append] at hback
    refine hback.trans ?_
    rw [segmentsUpwards, List.reverse_reverse]
    rfl
  have hpath : denoted ("/" ++ back) =
      ⟨true, segmentsUpwards (splitPieces back.toList).reverse⟩ := by
    rw [denoted, habsolute, hsegments]
  rw [ancestors, hanchor, hdropped, if_neg (by simp), List.append_nil, List.map_cons, hpath,
    map_denoted_climb hslash, hsegments]

end ResourceAssembler.Paths
