import ResourceAssembler.Host.Sketch
import ResourceAssembler.Proofs.Paths.Parent
import ResourceAssembler.Proofs.Target.SourceRoot
import ResourceAssembler.Proofs.World
import ResourceAssembler.Settings

/-!
# The source root of an input

A build takes its sources from the directory of its input. A listing is handed on as it
is, to stand for its directory as a source root. Of any other input the directory above it
is handed on, but a directory that is named as a listing is taken for one, and stands for
the directory in which it lies.
-/

namespace ResourceAssembler

open Paths

/-- No destination has a say in the source root. -/
theorem TargetPaths.sourceRoot_setDestination (paths : TargetPaths) (look : Look) (path : String) :
    (paths.setDestination look path).sourceRoot = paths.sourceRoot := by
  unfold setDestination
  dsimp only
  split <;> rfl

namespace BuildSettings

open TargetPaths

/-- Whether an input that is not named as a listing lies in a directory that is. -/
def liesInListing (input : String) : Bool :=
  !endsWith input listingEnding &&
    (segments input).dropLast.getLast?.any (endsWith · listingEnding)

variable {W : Type} [Host (StateM W)]

theorem sourceRoot_targetPaths (settings : BuildSettings) (world : W) :
    (runOn settings.targetPaths world).1.1.sourceRoot =
      (({} : TargetPaths).setSourceRoot settings.sourcePath).sourceRoot := by
  obtain ⟨input, output, format, scenarios, scenario⟩ := settings
  cases output with
  | none => cases scenarios <;> rfl
  | some output => cases scenarios <;> exact sourceRoot_setDestination _ _ output

theorem sourcePath_of_listing {settings : BuildSettings}
    (h : endsWith settings.input listingEnding = true) : settings.sourcePath = settings.input := by
  simp [sourcePath, h]

theorem sourcePath_of_parent {settings : BuildSettings} {parent : String}
    (h : endsWith settings.input listingEnding = false)
    (hparent : parent? settings.input = some parent) :
    settings.sourcePath = if parent = "" then "." else parent := by
  simp [sourcePath, h, hparent]

section Named

variable {settings : BuildSettings} (hempty : (splitLast settings.input).2 ≠ "")
  (hdot : (splitLast settings.input).2 ≠ ".")

include hempty hdot

/-- The place that is handed on as the source root: the directory of the input, or the one above it
if that directory is taken for a listing. -/
theorem sourcePlace_sourcePath :
    sourcePlace settings.sourcePath =
      ⟨isAbsolute settings.input,
        if liesInListing settings.input then (segments settings.input).dropLast.dropLast
        else (segments settings.input).dropLast⟩ := by
  unfold liesInListing
  cases hlisting : endsWith settings.input listingEnding with
  | true =>
      rw [sourcePath_of_listing hlisting, sourcePlace, hlisting]
      rfl
  | false =>
      obtain ⟨parent, hparent, htidy, hdenotes⟩ := exists_parent? hempty hdot
      have hending := htidy.endsWith_eq listingEnding (by decide) (by decide)
      obtain ⟨hstart, hsegments⟩ := Denoted.mk.inj hdenotes
      rw [hsegments] at hending
      rw [sourcePath_of_parent hlisting hparent, sourcePlace, hending, hdenotes, hstart, hsegments,
        Bool.not_false, Bool.true_and]
      split <;> rfl

theorem sourcePath_ne_empty : settings.sourcePath ≠ "" := by
  cases hlisting : endsWith settings.input listingEnding with
  | true =>
      rw [sourcePath_of_listing hlisting]
      intro hnone
      rw [hnone] at hempty
      exact hempty (by decide)
  | false =>
      obtain ⟨parent, hparent, -⟩ := exists_parent? hempty hdot
      rw [sourcePath_of_parent hlisting hparent]
      split
      case isTrue => decide
      case isFalse hthere => exact hthere

end Named

/-- The source root of every input with a file name, in every world. With a slash and the file
name behind it, the root denotes the input, whatever the input's ending and the names of its
directories, with one exception: if the input is not named as a listing and its directory is,
that directory is left out. -/
theorem source_root_denotes_directory (settings : BuildSettings) (world : W)
    (hempty : (splitLast settings.input).2 ≠ "") (hdot : (splitLast settings.input).2 ≠ ".") :
    let input := settings.input
    let name := (splitLast input).2
    let root := (runOn settings.targetPaths world).1.1.sourceRoot
    let found := denoted (root ++ "/" ++ name)
    found = (if liesInListing input then
        ⟨isAbsolute input, (segments input).dropLast.dropLast ++ [name]⟩
      else denoted input) ∧
      (found = denoted input ↔ liesInListing input = false) := by
  intro input name root found
  have hname : segments name = [name] := segments_of_name (not_mem_splitLast input) hempty hdot
  have hinput : denoted input = ⟨isAbsolute input, (segments input).dropLast ++ [name]⟩ := by
    rw [denoted_eq_under, denoted_directory_of_name hempty hdot, Denoted.under, hname]
  have hfound : found = (sourcePlace settings.sourcePath).under name := by
    have hroot := denoted_root_append (({} : TargetPaths).setSourceRoot settings.sourcePath) name
    rwa [← sourceRoot_targetPaths settings world,
      rootDenoted_setSourceRoot (sourcePath_ne_empty hempty hdot)] at hroot
  rw [sourcePlace_sourcePath hempty hdot, Denoted.under, hname] at hfound
  cases hlies : liesInListing input with
  | false =>
      have hkept : found = denoted input := by
        rw [hfound, hinput, hlies, if_neg Bool.false_ne_true]
      exact ⟨hkept, iff_of_true hkept rfl⟩
  | true =>
      rw [hlies, if_pos rfl] at hfound
      refine ⟨hfound, iff_of_false ?_ (by simp)⟩
      rw [hfound, hinput]
      intro hsame
      have hshorter : (segments input).dropLast.dropLast = (segments input).dropLast :=
        List.append_cancel_right (congrArg Denoted.segments hsame)
      -- There is a directory to be left out, the one that is named as a listing.
      have hdirectory : (segments input).dropLast ≠ [] := by
        intro hnone
        simp [liesInListing, hnone] at hlies
      have hlength : (segments input).dropLast.length - 1 = (segments input).dropLast.length := by
        rw [← List.length_dropLast, hshorter]
      have hpositive : 0 < (segments input).dropLast.length := List.length_pos_iff.mpr hdirectory
      omega

/-- The sources of "ships.kdl/listing.toml" are looked for beside the directory "ships.kdl". -/
theorem listing_directory_left_out :
    let settings : BuildSettings := { input := "ships.kdl/listing.toml" }
    let root := (runOn settings.targetPaths ({} : Sketch)).1.1.sourceRoot
    (splitLast settings.input).2 = "listing.toml" ∧ root = "." ∧
      denoted (root ++ "/" ++ "listing.toml") ≠ denoted settings.input := by
  decide

theorem source_root_denotes_directory_of_ships :
    let settings : BuildSettings := { input := "fleet.kdl/./ships/listing.toml" }
    let root := (runOn settings.targetPaths ({} : Sketch)).1.1.sourceRoot
    (splitLast settings.input).2 ≠ "" ∧ (splitLast settings.input).2 ≠ "." ∧
      denoted (root ++ "/" ++ "listing.toml") =
        ⟨false, ["fleet.kdl", "ships", "listing.toml"]⟩ := by
  intro settings root
  have hempty : (splitLast settings.input).2 ≠ "" := by decide
  have hdot : (splitLast settings.input).2 ≠ "." := by decide
  have hlies : liesInListing settings.input = false := by decide
  have hfound := (source_root_denotes_directory settings ({} : Sketch) hempty hdot).2.mpr hlies
  have hname : (splitLast settings.input).2 = "listing.toml" := by decide
  rw [hname] at hfound
  exact ⟨hempty, hdot, hfound.trans (by decide)⟩

end BuildSettings

end ResourceAssembler
