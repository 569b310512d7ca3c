import ResourceAssembler.Proofs.Paths.Splitting
import ResourceAssembler.Proofs.Target.SourceFile

/-!
# Where plain references lead from a source root

A path that is given as the source root stands for a place: the directory of the listing that it
names, or itself. Plain references are meant to be taken from that place. The root is kept as text
without the slashes at its end, and a reference is joined to that text. Of slashes alone nothing
is kept, and a reference joined to nothing stays relative. So references from the top directory
are the ones that go astray.
-/

namespace ResourceAssembler

open Paths

namespace TargetPaths

/-- The place that a path stands for as a source root. A path that ends as a listing's does stands
for the directory of the listing. -/
def sourcePlace (path : String) : Denoted :=
  if endsWith path listingEnding then ⟨isAbsolute path, (segments path).dropLast⟩
  else denoted path

/-- Paths that stand for the top directory by nothing but slashes: slashes alone, and a
listing right behind slashes. -/
def TopSource (path : String) : Prop :=
  ∃ count file, path = slashes (count + 1) ++ file ∧ '/' ∉ file.toList ∧
    (file = "" ∨ endsWith file listingEnding = true)

variable {path : String}

theorem absolute_sourcePlace (path : String) :
    (sourcePlace path).absolute = isAbsolute path := by
  unfold sourcePlace
  split <;> rfl

theorem not_topSource_empty : ¬TopSource "" := by
  rintro ⟨count, file, hpath, -⟩
  simp [slashes_succ] at hpath

/-! ## The text that is kept -/

/-- A path that ends as a listing's does has a file name. -/
theorem isName_of_endsWith_listing (h : endsWith path listingEnding = true) :
    (splitLast path).2 ≠ "" ∧ (splitLast path).2 ≠ "." := by
  rw [endsWith_splitLast (by decide)] at h
  constructor
  · intro hempty
    rw [hempty] at h
    cases h
  · intro hdot
    rw [hdot] at h
    cases h

theorem sourceRoot_of_listing (h : endsWith path listingEnding = true) (paths : TargetPaths) :
    (paths.setSourceRoot path).sourceRoot = trimEnd (splitLast path).1 := by
  simp only [setSourceRoot, h, if_true]

theorem sourceRoot_of_directory (h : endsWith path listingEnding = false) (paths : TargetPaths) :
    (paths.setSourceRoot path).sourceRoot = trimEnd path := by
  simp only [setSourceRoot, h, Bool.false_eq_true, if_false]

/-- With a slash behind it, the text that is kept denotes the place. -/
theorem rootDenoted_setSourceRoot (h : path ≠ "") (paths : TargetPaths) :
    rootDenoted (paths.setSourceRoot path) = sourcePlace path := by
  unfold rootDenoted sourcePlace
  cases hlisting : endsWith path listingEnding with
  | true =>
      obtain ⟨hempty, hdot⟩ := isName_of_endsWith_listing hlisting
      rw [sourceRoot_of_listing hlisting, ← denoted_directory,
        denoted_directory_of_name hempty hdot, if_pos rfl]
  | false =>
      rw [sourceRoot_of_directory hlisting, denoted_trimEnd_append_slash h,
        if_neg Bool.false_ne_true]

/-- Cut after its last slash, such a path leaves its file name. -/
theorem splitLast_slashes_append {file : String} (h : '/' ∉ file.toList) (count : Nat) :
    splitLast (slashes (count + 1) ++ file) = (slashes (count + 1), file) := by
  rw [slashes_succ]
  exact splitLast_append_slash_append h (slashes count)

/-- Those are the paths of which nothing is kept. -/
theorem sourceRoot_eq_empty_iff (h : path ≠ "") (paths : TargetPaths) :
    (paths.setSourceRoot path).sourceRoot = "" ↔ TopSource path := by
  cases hlisting : endsWith path listingEnding with
  | false =>
      rw [sourceRoot_of_directory hlisting, trimEnd_eq_empty_iff]
      constructor
      · rintro ⟨count, rfl⟩
        cases count with
        | zero => exact absurd rfl h
        | succ count => exact ⟨count, "", String.append_empty.symm, by simp, .inl rfl⟩
      · rintro ⟨count, file, rfl, hfile, rfl | hending⟩
        · exact ⟨count + 1, String.append_empty⟩
        · rw [endsWith_splitLast (by decide), splitLast_slashes_append hfile, hending] at hlisting
          cases hlisting
  | true =>
      rw [sourceRoot_of_listing hlisting, trimEnd_eq_empty_iff]
      constructor
      · rintro ⟨count, hroot⟩
        obtain ⟨front, file, rfl, hfile, hsplit⟩ | ⟨-, hsplit⟩ := exists_splitLast path
        · rw [hsplit] at hroot
          rw [endsWith_splitLast (by decide), hsplit] at hlisting
          cases count with
          | zero => simp [slashes] at hroot
          | succ count =>
              refine ⟨count, file, ?_, hfile, .inr hlisting⟩
              rw [← hroot]
        · rw [hsplit] at hroot
          have hkept : trimEnd "." = "" := (congrArg trimEnd hroot).trans (trimEnd_slashes count)
          exact absurd hkept (by decide)
      · rintro ⟨count, file, rfl, hfile, -⟩
        exact ⟨count + 1, congrArg Prod.fst (splitLast_slashes_append hfile count)⟩

/-- Such a path stands for the top directory. -/
theorem sourcePlace_of_topSource (h : TopSource path) : sourcePlace path = ⟨true, []⟩ := by
  have hthere : path ≠ "" := by
    rintro rfl
    exact not_topSource_empty h
  have hroot := rootDenoted_setSourceRoot hthere {}
  have hempty := (sourceRoot_eq_empty_iff hthere {}).mpr h
  rw [← hroot, rootDenoted, hempty]
  decide

/-- Of every other path the text that is kept denotes the place. -/
theorem denoted_sourceRoot (h : ¬TopSource path) (paths : TargetPaths) :
    denoted (paths.setSourceRoot path).sourceRoot = sourcePlace path := by
  by_cases hempty : path = ""
  · have hplace : sourcePlace "" = denoted "" := by decide
    rw [hempty, hplace]
    rfl
  · have hroot : (paths.setSourceRoot path).sourceRoot ≠ "" :=
      fun hnone => h ((sourceRoot_eq_empty_iff hempty paths).mp hnone)
    rw [(denoted_sourceRoot_eq_iff _).mpr hroot, rootDenoted_setSourceRoot hempty]

/-! ## References -/

/-- What a plain reference denotes, under every source root and for every relative reference.
Unless the root stands for the top directory by nothing but slashes, the reference denotes what
it denotes at the place that the root stands for, and it starts at the top if the root does.
From the top directory it ought to start at the top and is left relative, so that it is looked
for in the working directory. -/
theorem plain_reference_denotes (paths : TargetPaths) (path : String) {reference : String}
    (relative : isAbsolute reference = false) (plain : startsWith reference "@" = false) :
    let found := denoted ((paths.setSourceRoot path).sourceFile reference)
    let meant := (sourcePlace path).under reference
    (¬TopSource path → found = meant) ∧
      (TopSource path → found = ⟨false, segments reference⟩ ∧ meant = ⟨true, segments reference⟩) ∧
      (found = meant ↔ ¬TopSource path) ∧
      (found.absolute = true ↔ isAbsolute path = true ∧ ¬TopSource path) := by
  intro found meant
  have hfound : found =
      (denoted (paths.setSourceRoot path).sourceRoot).under reference :=
    denoted_sourceFile_of_plain relative plain _
  by_cases htop : TopSource path
  · have hthere : path ≠ "" := by
      rintro rfl
      exact not_topSource_empty htop
    have hastray : found = ⟨false, segments reference⟩ := by
      rw [hfound, (sourceRoot_eq_empty_iff hthere paths).mpr htop]
      rfl
    have hmeant : meant = ⟨true, segments reference⟩ :=
      congrArg ( Denoted.under · reference) (sourcePlace_of_topSource htop)
    simp [htop, hastray, hmeant]
  · have hsame : found = meant := by
      rw [hfound, denoted_sourceRoot htop]
    have hstart : found.absolute = isAbsolute path := by
      rw [hsame]
      exact absolute_sourcePlace path
    exact ⟨fun _ => hsame, fun h => absurd h htop, iff_of_true hsame htop, by simp [htop, hstart]⟩

/-- The listing "/main.kdl" lies in the top directory, but its reference
"blob.bin" stays relative. -/
theorem reference_from_top_stays_relative :
    let paths := ({} : TargetPaths).setSourceRoot "/main.kdl"
    isAbsolute "blob.bin" = false ∧ startsWith "blob.bin" "@" = false ∧
      sourcePlace "/main.kdl" = ⟨true, []⟩ ∧ paths.sourceFile "blob.bin" = "blob.bin" ∧
      denoted (paths.sourceFile "blob.bin") ≠ (sourcePlace "/main.kdl").under "blob.bin" := by
  decide

/-- References go from the directory of a listing, and go astray from a
listing behind two slashes. -/
theorem plain_reference_denotes_beside_listing :
    isAbsolute "icons/swan.png" = false ∧ startsWith "icons/swan.png" "@" = false ∧
      denoted ((({} : TargetPaths).setSourceRoot "/proj//main.kdl").sourceFile "icons/swan.png") =
        ⟨true, ["proj", "icons", "swan.png"]⟩ ∧
      denoted ((({} : TargetPaths).setSourceRoot "//main.kdl").sourceFile "icons/swan.png") =
        ⟨false, ["icons", "swan.png"]⟩ := by
  have hrelative : isAbsolute "icons/swan.png" = false := by decide
  have hplain : startsWith "icons/swan.png" "@" = false := by decide
  have hproj := plain_reference_denotes {} "/proj//main.kdl" hrelative hplain
  have htop := plain_reference_denotes {} "//main.kdl" hrelative hplain
  have hkept : ¬TopSource "/proj//main.kdl" := fun h =>
    absurd ((sourceRoot_eq_empty_iff (by decide) {}).mpr h) (by decide)
  have hslashes : TopSource "//main.kdl" := ⟨1, "main.kdl", by decide, by decide, .inr (by decide)⟩
  refine ⟨hrelative, hplain, ?_, ?_⟩
  · rw [hproj.1 hkept]
    decide
  · rw [(htop.2.1 hslashes).1]
    decide

end TargetPaths

end ResourceAssembler
