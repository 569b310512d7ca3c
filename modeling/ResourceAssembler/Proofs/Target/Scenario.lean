import ResourceAssembler.Proofs.Host.Merging
import ResourceAssembler.Proofs.Settings.Seen

/-!
# Looking a scenario up under roots that differ in slashes

A scenario is looked for behind the text of the scenario root. When one root has more slashes at its
end than another, the paths that are asked about denote the same, and where slashes merge they lead
to the same. So the two lookups end alike.
-/

namespace ResourceAssembler.TargetPaths

open Paths

/-- Lookups that end alike. They find manifests that are denoted in the same way, or they miss the
same thing under paths that denote the same. -/
inductive SameOutcome : Except TargetError String → Except TargetError String → Prop where
  | found {path other : String} (same : denoted path = denoted other) :
      SameOutcome (.ok path) (.ok other)
  | scenarioNotFound {name path other : String} (same : denoted path = denoted other) :
      SameOutcome (.error (.scenarioNotFound name path)) (.error (.scenarioNotFound name other))
  | missingManifest {name path other : String} (same : denoted path = denoted other) :
      SameOutcome (.error (.missingManifest name path)) (.error (.missingManifest name other))

/-- The manifest of a scenario, behind a scenario root and a slash. -/
def manifestBehind (name : String) : String :=
  if endsWithSlash ("/" ++ name) then name ++ scenarioManifestFile
  else name ++ "/" ++ scenarioManifestFile

theorem scenarioFile_eq (paths : TargetPaths) (home : Option String) (name : String) :
    paths.scenarioFile home name =
      expandTilde home paths.scenarioRoot ++ "/" ++ manifestBehind name :=
  join_append_slash_append (by decide) _ name

theorem utf8ByteSize_manifestBehind_le (name : String) :
    (manifestBehind name).utf8ByteSize ≤ (name ++ "/" ++ scenarioManifestFile).utf8ByteSize := by
  unfold manifestBehind
  split
  · simp only [String.utf8ByteSize_append]
    omega
  · exact Nat.le_refl _

variable {W : Type} [Host (StateM W)] [MergesSlashes W]

/-- Two lookups end alike if one root has no more than slashes behind the
other, and no path is too long. -/
theorem sameOutcome_scenarioManifest {paths other : TargetPaths} {home : Option String}
    {count : Nat}
    (roots : expandTilde home paths.scenarioRoot =
      expandTilde home other.scenarioRoot ++ slashes count) (name : String) (world : W)
    (short : count = 0 ∨
      (expandTilde home paths.scenarioRoot ++ "/" ++ name ++ "/" ++
        scenarioManifestFile).utf8ByteSize < MergesSlashes.limit W) :
    SameOutcome (paths.scenarioManifest home (seen world) name)
      (other.scenarioManifest home (seen world) name) := by
  let root := expandTilde home other.scenarioRoot
  -- Both paths that are asked about stand behind a slash and are no longer than the manifest's.
  have hbehind : ∀ back : String,
      back.utf8ByteSize ≤ (name ++ "/" ++ scenarioManifestFile).utf8ByteSize →
        seen world (root ++ slashes count ++ "/" ++ back) = seen world (root ++ "/" ++ back) := by
    intro back hback
    obtain rfl | hshort := short
    · have hnone : root ++ slashes 0 = root := String.append_empty
      rw [hnone]
    · apply seen_slashes
      have hroots : expandTilde home paths.scenarioRoot = root ++ slashes count := roots
      rw [hroots] at hshort
      simp only [String.utf8ByteSize_append] at hshort hback ⊢
      omega
  have hdir :
      seen world (paths.scenarioDir home name) = seen world (other.scenarioDir home name) := by
    unfold scenarioDir
    rw [roots]
    apply hbehind
    simp only [String.utf8ByteSize_append]
    omega
  have hfile : seen world (paths.scenarioFile home name) =
      seen world (other.scenarioFile home name) := by
    rw [scenarioFile_eq, scenarioFile_eq, roots]
    exact hbehind _ (utf8ByteSize_manifestBehind_le name)
  have hsameDir : denoted (paths.scenarioDir home name) =
      denoted (other.scenarioDir home name) := by
    unfold scenarioDir
    rw [roots]
    exact denoted_slashes root name count
  have hsameFile : denoted (paths.scenarioFile home name) =
      denoted (other.scenarioFile home name) := by
    rw [scenarioFile_eq, scenarioFile_eq, roots]
    exact denoted_slashes root _ count
  unfold scenarioManifest
  rw [hdir, hfile]
  split
  · exact .scenarioNotFound hsameDir
  · split
    · exact .missingManifest hsameFile
    · exact .found hsameFile

end ResourceAssembler.TargetPaths
