import ResourceAssembler.Host.Disk
import ResourceAssembler.Host.Sketch
import ResourceAssembler.Proofs.Outcome
import ResourceAssembler.Proofs.Paths.Splitting
import ResourceAssembler.Target.Paths

/-!
# Where a destination leads

A destination is taken apart into a root and a file name, by what is found there. Put together
again, root and file name lead where the destination leads. A destination that names a directory has
no file name of its own, and then the root alone leads there.
-/

namespace ResourceAssembler

open Outcome Paths

/-! ## What paths lead to -/

/-- Answers as file systems give them: the empty path leads nowhere, and a path that ends in
a slash leads to no file. -/
structure Look.Regular (look : Look) : Prop where
  empty : look "" = .absent
  slash {path : String} (h : endsWithSlash path = true) : look path ≠ .file

/-- A sketch answers like this, whatever stands in it. -/
theorem Sketch.regular_look (sketch : Sketch) : sketch.look.Regular where
  empty := rfl
  slash {path} h := by
    unfold look
    cases key? path with
    | none => exact fun hfile => by cases hfile
    | some key =>
        dsimp only
        rw [h, Bool.not_true, Bool.and_false, if_neg Bool.false_ne_true]
        split
        · exact fun hfile => by cases hfile
        · exact fun hfile => by cases hfile

/-- So does a disk: the walk along a path that ends in a slash refuses a file at its end. -/
theorem Disk.regular_look (disk : Disk) : disk.look.Regular where
  empty := rfl
  slash {path} h := by
    unfold look
    cases hstatus : disk.status path with
    | error fault => exact fun hfile => by cases hfile
    | ok found =>
        obtain ⟨place, entry⟩ := found
        cases entry with
        | dir => exact fun hfile => by cases hfile
        | file content =>
            obtain ⟨⟨start, pieces⟩, -, hwalked⟩ := bind_eq_ok_iff.mp hstatus
            obtain ⟨reached, -, hentry⟩ := bind_eq_ok_iff.mp hwalked
            rw [h] at hentry
            split at hentry
            · exact absurd hentry throw_ne_ok
            · cases hentry
            · exact absurd hentry throw_ne_ok

/-! ## Names of artifacts -/

theorem not_mem_artifactName {file : String} (h : '/' ∉ file.toList) (format : Format) :
    '/' ∉ (file ++ "." ++ format.extension).toList := by
  cases format <;> simp [Format.extension, h]

/-- Behind a root without a slash at the end, the name of an artifact stands behind one slash. -/
theorem artifactPath_eq {root : String} (h : endsWithSlash root = false) (file : String)
    (format : Format) :
    artifactPath root file format = root ++ "/" ++ (file ++ "." ++ format.extension) := by
  rw [artifactPath, h, if_neg Bool.false_ne_true]
  simp only [String.append_assoc]

/-! ## Root and file name -/

namespace TargetPaths

variable {look : Look} {path : String}

theorem rootToProbe_splitLast (path : String) :
    rootToProbe (splitLast path).1 = directory path := by
  have hroot : (splitLast path).1.isEmpty = false := by simpa using splitLast_fst_ne_empty path
  simp [rootToProbe, directory, hroot]

theorem setDestination_of_file (h : look path = .file) (paths : TargetPaths) :
    paths.setDestination look path =
      { paths with
        destinationRoot := trimEnd (splitLast path).1
        destinationFile := (splitLast path).2
        createDestination := false } := by
  simp only [setDestination, h]

theorem setDestination_of_dir (h : look path = .dir) (paths : TargetPaths) :
    paths.setDestination look path =
      { paths with
        destinationRoot := trimEnd path
        destinationFile := defaultFile
        createDestination := false } := by
  simp only [setDestination, h]

theorem setDestination_of_absent (h : look path = .absent) (paths : TargetPaths) :
    paths.setDestination look path =
      { paths with
        destinationRoot := trimEnd (splitLast path).1
        destinationFile := if (splitLast path).2 = "" then defaultFile else (splitLast path).2
        createDestination := look (directory path) ≠ .dir } := by
  simp only [setDestination, h, rootToProbe_splitLast, String.isEmpty_iff]

/-- A file has a file name. -/
theorem splitLast_snd_ne_empty (regular : look.Regular) (h : look path = .file) :
    (splitLast path).2 ≠ "" := by
  intro hname
  obtain rfl | ⟨-, hslash⟩ := splitLast_of_snd_eq_empty hname
  · rw [regular.empty] at h
    cases h
  · exact regular.slash hslash h

/-- Without a file name, what is kept of the directory part is the whole path,
or the working directory. -/
theorem denoted_of_snd_eq_empty (h : (splitLast path).2 = "") :
    denoted (trimEnd (splitLast path).1 ++ "/") = denoted path := by
  have hwhole := denoted_splitLast path
  rwa [h, String.append_empty] at hwhole

theorem endsWithSlash_destinationRoot (paths : TargetPaths) (look : Look) (path : String) :
    endsWithSlash (paths.setDestination look path).destinationRoot = false := by
  cases h : look path with
  | file =>
      rw [setDestination_of_file h]
      exact endsWithSlash_trimEnd _
  | dir =>
      rw [setDestination_of_dir h]
      exact endsWithSlash_trimEnd _
  | absent =>
      rw [setDestination_of_absent h]
      exact endsWithSlash_trimEnd _

theorem not_mem_destinationFile (paths : TargetPaths) (look : Look) (path : String) :
    '/' ∉ (paths.setDestination look path).destinationFile.toList := by
  have hdefault : '/' ∉ defaultFile.toList := by decide
  cases h : look path with
  | file =>
      rw [setDestination_of_file h]
      exact not_mem_splitLast path
  | dir =>
      rw [setDestination_of_dir h]
      exact hdefault
  | absent =>
      rw [setDestination_of_absent h]
      dsimp only
      split
      · exact hdefault
      · exact not_mem_splitLast path

theorem destinationFile_ne_empty (regular : look.Regular) (paths : TargetPaths) (path : String) :
    (paths.setDestination look path).destinationFile ≠ "" := by
  have hdefault : defaultFile ≠ "" := by decide
  cases h : look path with
  | file =>
      rw [setDestination_of_file h]
      exact splitLast_snd_ne_empty regular h
  | dir =>
      rw [setDestination_of_dir h]
      exact hdefault
  | absent =>
      rw [setDestination_of_absent h]
      dsimp only
      split
      case isTrue => exact hdefault
      case isFalse hname => exact hname

theorem createDestination_iff (paths : TargetPaths) (look : Look) (path : String) :
    (paths.setDestination look path).createDestination = true ↔
      look path = .absent ∧ look (directory path) ≠ .dir := by
  cases h : look path with
  | file =>
      rw [setDestination_of_file h]
      simp
  | dir =>
      rw [setDestination_of_dir h]
      simp
  | absent =>
      rw [setDestination_of_absent h]
      simp

/-- A root that is to be created is the directory of the destination, which is not the top. -/
theorem destinationRoot_of_createDestination {paths : TargetPaths} (top : look "/" = .dir)
    (h : (paths.setDestination look path).createDestination = true) :
    (paths.setDestination look path).destinationRoot = directory path := by
  obtain ⟨hmissing, hdirectory⟩ := (createDestination_iff paths look path).mp h
  rw [setDestination_of_absent hmissing]
  dsimp only
  rw [directory] at hdirectory ⊢
  split at hdirectory
  case isTrue => exact absurd top hdirectory
  case isFalse hroot => rw [if_neg hroot]

/-- Whatever a destination is and whatever is found there. If it is a file, or missing with a name
behind its last slash, then a slash between root and file name makes them denote the destination.
Otherwise the file name is the usual one, and the root with a slash denotes the destination. The
root never ends in a slash and the file name is one, and a directory is to be created exactly for a
missing destination that does not lie in one. -/
theorem destination_rejoins (regular : look.Regular) (paths : TargetPaths) (path : String) :
    let resolved := paths.setDestination look path
    let root := resolved.destinationRoot
    let file := resolved.destinationFile
    let named := look path = .file ∨ look path = .absent ∧ (splitLast path).2 ≠ ""
    (named → denoted (root ++ "/" ++ file) = denoted path) ∧
      (¬named → file = "result" ∧ denoted (root ++ "/") = denoted path) ∧
      endsWithSlash root = false ∧ file ≠ "" ∧ '/' ∉ file.toList ∧
      (resolved.createDestination = true ↔
        look path = .absent ∧ look (directory path) ≠ .dir) := by
  intro resolved root file named
  refine ⟨?_, ?_, endsWithSlash_destinationRoot paths look path,
    destinationFile_ne_empty regular paths path, not_mem_destinationFile paths look path,
    createDestination_iff paths look path⟩
  · rintro (hfound | ⟨hmissing, hname⟩)
    · have hresolved : resolved = _ := setDestination_of_file hfound paths
      simp only [root, file, hresolved, denoted_splitLast]
    · have hresolved : resolved = _ := setDestination_of_absent hmissing paths
      simp only [root, file, hresolved, if_neg hname, denoted_splitLast]
  · intro hunnamed
    cases hfound : look path with
    | file => exact absurd (.inl hfound) hunnamed
    | dir =>
        have hresolved : resolved = _ := setDestination_of_dir hfound paths
        have hthere : path ≠ "" := by
          rintro rfl
          rw [regular.empty] at hfound
          cases hfound
        simp only [root, file, hresolved, denoted_trimEnd_append_slash hthere, defaultFile,
          and_self]
    | absent =>
        have hname : (splitLast path).2 = "" := by
          by_contra hne
          exact hunnamed (.inr ⟨hfound, hne⟩)
        have hresolved : resolved = _ := setDestination_of_absent hfound paths
        simp only [root, file, hresolved, if_pos hname, denoted_of_snd_eq_empty hname, defaultFile,
          and_self]

/-- A sketch without the directory "dist": the file "app" is to be written to it, whichever number
of slashes stands in front of its name. -/
theorem destination_rejoins_at_dist :
    let look := (Sketch.ofPaths ["out"] ["out/app"] none).look
    let resolved := ({} : TargetPaths).setDestination look "dist//app"
    look.Regular ∧ look "dist//app" = .absent ∧ (splitLast "dist//app").2 ≠ "" ∧
      resolved.destinationRoot = "dist" ∧ resolved.destinationFile = "app" ∧
      denoted ("dist" ++ "/" ++ "app") = denoted "dist//app" ∧
      resolved.createDestination = true := by
  intro look resolved
  have hregular := Sketch.regular_look (.ofPaths ["out"] ["out/app"] none)
  have hmissing : look "dist//app" = .absent := by decide
  have hname : (splitLast "dist//app").2 ≠ "" := by decide
  have hroot : resolved.destinationRoot = "dist" := by decide
  have hfile : resolved.destinationFile = "app" := by decide
  obtain ⟨hrejoins, -, -, -, -, hcreate⟩ := destination_rejoins hregular {} "dist//app"
  have hdenotes := hrejoins (.inr ⟨hmissing, hname⟩)
  refine ⟨hregular, hmissing, hname, hroot, hfile, ?_, hcreate.mpr ⟨hmissing, by decide⟩⟩
  rwa [← hroot, ← hfile]

end TargetPaths

end ResourceAssembler
