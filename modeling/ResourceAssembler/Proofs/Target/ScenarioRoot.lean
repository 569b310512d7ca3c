import ResourceAssembler.Proofs.Paths.Home
import ResourceAssembler.Proofs.Paths.Splitting
import ResourceAssembler.Target.Paths

/-!
# Where scenarios are looked for

The slashes at the end of a scenario root are taken off before the home directory is put in, and one
slash is put in front of the name of a scenario. That changes no root but the empty one, which
stands for the working directory and comes to stand for the top.
-/

namespace ResourceAssembler

open Paths

namespace TargetPaths

variable {home : Option String} {path : String}

/-- With a slash behind it, the root that is kept denotes what the given one does with the home
directory put in, unless the given one is empty. -/
theorem denoted_scenarioRoot (absolute : ∀ dir ∈ home, isAbsolute dir = true) (h : path ≠ "")
    (paths : TargetPaths) :
    denoted (expandTilde home (paths.setScenarioRoot path).scenarioRoot ++ "/") =
      denoted (expandTilde home path) := by
  have hkept : (paths.setScenarioRoot path).scenarioRoot = trimEnd path := rfl
  obtain ⟨count, hpath⟩ := exists_eq_trimEnd_append_slashes path
  have hexpanded : expandTilde home path = expandTilde home (trimEnd path) ++ slashes count := by
    rw [← expandTilde_append_slashes, ← hpath]
  rw [hkept]
  cases count with
  | zero =>
      have hsame : path = trimEnd path := hpath.trans String.append_empty
      rw [← hsame, denoted_append_slash (expandTilde_ne_empty absolute h)]
  | succ count => rw [hexpanded, denoted_append_slashes]

theorem scenarioManifest_eq_notFound_iff {paths : TargetPaths} {look : Look} {name : String} :
    paths.scenarioManifest home look name =
      .error (.scenarioNotFound name (paths.scenarioDir home name)) ↔
      look (paths.scenarioDir home name) ≠ .dir := by
  unfold scenarioManifest
  split
  case isTrue hmissing => exact iff_of_true rfl hmissing
  case isFalse hfound =>
    refine iff_of_false ?_ hfound
    split
    · simp
    · simp

/-- Where a scenario is looked for, under every scenario root and with every home directory that
starts at the top. The directory that is asked about denotes the root with the home directory put
in, and the name under it. Only the empty root, which denotes the working directory, makes the name
be looked for from the top. -/
theorem scenario_dir_denotes (absolute : ∀ dir ∈ home, isAbsolute dir = true) (paths : TargetPaths)
    (path name : String) :
    let root := expandTilde home path
    let kept := paths.setScenarioRoot path
    let dir := kept.scenarioDir home name
    (∀ look, kept.scenarioManifest home look name = .error (.scenarioNotFound name dir) ↔
        look dir ≠ .dir) ∧
      (path ≠ "" → denoted dir = (denoted root).under name) ∧
      (path = "" → denoted dir = ⟨true, segments name⟩ ∧ denoted root = ⟨false, []⟩) ∧
      ((denoted dir).absolute = true ↔ isAbsolute root = true ∨ path = "") := by
  intro root kept dir
  have hthere : path ≠ "" → denoted dir = (denoted root).under name := by
    intro h
    rw [← denoted_scenarioRoot absolute h paths]
    exact denoted_append_slash_append _ name
  have hnone : path = "" → denoted dir = ⟨true, segments name⟩ ∧ denoted root = ⟨false, []⟩ := by
    rintro rfl
    have hroot : root = "" := expandTilde_of_startsAtHome_eq_false rfl home
    have hdir : dir = "" ++ "/" ++ name := congrArg (· ++ "/" ++ name) hroot
    have hslash : denoted ("" ++ "/") = ⟨true, []⟩ := by decide
    rw [hdir, denoted_append_slash_append, hslash, hroot]
    exact ⟨rfl, rfl⟩
  refine ⟨fun look => scenarioManifest_eq_notFound_iff, hthere, hnone, ?_⟩
  by_cases hempty : path = ""
  · simp [hempty, (hnone hempty).1]
  · rw [hthere hempty]
    simp [hempty, Denoted.under, denoted]

/-- With the empty scenario root, "space" is looked for at the top instead of
in the working directory. -/
theorem empty_root_leads_to_top :
    let kept := ({} : TargetPaths).setScenarioRoot ""
    kept.scenarioDir (some "/home/kestrel") "space" = "/space" ∧
      (denoted (kept.scenarioDir (some "/home/kestrel") "space")).absolute = true ∧
      isAbsolute (expandTilde (some "/home/kestrel") "") = false ∧
      denoted (kept.scenarioDir (some "/home/kestrel") "space") ≠
        (denoted (expandTilde (some "/home/kestrel") "")).under "space" := by
  decide

/-- Below the home directory two slashes and a name behind them lead where one does. -/
theorem scenario_dir_denotes_at_home :
    (∀ dir ∈ some "/home/kestrel/", isAbsolute dir = true) ∧ "~//" ≠ "" ∧
      denoted
          ((({} : TargetPaths).setScenarioRoot "~//").scenarioDir (some "/home/kestrel/") "space") =
        ⟨true, ["home", "kestrel", "space"]⟩ := by
  have habsolute : ∀ dir ∈ some "/home/kestrel/", isAbsolute dir = true := by decide
  have hthere : "~//" ≠ "" := by decide
  obtain ⟨-, hdenotes, -, -⟩ := scenario_dir_denotes habsolute {} "~//" "space"
  refine ⟨habsolute, hthere, ?_⟩
  rw [hdenotes hthere]
  decide

end TargetPaths

end ResourceAssembler
