import ResourceAssembler.Proofs.Paths.Home
import ResourceAssembler.Settings

/-!
# Where the paths of a manifest lead

A path in a manifest is taken from the project directory, unless it starts at the home directory or
at the top. Any path that starts with "~" is handed over to have the home directory put in. So one
that names something else behind "~" is left as it is: it stays relative, and where it leads depends
on the directory that a build is started in.
-/

namespace ResourceAssembler

open Paths

/-- What a path means in the manifest of a project directory. -/
def manifestMeaning (home projectDir path : String) : String :=
  if startsAtHome path then home ++ String.ofList (path.toList.drop 1)
  else if isAbsolute path then path
  else join projectDir path

/-- Whether something else than the home directory starts with the "~" of a path. -/
def isStrayTilde (path : String) : Bool :=
  startsWith path "~" && !startsAtHome path

variable {home projectDir : String}

theorem manifestMeaning_of_startsAtHome {path : String} (h : startsAtHome path = true) :
    manifestMeaning home projectDir path = expandTilde (some home) path := by
  obtain ⟨rest, rfl, hrest⟩ := startsAtHome_iff.mp h
  rw [manifestMeaning, if_pos h, expandTilde_append home hrest]
  simp

theorem startsWith_tilde_of_startsAtHome {path : String} (h : startsAtHome path = true) :
    startsWith path "~" = true := by
  obtain ⟨rest, rfl, -⟩ := startsAtHome_iff.mp h
  simp [startsWith]

theorem isAbsolute_of_startsWith_tilde {path : String} (h : startsWith path "~" = true) :
    isAbsolute path = false := by
  obtain ⟨rest, hrest⟩ := List.isPrefixOf_iff_prefix.mp h
  simp [isAbsolute, ← hrest]

/-- With a home and a project directory from the top, whatever is meant starts at the top. -/
theorem isAbsolute_manifestMeaning (hhome : isAbsolute home = true)
    (hdir : isAbsolute projectDir = true) (path : String) :
    isAbsolute (manifestMeaning home projectDir path) = true := by
  unfold manifestMeaning
  split
  case isTrue => exact isAbsolute_append_of_isAbsolute hhome _
  case isFalse =>
    split
    case isTrue habsolute => exact habsolute
    case isFalse hrelative =>
      rw [isAbsolute_join (Bool.eq_false_iff.mpr hrelative), hdir]

/-- A path of a manifest is resolved to what it means, except that a stray "~" is left as it is. -/
theorem projectRelative_eq (home projectDir path : String) :
    projectRelative (some home) projectDir path =
      if isStrayTilde path then path else manifestMeaning home projectDir path := by
  unfold projectRelative isStrayTilde
  cases hhome : startsAtHome path with
  | true =>
      rw [if_pos (startsWith_tilde_of_startsAtHome hhome), manifestMeaning_of_startsAtHome hhome]
      simp
  | false =>
      cases htilde : startsWith path "~" with
      | true =>
          rw [if_pos rfl, expandTilde_of_startsAtHome_eq_false hhome]
          rfl
      | false => simp [manifestMeaning, hhome]

/-- The settings that are paths. -/
inductive PathSetting where
  | input
  | output
  | scenarios

namespace PathSetting

/-- The path that is asked for, on the command line or in a manifest. -/
def asked : PathSetting → BuildOptions → Option String
  | input => (·.input)
  | output => (·.output)
  | scenarios => (·.scenarios)

/-- The path that a build works with. -/
def settled : PathSetting → BuildSettings → Option String
  | input => (some ·.input)
  | output => (·.output)
  | scenarios => (·.scenarios)

end PathSetting

namespace BuildSettings

variable {home : Option String} {options : BuildOptions} {manifest : Manifest}

/-- Every path is settled in the same way. -/
theorem settled_of_resolve {manifest : Option Manifest} {settings : BuildSettings}
    (h : resolve home options manifest projectDir = .ok settings) (setting : PathSetting) :
    let default : BuildOptions := (manifest.map Manifest.build).getD {}
    setting.settled settings =
      ((setting.asked options).map (expandTilde home)).or
        ((setting.asked default).map (projectRelative home projectDir)) := by
  intro default
  unfold resolve at h
  dsimp only at h
  split at h
  case h_1 => cases h
  case h_2 input hinput =>
    cases h
    cases setting with
    | input => exact hinput.symm
    | output => rfl
    | scenarios => rfl

/-- Settings are resolved exactly when an input is asked for somewhere. -/
theorem exists_resolve_eq_ok_iff :
    (∃ settings, resolve home options (some manifest) projectDir = .ok settings) ↔
      options.input.isSome ∨ manifest.build.input.isSome := by
  unfold resolve
  dsimp only [Option.map_some, Option.getD_some]
  cases options.input with
  | some input => exact ⟨fun _ => .inl rfl, fun _ => ⟨_, rfl⟩⟩
  | none =>
      cases manifest.build.input with
      | some input => exact ⟨fun _ => .inr rfl, fun _ => ⟨_, rfl⟩⟩
      | none =>
          constructor
          · rintro ⟨settings, h⟩
            cases h
          · rintro (h | h) <;> cases h

/-- Where a path of a manifest leads that no option overrides, for the input, the output and the
root of the scenarios alike. What it means starts at the top. It is settled as what it means, unless
its "~" is a stray one. Then it is left as it is, which is a relative path. -/
theorem manifest_path_settled {home : String} (hhome : isAbsolute home = true)
    (hdir : isAbsolute projectDir = true) (setting : PathSetting) {path : String}
    (free : setting.asked options = none) (given : setting.asked manifest.build = some path) :
    let resolved := resolve (some home) options (some manifest) projectDir
    let meaning := manifestMeaning home projectDir path
    let value := if isStrayTilde path then path else meaning
    ((∃ settings, resolved = .ok settings) ↔
        options.input.isSome ∨ manifest.build.input.isSome) ∧
      (∀ settings, resolved = .ok settings → setting.settled settings = some value) ∧
      isAbsolute meaning = true ∧
      (value = meaning ↔ isStrayTilde path = false) ∧
      (isAbsolute value = true ↔ isStrayTilde path = false) := by
  intro resolved meaning value
  have hmeaning : isAbsolute meaning = true := isAbsolute_manifestMeaning hhome hdir path
  have hvalue : isAbsolute value = true ↔ isStrayTilde path = false := by
    cases hstray : isStrayTilde path with
    | false => simp [value, hstray, hmeaning]
    | true =>
        have htilde : startsWith path "~" = true := by
          unfold isStrayTilde at hstray
          exact (Bool.and_eq_true_iff.mp hstray).1
        simp [value, hstray, isAbsolute_of_startsWith_tilde htilde]
  refine ⟨exists_resolve_eq_ok_iff, ?_, hmeaning, ?_, hvalue⟩
  · intro settings hsettings
    have hpath := settled_of_resolve hsettings setting
    dsimp only [Option.map_some, Option.getD_some] at hpath
    rw [hpath, free, given, Option.map_none, Option.none_or, Option.map_some, projectRelative_eq]
  · constructor
    · intro hsame
      exact hvalue.mp (hsame ▸ hmeaning)
    · intro hplain
      simp [value, hplain]

/-- The path "~user/main.kdl" is not the home directory's. It stays relative, and so it is looked
for wherever a build is started, not in the project directory. -/
theorem stray_tilde_stays_relative :
    let manifest : Manifest :=
      { project := { name := "t" }, build := { input := some "~user/main.kdl" } }
    isAbsolute "/home/kestrel" = true ∧ isAbsolute "/proj" = true ∧
      ((resolve (some "/home/kestrel") {} (some manifest) "/proj").toOption.map (·.input) =
        some "~user/main.kdl") ∧
      isAbsolute "~user/main.kdl" = false ∧
      manifestMeaning "/home/kestrel" "/proj" "~user/main.kdl" = "/proj/~user/main.kdl" := by
  decide

theorem manifest_path_settled_under_home :
    let manifest : Manifest :=
      { project := { name := "t" }, build := { input := some "~/main.kdl" } }
    isAbsolute "/home/kestrel" = true ∧ isAbsolute "/proj" = true ∧
      ∃ settings, resolve (some "/home/kestrel") {} (some manifest) "/proj" = .ok settings ∧
        PathSetting.input.settled settings = some "/home/kestrel/main.kdl" := by
  intro manifest
  have hhome : isAbsolute "/home/kestrel" = true := by decide
  have hdir : isAbsolute "/proj" = true := by decide
  have hfree : PathSetting.input.asked {} = none := rfl
  have hgiven : PathSetting.input.asked manifest.build = some "~/main.kdl" := rfl
  obtain ⟨hresolved, hsettled, -⟩ := manifest_path_settled hhome hdir .input hfree hgiven
  obtain ⟨settings, hsettings⟩ := hresolved.mpr (.inr rfl)
  exact ⟨hhome, hdir, settings, hsettings, hsettled settings hsettings⟩

end BuildSettings

end ResourceAssembler
