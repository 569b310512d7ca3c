import Mathlib.Data.List.Induction
import Mathlib.Logic.Function.Basic
import ResourceAssembler.Proofs.Settings.Seen

/-!
# Choosing the paths of a build

The destination, the scenario root and the source root of a build are chosen one at a time, in any
order and any number of times. The last choice of each decides, whatever was chosen before. Whatever
is chosen, the roots are kept without a slash at the end, so that a root, a slash and a name can be
told apart again by the last slash.
-/

namespace ResourceAssembler

open Paths

/-- What is chosen about the paths of a build. -/
inductive PathRole where
  | destination
  | scenarioRoot
  | sourceRoot
deriving DecidableEq, Repr

/-- A path chosen for a role. -/
structure PathChoice where
  role : PathRole
  path : String
deriving DecidableEq, Repr

/-- The path that was chosen last for a role. -/
def lastPath? (choices : List PathChoice) (role : PathRole) : Option String :=
  (choices.reverse.find? (·.role = role)).map (·.path)

theorem lastPath?_concat (choices : List PathChoice) (choice : PathChoice) :
    lastPath? (choices ++ [choice]) =
      Function.update (lastPath? choices) choice.role (some choice.path) := by
  funext role
  unfold lastPath?
  rw [List.reverse_concat, List.find?_cons, Function.update_apply]
  by_cases h : choice.role = role
  · simp [h]
  · simp [h, Ne.symm h]

namespace TargetPaths

/-- The paths with one more choice made, given what paths lead to. -/
def choose (look : Look) (paths : TargetPaths) (choice : PathChoice) : TargetPaths :=
  match choice.role with
  | .destination => paths.setDestination look choice.path
  | .scenarioRoot => paths.setScenarioRoot choice.path
  | .sourceRoot => paths.setSourceRoot choice.path

/-- The paths after a row of choices. -/
def chosen (look : Look) (choices : List PathChoice) : TargetPaths :=
  choices.foldl (choose look) {}

/-- The paths for one path at most for each role. -/
def settled (look : Look) (last : PathRole → Option String) : TargetPaths :=
  let destined := (last .destination).elim {} (({} : TargetPaths).setDestination look)
  { destined with
    scenarioRoot := (last .scenarioRoot).elim "." trimEnd
    sourceRoot :=
      (last .sourceRoot).elim "." fun path => (({} : TargetPaths).setSourceRoot path).sourceRoot }

variable {look : Look}

theorem chosen_append (front back : List PathChoice) :
    chosen look (front ++ back) = back.foldl (choose look) (chosen look front) :=
  List.foldl_append

theorem chosen_concat (choices : List PathChoice) (choice : PathChoice) :
    chosen look (choices ++ [choice]) = (chosen look choices).choose look choice :=
  chosen_append choices [choice]

/-- A destination is set in the same way whatever the paths were, and
leaves the other roots alone. -/
theorem setDestination_eq (paths : TargetPaths) (look : Look) (path : String) :
    paths.setDestination look path =
      { ({} : TargetPaths).setDestination look path with
        sourceRoot := paths.sourceRoot, scenarioRoot := paths.scenarioRoot } := by
  cases h : look path with
  | file => rw [setDestination_of_file h, setDestination_of_file h]
  | dir => rw [setDestination_of_dir h, setDestination_of_dir h]
  | absent => rw [setDestination_of_absent h, setDestination_of_absent h]

/-- A choice takes the place of the earlier one for its role. -/
theorem choose_settled (last : PathRole → Option String) (choice : PathChoice) :
    (settled look last).choose look choice =
      settled look (Function.update last choice.role (some choice.path)) := by
  obtain ⟨role, path⟩ := choice
  cases role with
  | destination =>
      rw [choose, setDestination_eq]
      rfl
  | scenarioRoot => rfl
  | sourceRoot => rfl

theorem chosen_eq_settled (look : Look) (choices : List PathChoice) :
    chosen look choices = settled look (lastPath? choices) := by
  induction choices using List.reverseRecOn with
  | nil => rfl
  | append_singleton choices choice ih =>
      rw [chosen_concat, ih, choose_settled, lastPath?_concat]

/-- Choices for different roles can be made in either order. -/
theorem choose_comm {first second : PathChoice} (h : first.role ≠ second.role)
    (choices : List PathChoice) :
    ((chosen look choices).choose look first).choose look second =
      ((chosen look choices).choose look second).choose look first := by
  rw [chosen_eq_settled, choose_settled, choose_settled, choose_settled, choose_settled,
    Function.update_comm h]

/-! ## Roots without a slash at the end -/

/-- All roots are kept without a slash at the end. -/
structure Trimmed (paths : TargetPaths) : Prop where
  destinationRoot : endsWithSlash paths.destinationRoot = false
  scenarioRoot : endsWithSlash paths.scenarioRoot = false
  sourceRoot : endsWithSlash paths.sourceRoot = false

theorem endsWithSlash_sourceRoot (paths : TargetPaths) (path : String) :
    endsWithSlash (paths.setSourceRoot path).sourceRoot = false := by
  simp only [setSourceRoot]
  exact endsWithSlash_trimEnd _

theorem trimmed_settled (look : Look) (last : PathRole → Option String) :
    (settled look last).Trimmed := by
  constructor
  case destinationRoot =>
    simp only [settled]
    cases last .destination with
    | none => exact (by decide : endsWithSlash "." = false)
    | some path => exact endsWithSlash_destinationRoot {} look path
  case scenarioRoot =>
    simp only [settled]
    cases last .scenarioRoot with
    | none => exact (by decide : endsWithSlash "." = false)
    | some path => exact endsWithSlash_trimEnd path
  case sourceRoot =>
    simp only [settled]
    cases last .sourceRoot with
    | none => exact (by decide : endsWithSlash "." = false)
    | some path => exact endsWithSlash_sourceRoot {} path

/-! ## Choices on a host -/

/-- Makes a choice, asking the host where an answer is needed. -/
def chooseOn {m : Type → Type} [Monad m] [Host m] (paths : TargetPaths) (choice : PathChoice) :
    m TargetPaths :=
  match choice.role with
  | .destination => paths.resolveDestination choice.path
  | .scenarioRoot => pure (paths.setScenarioRoot choice.path)
  | .sourceRoot => pure (paths.setSourceRoot choice.path)

/-- On a steady world, choices lead to the paths for what is seen there, and
leave the world as it is. -/
theorem runOn_chooseOn {W : Type} [Host (StateM W)] [Steady W] (choices : List PathChoice)
    (paths : TargetPaths) (world : W) :
    runOn (choices.foldlM chooseOn paths) world =
      (choices.foldl (choose (seen world)) paths, world) := by
  induction choices generalizing paths with
  | nil => rfl
  | cons choice rest ih =>
      have hstep : runOn (chooseOn paths choice) world =
          (paths.choose (seen world) choice, world) := by
        obtain ⟨role, path⟩ := choice
        cases role with
        | destination => exact runOn_resolveDestination paths path world
        | scenarioRoot => rfl
        | sourceRoot => rfl
      rw [List.foldlM_cons, runOn_bind_of hstep, ih, List.foldl_cons]

/-- The paths of a build after any choices, whatever paths lead to. They are the paths for the last
choices alone, so that choices with the same last path for each role lead to the same paths, and
neighbouring choices for different roles can change places. Choices made on a steady world lead to
the paths for what is seen there. No root ends in a slash. The path of an artifact has its root in
front of its last slash, and behind that its file name with the extension of the format. -/
theorem last_choices_decide (look : Look) (choices : List PathChoice) :
    let paths := chosen look choices
    paths = settled look (lastPath? choices) ∧
      (∀ others, (∀ role, lastPath? others role = lastPath? choices role) →
        chosen look others = paths) ∧
      (∀ first second behind, first.role ≠ second.role →
        chosen look (choices ++ first :: second :: behind) =
          chosen look (choices ++ second :: first :: behind)) ∧
      (∀ (W : Type) [Host (StateM W)] [Steady W] (world : W), seen world = look →
        runOn (choices.foldlM chooseOn {}) world = (paths, world)) ∧
      endsWithSlash paths.destinationRoot = false ∧ endsWithSlash paths.sourceRoot = false ∧
      endsWithSlash paths.scenarioRoot = false ∧
      ∀ file format, '/' ∉ file.toList →
        let artifact := artifactPath paths.destinationRoot file format
        splitLast artifact =
            (paths.destinationRoot ++ "/", file ++ "." ++ format.extension) ∧
          ∀ front name, artifact = front ++ "/" ++ name ∧ '/' ∉ name.toList ↔
            front = paths.destinationRoot ∧ name = file ++ "." ++ format.extension := by
  intro paths
  have hpaths : paths = settled look (lastPath? choices) := chosen_eq_settled look choices
  obtain ⟨hdestination, hscenario, hsource⟩ := trimmed_settled look (lastPath? choices)
  rw [← hpaths] at hdestination hscenario hsource
  refine ⟨hpaths, ?last, ?order, ?world, hdestination, hsource, hscenario, ?artifact⟩
  case last =>
    intro others h
    rw [chosen_eq_settled, funext h, ← chosen_eq_settled]
  case order =>
    intro first second behind h
    rw [chosen_append, chosen_append, List.foldl_cons, List.foldl_cons, List.foldl_cons,
      List.foldl_cons, choose_comm h]
  case world =>
    rintro W _ _ world rfl
    exact runOn_chooseOn choices {} world
  case artifact =>
    intro file format hfile artifact
    have hpath : artifact = paths.destinationRoot ++ "/" ++ (file ++ "." ++ format.extension) :=
      artifactPath_eq hdestination file format
    have hname := not_mem_artifactName hfile format
    rw [hpath]
    refine ⟨splitLast_append_slash_append hname _, fun front name => ⟨?_, ?_⟩⟩
    · rintro ⟨hsame, hslash⟩
      exact eq_and_eq_of_append_slash hslash hname hsame.symm
    · rintro ⟨rfl, rfl⟩
      exact ⟨rfl, hname⟩

/-- Choices for a sketch without the directory "dist", some of them made twice. -/
theorem last_choices_decide_at_dist :
    let look := (Sketch.ofPaths ["out"] ["out/app"] none).look
    let choices : List PathChoice :=
      [⟨.sourceRoot, "/proj/main.kdl"⟩, ⟨.destination, "out/app"⟩, ⟨.scenarioRoot, "~//"⟩,
        ⟨.destination, "dist//app"⟩, ⟨.sourceRoot, "/"⟩]
    let others : List PathChoice :=
      [⟨.scenarioRoot, "~//"⟩, ⟨.sourceRoot, "/"⟩, ⟨.destination, "dist//app"⟩]
    (∀ role, lastPath? others role = lastPath? choices role) ∧
      chosen look others = chosen look choices ∧ '/' ∉ "swan".toList ∧
      splitLast (artifactPath (chosen look choices).destinationRoot "swan" .rez) =
        ("dist/", "swan.rez") := by
  intro look choices others
  have hlast : ∀ role, lastPath? others role = lastPath? choices role := by
    intro role
    cases role <;> decide
  have hname : '/' ∉ "swan".toList := by decide
  obtain ⟨-, hothers, -, -, -, -, -, hartifact⟩ := last_choices_decide look choices
  refine ⟨hlast, hothers others hlast, hname, ?_⟩
  rw [(hartifact "swan" .rez hname).1]
  decide

end TargetPaths

end ResourceAssembler
