import ResourceAssembler.Proofs.Command.Run
import ResourceAssembler.Proofs.Host.FileTree

/-!
# Work that leaves a world as it is

A condition on worlds lasts if no question ends it. Work maintains such a condition, and a
command upholds it, if it holds afterwards whatever is found and whether or not anything
fails. A command that upholds a condition also prints nothing. What is known of the result
goes along with it, so that the next step can rely on it. A command keeps the files of a world
if their tree is left as it was.
-/

namespace ResourceAssembler

open FileTree (Place tree)

variable {W α β : Type} {fixed : W → Prop}

/-- Started on a world of which the condition holds, the work maintains
it and gives a good result. -/
def Maintains (fixed : W → Prop) (work : StateM W α) (good : α → Prop) : Prop :=
  ∀ world, fixed world → fixed (runOn work world).2 ∧ good (runOn work world).1

theorem maintains_pure {a : α} {good : α → Prop} (h : good a) : Maintains fixed (pure a) good :=
  fun _ hfixed => ⟨hfixed, h⟩

theorem Maintains.bind {work : StateM W α} {next : α → StateM W β} {fine : α → Prop}
    {good : β → Prop} (hwork : Maintains fixed work fine)
    (hnext : ∀ a, fine a → Maintains fixed (next a) good) :
    Maintains fixed (work >>= next) good := by
  intro world hfixed
  obtain ⟨hkept, hfine⟩ := hwork world hfixed
  exact hnext _ hfine _ hkept

/-- The result can be said to be what the work gives on a world of which the condition holds. -/
theorem Maintains.of_run {work : StateM W α} {good : α → Prop} (h : Maintains fixed work good) :
    Maintains fixed work fun a => ∃ world, fixed world ∧ a = (runOn work world).1 := by
  intro world hfixed
  exact ⟨(h world hfixed).1, world, hfixed, rfl⟩

section Questions

variable [Host (StateM W)]

/-- A condition that no question about a world and no reading ends. -/
structure Lasting (fixed : W → Prop) : Prop where
  look (paths : List String) {world : W} : fixed world → fixed (runOn (Host.look paths) world).2
  read (paths : List String) {world : W} : fixed world → fixed (runOn (Host.read paths) world).2

theorem Lasting.maintains_look (lasting : Lasting fixed) (paths : List String) :
    Maintains fixed (Host.look paths) fun _ => True :=
  fun _ hfixed => ⟨lasting.look paths hfixed, trivial⟩

theorem Lasting.maintains_read (lasting : Lasting fixed) (paths : List String) :
    Maintains fixed (Host.read paths) fun _ => True :=
  fun _ hfixed => ⟨lasting.read paths hfixed, trivial⟩

theorem lasting_tree [FileTree W] (files : Tree (Place W)) :
    Lasting fun world : W => tree world = files where
  look paths {world} hfiles := (FileTree.look_keeps paths world).trans hfiles
  read paths {world} hfiles := (FileTree.read_keeps paths world).trans hfiles

end Questions

namespace Command

/-- Started on a world of which the condition holds, the command upholds it, prints nothing, and
gives a good result if it does not fail. -/
def Upholds (fixed : W → Prop) (command : Command (StateM W) α) (good : α → Prop) : Prop :=
  ∀ transcript world, fixed world →
    fixed (command.runIn transcript world).2 ∧
      (command.runIn transcript world).1.2.output = transcript.output ∧
      ∀ a, (command.runIn transcript world).1.1 = .ok a → good a

/-- Started on a world with the given files, the command leaves them as they are, and gives a good
result if it does not fail. -/
def Keeps [Host (StateM W)] [FileTree W] (files : Tree (Place W))
    (command : Command (StateM W) α) (good : α → Prop) : Prop :=
  ∀ transcript world, tree world = files →
    tree (command.runIn transcript world).2 = files ∧
      ∀ a, (command.runIn transcript world).1.1 = .ok a → good a

theorem upholds_pure {a : α} {good : α → Prop} (h : good a) :
    Upholds fixed (pure a : Command (StateM W) α) good := by
  intro transcript world hfixed
  rw [runIn_pure]
  refine ⟨hfixed, rfl, ?_⟩
  intro b hb
  cases hb
  exact h

theorem upholds_lift {work : StateM W α} {good : α → Prop} (h : Maintains fixed work good) :
    Upholds fixed (liftM work : Command (StateM W) α) good := by
  intro transcript world hfixed
  obtain ⟨hkept, hgood⟩ := h world hfixed
  rw [runIn_lift]
  refine ⟨hkept, rfl, ?_⟩
  intro a ha
  cases ha
  exact hgood

theorem upholds_settle {result : Except Failure α} {good : α → Prop}
    (h : ∀ a, result = .ok a → good a) :
    Upholds fixed (settle result : Command (StateM W) α) good := by
  intro transcript world hfixed
  rw [runIn_settle]
  exact ⟨hfixed, rfl, h⟩

theorem upholds_refuse (message : String) {good : α → Prop} :
    Upholds fixed (refuse message : Command (StateM W) α) good := by
  intro transcript world hfixed
  rw [runIn_refuse]
  exact ⟨hfixed, rfl, nofun⟩

theorem upholds_report (notices : List Notice) :
    Upholds fixed (report notices : Command (StateM W) Unit) fun _ => True := by
  intro transcript world hfixed
  rw [runIn_report]
  exact ⟨hfixed, rfl, fun _ _ => trivial⟩

theorem Upholds.bind {command : Command (StateM W) α} {next : α → Command (StateM W) β}
    {fine : α → Prop} {good : β → Prop} (hcommand : Upholds fixed command fine)
    (hnext : ∀ a, fine a → Upholds fixed (next a) good) :
    Upholds fixed (command >>= next) good := by
  intro transcript world hfixed
  obtain ⟨hkept, hsilent, hfine⟩ := hcommand transcript world hfixed
  rw [runIn_bind]
  rcases hrun : runIn command transcript world with ⟨⟨result, noted⟩, after⟩
  rw [hrun] at hkept hsilent hfine
  cases result with
  | error failure => exact ⟨hkept, hsilent, nofun⟩
  | ok a =>
      obtain ⟨hkept, hsilent', hgood⟩ := hnext a (hfine a rfl) noted after hkept
      exact ⟨hkept, hsilent'.trans hsilent, hgood⟩

/-- Work on a target that maintains a condition does so as part of a command. -/
theorem upholds_onTarget (good : BuildTarget → Prop) {target : BuildTarget}
    {work : BuildTarget → StateM W (Except Failure α × BuildTarget)}
    (h : Maintains fixed (work target) fun worked => good { worked.2 with journal := #[] }) :
    Upholds fixed (onTarget target work) fun worked => good worked.2 := by
  intro transcript world hfixed
  obtain ⟨hkept, hgood⟩ := h world hfixed
  rcases hrun : runOn (work target) world with ⟨⟨result, worked⟩, after⟩
  rw [hrun] at hkept hgood
  rw [runIn_onTarget hrun]
  refine ⟨hkept, rfl, ?_⟩
  intro found hfound
  cases result with
  | error failure => cases hfound
  | ok a =>
      cases hfound
      exact hgood

end Command

end ResourceAssembler
