import ResourceAssembler.Listing.Assemble
import ResourceAssembler.Proofs.World

/-!
# What assembling a listing leaves alone

Assembling a listing adds to the registry, to the resource file and to the journal of a build
target. What was set about the target before, its paths and its format among others, stays as it is,
whether the listing is assembled or fails.
-/

namespace ResourceAssembler

/-- A build target apart from what listings add to it. -/
def BuildTarget.setting (target : BuildTarget) : BuildTarget :=
  { target with registry := {}, file := {}, forwarded := 0, journal := #[] }

namespace Assembly

variable {α β : Type}

/-- Work that leaves the setting of every target alone. -/
def Framed (work : Assembly α) : Prop :=
  ∀ target, (runOn work.run target).2.setting = target.setting

theorem framed_pure (a : α) : Framed (pure a) :=
  fun _ => rfl

theorem framed_get : Framed get :=
  fun _ => rfl

theorem framed_lift (result : Except Failure α) : Framed (liftM result) :=
  fun _ => rfl

theorem framed_reporting (work : Reporting α) : Framed (reporting work) :=
  fun _ => rfl

theorem framed_modify {change : BuildTarget → BuildTarget}
    (h : ∀ target, (change target).setting = target.setting) : Framed (modify change) :=
  h

theorem Framed.bind {first : Assembly α} {next : α → Assembly β} (hfirst : Framed first)
    (hnext : ∀ a, Framed (next a)) : Framed (first >>= next) := by
  intro target
  have hkept := hfirst target
  rw [runOn_run_bind]
  rcases hrun : runOn first.run target with ⟨result, between⟩
  rw [hrun] at hkept
  cases result with
  | error failure => exact hkept
  | ok a => exact (hnext a between).trans hkept

theorem framed_forM {items : List α} {work : α → Assembly Unit} (h : ∀ item, Framed (work item)) :
    Framed (items.forM work) := by
  induction items with
  | nil => exact framed_pure ()
  | cons item rest ih => exact (h item).bind fun _ => ih

end Assembly

open Assembly

theorem TypeEntry.framed_declare (path : String) (entry : TypeEntry) :
    Framed (entry.declare path) :=
  (framed_lift (entry.definition path)).bind fun _ => framed_modify fun _ => rfl

theorem ResourceEntry.framed_add (path source : String) (read : Read) (entry : ResourceEntry) :
    Framed (entry.add path source read) := by
  refine framed_get.bind fun target => (framed_lift _).bind fun type =>
    (framed_reporting _).bind fun record => framed_modify fun _ => rfl

theorem Listing.framed_assemble (path source : String) (read : Read) (listing : Listing) :
    Framed (listing.assemble path source read) := by
  have htypes : Framed (listing.types.forM (·.declare path)) :=
    framed_forM fun entry => entry.framed_declare path
  have hresources : Framed (listing.resources.forM (·.add path source read)) :=
    framed_forM fun entry => entry.framed_add path source read
  have hsummary : Framed (modify (·.report
      [.listingAssembled path listing.summary.types listing.summary.resources])) :=
    framed_modify fun _ => rfl
  exact htypes.bind fun _ => hresources.bind fun _ => hsummary.bind fun _ => framed_pure _

/-! ## Listings in files -/

namespace BuildTarget

variable {W : Type} [Host (StateM W)]

/-- Whether it succeeds or not, a listing in a file leaves the setting of a target alone. -/
theorem setting_assemble (path : String) (target : BuildTarget) (world : W) :
    (runOn (target.assemble path) world).1.2.setting = target.setting := by
  unfold assemble
  rw [runOn_bind]
  cases hload : Listing.load (runOn (Host.read [path]) world).1 path with
  | error failure => rfl
  | ok loaded => exact loaded.2.framed_assemble path loaded.1 _ target

end BuildTarget

end ResourceAssembler
