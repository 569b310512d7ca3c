import ResourceAssembler.Listing.Assemble
import ResourceAssembler.Proofs.ResourceFile.Repetition
import ResourceAssembler.Proofs.Target.Save

/-!
# What a listing contributes to a build target

Assembling a listing registers types and then adds resources, both up to the first fault. Which
types and records these are, and with which fault it ends, depends on the registry and the paths of
the target and on the contents of the files that are read, but not on the resources that the target
holds or on what it has reported.
-/

namespace ResourceAssembler

variable {α β : Type}

/-! ## Results of reporting work -/

namespace Reporting

/-- The result of work before which nothing was reported. -/
def result (work : Reporting α) : Except Failure α :=
  (runOn work.run #[]).1

/-- Work whose result does not depend on what was reported before. -/
def Settled (work : Reporting α) : Prop :=
  ∀ journal, (runOn work.run journal).1 = work.result

theorem settled_lift (result : Except Failure α) : Settled (liftM result) :=
  fun _ => rfl

theorem settled_pure (a : α) : Settled (pure a) :=
  fun _ => rfl

theorem settled_throw (failure : Failure) : Settled (throw failure : Reporting α) :=
  fun _ => rfl

theorem settled_report (notices : List Notice) : Settled (report notices) :=
  fun _ => rfl

theorem Settled.bind {first : Reporting α} {next : α → Reporting β} (hfirst : Settled first)
    (hnext : ∀ a, Settled (next a)) : Settled (first >>= next) := by
  intro journal
  have hresult := hfirst journal
  rcases hfound : runOn first.run journal with ⟨found, reported⟩
  rcases hfresh : runOn first.run #[] with ⟨fresh, reportedFresh⟩
  have hsame : found = fresh := by
    rw [result, hfound, hfresh] at hresult
    exact hresult
  rw [result, runOn_run_bind, runOn_run_bind, hfound, hfresh]
  subst hsame
  cases found with
  | error failure => rfl
  | ok a => exact (hnext a reported).trans (hnext a reportedFresh).symm

theorem Settled.inContext {work : Reporting α} (h : Settled work) (context : String) :
    Settled (inContext context work) := by
  intro journal
  change Failure.inContext context (runOn work.run journal).1 = _
  rw [h journal]
  rfl

theorem settled_mapM {items : List α} {work : α → Reporting β} (h : ∀ item, Settled (work item)) :
    Settled (items.mapM work) := by
  induction items with
  | nil =>
      rw [List.mapM_nil]
      exact settled_pure []
  | cons item rest ih =>
      rw [List.mapM_cons]
      exact (h item).bind fun b => ih.bind fun bs => settled_pure (b :: bs)

end Reporting

open Reporting

theorem TargetPaths.settled_reference (paths : TargetPaths) (reference : String) :
    Settled (paths.reference reference) :=
  (settled_report _).bind fun _ => settled_pure _

theorem FieldDefinition.settled_valueOf (paths : TargetPaths) (read : Read)
    (field : FieldDefinition) (value : Toml.Value) : Settled (field.valueOf paths read value) := by
  unfold FieldDefinition.valueOf
  cases field.kind with
  | integer width =>
      dsimp only
      cases value.int64? with
      | none => exact settled_throw _
      | some number => exact settled_pure _
  | pstring => exact (settled_lift _).bind fun _ => settled_pure _
  | cstring => exact (settled_lift _).bind fun _ => settled_pure _
  | data =>
      exact (settled_lift _).bind fun text => (paths.settled_reference text).bind fun _ =>
        (settled_lift _).bind fun _ => settled_pure _
  | image =>
      exact (settled_lift _).bind fun text => (paths.settled_reference text).bind fun _ =>
        (settled_lift _).bind fun _ => settled_pure _

theorem ResourceEntry.settled_fieldValue (paths : TargetPaths) (read : Read) (location : Location)
    (entry : ResourceEntry) (field : FieldDefinition) :
    Settled (entry.fieldValue paths read location field) := by
  unfold fieldValue
  cases entry.values.get? field.name with
  | none => exact settled_throw _
  | some value => exact (field.settled_valueOf paths read value).inContext _

theorem ResourceEntry.settled_record (paths : TargetPaths) (read : Read) (location : Location)
    (type : TypeDefinition) (entry : ResourceEntry) :
    Settled (entry.record paths read location type) :=
  (settled_mapM fun field => entry.settled_fieldValue paths read location field).bind fun _ =>
    (settled_report _).bind fun _ => settled_pure _

/-! ## Rows of steps -/

/-- The results of a row of steps up to the first fault, and that fault if there is one. -/
structure Progress (β : Type) where
  done : List β := []
  fault : Option Failure := none

namespace Progress

/-- The progress of steps that are taken one after the other. -/
def along (step : α → Except Failure β) : List α → Progress β
  | [] => {}
  | item :: rest =>
    match step item with
    | .error failure => { fault := some failure }
    | .ok b => { along step rest with done := b :: (along step rest).done }

/-- How a row of steps ends. -/
def outcome (progress : Progress β) : Except Failure Unit :=
  match progress.fault with
  | none => .ok ()
  | some failure => .error failure

theorem mapM_of_along {step : α → Except Failure β} {items : List α}
    (h : (along step items).fault = none) : items.mapM step = .ok (along step items).done := by
  induction items with
  | nil => rfl
  | cons item rest ih =>
      unfold along at h ⊢
      cases hstep : step item with
      | error failure => simp [hstep] at h
      | ok b =>
          simp only [hstep] at h ⊢
          rw [List.mapM_cons, hstep, ih h]
          rfl

theorem along_of_mapM {step : α → Except Failure β} {items : List α} {done : List β}
    (h : items.mapM step = .ok done) : along step items = { done } := by
  induction items generalizing done with
  | nil =>
      cases h
      rfl
  | cons item rest ih =>
      obtain ⟨b, tail, hstep, hrest, rfl⟩ := Outcome.mapM_cons_eq_ok_iff.mp h
      unfold along
      rw [hstep, ih hrest]

/-- Behind steps that succeed a step that fails ends the progress. -/
theorem along_of_fault {step : α → Except Failure β} {before : List α} {item : α} {done : List β}
    {failure : Failure} (hbefore : before.mapM step = .ok done) (hitem : step item = .error failure)
    (behind : List α) :
    along step (before ++ item :: behind) = { done, fault := some failure } := by
  induction before generalizing done with
  | nil =>
      cases hbefore
      rw [List.nil_append, along, hitem]
      rfl
  | cons first rest ih =>
      obtain ⟨b, tail, hfirst, hrest, rfl⟩ := Outcome.mapM_cons_eq_ok_iff.mp hbefore
      rw [List.cons_append, along, hfirst, ih hrest]

/-- A row of steps comes to a fault exactly at an item whose step fails behind
items whose steps do not. -/
theorem along_eq_fault_iff {step : α → Except Failure β} {items : List α} {done : List β}
    {failure : Failure} : along step items = { done, fault := some failure } ↔
      ∃ before item behind, items = before ++ item :: behind ∧ before.mapM step = .ok done ∧
        step item = .error failure := by
  constructor
  · intro h
    cases hrow : items.mapM step with
    | ok all =>
        rw [along_of_mapM hrow] at h
        cases h
    | error fault =>
        obtain ⟨before, item, behind, found, rfl, hbefore, hitem⟩ :=
          Outcome.mapM_eq_error_iff.mp hrow
        rw [along_of_fault hbefore hitem] at h
        cases h
        exact ⟨before, item, behind, rfl, hbefore, hitem⟩
  · rintro ⟨before, item, behind, rfl, hbefore, hitem⟩
    exact along_of_fault hbefore hitem behind

end Progress

namespace Assembly

/-- Started on the target, the work ends with this result and leaves a target of this content. -/
def Ends (work : Assembly α) (target : BuildTarget) (result : Except Failure α)
    (content : BuildTarget) : Prop :=
  (runOn work.run target).1 = result ∧ (runOn work.run target).2.content = content

theorem Ends.bind_ok {first : Assembly α} {next : α → Assembly β}
    {target middle content : BuildTarget}
    {a : α} {result : Except Failure β} (hfirst : Ends first target (.ok a) middle)
    (hnext : ∀ between, between.content = middle → Ends (next a) between result content) :
    Ends (first >>= next) target result content := by
  obtain ⟨hresult, hcontent⟩ := hfirst
  unfold Ends
  rw [runOn_run_bind]
  rcases hran : runOn first.run target with ⟨found, between⟩
  rw [hran] at hresult hcontent
  subst hresult
  exact hnext between hcontent

theorem Ends.bind_error {first : Assembly α} {target content : BuildTarget} {failure : Failure}
    (hfirst : Ends first target (.error failure) content) (next : α → Assembly β) :
    Ends (first >>= next) target (.error failure) content := by
  obtain ⟨hresult, hcontent⟩ := hfirst
  unfold Ends
  rw [runOn_run_bind]
  rcases hran : runOn first.run target with ⟨found, between⟩
  rw [hran] at hresult hcontent
  subst hresult
  exact ⟨rfl, hcontent⟩

theorem ends_get (target : BuildTarget) : Ends get target (.ok target) target.content :=
  ⟨rfl, rfl⟩

theorem ends_lift (result : Except Failure α) (target : BuildTarget) :
    Ends (liftM result) target result target.content :=
  ⟨rfl, rfl⟩

theorem ends_modify (change : BuildTarget → BuildTarget) (target : BuildTarget) :
    Ends (modify change) target (.ok ()) (change target).content :=
  ⟨rfl, rfl⟩

/-- Settled work does not touch the content of a target, and its journal
has no say in the result. -/
theorem ends_reporting {work : Reporting α} (h : work.Settled) (target : BuildTarget) :
    Ends (reporting work) target work.result target.content :=
  ⟨h target.journal, rfl⟩

/-- The content of a target after a step. A step that fails has no effect. -/
def after (effect : BuildTarget → β → BuildTarget) (content : BuildTarget) :
    Except Failure β → BuildTarget
  | .error _ => content
  | .ok b => effect content b

/-- On targets of a kind the work ends as the step does, and has the effect of the step's result. -/
def Carries (kind : BuildTarget → Prop) (work : Assembly Unit) (step : Except Failure β)
    (effect : BuildTarget → β → BuildTarget) : Prop :=
  ∀ target, kind target.content →
    Ends work target (step.map fun _ => ()) (after effect target.content step)

/-- Work on a row of items ends as the progress along the steps does, and has the
effects of what was done. -/
theorem ends_forM {kind : BuildTarget → Prop} {work : α → Assembly Unit}
    {step : α → Except Failure β} {effect : BuildTarget → β → BuildTarget}
    (hwork : ∀ item, Carries kind (work item) (step item) effect)
    (hkind : ∀ content b, kind content → kind (effect content b)) (items : List α)
    (target : BuildTarget) (htarget : kind target.content) :
    Ends (items.forM work) target (Progress.along step items).outcome
      ((Progress.along step items).done.foldl effect target.content) := by
  induction items generalizing target with
  | nil => exact ⟨rfl, rfl⟩
  | cons item rest ih =>
      have hitem := hwork item target htarget
      change Ends (work item >>= fun _ => rest.forM work) target _ _
      unfold Progress.along
      cases hstep : step item with
      | error failure =>
          rw [hstep] at hitem
          exact hitem.bind_error _
      | ok b =>
          rw [hstep] at hitem
          apply hitem.bind_ok
          intro between hbetween
          have hkept : kind between.content := hbetween ▸ hkind _ b htarget
          have hrest := ih between hkept
          rw [hbetween] at hrest
          exact hrest

end Assembly

open Assembly

/-! ## Types and records -/

namespace BuildTarget

/-- The effect of a type on the content of a target. -/
def registered (content : BuildTarget) (type : TypeDefinition) : BuildTarget :=
  { content with registry := content.registry.register type }

/-- The effect of a record on the content of a target. -/
def stored (content : BuildTarget) (record : ResourceRecord) : BuildTarget :=
  { content with
    file := content.file.insert record.code ⟨record.id, record.name, record.payload⟩
    forwarded := content.forwarded + 1 }

theorem foldl_registered (types : List TypeDefinition) (content : BuildTarget) :
    types.foldl registered content =
      { content with registry := ⟨content.registry.types ++ types⟩ } := by
  induction types generalizing content with
  | nil => simp
  | cons type rest ih =>
      rw [List.foldl_cons, ih]
      simp [registered, Registry.register]

theorem foldl_stored (records : List ResourceRecord) (content : BuildTarget) :
    records.foldl stored content =
      { content with
        file := content.file.addAll (records.map Addition.ofRecord)
        forwarded := content.forwarded + records.length } := by
  induction records generalizing content with
  | nil => rfl
  | cons record rest ih =>
      rw [List.foldl_cons, ih]
      simp [stored, ResourceFile.addAll_cons, Addition.ofRecord, Nat.add_assoc, Nat.add_comm 1]

end BuildTarget

theorem TypeEntry.carries_declare (path : String) (entry : TypeEntry) :
    Carries (fun _ => True) (entry.declare path) (entry.definition path)
      BuildTarget.registered := by
  intro target _
  unfold declare
  cases hstep : entry.definition path with
  | error failure => exact (ends_lift (.error failure) target).bind_error _
  | ok type =>
      apply (ends_lift (.ok type) target).bind_ok
      intro between hbetween
      rw [after, ← hbetween]
      exact ends_modify _ between

namespace ResourceEntry

/-- The record that a declared resource makes of the first type of its name. -/
def recordIn (path source : String) (read : Read) (registry : Registry) (paths : TargetPaths)
    (entry : ResourceEntry) : Except Failure ResourceRecord := do
  let type ← Cause.raise .target (registry.named (entry.typeLexeme path source))
  (entry.record paths read (entry.typeLexeme path source).location type).result

/-- A record that is worked out is stored. -/
theorem ends_store {work : Reporting ResourceRecord} (h : work.Settled) (target : BuildTarget) :
    Ends (reporting work >>= fun record => modify (·.addResource record)) target
      (work.result.map fun _ => ()) (after BuildTarget.stored target.content work.result) := by
  have hwork := ends_reporting h target
  cases hresult : work.result with
  | error failure =>
      rw [hresult] at hwork
      exact hwork.bind_error _
  | ok record =>
      rw [hresult] at hwork
      apply hwork.bind_ok
      intro between hbetween
      rw [after, ← hbetween]
      exact ends_modify _ between

theorem carries_add (path source : String) (read : Read) (registry : Registry)
    (paths : TargetPaths) (entry : ResourceEntry) :
    Carries (fun content => content.registry = registry ∧ content.paths = paths)
      (entry.add path source read) (entry.recordIn path source read registry paths)
      BuildTarget.stored := by
  intro target hkind
  obtain ⟨rfl, rfl⟩ : target.registry = registry ∧ target.paths = paths := hkind
  unfold add recordIn
  apply (ends_get target).bind_ok
  intro started hstarted
  rw [← hstarted]
  dsimp only
  cases Cause.raise .target (target.registry.named (entry.typeLexeme path source)) with
  | error failure => exact (ends_lift (.error failure) started).bind_error _
  | ok type =>
      apply (ends_lift (.ok type) started).bind_ok
      intro found hfound
      rw [← hfound]
      exact ends_store (entry.settled_record _ _ _ type) found

end ResourceEntry

/-! ## Listings -/

/-- What a listing contributes: its types and its records up to the first fault, and
that fault if there is one. -/
structure Contribution where
  types : List TypeDefinition
  records : List ResourceRecord := []
  fault : Option Failure := none

/-- A target that took a contribution on. -/
def BuildTarget.extended (content : BuildTarget) (contribution : Contribution) : BuildTarget :=
  { content with
    registry := ⟨content.registry.types ++ contribution.types⟩
    file := content.file.addAll (contribution.records.map Addition.ofRecord)
    forwarded := content.forwarded + contribution.records.length }

/-- Two contributions, taken on one after the other, are taken on as one. -/
theorem BuildTarget.extended_extended (content : BuildTarget) (types more : List TypeDefinition)
    (records others : List ResourceRecord) :
    (content.extended { types, records }).extended { types := more, records := others } =
      content.extended { types := types ++ more, records := records ++ others } := by
  simp only [extended, List.append_assoc, List.map_append, List.length_append,
    ResourceFile.addAll_append, Nat.add_assoc]

namespace Listing

/-- What a listing contributes to a target with the given registry and paths. Its resources find its
own types behind those that were registered before. -/
def contribution (path source : String) (read : Read) (registry : Registry) (paths : TargetPaths)
    (listing : Listing) : Contribution :=
  let declared := Progress.along (·.definition path) listing.types
  match declared.fault with
  | some failure => { types := declared.done, fault := some failure }
  | none =>
    let registry : Registry := ⟨registry.types ++ declared.done⟩
    let recorded := Progress.along (·.recordIn path source read registry paths) listing.resources
    { types := declared.done, records := recorded.done, fault := recorded.fault }

/-- A contribution has no fault exactly when every type of the listing is defined and every resource
makes a record, and then it consists of these. -/
theorem contribution_eq_iff {path source : String} {read : Read} {registry : Registry}
    {paths : TargetPaths} {listing : Listing} {types : List TypeDefinition}
    {records : List ResourceRecord} :
    listing.contribution path source read registry paths = { types, records } ↔
      listing.types.mapM (·.definition path) = .ok types ∧
        listing.resources.mapM (·.recordIn path source read ⟨registry.types ++ types⟩ paths) =
          .ok records := by
  unfold contribution
  constructor
  · intro h
    cases hdeclared : (Progress.along (·.definition path) listing.types).fault with
    | some failure => simp [hdeclared] at h
    | none =>
        simp only [hdeclared, Contribution.mk.injEq] at h
        obtain ⟨htypes, hrecords, hfault⟩ := h
        rw [Progress.mapM_of_along hdeclared, ← htypes, Progress.mapM_of_along hfault]
        exact ⟨rfl, congrArg _ hrecords⟩
  · rintro ⟨htypes, hrecords⟩
    rw [Progress.along_of_mapM htypes]
    dsimp only
    rw [Progress.along_of_mapM hrecords]

/-- A contribution has a fault exactly when a type is not defined behind types that are, or all
types are defined and a resource makes no record behind resources that do. -/
theorem contribution_eq_fault_iff {path source : String} {read : Read} {registry : Registry}
    {paths : TargetPaths} {listing : Listing} {types : List TypeDefinition}
    {records : List ResourceRecord} {failure : Failure} :
    listing.contribution path source read registry paths =
        { types, records, fault := some failure } ↔
      (records = [] ∧
        Progress.along (·.definition path) listing.types = ⟨types, some failure⟩) ∨
      (listing.types.mapM (·.definition path) = .ok types ∧
        Progress.along (·.recordIn path source read ⟨registry.types ++ types⟩ paths)
          listing.resources = ⟨records, some failure⟩) := by
  unfold contribution
  constructor
  · intro h
    rcases hdeclared : Progress.along (·.definition path) listing.types with ⟨declared, fault⟩
    simp only [hdeclared] at h
    cases fault with
    | some fault =>
        cases h
        exact .inl ⟨rfl, hdeclared⟩
    | none =>
        simp only [Contribution.mk.injEq] at h
        obtain ⟨rfl, hrecords, hfault⟩ := h
        have hdefined := Progress.mapM_of_along (congrArg Progress.fault hdeclared)
        rw [hdeclared] at hdefined
        refine .inr ⟨hdefined, ?_⟩
        rw [← hrecords, ← hfault]
  · rintro (⟨rfl, hdeclared⟩ | ⟨hdefined, hrecorded⟩)
    · rw [hdeclared]
    · rw [Progress.along_of_mapM hdefined]
      dsimp only
      rw [hrecorded]

/-- The result of assembling a listing with the given contribution. -/
def resultOf (listing : Listing) (contribution : Contribution) : Except Failure AssemblySummary :=
  match contribution.fault with
  | none => .ok listing.summary
  | some failure => .error failure

/-- A listing is assembled by taking its contribution on. -/
theorem ends_assemble (path source : String) (read : Read) (listing : Listing)
    (target : BuildTarget) :
    let contribution := listing.contribution path source read target.registry target.paths
    Ends (listing.assemble path source read) target (listing.resultOf contribution)
      (target.content.extended contribution) := by
  have hdeclared := ends_forM (fun entry : TypeEntry => entry.carries_declare path)
    (fun _ _ h => h) listing.types target trivial
  rw [BuildTarget.foldl_registered] at hdeclared
  unfold contribution
  generalize Progress.along (·.definition path) listing.types = declared at hdeclared ⊢
  unfold assemble
  obtain ⟨types, fault⟩ := declared
  cases fault with
  | some failure => exact hdeclared.bind_error _
  | none =>
      apply hdeclared.bind_ok
      intro between hbetween
      -- Adding resources leaves registry and paths alone, so each record is
      -- made in the same registry.
      let registry : Registry := ⟨target.registry.types ++ types⟩
      have hkind : between.content.registry = registry ∧ between.content.paths = target.paths := by
        rw [hbetween]
        exact ⟨rfl, rfl⟩
      have hrecorded := ends_forM
        (fun entry : ResourceEntry => entry.carries_add path source read registry target.paths)
        (fun _ _ h => h) listing.resources between hkind
      rw [BuildTarget.foldl_stored, hbetween] at hrecorded
      dsimp only
      generalize Progress.along (·.recordIn path source read registry target.paths)
        listing.resources = recorded at hrecorded ⊢
      obtain ⟨records, fault⟩ := recorded
      cases fault with
      | some failure => exact hrecorded.bind_error _
      | none =>
          apply hrecorded.bind_ok
          intro ended hended
          apply (ends_modify _ ended).bind_ok
          intro reported hreported
          exact ⟨rfl, hreported.trans hended⟩

/-- A listing is assembled without a fault exactly when all of its types are defined and all of its
resources make records, and the target takes these on. -/
theorem ends_assemble_ok_iff {path source : String} {read : Read} {listing : Listing}
    {target content : BuildTarget} {summary : AssemblySummary} :
    Ends (listing.assemble path source read) target (.ok summary) content ↔
      summary = listing.summary ∧
        ∃ types records, listing.types.mapM (·.definition path) = .ok types ∧
          listing.resources.mapM
            (·.recordIn path source read ⟨target.registry.types ++ types⟩ target.paths) =
              .ok records ∧
          content = target.content.extended { types, records } := by
  have hends := listing.ends_assemble path source read target
  constructor
  · rintro ⟨hresult, hcontent⟩
    rw [hends.1] at hresult
    rw [hends.2] at hcontent
    cases hmade : listing.contribution path source read target.registry target.paths with
    | mk types records fault =>
        rw [hmade] at hresult hcontent
        cases fault with
        | some failure => cases hresult
        | none =>
            obtain ⟨htypes, hrecords⟩ := contribution_eq_iff.mp hmade
            exact ⟨(Except.ok.inj hresult).symm, types, records, htypes, hrecords, hcontent.symm⟩
  · rintro ⟨rfl, types, records, htypes, hrecords, rfl⟩
    have hmade : listing.contribution path source read target.registry target.paths =
        { types, records } := contribution_eq_iff.mpr ⟨htypes, hrecords⟩
    rw [hmade] at hends
    exact hends

end Listing

end ResourceAssembler
