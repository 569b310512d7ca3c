import ResourceAssembler.Proofs.Listing.Places

/-!
# Two listings and the listing that joins them

A build assembles its scenario before its input. A single listing that declares the types of
both and then the resources of both does the same, although it registers the types of the input
before the resources of the scenario are added: a name stands for the first type registered
under it, so the types of the input stand behind all that the resources of the scenario can
name. The other way round does not hold, since these resources cannot name a type that only the
input declares, while in the join they can.
-/

namespace ResourceAssembler

open Assembly Outcome

/-- The whole declares the types of both listings and the resources of both, those of the first one
first. Where in its text they are written is left open. -/
structure Listing.Joins (whole first second : Listing) : Prop where
  types : whole.types = first.types ++ second.types
  resources : whole.resources.map (·.declared) =
    (first.resources ++ second.resources).map (·.declared)

theorem Listing.Joins.summary {whole first second : Listing} (h : whole.Joins first second) :
    whole.summary = first.summary.add second.summary := by
  have hresources := congrArg List.length h.resources
  rw [List.length_map, List.length_map, List.length_append] at hresources
  rw [Listing.summary, h.types, List.length_append, hresources]
  rfl

/-- The name stands for a type once the types of the listing are registered in the target. -/
def BuildTarget.Knows (target : BuildTarget) (listing : Listing) (name : String) : Prop :=
  (∃ type ∈ target.registry.types, type.name = name) ∨ ∃ entry ∈ listing.types, entry.name = name

theorem Registry.isSome_find?_iff {registry : Registry} {name : String} :
    (registry.find? name).isSome ↔ ∃ type ∈ registry.types, type.name = name := by
  simp only [find?, List.find?_isSome, decide_eq_true_eq]

/-- A listing with its path and the text in which it is written. -/
structure ListingText where
  path : String
  source : String
  listing : Listing

namespace ListingText

/-- Assembles a listing. -/
def assemble (text : ListingText) (read : Read) : Assembly AssemblySummary :=
  text.listing.assemble text.path text.source read

/-- Assembles a scenario and then the input. -/
def assembleBoth (scenario input : ListingText) (read : Read) : Assembly AssemblySummary := do
  let first ← scenario.assemble read
  let second ← input.assemble read
  return first.add second

/-- The types that the listing declares. -/
def types (text : ListingText) : Except Failure (List TypeDefinition) :=
  text.listing.types.mapM (·.definition text.path)

/-- The record that a resource written in the text makes of the types of a registry. -/
def record (text : ListingText) (read : Read) (registry : Registry) (paths : TargetPaths)
    (entry : ResourceEntry) : Except Failure ResourceRecord :=
  entry.recordIn text.path text.source read registry paths

/-- The records that the resources of the listing make of the types of a registry. -/
def records (text : ListingText) (read : Read) (registry : Registry) (paths : TargetPaths) :
    Except Failure (List ResourceRecord) :=
  text.listing.resources.mapM (text.record read registry paths)

variable {text scenario input whole : ListingText} {read : Read} {target after : BuildTarget}
  {summary : AssemblySummary}

/-- A listing that was assembled: its types are registered, and its resources are added with what
these and the earlier types make of them. -/
theorem assembled (h : runOn (text.assemble read).run target = (.ok summary, after)) :
    summary = text.listing.summary ∧
      ∃ types records, text.types = .ok types ∧
        after.registry = ⟨target.registry.types ++ types⟩ ∧
        text.records read after.registry target.paths = .ok records ∧
        after.content = target.content.extended { types, records } := by
  have hends : Ends (text.assemble read) target (.ok summary) after.content := by
    unfold Ends
    rw [h]
    exact ⟨rfl, rfl⟩
  obtain ⟨hsummary, types, records, htypes, hrecords, hcontent⟩ :=
    Listing.ends_assemble_ok_iff.mp hends
  have hregistry : after.registry = ⟨target.registry.types ++ types⟩ :=
    congrArg (·.registry) hcontent
  refine ⟨hsummary, types, records, htypes, hregistry, ?_, hcontent⟩
  rw [hregistry]
  exact hrecords

/-- The types that are found after a listing was assembled are those of the
target and of the listing. -/
theorem isSome_find?_assembled (h : runOn (text.assemble read).run target = (.ok summary, after))
    {name : String} : (after.registry.find? name).isSome ↔ target.Knows text.listing name := by
  obtain ⟨-, types, -, htypes, hregistry, -⟩ := assembled h
  rw [Registry.isSome_find?_iff, hregistry, BuildTarget.Knows]
  simp only [List.mem_append, or_and_right, exists_or]
  apply or_congr Iff.rfl
  constructor
  · rintro ⟨type, htype, rfl⟩
    obtain ⟨entry, hentry, hdefinition⟩ := exists_of_mem_done htypes htype
    exact ⟨entry, hentry, (TypeEntry.name_definition hdefinition).symm⟩
  · rintro ⟨entry, hentry, rfl⟩
    obtain ⟨type, htype, hdefinition⟩ := exists_of_mem_mapM htypes hentry
    exact ⟨type, htype, TypeEntry.name_definition hdefinition⟩

/-- The join declares the types of both listings. -/
theorem types_of_joins (h : whole.listing.Joins scenario.listing input.listing)
    {types more : List TypeDefinition} (hscenario : scenario.types = .ok types)
    (hinput : input.types = .ok more) : whole.types = .ok (types ++ more) := by
  have hpath : ∀ {text : ListingText} {types}, text.types = .ok types →
      text.listing.types.mapM (·.definition whole.path) = .ok types :=
    mapM_eq_ok_of_step fun _ _ => TypeEntry.definition_eq_ok_iff.mp
  unfold ListingText.types
  rw [h.types]
  exact mapM_append_eq_ok_iff.mpr ⟨types, more, hpath hscenario, hpath hinput, rfl⟩

/-- The resources of the join make the records that the resources of the scenario make and then
those that the resources of the input make after more types are registered. -/
theorem records_of_joins (h : whole.listing.Joins scenario.listing input.listing)
    {registry : Registry} {paths : TargetPaths} {more : List TypeDefinition}
    {early late : List ResourceRecord} (hearly : scenario.records read registry paths = .ok early)
    (hlate : input.records read ⟨registry.types ++ more⟩ paths = .ok late) :
    whole.records read ⟨registry.types ++ more⟩ paths = .ok (early ++ late) := by
  have hresources := h.resources
  rw [List.map_append, List.map_eq_append_iff] at hresources
  obtain ⟨ofScenario, ofInput, hwhole, hscenario, hinput⟩ := hresources
  unfold records
  rw [hwhole]
  refine mapM_append_eq_ok_iff.mpr ⟨early, late, ?_, ?_, rfl⟩
  · exact ResourceEntry.mapM_recordIn_of_declared hscenario.symm hearly more
  · have hsame : ofInput.mapM (whole.record read ⟨registry.types ++ more ++ []⟩ paths) = .ok late :=
      ResourceEntry.mapM_recordIn_of_declared hinput.symm hlate []
    rw [List.append_nil] at hsame
    exact hsame

/-- The scenario and the input, assembled one after the other. -/
theorem assembledBoth (h : (runOn (scenario.assembleBoth input read).run target).1 = .ok summary) :
    ∃ first second between after,
      runOn (scenario.assemble read).run target = (.ok first, between) ∧
        runOn (input.assemble read).run between = (.ok second, after) ∧
        runOn (scenario.assembleBoth input read).run target = (.ok (first.add second), after) := by
  obtain ⟨first, between, hfirst, hboth⟩ := runOn_run_bind_of_ok h
  have hrest := hboth ▸ h
  obtain ⟨second, after, hsecond, hrest⟩ := runOn_run_bind_of_ok hrest
  exact ⟨first, second, between, after, hfirst, hsecond, hboth.trans hrest⟩

/-- The join is assembled as the two are one after the other. -/
theorem ends_joined (h : whole.listing.Joins scenario.listing input.listing)
    {first second : AssemblySummary} {between : BuildTarget}
    (hscenario : runOn (scenario.assemble read).run target = (.ok first, between))
    (hinput : runOn (input.assemble read).run between = (.ok second, after)) :
    Ends (whole.assemble read) target (.ok (first.add second)) after.content := by
  obtain ⟨hfirst, types, early, htypes, hbetween, hearly, hcontent⟩ := assembled hscenario
  obtain ⟨hsecond, more, late, hmore, hafter, hlate, hcontent'⟩ := assembled hinput
  have hpaths : between.paths = target.paths := congrArg (·.paths) hcontent
  have hregistry : after.registry = ⟨target.registry.types ++ (types ++ more)⟩ := by
    rw [hafter, hbetween, List.append_assoc]
  -- The join registers all types first, so that the registry which the input
  -- leaves is the one that each
  -- of its resources finds, those of the scenario included.
  rw [hafter, hpaths] at hlate
  have hrecords := records_of_joins h hearly hlate
  rw [← hafter, hregistry] at hrecords
  refine Listing.ends_assemble_ok_iff.mpr
    ⟨?_, types ++ more, early ++ late, types_of_joins h htypes hmore, hrecords, ?_⟩
  · rw [hfirst, hsecond, h.summary]
  · rw [hcontent', hcontent, BuildTarget.extended_extended]

/-- The input is assembled on what an assembled scenario leaves, and not at all on what another one
leaves. -/
theorem target_assembleBoth (scenario input : ListingText) (read : Read) (target : BuildTarget) :
    (runOn (scenario.assembleBoth input read).run target).2 =
      match runOn (scenario.assemble read).run target with
      | (.ok _, between) => (runOn (input.assemble read).run between).2
      | (.error _, between) => between := by
  unfold assembleBoth
  rw [runOn_run_bind]
  rcases runOn (scenario.assemble read).run target with ⟨found, between⟩
  cases found with
  | error failure => rfl
  | ok first =>
      dsimp only
      rw [runOn_run_bind]
      rcases runOn (input.assemble read).run between with ⟨found, after⟩
      cases found with
      | error failure => rfl
      | ok second => rfl

/-- Assembling a listing, whether or not it succeeds, registers types
behind those that are there. -/
theorem registry_assemble (text : ListingText) (read : Read) (target : BuildTarget) :
    ∃ more, (runOn (text.assemble read).run target).2.registry =
      ⟨target.registry.types ++ more⟩ := by
  have hends := (text.listing.ends_assemble text.path text.source read target).2
  exact ⟨_, congrArg (·.registry) hends⟩

/-- The types of the input have no part in a record of a type that the
target or the scenario knows. -/
theorem record_assembleBoth (scenario input text : ListingText) (read : Read) (target : BuildTarget)
    {entry : ResourceEntry} (h : target.Knows scenario.listing entry.typeName) :
    text.record read (runOn (scenario.assembleBoth input read).run target).2.registry
        target.paths entry =
      text.record read (runOn (scenario.assemble read).run target).2.registry
        target.paths entry := by
  rw [target_assembleBoth]
  rcases hscenario : runOn (scenario.assemble read).run target with ⟨found, between⟩
  cases found with
  | error failure => rfl
  | ok first =>
      have hfound := (isSome_find?_assembled hscenario).mpr h
      obtain ⟨more, hregistry⟩ := registry_assemble input read between
      dsimp only
      rw [hregistry]
      exact entry.recordIn_append hfound more text.path text.source read target.paths

/-- Assembling a scenario and then the input, on whatever target and with whatever the files hold.
If that succeeds, then assembling a listing that joins them succeeds with the same summary and
leaves the same target, phase and journal aside. The records that are stored are then those that the
resources of the scenario make of the types that are registered before the input is assembled, and
behind them those of the input. Wherever a resource is written, the types of the input have no part
in its record if the target or the scenario knows its type. And if neither of them knows the type of
a resource of the scenario, then the two are not assembled, whatever the input declares. -/
theorem assemble_joined (read : Read) (target : BuildTarget) (scenario input whole : ListingText)
    (h : whole.listing.Joins scenario.listing input.listing) :
    let between := (runOn (scenario.assemble read).run target).2
    let both := runOn (scenario.assembleBoth input read).run target
    let joined := runOn (whole.assemble read).run target
    (∀ summary, both.1 = .ok summary →
      joined.1 = .ok summary ∧ joined.2.content = both.2.content ∧
        ∃ early late, scenario.records read between.registry target.paths = .ok early ∧
          input.records read both.2.registry target.paths = .ok late ∧
          both.2.file = target.file.addAll ((early ++ late).map Addition.ofRecord)) ∧
      (∀ entry, target.Knows scenario.listing entry.typeName → ∀ text : ListingText,
        text.record read both.2.registry target.paths entry =
          text.record read between.registry target.paths entry) ∧
      (∀ entry ∈ scenario.listing.resources, ¬target.Knows scenario.listing entry.typeName →
        ∃ failure, both.1 = .error failure) := by
  intro between both joined
  refine ⟨?_, ?_, ?_⟩
  · intro summary hboth
    obtain ⟨first, second, middle, after, hscenario, hinput, hran⟩ := assembledBoth hboth
    obtain ⟨-, types, early, -, -, hearly, hcontent⟩ := assembled hscenario
    obtain ⟨-, more, late, -, -, hlate, hcontent'⟩ := assembled hinput
    have hpaths : middle.paths = target.paths := congrArg (·.paths) hcontent
    have hjoined := ends_joined h hscenario hinput
    have hbetween : between = middle := congrArg Prod.snd hscenario
    have hafter : both.2 = after := congrArg Prod.snd hran
    have hsummary : .ok (first.add second) = both.1 := (congrArg Prod.fst hran).symm
    rw [hbetween, hafter]
    refine ⟨hjoined.1.trans (hsummary.trans hboth), hjoined.2, early, late, hearly,
      hpaths ▸ hlate, ?_⟩
    have hfile : middle.file = target.file.addAll (early.map Addition.ofRecord) :=
      congrArg (·.file) hcontent
    calc after.file
        = middle.file.addAll (late.map Addition.ofRecord) := congrArg (·.file) hcontent'
      _ = target.file.addAll ((early ++ late).map Addition.ofRecord) := by
          rw [hfile, List.map_append, ResourceFile.addAll_append]
  · intro entry hknown text
    exact record_assembleBoth scenario input text read target hknown
  · intro entry hentry hunknown
    cases hboth : both.1 with
    | error failure => exact ⟨failure, rfl⟩
    | ok summary =>
        obtain ⟨first, -, middle, -, hscenario, -, -⟩ := assembledBoth hboth
        obtain ⟨-, types, early, -, -, hearly, -⟩ := assembled hscenario
        obtain ⟨record, -, hrecord⟩ := exists_of_mem_mapM hearly hentry
        have hfound := ResourceEntry.isSome_find?_of_recordIn hrecord
        exact absurd ((isSome_find?_assembled hscenario).mp hfound) hunknown

/-- What is read from files when there are none. -/
def noFiles : Read :=
  fun _ => .error .notFound

/-- A scenario with a type of its own. -/
def harbor : ListingText where
  path := "scenarios/harbor/manifest.kdl"
  source := "[[resource]]\ntype = 'Port'"
  listing := {
    types := [{ name := "Port", code := "PORT", fields := [{ name := "depth", kind := "word" }] }]
    resources := [
      { typeName := "Port", typeOffset := 20, id := 128, name := "Levo"
        values := [("depth", .integer 40)] }] }

/-- A scenario with a resource of a type that only `voyage` declares. -/
def rush : ListingText where
  path := "scenarios/rush/manifest.kdl"
  source := ""
  listing := { resources := [{ typeName := "Ship", typeOffset := 0, id := 9 }] }

/-- An input that declares the type of `harbor` differently, and another one. -/
def voyage : ListingText where
  path := "main.kdl"
  source := "[[resource]]\ntype = 'Port'\n[[resource]]\ntype = 'Ship'"
  listing := {
    types := [
      { name := "Port", code := "Port", fields := [{ name := "depth", kind := "quad" }] },
      { name := "Ship", code := "SHIP", fields := [{ name := "flag", kind := "pstring" }] }]
    resources := [
      { typeName := "Port", typeOffset := 20, id := 129, values := [("depth", .integer 9)] },
      { typeName := "Ship", typeOffset := 47, id := 1, values := [("flag", .text "red" 60)] }] }

/-- The two listings in one text, where the resources of `voyage` are further down. -/
def harborVoyage : ListingText where
  path := "joined.kdl"
  source := "[[resource]]\ntype = 'Port'\n[[resource]]\ntype = 'Port'\n[[resource]]\ntype = 'Ship'"
  listing := {
    types := harbor.listing.types ++ voyage.listing.types
    resources := harbor.listing.resources ++
      [{ typeName := "Port", typeOffset := 47, id := 129, values := [("depth", .integer 9)] },
       { typeName := "Ship", typeOffset := 74, id := 1, values := [("flag", .text "red" 90)] }] }

theorem assemble_joined_harborVoyage :
    (∃ summary, (runOn (harbor.assembleBoth voyage noFiles).run {}).1 = .ok summary ∧
        (runOn (harborVoyage.assemble noFiles).run {}).1 = .ok summary ∧
        (runOn (harborVoyage.assemble noFiles).run {}).2.content =
          (runOn (harbor.assembleBoth voyage noFiles).run {}).2.content) ∧
      (∃ entry ∈ voyage.listing.resources, ({} : BuildTarget).Knows harbor.listing entry.typeName ∧
        voyage.record noFiles (runOn (harbor.assembleBoth voyage noFiles).run {}).2.registry
            ({} : BuildTarget).paths entry =
          voyage.record noFiles (runOn (harbor.assemble noFiles).run {}).2.registry
            ({} : BuildTarget).paths entry) ∧
      ∃ entry ∈ rush.listing.resources, ¬({} : BuildTarget).Knows rush.listing entry.typeName ∧
        ∃ failure, (runOn (rush.assembleBoth voyage noFiles).run {}).1 = .error failure := by
  have hboth : (runOn (harbor.assembleBoth voyage noFiles).run {}).1 = .ok ⟨3, 3⟩ :=
    Outcome.eq_ok_of_toOption (by decide +kernel)
  obtain ⟨hjoined, hrecord, -⟩ := assemble_joined noFiles {} harbor voyage harborVoyage ⟨rfl, rfl⟩
  obtain ⟨hsummary, hcontent, -⟩ := hjoined ⟨3, 3⟩ hboth
  have hport : ({} : BuildTarget).Knows harbor.listing "Port" :=
    .inr ⟨_, List.mem_cons_self, rfl⟩
  have hship : ¬({} : BuildTarget).Knows rush.listing "Ship" := by
    rintro (⟨type, htype, -⟩ | ⟨entry, hentry, -⟩)
    · cases htype
    · cases hentry
  obtain ⟨-, -, hunknown⟩ := assemble_joined noFiles {} rush voyage
    ⟨"joined.kdl", "", rush.listing.types ++ voyage.listing.types,
      rush.listing.resources ++ voyage.listing.resources⟩ ⟨rfl, rfl⟩
  refine ⟨⟨_, hboth, hsummary, hcontent⟩, ?_, ?_⟩
  · exact ⟨_, List.mem_cons_self, hport, hrecord _ hport voyage⟩
  · exact ⟨_, List.mem_cons_self, hship, hunknown _ List.mem_cons_self hship⟩

end ListingText

end ResourceAssembler
