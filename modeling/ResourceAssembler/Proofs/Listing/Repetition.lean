import ResourceAssembler.Proofs.Listing.Contribution

/-!
# Assembling a listing again

A listing that was assembled once contributes the same types and records when it is
assembled a second time. The types that were registered again stand behind the ones that are
found, and the records find their places taken. So the second time ends as the first did and
leaves the resource file as it is.
-/

namespace ResourceAssembler

/-- Types that are registered again are not found in the place of the earlier ones. -/
theorem Registry.find?_append_append (types again : List TypeDefinition) (name : String) :
    (Registry.mk (types ++ again ++ again)).find? name =
      (Registry.mk (types ++ again)).find? name := by
  unfold find?
  rw [List.find?_append, List.find?_append]
  cases types.find? (·.name = name) with
  | some type => rfl
  | none => cases again.find? (·.name = name) <;> rfl

/-- A registry has a say in a record only through the types that it finds. -/
theorem ResourceEntry.recordIn_congr {registry other : Registry}
    (h : ∀ name, other.find? name = registry.find? name) (path source : String) (read : Read)
    (paths : TargetPaths) (entry : ResourceEntry) :
    entry.recordIn path source read other paths =
      entry.recordIn path source read registry paths := by
  have hnamed : ∀ name : Lexeme, other.named name = registry.named name := by
    intro name
    rw [Registry.named, h, Registry.named]
  rw [recordIn, hnamed, recordIn]

namespace Listing

/-- To a target that has taken it on, a listing contributes the same again. -/
theorem contribution_again (path source : String) (read : Read) (registry : Registry)
    (paths : TargetPaths) (listing : Listing) :
    let contribution := listing.contribution path source read registry paths
    listing.contribution path source read ⟨registry.types ++ contribution.types⟩ paths =
      contribution := by
  intro contribution
  unfold contribution Listing.contribution
  generalize Progress.along (·.definition path) listing.types = declared
  obtain ⟨types, fault⟩ := declared
  cases fault with
  | some failure => rfl
  | none =>
      have hrecord : ∀ entry : ResourceEntry,
          entry.recordIn path source read ⟨registry.types ++ types ++ types⟩ paths =
            entry.recordIn path source read ⟨registry.types ++ types⟩ paths := by
        intro entry
        exact entry.recordIn_congr (Registry.find?_append_append _ types) path source read paths
      simp only [hrecord]

/-- Without a fault, a listing contributes all of its types and a record
for each of its resources. -/
theorem contribution_whole {path source : String} {read : Read} {registry : Registry}
    {paths : TargetPaths} {listing : Listing}
    (h : (listing.contribution path source read registry paths).fault = none) :
    listing.types.mapM (·.definition path) =
        .ok (listing.contribution path source read registry paths).types ∧
      (listing.contribution path source read registry paths).records.length =
        listing.resources.length := by
  cases hmade : listing.contribution path source read registry paths with
  | mk types records fault =>
      rw [hmade] at h
      obtain rfl : fault = none := h
      obtain ⟨htypes, hrecords⟩ := contribution_eq_iff.mp hmade
      exact ⟨htypes, Outcome.length_of_mapM hrecords⟩

/-- Assembling a listing twice in a row, on whatever target and with whatever the files hold. The
second time ends as the first one, with the same summary or the same failure, and leaves the
resource file exactly as the first one left it. Both times the contribution of the listing is taken
on: its types are registered and its records are handed on. Without a fault these are all of the
listing's, and with one those up to it. -/
theorem assemble_twice (path source : String) (read : Read) (listing : Listing)
    (target : BuildTarget) :
    let assemble := (listing.assemble path source read).run
    let first := runOn assemble target
    let second := runOn assemble first.2
    let contribution := listing.contribution path source read target.registry target.paths
    let types := contribution.types
    let records := contribution.records
    second.1 = first.1 ∧ second.2.file = first.2.file ∧
      first.1 = listing.resultOf contribution ∧
      first.2.file = target.file.addAll (records.map Addition.ofRecord) ∧
      first.2.registry.types = target.registry.types ++ types ∧
      second.2.registry.types = target.registry.types ++ types ++ types ∧
      first.2.forwarded = target.forwarded + records.length ∧
      second.2.forwarded = target.forwarded + records.length + records.length ∧
      (contribution.fault = none →
        listing.types.mapM (·.definition path) = .ok types ∧
        records.length = listing.resources.length) := by
  intro assemble first second contribution types records
  obtain ⟨hfirst, hcontent⟩ := listing.ends_assemble path source read target
  obtain ⟨hsecond, hcontent'⟩ := listing.ends_assemble path source read first.2
  have hregistry : first.2.registry = ⟨target.registry.types ++ types⟩ :=
    congrArg (·.registry) hcontent
  have hpaths : first.2.paths = target.paths := congrArg (·.paths) hcontent
  have hfile : first.2.file = target.file.addAll (records.map Addition.ofRecord) :=
    congrArg (·.file) hcontent
  have hforwarded : first.2.forwarded = target.forwarded + records.length :=
    congrArg (·.forwarded) hcontent
  have hagain : listing.contribution path source read first.2.registry first.2.paths =
      contribution := by
    rw [hregistry, hpaths]
    exact listing.contribution_again path source read target.registry target.paths
  rw [hagain] at hsecond hcontent'
  have hsecondFile : second.2.file = first.2.file.addAll (records.map Addition.ofRecord) :=
    congrArg (·.file) hcontent'
  have hsecondRegistry : second.2.registry = ⟨first.2.registry.types ++ types⟩ :=
    congrArg (·.registry) hcontent'
  have hsecondForwarded : second.2.forwarded = first.2.forwarded + records.length :=
    congrArg (·.forwarded) hcontent'
  refine ⟨hsecond.trans hfirst.symm, ?_, hfirst, hfile, ?_, ?_, hforwarded, ?_, contribution_whole⟩
  · rw [hsecondFile, hfile, ResourceFile.addAll_addAll]
  · rw [hregistry]
  · rw [hsecondRegistry, hregistry]
  · rw [hsecondForwarded, hforwarded]

end Listing

end ResourceAssembler
