import ResourceAssembler.ResourceFile

/-!
# The resources of a file

A container writes the resources of a file group after group, and most of what it writes about a
resource depends on the resources before it in this order alone.
-/

namespace ResourceAssembler

/-- The resources of a file in order, without their codes. -/
def ResourceFile.resources (file : ResourceFile) : List Resource :=
  file.groups.flatMap (·.resources)

/-- The resources of groups in order, each with its code. -/
def placedIn (groups : List ResourceGroup) : List (TypeCode × Resource) :=
  groups.flatMap fun group => group.resources.map (group.code, ·)

theorem placedIn_cons (group : ResourceGroup) (rest : List ResourceGroup) :
    placedIn (group :: rest) = group.resources.map (group.code, ·) ++ placedIn rest := by
  rw [placedIn, List.flatMap_cons, placedIn]

/-- The resources of a file in order, each with its code. -/
def ResourceFile.placed (file : ResourceFile) : List (TypeCode × Resource) :=
  placedIn file.groups

theorem ResourceFile.map_snd_placed (file : ResourceFile) :
    file.placed.map Prod.snd = file.resources := by
  rw [placed, placedIn, List.map_flatMap, resources]
  simp only [List.map_map, Function.comp_def, List.map_id']

/-- A group has no more resources than all groups together. -/
theorem length_resources_le {groups : List ResourceGroup} {group : ResourceGroup}
    (hgroup : group ∈ groups) :
    group.resources.length ≤ (groups.flatMap (·.resources)).length := by
  obtain ⟨before, after, rfl⟩ := List.append_of_mem hgroup
  simp only [List.flatMap_append, List.flatMap_cons, List.length_append]
  omega

end ResourceAssembler
