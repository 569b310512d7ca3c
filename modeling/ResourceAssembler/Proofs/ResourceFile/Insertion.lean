import ResourceAssembler.ResourceFile
import Mathlib.Data.List.Induction
import Mathlib.Data.List.Nodup

/-!
# Insertion into a resource file

Both levels of a file, its groups and the resources of a group, are rows of keyed items. Writing to
a key keeps the order of the keys, adds a new key at the end, and changes what is found under that
key alone.
-/

namespace ResourceAssembler

/-- A key at the end of a row counts only if it did not stand in the row before. -/
theorem eraseDups_concat {α : Type} [DecidableEq α] (row : List α) (key : α) :
    (row ++ [key]).eraseDups = if key ∈ row then row.eraseDups else row.eraseDups ++ [key] := by
  rw [List.eraseDups_append]
  by_cases h : key ∈ row
  · simp [h, List.removeAll]
  · simp [h, List.removeAll, List.eraseDups_cons]

theorem nodup_eraseDups {α : Type} [DecidableEq α] (row : List α) : row.eraseDups.Nodup := by
  induction row using List.reverseRecOn with
  | nil => simp
  | append_singleton row key ih =>
      rw [eraseDups_concat]
      by_cases h : key ∈ row
      · simpa [h] using ih
      · have hout : key ∉ row.eraseDups := by simpa using h
        simpa [h] using List.nodup_append.mpr ⟨ih, List.nodup_singleton key, by
          intro a ha b hb
          rw [List.mem_singleton.mp hb]
          exact fun hab => hout (hab ▸ ha)⟩

namespace ResourceGroup

/-- Writing a resource keeps the ids of a group in their order. -/
theorem ids_put (resource : Resource) (resources : List Resource) :
    (put resource resources).map (·.id) =
      if resource.id ∈ resources.map (·.id) then resources.map (·.id)
      else resources.map (·.id) ++ [resource.id] := by
  induction resources with
  | nil => simp [put]
  | cons r rest ih =>
      by_cases h : r.id = resource.id
      · simp [put, h]
      · have hne : resource.id ≠ r.id := fun he => h he.symm
        simp only [put, if_neg h, List.map_cons, ih, List.mem_cons, hne, false_or]
        split <;> rfl

/-- Writing a resource changes what is found under its own id only. -/
theorem find?_put (resource : Resource) (resources : List Resource) (id : Int64) :
    (put resource resources).find? (·.id = id) =
      if resource.id = id then some resource else resources.find? (·.id = id) := by
  induction resources with
  | nil => by_cases hid : resource.id = id <;> simp [put, hid]
  | cons r rest ih =>
      by_cases h : r.id = resource.id
      · by_cases hid : resource.id = id <;> simp [put, h, hid]
      · by_cases hr : r.id = id
        · have hid : resource.id ≠ id := fun he => h (hr.trans he.symm)
          rw [put, if_neg h, if_neg hid]
          simp only [List.find?_cons, hr, decide_true]
        · simp only [put, if_neg h, List.find?_cons, hr, decide_false, ih]

theorem length_put (resource : Resource) (resources : List Resource) :
    (put resource resources).length =
      if resource.id ∈ resources.map (·.id) then resources.length else resources.length + 1 := by
  have h := congrArg List.length (ids_put resource resources)
  rw [List.length_map] at h
  rw [h]
  split <;> simp

end ResourceGroup

namespace ResourceFile

/-- The resources that stand under a code, in order. -/
def resourcesOf (code : TypeCode) : List ResourceGroup → List Resource
  | [] => []
  | group :: rest => if group.code = code then group.resources else resourcesOf code rest

/-- A code and an id are looked up among the resources of the code. -/
theorem find?_eq (file : ResourceFile) (code : TypeCode) (id : Int64) :
    file.find? code id = (resourcesOf code file.groups).find? (·.id = id) := by
  rw [find?]
  induction file.groups with
  | nil => rfl
  | cons group rest ih =>
      by_cases h : group.code = code
      · simp [resourcesOf, h, ResourceGroup.find?]
      · simpa [resourcesOf, h] using ih

/-- Writing a resource keeps the codes of a file in their order. -/
theorem codes_put (code : TypeCode) (resource : Resource) (groups : List ResourceGroup) :
    (put code resource groups).map (·.code) =
      if code ∈ groups.map (·.code) then groups.map (·.code)
      else groups.map (·.code) ++ [code] := by
  induction groups with
  | nil => simp [put]
  | cons group rest ih =>
      by_cases h : group.code = code
      · simp [put, h]
      · have hne : code ≠ group.code := fun he => h he.symm
        simp only [put, if_neg h, List.map_cons, ih, List.mem_cons, hne, false_or]
        split <;> rfl

/-- Writing a resource touches the resources of its own code only. -/
theorem resourcesOf_put (code : TypeCode) (resource : Resource) (groups : List ResourceGroup)
    (other : TypeCode) :
    resourcesOf other (put code resource groups) =
      if code = other then ResourceGroup.put resource (resourcesOf other groups)
      else resourcesOf other groups := by
  induction groups with
  | nil => by_cases hc : code = other <;> simp [put, hc, resourcesOf, ResourceGroup.put]
  | cons group rest ih =>
      by_cases h : group.code = code
      · by_cases hc : code = other <;> simp [put, h, hc, resourcesOf]
      · simp only [put, if_neg h, resourcesOf, ih]
        by_cases hg : group.code = other
        · have hc : code ≠ other := fun he => h (hg.trans he.symm)
          simp only [if_pos hg, if_neg hc]
        · simp only [if_neg hg]

/-- Writing a resource changes what is found under its own code and id only. -/
theorem find?_insert (file : ResourceFile) (code : TypeCode) (resource : Resource)
    (other : TypeCode) (id : Int64) :
    (file.insert code resource).find? other id =
      if code = other ∧ resource.id = id then some resource else file.find? other id := by
  rw [find?_eq, find?_eq, insert, resourcesOf_put]
  by_cases hc : code = other
  · simp [hc, ResourceGroup.find?_put]
  · simp [hc]

/-- Writing to a code and an id that are already present stores nothing new. -/
theorem resourceCount_insert (file : ResourceFile) (code : TypeCode) (resource : Resource) :
    (file.insert code resource).resourceCount =
      if (file.find? code resource.id).isSome then file.resourceCount
      else file.resourceCount + 1 := by
  rw [find?_eq]
  simp only [insert, resourceCount]
  induction file.groups with
  | nil => simp [put, resourcesOf]
  | cons group rest ih =>
      by_cases h : group.code = code
      · have hput := ResourceGroup.length_put resource group.resources
        simp only [List.mem_map] at hput
        simp only [put, resourcesOf, if_pos h, List.flatMap_cons, List.length_append, hput,
          List.find?_isSome, decide_eq_true_eq]
        split <;> omega
      · simp only [put, resourcesOf, if_neg h, List.flatMap_cons, List.length_append, ih]
        split <;> omega

end ResourceFile

end ResourceAssembler
