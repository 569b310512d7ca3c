import ResourceAssembler.Proofs.ResourceFile.Insertion
import ResourceAssembler.Proofs.ResourceFile.Resources
import ResourceAssembler.Target.Build
import Mathlib.Data.Finset.Card

/-!
# What a history of additions leaves behind

A resource file is an ordered map in which the last write wins. Whatever was added and in whatever
order, the additions alone say what the file holds: its codes and the ids under each code stand in
the order of their first addition, and what is found under a code and an id is the last resource
that was added there. A build target counts all additions, so that its count exceeds the stored
resources by those additions that found their place taken.
-/

namespace ResourceAssembler

/-- One resource on its way into a resource file. -/
structure Addition where
  code : TypeCode
  resource : Resource

namespace Addition

/-- The place a resource is added to. -/
def key (addition : Addition) : TypeCode × Int64 :=
  (addition.code, addition.resource.id)

/-- The addition that a build target makes of a record. -/
def ofRecord (record : ResourceRecord) : Addition :=
  ⟨record.code, record.id, record.name, record.payload⟩

/-- The additions to a code. -/
def toCode (history : List Addition) (code : TypeCode) : List Addition :=
  history.filter (·.code = code)

/-- The additions to a code and an id. -/
def toKey (history : List Addition) (code : TypeCode) (id : Int64) : List Addition :=
  history.filter fun addition => addition.code = code ∧ addition.resource.id = id

/-- How many keys of a row stand behind an equal one, where `earlier` holds the keys before it. -/
def repetitions (earlier : List (TypeCode × Int64)) : List (TypeCode × Int64) → Nat
  | [] => 0
  | key :: rest => (if key ∈ earlier then 1 else 0) + repetitions (earlier ++ [key]) rest

end Addition

namespace ResourceFile

/-- The file that a history of additions makes of an empty one. -/
def ofHistory (history : List Addition) : ResourceFile :=
  history.foldl (fun file addition => file.insert addition.code addition.resource) {}

/-- The file is the ordered map that the history describes. -/
structure Reflects (file : ResourceFile) (history : List Addition) : Prop where
  /-- The codes stand in the order of their first additions. -/
  codes : file.groups.map (·.code) = (history.map (·.code)).eraseDups
  codes_nodup : (file.groups.map (·.code)).Nodup
  /-- The ids under a code stand in the order of their first additions to it. -/
  ids : ∀ group ∈ file.groups, group.resources.map (·.id) =
    ((Addition.toCode history group.code).map (·.resource.id)).eraseDups
  ids_nodup : ∀ group ∈ file.groups, (group.resources.map (·.id)).Nodup
  nonempty : ∀ group ∈ file.groups, group.resources ≠ []
  /-- A code and an id hold the last resource that was added there. -/
  last : ∀ code id, file.find? code id =
    (Addition.toKey history code id).getLast?.map (·.resource)
  absent : ∀ code id, file.find? code id = none ↔
    ∀ addition ∈ history, addition.key ≠ (code, id)
  groupCount : file.groupCount = (history.map (·.code)).toFinset.card
  resourceCount : file.resourceCount = (history.map (·.key)).toFinset.card

theorem ofHistory_concat (history : List Addition) (addition : Addition) :
    ofHistory (history ++ [addition]) =
      (ofHistory history).insert addition.code addition.resource := by
  simp [ofHistory]

theorem codes_ofHistory (history : List Addition) :
    (ofHistory history).groups.map (·.code) = (history.map (·.code)).eraseDups := by
  induction history using List.reverseRecOn with
  | nil => simp [ofHistory]
  | append_singleton history addition ih =>
      rw [ofHistory_concat, insert, codes_put, ih, List.map_append, List.map_singleton,
        eraseDups_concat]
      simp only [List.mem_eraseDups]

theorem ids_resourcesOf_ofHistory (history : List Addition) (code : TypeCode) :
    (resourcesOf code (ofHistory history).groups).map (·.id) =
      ((Addition.toCode history code).map (·.resource.id)).eraseDups := by
  induction history using List.reverseRecOn with
  | nil => simp [ofHistory, resourcesOf, Addition.toCode]
  | append_singleton history addition ih =>
      rw [ofHistory_concat, insert, resourcesOf_put]
      by_cases h : addition.code = code
      · have hstep : Addition.toCode (history ++ [addition]) code =
            Addition.toCode history code ++ [addition] := by
          simp [Addition.toCode, h]
        rw [if_pos h, ResourceGroup.ids_put, ih, hstep, List.map_append, List.map_singleton,
          eraseDups_concat]
        simp only [List.mem_eraseDups]
      · have hstep : Addition.toCode (history ++ [addition]) code =
            Addition.toCode history code := by
          simp [Addition.toCode, h]
        rw [if_neg h, ih, hstep]

theorem find?_ofHistory (history : List Addition) (code : TypeCode) (id : Int64) :
    (ofHistory history).find? code id =
      (Addition.toKey history code id).getLast?.map (·.resource) := by
  induction history using List.reverseRecOn with
  | nil => simp [ofHistory, find?, Addition.toKey]
  | append_singleton history addition ih =>
      rw [ofHistory_concat, find?_insert, ih]
      by_cases h : addition.code = code ∧ addition.resource.id = id
      · simp [Addition.toKey, h]
      · simp [Addition.toKey, h]

theorem find?_ofHistory_eq_none_iff (history : List Addition) (code : TypeCode) (id : Int64) :
    (ofHistory history).find? code id = none ↔
      ∀ addition ∈ history, addition.key ≠ (code, id) := by
  rw [find?_ofHistory]
  simp [Addition.toKey, Addition.key]

/-- A place is taken exactly when something was added there. -/
theorem isSome_find?_ofHistory (history : List Addition) (addition : Addition) :
    ((ofHistory history).find? addition.code addition.resource.id).isSome ↔
      addition.key ∈ history.map (·.key) := by
  rw [Option.isSome_iff_ne_none, ne_eq, find?_ofHistory_eq_none_iff]
  simp [Addition.key]

theorem resourceCount_ofHistory (history : List Addition) :
    (ofHistory history).resourceCount = (history.map (·.key)).toFinset.card := by
  induction history using List.reverseRecOn with
  | nil => simp [ofHistory, resourceCount]
  | append_singleton history addition ih =>
      rw [ofHistory_concat, resourceCount_insert, ih]
      have hset : ((history ++ [addition]).map (·.key)).toFinset =
          Insert.insert addition.key (history.map (·.key)).toFinset := by
        ext key
        simp
      rw [hset]
      by_cases h : addition.key ∈ history.map (·.key)
      · rw [if_pos ((isSome_find?_ofHistory history addition).mpr h),
          Finset.insert_eq_of_mem (List.mem_toFinset.mpr h)]
      · rw [if_neg (mt (isSome_find?_ofHistory history addition).mp h),
          Finset.card_insert_of_notMem (mt List.mem_toFinset.mp h)]

/-- In a file without repeated codes a group holds all that stands under its code. -/
theorem resourcesOf_of_mem {groups : List ResourceGroup} (hn : (groups.map (·.code)).Nodup)
    {group : ResourceGroup} (hg : group ∈ groups) :
    resourcesOf group.code groups = group.resources := by
  induction groups with
  | nil => simp at hg
  | cons first rest ih =>
      rw [List.map_cons, List.nodup_cons] at hn
      rcases List.mem_cons.mp hg with rfl | hrest
      · simp [resourcesOf]
      · have hne : first.code ≠ group.code := by
          intro he
          exact hn.1 (he ▸ List.mem_map_of_mem hrest)
        rw [resourcesOf, if_neg hne, ih hn.2 hrest]

/-- Every history leaves the ordered map that it describes. -/
theorem reflects_ofHistory (history : List Addition) : (ofHistory history).Reflects history := by
  have hcodes := codes_ofHistory history
  have hnodup : ((ofHistory history).groups.map (·.code)).Nodup := by
    rw [hcodes]
    exact nodup_eraseDups _
  have hids : ∀ group ∈ (ofHistory history).groups, group.resources.map (·.id) =
      ((Addition.toCode history group.code).map (·.resource.id)).eraseDups := by
    intro group hg
    rw [← resourcesOf_of_mem hnodup hg]
    exact ids_resourcesOf_ofHistory history group.code
  refine ⟨hcodes, hnodup, hids, ?_, ?_, find?_ofHistory history,
    find?_ofHistory_eq_none_iff history, ?_, resourceCount_ofHistory history⟩
  · intro group hg
    rw [hids group hg]
    exact nodup_eraseDups _
  · intro group hg hempty
    have hcode : group.code ∈ history.map (·.code) := by
      rw [← List.mem_eraseDups, ← hcodes]
      exact List.mem_map_of_mem hg
    obtain ⟨addition, ha, hac⟩ := List.mem_map.mp hcode
    have hid : addition.resource.id ∈ group.resources.map (·.id) := by
      rw [hids group hg, List.mem_eraseDups]
      exact List.mem_map_of_mem (List.mem_filter.mpr ⟨ha, by simpa using hac⟩)
    simp [hempty] at hid
  · have hset : ((ofHistory history).groups.map (·.code)).toFinset =
        (history.map (·.code)).toFinset := by
      ext code
      rw [hcodes, List.mem_toFinset, List.mem_toFinset, List.mem_eraseDups]
    rw [← hset, List.toFinset_card_of_nodup hnodup, List.length_map, groupCount]

/-- Among resources of different ids, each is found by its own. -/
theorem find?_id_of_mem {resources : List Resource} (hn : (resources.map (·.id)).Nodup)
    {resource : Resource} (hr : resource ∈ resources) :
    resources.find? (·.id = resource.id) = some resource := by
  induction resources with
  | nil => simp at hr
  | cons first rest ih =>
      rw [List.map_cons, List.nodup_cons] at hn
      rcases List.mem_cons.mp hr with rfl | hrest
      · simp
      · have hne : first.id ≠ resource.id := by
          intro he
          exact hn.1 (he ▸ List.mem_map_of_mem hrest)
        rw [List.find?_cons_of_neg (by simpa using hne)]
        exact ih hn.2 hrest

/-- What stands in a file that was made by additions is found there by its code and its id. -/
theorem find?_of_mem_placed {history : List Addition} {code : TypeCode} {resource : Resource}
    (h : (code, resource) ∈ (ofHistory history).placed) :
    (ofHistory history).find? code resource.id = some resource := by
  have hreflects := reflects_ofHistory history
  obtain ⟨group, hgroup, hresource⟩ := List.mem_flatMap.mp h
  obtain ⟨_, hmem, hplace⟩ := List.mem_map.mp hresource
  obtain ⟨rfl, rfl⟩ := Prod.mk.inj hplace
  rw [find?_eq, resourcesOf_of_mem hreflects.codes_nodup hgroup]
  exact find?_id_of_mem (hreflects.ids_nodup group hgroup) hmem

end ResourceFile

namespace Addition

/-- Of the keys of a row, those that repeat an earlier one add nothing to the set of keys. -/
theorem card_add_repetitions (earlier rest : List (TypeCode × Int64)) :
    (earlier ++ rest).toFinset.card + repetitions earlier rest =
      earlier.toFinset.card + rest.length := by
  induction rest generalizing earlier with
  | nil => simp [repetitions]
  | cons key rest ih =>
      have htail := ih (earlier ++ [key])
      have hrow : earlier ++ key :: rest = (earlier ++ [key]) ++ rest := by simp
      have hset : (earlier ++ [key]).toFinset = insert key earlier.toFinset := by
        ext other
        simp
      rw [hset] at htail
      rw [hrow, repetitions, List.length_cons]
      by_cases h : key ∈ earlier
      · rw [Finset.insert_eq_of_mem (List.mem_toFinset.mpr h)] at htail
        rw [if_pos h]
        omega
      · rw [Finset.card_insert_of_notMem (mt List.mem_toFinset.mp h)] at htail
        rw [if_neg h]
        omega

end Addition

namespace BuildTarget

/-- A build target hands on every record in order and counts it. -/
theorem foldl_addResource (records : List ResourceRecord) (target : BuildTarget) :
    (records.foldl addResource target).file =
        (records.map Addition.ofRecord).foldl
          (fun file addition => file.insert addition.code addition.resource) target.file ∧
      (records.foldl addResource target).forwarded = target.forwarded + records.length := by
  induction records generalizing target with
  | nil => simp
  | cons record rest ih =>
      obtain ⟨hfile, hforwarded⟩ := ih (target.addResource record)
      constructor
      · exact hfile
      · rw [List.foldl_cons, hforwarded, List.length_cons]
        simp only [addResource]
        omega

end BuildTarget

namespace ResourceFile

/-- After any history of additions to an empty file, the codes, and the ids under each code, stand
without repetition in the order of their first additions, the last addition to a place is what is
found there, and the counts are the numbers of different codes and places. A build target with
nothing in it makes the same file of its records, and the records it handed on exceed the stored
resources by those that came to a place where an earlier record already was. -/
theorem history_reflected (history : List Addition) (target : BuildTarget)
    (records : List ResourceRecord) :
    (ofHistory history).Reflects history ∧
      let additions := records.map Addition.ofRecord
      let built := records.foldl BuildTarget.addResource
        { target with file := {}, forwarded := 0 }
      built.file = ofHistory additions ∧
        built.forwarded =
          built.file.resourceCount + Addition.repetitions [] (additions.map (·.key)) := by
  refine ⟨reflects_ofHistory history, ?_⟩
  intro additions built
  obtain ⟨hfile, hforwarded⟩ := BuildTarget.foldl_addResource records
    { target with file := {}, forwarded := 0 }
  have hbuilt : built.file = ofHistory additions := hfile
  refine ⟨hbuilt, ?_⟩
  have hcount := Addition.card_add_repetitions [] (additions.map (·.key))
  simp only [List.nil_append, List.toFinset_nil, Finset.card_empty, List.length_map,
    additions] at hcount
  rw [hbuilt, resourceCount_ofHistory, show built.forwarded = _ from hforwarded]
  simp only [additions]
  omega

end ResourceFile

end ResourceAssembler
