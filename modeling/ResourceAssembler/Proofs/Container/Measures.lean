import ResourceAssembler.Proofs.Container.Placement
import ResourceAssembler.Proofs.ResourceFile.Resources

/-!
# How many bytes resources take

What a container can hold depends on its resources only through a few totals: the bytes of their
names and of their data, with or without the lengths that are written in front of them.
-/

namespace ResourceAssembler.Container

/-- The bytes of all names. -/
def nameBytes (resources : List Resource) : Nat :=
  total (·.name.toUTF8.size) resources

/-- The bytes of all data. -/
def payloadBytes (resources : List Resource) : Nat :=
  total (·.data.size) resources

/-- The bytes of all data, each with its length of `width` bytes in front. -/
def blockBytes (width : Nat) (resources : List Resource) : Nat :=
  total (fun resource => width + resource.data.size) resources

/-- The bytes of a list of names. Those resources that have a name take a length byte and the text,
and the others take nothing. -/
def nameListBytes (resources : List Resource) : Nat :=
  total (fun resource => 1 + resource.name.toUTF8.size) (resources.filter (·.name ≠ ""))

theorem blockBytes_eq (width : Nat) (resources : List Resource) :
    blockBytes width resources = width * resources.length + payloadBytes resources := by
  rw [blockBytes, total_add, total_const, payloadBytes]

theorem nameListBytes_eq (resources : List Resource) :
    nameListBytes resources = total (fun resource =>
      if resource.name = "" then 0 else 1 + resource.name.toUTF8.size) resources := by
  rw [nameListBytes, total_filter]
  congr 1
  funext resource
  by_cases h : resource.name = ""
  · simp [h]
  · simp [h]

theorem nameListBytes_append (first second : List Resource) :
    nameListBytes (first ++ second) = nameListBytes first + nameListBytes second := by
  rw [nameListBytes_eq, total_append, ← nameListBytes_eq, ← nameListBytes_eq]

/-- Names take no fewer bytes in a list of names than they have. -/
theorem nameBytes_le_nameListBytes (resources : List Resource) :
    nameBytes resources ≤ nameListBytes resources := by
  rw [nameListBytes_eq]
  apply total_mono
  intro resource
  by_cases h : resource.name = ""
  · simp [h]
  · rw [if_neg h]
    omega

end ResourceAssembler.Container
