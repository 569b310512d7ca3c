import ResourceAssembler.Proofs.ResourceFile.History

/-!
# Adding resources again

A resource that is written over by a later one under the same code and id leaves no trace,
and resources under different codes or ids do not get in each other's way once their places
are taken. So a history of additions that is repeated finds every place taken, and ends with
the file that it started from.
-/

namespace ResourceAssembler

namespace ResourceGroup

/-- The later of two resources of one id is the one that stays. -/
theorem put_put_of_eq {earlier later : Resource} (h : earlier.id = later.id)
    (resources : List Resource) : put later (put earlier resources) = put later resources := by
  induction resources with
  | nil => simp [put, h]
  | cons r rest ih =>
      by_cases hr : r.id = later.id
      · simp [put, hr, h]
      · simp [put, hr, h, ih]

/-- Resources of different ids can be written in any order if the place of one is taken. -/
theorem put_put_comm {taken other : Resource} (hne : taken.id ≠ other.id)
    {resources : List Resource} (htaken : taken.id ∈ resources.map (·.id)) :
    put taken (put other resources) = put other (put taken resources) := by
  induction resources with
  | nil => simp at htaken
  | cons r rest ih =>
      by_cases hr : r.id = taken.id
      · have hother : r.id ≠ other.id := hr ▸ hne
        simp [put, hr, hne]
      · have hrest : taken.id ∈ rest.map (·.id) := by
          simpa [Ne.symm hr] using htaken
        by_cases hother : r.id = other.id
        · simp [put, hother, Ne.symm hne]
        · simp [put, hr, hother, ih hrest]

end ResourceGroup

namespace ResourceFile

theorem put_put_of_eq {earlier later : Resource} (h : earlier.id = later.id) (code : TypeCode)
    (groups : List ResourceGroup) :
    put code later (put code earlier groups) = put code later groups := by
  induction groups with
  | nil => simp [put, ResourceGroup.put, h]
  | cons group rest ih =>
      by_cases hcode : group.code = code
      · simp [put, hcode, ResourceGroup.put_put_of_eq h]
      · simp [put, hcode, ih]

theorem put_put_comm {taken other : Resource} {code otherCode : TypeCode}
    (hne : (code, taken.id) ≠ (otherCode, other.id)) {groups : List ResourceGroup}
    (htaken : taken.id ∈ (resourcesOf code groups).map (·.id)) :
    put code taken (put otherCode other groups) =
      put otherCode other (put code taken groups) := by
  induction groups with
  | nil => simp [resourcesOf] at htaken
  | cons group rest ih =>
      by_cases hcode : group.code = code
      · rw [resourcesOf, if_pos hcode] at htaken
        by_cases hother : group.code = otherCode
        · have hsame : code = otherCode := hcode.symm.trans hother
          have hid : taken.id ≠ other.id := fun hid => hne (by rw [hsame, hid])
          subst hsame
          simp [put, hcode, ResourceGroup.put_put_comm hid htaken]
        · have hcodes : code ≠ otherCode := hcode ▸ hother
          simp [put, hcode, hcodes]
      · rw [resourcesOf, if_neg hcode] at htaken
        by_cases hother : group.code = otherCode
        · have hcodes : otherCode ≠ code := hother ▸ hcode
          simp [put, hother, hcodes]
        · simp [put, hcode, hother, ih htaken]

/-! ## Histories -/

/-- Something stands in the place of the addition. -/
def Taken (file : ResourceFile) (addition : Addition) : Prop :=
  (file.find? addition.code addition.resource.id).isSome

/-- The file with a history of additions made to it. -/
def addAll (file : ResourceFile) (history : List Addition) : ResourceFile :=
  history.foldl (fun file addition => file.insert addition.code addition.resource) file

@[simp] theorem addAll_nil (file : ResourceFile) : file.addAll [] = file := rfl

theorem addAll_cons (file : ResourceFile) (addition : Addition) (rest : List Addition) :
    file.addAll (addition :: rest) =
      (file.insert addition.code addition.resource).addAll rest := rfl

theorem addAll_concat (file : ResourceFile) (history : List Addition) (addition : Addition) :
    file.addAll (history ++ [addition]) =
      (file.addAll history).insert addition.code addition.resource := by
  simp [addAll]

theorem addAll_append (file : ResourceFile) (history more : List Addition) :
    file.addAll (history ++ more) = (file.addAll history).addAll more := by
  simp [addAll]

theorem Taken.insert {file : ResourceFile} {addition : Addition} (h : file.Taken addition)
    (other : Addition) : (file.insert other.code other.resource).Taken addition := by
  unfold Taken at h ⊢
  rw [find?_insert]
  split
  · rfl
  · exact h

theorem taken_insert_self (file : ResourceFile) (addition : Addition) :
    (file.insert addition.code addition.resource).Taken addition := by
  simp [Taken, find?_insert]

/-- Every place that a history adds to is taken in the end. -/
theorem taken_addAll (file : ResourceFile) {history : List Addition} {addition : Addition}
    (h : addition ∈ history) : (file.addAll history).Taken addition := by
  induction history using List.reverseRecOn with
  | nil => simp at h
  | append_singleton history last ih =>
      rw [addAll_concat]
      obtain hearlier | hlast := List.mem_append.mp h
      · exact (ih hearlier).insert last
      · rw [List.mem_singleton.mp hlast]
        exact taken_insert_self _ last

theorem insert_insert_of_key_eq {earlier later : Addition} (h : earlier.key = later.key)
    (file : ResourceFile) :
    (file.insert earlier.code earlier.resource).insert later.code later.resource =
      file.insert later.code later.resource := by
  obtain ⟨hcode, hid⟩ := Prod.mk.inj h
  simp only [insert, hcode, put_put_of_eq hid]

theorem insert_insert_comm {file : ResourceFile} {taken other : Addition}
    (hne : taken.key ≠ other.key) (htaken : file.Taken taken) :
    (file.insert other.code other.resource).insert taken.code taken.resource =
      (file.insert taken.code taken.resource).insert other.code other.resource := by
  have hmem : taken.resource.id ∈ (resourcesOf taken.code file.groups).map (·.id) := by
    rw [Taken, find?_eq, List.find?_isSome] at htaken
    simpa using htaken
  simp only [insert, put_put_comm hne hmem]

/-- What is added in the end need not have been added before a history
whose places are all taken. -/
theorem insert_addAll_insert {file : ResourceFile} {history : List Addition}
    (htaken : ∀ addition ∈ history, file.Taken addition) (last : Addition) :
    ((file.insert last.code last.resource).addAll history).insert last.code last.resource =
      (file.addAll history).insert last.code last.resource := by
  induction history generalizing file with
  | nil => exact insert_insert_of_key_eq rfl file
  | cons addition rest ih =>
      -- The first writing of the last resource moves to the right, until one in
      -- the same place covers it.
      rw [addAll_cons, addAll_cons]
      by_cases hkey : last.key = addition.key
      · rw [insert_insert_of_key_eq hkey]
      · rw [insert_insert_comm (Ne.symm hkey) (htaken addition List.mem_cons_self)]
        refine ih fun other hother => ?_
        exact (htaken other (List.mem_cons_of_mem addition hother)).insert addition

/-- A history of additions that is repeated changes nothing. -/
theorem addAll_addAll (file : ResourceFile) (history : List Addition) :
    (file.addAll history).addAll history = file.addAll history := by
  induction history using List.reverseRecOn with
  | nil => rfl
  | append_singleton history last ih =>
      rw [addAll_concat, addAll_concat, insert_addAll_insert (fun _ => taken_addAll file) last, ih]

end ResourceFile

end ResourceAssembler
