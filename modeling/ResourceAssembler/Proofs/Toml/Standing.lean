import ResourceAssembler.Toml.Document

/-!
# What stands in a document

A text that a document has put under a key of a table with a header stays there, whatever lines
follow: no key is given twice, and no table is named twice.
-/

namespace ResourceAssembler.Toml

/-! ## Entries -/

namespace Entries

variable {entries : Entries} {key other : String} {value : Value}

theorem get?_cons (k : String) (v : Value) (rest : Entries) :
    get? ((k, v) :: rest) key = if k = key then some v else rest.get? key := by
  unfold get?
  rw [List.find?_cons]
  by_cases h : k = key <;> simp [h]

theorem get?_put : (entries.put key value).get? other =
    if key = other then some value else entries.get? other := by
  induction entries with
  | nil => rw [put, get?_cons]
  | cons entry rest ih =>
      obtain ⟨k, v⟩ := entry
      rw [put]
      split
      case isTrue hkey =>
        subst hkey
        rw [get?_cons, get?_cons]
        split <;> rfl
      case isFalse hkey =>
        rw [get?_cons, get?_cons, ih]
        split
        case isTrue hother => rw [if_neg (by rintro rfl; exact hkey hother)]
        case isFalse => rfl

theorem get?_erase_of_ne (h : key ≠ other) :
    (entries.erase key).get? other = entries.get? other := by
  induction entries with
  | nil => rfl
  | cons entry rest ih =>
      obtain ⟨k, v⟩ := entry
      unfold erase at ih ⊢
      rw [List.filter_cons, get?_cons]
      split
      case isTrue => rw [get?_cons, ih]
      case isFalse hkey =>
        obtain rfl : k = key := by simpa using hkey
        rw [if_neg h, ih]

theorem get?_append (h : entries.get? other = some value) (more : Entries) :
    get? (entries ++ more) other = some value := by
  obtain ⟨entry, hentry, hvalue⟩ := Option.map_eq_some_iff.mp h
  unfold get?
  rw [List.find?_append, hentry, Option.some_or, Option.map_some, hvalue]

/-! ## Standing -/

/-- The value stands at the end of a path, along which every table has a header of its own. -/
inductive Stands (value : Value) : List String → Entries → Prop where
  | here {key : String} {entries : Entries} (h : entries.get? key = some value) :
      Stands value [key] entries
  | within {key : String} {path : List String} {entries below : Entries}
      (h : entries.get? key = some (.table .header below)) (hbelow : Stands value path below) :
      Stands value (key :: path) entries

namespace Stands

variable {after : Entries} {path place : List String} {content : String} {offset : Nat}

/-- Only the first key of the path counts. -/
theorem of_get? (h : Stands value (key :: path) entries)
    (hkept : ∀ v, entries.get? key = some v → after.get? key = some v) :
    Stands value (key :: path) after := by
  cases h with
  | here h => exact .here (hkept _ h)
  | within h hbelow => exact .within (hkept _ h) hbelow

theorem exists_cons (h : Stands value path entries) : ∃ key more, path = key :: more := by
  cases h with
  | here => exact ⟨_, _, rfl⟩
  | within => exact ⟨_, _, rfl⟩

end Stands

section Visits

variable {α : Type} {kind : PathKind} {change : TableOrigin → Entries → Option (α × Entries)}
  {path place : List String} {origin : TableOrigin} {after : Entries} {result : α}
  {content : String} {offset : Nat}

/-- A visit that goes on below a key changes the value of this key only. -/
theorem exists_put_of_visit
    (h : visit kind change (key :: path) origin entries = some (result, after)) :
    ∃ value, after = entries.put key value := by
  rw [visit] at h
  split at h
  case h_4 => cases h
  case h_2 =>
    split at h
    case isTrue => cases h
    case isFalse =>
      obtain ⟨⟨_, below⟩, -, hafter⟩ := Option.bind_eq_some_iff.mp h
      cases hafter
      exact ⟨_, rfl⟩
  case h_1 | h_3 =>
    obtain ⟨⟨_, below⟩, -, hafter⟩ := Option.bind_eq_some_iff.mp h
    cases hafter
    exact ⟨_, rfl⟩

theorem visit_ne_of_text (htext : entries.get? key = some (.text content offset)) :
    visit kind change (key :: path) origin entries ≠ some (result, after) := by
  intro h
  rw [visit, htext] at h
  cases h

theorem exists_visit_of_table {below : Entries}
    (htable : entries.get? key = some (.table .header below))
    (h : visit kind change (key :: path) origin entries = some (result, after)) :
    ∃ changed, visit kind change path .header below = some (result, changed) ∧
      after = entries.put key (.table .header changed) := by
  rw [visit, htable] at h
  dsimp only at h
  split at h
  case isTrue => cases h
  case isFalse =>
    obtain ⟨⟨_, changed⟩, hvisit, hafter⟩ := Option.bind_eq_some_iff.mp h
    cases hafter
    exact ⟨changed, hvisit, rfl⟩

/-- A visit towards a text makes its change where the text stands at the
end of the rest of the path. -/
theorem exists_change_of_stands {more : List String}
    (hstands : Stands (.text content offset) (path ++ more) entries) (hmore : more ≠ [])
    (h : visit kind change path origin entries = some (result, after)) :
    ∃ origin below changed, change origin below = some (result, changed) ∧
      Stands (.text content offset) more below := by
  induction path generalizing origin entries after with
  | nil => exact ⟨origin, entries, after, h, hstands⟩
  | cons key path ih =>
      generalize hplace : key :: path ++ more = place at hstands
      cases hstands with
      | here => exact absurd (List.append_eq_nil_iff.mp (List.cons.inj hplace).2).2 hmore
      | within htable hbelow =>
          obtain ⟨rfl, rfl⟩ := List.cons.inj hplace
          obtain ⟨changed, hvisit, -⟩ := exists_visit_of_table htable h
          exact ih hbelow hvisit

/-- A text is left where it stands by a visit that leaves it there where the visit has a change. -/
theorem Stands.visit (hstands : Stands (.text content offset) place entries)
    (hchange : ∀ below, place = path ++ below → ∀ origin entries result after,
      change origin entries = some (result, after) → Stands (.text content offset) below entries →
        Stands (.text content offset) below after)
    (h : visit kind change path origin entries = some (result, after)) :
    Stands (.text content offset) place after := by
  induction path generalizing place origin entries after with
  | nil => exact hchange place rfl origin entries result after h hstands
  | cons key path ih =>
      by_cases hhead : place.head? = some key
      case neg =>
        obtain ⟨first, more, rfl⟩ := hstands.exists_cons
        obtain ⟨value, rfl⟩ := exists_put_of_visit h
        apply hstands.of_get?
        intro v hv
        rwa [get?_put, if_neg]
        rintro rfl
        exact hhead rfl
      cases hstands with
      | here htext =>
          cases hhead
          exact absurd h (visit_ne_of_text htext)
      | within htable hbelow =>
          cases hhead
          obtain ⟨changed, hvisit, rfl⟩ := exists_visit_of_table htable h
          apply Stands.within (by rw [get?_put, if_pos rfl])
          apply ih hbelow _ hvisit
          intro below hplace
          exact hchange below (congrArg (key :: ·) hplace)

end Visits

end Entries

/-! ## Drafts -/

namespace Draft

open Entries

variable {header : Header} {entries taken after : Entries} {place : List String}
  {content : String} {offset : Nat}

theorem exists_put_of_place? {table : Entries} {result : Unit}
    (h : place? header table entries = some (result, after)) :
    ∃ value, after = entries.put header.key value := by
  unfold place? at h
  dsimp only at h
  split at h
  case isFalse =>
    cases h
    exact ⟨_, rfl⟩
  case isTrue =>
    split at h
    case h_1 =>
      cases h
      exact ⟨_, rfl⟩
    case h_2 => cases h

/-- A table is taken out only where nothing stands that has to stay. -/
theorem get?_of_take? (h : take? header entries = some (taken, after)) :
    (∀ other, header.key ≠ other → after.get? other = entries.get? other) ∧
      (∀ content offset, entries.get? header.key ≠ some (.text content offset)) ∧
      ∀ below, entries.get? header.key ≠ some (.table .header below) := by
  unfold take? at h
  split at h
  case h_1 _ hthere =>
    cases h
    rw [hthere]
    exact ⟨fun other hother => by rw [get?_put, if_neg hother], by simp, by simp⟩
  case h_2 _ hthere | h_3 _ hthere =>
    cases h
    rw [hthere]
    exact ⟨fun _ _ => rfl, by simp, by simp⟩
  case h_4 _ hthere =>
    cases h
    rw [hthere]
    exact ⟨fun other hother => get?_erase_of_ne hother, by simp, by simp⟩
  case h_5 => cases h

theorem stands_of_take? (hstands : Stands (.text content offset) place entries)
    (h : take? header entries = some (taken, after)) :
    place.head? ≠ some header.key ∧ Stands (.text content offset) place after := by
  obtain ⟨hsame, htext, htable⟩ := get?_of_take? h
  obtain ⟨first, more, rfl⟩ := hstands.exists_cons
  have hne : header.key ≠ first := by
    rintro rfl
    cases hstands with
    | here hthere => exact htext _ _ hthere
    | within hthere => exact htable _ hthere
  refine ⟨fun hfirst => hne (Option.some.inj hfirst).symm, hstands.of_get? fun v hv => ?_⟩
  rwa [hsame first hne]

theorem stands_of_place? {table : Entries} {result : Unit}
    (hstands : Stands (.text content offset) place entries)
    (h : place? header table entries = some (result, after)) (hne : place.head? ≠ some header.key) :
    Stands (.text content offset) place after := by
  obtain ⟨value, rfl⟩ := exists_put_of_place? h
  obtain ⟨first, more, rfl⟩ := hstands.exists_cons
  apply hstands.of_get?
  intro v hv
  rwa [get?_put, if_neg]
  rintro rfl
  exact hne rfl

theorem stands_of_insert? {path : List String} {key : String} {value : Value}
    (hstands : Stands (.text content offset) place entries)
    (h : entries.insert? path key value = some after) :
    Stands (.text content offset) place after := by
  obtain ⟨⟨_, changed⟩, hvisit, hafter⟩ := Option.bind_eq_some_iff.mp h
  cases hafter
  apply hstands.visit _ hvisit
  rintro below - origin entries ⟨⟩ after hadd hbelow
  split at hadd
  case isTrue => cases hadd
  case isFalse =>
    cases hadd
    obtain ⟨first, more, rfl⟩ := hbelow.exists_cons
    exact hbelow.of_get? fun _ hv => get?_append hv _

/-- The document has put the text under a key of a table with a header. The table is still open, or
the open one is another, which does not lie where the text stands or above. -/
inductive States (content : String) (offset : Nat) (table key : String) : Draft → Prop where
  | opened {draft : Draft}
      (hname : draft.name = some { path := [], key := table, inArray := false })
      (h : Stands (.text content offset) [key] draft.entries) :
        States content offset table key draft
  | closed {draft : Draft} {header : Header} (hname : draft.name = some header)
      (happart : ¬header.path ++ [header.key] <+: [table, key])
      (h : Stands (.text content offset) [table, key] draft.root) :
        States content offset table key draft

namespace States

variable {draft next : Draft} {table key : String} {root : Entries}

theorem close? (h : draft.States content offset table key) (hclose : draft.close? = some root) :
    Stands (.text content offset) [table, key] root := by
  obtain ⟨before, name, entries⟩ := draft
  cases h with
  | opened hname h =>
      obtain rfl : name = _ := hname
      cases hclose
      exact .within (by rw [get?_put, if_pos rfl]) h
  | @closed header hname happart h =>
      obtain rfl : name = _ := hname
      obtain ⟨⟨_, root⟩, hvisit, hroot⟩ := Option.bind_eq_some_iff.mp hclose
      cases hroot
      apply h.visit _ hvisit
      intro below hplace origin entries _ after hput hbelow
      apply stands_of_place? hbelow hput
      intro hfirst
      obtain ⟨more, rfl⟩ := List.head?_eq_some_iff.mp hfirst
      exact happart ⟨more, by rw [hplace, List.append_assoc, List.singleton_append]⟩

/-- No line takes the text away. -/
theorem add? {line : Line} (h : draft.States content offset table key)
    (hadd : draft.add? line = some next) :
    next.States content offset table key := by
  cases line with
  | blank =>
      cases hadd
      exact h
  | pair pair =>
      obtain ⟨entries, hinsert, hnext⟩ := Option.bind_eq_some_iff.mp hadd
      cases hnext
      cases h with
      | opened hname h => exact .opened hname (stands_of_insert? h hinsert)
      | closed hname happart h => exact .closed hname happart h
  | header header =>
      obtain ⟨root, hclose, hadd⟩ := Option.bind_eq_some_iff.mp hadd
      obtain ⟨⟨entries, changed⟩, hvisit, hnext⟩ := Option.bind_eq_some_iff.mp hadd
      cases hnext
      have hroot := h.close? hclose
      apply States.closed rfl
      · rintro ⟨more, hplace⟩
        rw [List.append_assoc, List.singleton_append] at hplace
        rw [← hplace] at hroot
        obtain ⟨_, _, _, htake, hbelow⟩ :=
          exists_change_of_stands hroot (List.cons_ne_nil _ _) hvisit
        exact (stands_of_take? hbelow htake).1 rfl
      · exact hroot.visit (fun _ _ _ _ _ _ htake hbelow => (stands_of_take? hbelow htake).2) hvisit

/-- The text stands where it has been put at the end of the document, whatever lines follow. -/
theorem stands {lines : List Line} (h : draft.States content offset table key)
    (hrun : (lines.foldlM Draft.add? draft).bind Draft.close? = some root) :
    Stands (.text content offset) [table, key] root := by
  induction lines generalizing draft with
  | nil => exact h.close? hrun
  | cons line lines ih =>
      rw [List.foldlM_cons, Option.bind_eq_bind, Option.bind_assoc] at hrun
      obtain ⟨next, hadd, hrun⟩ := Option.bind_eq_some_iff.mp hrun
      exact ih (h.add? hadd) hrun

end States

end Draft

end ResourceAssembler.Toml
