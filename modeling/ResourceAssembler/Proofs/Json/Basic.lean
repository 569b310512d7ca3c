import Mathlib.Data.List.Forall2
import ResourceAssembler.Json.Basic
import ResourceAssembler.Proofs.Outcome

/-!
# What is read of a JSON value

A fixed list of named values is found in an object, under its names and among any other members, or
in a list that holds just these values in order; only as the content of a choice of a kept value it
is no list. A text, a number and a row of values are read from nothing but themselves. The name of a
choice without content stands alone or with `null`.
-/

namespace ResourceAssembler.Json

open Outcome

/-- The members give the value under the name, and no other value under that name. -/
def Gives (members : List (String × Json)) (name : String) (value : Json) : Prop :=
  members.filter (·.1 = name) = [(name, value)]

/-- The values that stand in a JSON value for a list of names. -/
inductive HasParts (names : List String) : Json → List Json → Prop
  | members {members : List (String × Json)} {parts : List Json}
      (h : List.Forall₂ (Gives members) names parts) : HasParts names (.object members) parts
  | items {parts : List Json} (h : parts.length = names.length) : HasParts names (.list parts) parts

/-- The values that make up the content of a choice, in a text or in a value that was kept. -/
structure HasContent (origin : Origin) (names : List String) (json : Json) (parts : List Json) :
    Prop where
  parts : json.HasParts names parts
  object : origin = .value → ∃ members, json = .object members

/-- The value is the name of a choice without content. -/
inductive Names : Json → String → Prop
  | alone (name : String) : Names (.text name) name
  | withNull (name : String) : Names (.object [(name, .null)]) name

variable {json : Json}

/-! ## Named values -/

theorem member?_eq_some_iff {members : List (String × Json)} {name : String} {value : Json} :
    member? members name = some value ↔ Gives members name value := by
  unfold member? Gives
  constructor
  · intro h
    split at h
    case h_1 found content hfilter =>
      have hname : found = name := by
        have hfound : (found, content) ∈ members.filter (·.1 = name) := by
          rw [hfilter]
          exact List.mem_singleton_self _
        exact of_decide_eq_true (List.mem_filter.mp hfound).2
      rw [hfilter, hname, Option.some.inj h]
    case h_2 => cases h
  · intro h
    rw [h]

theorem fields?_eq_some_iff {names : List String} {parts : List Json} :
    fields? names json = some parts ↔ HasParts names json parts := by
  constructor
  · intro h
    unfold fields? at h
    split at h
    case h_1 members =>
      apply HasParts.members
      simpa only [member?_eq_some_iff] using mapM_eq_some_iff_forall₂.mp h
    case h_2 items =>
      split at h
      case isTrue hlength =>
        cases h
        exact .items hlength
      case isFalse => cases h
    case h_3 => cases h
  · rintro (h | h)
    case members =>
      apply mapM_eq_some_iff_forall₂.mpr
      simpa only [member?_eq_some_iff] using h
    case items => exact if_pos h

theorem content?_eq_some_iff {origin : Origin} {names : List String} {parts : List Json} :
    json.content? origin names = some parts ↔ HasContent origin names json parts := by
  unfold content?
  split
  case h_1 items =>
    refine iff_of_false nofun ?_
    intro h
    obtain ⟨members, hobject⟩ := h.object rfl
    cases hobject
  case h_2 hlist =>
    rw [fields?_eq_some_iff]
    constructor
    · intro hparts
      refine ⟨hparts, ?_⟩
      intro horigin
      cases hparts with
      | members => exact ⟨_, rfl⟩
      | items => exact (hlist _ horigin rfl).elim
    · exact HasContent.parts

/-- The values for a list of names are settled. -/
theorem HasParts.unique {names : List String} {parts others : List Json}
    (h : HasParts names json parts) (hother : HasParts names json others) : parts = others := by
  rw [← fields?_eq_some_iff] at h hother
  exact Option.some.inj (h.symm.trans hother)

/-- A member whose name no other one has is given under its name. -/
theorem gives_of_mem {members : List (String × Json)} (h : (members.map (·.1)).Nodup)
    {member : String × Json} (hmem : member ∈ members) : Gives members member.1 member.2 := by
  unfold Gives
  induction members with
  | nil => cases hmem
  | cons first rest ih =>
      obtain ⟨hfirst, hrest⟩ := List.nodup_cons.mp h
      rcases List.mem_cons.mp hmem with rfl | hlater
      · have hnone : rest.filter (·.1 = member.1) = [] := by
          rw [List.filter_eq_nil_iff]
          intro other hother hname
          exact hfirst (List.mem_map.mpr ⟨other, hother, of_decide_eq_true hname⟩)
        rw [List.filter_cons_of_pos (by simp), hnone]
      · have hname : first.1 ≠ member.1 :=
          fun hsame => hfirst (List.mem_map.mpr ⟨member, hlater, hsame.symm⟩)
        rw [List.filter_cons_of_neg (by simpa using hname), ih hrest hlater]

/-- An object whose names are all different gives its values under its names. -/
theorem hasParts_object {members : List (String × Json)} {names : List String} {parts : List Json}
    (h : names.Nodup) (hnames : members.map (·.1) = names) (hparts : members.map (·.2) = parts) :
    HasParts names (.object members) parts := by
  subst hnames hparts
  apply HasParts.members
  rw [List.forall₂_map_left_iff, List.forall₂_map_right_iff, List.forall₂_same]
  exact fun member hmem => gives_of_mem h hmem

theorem hasContent_object {origin : Origin} {members : List (String × Json)} {names : List String}
    {parts : List Json} (h : names.Nodup) (hnames : members.map (·.1) = names)
    (hparts : members.map (·.2) = parts) : HasContent origin names (.object members) parts where
  parts := hasParts_object h hnames hparts
  object _ := ⟨members, rfl⟩

/-! ## Single values -/

theorem text?_eq_some_iff {s : String} : json.text? = some s ↔ json = .text s := by
  cases json <;> simp [text?]

theorem list?_eq_some_iff {items : List Json} : json.list? = some items ↔ json = .list items := by
  cases json <;> simp [list?]

theorem within?_eq_some_iff {lo hi n : Int} :
    json.within? lo hi = some n ↔ json = .whole n ∧ lo ≤ n ∧ n ≤ hi := by
  cases json with
  | whole m =>
      unfold within?
      rw [Option.ite_none_right_eq_some, Json.whole.injEq, Option.some.injEq]
      constructor
      · rintro ⟨hrange, rfl⟩
        exact ⟨rfl, hrange⟩
      · rintro ⟨rfl, hrange⟩
        exact ⟨hrange, rfl⟩
  | _ => simp [within?]

theorem int64?_eq_some_iff {n : Int64} : json.int64? = some n ↔ json = .whole n.toInt := by
  simp only [int64?, Option.map_eq_some_iff, within?_eq_some_iff]
  constructor
  · rintro ⟨i, ⟨rfl, hlow, hhigh⟩, rfl⟩
    rw [Int64.toInt_minValue] at hlow
    rw [Int64.toInt_maxValue] at hhigh
    rw [Int64.toInt_ofInt_of_le hlow (by omega)]
  · rintro rfl
    exact ⟨n.toInt, ⟨rfl, n.minValue_le_toInt, n.toInt_le⟩, n.ofInt_toInt⟩

theorem count?_eq_some_iff {n : Nat} :
    json.count? = some n ↔ json = .whole n ∧ n < UInt64.size := by
  simp only [count?, Option.map_eq_some_iff, within?_eq_some_iff]
  constructor
  · rintro ⟨i, ⟨rfl, hlow, hhigh⟩, rfl⟩
    exact ⟨by rw [Int.toNat_of_nonneg hlow], by omega⟩
  · rintro ⟨rfl, hsize⟩
    exact ⟨n, ⟨rfl, by omega, by omega⟩, Int.toNat_natCast n⟩

theorem byte?_eq_some_iff {byte : UInt8} : json.byte? = some byte ↔ json = .whole byte.toNat := by
  have hbyte : byte.toNat < 256 := byte.toNat_lt
  simp only [byte?, Option.map_eq_some_iff, within?_eq_some_iff]
  constructor
  · rintro ⟨i, ⟨rfl, hlow, hhigh⟩, rfl⟩
    rw [UInt8.toNat_ofNat', Nat.mod_eq_of_lt (by omega), Int.toNat_of_nonneg hlow]
  · rintro rfl
    exact ⟨byte.toNat, ⟨rfl, by omega, by omega⟩, by rw [Int.toNat_natCast, UInt8.ofNat_toNat]⟩

/-! ## Choices -/

theorem choice?_eq_some_iff {name : String} {content : Option Json} :
    json.choice? = some (name, content) ↔
      json = .text name ∧ content = none ∨
        ∃ value, json = .object [(name, value)] ∧ content = some value := by
  unfold choice?
  split
  case h_1 => simp [eq_comm]
  case h_2 => simp [eq_comm]
  case h_3 htext hobject =>
    refine iff_of_false (by simp) ?_
    rintro (⟨rfl, -⟩ | ⟨value, rfl, -⟩)
    · exact htext _ rfl
    · exact hobject _ _ rfl

theorem choice?_eq_some_some_iff {name : String} {content : Json} :
    json.choice? = some (name, some content) ↔ json = .object [(name, content)] := by
  rw [choice?_eq_some_iff]
  constructor
  · rintro (⟨-, hnone⟩ | ⟨value, rfl, hvalue⟩)
    · cases hnone
    · rw [Option.some.inj hvalue]
  · rintro rfl
    exact .inr ⟨content, rfl, rfl⟩

theorem bareChoice?_eq_some_iff {name : String} :
    json.bareChoice? = some name ↔ json.Names name := by
  unfold bareChoice?
  constructor
  · intro h
    split at h
    case h_1 found hchoice =>
      obtain ⟨rfl, -⟩ | ⟨value, -, hvalue⟩ := choice?_eq_some_iff.mp hchoice
      · cases h
        exact .alone name
      · cases hvalue
    case h_2 found hchoice =>
      cases h
      rw [choice?_eq_some_some_iff.mp hchoice]
      exact .withNull name
    case h_3 => cases h
  · rintro (_ | _)
    case alone => rfl
    case withNull => rfl

end ResourceAssembler.Json
