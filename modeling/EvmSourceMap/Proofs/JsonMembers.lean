import EvmSourceMap.Proofs.JsonReading
import EvmSourceMap.Proofs.SortedMapLookup

namespace EvmSourceMap.Proofs.JsonMembers

open Json
open JsonReading
open SortedMapLookup

/-- The keys of an object ascend, so that each of them occurs once. -/
def MembersAscend (value : Json) : Prop :=
  ∀ members, value.members? = some members → Entries.Ascending members

/-- An object has got a member under a key, and all its other members stay as
they are. -/
structure Updated (before : Json) (key : Bytes) (member : Json) (after : Json) : Prop where
  isObject : before.isObject = true
  remainsObject : after.isObject = true
  here : after.get? key = some member
  elsewhere : ∀ other, other ≠ key → after.get? other = before.get? other
  ascend : MembersAscend before → MembersAscend after

theorem members?_eq_some_iff {value : Json} {members : List (Bytes × Json)} :
    value.members? = some members ↔ value = object members := by
  cases value with
  | object members' => simp [members?]
  | _ => exact iff_of_false nofun nofun

theorem string?_eq_some_iff {value : Json} {text : Bytes} :
    value.string? = some text ↔ value = string text := by
  cases value with
  | string text' => simp [string?]
  | _ => exact iff_of_false nofun nofun

theorem isObject_iff {value : Json} :
    value.isObject = true ↔ ∃ members, value = object members := by
  rw [isObject, Option.isSome_iff_exists]
  simp only [members?_eq_some_iff]

theorem isObject_of_get? {value member : Json} {key : Bytes} (h : value.get? key = some member) :
    value.isObject = true := by
  obtain ⟨members, hmembers, -⟩ := Option.bind_eq_some_iff.mp h
  rw [isObject, hmembers]
  rfl

theorem updated_set {value : Json} (h : value.isObject = true) (key : Bytes) (member : Json) :
    Updated value key member (value.set key member) := by
  obtain ⟨members, rfl⟩ := isObject_iff.mp h
  have hlookup : ∀ other, ((object members).set key member).get? other =
      if compare other key = .eq then some member else (object members).get? other :=
    fun other => get?_insert other key member members
  refine ⟨rfl, rfl, ?_, ?_, ?_⟩
  · rw [hlookup, if_pos Std.ReflCmp.compare_self]
  · intro other hne
    rw [hlookup, if_neg (mt Std.LawfulEqCmp.eq_of_compare hne)]
  · intro hascend members' hmembers'
    rw [← Option.some.inj hmembers']
    exact (hascend members rfl).insert key member

theorem set_set (value : Json) (key : Bytes) (member member' : Json) :
    (value.set key member').set key member = value.set key member := by
  cases value with
  | object members => exact congrArg object (insert_insert key member member' members)
  | _ => rfl

theorem get?_set_of_ne {key other : Bytes} (hne : other ≠ key) (value member : Json) :
    (value.set key member).get? other = value.get? other := by
  cases hobject : value.isObject with
  | true => exact (updated_set hobject key member).elsewhere other hne
  | false =>
      cases value with
      | object members => cases hobject
      | _ => rfl

theorem get?_ofMembers (key : Bytes) (members : List (Bytes × Json)) :
    (ofMembers members).get? key = Entries.get? key members.reverse :=
  get?_ofList key members

theorem get?_ofMembers_eq_none {key : Bytes} {members : List (Bytes × Json)}
    (h : key ∉ members.map Prod.fst) : (ofMembers members).get? key = none := by
  rw [get?_ofMembers, get?_eq_none_iff]
  intro member hmem
  apply h
  exact List.mem_map.mpr ⟨(key, member), List.mem_reverse.mp hmem, rfl⟩

/-! ### Order at every depth -/

/-- The members of all objects in a value ascend, as they do in every value that is read. -/
inductive Ordered : Json → Prop
  | null : Ordered .null
  | bool (value : Bool) : Ordered (.bool value)
  | integer (value : Int) : Ordered (.integer value)
  | real (value : Binary64) : Ordered (.real value)
  | string (text : Bytes) : Ordered (.string text)
  | array {elements : List Json} (h : ∀ element ∈ elements, Ordered element) :
      Ordered (.array elements)
  | object {members : List (Bytes × Json)} (hascending : Entries.Ascending members)
      (hmembers : ∀ member ∈ members, Ordered member.2) : Ordered (.object members)

theorem Ordered.membersAscend {value : Json} (h : Ordered value) : MembersAscend value := by
  rintro members hmembers
  cases h with
  | object hascending _ =>
      cases hmembers
      exact hascending
  | _ => cases hmembers

theorem Ordered.of_get? {value member : Json} {key : Bytes} (h : Ordered value)
    (hget : value.get? key = some member) : Ordered member := by
  obtain ⟨members, hmembers, hmember⟩ := Option.bind_eq_some_iff.mp hget
  cases h with
  | object _ hordered =>
      cases hmembers
      exact hordered _ (mem_of_get? hmember)
  | _ => cases hmembers

theorem ordered_ofMembers {members : List (Bytes × Json)}
    (h : ∀ member ∈ members, Ordered member.2) : Ordered (ofMembers members) :=
  .object (Entries.ascending_ofList members) fun member hmem => h member (mem_of_mem_ofList hmem)

theorem hereditary_ordered : Hereditary Ordered where
  leaf h := by cases h <;> constructor
  array := .array
  object hascending hmembers := .object hascending fun member hmem => (hmembers member hmem).2

/-- Every value that is read is in order. -/
theorem ordered_of_read {text : Bytes} {value : Json} (h : read text = .ok value) : Ordered value :=
  hereditary_ordered.of_read h

end EvmSourceMap.Proofs.JsonMembers
