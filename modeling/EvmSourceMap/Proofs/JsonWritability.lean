import EvmSourceMap.Json.Codec
import EvmSourceMap.Proofs.JsonReading
import EvmSourceMap.Proofs.SortedMapLookup

namespace EvmSourceMap.Proofs.JsonWritability

open Json
open JsonReading
open SortedMapLookup

/-- Keys and strings of the members are valid. -/
def MembersWritable (members : List (Bytes × Json)) : Prop :=
  ∀ member ∈ members, Utf8.isValid member.1 = true ∧ member.2.isWritable = true

theorem areWritable_iff {elements : List Json} :
    areWritable elements = true ↔ ∀ element ∈ elements, element.isWritable = true := by
  induction elements with
  | nil => simp [areWritable]
  | cons element rest ih => simp [areWritable, ih]

theorem membersAreWritable_iff {members : List (Bytes × Json)} :
    membersAreWritable members = true ↔ MembersWritable members := by
  induction members with
  | nil => simp [membersAreWritable, MembersWritable]
  | cons member rest ih =>
      rw [membersAreWritable, Bool.and_eq_true, Bool.and_eq_true, ih, MembersWritable,
        MembersWritable, List.forall_mem_cons]

@[simp] theorem isWritable_array {elements : List Json} :
    (array elements).isWritable = true ↔ ∀ element ∈ elements, element.isWritable = true := by
  rw [isWritable]
  exact areWritable_iff

@[simp] theorem isWritable_object {members : List (Bytes × Json)} :
    (object members).isWritable = true ↔ MembersWritable members := by
  rw [isWritable]
  exact membersAreWritable_iff

@[simp] theorem isWritable_string {text : Bytes} :
    (string text).isWritable = true ↔ Utf8.isValid text = true := by
  rw [isWritable]

theorem membersWritable_nil : MembersWritable [] := nofun

theorem MembersWritable.cons {key : Bytes} {member : Json} {members : List (Bytes × Json)}
    (hkey : Utf8.isValid key = true) (hmember : member.isWritable = true)
    (h : MembersWritable members) : MembersWritable ((key, member) :: members) :=
  List.forall_mem_cons.mpr ⟨⟨hkey, hmember⟩, h⟩

theorem MembersWritable.append {front back : List (Bytes × Json)} (hfront : MembersWritable front)
    (hback : MembersWritable back) : MembersWritable (front ++ back) :=
  List.forall_mem_append.mpr ⟨hfront, hback⟩

theorem MembersWritable.insert {members : List (Bytes × Json)} (h : MembersWritable members)
    {key : Bytes} (hkey : Utf8.isValid key = true) {member : Json}
    (hmember : member.isWritable = true) :
    MembersWritable (Entries.insert key member members) := by
  intro other hother
  rcases Entries.mem_insert hother with rfl | hmem
  · exact ⟨hkey, hmember⟩
  · exact h other hmem

theorem MembersWritable.isWritable_ofMembers {members : List (Bytes × Json)}
    (h : MembersWritable members) : (ofMembers members).isWritable = true :=
  isWritable_object.mpr fun member hmem => h member (mem_of_mem_ofList hmem)

theorem isWritable_of_get? {value member : Json} {key : Bytes} (h : value.isWritable = true)
    (hget : value.get? key = some member) : member.isWritable = true := by
  obtain ⟨members, hmembers, hget⟩ := Option.bind_eq_some_iff.mp hget
  cases value with
  | object members' =>
      cases hmembers
      exact (isWritable_object.mp h _ (mem_of_get? hget)).2
  | _ => cases hmembers

theorem isWritable_set {value member : Json} {key : Bytes} (h : value.isWritable = true)
    (hkey : Utf8.isValid key = true) (hmember : member.isWritable = true) :
    (value.set key member).isWritable = true := by
  cases value with
  | object members => exact isWritable_object.mpr ((isWritable_object.mp h).insert hkey hmember)
  | _ => exact h

theorem exists_document?_iff {value : Json} :
    (∃ text, value.document? = some text) ↔ value.isWritable = true := by
  rw [document?]
  split
  · exact iff_of_true ⟨_, rfl⟩ ‹_›
  · exact iff_of_false (by simp) ‹_›

theorem document?_eq_none {value : Json} (h : value.isWritable = false) : value.document? = none :=
  if_neg (Bool.not_eq_true _ ▸ h)

/-! ### Reading -/

theorem hereditary_isWritable : Hereditary fun value => value.isWritable = true where
  leaf h := by
    cases h with
    | string hvalid => exact isWritable_string.mpr hvalid
    | _ => rfl
  array := isWritable_array.mpr
  object _ := isWritable_object.mpr

/-- All strings of a value that has been read are valid. -/
theorem isWritable_of_read {text : Bytes} {value : Json} (h : read text = .ok value) :
    value.isWritable = true :=
  hereditary_isWritable.of_read h

theorem lawful_strict : Codec.strict.Lawful where
  exists_document?_iff _ := exists_document?_iff
  isWritable_of_read _ _ := isWritable_of_read
  isObject_of_document? _ _ _ htext hread hvalue := by
    obtain ⟨rest, rfl⟩ := exists_cons_of_document? hvalue htext
    exact isObject_of_read hread

theorem lawful_zeroEnded : Codec.zeroEnded.Lawful where
  exists_document?_iff _ := exists_document?_iff
  isWritable_of_read _ _ := isWritable_of_read
  isObject_of_document? _ _ _ htext hread hvalue := by
    obtain ⟨rest, rfl⟩ := exists_cons_of_document? hvalue htext
    exact isObject_of_read hread

end EvmSourceMap.Proofs.JsonWritability
