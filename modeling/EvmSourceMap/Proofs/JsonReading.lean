import EvmSourceMap.Json.Printer
import EvmSourceMap.Json.Reader
import EvmSourceMap.Proofs.ExceptInversion

namespace EvmSourceMap.Proofs.JsonReading

open Json
open ExceptInversion

theorem ofText_cons {b : UInt8} {rest behind : Bytes} {token : Token}
    (hspace : Token.isSpace b = false) (h : Token.next? b rest = some (token, behind)) :
    Token.ofText (b :: rest) = token :: Token.ofText behind := by
  rw [Token.ofText, if_neg (Bool.not_eq_true _ ▸ hspace)]
  split
  · rename_i hnext
    cases h.symm.trans hnext
    rfl
  · rename_i hnext
    cases h.symm.trans hnext

theorem read_brackets : Json.read "[]" = .ok (.array []) := by
  have htokens : Token.ofText "[]" = [.openArray, .closeArray] := by
    change Token.ofText [0x5b, 0x5d] = _
    rw [ofText_cons rfl rfl, ofText_cons rfl rfl, Token.ofText]
  change (Token.ofText "[]").foldlM ReadState.step (.value []) >>= _ = _
  rw [htokens]
  rfl

/-! ### Texts that begin with a brace -/

/-- The outermost of the open containers is an object. -/
def InObject (stack : List Frame) : Prop :=
  ∃ members key, stack.getLast? = some (.object members key)

/-- Whatever follows, the value can only be an object. -/
def ObjectAhead : ReadState → Prop
  | .value stack => InObject stack
  | .elementOrEnd stack => InObject stack
  | .afterElement stack _ => InObject stack
  | .keyOrEnd stack => stack = [] ∨ InObject stack
  | .key stack _ => stack = [] ∨ InObject stack
  | .colon stack _ _ => stack = [] ∨ InObject stack
  | .afterMember stack _ => stack = [] ∨ InObject stack
  | .done result => result.isObject = true

theorem not_inObject_nil : ¬ InObject [] := by
  rintro ⟨_, _, h⟩
  cases h

theorem inObject_array_cons {elements : List Json} {stack : List Frame} :
    InObject (.array elements :: stack) ↔ InObject stack := by
  cases stack with
  | nil =>
      refine iff_of_false ?_ not_inObject_nil
      rintro ⟨_, _, h⟩
      cases h
  | cons frame stack => simp only [InObject, List.getLast?_cons_cons]

theorem inObject_object_cons {members : List (Bytes × Json)} {key : Bytes} {stack : List Frame} :
    InObject (.object members key :: stack) ↔ stack = [] ∨ InObject stack := by
  cases stack with
  | nil => exact iff_of_true ⟨members, key, rfl⟩ (.inl rfl)
  | cons frame stack => simp [InObject, List.getLast?_cons_cons]

theorem objectAhead_deliver {result : Json} {stack : List Frame}
    (h : InObject stack ∨ stack = [] ∧ result.isObject = true) :
    ObjectAhead (.deliver result stack) := by
  cases stack with
  | nil => exact (h.resolve_left not_inObject_nil).2
  | cons frame stack =>
      replace h := h.resolve_right fun h => List.cons_ne_nil _ _ h.1
      cases frame with
      | array elements => exact inObject_array_cons.mp h
      | object members key => exact inObject_object_cons.mp h

theorem objectAhead_beginValue {stack : List Frame} {token : Token} {state : ReadState}
    (hstack : InObject stack) (h : ReadState.beginValue stack token = .ok state) :
    ObjectAhead state := by
  cases token with
  | scalar value =>
      cases h
      exact objectAhead_deliver (.inl hstack)
  | openArray =>
      cases h
      exact hstack
  | openObject =>
      cases h
      exact .inr hstack
  | _ => cases h

theorem objectAhead_step {state next : ReadState} {token : Token} (hstate : ObjectAhead state)
    (h : state.step token = .ok next) : ObjectAhead next := by
  rw [ReadState.step.eq_def] at h
  split at h
  · exact objectAhead_beginValue hstate h
  · cases h
    exact objectAhead_deliver (.inl hstate)
  · exact objectAhead_beginValue (inObject_array_cons.mpr hstate) h
  · cases h
    exact inObject_array_cons.mpr hstate
  · cases h
    exact objectAhead_deliver (.inl hstate)
  · cases h
    exact objectAhead_deliver (hstate.symm.imp_right fun hnil => ⟨hnil, rfl⟩)
  · cases h
    exact hstate
  · cases h
    exact hstate
  · cases h
    exact inObject_object_cons.mpr hstate
  · cases h
    exact hstate
  · cases h
    exact objectAhead_deliver (hstate.symm.imp_right fun hnil => ⟨hnil, rfl⟩)
  · cases h

/-- A text that begins with a brace holds nothing but an object. -/
theorem isObject_of_read {rest : Bytes} {value : Json} (h : Json.read (0x7b :: rest) = .ok value) :
    value.isObject = true := by
  have htokens : Token.ofText (stripByteOrderMark (0x7b :: rest)) =
      .openObject :: Token.ofText rest := ofText_cons rfl rfl
  rw [Json.read, htokens, List.foldlM_cons] at h
  obtain ⟨state, hrun, hend⟩ := bind_eq_ok_iff.mp h
  obtain ⟨opened, hopened, hrest⟩ := bind_eq_ok_iff.mp hrun
  cases hopened
  -- The brace is read first, and no token after it leads out of the object.
  have hopened : ObjectAhead (.keyOrEnd []) := .inl rfl
  have hahead : ObjectAhead state :=
    foldlM_induction (fun _ _ _ _ hstate hstep => objectAhead_step hstate hstep) hopened hrest
  split at hend
  · cases hend
    exact hahead
  · cases hend

theorem exists_cons_of_document? {value : Json} {text : Bytes} (hvalue : value.isObject = true)
    (htext : value.document? = some text) : ∃ rest, text = 0x7b :: rest := by
  cases value with
  | object members =>
      rw [document?] at htext
      split at htext
      · cases htext
        cases members with
        | nil => exact ⟨_, rfl⟩
        | cons member members => exact ⟨_, rfl⟩
      · cases htext
  | _ => cases hvalue

/-! ### Properties of what is read -/

/-- The values that a text has as one token. -/
inductive Leaf : Json → Prop
  | null : Leaf .null
  | bool (value : Bool) : Leaf (.bool value)
  | integer (value : Int) : Leaf (.integer value)
  | real (value : Binary64) : Leaf (.real value)
  | string {text : Bytes} (h : Utf8.isValid text = true) : Leaf (.string text)

def LeafToken (token : Token) : Prop :=
  ∀ value, token = .scalar value → Leaf value

theorem leafToken_ofNumber (negative : Bool) (whole : Bytes) (fraction : Option Bytes)
    (exponent : Option Int) : LeafToken (Token.ofNumber negative whole fraction exponent) := by
  intro value hvalue
  simp only [Token.ofNumber] at hvalue
  repeat' split at hvalue
  all_goals cases hvalue <;> constructor

theorem leafToken_punctuation? {b : UInt8} {token : Token}
    (h : Token.punctuation? b = some token) : LeafToken token := by
  intro value hvalue
  subst hvalue
  rw [Token.punctuation?.eq_def] at h
  split at h <;> cases h

theorem leaf_word? {letters : Bytes} {value : Json} (h : Token.word? letters = some value) :
    Leaf value := by
  simp only [Token.word?, List.lookup_cons, List.lookup_nil] at h
  repeat' split at h
  all_goals cases h <;> constructor

theorem leafToken_next? {b : UInt8} {rest behind : Bytes} {token : Token}
    (h : Token.next? b rest = some (token, behind)) : LeafToken token := by
  rw [Token.next?] at h
  split at h
  · rename_i hpunctuation
    cases h
    exact leafToken_punctuation? hpunctuation
  · split at h
    · obtain ⟨⟨text, _⟩, -, h⟩ := Option.bind_eq_some_iff.mp h
      rintro value rfl
      simp only [Option.ite_none_right_eq_some, Option.some.injEq, Prod.mk.injEq,
        Token.scalar.injEq] at h
      rw [← h.2.1]
      exact .string h.1
    · split at h
      · simp only [Token.number?, Option.bind_eq_bind, Option.bind_eq_some_iff, Option.pure_def,
          Option.some.injEq, Prod.mk.injEq] at h
        obtain ⟨_, -, _, -, _, -, rfl, -⟩ := h
        exact leafToken_ofNumber _ _ _ _
      · obtain ⟨word, hword, hsame⟩ := Option.map_eq_some_iff.mp h
        rintro value rfl
        cases hsame
        exact leaf_word? hword

theorem leafToken_of_mem_ofText {text : Bytes} {token : Token} (h : token ∈ Token.ofText text) :
    LeafToken token := by
  fun_induction Token.ofText text with
  | case1 => cases h
  | case2 b rest hspace ih => exact ih h
  | case3 b rest hspace next behind hnext ih =>
      rcases List.mem_cons.mp h with rfl | hbehind
      · exact leafToken_next? hnext
      · exact ih hbehind
  | case4 b rest hspace hnext =>
      rintro value rfl
      cases List.mem_singleton.mp h

theorem LeafToken.isValid {text : Bytes} (h : LeafToken (.scalar (.string text))) :
    Utf8.isValid text = true := by
  cases h _ rfl with
  | string hvalid => exact hvalid

/-- A property that passes from the parts of a value to the value. -/
structure Hereditary (P : Json → Prop) : Prop where
  leaf : ∀ {value}, Leaf value → P value
  array : ∀ {elements}, (∀ element ∈ elements, P element) → P (.array elements)
  object : ∀ {members}, Entries.Ascending members →
    (∀ member ∈ members, Utf8.isValid member.1 = true ∧ P member.2) → P (.object members)

section

variable {P : Json → Prop}

/-- What is known of the members that have been read. -/
structure MembersHold (P : Json → Prop) (members : List (Bytes × Json)) : Prop where
  ascending : Entries.Ascending members
  member : ∀ member ∈ members, Utf8.isValid member.1 = true ∧ P member.2

theorem membersHold_nil : MembersHold P [] :=
  ⟨.nil, nofun⟩

theorem MembersHold.insert {members : List (Bytes × Json)} (h : MembersHold P members) {key : Bytes}
    (hkey : Utf8.isValid key = true) {value : Json} (hvalue : P value) :
    MembersHold P (Entries.insert key value members) where
  ascending := h.ascending.insert key value
  member other hother := by
    rcases Entries.mem_insert hother with rfl | hmem
    · exact ⟨hkey, hvalue⟩
    · exact h.member other hmem

def FrameHolds (P : Json → Prop) : Frame → Prop
  | .array elements => ∀ element ∈ elements, P element
  | .object members key => MembersHold P members ∧ Utf8.isValid key = true

abbrev StackHolds (P : Json → Prop) (stack : List Frame) : Prop :=
  ∀ frame ∈ stack, FrameHolds P frame

/-- All values that a reader holds have a property. -/
def StateHolds (P : Json → Prop) : ReadState → Prop
  | .value stack => StackHolds P stack
  | .elementOrEnd stack => StackHolds P stack
  | .afterElement stack elements => StackHolds P stack ∧ ∀ element ∈ elements, P element
  | .keyOrEnd stack => StackHolds P stack
  | .key stack members => StackHolds P stack ∧ MembersHold P members
  | .colon stack members key =>
    StackHolds P stack ∧ MembersHold P members ∧ Utf8.isValid key = true
  | .afterMember stack members => StackHolds P stack ∧ MembersHold P members
  | .done result => P result

theorem stateHolds_deliver {result : Json} {stack : List Frame} (hresult : P result)
    (hstack : StackHolds P stack) : StateHolds P (.deliver result stack) := by
  cases stack with
  | nil => exact hresult
  | cons frame stack =>
      obtain ⟨hframe, hrest⟩ := List.forall_mem_cons.mp hstack
      cases frame with
      | array elements => exact ⟨hrest, List.forall_mem_cons.mpr ⟨hresult, hframe⟩⟩
      | object members key => exact ⟨hrest, hframe.1.insert hframe.2 hresult⟩

namespace Hereditary

variable (hP : Hereditary P)

include hP

theorem stateHolds_beginValue {stack : List Frame} {token : Token} {state : ReadState}
    (hstack : StackHolds P stack) (htoken : LeafToken token)
    (h : ReadState.beginValue stack token = .ok state) : StateHolds P state := by
  cases token with
  | scalar value =>
      cases h
      exact stateHolds_deliver (hP.leaf (htoken value rfl)) hstack
  | openArray | openObject =>
      cases h
      exact hstack
  | _ => cases h

theorem stateHolds_step {state next : ReadState} {token : Token} (hstate : StateHolds P state)
    (htoken : LeafToken token) (h : state.step token = .ok next) : StateHolds P next := by
  rw [ReadState.step.eq_def] at h
  split at h
  · exact hP.stateHolds_beginValue hstate htoken h
  · cases h
    exact stateHolds_deliver (hP.array nofun) hstate
  · have hempty : FrameHolds P (.array []) := fun _ hmem => absurd hmem List.not_mem_nil
    exact hP.stateHolds_beginValue (List.forall_mem_cons.mpr ⟨hempty, hstate⟩) htoken h
  · cases h
    exact List.forall_mem_cons.mpr ⟨hstate.2, hstate.1⟩
  · cases h
    refine stateHolds_deliver (hP.array ?_) hstate.1
    exact fun element hmem => hstate.2 element (List.mem_reverse.mp hmem)
  · cases h
    exact stateHolds_deliver (hP.object .nil nofun) hstate
  · cases h
    exact ⟨hstate, membersHold_nil, htoken.isValid⟩
  · cases h
    exact ⟨hstate.1, hstate.2, htoken.isValid⟩
  · cases h
    exact List.forall_mem_cons.mpr ⟨hstate.2, hstate.1⟩
  · cases h
    exact hstate
  · cases h
    exact stateHolds_deliver (hP.object hstate.2.ascending hstate.2.member) hstate.1
  · cases h

/-- What passes from the parts of a value to the value holds of all values that are read. -/
theorem of_read {text : Bytes} {value : Json} (h : read text = .ok value) : P value := by
  obtain ⟨state, hfold, hdone⟩ := bind_eq_ok_iff.mp h
  have hstart : StateHolds P (.value []) := fun _ hmem => absurd hmem List.not_mem_nil
  have hstate : StateHolds P state := by
    apply foldlM_induction _ hstart hfold
    intro token hmem before after hbefore hstep
    exact hP.stateHolds_step hbefore (leafToken_of_mem_ofText hmem) hstep
  split at hdone
  · exact Except.ok.inj hdone ▸ hstate
  · cases hdone

end Hereditary

end

end EvmSourceMap.Proofs.JsonReading
