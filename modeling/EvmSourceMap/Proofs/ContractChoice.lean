import EvmSourceMap.CompilerOutput.Artifacts
import EvmSourceMap.Proofs.ListedSources

/-!
The contract that is taken from a compiler's output, and what is wrong with an output that has none
to take.
-/

namespace EvmSourceMap.Proofs.ContractChoice

open CompilerOutput
open JsonMembers
open ListedSources

/-- A contract has code of a kind and a source map for it, and neither is empty. -/
def HasCode (contract : Json) (kind : CodeKind) (bytecode sourceMap : Bytes) : Prop :=
  ∃ evm code, contract.get? "evm" = some evm ∧ evm.get? kind.key = some code ∧
    code.get? "object" = some (.string bytecode) ∧
    code.get? "sourceMap" = some (.string sourceMap) ∧ bytecode ≠ [] ∧ sourceMap ≠ []

/-- A contract stands under its name in one of the files. What is no object is no file. -/
def StandsIn (output : Json) (file name : Bytes) (contract : Json) : Prop :=
  ∃ files members, output.get? "contracts" = some (.object files) ∧
    (file, .object members) ∈ files ∧ (name, contract) ∈ members

def Usable (output : Json) (kind : CodeKind) (artifacts : Artifacts) : Prop :=
  ∃ contract, StandsIn output artifacts.file artifacts.contract contract ∧
    HasCode contract kind artifacts.bytecode artifacts.sourceMap

/-- The order of two contracts: that of their files, and in one file that of their names. -/
def order (a b : Bytes × Bytes) : Ordering :=
  (compare a.1 b.1).then (compare a.2 b.2)

/-- Of all contracts that have code, these are the artifacts of the first one. -/
structure FirstUsable (output : Json) (kind : CodeKind) (artifacts : Artifacts) : Prop where
  usable : Usable output kind artifacts
  least : ∀ other, Usable output kind other →
    (order (artifacts.file, artifacts.contract) (other.file, other.contract)).isLE = true

/-- Of all contracts with a name, whether they have code or not, this is the one in the first
file. -/
structure FirstNamed (output : Json) (name file : Bytes) (contract : Json) : Prop where
  standsIn : StandsIn output file name contract
  least : ∀ file' contract', StandsIn output file' name contract' →
    (compare file file').isLE = true

/-- What is taken from an output for a name, or what is wrong with it. -/
inductive Choice (output : Json) (kind : CodeKind) : Bytes → Except Error Artifacts → Prop
  | notAnObject {name : Bytes} (h : output.isObject = false) :
      Choice output kind name (.error .notAnObject)
  | noContracts {name : Bytes} (hobject : output.isObject = true)
      (h : ∀ files, output.get? "contracts" ≠ some (.object files)) :
      Choice output kind name (.error (.missingSection "contracts"))
  | first {artifacts : Artifacts} (h : FirstUsable output kind artifacts) :
      Choice output kind [] (.ok artifacts)
  | noneUsable {files : List (Bytes × Json)}
      (hfiles : output.get? "contracts" = some (.object files))
      (h : ∀ artifacts, ¬ Usable output kind artifacts) :
      Choice output kind [] (.error (.noUsableContract kind))
  | named {name file bytecode sourceMap : Bytes} {contract : Json} (hname : name ≠ [])
      (hfirst : FirstNamed output name file contract)
      (hcode : HasCode contract kind bytecode sourceMap) :
      Choice output kind name (.ok ⟨file, name, bytecode, sourceMap⟩)
  | unusable {name file : Bytes} {contract : Json} (hname : name ≠ [])
      (hfirst : FirstNamed output name file contract)
      (h : ∀ bytecode sourceMap, ¬ HasCode contract kind bytecode sourceMap) :
      Choice output kind name (.error (.unusableContract file name kind))
  | unknown {name : Bytes} {files : List (Bytes × Json)} (hname : name ≠ [])
      (hfiles : output.get? "contracts" = some (.object files))
      (h : ∀ file contract, ¬ StandsIn output file name contract) :
      Choice output kind name (.error (.unknownContract name))

/-! ### The first of several -/

section

variable {α β κ : Type} {cmp : κ → κ → Ordering} [Std.TransCmp cmp] {key : α → κ} {l : List α}
  (h : l.Pairwise fun a b => cmp (key a) (key b) = .lt)

include h

theorem first_iff_least {p : α → Prop} {a : α} :
    (∃ front back, l = front ++ a :: back ∧ p a ∧ ∀ x ∈ front, ¬ p x) ↔
      a ∈ l ∧ p a ∧ ∀ b ∈ l, p b → (cmp (key a) (key b)).isLE = true := by
  constructor
  · rintro ⟨front, back, rfl, ha, hfront⟩
    refine ⟨by simp, ha, fun b hb hp => ?_⟩
    rcases List.mem_append.mp hb with hbefore | hbehind
    · exact absurd hp (hfront b hbefore)
    · rcases List.mem_cons.mp hbehind with rfl | hback
      · exact Std.ReflCmp.isLE_rfl
      · rw [(List.pairwise_cons.mp (List.pairwise_append.mp h).2.1).1 b hback]
        rfl
  · rintro ⟨hmem, ha, hleast⟩
    obtain ⟨front, back, rfl⟩ := List.append_of_mem hmem
    refine ⟨front, back, rfl, ha, fun x hx hp => ?_⟩
    have hlt := (List.pairwise_append.mp h).2.2 x hx a List.mem_cons_self
    have hle := hleast x (List.mem_append_left _ hx) hp
    rw [Std.OrientedCmp.gt_of_lt hlt] at hle
    cases hle

theorem find?_eq_some_iff_least {p : α → Bool} {a : α} :
    l.find? p = some a ↔
      a ∈ l ∧ p a = true ∧ ∀ b ∈ l, p b = true → (cmp (key a) (key b)).isLE = true := by
  have hfirst := first_iff_least h (p := fun b => p b = true) (a := a)
  rw [← hfirst, List.find?_eq_some_iff_append]
  simp only [Bool.not_eq_true', Bool.not_eq_true]
  constructor
  · rintro ⟨ha, front, back, hl, hfront⟩
    exact ⟨front, back, hl, ha, hfront⟩
  · rintro ⟨front, back, hl, ha, hfront⟩
    exact ⟨ha, front, back, hl, hfront⟩

theorem findSome?_eq_some_iff_least {f : α → Option β} {b : β} :
    l.findSome? f = some b ↔
      ∃ a ∈ l, f a = some b ∧
        ∀ a' ∈ l, f a' ≠ none → (cmp (key a) (key a')).isLE = true := by
  have hfirst := fun a => first_iff_least h (p := fun a => f a ≠ none) (a := a)
  simp only [ne_eq, Decidable.not_not] at hfirst
  rw [List.findSome?_eq_some_iff]
  constructor
  · rintro ⟨front, a, back, hl, ha, hfront⟩
    obtain ⟨hmem, -, hleast⟩ := (hfirst a).mp ⟨front, back, hl, by simp [ha], hfront⟩
    exact ⟨a, hmem, ha, hleast⟩
  · rintro ⟨a, hmem, ha, hleast⟩
    obtain ⟨front, back, hl, -, hfront⟩ := (hfirst a).mpr ⟨hmem, by simp [ha], hleast⟩
    exact ⟨front, a, back, hl, ha, hfront⟩

end

/-! ### The contracts of an output -/

instance : Std.TransCmp order :=
  inferInstanceAs (Std.TransCmp (compareLex (compareOn Prod.fst) (compareOn Prod.snd)))

theorem artifacts?_eq_some_iff {contract : Contract} {kind : CodeKind} {artifacts : Artifacts} :
    contract.artifacts? kind = some artifacts ↔
      artifacts.file = contract.file ∧ artifacts.contract = contract.name ∧
        HasCode contract.value kind artifacts.bytecode artifacts.sourceMap := by
  simp only [Contract.artifacts?, Option.bind_eq_bind, Option.bind_eq_some_iff,
    string?_eq_some_iff, Option.ite_none_left_eq_some, Bool.or_eq_true, List.isEmpty_iff, not_or,
    HasCode]
  constructor
  · rintro ⟨code, ⟨evm, hevm, hcode⟩, bytecode, ⟨_, hbytecode, rfl⟩, sourceMap,
      ⟨_, hsourceMap, rfl⟩, hne, hartifacts⟩
    cases hartifacts
    exact ⟨rfl, rfl, evm, code, hevm, hcode, hbytecode, hsourceMap, hne⟩
  · rintro ⟨hfile, hname, evm, code, hevm, hcode, hbytecode, hsourceMap, hne⟩
    refine ⟨code, ⟨evm, hevm, hcode⟩, _, ⟨_, hbytecode, rfl⟩, _, ⟨_, hsourceMap, rfl⟩, hne, ?_⟩
    rw [← hfile, ← hname]

theorem place_of_artifacts? {contract : Contract} {kind : CodeKind} {artifacts : Artifacts}
    (h : contract.artifacts? kind = some artifacts) :
    (contract.file, contract.name) = (artifacts.file, artifacts.contract) := by
  obtain ⟨hfile, hname, -⟩ := artifacts?_eq_some_iff.mp h
  rw [hfile, hname]

theorem artifacts?_eq_none_iff {contract : Contract} {kind : CodeKind} :
    contract.artifacts? kind = none ↔
      ∀ bytecode sourceMap, ¬ HasCode contract.value kind bytecode sourceMap := by
  simp only [Option.eq_none_iff_forall_ne_some, Ne, artifacts?_eq_some_iff]
  constructor
  · intro h bytecode sourceMap hcode
    exact h ⟨contract.file, contract.name, bytecode, sourceMap⟩ ⟨rfl, rfl, hcode⟩
  · rintro h artifacts ⟨-, -, hcode⟩
    exact h _ _ hcode

section

variable {output : Json} {files : List (Bytes × Json)}
  (hfiles : output.get? "contracts" = some (.object files))

include hfiles

theorem mem_contracts_iff {contract : Contract} :
    contract ∈ contracts files ↔
      StandsIn output contract.file contract.name contract.value := by
  simp only [contracts, List.mem_flatMap, List.mem_map, Prod.exists, StandsIn, hfiles,
    Option.some.injEq, Json.object.injEq, exists_and_left, exists_eq_left']
  constructor
  · rintro ⟨file, value, hfile, name, member, hmember, rfl⟩
    cases hvalue : value.members? with
    | none => simp [hvalue] at hmember
    | some members =>
        rw [members?_eq_some_iff.mp hvalue] at hfile
        rw [hvalue] at hmember
        exact ⟨members, hfile, hmember⟩
  · rintro ⟨members, hfile, hmember⟩
    exact ⟨_, _, hfile, _, _, hmember, rfl⟩

theorem exists_artifacts?_iff {kind : CodeKind} {artifacts : Artifacts} :
    (∃ contract ∈ contracts files, contract.artifacts? kind = some artifacts) ↔
      Usable output kind artifacts := by
  simp only [mem_contracts_iff hfiles, artifacts?_eq_some_iff]
  constructor
  · rintro ⟨contract, hstands, hfile, hname, hcode⟩
    exact ⟨contract.value, hfile ▸ hname ▸ hstands, hcode⟩
  · rintro ⟨value, hstands, hcode⟩
    exact ⟨⟨artifacts.file, artifacts.contract, value⟩, hstands, rfl, rfl, hcode⟩

theorem findSome?_eq_none_iff_usable {kind : CodeKind} :
    (contracts files).findSome? (·.artifacts? kind) = none ↔
      ∀ artifacts, ¬ Usable output kind artifacts := by
  rw [List.findSome?_eq_none_iff]
  simp only [Option.eq_none_iff_forall_ne_some, ← exists_artifacts?_iff hfiles, not_exists,
    not_and]
  exact ⟨fun h artifacts contract hmem => h contract hmem artifacts,
    fun h contract hmem artifacts => h artifacts contract hmem⟩

theorem find?_eq_none_iff_named {name : Bytes} :
    (contracts files).find? (·.name == name) = none ↔
      ∀ file contract, ¬ StandsIn output file name contract := by
  simp only [List.find?_eq_none, mem_contracts_iff hfiles, beq_iff_eq]
  constructor
  · exact fun h file contract hstands => h ⟨file, name, contract⟩ hstands rfl
  · rintro h contract hstands rfl
    exact h _ _ hstands

variable (hordered : Ordered output)

include hordered

theorem pairwise_contracts :
    (contracts files).Pairwise fun a b => order (a.file, a.name) (b.file, b.name) = .lt := by
  cases hordered.of_get? hfiles with
  | object hascending hmembers =>
      -- The contracts of one file stand in the order of their names, the files in that of theirs.
      refine List.pairwise_flatMap.mpr ⟨?_, hascending.imp ?_⟩
      · rintro ⟨file, value⟩ hfile
        rw [List.pairwise_map]
        cases hvalue : value.members? with
        | none => exact List.Pairwise.nil
        | some members =>
            refine ((hmembers _ hfile).membersAscend members hvalue).imp fun {a b} hlt => ?_
            simp [order, hlt]
      · rintro ⟨file, value⟩ ⟨file', value'⟩ hlt a ha b hb
        obtain ⟨_, -, rfl⟩ := List.mem_map.mp ha
        obtain ⟨_, -, rfl⟩ := List.mem_map.mp hb
        simp [order, hlt]

theorem findSome?_eq_some_iff_firstUsable {kind : CodeKind} {artifacts : Artifacts} :
    (contracts files).findSome? (·.artifacts? kind) = some artifacts ↔
      FirstUsable output kind artifacts := by
  rw [findSome?_eq_some_iff_least (pairwise_contracts hfiles hordered)]
  constructor
  · rintro ⟨contract, hmem, hartifacts, hleast⟩
    refine ⟨(exists_artifacts?_iff hfiles).mp ⟨contract, hmem, hartifacts⟩, fun other hother => ?_⟩
    obtain ⟨contract', hmem', hartifacts'⟩ := (exists_artifacts?_iff hfiles).mpr hother
    have hle := hleast contract' hmem' (by simp [hartifacts'])
    rwa [place_of_artifacts? hartifacts, place_of_artifacts? hartifacts'] at hle
  · rintro ⟨husable, hleast⟩
    obtain ⟨contract, hmem, hartifacts⟩ := (exists_artifacts?_iff hfiles).mpr husable
    refine ⟨contract, hmem, hartifacts, fun contract' hmem' hne => ?_⟩
    obtain ⟨other, hartifacts'⟩ := Option.ne_none_iff_exists'.mp hne
    have hle := hleast other ((exists_artifacts?_iff hfiles).mp ⟨contract', hmem', hartifacts'⟩)
    rwa [← place_of_artifacts? hartifacts, ← place_of_artifacts? hartifacts'] at hle

theorem find?_eq_some_iff_firstNamed {name : Bytes} {contract : Contract} :
    (contracts files).find? (·.name == name) = some contract ↔
      contract.name = name ∧ FirstNamed output name contract.file contract.value := by
  rw [find?_eq_some_iff_least (pairwise_contracts hfiles hordered)]
  simp only [mem_contracts_iff hfiles, beq_iff_eq]
  constructor
  · rintro ⟨hstands, rfl, hleast⟩
    refine ⟨rfl, hstands, fun file' contract' hstands' => ?_⟩
    simpa [order] using hleast ⟨file', contract.name, contract'⟩ hstands' rfl
  · rintro ⟨rfl, hstands, hleast⟩
    refine ⟨hstands, rfl, fun contract' hstands' hname => ?_⟩
    rw [hname] at hstands'
    simpa [order, hname] using hleast _ _ hstands'

end

theorem StandsIn.exists_files {output : Json} {file name : Bytes} {contract : Json}
    (h : StandsIn output file name contract) :
    ∃ files, output.get? "contracts" = some (.object files) := by
  obtain ⟨files, -, hfiles, -⟩ := h
  exact ⟨files, hfiles⟩

/-! ### Choosing -/

theorem findArtifacts_of_refused {output : Json} {e : Error}
    (h : readSection output "contracts" = .error e) (name : Bytes) (kind : CodeKind) :
    findArtifacts output name kind = .error e := by
  rw [findArtifacts, h]
  rfl

section

variable {output : Json} {files : List (Bytes × Json)}
  (hfiles : output.get? "contracts" = some (.object files)) (kind : CodeKind)

include hfiles

theorem findArtifacts_nil :
    findArtifacts output [] kind =
      match (contracts files).findSome? (·.artifacts? kind) with
      | some artifacts => .ok artifacts
      | none => .error (.noUsableContract kind) := by
  rw [findArtifacts, readSection_eq_ok_iff.mpr hfiles]
  change (match (contracts files).findSome? (·.artifacts? kind) with | some _ => _ | none => _) = _
  cases (contracts files).findSome? (·.artifacts? kind) <;> rfl

theorem findArtifacts_of_name {name : Bytes} (hname : name ≠ []) :
    findArtifacts output name kind =
      match (contracts files).find? (·.name == name) with
      | none => .error (.unknownContract name)
      | some contract =>
        match contract.artifacts? kind with
        | some artifacts => .ok artifacts
        | none => .error (.unusableContract contract.file name kind) := by
  rw [findArtifacts, readSection_eq_ok_iff.mpr hfiles]
  change (if name.isEmpty = true then _ else _) = _
  rw [if_neg (by simpa using hname)]
  cases (contracts files).find? (·.name == name) with
  | none => rfl
  | some contract =>
      dsimp only
      cases contract.artifacts? kind <;> rfl

end

theorem choice_findArtifacts {output : Json} (hordered : Ordered output) (name : Bytes)
    (kind : CodeKind) : Choice output kind name (findArtifacts output name kind) := by
  cases hsection : readSection output "contracts" with
  | error e =>
      rw [findArtifacts_of_refused hsection]
      rcases readSection_eq_error_iff.mp hsection with ⟨hobject, rfl⟩ | ⟨hobject, hnone, rfl⟩
      · exact .notAnObject hobject
      · exact .noContracts hobject hnone
  | ok files =>
      have hfiles := readSection_eq_ok_iff.mp hsection
      by_cases hname : name = []
      · subst hname
        rw [findArtifacts_nil hfiles]
        cases hfirst : (contracts files).findSome? (·.artifacts? kind) with
        | some artifacts =>
            exact .first ((findSome?_eq_some_iff_firstUsable hfiles hordered).mp hfirst)
        | none => exact .noneUsable hfiles ((findSome?_eq_none_iff_usable hfiles).mp hfirst)
      · rw [findArtifacts_of_name hfiles kind hname]
        cases hfirst : (contracts files).find? (·.name == name) with
        | none => exact .unknown hname hfiles ((find?_eq_none_iff_named hfiles).mp hfirst)
        | some contract =>
            obtain ⟨rfl, hnamed⟩ := (find?_eq_some_iff_firstNamed hfiles hordered).mp hfirst
            dsimp only
            cases hartifacts : contract.artifacts? kind with
            | none => exact .unusable hname hnamed (artifacts?_eq_none_iff.mp hartifacts)
            | some artifacts =>
                obtain ⟨hfile, hsame, hcode⟩ := artifacts?_eq_some_iff.mp hartifacts
                cases artifacts
                cases hfile
                cases hsame
                exact .named hname hnamed hcode

theorem findArtifacts_of_choice {output : Json} (hordered : Ordered output) {name : Bytes}
    {kind : CodeKind} {r : Except Error Artifacts} (h : Choice output kind name r) :
    findArtifacts output name kind = r := by
  cases h with
  | notAnObject hobject =>
      exact findArtifacts_of_refused (readSection_eq_error_iff.mpr (.inl ⟨hobject, rfl⟩)) name kind
  | noContracts hobject hnone =>
      exact findArtifacts_of_refused
        (readSection_eq_error_iff.mpr (.inr ⟨hobject, hnone, rfl⟩)) name kind
  | first hfirst =>
      obtain ⟨contract, hstands, -⟩ := hfirst.usable
      obtain ⟨files, hfiles⟩ := hstands.exists_files
      rw [findArtifacts_nil hfiles,
        (findSome?_eq_some_iff_firstUsable hfiles hordered).mpr hfirst]
  | noneUsable hfiles hnone =>
      rw [findArtifacts_nil hfiles, (findSome?_eq_none_iff_usable hfiles).mpr hnone]
  | @named name file bytecode sourceMap contract hname hfirst hcode =>
      obtain ⟨files, hfiles⟩ := hfirst.standsIn.exists_files
      have hfind : (contracts files).find? (·.name == name) = some ⟨file, name, contract⟩ :=
        (find?_eq_some_iff_firstNamed hfiles hordered).mpr ⟨rfl, hfirst⟩
      have hartifacts : Contract.artifacts? ⟨file, name, contract⟩ kind =
          some ⟨file, name, bytecode, sourceMap⟩ := artifacts?_eq_some_iff.mpr ⟨rfl, rfl, hcode⟩
      rw [findArtifacts_of_name hfiles kind hname, hfind]
      dsimp only
      rw [hartifacts]
  | @unusable name file contract hname hfirst hnone =>
      obtain ⟨files, hfiles⟩ := hfirst.standsIn.exists_files
      have hfind : (contracts files).find? (·.name == name) = some ⟨file, name, contract⟩ :=
        (find?_eq_some_iff_firstNamed hfiles hordered).mpr ⟨rfl, hfirst⟩
      rw [findArtifacts_of_name hfiles kind hname, hfind]
      dsimp only
      rw [artifacts?_eq_none_iff.mpr hnone]
  | unknown hname hfiles hnone =>
      rw [findArtifacts_of_name hfiles kind hname, (find?_eq_none_iff_named hfiles).mpr hnone]

/-- An output without a name to look for gives the first contract that has code, and fails exactly
if none has. With a name, the first file that has it decides. -/
theorem findArtifacts_choice {output : Json} (h : Ordered output) (kind : CodeKind) :
    (∀ name r, findArtifacts output name kind = r ↔ Choice output kind name r) ∧
    ((∃ artifacts, findArtifacts output [] kind = .ok artifacts) ↔
      ∃ artifacts, Usable output kind artifacts) := by
  refine ⟨fun name r => ⟨?_, findArtifacts_of_choice h⟩, ?_, ?_⟩
  · rintro rfl
    exact choice_findArtifacts h name kind
  · rintro ⟨artifacts, hfound⟩
    have hchoice := choice_findArtifacts h [] kind
    rw [hfound] at hchoice
    cases hchoice with
    | first hfirst => exact ⟨artifacts, hfirst.usable⟩
    | named hname => exact absurd rfl hname
  · rintro ⟨artifacts, contract, hstands, hcode⟩
    obtain ⟨files, hfiles⟩ := hstands.exists_files
    rw [findArtifacts_nil hfiles]
    cases hfirst : (contracts files).findSome? (·.artifacts? kind) with
    | some artifacts => exact ⟨artifacts, rfl⟩
    | none =>
        exact absurd ⟨contract, hstands, hcode⟩
          ((findSome?_eq_none_iff_usable hfiles).mp hfirst artifacts)

/-- The first file is no object, and the first contract of the second one has no code. It is passed
over without a name, but with its name it decides, although another file has code for that name. -/
theorem findArtifacts_choice_passedOver :
    let code : Json := .ofMembers [("object", .string "00"), ("sourceMap", .string "0:1:0")]
    let usable : Json := .ofMembers [("evm", .ofMembers [("deployedBytecode", code)])]
    let first : Json := .ofMembers [("Vault", usable), ("Token", .ofMembers [("evm", .null)])]
    let second : Json := .ofMembers [("Token", usable)]
    let files : Json := .ofMembers [("c.sol", second), ("b.sol", first), ("a.sol", .string "Token")]
    let output : Json := .ofMembers [("contracts", files)]
    let vault : Artifacts := ⟨"b.sol", "Vault", "00", "0:1:0"⟩
    let refused : Error := .unusableContract "b.sol" "Token" .runtime
    Ordered output ∧
      findArtifacts output [] .runtime = .ok vault ∧ Choice output .runtime [] (.ok vault) ∧
      findArtifacts output "Token" .runtime = .error refused ∧
      Choice output .runtime "Token" (.error refused) := by
  intro code usable first second files output vault refused
  have hcode : Ordered code := ordered_ofMembers (by simp [Ordered.string])
  have husable : Ordered usable := ordered_ofMembers (by simp [ordered_ofMembers, hcode])
  have hfirst : Ordered first :=
    ordered_ofMembers (by simp [ordered_ofMembers, husable, Ordered.null])
  have hsecond : Ordered second := ordered_ofMembers (by simp [husable])
  have hfiles : Ordered files := ordered_ofMembers (by simp [hfirst, hsecond, Ordered.string])
  have houtput : Ordered output := ordered_ofMembers (by simp [hfiles])
  obtain ⟨hchoice, -⟩ := findArtifacts_choice houtput .runtime
  have hvault : findArtifacts output [] .runtime = .ok vault := rfl
  have hrefused : findArtifacts output "Token" .runtime = .error refused := rfl
  exact ⟨houtput, hvault, (hchoice _ _).mp hvault, hrefused, (hchoice _ _).mp hrefused⟩

end EvmSourceMap.Proofs.ContractChoice
