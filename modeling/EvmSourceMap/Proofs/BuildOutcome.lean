import EvmSourceMap.Proofs.MappingBuild
import EvmSourceMap.Proofs.SegmentGrammar

namespace EvmSourceMap.Proofs.BuildOutcome

open SourceMap
open MappingBuild
open SegmentGrammar
open SourceMapDecoding

/-- What a code and its source map come to. A fault in the source map counts
before one in the code, which then need not be looked at. -/
inductive Outcome (bytecode sourceMap : Bytes) : Except Mapping.Error Mapping → Prop
  | badSourceMap {e : Error} (hrows : decode sourceMap = .error e) :
      Outcome bytecode sourceMap (.error (.sourceMap e))
  | badCode {rows : List Row} {e : Bytecode.Error} (hrows : decode sourceMap = .ok rows)
      (hcode : Bytecode.decode bytecode = .error e) :
      Outcome bytecode sourceMap (.error (.bytecode e))
  | built {rows : List Row} {code : Bytes} (hrows : decode sourceMap = .ok rows)
      (hcode : Bytecode.decode bytecode = .ok code) :
      Outcome bytecode sourceMap (.ok (Mapping.ofParts rows code))

theorem outcome_build (bytecode sourceMap : Bytes) :
    Outcome bytecode sourceMap (Mapping.build bytecode sourceMap) := by
  rw [Mapping.build]
  cases hrows : decode sourceMap with
  | error e => exact .badSourceMap hrows
  | ok rows =>
      cases hcode : Bytecode.decode bytecode with
      | error e => exact .badCode hrows hcode
      | ok code => exact .built hrows hcode

theorem exists_decode_iff_inGrammar {text : Bytes} :
    (∃ rows, decode text = .ok rows) ↔ InGrammar text := by
  simp only [exists_decode_iff, exists_read_iff, forall_segments_iff]

theorem Outcome.eq_error_of_not_inGrammar {bytecode sourceMap : Bytes}
    {result : Except Mapping.Error Mapping} (h : Outcome bytecode sourceMap result)
    (hmalformed : ¬ InGrammar sourceMap) :
    ∃ e, result = .error (.sourceMap e) ∧ FirstViolation sourceMap e.index e.segment := by
  cases h with
  | badSourceMap hrows => exact ⟨_, rfl, firstViolation_of_decode hrows⟩
  | badCode hrows => exact absurd (exists_decode_iff_inGrammar.mp ⟨_, hrows⟩) hmalformed
  | built hrows => exact absurd (exists_decode_iff_inGrammar.mp ⟨_, hrows⟩) hmalformed

/-- A pool of any size comes to the same mapping or the same error as no pool,
for either order of its two tasks, and a malformed source map is what the error
is about whatever the code is. -/
theorem buildWith_pool (pool : TaskPool) (bytecode sourceMap : Bytes) :
    ∃ result, Mapping.buildWith (some pool) bytecode sourceMap = result ∧
      Mapping.buildWith none bytecode sourceMap = result ∧
      Outcome bytecode sourceMap result ∧
      (¬ InGrammar sourceMap →
        ∃ e, result = .error (.sourceMap e) ∧ FirstViolation sourceMap e.index e.segment) := by
  have houtcome := outcome_build bytecode sourceMap
  exact ⟨Mapping.build bytecode sourceMap, buildWith_eq_build (some pool) bytecode sourceMap,
    buildWith_eq_build none bytecode sourceMap, houtcome, houtcome.eq_error_of_not_inGrammar⟩

/-- The code is read first and both texts are malformed: the digits are odd in
number, and the second segment has a letter for a length. -/
example :
    Mapping.buildWith (some ⟨2, fun _ size => ⟨(List.range size).reverse, List.reverse_perm _⟩⟩)
      "600" "0:1;0:x" = .error (.sourceMap ⟨1, "0:x", .invalidField .length "x"⟩) := by
  rfl

end EvmSourceMap.Proofs.BuildOutcome
