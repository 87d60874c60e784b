import EvmSourceMap.PcIndex
import EvmSourceMap.Proofs.SortedMapLookup
import Mathlib.Algebra.Group.Nat.Defs

namespace EvmSourceMap.Proofs.OwnerLookup

open SortedMapLookup

/-- A pc lies between the least and the greatest key. -/
def Spans (index : PcIndex) (pc : UInt32) : Prop :=
  (∃ k ∈ index.keys, k ≤ pc) ∧ ∃ k ∈ index.keys, pc ≤ k

/-- An entry lies under the greatest key that is not above the pc. -/
def LastUpTo (index : PcIndex) (pc : UInt32) (e : PcEntry) : Prop :=
  ∃ k, index.find? k = some e ∧ k ≤ pc ∧ ∀ k' ∈ index.keys, k' ≤ pc → k' ≤ k

theorem find?_eq_some_iff {index : PcIndex} {k : UInt32} {e : PcEntry} :
    index.find? k = some e ↔ (k, e) ∈ index.entries :=
  get?_eq_some_iff

theorem exists_find?_iff {index : PcIndex} {k : UInt32} :
    (∃ e, index.find? k = some e) ↔ k ∈ index.keys :=
  exists_get?_iff

theorem maxKey?_eq_some_iff_le {index : PcIndex} {last : UInt32} :
    index.maxKey? = some last ↔ last ∈ index.keys ∧ ∀ k ∈ index.keys, k ≤ last := by
  simp only [maxKey?_eq_some_iff, Std.isLE_compare]

theorem exists_maxKey? {index : PcIndex} (h : index.keys ≠ []) :
    ∃ last, index.maxKey? = some last := by
  rw [maxKey?_eq]
  exact ⟨_, List.getLast?_eq_some_getLast h⟩

theorem owner?_eq_getLE? {index : PcIndex} {pc last : UInt32} (hlast : last ∈ index.keys)
    (hle : pc ≤ last) : index.owner? pc = index.getLE? pc := by
  obtain ⟨greatest, hmax⟩ := exists_maxKey? (List.ne_nil_of_mem hlast)
  have hgreatest := (maxKey?_eq_some_iff_le.mp hmax).2 last hlast
  rw [PcIndex.owner?, hmax]
  exact if_pos (UInt32.le_trans hle hgreatest)

theorem owner?_eq_none_of_gt {index : PcIndex} {pc : UInt32} (h : ∀ k ∈ index.keys, k < pc) :
    index.owner? pc = none := by
  rw [PcIndex.owner?]
  split
  · rename_i last hmax
    exact if_neg (UInt32.not_le.mpr (h last (maxKey?_eq_some_iff_le.mp hmax).1))
  · rfl

theorem getLE?_eq_some_iff_lastUpTo {index : PcIndex} {pc : UInt32} {e : PcEntry} :
    index.getLE? pc = some e ↔ LastUpTo index pc e := by
  simp only [getLE?_eq_some_iff, LastUpTo, find?_eq_some_iff, Std.isLE_compare]

theorem getLE?_eq_none_iff_lt {index : PcIndex} {pc : UInt32} :
    index.getLE? pc = none ↔ ∀ k ∈ index.keys, pc < k := by
  simp only [getLE?_eq_none_iff, ← Bool.not_eq_true, Std.isLE_compare, UInt32.not_le]

theorem owner?_eq_some_iff {index : PcIndex} {pc : UInt32} {e : PcEntry} :
    index.owner? pc = some e ↔ Spans index pc ∧ LastUpTo index pc e := by
  by_cases hlast : ∃ k ∈ index.keys, pc ≤ k
  · obtain ⟨last, hmem, hle⟩ := hlast
    rw [owner?_eq_getLE? hmem hle, getLE?_eq_some_iff_lastUpTo]
    refine ⟨fun h => ⟨⟨?_, last, hmem, hle⟩, h⟩, And.right⟩
    obtain ⟨k, hfind, hk, -⟩ := h
    exact ⟨k, exists_find?_iff.mp ⟨e, hfind⟩, hk⟩
  · have habove : ∀ k ∈ index.keys, k < pc := fun k hk =>
      UInt32.not_le.mp fun hle => hlast ⟨k, hk, hle⟩
    rw [owner?_eq_none_of_gt habove]
    exact iff_of_false (by simp) fun h => hlast h.1.2

theorem exists_owner?_iff {index : PcIndex} {pc : UInt32} :
    (∃ e, index.owner? pc = some e) ↔ Spans index pc := by
  constructor
  · rintro ⟨e, he⟩
    exact (owner?_eq_some_iff.mp he).1
  · rintro ⟨⟨k, hk, hle⟩, last, hlast, hle'⟩
    rw [owner?_eq_getLE? hlast hle', ← Option.isSome_iff_exists, ← Option.ne_none_iff_isSome,
      ne_eq, getLE?_eq_none_iff_lt]
    exact fun h => UInt32.not_lt.mpr hle (h k hk)

theorem length_spread (stop : UInt32) {k last : UInt32} {e : PcEntry}
    {rest : List (UInt32 × PcEntry)} (h : Entries.Ascending ((k, e) :: rest))
    (hlast : ((k, e) :: rest).getLast?.map (·.1) = some last) :
    (PcIndex.spread stop ((k, e) :: rest)).length =
      (last.toNat - k.toNat) + (stop.toNat - last.toNat) := by
  induction rest generalizing k e with
  | nil =>
      obtain rfl : k = last := by simpa using hlast
      simp [PcIndex.spread]
  | cons a rest ih =>
      obtain ⟨next, e'⟩ := a
      obtain ⟨hfirst, hrest⟩ := List.pairwise_cons.mp h
      have hnext : k < next := Std.compare_eq_lt.mp (hfirst (next, e') List.mem_cons_self)
      rw [List.getLast?_cons_cons] at hlast
      have hle : next ≤ last := by
        obtain ⟨a, ha, rfl⟩ := Option.map_eq_some_iff.mp hlast
        exact Std.isLE_compare.mp
          (((getLast?_eq_some_iff hrest).mp ha).2 (next, e') List.mem_cons_self)
      rw [PcIndex.spread, List.length_append, List.length_replicate, ih hrest hlast]
      rw [UInt32.lt_iff_toNat_lt] at hnext
      rw [UInt32.le_iff_toNat_le] at hle
      omega

/-- What is spread over a pc is the last entry up to it. -/
theorem getElem?_spread {stop k pc : UInt32} {e : PcEntry} {rest : List (UInt32 × PcEntry)}
    (h : Entries.Ascending ((k, e) :: rest)) (hle : k ≤ pc) (hlt : pc < stop) :
    (PcIndex.spread stop ((k, e) :: rest))[pc.toNat - k.toNat]? =
      some ((((k, e) :: rest).takeWhile fun a => (compare a.1 pc).isLE).getLast?.map (·.2)) := by
  induction rest generalizing k e with
  | nil =>
      have hk : (compare k pc).isLE = true := Std.isLE_compare.mpr hle
      rw [UInt32.le_iff_toNat_le] at hle
      rw [UInt32.lt_iff_toNat_lt] at hlt
      rw [PcIndex.spread, List.getElem?_replicate, if_pos (by omega)]
      simp [hk]
  | cons a rest ih =>
      obtain ⟨next, e'⟩ := a
      obtain ⟨hfirst, hrest⟩ := List.pairwise_cons.mp h
      have hnext : k < next := Std.compare_eq_lt.mp (hfirst (next, e') List.mem_cons_self)
      have hk : (compare k pc).isLE = true := Std.isLE_compare.mpr hle
      rw [UInt32.le_iff_toNat_le] at hle
      rw [UInt32.lt_iff_toNat_lt] at hnext
      rw [PcIndex.spread]
      -- before the next key the pc is in the run of this entry, else in what follows it
      by_cases hbehind : next ≤ pc
      · have hnext' : (compare next pc).isLE = true := Std.isLE_compare.mpr hbehind
        have hrec := ih hrest hbehind
        rw [UInt32.le_iff_toNat_le] at hbehind
        rw [List.getElem?_append_right (by rw [List.length_replicate]; omega),
          List.length_replicate, Nat.sub_sub_sub_cancel_right (Nat.le_of_lt hnext), hrec]
        simp [hk, hnext']
      · have hnext' : (compare next pc).isLE = false := by
          rwa [← Bool.not_eq_true, Std.isLE_compare]
        rw [UInt32.le_iff_toNat_le] at hbehind
        rw [List.getElem?_append_left (by rw [List.length_replicate]; omega),
          List.getElem?_replicate, if_pos (by omega)]
        simp [hk, hnext']

section

variable {index : PcIndex} {last : UInt32} (hlast : last ∈ index.keys)
  (hgreatest : ∀ k ∈ index.keys, k ≤ last)

include hlast hgreatest

theorem exists_dense_eq :
    ∃ k e rest, index.entries = (k, e) :: rest ∧
      (List.replicate k.toNat none ++ PcIndex.spread (last + 1) ((k, e) :: rest)).length =
        last.toNat + ((last + 1).toNat - last.toNat) ∧
      index.dense = (List.replicate k.toNat none ++
        PcIndex.spread (last + 1) ((k, e) :: rest)).rightpad (last.toNat + 1) none := by
  have hmax : index.maxKey? = some last := maxKey?_eq_some_iff_le.mpr ⟨hlast, hgreatest⟩
  cases hentries : index.entries with
  | nil =>
      rw [SortedMap.keys, hentries] at hlast
      cases hlast
  | cons a rest =>
      obtain ⟨k, e⟩ := a
      have hmin : index.minKey? = some k := by
        rw [SortedMap.minKey?, hentries]
        rfl
      have hk : k ∈ index.keys := by
        rw [SortedMap.keys, hentries]
        exact List.mem_cons_self
      have hle := UInt32.le_iff_toNat_le.mp (hgreatest k hk)
      refine ⟨k, e, rest, rfl, ?_, ?_⟩
      · rw [SortedMap.maxKey?, hentries] at hmax
        rw [List.length_append, List.length_replicate,
          length_spread _ (hentries ▸ index.ascending) hmax]
        omega
      · rw [PcIndex.dense, hmin, hmax]
        simp only [hentries]

theorem length_dense : index.dense.length = last.toNat + 1 := by
  obtain ⟨k, e, rest, -, hlength, hdense⟩ := exists_dense_eq hlast hgreatest
  have hstop : (last + 1).toNat ≤ last.toNat + 1 := by
    rw [UInt32.toNat_add]
    exact Nat.mod_le _ _
  rw [hdense, List.length_rightpad, hlength]
  omega

theorem getElem?_dense (htop : last.toNat < 2 ^ 32 - 1) {pc : UInt32} (hpc : pc ≤ last) :
    index.dense[pc.toNat]? = some (index.owner? pc) := by
  obtain ⟨k, e, rest, hentries, hlength, hdense⟩ := exists_dense_eq hlast hgreatest
  have hascending : Entries.Ascending ((k, e) :: rest) := hentries ▸ index.ascending
  have hstop : (last + 1).toNat = last.toNat + 1 := by
    rw [UInt32.toNat_add, UInt32.toNat_one]
    exact Nat.mod_eq_of_lt (by omega)
  have hlt : pc < last + 1 := by
    rw [UInt32.le_iff_toNat_le] at hpc
    rw [UInt32.lt_iff_toNat_lt, hstop]
    omega
  have hinside : pc.toNat < (List.replicate k.toNat none ++
      PcIndex.spread (last + 1) ((k, e) :: rest)).length := by
    rw [UInt32.le_iff_toNat_le] at hpc
    rw [hlength, hstop]
    omega
  rw [owner?_eq_getLE? hlast hpc, hdense, List.rightpad, List.getElem?_append_left hinside]
  by_cases hk : k ≤ pc
  · have hspread := getElem?_spread hascending hk hlt
    rw [UInt32.le_iff_toNat_le] at hk
    rw [List.getElem?_append_right (by rwa [List.length_replicate]), List.length_replicate,
      hspread, SortedMap.getLE?, hentries]
  · -- before the first key neither view has an entry
    have hbelow : index.getLE? pc = none := by
      rw [SortedMap.getLE?, hentries, List.takeWhile_cons_of_neg (by rwa [Std.isLE_compare])]
      rfl
    rw [UInt32.le_iff_toNat_le, Nat.not_le] at hk
    rw [hbelow, List.getElem?_append_left (by rwa [List.length_replicate]),
      List.getElem?_replicate, if_pos hk]

end

/-- The greatest pc of all is the one place where the two views differ. -/
theorem getElem?_dense_top {index : PcIndex} {top : UInt32} (htop : top.toNat = 2 ^ 32 - 1)
    (hmem : top ∈ index.keys) :
    index.dense[top.toNat]? = some none ∧ ∃ e, index.owner? top = some e := by
  have hgreatest : ∀ k ∈ index.keys, k ≤ top := by
    intro k _
    rw [UInt32.le_iff_toNat_le, htop]
    exact Nat.le_pred_of_lt k.toNat_lt
  refine ⟨?_, exists_owner?_iff.mpr ⟨⟨top, hmem, UInt32.le_refl top⟩, top, hmem,
    UInt32.le_refl top⟩⟩
  obtain ⟨k, e, rest, -, hlength, hdense⟩ := exists_dense_eq hmem hgreatest
  have hstop : (top + 1).toNat = 0 := by simp [UInt32.toNat_add, htop]
  rw [hstop, Nat.zero_sub, Nat.add_zero] at hlength
  rw [hdense, List.rightpad, List.getElem?_append_right (Nat.le_of_eq hlength), hlength]
  simp

theorem dense_of_no_keys {index : PcIndex} (h : index.keys = []) : index.dense = [] := by
  rw [PcIndex.dense, minKey?_eq, h]
  rfl

/-- The search for the owner and the dense view give the same answers. -/
theorem dense_agrees_owner? {index : PcIndex} (htop : ∀ k ∈ index.keys, k.toNat < 2 ^ 32 - 1) :
    (index.keys = [] → index.dense.length = 0) ∧
      (∀ last ∈ index.keys, (∀ k ∈ index.keys, k ≤ last) →
        index.dense.length = last.toNat + 1) ∧
      (∀ pc, Spans index pc → ∃ e, index.owner? pc = some e ∧ LastUpTo index pc e) ∧
      (∀ pc, ¬ Spans index pc → index.owner? pc = none) ∧
      ∀ pc : UInt32, pc.toNat < index.dense.length →
        index.dense[pc.toNat]? = some (index.owner? pc) ∧
          (index.dense[pc.toNat]? = some none ↔ ∀ k ∈ index.keys, pc < k) := by
  refine ⟨fun hempty => ?_, fun last hlast hgreatest => length_dense hlast hgreatest,
    fun pc hspans => ?_, fun pc hspans => ?_, fun pc hpc => ?_⟩
  · rw [dense_of_no_keys hempty]
    rfl
  · obtain ⟨e, he⟩ := exists_owner?_iff.mpr hspans
    exact ⟨e, he, (owner?_eq_some_iff.mp he).2⟩
  · rw [← Option.not_isSome_iff_eq_none, Option.isSome_iff_exists, exists_owner?_iff]
    exact hspans
  · have hkeys : index.keys ≠ [] := by
      intro hempty
      rw [dense_of_no_keys hempty] at hpc
      cases hpc
    obtain ⟨last, hmax⟩ := exists_maxKey? hkeys
    obtain ⟨hlast, hgreatest⟩ := maxKey?_eq_some_iff_le.mp hmax
    have hle : pc ≤ last := by
      rw [length_dense hlast hgreatest] at hpc
      exact UInt32.le_iff_toNat_le.mpr (Nat.le_of_lt_succ hpc)
    have hget := getElem?_dense hlast hgreatest (htop last hlast) hle
    refine ⟨hget, ?_⟩
    rw [hget, Option.some.injEq, owner?_eq_getLE? hlast hle, getLE?_eq_none_iff_lt]

/-- Two keys with a gap before each of them. -/
theorem dense_agrees_owner?_gaps :
    let a : PcEntry := ⟨⟨5, 9, 1, .into, 0⟩, 2, 0, 0x61⟩
    let b : PcEntry := ⟨⟨7, 3, 1, .out, 0⟩, 5, 1, 0x00⟩
    let index := PcIndex.ofEntries [a, b]
    (∀ k ∈ index.keys, k.toNat < 2 ^ 32 - 1) ∧ index.dense.length = 6 ∧
      (∃ e, index.owner? 4 = some e ∧ LastUpTo index 4 e) ∧ index.owner? 6 = none ∧
      index.dense[4]? = some (index.owner? 4) ∧ index.dense[1]? = some none := by
  intro a b index
  have hkeys : index.keys = [2, 5] := by decide +kernel
  have htop : ∀ k ∈ index.keys, k.toNat < 2 ^ 32 - 1 := by simp [hkeys]
  obtain ⟨-, hlength, hsome, hnone, hdense⟩ := dense_agrees_owner? htop
  have hsix : index.dense.length = 6 := hlength 5 (by simp [hkeys]) (by simp [hkeys])
  have hspans : Spans index 4 := by simp [Spans, hkeys]
  have hbeyond : ¬ Spans index 6 := by simp [Spans, hkeys]
  refine ⟨htop, hsix, hsome 4 hspans, hnone 6 hbeyond, (hdense 4 ?_).1, (hdense 1 ?_).2.mpr ?_⟩
  · simp [hsix]
  · simp [hsix]
  · simp [hkeys]

end EvmSourceMap.Proofs.OwnerLookup
