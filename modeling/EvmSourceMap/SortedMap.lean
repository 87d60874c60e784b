/-!
Finite maps as association lists in strictly ascending key order. A map has one list of entries, so
two maps with the same contents are equal, and listing a map in key order needs no sorting.

The functions on plain lists (`Entries`) also serve nested data whose type cannot carry the order
as a proof.
-/

universe u v

namespace EvmSourceMap

namespace Entries

variable {κ : Type u} {ν : Type v} [Ord κ]

/-- The keys ascend strictly. -/
def Ascending (entries : List (κ × ν)) : Prop :=
  entries.Pairwise fun a b => compare a.1 b.1 = .lt

/-- Puts a value under a key, in place of the one that is there. -/
def insert (k : κ) (v : ν) : List (κ × ν) → List (κ × ν)
  | [] => [(k, v)]
  | (k', v') :: rest =>
    match compare k k' with
    | .lt => (k, v) :: (k', v') :: rest
    | .eq => (k, v) :: rest
    | .gt => (k', v') :: insert k v rest

def get? (k : κ) : List (κ × ν) → Option ν
  | [] => none
  | (k', v) :: rest => if compare k k' = .eq then some v else get? k rest

/-- The entries of a list in key order. Of two entries with one key, the later one stays. -/
def ofList (entries : List (κ × ν)) : List (κ × ν) :=
  entries.foldl (fun acc e => insert e.1 e.2 acc) []

theorem mem_insert {k : κ} {v : ν} {entries : List (κ × ν)} {e : κ × ν}
    (h : e ∈ insert k v entries) : e = (k, v) ∨ e ∈ entries := by
  induction entries with
  | nil => simpa [insert] using h
  | cons a rest ih =>
    obtain ⟨k', v'⟩ := a
    simp only [insert] at h
    split at h
    · simpa using h
    · rcases List.mem_cons.1 h with h | h
      · exact Or.inl h
      · exact Or.inr (List.mem_cons_of_mem _ h)
    · rcases List.mem_cons.1 h with h | h
      · exact Or.inr (h ▸ List.mem_cons_self)
      · exact (ih h).imp_right (List.mem_cons_of_mem _)

theorem Ascending.insert [Std.TransOrd κ] {entries : List (κ × ν)} (h : Ascending entries)
    (k : κ) (v : ν) : Ascending (Entries.insert k v entries) := by
  induction entries with
  | nil => simp [Entries.insert, Ascending]
  | cons a rest ih =>
    obtain ⟨k', v'⟩ := a
    have hrest := List.pairwise_cons.1 h
    simp only [Entries.insert]
    split
    · next hlt =>
      refine List.pairwise_cons.2 ⟨fun b hb => ?_, h⟩
      rcases List.mem_cons.1 hb with rfl | hb
      · exact hlt
      · exact Std.TransCmp.lt_trans hlt (hrest.1 b hb)
    · next heq =>
      exact List.pairwise_cons.2
        ⟨fun b hb => Std.TransCmp.lt_of_eq_of_lt heq (hrest.1 b hb), hrest.2⟩
    · next hgt =>
      refine List.pairwise_cons.2 ⟨fun b hb => ?_, ih hrest.2⟩
      rcases mem_insert hb with rfl | hb
      · exact Std.OrientedCmp.lt_of_gt hgt
      · exact hrest.1 b hb

theorem ascending_ofList [Std.TransOrd κ] (entries : List (κ × ν)) :
    Ascending (ofList entries) := by
  suffices h : ∀ acc : List (κ × ν), Ascending acc →
      Ascending (entries.foldl (fun acc e => Entries.insert e.1 e.2 acc) acc) from
    h [] List.Pairwise.nil
  induction entries with
  | nil => exact fun acc h => h
  | cons e rest ih => exact fun acc h => ih _ (h.insert e.1 e.2)

end Entries

/-- A finite map, as the list of its entries in strictly ascending key order. -/
structure SortedMap (κ : Type u) (ν : Type v) [Ord κ] where
  entries : List (κ × ν)
  ascending : Entries.Ascending entries

namespace SortedMap

variable {κ : Type u} {ν : Type v} [Ord κ]

instance [DecidableEq κ] [DecidableEq ν] : DecidableEq (SortedMap κ ν) := fun m n =>
  decidable_of_iff (m.entries = n.entries) <| by
    cases m; cases n; simp

def empty : SortedMap κ ν := ⟨[], List.Pairwise.nil⟩

instance : EmptyCollection (SortedMap κ ν) := ⟨empty⟩

instance : Inhabited (SortedMap κ ν) := ⟨∅⟩

/-- Puts a value under a key, in place of the one that is there. -/
def insert [Std.TransOrd κ] (m : SortedMap κ ν) (k : κ) (v : ν) : SortedMap κ ν :=
  ⟨Entries.insert k v m.entries, m.ascending.insert k v⟩

def get? (m : SortedMap κ ν) (k : κ) : Option ν :=
  Entries.get? k m.entries

def size (m : SortedMap κ ν) : Nat :=
  m.entries.length

def isEmpty (m : SortedMap κ ν) : Bool :=
  m.entries.isEmpty

def keys (m : SortedMap κ ν) : List κ :=
  m.entries.map (·.1)

def values (m : SortedMap κ ν) : List ν :=
  m.entries.map (·.2)

def minKey? (m : SortedMap κ ν) : Option κ :=
  m.entries.head?.map (·.1)

def maxKey? (m : SortedMap κ ν) : Option κ :=
  m.entries.getLast?.map (·.1)

/-- The value under the greatest key that is not above `k`. -/
def getLE? (m : SortedMap κ ν) (k : κ) : Option ν :=
  (m.entries.takeWhile fun e => (compare e.1 k).isLE).getLast?.map (·.2)

/-- The map that holds, under each key of the list, the value listed first. Inserting from the
right makes the first entry the one that overwrites the others. -/
def ofListFirst [Std.TransOrd κ] (entries : List (κ × ν)) : SortedMap κ ν :=
  entries.foldr (fun e m => m.insert e.1 e.2) ∅

end SortedMap

end EvmSourceMap
