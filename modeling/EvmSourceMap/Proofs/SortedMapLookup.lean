import EvmSourceMap.SortedMap

namespace EvmSourceMap.Proofs.SortedMapLookup

universe u v

variable {κ : Type u} {ν : Type v} [Ord κ]

theorem get?_insert [Std.TransOrd κ] (k k' : κ) (v : ν) (entries : List (κ × ν)) :
    Entries.get? k (Entries.insert k' v entries) =
      if compare k k' = .eq then some v else Entries.get? k entries := by
  induction entries with
  | nil => rfl
  | cons a rest ih =>
      rcases a with ⟨k'', v''⟩
      rw [Entries.insert]
      cases hcompare : compare k' k'' with
      | lt => rfl
      | eq =>
          have hsame : compare k k' = compare k k'' := Std.TransCmp.congr_right hcompare
          simp only [Entries.get?]
          split
          · rfl
          · rename_i hne
            rw [if_neg (hsame ▸ hne)]
      | gt =>
          simp only [Entries.get?, ih]
          by_cases hk : compare k k'' = .eq
          · have hgt : compare k' k = .gt := Std.TransCmp.congr_right hk ▸ hcompare
            have hlt : compare k k' = .lt := Std.OrientedCmp.lt_of_gt hgt
            rw [if_pos hk, hlt, if_neg (by decide), if_pos hk]
          · rw [if_neg hk, if_neg hk]

theorem insert_insert [Std.TransOrd κ] (k : κ) (v v' : ν) (entries : List (κ × ν)) :
    Entries.insert k v (Entries.insert k v' entries) = Entries.insert k v entries := by
  have hsame : compare k k = .eq := Std.ReflCmp.compare_self
  induction entries with
  | nil => simp only [Entries.insert, hsame]
  | cons a rest ih =>
      rcases a with ⟨k'', v''⟩
      cases hcompare : compare k k'' with
      | lt => simp only [Entries.insert, hcompare, hsame]
      | eq => simp only [Entries.insert, hcompare, hsame]
      | gt => simp only [Entries.insert, hcompare, ih]

theorem get?_append (k : κ) (front back : List (κ × ν)) :
    Entries.get? k (front ++ back) = (Entries.get? k front).or (Entries.get? k back) := by
  induction front with
  | nil => rfl
  | cons e rest ih =>
      rw [List.cons_append, Entries.get?, Entries.get?, ih]
      split <;> rfl

theorem mem_of_mem_ofList {entries : List (κ × ν)} {e : κ × ν}
    (h : e ∈ Entries.ofList entries) : e ∈ entries := by
  have hacc : ∀ acc : List (κ × ν),
      e ∈ entries.foldl (fun acc e => Entries.insert e.1 e.2 acc) acc →
        e ∈ entries ∨ e ∈ acc := by
    clear h
    induction entries with
    | nil => exact fun acc h => .inr h
    | cons a rest ih =>
        intro acc h
        rcases ih _ h with hrest | hinsert
        · exact .inl (List.mem_cons_of_mem a hrest)
        · rcases Entries.mem_insert hinsert with rfl | hmem
          · exact .inl List.mem_cons_self
          · exact .inr hmem
  exact (hacc [] h).resolve_right List.not_mem_nil

/-- Looking up in the entries of a list finds what is listed last. -/
theorem get?_ofList [Std.TransOrd κ] (k : κ) (entries : List (κ × ν)) :
    Entries.get? k (Entries.ofList entries) = Entries.get? k entries.reverse := by
  have hacc : ∀ acc : List (κ × ν),
      Entries.get? k (entries.foldl (fun acc e => Entries.insert e.1 e.2 acc) acc) =
        Entries.get? k (entries.reverse ++ acc) := by
    induction entries with
    | nil => exact fun acc => rfl
    | cons e rest ih =>
        intro acc
        rw [List.foldl_cons, ih, get?_append, get?_insert, List.reverse_cons,
          List.append_assoc, get?_append]
        rfl
  rw [Entries.ofList, hacc, List.append_nil]

/-- Looking up in the map of a list finds what is listed first. -/
theorem get?_ofListFirst [Std.TransOrd κ] (k : κ) (entries : List (κ × ν)) :
    (SortedMap.ofListFirst entries).get? k = Entries.get? k entries := by
  induction entries with
  | nil => rfl
  | cons e rest ih =>
      change Entries.get? k (Entries.insert e.1 e.2 (SortedMap.ofListFirst rest).entries) = _
      rw [get?_insert]
      change (if _ then _ else (SortedMap.ofListFirst rest).get? k) = _
      rw [ih]
      rfl

theorem get?_map_key [Std.LawfulEqOrd κ] [DecidableEq κ] (key : ν → κ) (k : κ) (values : List ν) :
    Entries.get? k (values.map fun v => (key v, v)) = values.find? fun v => key v = k := by
  induction values with
  | nil => rfl
  | cons v rest ih =>
      rw [List.map_cons, Entries.get?, List.find?_cons, ih]
      by_cases hk : key v = k
      · simp [hk]
      · simp [hk, Ne.symm hk]

theorem entries_ofListFirst [Std.TransOrd κ] {entries : List (κ × ν)}
    (h : Entries.Ascending entries) : (SortedMap.ofListFirst entries).entries = entries := by
  induction entries with
  | nil => rfl
  | cons e rest ih =>
      obtain ⟨hhead, htail⟩ := List.pairwise_cons.mp h
      change Entries.insert e.1 e.2 (SortedMap.ofListFirst rest).entries = _
      rw [ih htail]
      cases rest with
      | nil => rfl
      | cons a rest =>
          have hlt : compare e.1 a.1 = .lt := hhead a List.mem_cons_self
          simp only [Entries.insert, hlt]

theorem get?_eq_none_iff [Std.LawfulEqOrd κ] {k : κ} {entries : List (κ × ν)} :
    Entries.get? k entries = none ↔ ∀ v, (k, v) ∉ entries := by
  induction entries with
  | nil => simp [Entries.get?]
  | cons a rest ih =>
      rcases a with ⟨k', v'⟩
      rw [Entries.get?]
      by_cases hk : k = k'
      · subst hk
        rw [if_pos Std.ReflCmp.compare_self]
        exact iff_of_false (by simp) fun h => h v' List.mem_cons_self
      · rw [if_neg (mt Std.LawfulEqCmp.eq_of_compare hk), ih]
        simp [hk]

theorem mem_of_get? [Std.LawfulEqOrd κ] {k : κ} {v : ν} {entries : List (κ × ν)}
    (h : Entries.get? k entries = some v) : (k, v) ∈ entries := by
  induction entries with
  | nil => cases h
  | cons e rest ih =>
      rw [Entries.get?] at h
      split at h
      · rename_i hsame
        rw [Std.LawfulEqOrd.eq_of_compare hsame, ← Option.some.inj h]
        exact List.mem_cons_self
      · exact List.mem_cons_of_mem _ (ih h)

theorem nodup_keys [Std.ReflOrd κ] {entries : List (κ × ν)} (h : Entries.Ascending entries) :
    (entries.map Prod.fst).Nodup := by
  rw [List.nodup_iff_pairwise_ne, List.pairwise_map]
  apply h.imp
  intro a b hlt hsame
  have heq : compare b.1 b.1 = .eq := Std.ReflCmp.compare_self
  rw [hsame, heq] at hlt
  cases hlt

theorem insert_perm_cons [Std.LawfulEqOrd κ] {k : κ} {entries : List (κ × ν)}
    (h : k ∉ entries.map Prod.fst) (v : ν) :
    (Entries.insert k v entries).Perm ((k, v) :: entries) := by
  induction entries with
  | nil => exact List.Perm.refl _
  | cons a rest ih =>
      rcases a with ⟨k', v'⟩
      obtain ⟨hne, hrest⟩ := not_or.mp (mt List.mem_cons.mpr h)
      cases hcompare : compare k k' with
      | lt =>
          simp only [Entries.insert, hcompare]
          exact List.Perm.refl _
      | eq => exact absurd (Std.LawfulEqCmp.eq_of_compare hcompare) hne
      | gt =>
          simp only [Entries.insert, hcompare]
          exact ((ih hrest).cons (k', v')).trans (List.Perm.swap (k, v) (k', v') rest)

theorem ofList_perm [Std.LawfulEqOrd κ] {entries : List (κ × ν)}
    (h : (entries.map Prod.fst).Nodup) : (Entries.ofList entries).Perm entries := by
  suffices hacc : ∀ acc : List (κ × ν), ((entries ++ acc).map Prod.fst).Nodup →
      (entries.foldl (fun acc e => Entries.insert e.1 e.2 acc) acc).Perm (entries ++ acc) by
    have hempty := hacc []
    rw [List.append_nil] at hempty
    exact hempty h
  clear h
  induction entries with
  | nil => exact fun acc _ => List.Perm.refl acc
  | cons e rest ih =>
      intro acc h
      rw [List.cons_append, List.map_cons] at h
      obtain ⟨habsent, hrest⟩ := List.nodup_cons.mp h
      rw [List.map_append, List.mem_append, not_or] at habsent
      have hinsert := (insert_perm_cons habsent.2 e.2).append_left rest
      have hmiddle : (rest ++ Entries.insert e.1 e.2 acc).Perm (e :: (rest ++ acc)) :=
        hinsert.trans List.perm_middle
      exact (ih _ ((hmiddle.map Prod.fst).nodup_iff.mpr h)).trans hmiddle

/-- Where the keys are different, the order in which entries are put into a map does not matter. -/
theorem ofList_eq_of_perm [Std.TransOrd κ] [Std.LawfulEqOrd κ] {entries entries' : List (κ × ν)}
    (h : entries.Perm entries') (hkeys : (entries.map Prod.fst).Nodup) :
    Entries.ofList entries = Entries.ofList entries' := by
  have hkeys' : (entries'.map Prod.fst).Nodup := (h.map Prod.fst).nodup_iff.mp hkeys
  have hperm := (ofList_perm hkeys).trans (h.trans (ofList_perm hkeys').symm)
  refine hperm.eq_of_pairwise ?_ (Entries.ascending_ofList entries)
    (Entries.ascending_ofList entries')
  intro a b _ _ hab hba
  rw [Std.OrientedCmp.gt_of_lt hab] at hba
  cases hba

theorem eq_of_entries_eq {m m' : SortedMap κ ν} (h : m.entries = m'.entries) : m = m' := by
  cases m
  cases m'
  cases h
  rfl

theorem minKey?_eq (m : SortedMap κ ν) : m.minKey? = m.keys.head? :=
  (List.head?_map ..).symm

theorem maxKey?_eq (m : SortedMap κ ν) : m.maxKey? = m.keys.getLast? :=
  (List.getLast?_map ..).symm

theorem get?_of_mem_of_nodup [Std.LawfulEqOrd κ] {k : κ} {v : ν} {entries : List (κ × ν)}
    (h : (entries.map Prod.fst).Nodup) (hmem : (k, v) ∈ entries) :
    Entries.get? k entries = some v := by
  induction entries with
  | nil => cases hmem
  | cons a rest ih =>
      obtain ⟨habsent, hrest⟩ := List.nodup_cons.mp h
      rw [Entries.get?]
      rcases List.mem_cons.mp hmem with rfl | hbehind
      · rw [if_pos Std.ReflCmp.compare_self]
      · have hne : k ≠ a.1 := by
          rintro rfl
          exact habsent (List.mem_map.mpr ⟨_, hbehind, rfl⟩)
        rw [if_neg (mt Std.LawfulEqCmp.eq_of_compare hne)]
        exact ih hrest hbehind

theorem get?_of_mem [Std.LawfulEqOrd κ] {k : κ} {v : ν} {entries : List (κ × ν)}
    (h : Entries.Ascending entries) (hmem : (k, v) ∈ entries) :
    Entries.get? k entries = some v :=
  get?_of_mem_of_nodup (nodup_keys h) hmem

theorem get?_eq_some_iff [Std.LawfulEqOrd κ] {m : SortedMap κ ν} {k : κ} {v : ν} :
    m.get? k = some v ↔ (k, v) ∈ m.entries :=
  ⟨mem_of_get?, get?_of_mem m.ascending⟩

theorem exists_get?_iff [Std.LawfulEqOrd κ] {m : SortedMap κ ν} {k : κ} :
    (∃ v, m.get? k = some v) ↔ k ∈ m.keys := by
  simp only [get?_eq_some_iff, SortedMap.keys, List.mem_map, Prod.exists, exists_and_right,
    exists_eq_right]

theorem getLast?_eq_some_iff [Std.TransOrd κ] {entries : List (κ × ν)}
    (h : Entries.Ascending entries) {e : κ × ν} :
    entries.getLast? = some e ↔ e ∈ entries ∧ ∀ a ∈ entries, (compare a.1 e.1).isLE = true := by
  constructor
  · intro hlast
    obtain ⟨front, rfl⟩ := List.getLast?_eq_some_iff.mp hlast
    refine ⟨by simp, fun a ha => ?_⟩
    rcases List.mem_append.mp ha with hfront | hsame
    · rw [(List.pairwise_append.mp h).2.2 a hfront e List.mem_cons_self]
      rfl
    · rw [List.mem_singleton.mp hsame]
      exact Std.ReflCmp.isLE_rfl
  · rintro ⟨hmem, hgreatest⟩
    obtain ⟨front, back, rfl⟩ := List.append_of_mem hmem
    cases back with
    | nil => simp
    | cons b back =>
        have hlt : compare e.1 b.1 = .lt :=
          (List.pairwise_cons.mp (List.pairwise_append.mp h).2.1).1 b List.mem_cons_self
        have hle := hgreatest b (by simp)
        rw [Std.OrientedCmp.gt_of_lt hlt] at hle
        cases hle

theorem takeWhile_eq_filter {α : Type u} {p : α → Bool} {l : List α}
    (h : l.Pairwise fun a b => p b = true → p a = true) : l.takeWhile p = l.filter p := by
  induction l with
  | nil => rfl
  | cons a rest ih =>
      obtain ⟨hfirst, hrest⟩ := List.pairwise_cons.mp h
      by_cases ha : p a = true
      · rw [List.takeWhile_cons_of_pos ha, List.filter_cons_of_pos ha, ih hrest]
      · rw [List.takeWhile_cons_of_neg ha, List.filter_cons_of_neg ha, eq_comm,
          List.filter_eq_nil_iff]
        exact fun b hb => mt (hfirst b hb) ha

theorem takeWhile_isLE_eq_filter [Std.TransOrd κ] {entries : List (κ × ν)}
    (h : Entries.Ascending entries) (k : κ) :
    (entries.takeWhile fun e => (compare e.1 k).isLE) =
      entries.filter fun e => (compare e.1 k).isLE := by
  apply takeWhile_eq_filter
  refine h.imp fun {a b} hlt hle => ?_
  rw [Std.TransCmp.lt_of_lt_of_isLE hlt hle]
  rfl

theorem maxKey?_eq_some_iff [Std.TransOrd κ] {m : SortedMap κ ν} {k : κ} :
    m.maxKey? = some k ↔ k ∈ m.keys ∧ ∀ k' ∈ m.keys, (compare k' k).isLE = true := by
  rw [SortedMap.maxKey?, Option.map_eq_some_iff]
  simp only [getLast?_eq_some_iff m.ascending, SortedMap.keys, List.mem_map]
  constructor
  · rintro ⟨e, ⟨hmem, hgreatest⟩, rfl⟩
    refine ⟨⟨e, hmem, rfl⟩, ?_⟩
    rintro _ ⟨a, ha, rfl⟩
    exact hgreatest a ha
  · rintro ⟨⟨e, hmem, rfl⟩, hgreatest⟩
    exact ⟨e, ⟨hmem, fun a ha => hgreatest a.1 ⟨a, ha, rfl⟩⟩, rfl⟩

theorem getLE?_eq_some_iff [Std.TransOrd κ] {m : SortedMap κ ν} {k : κ} {v : ν} :
    m.getLE? k = some v ↔ ∃ k', (k', v) ∈ m.entries ∧ (compare k' k).isLE = true ∧
      ∀ k'' ∈ m.keys, (compare k'' k).isLE = true → (compare k'' k').isLE = true := by
  have hascending : Entries.Ascending (m.entries.filter fun e => (compare e.1 k).isLE) :=
    m.ascending.filter _
  rw [SortedMap.getLE?, takeWhile_isLE_eq_filter m.ascending, Option.map_eq_some_iff]
  simp only [getLast?_eq_some_iff hascending, List.mem_filter, SortedMap.keys, List.mem_map]
  constructor
  · rintro ⟨e, ⟨⟨hmem, hle⟩, hgreatest⟩, rfl⟩
    refine ⟨e.1, hmem, hle, ?_⟩
    rintro _ ⟨a, ha, rfl⟩ hbelow
    exact hgreatest a ⟨ha, hbelow⟩
  · rintro ⟨k', hmem, hle, hgreatest⟩
    exact ⟨(k', v), ⟨⟨hmem, hle⟩, fun a ha => hgreatest a.1 ⟨a, ha.1, rfl⟩ ha.2⟩, rfl⟩

theorem getLE?_eq_none_iff [Std.TransOrd κ] {m : SortedMap κ ν} {k : κ} :
    m.getLE? k = none ↔ ∀ k' ∈ m.keys, (compare k' k).isLE = false := by
  rw [SortedMap.getLE?, takeWhile_isLE_eq_filter m.ascending, Option.map_eq_none_iff,
    List.getLast?_eq_none_iff, List.filter_eq_nil_iff]
  simp [SortedMap.keys]

end EvmSourceMap.Proofs.SortedMapLookup
