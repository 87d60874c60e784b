import EvmSourceMap.Proofs.ExceptInversion
import Mathlib.Data.List.Forall2

/-!
Reading the elements of a list one after the other, up to the first one that fails.
-/

namespace EvmSourceMap.Proofs.ListReading

open ExceptInversion

universe u v w

/-! ### Lists that belong together -/

section

variable {α : Type u} {β : Type v} {r : α → β → Prop} {as : List α} {bs : List β}

theorem exists_forall₂_iff : (∃ bs, List.Forall₂ r as bs) ↔ ∀ a ∈ as, ∃ b, r a b := by
  induction as with
  | nil => simp
  | cons a as ih =>
      simp only [List.forall₂_cons_left_iff, List.forall_mem_cons, ← ih]
      constructor
      · rintro ⟨_, b, bs, hb, hbs, rfl⟩
        exact ⟨⟨b, hb⟩, bs, hbs⟩
      · rintro ⟨⟨b, hb⟩, bs, hbs⟩
        exact ⟨b :: bs, b, bs, hb, hbs, rfl⟩

theorem exists_mem_right (h : List.Forall₂ r as bs) {a : α} (ha : a ∈ as) : ∃ b ∈ bs, r a b := by
  induction h with
  | nil => cases ha
  | cons hhead _ ih =>
      rcases List.mem_cons.mp ha with rfl | ha
      · exact ⟨_, List.mem_cons_self, hhead⟩
      · obtain ⟨b, hb, hr⟩ := ih ha
        exact ⟨b, List.mem_cons_of_mem _ hb, hr⟩

theorem exists_mem_left (h : List.Forall₂ r as bs) {b : β} (hb : b ∈ bs) : ∃ a ∈ as, r a b :=
  exists_mem_right h.flip hb

end

/-! ### Results for all elements -/

section

variable {ε : Type u} {δ : Type v} {α β : Type u} {f : δ → Except ε α} {l : List δ}

theorem mapM_eq_ok_iff {results : List α} :
    l.mapM f = .ok results ↔ List.Forall₂ (fun d a => f d = .ok a) l results := by
  induction l generalizing results with
  | nil =>
      rw [List.mapM_nil, List.forall₂_nil_left_iff]
      constructor
      · intro h
        exact (Except.ok.inj h).symm
      · rintro rfl
        rfl
  | cons d l ih =>
      rw [List.mapM_cons, List.forall₂_cons_left_iff]
      simp only [bind_eq_ok_iff, ih]
      constructor
      · rintro ⟨a, ha, results, hresults, hcons⟩
        exact ⟨a, results, ha, hresults, (Except.ok.inj hcons).symm⟩
      · rintro ⟨a, results, ha, hresults, rfl⟩
        exact ⟨a, ha, results, hresults, rfl⟩

theorem mapM_eq_error {front back : List δ} {d : δ} {results : List α} {e : ε}
    (hfront : List.Forall₂ (fun d a => f d = .ok a) front results) (hd : f d = .error e) :
    (front ++ d :: back).mapM f = .error e := by
  rw [List.mapM_append, mapM_eq_ok_iff.mpr hfront, List.mapM_cons, hd]
  rfl

theorem mapM_eq_error_iff {e : ε} :
    l.mapM f = .error e ↔ ∃ front d back, l = front ++ d :: back ∧
      (∀ a ∈ front, ∃ b, f a = .ok b) ∧ f d = .error e := by
  constructor
  · intro h
    induction l with
    | nil => cases h
    | cons d l ih =>
        rw [List.mapM_cons, bind_eq_error_iff] at h
        rcases h with hd | ⟨a, ha, hrest⟩
        · exact ⟨[], d, l, rfl, nofun, hd⟩
        · have hl : l.mapM f = .error e := by
            rcases bind_eq_error_iff.mp hrest with hl | ⟨_, -, hpure⟩
            · exact hl
            · cases hpure
          obtain ⟨front, d', back, rfl, hfront, hd'⟩ := ih hl
          exact ⟨d :: front, d', back, rfl, List.forall_mem_cons.mpr ⟨⟨a, ha⟩, hfront⟩, hd'⟩
  · rintro ⟨front, d, back, rfl, hfront, hd⟩
    obtain ⟨results, hresults⟩ := exists_forall₂_iff.mpr hfront
    exact mapM_eq_error hresults hd

theorem mapM_map {g : α → β} : l.mapM (fun d => (f d).map g) = (l.mapM f).map (List.map g) := by
  induction l with
  | nil => rfl
  | cons d l ih =>
      rw [List.mapM_cons, List.mapM_cons, ih]
      cases f d with
      | error e => rfl
      | ok a => cases l.mapM f <;> rfl

theorem foldlM_map {g : β → α → β} {b : β} :
    l.foldlM (fun b d => (f d).map (g b)) b = (l.mapM f).map fun results => results.foldl g b := by
  induction l generalizing b with
  | nil => rfl
  | cons d l ih =>
      rw [List.foldlM_cons, List.mapM_cons]
      cases f d with
      | error e => rfl
      | ok a =>
          change l.foldlM _ (g b a) = _
          rw [ih]
          cases l.mapM f <;> rfl

end

theorem exists_of_foldlM_eq_error {ε : Type u} {δ : Type v} {β : Type w} {step : β → δ → Except ε β}
    {l : List δ} {b : β} {e : ε} (h : l.foldlM step b = .error e) :
    ∃ d ∈ l, ∃ b', step b' d = .error e := by
  induction l generalizing b with
  | nil => cases h
  | cons d l ih =>
      rw [List.foldlM_cons] at h
      rcases bind_eq_error_iff.mp h with hd | ⟨b', -, hrest⟩
      · exact ⟨d, List.mem_cons_self, b, hd⟩
      · obtain ⟨d', hmem, hd'⟩ := ih hrest
        exact ⟨d', List.mem_cons_of_mem d hmem, hd'⟩

theorem foldlM_eq_ok {ε : Type u} {δ : Type v} {α β : Type w} {step : β → δ → Except ε β}
    {add : β → α → β} {l : List δ} {results : List α}
    (h : List.Forall₂ (fun d a => ∀ b, step b d = .ok (add b a)) l results) (b : β) :
    l.foldlM step b = .ok (results.foldl add b) := by
  induction h generalizing b with
  | nil => rfl
  | cons hstep _ ih =>
      rw [List.foldlM_cons, hstep]
      exact ih _

end EvmSourceMap.Proofs.ListReading
