namespace EvmSourceMap.Proofs.ExceptInversion

universe u v w

variable {ε : Type u} {δ : Type v} {α β : Type w}

theorem map_eq_ok_iff {x : Except ε α} {f : α → β} {b : β} :
    x.map f = .ok b ↔ ∃ a, x = .ok a ∧ f a = b := by
  cases x <;> simp [Except.map]

theorem map_eq_error_iff {x : Except ε α} {f : α → β} {e : ε} :
    x.map f = .error e ↔ x = .error e := by
  cases x <;> simp [Except.map]

theorem mapError_eq_ok_iff {x : Except ε α} {f : ε → δ} {a : α} :
    x.mapError f = .ok a ↔ x = .ok a := by
  cases x with
  | error e => exact iff_of_false (by rintro ⟨⟩) (by rintro ⟨⟩)
  | ok b =>
      change Except.ok b = .ok a ↔ _
      rw [Except.ok.injEq, Except.ok.injEq]

theorem mapError_eq_error_iff {x : Except ε α} {f : ε → δ} {d : δ} :
    x.mapError f = .error d ↔ ∃ e, x = .error e ∧ f e = d := by
  cases x with
  | error e =>
      change Except.error (f e) = .error d ↔ _
      simp only [Except.error.injEq, exists_eq_left']
  | ok a => exact iff_of_false (by rintro ⟨⟩) (by rintro ⟨_, ⟨⟩, -⟩)

theorem bind_eq_ok_iff {x : Except ε α} {f : α → Except ε β} {b : β} :
    (x >>= f) = .ok b ↔ ∃ a, x = .ok a ∧ f a = .ok b := by
  cases x <;> simp [bind, Except.bind]

theorem bind_eq_error_iff {x : Except ε α} {f : α → Except ε β} {e : ε} :
    (x >>= f) = .error e ↔ x = .error e ∨ ∃ a, x = .ok a ∧ f a = .error e := by
  cases x <;> simp [bind, Except.bind]

/-- What every step preserves holds at the end. -/
theorem foldlM_induction {p : β → Prop} {l : List δ} {step : β → δ → Except ε β} {b r : β}
    (hstep : ∀ d ∈ l, ∀ b b', p b → step b d = .ok b' → p b') (hb : p b)
    (h : l.foldlM step b = .ok r) : p r := by
  induction l generalizing b with
  | nil => exact Except.ok.inj h ▸ hb
  | cons d l ih =>
      rw [List.foldlM_cons] at h
      obtain ⟨b', hd, hrest⟩ := bind_eq_ok_iff.mp h
      exact ih (fun d hmem => hstep d (List.mem_cons_of_mem _ hmem))
        (hstep d List.mem_cons_self b b' hb hd) hrest

end EvmSourceMap.Proofs.ExceptInversion
