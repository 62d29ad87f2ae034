/-! Steps that may fail, one after another: what the whole does, and what the steps did where the
whole is known. -/
namespace JsonWriter

variable {ε σ α β : Type}

/-- A check that follows another passes only if both do. -/
theorem exists_of_bind_eq_ok {x : Except ε α} {f : α → Except ε β} {b : β}
    (h : (x >>= f) = .ok b) : ∃ a, x = .ok a ∧ f a = .ok b := by
  cases x with
  | error e => cases h
  | ok a => exact ⟨a, rfl, h⟩

theorem bind_eq_error_cases {x : Except ε α} {f : α → Except ε β} {e : ε}
    (h : (x >>= f) = .error e) : x = .error e ∨ ∃ a, x = .ok a ∧ f a = .error e := by
  cases x with
  | error e' =>
      cases h
      exact .inl rfl
  | ok a => exact .inr ⟨a, rfl, h⟩

section Runs

variable {first : EStateM ε σ α} {rest : α → EStateM ε σ β} {s s' : σ} {e : ε}

theorem bind_ok {a : α} (h : first s = .ok a s') : (first >>= rest) s = rest a s' := by
  simp only [Bind.bind, EStateM.bind, h]

theorem bind_error (h : first s = .error e s') : (first >>= rest) s = .error e s' := by
  simp only [Bind.bind, EStateM.bind, h]

theorem bind_eq_ok {b : β} (h : (first >>= rest) s = .ok b s') :
    ∃ a s₁, first s = .ok a s₁ ∧ rest a s₁ = .ok b s' := by
  cases hfirst : first s with
  | ok a s₁ =>
      rw [bind_ok hfirst] at h
      exact ⟨a, s₁, rfl, h⟩
  | error e s₁ =>
      rw [bind_error hfirst] at h
      cases h

theorem bind_eq_error (h : (first >>= rest) s = .error e s') :
    first s = .error e s' ∨ ∃ a s₁, first s = .ok a s₁ ∧ rest a s₁ = .error e s' := by
  cases hfirst : first s with
  | ok a s₁ =>
      rw [bind_ok hfirst] at h
      exact .inr ⟨a, s₁, rfl, h⟩
  | error e₁ s₁ =>
      rw [bind_error hfirst] at h
      cases h
      exact .inl rfl

end Runs
end JsonWriter
