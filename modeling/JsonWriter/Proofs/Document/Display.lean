import JsonWriter.Proofs.Document.Reading
import JsonWriter.Value.Checked

/-! Values that are read can be shown: the bound on numerals is the same for reading and for
writing. -/
namespace JsonWriter

open Document (Refusal entriesOf)

theorem Numeral.value_lt {t : List Char} (h : ∀ c ∈ t, c.isDigit = true) :
    value t < 10 ^ t.length := by
  induction t using List.reverseRecOn with
  | nil => exact Nat.one_pos
  | append_singleton t c ih =>
      have hlt := ih fun d hd => h d (List.mem_append_left _ hd)
      have hdigit := (digitChar_of_isDigit (h c (by simp))).1
      rw [value_concat, List.length_append, List.length_singleton, Nat.pow_succ]
      omega

namespace Value

def Shown (v : Value) : Prop := v.display?.isSome = true

theorem displayAll?_isSome_iff {vs : List Value} :
    (displayAll? vs).isSome = true ↔ ∀ v ∈ vs, Shown v := by
  induction vs with
  | nil => simp [displayAll?]
  | cons v vs ih =>
      rw [List.forall_mem_cons, ← ih, displayAll?]
      unfold Shown
      cases display? v <;> cases displayAll? vs <;> simp

theorem displayEntries?_isSome_iff {entries : List (Value × Value)} :
    (displayEntries? entries).isSome = true ↔ ∀ e ∈ entries, Shown e.1 ∧ Shown e.2 := by
  induction entries with
  | nil => simp [displayEntries?]
  | cons e entries ih =>
      obtain ⟨k, v⟩ := e
      rw [List.forall_mem_cons, ← ih, displayEntries?]
      unfold Shown
      cases display? k <;> cases display? v <;> cases displayEntries? entries <;> simp

theorem shown_null : Shown .null := rfl

theorem shown_text (s : String) : Shown (.text s) := rfl

theorem shown_list_iff {vs : List Value} : Shown (.list vs) ↔ ∀ v ∈ vs, Shown v := by
  rw [Shown, display?, Option.isSome_map, displayAll?_isSome_iff]

theorem shown_entriesOf_iff {ms : List (String × Value)} :
    Shown (.mapping (entriesOf ms)) ↔ ∀ m ∈ ms, Shown m.2 := by
  rw [Shown, display?, Option.isSome_map, displayEntries?_isSome_iff, entriesOf,
    List.forall_mem_map]
  simp [shown_text]

theorem shown_signed {t : List Char} (negative : Bool) (ht : Json.Whole t)
    (hshort : t.length ≤ Numeral.maxDigits) :
    Shown (.int (Json.signed negative (Numeral.value t : Int))) := by
  have hdigits : ∀ c ∈ t, c.isDigit = true := by
    rcases ht with rfl | ⟨hdigits, -⟩
    · simp
    · exact hdigits.2
  have hlt := (Numeral.value_lt hdigits).trans_le (Nat.pow_le_pow_right (by decide) hshort)
  generalize Numeral.value t = n at hlt ⊢
  have habs : (Json.signed negative (n : Int)).natAbs = n := by
    cases negative <;> simp [Json.signed]
  rw [Shown, display?, Numeral.ofInt?, Nat.pow_eq, habs, if_pos hlt]
  rfl

end Value

namespace Document

open Value (Shown shown_text shown_list_iff shown_entriesOf_iff shown_signed)

theorem shown_of_readScalar {s r : List Char} {v : Value} (h : readScalar s = .ok (v, r)) :
    Shown v := by
  have hreads := readScalar_reads s
  rw [h] at hreads
  cases hreads with
  | word _ hword => cases hword <;> exact rfl
  | @number negative _ _ hnumber =>
      cases hnumber with
      | integer _ ht hshort => exact shown_signed negative ht hshort
      | float _ _ _ _ _ => exact rfl

/-- The step in which all parts that are read can be shown, each from what fewer steps read. -/
structure ReadsShown (steps : Nat) : Prop where
  value : ∀ {s v r}, readValue steps s = .ok (v, r) → Shown v
  items : ∀ {s vs r}, readItems steps s = .ok (vs, r) → ∀ v ∈ vs, Shown v
  members : ∀ {s ms r}, readMembers steps s = .ok (ms, r) → ∀ m ∈ ms, Shown m.2

theorem ReadsShown.value_succ {steps : Nat} (ih : ReadsShown steps) {s r : List Char} {v : Value}
    (h : readValue (steps + 1) s = .ok (v, r)) : Shown v := by
  unfold readValue at h
  split at h
  · obtain ⟨_, -, hend⟩ := exists_of_bind_eq_ok h
    cases hend
    exact shown_text _
  · split at h
    · cases h
      exact rfl
    · obtain ⟨⟨members, _⟩, hmembers, hclose⟩ := exists_of_bind_eq_ok h
      obtain ⟨object, hobject, hend⟩ := exists_of_bind_eq_ok hclose
      cases hend
      rw [(closeObject_eq_ok hobject).2]
      exact shown_entriesOf_iff.2 (ih.members hmembers)
  · split at h
    · cases h
      exact rfl
    · obtain ⟨⟨items, _⟩, hitems, hend⟩ := exists_of_bind_eq_ok h
      cases hend
      exact shown_list_iff.2 (ih.items hitems)
  · exact shown_of_readScalar h

theorem ReadsShown.items_succ {steps : Nat} (ih : ReadsShown steps) {s r : List Char}
    {vs : List Value} (h : readItems (steps + 1) s = .ok (vs, r)) : ∀ v ∈ vs, Shown v := by
  unfold readItems at h
  obtain ⟨⟨item, rest⟩, hitem, hnext⟩ := exists_of_bind_eq_ok h
  dsimp only at hnext
  split at hnext
  · cases hnext
    exact List.forall_mem_singleton.2 (ih.value hitem)
  · obtain ⟨⟨items, _⟩, hitems, hend⟩ := exists_of_bind_eq_ok hnext
    cases hend
    exact List.forall_mem_cons.2 ⟨ih.value hitem, ih.items hitems⟩
  · cases hnext

theorem ReadsShown.members_succ {steps : Nat} (ih : ReadsShown steps) {s r : List Char}
    {ms : List (String × Value)} (h : readMembers (steps + 1) s = .ok (ms, r)) :
    ∀ m ∈ ms, Shown m.2 := by
  rcases readMembers_cases steps s with ⟨refusal, herror, -⟩ |
    ⟨name, text, w, w', start, -, -, -, rfl, heq⟩
  · rw [herror] at h
    cases h
  · rw [heq] at h
    obtain ⟨⟨item, rest⟩, hitem, hnext⟩ := exists_of_bind_eq_ok h
    dsimp only [readMembersAfter] at hnext
    split at hnext
    · cases hnext
      exact List.forall_mem_singleton.2 (ih.value hitem)
    · obtain ⟨⟨members, _⟩, hmembers, hend⟩ := exists_of_bind_eq_ok hnext
      cases hend
      exact List.forall_mem_cons.2 ⟨ih.value hitem, ih.members hmembers⟩
    · cases hnext

theorem readsShown (steps : Nat) : ReadsShown steps := by
  induction steps with
  | zero => exact ⟨nofun, nofun, nofun⟩
  | succ steps ih => exact ⟨ih.value_succ, ih.items_succ, ih.members_succ⟩

theorem shown_of_read {s : List Char} {v : Value} (h : read s = .ok v) : Shown v := by
  unfold read at h
  split at h
  · cases h
  · obtain ⟨⟨v', rest⟩, hvalue, hend⟩ := exists_of_bind_eq_ok h
    dsimp only at hend
    split at hend
    · cases hend
      exact (readsShown _).value hvalue
    · cases hend

end Document
end JsonWriter
