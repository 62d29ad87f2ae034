import JsonWriter.Nesting.Stack

/-! What the moves on a stack keep: its height changes only where a container is opened or closed. -/
namespace JsonWriter.Stack

section Limit

variable (st : Stack) (n : Int)

/-! The limit is of no concern to a move that opens no container. -/

theorem value_ne_tooDeep : st.value ≠ .error (.tooDeep n) := by
  fun_cases value st <;> exact nofun

theorem key_ne_tooDeep : st.key ≠ .error (.tooDeep n) := by
  fun_cases key st <;> exact nofun

theorem chunk_ne_tooDeep : st.chunk ≠ .error (.tooDeep n) := by
  fun_cases chunk st <;> exact nofun

theorem pop_ne_tooDeep : st.pop ≠ .error (.tooDeep n) := by
  fun_cases pop st <;> exact nofun

end Limit

/-- A value is allowed at the top level, and in a container that is no string and has members then. -/
theorem value_cases {st st' : Stack} {sep : Separator} (h : st.value = .ok (sep, st')) :
    st = [] ∧ st' = [] ∨ ∃ f f' outer, st = f :: outer ∧ st' = f' :: outer ∧
      f'.kind = f.kind ∧ f.kind ≠ .string ∧ f'.hasMember = true := by
  cases st with
  | nil =>
      cases h
      exact .inl ⟨rfl, rfl⟩
  | cons f outer =>
      obtain ⟨kind, hasMember, awaitingValue⟩ := f
      cases kind with
      | array =>
          cases h
          exact .inr ⟨_, _, outer, rfl, rfl, rfl, nofun, rfl⟩
      | object =>
          cases awaitingValue with
          | true =>
              cases h
              exact .inr ⟨_, _, outer, rfl, rfl, rfl, nofun, rfl⟩
          | false => cases h
      | string => cases h

/-- Where a value was written the container around it has members. -/
theorem markMember_of_value {st st' : Stack} {sep : Separator}
    (h : st.value = .ok (sep, st')) : markMember st' = st' := by
  obtain ⟨-, rfl⟩ | ⟨f, f', outer, -, rfl, -, -, hmember⟩ := value_cases h
  · rfl
  · rw [markMember, ← hmember]

theorem length_of_value {st st' : Stack} {sep : Separator} (h : st.value = .ok (sep, st')) :
    st'.length = st.length := by
  obtain ⟨rfl, rfl⟩ | ⟨f, f', outer, rfl, rfl, -⟩ := value_cases h
  · rfl
  · rfl

def kinds (st : Stack) : List FrameKind := st.map (·.kind)

/-- No value is allowed in a string, and elsewhere it opens and closes nothing. -/
theorem kinds_of_value {st st' : Stack} {sep : Separator} (h : st.value = .ok (sep, st')) :
    st'.kinds = st.kinds ∧ st.kinds.head? ≠ some .string := by
  obtain ⟨rfl, rfl⟩ | ⟨f, f', outer, rfl, rfl, hkind, hstring, -⟩ := value_cases h
  · exact ⟨rfl, nofun⟩
  · refine ⟨?_, fun h => hstring (Option.some.inj h)⟩
    rw [kinds, List.map_cons, hkind]
    rfl

theorem length_of_key {st st' : Stack} {sep : Separator} (h : st.key = .ok (sep, st')) :
    st'.length = st.length := by
  cases st with
  | nil => cases h
  | cons f outer =>
      obtain ⟨kind, hasMember, awaitingValue⟩ := f
      cases kind with
      | array => cases h
      | object =>
          cases awaitingValue with
          | true => cases h
          | false =>
              cases h
              rfl
      | string => cases h

theorem eq_of_chunk {st st' : Stack} (h : st.chunk = .ok ((), st')) : st' = st := by
  cases st with
  | nil => cases h
  | cons f outer =>
      obtain ⟨kind, hasMember, awaitingValue⟩ := f
      cases kind with
      | array => cases h
      | object => cases h
      | string =>
          cases h
          rfl

theorem pop_eq_ok {f f' : Frame} {outer st' : Stack} (h : pop (f :: outer) = .ok (f', st')) :
    f' = f ∧ st' = markMember outer := by
  simp only [pop] at h
  split at h
  · cases h
  · cases h
    exact ⟨rfl, rfl⟩

theorem length_of_pop {st st' : Stack} {f : Frame} (h : st.pop = .ok (f, st')) :
    st'.length = st.length - 1 := by
  cases st with
  | nil => cases h
  | cons frame outer =>
      obtain ⟨-, rfl⟩ := pop_eq_ok h
      cases outer <;> rfl

end JsonWriter.Stack
