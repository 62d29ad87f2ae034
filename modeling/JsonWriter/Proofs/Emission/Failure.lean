import JsonWriter.Proofs.Emission.Calls

/-! Where the writing of a value fails: at one value in it, after the calls for all that stands
before that value. -/
namespace JsonWriter

namespace Value

/-- A value stands in another: so many containers deep, and after these calls. -/
inductive Within (sortKeys : Bool) : Value → Nat → List Act → Value → Prop
  | self (v : Value) : Within sortKeys v 0 [] v
  | row {v u : Value} {kind : FrameKind} {left right : List (List Act × Value)}
      {row : List Act × Value} {depth : Nat} {before : List Act} :
      v.opens? = some kind → v.rows sortKeys = left ++ row :: right →
      Within sortKeys row.2 depth before u →
      Within sortKeys v (depth + 1)
        (.call (.start kind) :: (left.flatMap (rowCalls sortKeys) ++ (row.1 ++ before))) u

/-- The calls for a value that stands in another are among the calls for that one. -/
theorem Within.calls_eq {sortKeys : Bool} {v u : Value} {depth : Nat} {before : List Act}
    (h : v.Within sortKeys depth before u) :
    ∃ after, v.calls sortKeys = before ++ (u.calls sortKeys ++ after) := by
  induction h with
  | self v => exact ⟨[], (List.append_nil _).symm⟩
  | @row v u kind left right row depth before hopens hrows hwithin ih =>
      obtain ⟨after, hcalls⟩ := ih
      refine ⟨after ++ (right.flatMap (rowCalls sortKeys) ++ [.call .finish]), ?_⟩
      rw [calls_of_opens hopens, hrows, List.flatMap_append, List.flatMap_cons, rowCalls, hcalls]
      simp only [List.cons_append, List.append_assoc]

end Value

variable {σ : Type}

/-- The innermost container is of a kind, waits for no value, and stands in others. -/
def Session.Ready (kind : FrameKind) (outer : Stack) (s : Session σ) : Prop :=
  ∃ hasMember, s.stack = ⟨kind, hasMember, false⟩ :: outer

namespace Write

section Runs

variable {α : Type} {s s' : Session σ} {fault : Fault} {w : α → Write σ Unit}
  {inv : Session σ → Prop}

theorem forM_eq_ok {as : List α}
    (hkeep : ∀ a ∈ as, ∀ s s', inv s → w a s = .ok () s' → inv s') (hs : inv s)
    (h : as.forM w s = .ok () s') : inv s' := by
  induction as generalizing s with
  | nil =>
      cases h
      exact hs
  | cons a as ih =>
      obtain ⟨_, s₁, ha, hrest⟩ := bind_eq_ok h
      have hs₁ := hkeep a List.mem_cons_self s s₁ hs ha
      exact ih (fun b hb => hkeep b (List.mem_cons_of_mem a hb)) hs₁ hrest

/-- A row fails in one step, after those before it were done. -/
theorem forM_eq_error {as : List α}
    (hkeep : ∀ a ∈ as, ∀ s s', inv s → w a s = .ok () s' → inv s') (hs : inv s)
    (h : as.forM w s = .error fault s') :
    ∃ left a right s₁, as = left ++ a :: right ∧ left.forM w s = .ok () s₁ ∧ inv s₁ ∧
      w a s₁ = .error fault s' := by
  induction as generalizing s with
  | nil => cases h
  | cons a as ih =>
      rcases bind_eq_error h with ha | ⟨_, s₁, ha, hrest⟩
      · exact ⟨[], a, as, s, rfl, rfl, hs, ha⟩
      · have hs₁ := hkeep a List.mem_cons_self s s₁ hs ha
        obtain ⟨left, b, right, s₂, rfl, hleft, hs₂, hb⟩ :=
          ih (fun b hb => hkeep b (List.mem_cons_of_mem a hb)) hs₁ hrest
        refine ⟨a :: left, b, right, s₂, rfl, ?_, hs₂, hb⟩
        exact (bind_ok ha).trans hleft

end Runs

variable [Sink σ] {sortKeys : Bool} {v : Value} {kind : FrameKind} {outer : Stack}
  {row : List Act × Value} {s s' : Session σ} {fault : Fault}

/-- What leads up to a value in a container does not fail, and then the value is allowed. -/
theorem runAll_lead (hopens : v.opens? = some kind) (hrow : row ∈ v.rows sortKeys)
    (hready : s.Ready kind outer) :
    ∃ s₁ f, Act.runAll row.1 s = .ok () s₁ ∧ s₁.stack = f :: outer ∧ f.kind = kind ∧
      (f.awaitingValue = true → f.kind = .object) := by
  obtain ⟨hasMember, hstack⟩ := hready
  cases v with
  | list items | tuple items =>
      cases hopens
      obtain ⟨u, -, rfl⟩ := List.mem_map.1 hrow
      exact ⟨s, _, rfl, hstack, rfl, nofun⟩
  | mapping entries =>
      obtain ⟨m, -, rfl⟩ := List.mem_map.1 hrow
      have hobject : kind = .object := by
        simp only [Value.opens?] at hopens
        split at hopens
        · cases hopens
          rfl
        · cases hopens
      subst hobject
      have hmove : s.stack.key =
          .ok (Frame.separator ⟨.object, hasMember, false⟩, ⟨.object, hasMember, true⟩ :: outer) := by
        rw [hstack]
        rfl
      obtain ⟨s₁, hkey, hgrows⟩ :=
        place_ok (fun sep : Separator => sep.text ++ Text.quote m.1 ++ ":") hmove
      rw [← key_text] at hkey
      refine ⟨s₁, _, ?_, hgrows.stack, rfl, fun _ => rfl⟩
      rw [Act.runAll_singleton]
      exact hkey
  | _ => cases hopens

theorem ready_of_row (hopens : v.opens? = some kind) (hrow : row ∈ v.rows sortKeys)
    (hready : s.Ready kind outer)
    (h : (do Act.runAll row.1; emit sortKeys row.2 : Write σ Unit) s = .ok () s') :
    s'.Ready kind outer := by
  obtain ⟨s₁, f, hlead, hstack, rfl, hf⟩ := runAll_lead hopens hrow hready
  rw [bind_ok hlead] at h
  obtain ⟨sep, st, hvalue, -, hgrows⟩ := grows_of_emit h
  rw [hstack] at hvalue
  obtain ⟨-, rfl⟩ := Stack.value_marks hvalue hf
  exact ⟨true, hgrows.stack⟩

theorem finish_of_ready (h : s.Ready kind outer) : ∃ s', finish s = .ok () s' := by
  obtain ⟨hasMember, hstack⟩ := h
  have hpop : s.stack.pop = .ok (⟨kind, hasMember, false⟩, Stack.markMember outer) := by
    rw [hstack]
    exact if_neg fun h => nomatch h.2
  obtain ⟨s', hfinish, -⟩ := place_ok (fun f : Frame => f.kind.closer) hpop
  exact ⟨s', hfinish⟩

/-- What is no container leaves no trace when it fails. -/
theorem untouched_of_not_opens (hopens : v.opens? = none)
    (h : emit sortKeys v s = .error fault s') : s.Untouched s' := by
  cases v with
  | null =>
      rw [emit] at h
      exact (atomic_call s (c := .null) rfl).error _ _ h
  | bool b =>
      rw [emit] at h
      exact (atomic_call s (c := .bool (.bool b)) rfl).error _ _ h
  | int n =>
      rw [emit] at h
      exact (atomic_call s (c := .integer (.int n)) rfl).error _ _ h
  | float x =>
      rw [emit] at h
      exact (atomic_call s (c := .float (.float x) .null) rfl).error _ _ h
  | text t =>
      rw [emit] at h
      exact (atomic_call s (c := .string (.text t)) rfl).error _ _ h
  | pairs p => exact untouched_of_emit_pairs h
  | list items | tuple items => cases hopens
  | mapping entries =>
      simp only [Value.opens?] at hopens
      split at hopens
      · cases hopens
      · rename_i hkeys
        obtain ⟨kind, hkeys⟩ := Option.ne_none_iff_exists'.1 hkeys
        rw [emit_mapping_of_key sortKeys hkeys] at h
        cases h
        exact .refl s
  | set _ | bytes _ | unknown | path _ | settings _ =>
      cases h
      exact .refl s

/-- Where the writing of a value came to its end: at a value in it, so many containers deep, whose
first call failed and left no trace, after all the calls before it were made. -/
structure StopsAt (sortKeys : Bool) (v : Value) (s : Session σ) (fault : Fault) (s' : Session σ)
    (depth : Nat) (before : List Act) (u : Value) (act : Act) (s₁ : Session σ) : Prop where
  within : v.Within sortKeys depth before u
  first : ∃ rest, u.calls sortKeys = act :: rest
  before : Act.runAll before s = .ok () s₁
  fails : act.run s₁ = .error fault s'
  untouched : s₁.Untouched s'
  level : s'.level = s.level + depth

theorem StopsAt.self {act : Act} (hfirst : ∃ rest, v.calls sortKeys = act :: rest)
    (hfails : act.run s = .error fault s') (huntouched : s.Untouched s') :
    StopsAt sortKeys v s fault s' 0 [] v act s where
  within := .self v
  first := hfirst
  before := rfl
  fails := hfails
  untouched := huntouched
  level := congrArg List.length huntouched.stack

/-- Where a value in a container comes to its end, so does the container. -/
theorem StopsAt.container {left right : List (List Act × Value)} {depth : Nat} {before : List Act}
    {u : Value} {act : Act} {s₀ s₁ s₂ s₃ : Session σ} (hopens : v.opens? = some kind)
    (hrows : v.rows sortKeys = left ++ row :: right) (hstart : start kind s = .ok () s₀)
    (hleft : Act.runAll (left.flatMap (Value.rowCalls sortKeys)) s₀ = .ok () s₁)
    (hlead : Act.runAll row.1 s₁ = .ok () s₂) (hlevel : s₂.level = s.level + 1)
    (h : StopsAt sortKeys row.2 s₂ fault s' depth before u act s₃) :
    StopsAt sortKeys v s fault s' (depth + 1)
      (.call (.start kind) :: (left.flatMap (Value.rowCalls sortKeys) ++ (row.1 ++ before)))
      u act s₃ where
  within := .row hopens hrows h.within
  first := h.first
  before := by
    refine (bind_ok hstart).trans ?_
    change Act.runAll _ s₀ = _
    rw [Act.runAll_append, bind_ok hleft, Act.runAll_append, bind_ok hlead]
    exact h.before
  fails := h.fails
  untouched := h.untouched
  level := by rw [h.level, hlevel, Nat.add_right_comm, Nat.add_assoc]

theorem stopsAt_of_emit (v : Value) (h : emit sortKeys v s = .error fault s') :
    ∃ depth before u act s₁, StopsAt sortKeys v s fault s' depth before u act s₁ := by
  induction v using Value.inductionOnParts sortKeys generalizing s with
  | step v ih =>
      cases hopens : v.opens? with
      | none =>
          have huntouched := untouched_of_not_opens hopens h
          obtain ⟨act, hcalls, hemit⟩ := Value.calls_of_not_opens (σ := σ) sortKeys hopens
          rw [hemit] at h
          exact ⟨0, [], v, act, s, .self ⟨[], hcalls⟩ h huntouched⟩
      | some kind =>
          rw [emit_of_opens hopens] at h
          rcases bind_eq_error h with hstart | ⟨_, s₀, hstart, hrest⟩
          · have huntouched := (atomic_call s (c := .start kind) rfl).error fault s' hstart
            exact ⟨0, [], v, .call (.start kind), s,
              .self ⟨_, Value.calls_of_opens hopens⟩ hstart huntouched⟩
          · obtain ⟨sep, outer, hvalue, hstack, -⟩ := room_of_start hstart
            have hkeep : ∀ row ∈ v.rows sortKeys, ∀ s s' : Session σ, s.Ready kind outer →
                (do Act.runAll row.1; emit sortKeys row.2) s = .ok () s' → s'.Ready kind outer :=
              fun row hrow _ _ => ready_of_row hopens hrow
            rcases bind_eq_error hrest with hbody | ⟨_, s₁, hbody, hfinish⟩
            · -- The container is open; the first row that fails is where the writing stops.
              obtain ⟨left, row, right, s₁, hrows, hleft, hready, hfails⟩ :=
                forM_eq_error hkeep ⟨false, hstack⟩ hbody
              have hrow : row ∈ v.rows sortKeys := by
                rw [hrows]
                exact List.mem_append_right left List.mem_cons_self
              obtain ⟨s₂, f, hlead, hstack₂, -, -⟩ := runAll_lead hopens hrow hready
              rw [bind_ok hlead] at hfails
              obtain ⟨depth, before, u, act, s₃, hstops⟩ :=
                ih row.2 (Value.mem_parts_of_mem_rows hrow) hfails
              have hleft : Act.runAll (left.flatMap (Value.rowCalls sortKeys)) s₀ = .ok () s₁ := by
                rw [Act.runAll_flatMap]
                simpa only [runAll_rowCalls] using hleft
              have hlevel : s₂.level = s.level + 1 := by
                change s₂.stack.length = s.stack.length + 1
                rw [hstack₂, List.length_cons, Stack.length_of_value hvalue]
              exact ⟨_, _, u, act, s₃, hstops.container hopens hrows hstart hleft hlead hlevel⟩
            · obtain ⟨s₂, hok⟩ := finish_of_ready (forM_eq_ok hkeep ⟨false, hstack⟩ hbody)
              rw [hok] at hfinish
              cases hfinish

/-- To write a value is to make its calls up to the first that fails. What was written before the
failure is what the calls before it wrote; the value at which it failed left no trace, and the
containers around that value, and only they, are still open. -/
theorem emit_refines_calls (sortKeys : Bool) (v : Value) (s : Session σ) :
    (Call.emit sortKeys v).run s = Act.runAll (v.calls sortKeys) s ∧
    ∀ fault s', (Call.emit sortKeys v).run s = .error fault s' →
      ∃ depth before u act after s₁, v.Within sortKeys depth before u ∧
        (∃ rest, u.calls sortKeys = act :: rest) ∧
        v.calls sortKeys = before ++ act :: after ∧
        Act.runAll before s = .ok () s₁ ∧ act.run s₁ = .error fault s' ∧ s₁.Untouched s' ∧
        s'.level = s.level + depth := by
  refine ⟨congrFun (emit_eq_runAll sortKeys v) s, ?_⟩
  intro fault s' h
  obtain ⟨depth, before, u, act, s₁, hstops⟩ := stopsAt_of_emit v h
  obtain ⟨after, hcalls⟩ := hstops.within.calls_eq
  obtain ⟨rest, hfirst⟩ := hstops.first
  rw [hfirst, List.cons_append] at hcalls
  exact ⟨depth, before, u, act, rest ++ after, s₁, hstops.within, ⟨rest, hfirst⟩, hcalls,
    hstops.before, hstops.fails, hstops.untouched, hstops.level⟩

end Write
end JsonWriter
