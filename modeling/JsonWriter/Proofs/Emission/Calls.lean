import JsonWriter.Proofs.Session.Bulk

/-! A whole value as the calls that one would make for it, one after another: to write the value is
to make these calls up to the first that fails. -/
namespace JsonWriter

/-- One step in writing a value: a call, or the refusal of what has no JSON form. -/
inductive Act where
  | call (c : Call)
  | refuse (cause : TypeFault)

variable {σ : Type} [Sink σ]

def Act.run : Act → Write σ Unit
  | call c => c.run
  | refuse cause => throw (.type cause)

def Act.runAll (acts : List Act) : Write σ Unit := acts.forM Act.run

namespace Value

/-- The calls that a value stands for, in their order. -/
def calls (sortKeys : Bool) : Value → List Act
  | null => [.call .null]
  | bool b => [.call (.bool (.bool b))]
  | int n => [.call (.integer (.int n))]
  | float x => [.call (.float (.float x) .null)]
  | text s => [.call (.string (.text s))]
  | pairs p => [.call (.stringPairs (.pairs p))]
  | list items | tuple items =>
    .call (.start .array) :: ((items.map fun v => calls sortKeys v).flatten ++ [.call .finish])
  | mapping entries =>
    match entries.find? (·.1.kind ≠ .text) with
    | some entry => [.refuse (.objectKey entry.1.kind)]
    | none =>
      .call (.start .object) ::
        ((members sortKeys (entries.map fun e => (e.1, calls sortKeys e.2))).flatMap
          (fun m => .call (.key (.text m.1)) :: m.2) ++ [.call .finish])
  | v => [.refuse (.noJsonForm v.kind)]
termination_by v => sizeOf v
decreasing_by
  · exact sizeOf_lt_of_mem_parts false (v := list items) ‹_›
  · exact sizeOf_lt_of_mem_parts false (v := tuple items) ‹_›
  · exact sizeOf_lt_of_mem_entries ‹_›

/-- The container that a value is written as, if it is one and its keys allow it. -/
def opens? : Value → Option FrameKind
  | list _ | tuple _ => some .array
  | mapping entries => if Write.nonTextKey? entries = none then some .object else none
  | _ => none

/-- The values in a container, each with the calls that lead up to it: a member has its key. -/
def rows (sortKeys : Bool) : Value → List (List Act × Value)
  | list items | tuple items => items.map ([], ·)
  | mapping entries =>
    (members sortKeys entries).map fun m => ([.call (.key (.text m.1))], m.2)
  | _ => []

def rowCalls (sortKeys : Bool) (row : List Act × Value) : List Act :=
  row.1 ++ row.2.calls sortKeys

variable {sortKeys : Bool} {v : Value} {kind : FrameKind}

theorem mem_parts_of_mem_rows {row : List Act × Value} (h : row ∈ v.rows sortKeys) :
    row.2 ∈ v.parts sortKeys := by
  cases v with
  | list items | tuple items =>
      obtain ⟨u, hu, rfl⟩ := List.mem_map.1 h
      exact hu
  | mapping entries =>
      obtain ⟨m, hm, rfl⟩ := List.mem_map.1 h
      exact List.mem_map_of_mem hm
  | _ => cases h

theorem lead_of_mem_rows {row : List Act × Value} (h : row ∈ v.rows sortKeys) :
    row.1 = [] ∨ ∃ k : String, row.1 = [.call (.key (.text k))] := by
  cases v with
  | list items | tuple items =>
      obtain ⟨u, -, rfl⟩ := List.mem_map.1 h
      exact .inl rfl
  | mapping entries =>
      obtain ⟨m, -, rfl⟩ := List.mem_map.1 h
      exact .inr ⟨m.1, rfl⟩
  | _ => cases h

/-- A container is opened, what it holds is written row by row, and it is closed. -/
theorem calls_of_opens (h : v.opens? = some kind) : v.calls sortKeys =
    .call (.start kind) :: ((v.rows sortKeys).flatMap (rowCalls sortKeys) ++ [.call .finish]) := by
  cases v with
  | list items | tuple items =>
      cases h
      rw [calls, rows, List.flatMap_map, ← List.flatMap_def]
      rfl
  | mapping entries =>
      simp only [opens?] at h
      split at h
      · rename_i hkeys
        cases h
        rw [nonTextKey?_eq, Option.map_eq_none_iff] at hkeys
        rw [calls, hkeys, members_map, List.flatMap_map, rows, List.flatMap_map]
        rfl
      · cases h
  | _ => cases h

theorem calls_of_not_opens (sortKeys : Bool) (h : v.opens? = none) :
    ∃ act, v.calls sortKeys = [act] ∧ (Write.emit sortKeys v : Write σ Unit) = act.run := by
  cases v with
  | null | bool b | int n | float x | text s | pairs p =>
      rw [calls, Write.emit]
      exact ⟨_, rfl, rfl⟩
  | list items | tuple items => cases h
  | mapping entries =>
      simp only [opens?] at h
      split at h
      · cases h
      · rename_i hkeys
        obtain ⟨kind, hkeys⟩ := Option.ne_none_iff_exists'.1 hkeys
        rw [Write.emit_mapping_of_key sortKeys hkeys]
        rw [nonTextKey?_eq, Option.map_eq_some_iff] at hkeys
        obtain ⟨entry, hentry, rfl⟩ := hkeys
        rw [calls, hentry]
        exact ⟨_, rfl, rfl⟩
  | set _ | bytes _ | unknown | path _ | settings _ =>
      refine ⟨.refuse (.noJsonForm _), ?_, rfl⟩
      simp [calls]

end Value

namespace Act

theorem runAll_singleton (act : Act) : (runAll [act] : Write σ Unit) = act.run := bind_pure_unit

theorem runAll_append (acts others : List Act) :
    (runAll (acts ++ others) : Write σ Unit) = (do runAll acts; runAll others) :=
  List.forM_append

theorem runAll_flatMap {α : Type} (acts : α → List Act) (parts : List α) :
    (runAll (parts.flatMap acts) : Write σ Unit) = parts.forM fun a => runAll (acts a) :=
  Write.forM_flatMap acts run parts

/-- The calls for a container are those that open it, fill it and close it. -/
theorem runAll_enclosed (kind : FrameKind) (body : List Act) :
    (runAll (.call (.start kind) :: (body ++ [.call .finish])) : Write σ Unit) =
      Write.enclosed kind (runAll body) := by
  change (do Write.start kind; runAll (body ++ [Act.call .finish])) = _
  rw [runAll_append, runAll_singleton]
  rfl

end Act

namespace Write

variable {sortKeys : Bool} {v : Value} {kind : FrameKind}

theorem emit_of_opens (h : v.opens? = some kind) : (emit sortKeys v : Write σ Unit) =
    enclosed kind ((v.rows sortKeys).forM fun row => do
      Act.runAll row.1
      emit sortKeys row.2) := by
  cases v with
  | list items =>
      cases h
      rw [emit_list, Value.rows, forM_map]
      rfl
  | tuple items =>
      cases h
      rw [emit_tuple, Value.rows, forM_map]
      rfl
  | mapping entries =>
      simp only [Value.opens?] at h
      split at h
      · rename_i hkeys
        cases h
        rw [emit_mapping sortKeys hkeys, Value.rows, forM_map]
        simp only [Act.runAll_singleton]
        rfl
      · cases h
  | _ => cases h

/-- To write a value is to make its calls. -/
theorem emit_eq_runAll (sortKeys : Bool) (v : Value) :
    (emit sortKeys v : Write σ Unit) = Act.runAll (v.calls sortKeys) := by
  induction v using Value.inductionOnParts sortKeys with
  | step v ih =>
      cases hopens : v.opens? with
      | none =>
          obtain ⟨act, hcalls, hemit⟩ := Value.calls_of_not_opens (σ := σ) sortKeys hopens
          rw [hcalls, hemit, Act.runAll_singleton]
      | some kind =>
          rw [Value.calls_of_opens hopens, Act.runAll_enclosed, Act.runAll_flatMap,
            emit_of_opens hopens]
          refine congrArg (enclosed kind) (forM_congr _ ?_)
          intro row hrow
          rw [Value.rowCalls, Act.runAll_append, ih row.2 (Value.mem_parts_of_mem_rows hrow)]

theorem runAll_rowCalls (sortKeys : Bool) (row : List Act × Value) :
    (Act.runAll (Value.rowCalls sortKeys row) : Write σ Unit) =
      (do Act.runAll row.1; emit sortKeys row.2) := by
  rw [Value.rowCalls, Act.runAll_append, ← emit_eq_runAll]

end Write
end JsonWriter
