import JsonWriter.Proofs.Emission.Outcome
import JsonWriter.Proofs.Json.Reading
import JsonWriter.Render

/-! Whole documents: what the text of a value reads back as, and when a value has a text. -/
namespace JsonWriter

def Settings.limit (c : Settings) : Option Int := c.maxNesting.map Int.ofNat

theorem Value.offence?_eq_some {limit : Option Int} {depth : Nat} {v : Value} {fault : Fault}
    (h : offence? limit depth v = some fault) :
    (∃ n, limit = some n ∧ fault = .nesting (.tooDeep n)) ∨ fault = .value .numeralTooLong ∨
      ∃ cause, fault = .type cause := by
  have hdeep : tooDeep? limit depth = some fault →
      (∃ n, limit = some n ∧ fault = .nesting (.tooDeep n)) ∨ fault = .value .numeralTooLong := by
    intro hfault
    obtain ⟨n, hlimit, hn⟩ := Option.bind_eq_some_iff.1 hfault
    split at hn
    · rw [← Option.some.inj hn, Violation.fault]
      split
      · exact .inl ⟨n, hlimit, rfl⟩
      · exact .inr rfl
    · cases hn
  cases v with
  | null | bool _ | float _ | text _ => cases h
  | int n =>
      by_cases hlong : Numeral.maxDigits < (Nat.toDigits 10 n.natAbs).length
      · have hfault : offence? limit depth (.int n) = some (.value .numeralTooLong) :=
          if_pos hlong
        rw [hfault] at h
        exact .inr (.inl (Option.some.inj h).symm)
      · have hfault : offence? limit depth (.int n) = none := if_neg hlong
        rw [hfault] at h
        cases h
  | list _ | tuple _ | pairs _ => exact (hdeep h).imp_right .inl
  | mapping entries =>
      rw [offence?_mapping] at h
      split at h
      · exact .inr (.inr ⟨_, (Option.some.inj h).symm⟩)
      · exact (hdeep h).imp_right .inl
  | set _ | bytes _ | unknown | path _ | settings _ =>
      exact .inr (.inr ⟨_, (Option.some.inj h).symm⟩)

theorem Value.fault?_eq_some {limit : Option Int} {sortKeys : Bool} {depth : Nat} {v : Value}
    {fault : Fault} (h : v.fault? limit sortKeys depth = some fault) :
    (∃ n, limit = some n ∧ fault = .nesting (.tooDeep n)) ∨ fault = .value .numeralTooLong ∨
      ∃ cause, fault = .type cause := by
  obtain ⟨node, -, hnode⟩ := List.exists_of_findSome?_eq_some h
  exact offence?_eq_some hnode

namespace Request

variable {v : Value} {c : Settings} {sortKeys : Bool} {w : Workspace}

theorem render_of_resolve {source : Value} {w₁ : Workspace}
    (h : Settings.resolve source Settings.roundTrip w = .ok c w₁) :
    render v source sortKeys w = render v (.settings c) sortKeys w₁ := bind_ok h

theorem render_eq_bind : render v (.settings c) sortKeys w =
    (session c (Write.emit sortKeys v) >>= fun s => do
      if s.level ≠ 0 then throw (.leftOpen s.level)
      return s.sink.contents : Request String) w := rfl

theorem within_start (c : Settings) : (Session.start c ({} : TextBuffer)).Within := by
  intro n hn
  obtain ⟨m, -, rfl⟩ := Option.map_eq_some_iff.1 hn
  exact Int.natCast_nonneg m

theorem render_of_fault?_eq_none (h : v.fault? c.limit sortKeys 0 = none) :
    ∃ text : String, render v (.settings c) sortKeys w = .ok text w ∧
      text.toList = v.jsonText c.floatPrecision sortKeys := by
  have hemit := Write.emits sortKeys v (Session.start c ({} : TextBuffer)) .none [] rfl
  change Write.Ends _ _ (v.fault? c.limit sortKeys 0) _ _ at hemit
  rw [h] at hemit
  obtain ⟨s, hs, hgrows⟩ := hemit
  have hlevel : s.level = 0 := hgrows.level
  have hlog : s.log = [] := hgrows.log
  refine ⟨s.sink.contents, ?_, hgrows.text⟩
  have hsession : session c (Write.emit sortKeys v) w = .ok s w := by
    have hsame : ({ w with log := w.log ++ s.log } : Workspace) = w := by
      rw [hlog, List.append_nil]
    unfold session
    rw [hs]
    change EStateM.Result.ok s { w with log := w.log ++ s.log } = _
    rw [hsame]
  rw [render_eq_bind, bind_ok hsession, if_neg (not_not.2 hlevel)]
  rfl

theorem render_of_fault?_eq_some {fault : Fault}
    (h : v.fault? c.limit sortKeys 0 = some fault) :
    render v (.settings c) sortKeys w = .error fault { w with log := w.log ++ fault.lines } := by
  have hemit := Write.emits sortKeys v (Session.start c ({} : TextBuffer)) .none [] rfl
  change Write.Ends _ _ (v.fault? c.limit sortKeys 0) _ _ at hemit
  rw [h] at hemit
  obtain ⟨s, hs, hlog⟩ := hemit
  have hlines : s.log = fault.lines := hlog (within_start c)
  have hsession : session c (Write.emit sortKeys v) w =
      .error fault { w with log := w.log ++ fault.lines } := by
    unfold session
    rw [hs, ← hlines]
    rfl
  rw [render_eq_bind, bind_error hsession]

/-- A text that is returned is one JSON value: the normal form of the value, at the precision of the
settings that the source names. -/
theorem render_reads_normal {source : Value} {w' : Workspace} {text : String}
    (h : render v source sortKeys w = .ok text w') :
    ∃ c w₁, Settings.resolve source Settings.roundTrip w = .ok c w₁ ∧
      Json.read? text.toList = some (v.normal c.floatPrecision sortKeys) := by
  cases hsource : Settings.resolve source Settings.roundTrip w with
  | error fault w₁ =>
      unfold render at h
      simp only [bind, EStateM.bind, hsource] at h
      cases h
  | ok c w₁ =>
      refine ⟨c, w₁, rfl, ?_⟩
      rw [render_of_resolve hsource] at h
      cases hfault : v.fault? c.limit sortKeys 0 with
      | some fault =>
          rw [render_of_fault?_eq_some hfault] at h
          cases h
      | none =>
          obtain ⟨text', hrender, htext⟩ := render_of_fault?_eq_none (w := w₁) hfault
          rw [hrender] at h
          cases h
          rw [Json.read?_eq_some_iff, htext]
          exact (v.denotes_jsonText c.floatPrecision sortKeys).spaced

theorem render_reads_normal_mapping : ∃ (text : String) (w' : Workspace),
    render (.mapping [(.text "b", .list [.int 1, .null]), (.text "a", .bool true)]) .null false
      { files := .empty } = .ok text w' ∧
    Json.read? text.toList =
      some (.object [("b", .array [.number 1, .null]), ("a", .bool true)]) := by
  have hfault : Value.fault? Settings.roundTrip.limit false 0
      (.mapping [(.text "b", .list [.int 1, .null]), (.text "a", .bool true)]) = none := by
    unfold Value.fault?
    simp only [Value.nodes_eq, Value.parts, Value.members, Value.named, List.filterMap_cons,
      List.filterMap_nil, Bool.false_eq_true, if_false, List.map_cons, List.map_nil,
      List.flatMap_cons, List.flatMap_nil]
    rfl
  obtain ⟨text, hrender, -⟩ := render_of_fault?_eq_none (w := { files := .empty }) hfault
  have hsource : render _ .null false { files := .empty } = .ok text _ := hrender
  obtain ⟨c, w₁, hresolve, hread⟩ := render_reads_normal hsource
  cases hresolve
  refine ⟨text, _, hsource, ?_⟩
  rw [hread, Value.normal_mapping]
  simp [Value.members, Value.named, Value.normal]

/-- A document has a text just if no value in it is refused; otherwise it fails with what the first
such value is refused for. It is never left open, and where it has a text the text does not depend
on the limit. -/
theorem render_outcome (v : Value) (c : Settings) (sortKeys : Bool) (w : Workspace) :
    (match (v.nodes sortKeys 0).findSome? fun n => Value.offence? c.limit n.1 n.2 with
      | none => ∃ text, render v (.settings c) sortKeys w = .ok text w
      | some fault => render v (.settings c) sortKeys w =
          .error fault { w with log := w.log ++ fault.lines }) ∧
    (∀ cause w', render v (.settings c) sortKeys w = .error (.nesting cause) w' →
      ∃ n, c.maxNesting = some n ∧ cause = .tooDeep n ∧
        w'.log = w.log ++ [.violation n (.tooDeep n)]) ∧
    (∀ level w', render v (.settings c) sortKeys w ≠ .error (.leftOpen level) w') ∧
    ∀ (c' : Settings) (text text' : String) (w₁ w₂ : Workspace),
      c'.floatPrecision = c.floatPrecision →
      render v (.settings c) sortKeys w = .ok text w₁ →
      render v (.settings c') sortKeys w = .ok text' w₂ → text = text' := by
  cases hfault : v.fault? c.limit sortKeys 0 with
  | none =>
      obtain ⟨text, hrender, htext⟩ := render_of_fault?_eq_none (w := w) hfault
      unfold Value.fault? at hfault
      rw [hfault, hrender]
      refine ⟨⟨text, rfl⟩, nofun, nofun, ?_⟩
      intro c' text₁ text₂ w₁ w₂ hprecision h h'
      cases h
      cases hfault' : v.fault? c'.limit sortKeys 0 with
      | none =>
          obtain ⟨text', hrender', htext'⟩ := render_of_fault?_eq_none (w := w) hfault'
          rw [hrender'] at h'
          cases h'
          rw [← String.toList_inj, htext, htext', hprecision]
      | some fault =>
          rw [render_of_fault?_eq_some hfault'] at h'
          cases h'
  | some fault =>
      have hrender := render_of_fault?_eq_some (w := w) hfault
      have hcauses := Value.fault?_eq_some hfault
      unfold Value.fault? at hfault
      rw [hfault, hrender]
      refine ⟨rfl, ?_, ?_, nofun⟩
      · intro cause w' h
        cases h
        rcases hcauses with ⟨n, hlimit, hn⟩ | h | ⟨_, h⟩
        · obtain ⟨m, hm, rfl⟩ := Option.map_eq_some_iff.1 hlimit
          cases hn
          exact ⟨m, hm, rfl, rfl⟩
        · cases h
        · cases h
      · intro level w' h
        cases h
        rcases hcauses with ⟨_, _, h⟩ | h | ⟨_, h⟩
        · cases h
        · cases h
        · cases h

end Request
end JsonWriter
