import JsonWriter.Proofs.Session.Pieces

/-! Every run can be closed, and is then a row of complete values. -/
namespace JsonWriter

open Json Session

variable {σ : Type} [Sink σ]

/-- Closes the innermost container; a key at its end gets a value first. -/
def Write.closeInnermost : Write σ Unit := do
  if (← get).tracker.top?.any (·.awaitingValue) then null
  finish

/-- Containers are closed as long as one is open. No step fails on the way. -/
inductive Session.Closes : Session σ → Session σ → Prop
  | done {s} : s.level = 0 → Closes s s
  | next {s s' closed} : 0 < s.level → Write.closeInnermost s = .ok () s' → Closes s' closed →
      Closes s closed

variable {spaced : Bool} {base : List Char} {words : List (List Token)}
  {pieces : List (List Char)} {s : Session σ}

theorem Written.content {f : Frame} {outer : Stack} (h : Written spaced words (f :: outer) pieces) :
    ∃ body t, Content f body t := by
  generalize hst : f :: outer = st at h
  cases h with
  | start => cases hst
  | add _ hpart =>
      subst hst
      cases hpart with
      | draft hdraft =>
          cases hdraft with
          | inside _ _ hcontent => exact ⟨_, _, hcontent⟩

theorem Content.value_of_awaiting {f : Frame} {body : List Token} {t : List Char}
    (h : Content f body t) (hawaiting : f.awaitingValue = true) (outer : Stack) :
    ∃ f', Stack.value (f :: outer) = .ok (.none, f' :: outer) ∧ f'.awaitingValue = false := by
  cases h with
  | array _ _ => cases hawaiting
  | object _ _ => cases hawaiting
  | pending k _ _ => exact ⟨_, rfl, rfl⟩
  | string chunks => cases hawaiting

namespace Write

theorem finish_ok (spaced : Bool) {f : Frame} {outer : Stack} (hstack : s.stack = f :: outer)
    (hawaiting : f.awaitingValue = false) :
    ∃ s', finish s = .ok () s' ∧ Walk spaced 1 [.finish] s s' := by
  have hpop : s.stack.pop = .ok (f, Stack.markMember outer) := by
    rw [hstack]
    simp [Stack.pop, hawaiting]
  obtain ⟨s', hrun, hgrows⟩ := place_ok (fun f : Frame => f.kind.closer) hpop
  have hadds : Adds spaced .finish s.stack (Stack.markMember outer) f.kind.closer.toList :=
    .finish hpop
  have hlevel : 1 ≤ s.stack.level := by
    rw [hstack]
    exact Nat.le_add_left 1 _
  rw [← hgrows.stack] at hadds
  exact ⟨s', hrun, hgrows.settings, _, hgrows.text, .one hlevel hadds⟩

omit [Sink σ] in
theorem top?_of_stack {f : Frame} {outer : Stack} (hstack : s.stack = f :: outer) :
    s.tracker.top? = some f := by
  unfold Tracker.top?
  change s.stack.head? = _
  rw [hstack]
  rfl

theorem closeInnermost_eq {f : Frame} {outer : Stack} (hstack : s.stack = f :: outer) :
    closeInnermost s = (do
      if f.awaitingValue then null
      finish : Write σ Unit) s := by
  change (do
    if s.tracker.top?.any (·.awaitingValue) then null
    finish : Write σ Unit) s = _
  rw [top?_of_stack hstack]
  rfl

theorem closeInnermost_ok (h : s.Holds spaced base words pieces) (hlevel : 0 < s.level) :
    ∃ toks s', closeInnermost s = .ok () s' ∧ Walk spaced 1 toks s s' ∧
      s'.level = s.level - 1 := by
  cases hstack : s.stack with
  | nil =>
      have hzero : s.level = 0 := congrArg List.length hstack
      omega
  | cons f outer =>
      have hwritten := h.written
      rw [hstack] at hwritten
      obtain ⟨body, t, hcontent⟩ := hwritten.content
      cases hawaiting : f.awaitingValue with
      | false =>
          obtain ⟨s', hfinish, hwalk⟩ := finish_ok spaced hstack hawaiting
          refine ⟨_, s', ?_, hwalk, hwalk.one_level⟩
          rw [closeInnermost_eq hstack, hawaiting]
          exact hfinish
      | true =>
          obtain ⟨f', hvalue, hdone⟩ := hcontent.value_of_awaiting hawaiting outer
          rw [← hstack] at hvalue
          obtain ⟨s₁, hnull, hgrows⟩ :=
            place_ok (fun sep : Separator => sep.text ++ "null") hvalue
          obtain ⟨s', hfinish, hwalk⟩ := finish_ok spaced hgrows.stack hdone
          have hleads := leads_valueText "null" s (Denotes.nullWord.reads spaced)
          have hnull : valueText "null" s = .ok () s₁ := hnull
          unfold Leads at hleads
          rw [hnull] at hleads
          have hlevel₁ : s₁.level = s.level := hleads.one_level
          refine ⟨_, s', ?_, (hleads.raise hlevel).trans hwalk, ?_⟩
          · rw [closeInnermost_eq hstack, hawaiting]
            change (null >>= fun _ => finish : Write σ Unit) s = _
            have hnull : null s = .ok () s₁ := hnull
            rw [bind_ok hnull, hfinish]
          · rw [hwalk.one_level, hlevel₁]
            rfl

end Write

theorem modifyLast_append_nil (pieces : List (List Char)) :
    pieces.modifyLast (· ++ []) = pieces := by
  rcases List.eq_nil_or_concat pieces with rfl | ⟨init, last, rfl⟩
  · rfl
  · rw [List.concat_eq_append, List.modifyLast_concat, List.append_nil]

theorem modifyLast_append_append (t u : List Char) (pieces : List (List Char)) :
    (pieces.modifyLast (· ++ t)).modifyLast (· ++ u) = pieces.modifyLast (· ++ (t ++ u)) := by
  rcases List.eq_nil_or_concat pieces with rfl | ⟨init, last, rfl⟩
  · rfl
  · simp only [List.concat_eq_append, List.modifyLast_concat, List.append_assoc]

/-- Closing adds to the last text alone, and to none where nothing is open. -/
theorem Session.Holds.closes (h : s.Holds spaced base words pieces) :
    ∃ closed rest words', Closes s closed ∧ closed.level = 0 ∧
      closed.Holds spaced base words' (pieces.modifyLast (· ++ rest)) ∧
      (s.level = 0 → closed = s ∧ rest = []) := by
  -- Each container that is closed leaves one fewer open.
  induction hn : s.level generalizing s words pieces with
  | zero =>
      refine ⟨s, [], words, .done hn, hn, ?_, fun _ => ⟨rfl, rfl⟩⟩
      rw [modifyLast_append_nil]
      exact h
  | succ n ih =>
      have hlevel : 0 < s.level := by omega
      obtain ⟨toks, s', hrun, hwalk, hlevel'⟩ := Write.closeInnermost_ok h hlevel
      obtain ⟨words₁, hholds, -⟩ := h.walk hlevel.ne' hwalk
      obtain ⟨closed, rest, words', hcloses, hzero, hclosed, -⟩ := ih hholds (by omega)
      have hcut : s.cut s' pieces = pieces.modifyLast (· ++ s.gained s') := if_pos hlevel.ne'
      rw [hcut, modifyLast_append_append] at hclosed
      exact ⟨closed, _, words', .next hlevel hrun hcloses, hzero, hclosed, nofun⟩

/-- Whatever was called and whatever failed, a run can be closed. Its text is then one JSON value
after another: one for each top-level value that the run began, and only the last may have been
continued. Where nothing is open the text is that already. -/
theorem Session.closes_runAll (spaced : Bool) (settings : Settings) (sink : σ)
    (script : List Step) (hadm : ∀ step ∈ script, step.Admissible spaced) :
    ∃ (closed : Session σ) (texts : List (List Char)),
      Closes ((Session.start settings sink).runAll script) closed ∧ closed.level = 0 ∧
      closed.text = (Sink.text sink).toList ++ texts.flatten ∧
      (∀ t ∈ texts, ∃ v, Reads spaced t v) ∧
      (∃ rest, texts = ((Session.start settings sink).cuts [] script).modifyLast (· ++ rest)) ∧
      (((Session.start settings sink).runAll script).level = 0 →
        closed = (Session.start settings sink).runAll script ∧
          texts = (Session.start settings sink).cuts [] script) := by
  have hstart := holds_start spaced settings sink
  obtain ⟨words, hholds⟩ := hstart.runAll script hadm
  obtain ⟨closed, rest, words', hcloses, hlevel, hclosed, htop⟩ := hholds.closes
  have hwritten := hclosed.written
  have hstack : closed.stack = [] := List.length_eq_zero_iff.1 hlevel
  rw [hstack] at hwritten
  refine ⟨closed, _, hcloses, hlevel, hclosed.text, hwritten.reads, ⟨rest, rfl⟩, ?_⟩
  intro hzero
  obtain ⟨rfl, rfl⟩ := htop hzero
  exact ⟨rfl, modifyLast_append_nil _⟩

/-- A run that ends with a key that has no value, after an end that was refused. -/
theorem Session.closes_runAll_key :
    let script : List Step := [.call (.raw (.text "true")), .call .finish, .call (.start .object),
      .block .array [.call .null], .call (.key (.text "k"))]
    ∃ (closed : Session TextBuffer) (texts : List (List Char)),
      Closes ((Session.start .default {}).runAll script) closed ∧ closed.level = 0 ∧
      closed.text = texts.flatten ∧ ∀ t ∈ texts, ∃ v, Reads false t v := by
  intro script
  have hadm : ∀ step ∈ script, step.Admissible false := by
    intro step hstep
    simp only [script, List.mem_cons, List.not_mem_nil, or_false] at hstep
    rcases hstep with rfl | rfl | rfl | rfl | rfl
    · exact .call ⟨"true", .bool true, rfl, Denotes.trueWord.reads false⟩
    · exact .call trivial
    · exact .call trivial
    · refine .block .array ?_
      intro step hstep
      cases List.mem_singleton.1 hstep
      exact .call trivial
    · exact .call trivial
  obtain ⟨closed, texts, hcloses, hlevel, htext, hreads, -, -⟩ :=
    closes_runAll false .default ({} : TextBuffer) script hadm
  exact ⟨closed, texts, hcloses, hlevel, htext, hreads⟩

end JsonWriter
