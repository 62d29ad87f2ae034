import JsonWriter.Proofs.Session.Pieces

/-! The text of a run means what its calls said. -/
namespace JsonWriter

open Json Session

theorem Written.words_eq_nil {spaced : Bool} {words : List (List Token)} {st : Stack}
    (h : Written spaced words st []) : words = [] := by
  generalize hpieces : ([] : List (List Char)) = pieces at h
  cases h with
  | start => rfl
  | add _ _ => exact absurd hpieces.symm (List.append_ne_nil_of_right_ne_nil _ nofun)

/-- One text and no open container: the tokens spell the value that the text denotes. -/
theorem Written.one {spaced : Bool} {words : List (List Token)} {t : List Char}
    (h : Written spaced words [] [t]) :
    ∃ v, Spells words.flatten v ∧ Reads spaced t v := by
  generalize hst : ([] : Stack) = st at h
  generalize hpieces : [t] = pieces at h
  cases h with
  | start => cases hpieces
  | @add words pieces toks st u hwhole hpart =>
      have hnil : pieces = [] := by
        have hlength := congrArg List.length hpieces
        rw [List.length_append] at hlength
        exact List.length_eq_zero_iff.1 (Nat.succ.inj hlength).symm
      subst hnil
      cases hpieces
      rw [hwhole.words_eq_nil]
      subst hst
      cases hpart with
      | whole hspells hreads =>
          refine ⟨_, ?_, hreads⟩
          rw [List.nil_append, List.flatten_singleton]
          exact hspells

variable {σ : Type} [Sink σ]

/-- Where all calls of a run succeed, its text is read as what they say: as the one value that the
tokens of the calls spell. -/
theorem Step.runAll_reads_tokens (settings : Settings) (sink : σ) (script : List Step)
    (hadm : ∀ step ∈ script, step.Admissible true) {s : Session σ}
    (hrun : Step.runAll script (Session.start settings sink) = .ok () s) (hlevel : s.level = 0)
    (hone : (Step.cutsAll (Session.start settings sink) [] script).length = 1) :
    ∃ (v : Json) (text : List Char),
      Spells (Step.tokensAll settings.floatPrecision script) v ∧
      (∀ v', Spells (Step.tokensAll settings.floatPrecision script) v' → v' = v) ∧
      s.text = (Sink.text sink).toList ++ text ∧ read? text = some v := by
  have hstart := holds_start true settings sink
  have hleaves := Step.leavesAll hadm hstart
  rw [hrun] at hleaves
  obtain ⟨words, hholds, -, hwords⟩ := hleaves
  obtain ⟨text, htext⟩ := List.length_eq_one_iff.1 hone
  have hwritten := hholds.written
  have hstack : s.stack = [] := List.length_eq_zero_iff.1 hlevel
  rw [htext] at hwritten
  change Written true words s.stack [text] at hwritten
  rw [hstack] at hwritten
  obtain ⟨v, hspells, hreads⟩ := hwritten.one
  have hflatten : words.flatten = Step.tokensAll settings.floatPrecision script := hwords rfl
  rw [hflatten] at hspells
  refine ⟨v, text, hspells, fun v' hv' => hv'.value_eq hspells, ?_, ?_⟩
  · have htext' := hholds.text
    rw [htext] at htext'
    rwa [List.flatten_singleton] at htext'
  · exact read?_eq_some_iff.2 hreads.spaced

/-- A string in pieces, and a key that comes again. -/
theorem Step.runAll_reads_tokens_object :
    let script : List Step := [.block .object [.call (.key (.text "a")), .call (.start .string),
      .call (.chunk (.text "x")), .call (.chunk (.text "\"")), .call .finish,
      .call (.key (.text "a")), .call (.bool (.bool true))]]
    ∃ (s : Session TextBuffer) (text : List Char),
      Step.runAll script (Session.start .default {}) = .ok () s ∧ s.text = text ∧
      read? text = some (.object [("a", .string "x\""), ("a", .bool true)]) := by
  intro script
  have hadm : ∀ step ∈ script, step.Admissible true := by
    intro step hstep
    cases List.mem_singleton.1 hstep
    refine .block .object ?_
    intro step hstep
    simp only [List.mem_cons, List.not_mem_nil, or_false] at hstep
    rcases hstep with rfl | rfl | rfl | rfl | rfl | rfl | rfl
    all_goals exact .call trivial
  have hspells : Spells (Step.tokensAll 6 script)
      (.object [("a", .string (String.join ["x", "\""])), ("a", .bool true)]) :=
    .object (.cons (.string ["x", "\""]) (.cons (.value (.bool true)) .nil))
  obtain ⟨s, hrun, hlevel⟩ : ∃ s : Session TextBuffer,
      Step.runAll script (Session.start .default {}) = .ok () s ∧ s.level = 0 :=
    ⟨_, rfl, rfl⟩
  obtain ⟨v, text, -, hunique, htext, hread⟩ :=
    Step.runAll_reads_tokens .default ({} : TextBuffer) script hadm hrun hlevel (by decide +kernel)
  rw [← hunique _ hspells] at hread
  exact ⟨s, text, hrun, htext, hread⟩

end JsonWriter
