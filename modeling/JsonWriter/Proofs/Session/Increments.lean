import JsonWriter.Proofs.Session.Reached

/-! Strings that are written in pieces. However a text is cut, its pieces in an open string leave
what the whole text leaves as one value. -/
namespace JsonWriter

/-- Each character is escaped by itself, whether or not others of its text need it. -/
theorem Text.escape_append (s t : String) : escape (s ++ t) = escape s ++ escape t := by
  apply String.toList_injective
  simp only [toList_escape, String.toList_append, List.flatMap_append]

def Step.piece (t : String) : Step := .call (.chunk (.text t))

variable {σ : Type} [Sink σ]

theorem Step.runAll_pieces (texts : List String) :
    (runAll (texts.map piece) : Write σ Unit) = texts.forM fun t => Write.chunk (.text t) := by
  rw [runAll_eq_forM, Write.forM_map]
  rfl

namespace Session

theorem Grows.congr {s s₁ s₂ : Session σ} {st : Stack} {out : List Char} (h₁ : s.Grows st out s₁)
    (h₂ : s.Grows st out s₂) : s₁.text = s₂.text ∧ s₁.tracker = s₂.tracker :=
  ⟨h₁.text.trans h₂.text.symm, h₁.tracker.trans h₂.tracker.symm⟩

end Session

namespace Write

variable {s s₁ : Session σ} {st outer : Stack} {sep : Separator} {f : Frame}

theorem ends_chunk (t : String) (h : s.stack = f :: outer) (hf : f.kind = .string) :
    Ends (chunk (.text t)) s none s.stack (Text.escape t).toList := by
  have hmove : s.stack.chunk = .ok ((), s.stack) := by
    simp only [h, Stack.chunk, hf, if_true]
  rw [chunk_text]
  exact ends_place (fun _ => Text.escape t) hmove

/-- In an open string the pieces of a text are written as the whole text would be. -/
theorem ends_chunks (texts : List String) (h : s.stack = f :: outer) (hf : f.kind = .string) :
    Ends (texts.forM fun t => chunk (.text t)) s none s.stack
      (Text.escape (String.join texts)).toList := by
  induction texts generalizing s with
  | nil => exact ends_pure s
  | cons t texts ih =>
      rw [String.join_cons, Text.escape_append, String.toList_append]
      apply (ends_chunk t h hf).bind_of_level rfl
      intro s₁ hgrows
      rw [← hgrows.stack]
      exact ih (hgrows.stack.trans h)

/-- Where a string is opened, a text in pieces is written as the whole text is. -/
theorem pieces_of_start (texts : List String) (h : start .string s = .ok () s₁) :
    ∃ (st : Stack) (out : List Char) (s₂ s₃ : Session σ),
      enclosed .string (texts.forM fun t => chunk (.text t)) s = .ok () s₂ ∧
      string (.text (String.join texts)) s = .ok () s₃ ∧ s.Grows st out s₂ ∧ s.Grows st out s₃ := by
  obtain ⟨sep, st, hvalue, -, hroom⟩ := room_of_start h
  have hpieces : Ends (enclosed .string (texts.forM fun t => chunk (.text t))) s _ st _ :=
    ends_enclosed hvalue fun s₁ hgrows => by
      have hchunks := ends_chunks texts hgrows.stack rfl
      rwa [hgrows.stack] at hchunks
  have hwhole : Ends (string (.text (String.join texts))) s none st _ :=
    ends_valueText (Text.quote (String.join texts)) hvalue
  rw [hroom] at hpieces
  obtain ⟨s₂, hrun₂, hgrows₂⟩ := hpieces
  obtain ⟨s₃, hrun₃, hgrows₃⟩ := hwhole
  refine ⟨st, _, s₂, s₃, hrun₂, hrun₃, hgrows₂, ?_⟩
  simpa [Json.toList_quote, FrameKind.opener, FrameKind.closer] using hgrows₃

theorem start_refused_iff {t : String} (h : string (.text t) s = .ok () s₁) (kind : FrameKind) :
    (∃ fault s₂, start kind s = .error fault s₂) ↔
      ∃ n, s.tracker.limit = some n ∧ n ≤ s.level := by
  have hemit : emit false (.text t) s = .ok () s₁ := h
  obtain ⟨sep, st, hvalue, -, -⟩ := grows_of_emit hemit
  cases hroom : Value.tooDeep? s.tracker.limit s.level with
  | some fault =>
      obtain ⟨n, hlimit, hle, -, hpush⟩ := push_of_tooDeep? s.stack hroom kind
      exact iff_of_true ⟨_, _, (start_eq kind s).trans (place_error hpush)⟩ ⟨n, hlimit, hle⟩
  | none =>
      obtain ⟨hpush, hlt⟩ := push_of_room s.stack hroom hvalue kind
      obtain ⟨s₂, hplace, -⟩ := place_ok (fun sep : Separator => sep.text ++ kind.opener) hpush
      have hstart := (start_eq kind s).trans hplace
      apply iff_of_false
      · rintro ⟨fault, s₃, herror⟩
        rw [hstart] at herror
        cases herror
      · rintro ⟨n, hlimit, hle⟩
        exact absurd hle (not_le.2 (hlt n hlimit))

end Write

/-- Wherever a run stands, a string in pieces is a string: if it can be opened, then opening it,
any pieces of a text and closing it all succeed, and leave what the whole text would leave as one
value. It cannot be opened where a text could be written just if the limit is reached there. A text
is escaped as its parts are. -/
theorem Session.pieces_eq_string (settings : Settings) (sink : σ) (script : List Step) :
    let s := (Session.start settings sink).runAll script
    (∀ (texts : List String) (s₁ : Session σ), (Call.start .string).run s = .ok () s₁ →
      ∃ s₂ s₃, Step.runAll (Step.enclosing .string (texts.map Step.piece)) s = .ok () s₂ ∧
        (Call.string (.text (String.join texts))).run s = .ok () s₃ ∧
        s₂.text = s₃.text ∧ s₂.tracker = s₃.tracker) ∧
    (∀ (t : String) (s₁ : Session σ), (Call.string (.text t)).run s = .ok () s₁ →
      ((∃ fault s₂, (Call.start .string).run s = .error fault s₂) ↔
        ∃ n, settings.maxNesting = some n ∧ n ≤ s.level)) ∧
    ∀ t u : String, Text.escape (t ++ u) = Text.escape t ++ Text.escape u := by
  intro s
  have hlimit : s.tracker.limit = settings.maxNesting.map Int.ofNat :=
    ((Session.sound_start settings sink).runAll script).limit_eq
  refine ⟨?_, ?_, Text.escape_append⟩
  · intro texts s₁ hstart
    obtain ⟨st, out, s₂, s₃, hpieces, hwhole, hgrows₂, hgrows₃⟩ :=
      Write.pieces_of_start texts hstart
    rw [Step.runAll_enclosing, Step.runAll_pieces]
    exact ⟨s₂, s₃, hpieces, hwhole, hgrows₂.congr hgrows₃⟩
  · intro t s₁ hstring
    apply (Write.start_refused_iff hstring .string).trans
    rw [hlimit]
    cases settings.maxNesting with
    | none => simp
    | some n => simp

end JsonWriter
