import JsonWriter.Proofs.Emission.Document
import JsonWriter.Proofs.Json.Harmless
import JsonWriter.Proofs.Session.Reached

/-! No call lets a dangerous character through to the destination, whatever it is given, whether or
not it fails, and wherever its text meets the text before it. -/
namespace JsonWriter

open Json Tracker Write

/-- Where a scan of the text stands inside a container: in an open string it stands in a literal. -/
def FrameKind.place : FrameKind → ScanPlace
  | .string => .literal
  | .array | .object => .outside

def Stack.place : Stack → ScanPlace
  | [] => .outside
  | f :: _ => f.kind.place

/-- The steps that write nothing unlooked at: no raw value, and nothing that is put into the
destination by others. -/
inductive Step.RawFree : Step → Prop
  | call {c} : c.isRaw = false → RawFree (.call c)
  | raise (text : String) : RawFree (.raise text)
  | block {body} (kind : BlockKind) : (∀ step ∈ body, RawFree step) →
      RawFree (.block kind body)

namespace Stack

variable {limit : Option Int} {f : Frame} {st st' : Stack} {sep : Separator}

theorem place_eq_outside (h : st.kinds.head? ≠ some .string) : st.place = .outside := by
  cases st with
  | nil => rfl
  | cons f outer =>
      obtain ⟨kind, hasMember, awaitingValue⟩ := f
      cases kind with
      | array | object => rfl
      | string => exact absurd rfl h

theorem place_of_value (h : st.value = .ok (sep, st')) :
    st.place = .outside ∧ st'.place = .outside := by
  obtain ⟨hkinds, hstring⟩ := kinds_of_value h
  refine ⟨place_eq_outside hstring, place_eq_outside ?_⟩
  rwa [hkinds]

theorem place_of_key (h : st.key = .ok (sep, st')) : st.place = .outside ∧ st'.place = .outside := by
  cases st with
  | nil => cases h
  | cons f outer =>
      obtain ⟨hkind, rfl⟩ := key_marks h
      refine ⟨?_, rfl⟩
      rw [place, hkind]
      rfl

theorem place_of_chunk (h : st.chunk = .ok ((), st')) : st.place = .literal := by
  cases st with
  | nil => cases h
  | cons f outer =>
      simp only [chunk] at h
      split at h
      · rename_i hkind
        rw [place, hkind]
        rfl
      · cases h

theorem Sound.place_tail (h : Sound limit (f :: st)) : place st = .outside := by
  apply place_eq_outside
  cases st with
  | nil => exact nofun
  | cons g outer =>
      obtain ⟨hkind, -⟩ := h.outer g List.mem_cons_self
      exact fun hstring => hkind (Option.some.inj hstring)

end Stack

namespace Json

theorem Passes.lead (a : Answer) : Passes .outside a.lead.toList .outside := by
  apply Passes.of_structural
  cases a with
  | separator sep => cases sep <;> simp [Answer.lead, Separator.text, structural]
  | nothing | frame f => simp [Answer.lead]

theorem Passes.opener (kind : FrameKind) : Passes .outside kind.opener.toList kind.place := by
  cases kind with
  | array | object => exact .mark (by decide) (.nil _)
  | string => exact .opening (.nil _)

theorem Passes.closer (kind : FrameKind) : Passes kind.place kind.closer.toList .outside := by
  cases kind with
  | array | object => exact .mark (by decide) (.nil _)
  | string => exact .closing (.nil _)

end Json

variable {σ : Type} {s s' : Session σ} {limit : Option Int}

/-- The token of a value is harmless, unless it was given as a text. -/
theorem Call.passes_of_value {c : Call} {text : String} (h : c.move? = some .value)
    (hraw : c.isRaw = false) (htoken : c.token s = .ok text) :
    Passes .outside text.toList .outside := by
  cases c with
  | raw v => cases hraw
  | null =>
      cases htoken
      exact .of_structural (by simp [structural])
  | bool v =>
      cases htoken
      apply Passes.of_structural
      unfold Scalar.bool
      cases v.isTrue <;> simp [structural]
  | integer v =>
      obtain ⟨n, -, htext⟩ := Scalar.integer_eq_ok htoken
      rw [htext]
      exact .of_structural (structural_ofInt n)
  | float v precision =>
      obtain ⟨x, -, n, -, rfl⟩ := Scalar.float_eq_ok htoken
      exact .of_structural (structural_toJson n x)
  | string v =>
      obtain ⟨t, -, rfl⟩ := Scalar.quote_eq_ok htoken
      exact .quote t
  | start kind | chunk v | finish | key v => cases h
  | keyIfPresent k v | strings skipNull items | stringPairs v | emit sortKeys v => cases h

theorem Call.passes_of_key {c : Call} {text : String} (h : c.move? = some .key)
    (htoken : c.token s = .ok text) : Passes .outside text.toList .outside := by
  cases c with
  | key v =>
      cases v with
      | text k =>
          cases htoken
          rw [String.toList_append]
          exact (Passes.quote k).append (.mark (by decide) (.nil _))
      | _ => cases htoken
  | raw v => cases v <;> cases h
  | _ => cases h

theorem Call.passes_of_chunk {c : Call} {text : String} (h : c.move? = some .chunk)
    (htoken : c.token s = .ok text) : Passes .literal text.toList .literal := by
  cases c with
  | chunk v =>
      obtain ⟨t, -, rfl⟩ := Scalar.escape_eq_ok htoken
      exact .escape t
  | raw v => cases v <;> cases h
  | _ => cases h

theorem Call.passes_of_push {c : Call} {kind : FrameKind} {text : String}
    (h : c.move? = some (.push kind)) (htoken : c.token s = .ok text) :
    Passes .outside text.toList kind.place := by
  cases c with
  | start kind' =>
      cases h
      cases htoken
      exact .opener kind
  | raw v => cases v <;> cases h
  | _ => cases h

theorem Call.passes_of_pop {c : Call} {f : Frame} {st : Stack} {text : String}
    (h : c.move? = some .pop) (hstack : s.stack = f :: st) (htoken : c.token s = .ok text) :
    Passes f.kind.place text.toList .outside := by
  have htop : s.tracker.top? = some f := congrArg List.head? hstack
  cases c with
  | finish =>
      rw [Call.token, htop] at htoken
      cases htoken
      exact .closer f.kind
  | raw v => cases v <;> cases h
  | _ => cases h

variable [Sink σ]

/-- What a call of a single token appends goes on where the text stands, and leads where the text
then stands. -/
theorem Write.Appends.passes {c : Call} {m : Move} (hsound : s.stack.Sound limit)
    (h : c.move? = some m) (hraw : c.isRaw = false) (happends : Appends s m (c.token s) s') :
    ∃ out, s'.text = s.text ++ out ∧ Passes s.stack.place out s'.stack.place := by
  obtain ⟨text, a, t', htoken, hmove, rfl⟩ := happends
  obtain ⟨st, hact, rfl⟩ := Move.run_eq_ok hmove
  have hfree := (Move.act_eq_ok_iff.1 hact).1
  refine ⟨(a.lead ++ text).toList, ?_, ?_⟩
  · change (Sink.text (Sink.append s.sink (a.lead ++ text))).toList = _
    rw [Sink.text_append, String.toList_append]
    rfl
  · change Passes s.tracker.stack.place _ st.place
    rw [String.toList_append]
    cases m with
    | value =>
        obtain ⟨⟨sep, st⟩, hvalue, ⟨⟩⟩ := map_eq_ok hfree
        obtain ⟨hbefore, hafter⟩ := Stack.place_of_value hvalue
        rw [hbefore, hafter]
        exact (Passes.lead _).append (Call.passes_of_value h hraw htoken)
    | key =>
        obtain ⟨⟨sep, st⟩, hkey, ⟨⟩⟩ := map_eq_ok hfree
        obtain ⟨hbefore, hafter⟩ := Stack.place_of_key hkey
        rw [hbefore, hafter]
        exact (Passes.lead _).append (Call.passes_of_key h htoken)
    | chunk =>
        obtain ⟨⟨_, st⟩, hchunk, ⟨⟩⟩ := map_eq_ok hfree
        have hplace := Stack.place_of_chunk hchunk
        rw [Stack.eq_of_chunk hchunk, hplace]
        exact Call.passes_of_chunk h htoken
    | push kind =>
        obtain ⟨⟨sep, st⟩, hpush, ⟨⟩⟩ := map_eq_ok hfree
        obtain ⟨⟨sep, st⟩, hvalue, ⟨⟩⟩ := map_eq_ok hpush
        obtain ⟨hbefore, -⟩ := Stack.place_of_value hvalue
        rw [hbefore]
        exact (Passes.lead _).append (Call.passes_of_push h htoken)
    | pop =>
        obtain ⟨⟨f, st⟩, hpop, ⟨⟩⟩ := map_eq_ok hfree
        have hstack : s.tracker.stack = f :: st := hsound.pop hpop
        have htail : Stack.place st = .outside := by
          apply Stack.Sound.place_tail
          rw [← hstack]
          exact hsound
        rw [hstack, htail]
        exact Call.passes_of_pop h hstack htoken

/-- What a session wrote so far is harmless up to the place where the next text goes on. -/
structure Session.Clean (limit : Option Int) (base : List Char) (s : Session σ) : Prop where
  sound : s.Sound limit
  passes : ∃ out, s.text = base ++ out ∧ Passes .outside out s.stack.place

variable {base : List Char}

theorem keptByTokens_clean :
    KeptByTokens (Session.Clean limit base : Session σ → Prop) := by
  intro c m h hraw
  apply preserves_token h
  · intro s s' hclean huntouched
    refine ⟨hclean.sound.untouched huntouched, ?_⟩
    unfold Session.text
    rw [huntouched.stack, huntouched.sink]
    exact hclean.passes
  · intro s s' hclean happends
    obtain ⟨before, htext, hbefore⟩ := hclean.passes
    obtain ⟨out, htext', hout⟩ := happends.passes hclean.sound.stack h hraw
    obtain ⟨text, a, t', -, hmove, rfl⟩ := happends
    refine ⟨hclean.sound.move hmove, before ++ out, ?_, hbefore.append hout⟩
    rw [htext', htext, List.append_assoc]

theorem Step.RawFree.preserves {step : Step} (h : step.RawFree) :
    Preserves (Session.Clean limit base) (step.run : Write σ Unit) := by
  induction h with
  | call hraw => exact keptByTokens_clean.call hraw
  | raise text => exact .throw (.raised text)
  | block kind _ ih =>
      rw [Step.run]
      exact keptByTokens_clean.enclosed kind.frameKind (.steps ih)

theorem Session.clean_start (settings : Settings) (sink : σ) :
    (Session.start settings sink).Clean settings.limit (Sink.text sink).toList where
  sound := Session.sound_start settings sink
  passes := ⟨[], (List.append_nil _).symm, .nil _⟩

theorem Session.Clean.harmless (h : s.Clean limit base) :
    ∃ out, s.text = base ++ out ∧ ∀ t, t <+: out → Harmless t ∧ ¬['<', '/'] <:+: t := by
  obtain ⟨out, htext, hpasses⟩ := h.passes
  refine ⟨out, htext, ?_⟩
  intro t ht
  have hharmless := hpasses.harmless.of_prefix ht
  exact ⟨hharmless, hharmless.no_closing_tag⟩

theorem Request.emitted_of_render {v source : Value} {sortKeys : Bool} {w w' : Workspace}
    {text : String} (h : render v source sortKeys w = .ok text w') :
    ∃ (c : Settings) (s : Session TextBuffer),
      Write.emit sortKeys v (Session.start c {}) = .ok () s ∧ s.text = text.toList := by
  obtain ⟨c, w₁, -, h⟩ := bind_eq_ok h
  obtain ⟨s, w₂, hsession, h⟩ := bind_eq_ok h
  refine ⟨c, s, ?_, ?_⟩
  · unfold session at hsession
    cases hrun : Write.emit sortKeys v (Session.start c ({} : TextBuffer)) with
    | ok _ s₁ =>
        rw [hrun] at hsession
        cases hsession
        rfl
    | error fault s₁ =>
        rw [hrun] at hsession
        cases hsession
  · dsimp only at h
    split at h
    · cases h
    · cases h
      rfl

/-- No dangerous character ever reaches the destination. Whatever steps are run that write no raw
value, whatever they are given and however many of them fail, the text that they append is harmless
at every moment: no control stands in it, each slash has a backslash before it, so that no closing
tag appears, and outside of string literals there are no spaces and no other characters than JSON
needs. The same is true of every text of a whole value. -/
theorem Session.harmless_runAll :
    (∀ (σ : Type) [Sink σ] (settings : Settings) (sink : σ) (script : List Step),
      (∀ step ∈ script, step.RawFree) →
      ∃ out, ((Session.start settings sink).runAll script).text = (Sink.text sink).toList ++ out ∧
        ∀ t, t <+: out → Harmless t ∧ ¬['<', '/'] <:+: t) ∧
    ∀ (v source : Value) (sortKeys : Bool) (w w' : Workspace) (text : String),
      Request.render v source sortKeys w = .ok text w' →
      Harmless text.toList ∧ ¬['<', '/'] <:+: text.toList := by
  refine ⟨?_, ?_⟩
  · intro σ _ settings sink script hscript
    have hkept : ∀ step ∈ script, Preserves (Session.Clean settings.limit (Sink.text sink).toList)
        (step.run : Write σ Unit) := fun step hstep => (hscript step hstep).preserves
    exact (Session.preserved hkept (Session.clean_start settings sink)).harmless
  · intro v source sortKeys w w' text hrender
    obtain ⟨c, s, hemit, htext⟩ := Request.emitted_of_render hrender
    have hkept := keptByTokens_clean.emit sortKeys v _ (Session.clean_start c ({} : TextBuffer))
    unfold Leads at hkept
    rw [hemit] at hkept
    obtain ⟨out, hout, hharmless⟩ := Session.Clean.harmless hkept
    rw [← htext, hout]
    exact hharmless out List.prefix_rfl

/-- A closing tag does not come about where two pieces meet, nor by a value that was refused between
them. -/
theorem Session.harmless_runAll_pieces :
    let script : List Step := [.call (.start .array), .call (.start .string),
      .call (.chunk (.text "<")), .call .null, .call (.chunk (.text "/b>")), .call .finish]
    let s := (Session.start .default ({} : TextBuffer)).runAll script
    s.text = ['[', '"', '<', '\\', '/', 'b', '>', '"'] ∧ Harmless s.text := by
  intro script s
  have hraw : ∀ step ∈ script, step.RawFree := by
    intro step hstep
    simp only [script, List.mem_cons, List.not_mem_nil, or_false] at hstep
    rcases hstep with rfl | rfl | rfl | rfl | rfl | rfl
    all_goals exact .call rfl
  obtain ⟨out, htext, hharmless⟩ :=
    harmless_runAll.1 TextBuffer .default ({} : TextBuffer) script hraw
  have hout : s.text = out := htext
  refine ⟨by decide, ?_⟩
  rw [hout]
  exact (hharmless out List.prefix_rfl).1

end JsonWriter
