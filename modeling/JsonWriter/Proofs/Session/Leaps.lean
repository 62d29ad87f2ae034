import JsonWriter.Proofs.Emission.Steps
import JsonWriter.Proofs.Session.Drafts

/-! Which tokens a step writes, also when it fails on the way. -/
namespace JsonWriter

open Json

def Token.levelAfter (level : Nat) : Token → Nat
  | start _ => level + 1
  | finish => level - 1
  | value _ | chunk _ | key _ => level

theorem Adds.length {spaced : Bool} {tok : Token} {st st' : Stack} {out : List Char}
    (h : Adds spaced tok st st' out) : st'.length = tok.levelAfter st.length := by
  cases h with
  | value h _ => exact Stack.length_of_value h
  | start kind h => exact congrArg (· + 1) (Stack.length_of_value h)
  | chunk s h => exact congrArg List.length (Stack.eq_of_chunk h)
  | finish h => exact Stack.length_of_pop h
  | key k h => exact Stack.length_of_key h

theorem Adds.one_le_of_key {spaced : Bool} {k : String} {st st' : Stack} {out : List Char}
    (h : Adds spaced (.key k) st st' out) : 1 ≤ st.level := by
  cases h with
  | key k hkey =>
      cases st with
      | nil => cases hkey
      | cons f outer => exact Nat.le_add_left 1 _

variable {σ : Type} [Sink σ]

namespace Session

/-- From one session to a later one tokens were written. -/
def Walk (spaced : Bool) (floor : Nat) (toks : List Token) (s s' : Session σ) : Prop :=
  s'.settings = s.settings ∧
    ∃ out, s'.text = s.text ++ out ∧ Writes spaced floor toks s.stack s'.stack out

/-- Nothing was written, or a first token and then others no lower than the floor. -/
inductive Leap (spaced : Bool) (floor : Nat) : List Token → Session σ → Session σ → Prop
  | still {s s'} : Walk spaced 0 [] s s' → Leap spaced floor [] s s'
  | first {tok toks s s₁ s'} : Walk spaced 0 [tok] s s₁ → Walk spaced floor toks s₁ s' →
      Leap spaced floor (tok :: toks) s s'

variable {spaced : Bool} {floor floor' : Nat} {toks toks' : List Token} {tok : Token}
  {s s₁ s' : Session σ}

theorem Walk.refl (s : Session σ) : Walk spaced floor [] s s :=
  ⟨rfl, [], (List.append_nil _).symm, .nil _⟩

theorem Walk.refused (s : Session σ) (cause : Violation) :
    Walk spaced floor [] s (s.refused cause) :=
  ⟨rfl, [], (List.append_nil _).symm, .nil _⟩

theorem Walk.trans (h : Walk spaced floor toks s s₁) (h' : Walk spaced floor toks' s₁ s') :
    Walk spaced floor (toks ++ toks') s s' := by
  obtain ⟨hsettings, out, htext, hwrites⟩ := h
  obtain ⟨hsettings', out', htext', hwrites'⟩ := h'
  refine ⟨hsettings'.trans hsettings, out ++ out', ?_, hwrites.append hwrites'⟩
  rw [htext', htext, List.append_assoc]

theorem Walk.mono (hle : floor' ≤ floor) (h : Walk spaced floor toks s s') :
    Walk spaced floor' toks s s' := by
  obtain ⟨hsettings, out, htext, hwrites⟩ := h
  exact ⟨hsettings, out, htext, hwrites.mono hle⟩

theorem Walk.adds (h : Walk spaced floor [tok] s s') :
    ∃ out, s'.text = s.text ++ out ∧ Adds spaced tok s.stack s'.stack out := by
  obtain ⟨-, out, htext, hwrites⟩ := h
  cases hwrites with
  | cons _ hadds hnil =>
      cases hnil with
      | nil =>
          rw [List.append_nil] at htext
          exact ⟨_, htext, hadds⟩

theorem Walk.raise (hle : floor ≤ s.level) (h : Walk spaced 0 [tok] s s') :
    Walk spaced floor [tok] s s' := by
  obtain ⟨out, htext, hadds⟩ := h.adds
  exact ⟨h.1, out, htext, .one hle hadds⟩

theorem Walk.still (h : Walk spaced floor [] s s') : s'.stack = s.stack ∧ s'.text = s.text := by
  obtain ⟨-, out, htext, hwrites⟩ := h
  generalize hst : s.stack = st at hwrites
  generalize hst' : s'.stack = st' at hwrites
  cases hwrites with
  | nil st =>
      rw [List.append_nil] at htext
      exact ⟨rfl, htext⟩

theorem Walk.one_level (h : Walk spaced floor [tok] s s') :
    s'.level = tok.levelAfter s.level := by
  obtain ⟨out, -, hadds⟩ := h.adds
  exact hadds.length

theorem Leap.one (h : Walk spaced 0 [tok] s s') : Leap spaced floor [tok] s s' :=
  .first h (.refl s')

theorem Leap.mono (hle : floor' ≤ floor) (h : Leap spaced floor toks s s') :
    Leap spaced floor' toks s s' := by
  cases h with
  | still h => exact .still h
  | first h h' => exact .first h (h'.mono hle)

theorem Leap.settings (h : Leap spaced floor toks s s') : s'.settings = s.settings := by
  cases h with
  | still h => exact h.1
  | first h h' => exact h'.1.trans h.1

theorem Leap.walk (hle : floor ≤ s.level) (h : Leap spaced floor toks s s') :
    Walk spaced floor toks s s' := by
  cases h with
  | still h =>
      obtain ⟨hstack, htext⟩ := h.still
      refine ⟨h.1, [], ?_, ?_⟩
      · rw [htext, List.append_nil]
      · rw [hstack]
        exact .nil _
  | first h h' => exact (h.raise hle).trans h'

end Session

namespace Write

open Session

variable {spaced : Bool} {α β : Type}

/-- Where a step leads: what holds of the session if it succeeds, and if it fails. -/
def Leads (w : Write σ α) (s : Session σ) (ok error : Session σ → Prop) : Prop :=
  match w s with
  | .ok _ s' => ok s'
  | .error _ s' => error s'

variable {s : Session σ} {ok ok' error error' : Session σ → Prop}

omit [Sink σ] in
theorem Leads.imp {w : Write σ α} (h : Leads w s ok error) (hok : ∀ s', ok s' → ok' s')
    (herror : ∀ s', error s' → error' s') : Leads w s ok' error' := by
  unfold Leads at h ⊢
  cases hw : w s with
  | ok a s' =>
      rw [hw] at h
      exact hok s' h
  | error fault s' =>
      rw [hw] at h
      exact herror s' h

omit [Sink σ] in
theorem Leads.bind {w : Write σ α} {w' : α → Write σ β} (h : Leads w s ok error)
    (h' : ∀ a s₁, ok s₁ → Leads (w' a) s₁ ok' error') (herror : ∀ s', error s' → error' s') :
    Leads (w >>= w') s ok' error' := by
  unfold Leads at h ⊢
  cases hw : w s with
  | ok a s' =>
      rw [hw] at h
      rw [bind_ok hw]
      exact h' a s' h
  | error fault s' =>
      rw [hw] at h
      rw [bind_error hw]
      exact herror s' h

omit [Sink σ] in
theorem leads_check {x : Except Fault α} {w : α → Write σ β}
    (h : ∀ a, x = .ok a → Leads (w a) s ok error) (herror : error s) :
    Leads (check x >>= w) s ok error := by
  cases x with
  | ok a => exact h a rfl
  | error fault => exact herror

theorem leads_place {move : Stack → Except Violation (α × Stack)} {text : α → String}
    {tok : Token} (h : ∀ a st, move s.stack = .ok (a, st) →
      Adds spaced tok s.stack st (text a).toList) :
    Leads (place move text) s (Walk spaced 0 [tok] s) (Walk spaced 0 [] s) := by
  cases hmove : move s.stack with
  | error cause =>
      unfold Leads
      rw [place_error hmove]
      exact .refused s cause
  | ok r =>
      obtain ⟨a, st⟩ := r
      obtain ⟨s', hplace, hgrows⟩ := place_ok text hmove
      have hadds := h a st hmove
      rw [← hgrows.stack] at hadds
      unfold Leads
      rw [hplace]
      exact ⟨hgrows.settings, _, hgrows.text, .one (Nat.zero_le _) hadds⟩

theorem leads_track (spaced : Bool) {move : Stack → Except Violation (α × Stack)}
    (h : ∀ a st, move s.stack = .ok (a, st) → st = s.stack) :
    Leads (track (Tracker.make move)) s (Walk spaced 0 [] s) (Walk spaced 0 [] s) := by
  unfold Leads
  cases hmove : move s.stack with
  | error cause =>
      rw [track_error hmove]
      exact .refused s cause
  | ok r =>
      obtain ⟨a, st⟩ := r
      rw [track_ok hmove]
      refine ⟨rfl, [], (List.append_nil _).symm, ?_⟩
      change Writes spaced 0 [] s.stack st []
      rw [h a st hmove]
      exact .nil _

theorem leads_valueText (text : String) {v : Json} (s : Session σ)
    (h : Reads spaced text.toList v) :
    Leads (valueText text) s (Walk spaced 0 [.value v] s) (Walk spaced 0 [] s) := by
  rw [valueText_eq]
  refine leads_place ?_
  intro sep st hvalue
  rw [String.toList_append]
  exact .value hvalue h

theorem leads_start (spaced : Bool) (kind : FrameKind) (s : Session σ) :
    Leads (start kind) s (Walk spaced 0 [.start kind] s) (Walk spaced 0 [] s) := by
  have hplace : Leads (place (Stack.push s.tracker.limit kind)
      fun sep => sep.text ++ kind.opener) s
      (Walk spaced 0 [.start kind] s) (Walk spaced 0 [] s) := by
    refine leads_place ?_
    intro sep st hpush
    have hopened : Stack.push.opened kind s.stack = .ok (sep, st) := by
      unfold Stack.push at hpush
      split at hpush
      · split at hpush
        · cases hpush
        · exact hpush
      · exact hpush
    unfold Stack.push.opened at hopened
    cases hvalue : s.stack.value with
    | error cause =>
        rw [hvalue] at hopened
        cases hopened
    | ok r =>
        rw [hvalue] at hopened
        cases hopened
        rw [String.toList_append]
        exact .start kind hvalue
  unfold Leads at hplace ⊢
  rwa [start_eq]

theorem leads_finish (spaced : Bool) (s : Session σ) :
    Leads finish s (Walk spaced 0 [.finish] s) (Walk spaced 0 [] s) := by
  rw [finish_eq]
  refine leads_place ?_
  intro f st hpop
  exact .finish hpop

theorem leads_key (spaced : Bool) (k : String) (s : Session σ) :
    Leads (key (.text k)) s (Walk spaced 0 [.key k] s) (Walk spaced 0 [] s) := by
  rw [key_text]
  refine leads_place ?_
  intro sep st hkey
  rw [String.toList_append, String.toList_append, List.append_assoc]
  exact .key k hkey

theorem leads_chunk (spaced : Bool) (t : String) (s : Session σ) :
    Leads (chunk (.text t)) s (Walk spaced 0 [.chunk t] s) (Walk spaced 0 [] s) := by
  rw [chunk_text]
  refine leads_place ?_
  intro _ st hchunk
  exact .chunk t hchunk

/-- A step that closes what it opens, and goes no lower than where it began. -/
def Stays (spaced : Bool) (w : Write σ Unit) : Prop :=
  ∀ s, Leads w s (fun s' => (∃ toks, Walk spaced s.level toks s s') ∧ s'.level = s.level)
    (fun s' => ∃ toks, Walk spaced s.level toks s s')

/-- A step that writes one value, or not to its end. -/
def WritesOne (spaced : Bool) (w : Write σ Unit) : Prop :=
  ∀ s, Leads w s (fun s' => (∃ toks, Leap spaced (s.level + 1) toks s s') ∧ s'.level = s.level)
    (fun s' => ∃ toks, Leap spaced (s.level + 1) toks s s')

theorem WritesOne.stays {w : Write σ Unit} (h : WritesOne spaced w) : Stays spaced w := by
  intro s
  refine (h s).imp ?_ ?_
  · rintro s' ⟨⟨toks, hleap⟩, hlevel⟩
    exact ⟨⟨toks, (hleap.mono (Nat.le_succ _)).walk le_rfl⟩, hlevel⟩
  · rintro s' ⟨toks, hleap⟩
    exact ⟨toks, (hleap.mono (Nat.le_succ _)).walk le_rfl⟩

theorem stays_pure : Stays spaced (pure () : Write σ Unit) :=
  fun s => ⟨⟨[], .refl s⟩, rfl⟩

theorem Stays.bind {w w' : Write σ Unit} (h : Stays spaced w) (h' : Stays spaced w') :
    Stays spaced (w >>= fun _ => w') := by
  intro s
  refine (h s).bind ?_ fun _ herror => herror
  rintro _ s₁ ⟨⟨toks, hwalk⟩, hlevel⟩
  refine (h' s₁).imp ?_ ?_
  · rintro s' ⟨⟨toks', hwalk'⟩, hlevel'⟩
    rw [hlevel] at hwalk' hlevel'
    exact ⟨⟨toks ++ toks', hwalk.trans hwalk'⟩, hlevel'⟩
  · rintro s' ⟨toks', hwalk'⟩
    rw [hlevel] at hwalk'
    exact ⟨toks ++ toks', hwalk.trans hwalk'⟩

theorem stays_forM {w : α → Write σ Unit} (as : List α) (h : ∀ a ∈ as, Stays spaced (w a)) :
    Stays spaced (as.forM w) := by
  induction as with
  | nil => exact stays_pure
  | cons a as ih =>
      have hrest := ih fun b hb => h b (List.mem_cons_of_mem a hb)
      exact (h a List.mem_cons_self).bind hrest

theorem stays_key (k : String) : Stays spaced (key (.text k) : Write σ Unit) := by
  intro s
  refine (leads_key spaced k s).imp ?_ ?_
  · intro s' hwalk
    exact ⟨⟨_, hwalk.raise le_rfl⟩, hwalk.one_level⟩
  · intro s' hwalk
    exact ⟨[], (Leap.still hwalk).walk le_rfl⟩

theorem writesOne_throw (fault : Fault) : WritesOne spaced (throw fault : Write σ Unit) :=
  fun s => ⟨[], .still (.refl s)⟩

theorem writesOne_valueText {text : String} {v : Json} (h : Reads spaced text.toList v) :
    WritesOne spaced (valueText text : Write σ Unit) := by
  intro s
  refine (leads_valueText text s h).imp ?_ ?_
  · intro s' hwalk
    exact ⟨⟨_, .one hwalk⟩, hwalk.one_level⟩
  · intro s' hwalk
    exact ⟨[], .still hwalk⟩

theorem writesOne_check {x : Except Fault String}
    (h : ∀ t, x = .ok t → ∃ v, Reads spaced t.toList v) :
    WritesOne spaced (do valueText (← check x) : Write σ Unit) := by
  cases x with
  | error fault => exact writesOne_throw fault
  | ok t =>
      obtain ⟨v, hreads⟩ := h t rfl
      exact writesOne_valueText hreads

/-- A container around a body that closes what it opens. -/
theorem writesOne_enclosed (kind : FrameKind) {body : Write σ Unit} (h : Stays spaced body) :
    WritesOne spaced (enclosed kind body) := by
  intro s
  refine (leads_start spaced kind s).bind ?_ fun s' hwalk => ⟨[], .still hwalk⟩
  intro _ s₁ hstart
  have hlevel₁ : s₁.level = s.level + 1 := hstart.one_level
  refine (h s₁).bind ?_ ?_
  · rintro _ s₂ ⟨⟨toks, hbody⟩, hlevel₂⟩
    rw [hlevel₁] at hbody hlevel₂
    refine (leads_finish spaced s₂).imp ?_ ?_
    · intro s' hfinish
      have hlevel' : s'.level = s₂.level - 1 := hfinish.one_level
      refine ⟨⟨_, .first hstart (hbody.trans (hfinish.raise hlevel₂.ge))⟩, ?_⟩
      rw [hlevel', hlevel₂, Nat.add_sub_cancel]
    · intro s' hrefused
      have hstill := (Leap.still hrefused).walk hlevel₂.ge
      exact ⟨_, .first hstart (hbody.trans hstill)⟩
  · rintro s' ⟨toks, hbody⟩
    rw [hlevel₁] at hbody
    exact ⟨_, .first hstart hbody⟩

theorem writesOne_emit (spaced sortKeys : Bool) (v : Value) :
    WritesOne spaced (emit sortKeys v : Write σ Unit) := by
  have hmember : ∀ m : String × Value, WritesOne spaced (emit sortKeys m.2 : Write σ Unit) →
      Stays spaced (emitMember sortKeys m : Write σ Unit) :=
    fun m h => (stays_key m.1).bind h.stays
  induction v using Value.inductionOnParts sortKeys with
  | step v ih =>
      cases v with
      | null => exact writesOne_valueText (Denotes.nullWord.reads spaced)
      | bool b => exact writesOne_valueText ((Scalar.denotes_bool (.bool b)).reads spaced)
      | int n =>
          rw [emit_int]
          refine writesOne_check ?_
          intro t ht
          exact ⟨_, (Scalar.denotes_integer ht).reads spaced⟩
      | float x =>
          intro s
          have htext := denotes_toJson s.settings.floatPrecision x
          have hvalue := writesOne_valueText (htext.reads spaced) s
          unfold Leads at hvalue ⊢
          rwa [emit_float]
      | text t => exact writesOne_valueText ((denotes_quote t).reads spaced)
      | list items =>
          rw [emit_list]
          exact writesOne_enclosed .array (stays_forM items fun u hu => (ih u hu).stays)
      | tuple items =>
          rw [emit_tuple]
          exact writesOne_enclosed .array (stays_forM items fun u hu => (ih u hu).stays)
      | mapping entries =>
          cases hkey : nonTextKey? entries with
          | none =>
              rw [emit_mapping sortKeys hkey]
              refine writesOne_enclosed .object (stays_forM _ ?_)
              intro m hm
              exact hmember m (ih m.2 (List.mem_map_of_mem hm))
          | some kind =>
              rw [emit_mapping_of_key sortKeys hkey]
              exact writesOne_throw _
      | pairs p =>
          rw [emit_pairs]
          refine writesOne_enclosed .object (stays_forM _ ?_)
          intro m hm
          obtain ⟨e, he, rfl⟩ := List.mem_map.1 hm
          exact hmember _ (ih _ (List.mem_map_of_mem he))
      | set _ | bytes _ | unknown | path _ | settings _ => exact writesOne_throw _

end Write
end JsonWriter
