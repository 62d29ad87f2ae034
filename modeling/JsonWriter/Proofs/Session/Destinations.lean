import JsonWriter.Proofs.Session.Related
import Mathlib

/-! Destinations: what a buffer in memory shows after any uses of it, and what two destinations get
from one script. A session never looks at what it wrote, so it does the same on both. -/
namespace JsonWriter

namespace TextBuffer

variable {b : TextBuffer} {text : String}

/-- A buffer shows a text: to read it answers the text either way, and its length is that of the
text. -/
structure Shows (b : TextBuffer) (text : String) : Prop where
  contents : (b.use .contents).1 = .text text
  display : (b.use .display).1 = .text text
  length : (b.use .length).1 = .length text.length

theorem foldl_length (texts : List String) (n : Nat) :
    texts.foldl (fun n text => n + text.length) n = n + (String.join texts).length := by
  induction texts generalizing n with
  | nil => rfl
  | cons text texts ih =>
      rw [List.foldl_cons, ih, String.join_cons, String.length_append, Nat.add_assoc]

theorem length_eq (b : TextBuffer) : b.length = b.contents.length := by
  unfold length contents
  rw [← Array.foldl_toList, foldl_length, Nat.zero_add]

theorem shows_iff : b.Shows text ↔ b.contents = text := by
  constructor
  · intro h
    exact Answer.text.inj h.contents
  · rintro rfl
    exact ⟨rfl, rfl, congrArg Answer.length b.length_eq⟩

def Use.text? : Use → Option String
  | append text => some text
  | _ => none

/-- Only appends and resets change what a buffer holds. -/
theorem contents_use (b : TextBuffer) {u : Use} (h : u ≠ .reset) :
    (b.use u).2.contents = b.contents ++ String.join u.text?.toList := by
  cases u with
  | append text => simp [use, Use.text?, contents_append]
  | contents | display => simp [use, Use.text?, contents_read]
  | length => simp [use, Use.text?]
  | reset => exact absurd rfl h

/-- Until it is reset, a buffer keeps what it holds and gets what is appended, in order. -/
theorem contents_useAll (b : TextBuffer) {uses : List Use} (h : .reset ∉ uses) :
    (b.useAll uses).contents = b.contents ++ String.join (uses.filterMap Use.text?) := by
  induction uses generalizing b with
  | nil => exact (String.append_empty).symm
  | cons u uses ih =>
      obtain ⟨hu, huses⟩ := not_or.1 (mt List.mem_cons.2 h)
      have hrest : (b.useAll (u :: uses)).contents =
          (b.use u).2.contents ++ String.join (uses.filterMap Use.text?) := ih (b.use u).2 huses
      rw [hrest, contents_use b (Ne.symm hu), String.append_assoc, List.filterMap_cons]
      cases u.text? with
      | none => simp
      | some text => simp

/-- Nothing from before a reset is left after it. -/
theorem contents_useAll_reset (b : TextBuffer) (before : List Use) {after : List Use}
    (h : .reset ∉ after) :
    (b.useAll (before ++ .reset :: after)).contents = String.join (after.filterMap Use.text?) := by
  have hrun : b.useAll (before ++ .reset :: after) = useAll {} after := by
    unfold useAll
    rw [List.foldl_append, List.foldl_cons]
    rfl
  rw [hrun, contents_useAll {} h]
  exact String.empty_append

end TextBuffer

/-- A stream into which a text was written piece by piece, no piece of it empty. -/
structure Stream.Spells (stream : Stream) (b : TextBuffer) : Prop where
  nonempty : ∀ w ∈ stream.writes, w ≠ ""
  contents : stream.contents = b.contents

variable {σ τ α : Type}

/-- Sessions that differ in their destinations alone. -/
structure Session.Alike (R : σ → τ → Prop) (s : Session σ) (t : Session τ) : Prop where
  settings : s.settings = t.settings
  tracker : s.tracker = t.tracker
  sink : R s.sink t.sink

theorem Session.alike_start {R : σ → τ → Prop} (settings : Settings) {a : σ} {b : τ} (h : R a b) :
    (Session.start settings a).Alike R (Session.start settings b) := ⟨rfl, rfl, h⟩

/-- What is appended to two destinations keeps them related. -/
def KeptByAppends [Sink σ] [Sink τ] (R : σ → τ → Prop) : Prop :=
  ∀ a b text, R a b → R (Sink.append a text) (Sink.append b text)

theorem Stream.keptByAppends_spells : KeptByAppends Stream.Spells := by
  intro stream b text h
  refine ⟨?_, ?_⟩
  · change ∀ w ∈ (stream.append text).writes, w ≠ ""
    unfold Stream.append
    split
    · exact h.nonempty
    · rename_i htext
      intro w hw
      rcases Array.mem_push.1 hw with hw | rfl
      · exact h.nonempty w hw
      · exact mt String.isEmpty_iff.2 htext
  · exact (stream.contents_append text).trans ((congrArg (· ++ text) h.contents).trans
      (b.contents_append text).symm)

namespace Write

variable {R : σ → τ → Prop}

/-- Where the tracker decides, the destination does not. -/
theorem related_track (step : EStateM Violation Tracker α) :
    Related (Session.Alike R) (track step) (track step) := by
  intro s t h
  unfold track
  rw [h.tracker]
  cases step t.tracker with
  | ok a tracker => exact .ok a ⟨h.settings, rfl, h.sink⟩
  | error cause tracker => exact .error _ ⟨h.settings, rfl, h.sink⟩

variable [Sink σ] [Sink τ]

section Calls

variable (hR : KeptByAppends R)
include hR

theorem related_append (text : String) :
    Related (Session.Alike R) (append text) (append text) :=
  fun _ _ h => .ok () ⟨h.settings, h.tracker, hR _ _ text h.sink⟩

theorem related_valueText (text : String) :
    Related (Session.Alike R) (valueText text) (valueText text) :=
  (related_track _).bind fun _ => related_append hR _

theorem related_float (v precision : Value) :
    Related (Session.Alike R) (float v precision) (float v precision) := by
  intro s t h
  change SameResult _
    ((check (Scalar.float v (precision.orElse (.int s.settings.floatPrecision))) >>= valueText) s) _
  rw [h.settings]
  exact (Related.check _).bind (related_valueText hR) s t h

/-- A raw value that is no text takes its place all the same. -/
theorem related_raw (v : Value) : Related (Session.Alike R) (raw v) (raw v) := by
  refine (related_track _).bind fun separator => ?_
  cases v with
  | text t => exact related_append hR _
  | _ => exact .throw _

theorem relatedByTokens_alike : RelatedByTokens (Session.Alike R) := by
  intro c m hmove hraw
  cases c with
  | raw v => cases hraw
  | null => exact related_valueText hR _
  | bool v => exact related_valueText hR _
  | integer v => exact (Related.check _).bind (related_valueText hR)
  | float v precision => exact related_float hR v precision
  | string v => exact (Related.check _).bind (related_valueText hR)
  | start kind => exact (related_track _).bind fun _ => related_append hR _
  | chunk v =>
      exact (related_track _).bind fun _ => (Related.check _).bind (related_append hR)
  | finish => exact (related_track _).bind fun _ => related_append hR _
  | key v =>
      exact (Related.check _).bind fun _ => (related_track _).bind fun _ => related_append hR _
  | keyIfPresent _ _ | strings _ _ | stringPairs _ | emit _ _ => cases hmove

theorem keepRelated_alike : Call.KeepRelated (Session.Alike R) where
  call := (relatedByTokens_alike hR).anyCall (related_raw hR)
  append := related_append hR

end Calls
end Write

/-- Destinations keep every text once and in order. Whatever else was done with a buffer, it shows
what was appended to it since it was last reset. A script with a stream for its destination writes
no empty text to it, and the writes together are the text that the same script leaves in a buffer;
every step of it, also in a block and after a failure, ends alike with both. -/
theorem destinations_keep_text :
    (∀ (b : TextBuffer) (uses : List TextBuffer.Use),
      (.reset ∉ uses →
        (b.useAll uses).Shows
          (b.contents ++ String.join (uses.filterMap TextBuffer.Use.text?))) ∧
      ∀ before after, uses = before ++ .reset :: after → .reset ∉ after →
        (b.useAll uses).Shows (String.join (after.filterMap TextBuffer.Use.text?))) ∧
    ∀ (settings : Settings) (stream : Stream) (b : TextBuffer) (script : List Step),
      stream.Spells b →
      List.Forall₂ (Trace.Related (Session.Alike Stream.Spells))
        ((Session.start settings stream).traceAll script)
        ((Session.start settings b).traceAll script) ∧
      let s := (Session.start settings stream).runAll script
      let t := (Session.start settings b).runAll script
      (∀ w ∈ s.sink.writes, w ≠ "") ∧ t.sink.Shows (String.join s.sink.writes.toList) ∧
        s.level = t.level ∧ s.stack = t.stack ∧ s.log = t.log := by
  refine ⟨?_, ?_⟩
  · intro b uses
    constructor
    · intro huses
      exact TextBuffer.shows_iff.2 (b.contents_useAll huses)
    · rintro before after rfl hafter
      exact TextBuffer.shows_iff.2 (b.contents_useAll_reset before hafter)
  · intro settings stream b script hspells
    have hkept := Write.keepRelated_alike Stream.keptByAppends_spells
    have hstart := Session.alike_start settings hspells
    have hend := Session.related_runAll hkept hstart script
    refine ⟨Session.related_traceAll hkept hstart script, hend.sink.nonempty,
      TextBuffer.shows_iff.2 hend.sink.contents.symm, ?_, ?_, ?_⟩
    · exact congrArg Tracker.level hend.tracker
    · exact congrArg Tracker.stack hend.tracker
    · exact congrArg Tracker.log hend.tracker

/-- A key where a value must be, a text put in by the caller, and a block that ends early. -/
theorem destinations_keep_text_after_failures :
    (({} : TextBuffer).useAll [.append "ab", .contents, .append "", .append "c"]).Shows "abc" ∧
    (({} : TextBuffer).useAll [.append "ab", .length, .reset, .append "c"]).Shows "c" ∧
    let script : List Step := [.call (.start .array), .call (.key (.text "k")), .append " ",
      .append "", .call .null, .block .object [.raise "stop"]]
    let s := (Session.start .default ({} : Stream)).runAll script
    let t := (Session.start .default ({} : TextBuffer)).runAll script
    List.Forall₂ (Trace.Related (Session.Alike Stream.Spells))
      ((Session.start .default {}).traceAll script) ((Session.start .default {}).traceAll script) ∧
    s.sink.writes = #["[", " ", "null", ",\x7b"] ∧ t.sink.Shows "[ null,\x7b" ∧ t.level = 2 := by
  obtain ⟨hbuffer, hscript⟩ := destinations_keep_text
  have hspells : ({} : Stream).Spells {} := ⟨nofun, rfl⟩
  refine ⟨(hbuffer {} _).1 (by simp), (hbuffer {} _).2 [.append "ab", .length] _ rfl (by simp), ?_⟩
  intro script s t
  obtain ⟨htraces, -, hshows, -⟩ := hscript .default {} {} script hspells
  have hwrites : s.sink.writes = #["[", " ", "null", ",\x7b"] := by decide
  rw [hwrites] at hshows
  exact ⟨htraces, hwrites, hshows, by decide⟩

end JsonWriter
