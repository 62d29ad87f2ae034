import JsonWriter.Proofs.Json.Brackets
import JsonWriter.Proofs.Session.Pieces

/-! The text of a run shows what is open: a scan for brackets finds the containers of the stack. -/
namespace JsonWriter

open Json

namespace Scan

def enter (opened : List FrameKind) : FrameKind → Scan
  | .string => ⟨opened, .literal⟩
  | kind => { opened := kind :: opened }

theorem kinds_enter (opened : List FrameKind) (kind : FrameKind) :
    (enter opened kind).kinds = kind :: opened := by
  cases kind <;> rfl

theorem run?_opener (opened : List FrameKind) (kind : FrameKind) :
    run? { opened } kind.opener.toList = some (enter opened kind) := by
  cases kind <;> rfl

theorem eq_of_kinds {s : Scan} (h : s.kinds.head? ≠ some .string) : s = { opened := s.kinds } := by
  obtain ⟨opened, place⟩ := s
  cases place with
  | outside => rfl
  | literal => exact absurd rfl h
  | escape => exact absurd rfl h

theorem kinds_eq_nil_iff {s : Scan} : s.kinds = [] ↔ s.opened = [] ∧ s.place = .outside := by
  obtain ⟨opened, place⟩ := s
  cases place <;> simp [kinds]

end Scan

theorem Separator.keeps (sep : Separator) : Keeps .outside sep.text.toList := by
  cases sep with
  | none => exact .nil _
  | comma => exact .plain (by decide) (.nil _)

/-- A scan of the text finds no closing bracket without its match, and these containers open. -/
def Shows (t : List Char) (st : Stack) : Prop :=
  ∃ s : Scan, Scan.run? {} t = some s ∧ s.kinds = st.kinds

variable {spaced : Bool} {toks : List Token} {st : Stack} {t u : List Char}

theorem Keeps.shows (h : Keeps .outside t) : Shows t [] := ⟨{}, h [], rfl⟩

theorem Shows.after (h : Shows t st) (hu : Keeps .outside u) : Shows (u ++ t) st := by
  obtain ⟨s, hscan, hkinds⟩ := h
  refine ⟨s, ?_, hkinds⟩
  rw [Scan.run?_append_of_eq (hu []), hscan]

/-- What is written in a container leaves the scan in it. -/
theorem Content.run? {f : Frame} {body : List Token} (h : Content f body t)
    (opened : List FrameKind) :
    Scan.run? (.enter opened f.kind) t = some (.enter opened f.kind) := by
  cases h with
  | array _ hrow => exact hrow.keeps _
  | object _ hrow => exact hrow.keeps _
  | pending k _ hrow =>
      have hkey : Keeps .outside ((Text.quote k).toList ++ [':']) := by
        rw [toList_quote, List.cons_append, List.append_assoc]
        exact (chars_escape k).keeps.literal (.plain (by decide) (.nil _))
      exact hrow.keeps.append ((comma_keeps _).append hkey) _
  | string chunks => exact (chars_flatMap_escapeChar (String.join chunks).toList).keeps _

theorem Draft.shows (h : Draft toks st t) : Shows t st := by
  induction h with
  | top => exact (Keeps.nil _).shows
  | @inside _ st t sep st' f _ u _ hvalue hcontent ih =>
      obtain ⟨s, hscan, hkinds⟩ := ih
      obtain ⟨hsame, hstring⟩ := Stack.kinds_of_value hvalue
      rw [← hkinds] at hsame hstring
      rw [Scan.eq_of_kinds hstring] at hscan
      refine ⟨.enter s.kinds f.kind, ?_, ?_⟩
      · rw [Scan.run?_append_of_eq hscan, Scan.run?_append_of_eq (sep.keeps _),
          Scan.run?_append_of_eq (Scan.run?_opener _ _), hcontent.run?]
      · rw [Scan.kinds_enter, ← hsame]
        rfl

theorem Part.shows (h : Part spaced toks st t) : Shows t st := by
  cases h with
  | whole _ hreads => exact hreads.spaced.keeps.shows
  | draft hdraft => exact hdraft.shows

theorem Written.shows {words : List (List Token)} {pieces : List (List Char)}
    (h : Written spaced words st pieces) : Shows pieces.flatten st := by
  cases h with
  | start => exact (Keeps.nil _).shows
  | @add _ pieces _ _ t hwhole hpart =>
      have hkeeps : Keeps .outside pieces.flatten := by
        refine .flatten ?_
        intro t ht
        obtain ⟨v, hreads⟩ := hwhole.reads t ht
        exact hreads.spaced.keeps
      rw [List.flatten_append, List.flatten_singleton]
      exact hpart.shows.after hkeeps

variable {σ : Type} [Sink σ]

/-- After every run the text shows what is open: a scan that passes over string literals finds every
closing bracket in its place, and at the end the containers of the stack. The level is their number,
and zero just if all that the text opens is closed. -/
theorem Session.runAll_shows (spaced : Bool) (settings : Settings) (sink : σ) (script : List Step)
    (hadm : ∀ step ∈ script, step.Admissible spaced) :
    let s := (Session.start settings sink).runAll script
    ∃ (out : List Char) (scan : Scan), s.text = (Sink.text sink).toList ++ out ∧
      Scan.run? {} out = some scan ∧ scan.kinds = s.stack.map (·.kind) ∧
      s.level = scan.kinds.length ∧ (s.level = 0 ↔ scan.opened = [] ∧ scan.place = .outside) := by
  intro s
  obtain ⟨words, hholds⟩ := (holds_start spaced settings sink).runAll script hadm
  obtain ⟨scan, hscan, hkinds⟩ := hholds.written.shows
  have hlevel : s.level = scan.kinds.length := by
    rw [hkinds]
    exact (List.length_map _).symm
  refine ⟨_, scan, hholds.text, hscan, hkinds, hlevel, ?_⟩
  rw [hlevel, List.length_eq_zero_iff, Scan.kinds_eq_nil_iff]

/-- A run that ends inside a string: brackets in strings and a key that was refused open nothing. -/
theorem Session.runAll_shows_open_string :
    let script : List Step := [.call (.start .array), .call (.raw (.text "\"[\"")),
      .call (.key (.text "k")), .call (.start .string), .call (.chunk (.text "]\""))]
    let s := (Session.start .default ({} : TextBuffer)).runAll script
    ∃ (out : List Char) (scan : Scan), s.text = out ∧ Scan.run? {} out = some scan ∧
      scan.kinds = [.string, .array] ∧ s.level = 2 := by
  intro script s
  have hraw : Denotes "\"[\"".toList (.string "[") :=
    .string (.plain (by decide) (by decide) (by decide) .nil)
  have hadm : ∀ step ∈ script, step.Admissible false := by
    intro step hstep
    simp only [script, List.mem_cons, List.not_mem_nil, or_false] at hstep
    rcases hstep with rfl | rfl | rfl | rfl | rfl
    · exact .call trivial
    · exact .call ⟨_, _, rfl, hraw.reads false⟩
    · exact .call trivial
    · exact .call trivial
    · exact .call trivial
  obtain ⟨out, scan, htext, hscan, hkinds, hlevel, -⟩ :=
    runAll_shows false .default ({} : TextBuffer) script hadm
  have hstack : s.stack.map (·.kind) = [.string, .array] := rfl
  have hkinds : scan.kinds = [.string, .array] := hkinds.trans hstack
  refine ⟨out, scan, htext, hscan, hkinds, ?_⟩
  rw [hlevel, hkinds]
  rfl

end JsonWriter
