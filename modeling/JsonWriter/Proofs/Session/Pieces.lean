import JsonWriter.Proofs.Session.Meaning

/-! The texts of the top-level values of a run, one after another. -/
namespace JsonWriter

open Json

theorem Adds.ne_nil_of_top {spaced : Bool} {tok : Token} {st' : Stack} {out : List Char}
    (h : Adds spaced tok [] st' out) : out ≠ [] := by
  cases h with
  | value h hreads =>
      cases h
      have hspaced := hreads.spaced
      rintro rfl
      cases read?_eq_some_iff.2 hspaced
  | start kind h =>
      cases h
      cases kind <;> exact nofun
  | chunk s h => cases h
  | finish h => cases h
  | key k h => cases h

/-- What is written inside open containers continues the last text. -/
theorem Written.writes {spaced : Bool} {words : List (List Token)} {toks : List Token}
    {st st' : Stack} {pieces : List (List Char)} {out : List Char}
    (h : Written spaced words st pieces) (hst : st ≠ [])
    (hwrites : Writes spaced 1 toks st st' out) :
    ∃ words', Written spaced words' st' (pieces.modifyLast (· ++ out)) ∧
      words'.flatten = words.flatten ++ toks ∧
      (pieces.modifyLast (· ++ out)).flatten = pieces.flatten ++ out := by
  cases h with
  | start => exact absurd rfl hst
  | @add words pieces word st piece hwhole hpart =>
      refine ⟨words ++ [word ++ toks], ?_, ?_, ?_⟩
      · rw [List.modifyLast_concat]
        exact hwhole.add (hpart.writes hwrites)
      · simp
      · rw [List.modifyLast_concat]
        simp

variable {σ : Type} [Sink σ]

namespace Session

def gained (s s' : Session σ) : List Char := s'.text.drop s.text.length

/-- The texts of the top-level values, after a session became a later one: what is written where
nothing is open begins a text, and all else continues the last one. -/
def cut (s s' : Session σ) (pieces : List (List Char)) : List (List Char) :=
  if s.level ≠ 0 then pieces.modifyLast (· ++ s.gained s')
  else if s.gained s' = [] then pieces
  else pieces ++ [s.gained s']

/-- A session, with what was written in it: the tokens and the texts of its top-level values. -/
structure Holds (spaced : Bool) (base : List Char) (words : List (List Token))
    (pieces : List (List Char)) (s : Session σ) : Prop where
  written : Written spaced words s.stack pieces
  text : s.text = base ++ pieces.flatten

variable {spaced : Bool} {base : List Char} {words : List (List Token)}
  {pieces : List (List Char)} {toks : List Token} {s s' : Session σ}

theorem holds_start (spaced : Bool) (settings : Settings) (sink : σ) :
    (Session.start settings sink).Holds spaced (Sink.text sink).toList [] [] :=
  ⟨.start, (List.append_nil _).symm⟩

theorem gained_eq {out : List Char} (h : s'.text = s.text ++ out) : s.gained s' = out := by
  unfold gained
  rw [h, List.drop_left]

theorem Holds.walk (h : s.Holds spaced base words pieces) (hlevel : s.level ≠ 0)
    (hwalk : Walk spaced 1 toks s s') :
    ∃ words', s'.Holds spaced base words' (s.cut s' pieces) ∧
      words'.flatten = words.flatten ++ toks := by
  obtain ⟨-, out, htext, hwrites⟩ := hwalk
  have hst : s.stack ≠ [] := fun hnil => hlevel (congrArg List.length hnil)
  obtain ⟨words', hwritten, hwords, hflatten⟩ := h.written.writes hst hwrites
  refine ⟨words', ⟨?_, ?_⟩, hwords⟩
  · unfold cut
    rw [if_pos hlevel, gained_eq htext]
    exact hwritten
  · unfold cut
    rw [if_pos hlevel, gained_eq htext, hflatten, htext, h.text, List.append_assoc]

theorem Holds.leap (h : s.Holds spaced base words pieces) (hleap : Leap spaced 1 toks s s') :
    ∃ words', s'.Holds spaced base words' (s.cut s' pieces) ∧
      words'.flatten = words.flatten ++ toks := by
  -- Where nothing is open, the first token begins a text; all others continue the last one.
  by_cases hlevel : s.level = 0
  · have hstack : s.stack = [] := List.length_eq_zero_iff.1 hlevel
    have hwritten := h.written
    rw [hstack] at hwritten
    cases hleap with
    | still hwalk =>
        obtain ⟨hsame, htext⟩ := hwalk.still
        have hgained : s.gained s' = [] := gained_eq (by rw [htext, List.append_nil])
        have hcut : s.cut s' pieces = pieces := by
          unfold cut
          rw [if_neg (not_not.2 hlevel), if_pos hgained]
        rw [hcut]
        refine ⟨words, ⟨?_, htext.trans h.text⟩, (List.append_nil _).symm⟩
        rw [hsame]
        exact h.written
    | @first tok toks _ s₁ _ hfirst hrest =>
        obtain ⟨out, htext, hadds⟩ := hfirst.adds
        obtain ⟨-, out', htext', hwrites⟩ := hrest
        rw [htext, List.append_assoc] at htext'
        rw [hstack] at hadds
        have hpart := (Draft.top.adds hadds).writes hwrites
        have hne : s.gained s' ≠ [] := by
          rw [gained_eq htext']
          exact fun hnil => hadds.ne_nil_of_top (List.append_eq_nil_iff.1 hnil).1
        have hcut : s.cut s' pieces = pieces ++ [out ++ out'] := by
          unfold cut
          rw [if_neg (not_not.2 hlevel), if_neg hne, gained_eq htext']
        rw [hcut]
        refine ⟨words ++ [tok :: toks], ⟨hwritten.add hpart, ?_⟩, ?_⟩
        · rw [htext', h.text]
          simp
        · simp
  · exact h.walk hlevel (hleap.walk (Nat.one_le_iff_ne_zero.2 hlevel))

end Session

/-- The runs that are looked at: raw texts are JSON values, and no one else writes to the
destination. Where a caller goes on after a failure inside a block, the steps are those of a run of
single calls. -/
inductive Step.Admissible (spaced : Bool) : Step → Prop
  | call {c} : c.Admissible spaced → Admissible spaced (.call c)
  | raise (text : String) : Admissible spaced (.raise text)
  | block {body} (kind : BlockKind) : (∀ step ∈ body, Admissible spaced step) →
      Admissible spaced (.block kind body)

mutual

def Step.tokens (precision : Nat) : Step → List Token
  | .call c => c.tokens precision
  | .append _ | .raise _ => []
  | .block kind body =>
    .start kind.frameKind :: (Step.tokensAll precision body ++ [.finish])

def Step.tokensAll (precision : Nat) : List Step → List Token
  | [] => []
  | step :: rest => step.tokens precision ++ Step.tokensAll precision rest

end

mutual

/-- The texts of the top-level values after a step, by what they were before it. -/
def Step.cuts (s : Session σ) (pieces : List (List Char)) : Step → List (List Char)
  | .call c => s.cut (outcome (c.run s)).1 pieces
  | .append text => s.cut (outcome (Write.append text s)).1 pieces
  | .raise _ => pieces
  | .block kind body =>
    match Write.start kind.frameKind s with
    | .error _ s' => s.cut s' pieces
    | .ok _ opened =>
      let inside := Step.cutsAll opened (s.cut opened pieces) body
      match Step.runAll body opened with
      | .error _ _ => inside
      | .ok _ after => after.cut (outcome (Write.finish after)).1 inside

def Step.cutsAll (s : Session σ) (pieces : List (List Char)) : List Step → List (List Char)
  | [] => pieces
  | step :: rest =>
    match step.run s with
    | .error _ _ => step.cuts s pieces
    | .ok _ s' => Step.cutsAll s' (step.cuts s pieces) rest

end

/-- The texts of the top-level values after steps that are run one by one. -/
def Session.cuts (s : Session σ) (pieces : List (List Char)) : List Step → List (List Char)
  | [] => pieces
  | step :: rest => Session.cuts (outcome (step.run s)).1 (step.cuts s pieces) rest

/-- What is left by a step that says some tokens: if it failed it need not have written them. -/
def Session.Leaves (spaced : Bool) (base : List Char) (words : List (List Token))
    (pieces : List (List Char)) (toks : List Token) (s : Session σ)
    (result : EStateM.Result Fault (Session σ) Unit) : Prop :=
  ∃ words', (outcome result).1.Holds spaced base words' pieces ∧
    (outcome result).1.settings = s.settings ∧
    ((outcome result).2 = none → words'.flatten = words.flatten ++ toks)

open Session Write

variable {spaced : Bool} {base : List Char} {words : List (List Token)}
  {pieces : List (List Char)} {s s' : Session σ}

theorem Session.Holds.leaves {w : Write σ Unit} {toks : List Token}
    (h : s.Holds spaced base words pieces)
    (hleads : Leads w s (Leap spaced 1 toks s) (fun s' => ∃ toks, Leap spaced 1 toks s s')) :
    Leaves spaced base words (s.cut (outcome (w s)).1 pieces) toks s (w s) := by
  unfold Leads at hleads
  cases hrun : w s with
  | ok _ s' =>
      rw [hrun] at hleads
      obtain ⟨words', hholds, hwords⟩ := h.leap hleads
      exact ⟨words', hholds, hleads.settings, fun _ => hwords⟩
  | error fault s' =>
      rw [hrun] at hleads
      obtain ⟨toks', hleap⟩ := hleads
      obtain ⟨words', hholds, -⟩ := h.leap hleap
      exact ⟨words', hholds, hleap.settings, nofun⟩

mutual

/-- A step leaves complete values, and at most one that is not complete. -/
theorem Step.leaves : ∀ {step : Step}, step.Admissible spaced →
    ∀ {s : Session σ} {words : List (List Token)} {pieces : List (List Char)},
      s.Holds spaced base words pieces →
      Leaves spaced base words (step.cuts s pieces)
        (step.tokens s.settings.floatPrecision) s (step.run s)
  | .call c, hadm, s, words, pieces, h => by
    cases hadm with
    | call hc => exact h.leaves (Call.leads hc s)
  | .append text, hadm, _, _, _, _ => nomatch hadm
  | .raise text, _, s, words, pieces, h => ⟨words, h, rfl, nofun⟩
  | .block kind body, hadm, s, words, pieces, h => by
    cases hadm with
    | block _ hbody =>
        have hstart := h.leaves (leads_start spaced kind.frameKind s).one
        simp only [Step.run, Step.cuts, Step.tokens, bind, EStateM.bind]
        cases hopen : Write.start kind.frameKind s with
        | error fault s₁ =>
            rw [hopen] at hstart
            obtain ⟨words₁, hholds₁, hsettings₁, -⟩ := hstart
            exact ⟨words₁, hholds₁, hsettings₁, nofun⟩
        | ok _ s₁ =>
            rw [hopen] at hstart
            obtain ⟨words₁, hholds₁, hsettings₁, hwords₁⟩ := hstart
            have hwords₁ := hwords₁ rfl
            have hinside : Leaves spaced base words₁ (Step.cutsAll s₁ (s.cut s₁ pieces) body)
                (Step.tokensAll s₁.settings.floatPrecision body) s₁ (Step.runAll body s₁) :=
              Step.leavesAll hbody hholds₁
            simp only
            cases hrun : Step.runAll body s₁ with
            | error fault s₂ =>
                rw [hrun] at hinside
                obtain ⟨words₂, hholds₂, hsettings₂, -⟩ := hinside
                exact ⟨words₂, hholds₂, hsettings₂.trans hsettings₁, nofun⟩
            | ok _ s₂ =>
                rw [hrun] at hinside
                obtain ⟨words₂, hholds₂, hsettings₂, hwords₂⟩ := hinside
                have hwords₂ := hwords₂ rfl
                have hfinish := hholds₂.leaves (leads_finish spaced s₂).one
                obtain ⟨words₃, hholds₃, hsettings₃, hwords₃⟩ := hfinish
                have hsettings : s₁.settings = s.settings := hsettings₁
                refine ⟨words₃, hholds₃, hsettings₃.trans (hsettings₂.trans hsettings), ?_⟩
                intro hnone
                rw [hwords₃ hnone, hwords₂, hwords₁, hsettings]
                simp

theorem Step.leavesAll : ∀ {steps : List Step}, (∀ step ∈ steps, step.Admissible spaced) →
    ∀ {s : Session σ} {words : List (List Token)} {pieces : List (List Char)},
      s.Holds spaced base words pieces →
      Leaves spaced base words (Step.cutsAll s pieces steps)
        (Step.tokensAll s.settings.floatPrecision steps) s (Step.runAll steps s)
  | [], _, s, words, pieces, h => ⟨words, h, rfl, fun _ => (List.append_nil _).symm⟩
  | step :: rest, hadm, s, words, pieces, h => by
    have hfirst := Step.leaves (hadm step List.mem_cons_self) h
    simp only [Step.runAll, Step.cutsAll, Step.tokensAll, bind, EStateM.bind]
    cases hrun : step.run s with
    | error fault s₁ =>
        rw [hrun] at hfirst
        obtain ⟨words₁, hholds₁, hsettings₁, -⟩ := hfirst
        exact ⟨words₁, hholds₁, hsettings₁, nofun⟩
    | ok _ s₁ =>
        rw [hrun] at hfirst
        obtain ⟨words₁, hholds₁, hsettings₁, hwords₁⟩ := hfirst
        have hwords₁ := hwords₁ rfl
        have hsettings : s₁.settings = s.settings := hsettings₁
        have hrest : Leaves spaced base words₁ (Step.cutsAll s₁ (step.cuts s pieces) rest)
            (Step.tokensAll s₁.settings.floatPrecision rest) s₁ (Step.runAll rest s₁) :=
          Step.leavesAll (fun next hnext => hadm next (List.mem_cons_of_mem _ hnext)) hholds₁
        obtain ⟨words₂, hholds₂, hsettings₂, hwords₂⟩ := hrest
        refine ⟨words₂, hholds₂, hsettings₂.trans hsettings, ?_⟩
        intro hnone
        rw [hwords₂ hnone, hwords₁, hsettings, List.append_assoc]

end

theorem Session.Holds.runAll (script : List Step)
    (hadm : ∀ step ∈ script, step.Admissible spaced) (h : s.Holds spaced base words pieces) :
    ∃ words', (s.runAll script).Holds spaced base words' (s.cuts pieces script) := by
  induction script generalizing s words pieces with
  | nil => exact ⟨words, h⟩
  | cons step rest ih =>
      obtain ⟨words₁, hholds₁, -, -⟩ := Step.leaves (hadm step List.mem_cons_self) h
      exact ih (fun next hnext => hadm next (List.mem_cons_of_mem _ hnext)) hholds₁

end JsonWriter
