import JsonWriter.Proofs.Emission.Outcome
import JsonWriter.Proofs.Json.Reading
import JsonWriter.Proofs.Session.Leaps
import JsonWriter.Session.Script

/-! What a call says, as tokens, and that a call writes the tokens it says. -/
namespace JsonWriter

open Json

namespace Value

/-- What a row of strings has for an item: a missing item is null, or left out. -/
def stringItem (skipNull : Bool) : Value → Option Json
  | text s => some (.string s)
  | null => if skipNull then none else some .null
  | _ => none

def stringArray (skipNull : Bool) (v : Value) : Json :=
  .array ((v.items?.getD []).filterMap (stringItem skipNull))

def stringMember : Value × Value → Option (String × Json)
  | (text k, text s) => some (k, .string s)
  | _ => none

def pair? (v : Value) : Option (Value × Value) :=
  match v.items? with
  | some [first, second] => some (first, second)
  | _ => none

/-- The pairs of a collection of pairs; those of a mapping are its entries. -/
def pairsIn : Value → List (Value × Value)
  | mapping entries => entries
  | v => (v.items?.getD []).filterMap pair?

def stringObject (v : Value) : Json := .object ((pairsIn v).filterMap stringMember)

/-- The number that a value is written as, at a precision of its own or at the one to fall back
on. -/
def numberJson (fallback : Nat) (v precision : Value) : Json :=
  match Scalar.number v, precision with
  | .ok x, .null => x.json fallback
  | .ok x, .int n => x.json n.toNat
  | .ok x, _ => x.json 0
  | .error _, _ => .null

end Value

/-- What a call says. A raw text says what it reads back as. -/
def Call.tokens (precision : Nat) : Call → List Token
  | raw (.text t) => ((read? t.toList).map Token.value).toList
  | null => [.value .null]
  | bool v => [.value (.bool v.isTrue)]
  | integer (.int n) => [.value (.number n)]
  | float v p => [.value (v.numberJson precision p)]
  | string (.text s) => [.value (.string s)]
  | start kind => [.start kind]
  | chunk (.text s) => [.chunk s]
  | finish => [.finish]
  | key (.text k) => [.key k]
  | keyIfPresent (.text k) (.text s) => [.key k, .value (.string s)]
  | strings skipNull items => [.value (items.stringArray skipNull.isTrue)]
  | stringPairs v => [.value v.stringObject]
  | emit sortKeys v => [.value (v.normal precision sortKeys)]
  | raw _ | integer _ | string _ | chunk _ | key _ | keyIfPresent _ _ => []

/-- A raw text has to be one JSON value; of other calls nothing is asked. -/
def Call.Admissible (spaced : Bool) : Call → Prop
  | raw v => ∃ t j, v = .text t ∧ Reads spaced t.toList j
  | _ => True

theorem Call.tokens_raw {precision : Nat} {spaced : Bool} {t : String} {v : Json}
    (h : Reads spaced t.toList v) : (raw (.text t)).tokens precision = [.value v] := by
  change ((read? t.toList).map Token.value).toList = _
  rw [read?_eq_some_iff.2 h.spaced]
  rfl

theorem mapM_cons_eq_ok {α β : Type} {f : α → Except Fault β} {a : α} {as : List α} {cs : List β}
    (h : (a :: as).mapM f = .ok cs) : ∃ b bs, f a = .ok b ∧ as.mapM f = .ok bs ∧ cs = b :: bs := by
  rw [List.mapM_cons] at h
  cases hb : f a with
  | error fault =>
      rw [hb] at h
      cases h
  | ok b =>
      rw [hb] at h
      cases hbs : as.mapM f with
      | error fault =>
          rw [hbs] at h
          cases h
      | ok bs =>
          rw [hbs] at h
          cases h
          exact ⟨b, bs, rfl, rfl, rfl⟩

namespace Write

variable {σ : Type} [Sink σ] {spaced : Bool} {s : Session σ}

theorem valueText_refused {cause : Violation} (text : String) (h : s.stack.value = .error cause) :
    valueText text s = .error cause.fault (s.refused cause) := by
  rw [valueText_eq]
  exact place_error h

theorem enclosed_refused {cause : Violation} (kind : FrameKind) (body : Write σ Unit)
    (h : s.stack.value = .error cause) : ∃ fault s', enclosed kind body s = .error fault s' := by
  have hpush : ∃ cause', Stack.push s.tracker.limit kind s.stack = .error cause' := by
    have hopened : Stack.push.opened kind s.stack = .error cause := by
      unfold Stack.push.opened
      rw [h]
      rfl
    unfold Stack.push
    split
    · split
      · exact ⟨_, rfl⟩
      · exact ⟨_, hopened⟩
    · exact ⟨_, hopened⟩
  obtain ⟨cause', hpush⟩ := hpush
  have hstart := (start_eq kind s).trans (place_error hpush)
  exact ⟨cause'.fault, s.refused cause', bind_error hstart⟩

theorem emit_refused {cause : Violation} (sortKeys : Bool) (v : Value)
    (h : s.stack.value = .error cause) : ∃ fault s', emit sortKeys v s = .error fault s' := by
  cases v with
  | null => exact ⟨_, _, valueText_refused "null" h⟩
  | bool b => exact ⟨_, _, valueText_refused _ h⟩
  | int n =>
      rw [emit_int]
      cases Scalar.integer (.int n) with
      | error fault => exact ⟨fault, s, rfl⟩
      | ok t => exact ⟨_, _, valueText_refused t h⟩
  | float x =>
      rw [emit_float]
      exact ⟨_, _, valueText_refused _ h⟩
  | text t => exact ⟨_, _, valueText_refused (Text.quote t) h⟩
  | list items =>
      rw [emit_list]
      exact enclosed_refused .array _ h
  | tuple items =>
      rw [emit_tuple]
      exact enclosed_refused .array _ h
  | mapping entries =>
      cases hkey : nonTextKey? entries with
      | none =>
          rw [emit_mapping sortKeys hkey]
          exact enclosed_refused .object _ h
      | some kind =>
          rw [emit_mapping_of_key sortKeys hkey]
          exact ⟨_, s, rfl⟩
  | pairs p =>
      rw [emit_pairs]
      exact enclosed_refused .object _ h
  | set _ | bytes _ | unknown | path _ | settings _ => exact ⟨_, s, rfl⟩

/-- A value that was written was allowed where it stands, and nothing in it was refused. -/
theorem grows_of_emit {sortKeys : Bool} {v : Value} {s' : Session σ}
    (h : emit sortKeys v s = .ok () s') :
    ∃ (sep : Separator) (st : Stack), s.stack.value = .ok (sep, st) ∧
      v.fault? s.tracker.limit sortKeys s.level = none ∧
      s.Grows st (sep.text.toList ++ v.jsonText s.settings.floatPrecision sortKeys) s' := by
  cases hvalue : s.stack.value with
  | error cause =>
      obtain ⟨fault, s'', hrefused⟩ := emit_refused sortKeys v hvalue
      rw [hrefused] at h
      cases h
  | ok r =>
      obtain ⟨sep, st⟩ := r
      have hends := emits sortKeys v s sep st hvalue
      cases hfault : v.fault? s.tracker.limit sortKeys s.level with
      | some fault =>
          rw [hfault] at hends
          obtain ⟨s'', hemit, -⟩ := hends
          rw [hemit] at h
          cases h
      | none =>
          rw [hfault] at hends
          obtain ⟨s'', hemit, hgrows⟩ := hends
          rw [hemit] at h
          cases h
          exact ⟨sep, st, rfl, rfl, hgrows⟩

open Session

theorem leads_emit (spaced sortKeys : Bool) (v : Value) (s : Session σ) :
    Leads (emit sortKeys v) s
      (Leap spaced 1 [.value (v.normal s.settings.floatPrecision sortKeys)] s)
      (fun s' => ∃ toks, Leap spaced 1 toks s s') := by
  have herror := writesOne_emit spaced sortKeys v s
  unfold Leads at herror ⊢
  cases hrun : emit sortKeys v s with
  | error fault s' =>
      rw [hrun] at herror
      obtain ⟨toks, hleap⟩ := herror
      exact ⟨toks, hleap.mono (Nat.le_add_left 1 _)⟩
  | ok _ s' =>
      obtain ⟨sep, st, hvalue, -, hgrows⟩ := grows_of_emit hrun
      have hreads := (v.denotes_jsonText s.settings.floatPrecision sortKeys).reads spaced
      have hadds := Adds.value hvalue hreads
      rw [← hgrows.stack] at hadds
      exact .one ⟨hgrows.settings, _, hgrows.text, .one (Nat.zero_le _) hadds⟩

def keptTexts (skipNull : Bool) (texts : List (Option String)) : List Value :=
  texts.filterMap fun
    | some s => some (.text s)
    | none => if skipNull then none else some .null

theorem forM_optionalString (skipNull : Bool) (texts : List (Option String)) :
    (texts.forM (optionalString skipNull) : Write σ Unit) =
      (keptTexts skipNull texts).forM (emit false) := by
  induction texts with
  | nil => rfl
  | cons t texts ih =>
      change (optionalString skipNull t >>= fun _ => texts.forM (optionalString skipNull)) = _
      rw [ih]
      cases t with
      | some t => rfl
      | none =>
          cases skipNull with
          | true => rfl
          | false => rfl

theorem strings_eq_emit {skipNull items : Value} {texts : List (Option String)}
    (h : (do (← items.collection).mapM optionalText) = .ok texts) :
    (strings skipNull items : Write σ Unit) =
      emit false (.list (keptTexts skipNull.isTrue texts)) := by
  rw [emit_list, ← forM_optionalString]
  unfold strings
  rw [h]
  rfl

theorem normal_keptTexts {precision : Nat} {skipNull : Bool} {vs : List Value}
    {texts : List (Option String)} (h : vs.mapM optionalText = .ok texts) :
    (keptTexts skipNull texts).map (Value.normal precision false) =
      vs.filterMap (Value.stringItem skipNull) := by
  induction vs generalizing texts with
  | nil =>
      cases h
      rfl
  | cons v vs ih =>
      obtain ⟨t, ts, ht, hts, rfl⟩ := mapM_cons_eq_ok h
      have hrest := ih hts
      cases v with
      | null =>
          cases ht
          cases skipNull with
          | true => exact hrest
          | false =>
              change Value.normal precision false .null :: _ = Json.null :: _
              rw [Value.normal]
              exact congrArg (Json.null :: ·) hrest
      | text t =>
          cases ht
          change Value.normal precision false (.text t) :: _ = Json.string t :: _
          rw [Value.normal]
          exact congrArg (Json.string t :: ·) hrest
      | _ => cases ht

theorem leads_strings (skipNull items : Value) (s : Session σ) :
    Leads (strings skipNull items) s
      (Leap spaced 1 [.value (items.stringArray skipNull.isTrue)] s)
      (fun s' => ∃ toks, Leap spaced 1 toks s s') := by
  cases h : (do (← items.collection).mapM optionalText : Except Fault _) with
  | error fault =>
      have hrun : strings skipNull items s = .error fault s := by
        unfold strings
        rw [h]
        rfl
      unfold Leads
      rw [hrun]
      exact ⟨[], .still (.refl s)⟩
  | ok texts =>
      rw [strings_eq_emit h]
      have hemit := leads_emit spaced false
        (.list (keptTexts skipNull.isTrue texts)) s
      have hnormal : Value.normal s.settings.floatPrecision false
          (.list (keptTexts skipNull.isTrue texts)) = items.stringArray skipNull.isTrue := by
        unfold Value.collection at h
        cases hitems : items.items? with
        | none =>
            rw [hitems] at h
            cases h
        | some vs =>
            rw [hitems] at h
            unfold Value.stringArray
            rw [Value.normal, hitems]
            exact congrArg Json.array (normal_keptTexts h)
      rwa [hnormal] at hemit

theorem mapM_textPair_eq_ok {es : List (Value × Value)} {ms : List (String × String)}
    (h : es.mapM textPair = .ok ms) :
    es.filterMap Value.stringMember = ms.map fun m => (m.1, .string m.2) := by
  induction es generalizing ms with
  | nil =>
      cases h
      rfl
  | cons e es ih =>
      obtain ⟨m, ms, hm, hms, rfl⟩ := mapM_cons_eq_ok h
      obtain ⟨k, v⟩ := e
      unfold textPair at hm
      split at hm
      · rename_i heq
        cases heq
        cases hm
        exact congrArg (_ :: ·) (ih hms)
      · cases hm

theorem pair?_eq_some {v : Value} {p : Value × Value} (h : v.pair = .ok p) :
    v.pair? = some p := by
  unfold Value.pair at h
  unfold Value.pair?
  split at h
  · rename_i hitems
    cases h
    rw [hitems]
  all_goals cases h

theorem mapM_pair_eq_ok {items : List Value} {ms : List (String × String)}
    (h : (items.mapM fun item => do textPair (← item.pair)) = .ok ms) :
    (items.filterMap Value.pair?).mapM textPair = .ok ms := by
  induction items generalizing ms with
  | nil => exact h
  | cons v items ih =>
      obtain ⟨m, ms, hm, hms, rfl⟩ := mapM_cons_eq_ok h
      cases hpair : v.pair with
      | error fault =>
          rw [hpair] at hm
          cases hm
      | ok p =>
          rw [hpair] at hm
          have hm : textPair p = .ok m := hm
          rw [List.filterMap_cons, pair?_eq_some hpair, List.mapM_cons, hm, ih hms]
          rfl

/-- The pairs of a collection are the members of an object. -/
theorem stringObject_eq {v : Value} {ms : List (String × String)} (h : pairsOf v = .ok ms) :
    v.stringObject = .object (ms.map fun m => (m.1, .string m.2)) := by
  have hpairs : (Value.pairsIn v).mapM textPair = .ok ms := by
    have hcollection : (do
        (← v.collection).mapM fun item : Value => do textPair (← item.pair)) = .ok ms →
        ((v.items?.getD []).filterMap Value.pair?).mapM textPair = .ok ms := by
      intro h
      unfold Value.collection at h
      cases hitems : v.items? with
      | none =>
          rw [hitems] at h
          cases h
      | some items =>
          rw [hitems] at h
          exact mapM_pair_eq_ok h
    cases v with
    | mapping entries => exact h
    | _ => exact hcollection h
  unfold Value.stringObject
  rw [mapM_textPair_eq_ok hpairs]

theorem leads_stringPairs (v : Value) (s : Session σ) :
    Leads (stringPairs v) s (Leap spaced 1 [.value v.stringObject] s)
      (fun s' => ∃ toks, Leap spaced 1 toks s s') := by
  cases h : pairsOf v with
  | error fault =>
      have hrun : stringPairs v s = .error fault s := by
        unfold stringPairs
        rw [h]
        rfl
      unfold Leads
      rw [hrun]
      exact ⟨[], .still (.refl s)⟩
  | ok ms =>
      have hrun : (stringPairs v : Write σ Unit) = emit false (.pairs ⟨ms⟩) := by
        rw [emit]
        unfold stringPairs
        rw [h, pairsOf_pairs]
      have hemit := leads_emit spaced false (.pairs ⟨ms⟩) s
      rw [Value.normal, ← stringObject_eq h] at hemit
      rwa [hrun]

theorem Leads.one {w : Write σ Unit} {tok : Token}
    (h : Leads w s (Walk spaced 0 [tok] s) (Walk spaced 0 [] s)) :
    Leads w s (Leap spaced 1 [tok] s) (fun s' => ∃ toks, Leap spaced 1 toks s s') := by
  refine h.imp ?_ ?_
  · intro s' hwalk
    exact .one hwalk
  · intro s' hwalk
    exact ⟨[], .still hwalk⟩

theorem leads_checked {x : Except Fault String} {v : Json} (s : Session σ)
    (h : ∀ t, x = .ok t → Denotes t.toList v) :
    Leads (do valueText (← check x)) s (Leap spaced 1 [.value v] s)
      (fun s' => ∃ toks, Leap spaced 1 toks s s') := by
  refine leads_check ?_ ⟨[], .still (.refl s)⟩
  intro t ht
  exact (leads_valueText t s ((h t ht).reads spaced)).one

theorem leads_raw {t : String} {v : Json} (s : Session σ) (h : Reads spaced t.toList v) :
    Leads (raw (.text t)) s (Walk spaced 0 [.value v] s) (Walk spaced 0 [] s) :=
  leads_valueText t s h

theorem denotes_float {precision : Nat} {v p : Value} {t : String}
    (h : Scalar.float v (p.orElse (.int precision)) = .ok t) :
    Denotes t.toList (v.numberJson precision p) := by
  obtain ⟨x, hnumber, n, hn, rfl⟩ := Scalar.float_eq_ok h
  have hjson : v.numberJson precision p = x.json n := by
    unfold Value.numberJson
    rw [hnumber]
    by_cases hx : x.isFinite = true
    · have hp := hn hx
      cases p with
      | null =>
          cases hp
          rfl
      | int m =>
          cases hp
          rfl
      | _ => cases hp
    · have hnull : ∀ n, x.json n = .null := fun n => if_neg hx
      cases p with
      | _ => simp only [hnull]
  rw [hjson]
  exact denotes_toJson n x

/-- A piece that is no text is refused, and leaves no trace where pieces are allowed. -/
theorem leads_chunk_of_not_text {v : Value} (s : Session σ) (h : ∀ t, v ≠ .text t)
    (ok : Session σ → Prop) :
    Leads (chunk v) s ok (fun s' => ∃ toks, Leap spaced 1 toks s s') := by
  refine (leads_track spaced ?_).bind ?_ fun s' hwalk => ⟨[], .still hwalk⟩
  · intro _ st hchunk
    exact Stack.eq_of_chunk hchunk
  · intro _ s₁ hwalk
    refine leads_check ?_ ⟨[], .still hwalk⟩
    intro t ht
    obtain ⟨u, hu, -⟩ := Scalar.escape_eq_ok ht
    exact absurd hu (h u)

theorem leads_key_string (k : String) (v : Value) (s : Session σ) :
    Leads (do
      key (.text k)
      string v) s
      (fun s' => ∃ t, v = .text t ∧ Leap spaced 1 [.key k, .value (.string t)] s s')
      (fun s' => ∃ toks, Leap spaced 1 toks s s') := by
  refine (leads_key spaced k s).bind ?_ fun s' hwalk => ⟨[], .still hwalk⟩
  intro _ s₁ hkey
  obtain ⟨out, -, hadds⟩ := hkey.adds
  have hlevel : 1 ≤ s₁.level := by
    rw [hkey.one_level]
    exact hadds.one_le_of_key
  refine leads_check ?_ ⟨_, .one hkey⟩
  intro t ht
  obtain ⟨u, rfl, rfl⟩ := Scalar.quote_eq_ok ht
  refine (leads_valueText (Text.quote u) s₁ ((denotes_quote u).reads spaced)).imp ?_ ?_
  · intro s' hvalue
    exact ⟨u, rfl, .first hkey (hvalue.raise hlevel)⟩
  · intro s' hrefused
    exact ⟨_, .first hkey ((Leap.still hrefused).walk hlevel)⟩

theorem leads_keyIfPresent {k v : Value} (s : Session σ) (h : v ≠ .null) :
    Leads (keyIfPresent k v) s
      (Leap spaced 1 ((Call.keyIfPresent k v).tokens s.settings.floatPrecision) s)
      (fun s' => ∃ toks, Leap spaced 1 toks s s') := by
  have hrun : (keyIfPresent k v : Write σ Unit) = (do
      key k
      string v) := by
    cases v with
    | null => exact absurd rfl h
    | _ => rfl
  rw [hrun]
  cases k with
  | text k =>
      refine (leads_key_string k v s).imp ?_ fun _ herror => herror
      rintro s' ⟨t, rfl, hleap⟩
      exact hleap
  | _ => exact ⟨[], .still (.refl s)⟩

end Write

open Session Write

/-- A call writes what it says, or fails, and then it wrote the beginning of one value at most. -/
theorem Call.leads {σ : Type} [Sink σ] {spaced : Bool} {c : Call} (h : c.Admissible spaced)
    (s : Session σ) :
    Leads c.run s (Leap spaced 1 (c.tokens s.settings.floatPrecision) s)
      (fun s' => ∃ toks, Leap spaced 1 toks s s') := by
  cases c with
  | raw v =>
      obtain ⟨t, j, rfl, hreads⟩ := h
      rw [tokens_raw hreads]
      exact (leads_raw s hreads).one
  | null => exact (leads_valueText "null" s (Denotes.nullWord.reads spaced)).one
  | bool v => exact (leads_valueText _ s ((Scalar.denotes_bool v).reads spaced)).one
  | integer v =>
      cases v with
      | int n =>
          have htokens : (Call.integer (.int n)).tokens s.settings.floatPrecision =
              [.value (.number n)] := rfl
          rw [Call.run, Write.integer, htokens]
          refine leads_checked s ?_
          intro t ht
          exact Scalar.denotes_integer ht
      | _ => exact ⟨[], .still (.refl s)⟩
  | float v p => exact leads_checked s fun t ht => denotes_float ht
  | string v =>
      cases v with
      | text t => exact (leads_valueText (Text.quote t) s ((denotes_quote t).reads spaced)).one
      | _ => exact ⟨[], .still (.refl s)⟩
  | start kind => exact (leads_start spaced kind s).one
  | chunk v =>
      cases v with
      | text t => exact (leads_chunk spaced t s).one
      | _ =>
          refine leads_chunk_of_not_text s ?_ _
          intro t ht
          cases ht
  | finish => exact (leads_finish spaced s).one
  | key v =>
      cases v with
      | text k => exact (leads_key spaced k s).one
      | _ => exact ⟨[], .still (.refl s)⟩
  | keyIfPresent k v =>
      by_cases hv : v = .null
      · subst hv
        have htokens : (Call.keyIfPresent k .null).tokens s.settings.floatPrecision = [] := by
          cases k <;> rfl
        rw [htokens]
        exact .still (.refl s)
      · exact leads_keyIfPresent s hv
  | strings skipNull items => exact leads_strings skipNull items s
  | stringPairs v => exact leads_stringPairs v s
  | emit sortKeys v => exact leads_emit spaced sortKeys v s

end JsonWriter
