import JsonWriter.Proofs.Emission.Steps
import JsonWriter.Proofs.Session.Growth

/-! How the writing of a value ends: with its compact text, or with the fault of the first value in
it that has one. -/
namespace JsonWriter

namespace Value

/-- All values in a value, each with the number of containers around it: first the value itself,
then what is in its parts. -/
def nodes (sortKeys : Bool) (depth : Nat) (v : Value) : List (Nat × Value) :=
  (depth, v) :: (parts sortKeys v).attach.flatMap fun u => nodes sortKeys (depth + 1) u.1
termination_by sizeOf v
decreasing_by exact sizeOf_lt_of_mem_parts sortKeys u.2

def tooDeep? (limit : Option Int) (depth : Nat) : Option Fault :=
  limit.bind fun n => if n ≤ depth then some (Violation.fault (.tooDeep n)) else none

/-- What a value is refused for, whatever is in it. -/
def offence? (limit : Option Int) (depth : Nat) : Value → Option Fault
  | null | bool _ | float _ | text _ => none
  | int n =>
    if Numeral.maxDigits < (Nat.toDigits 10 n.natAbs).length then some (.value .numeralTooLong)
    else none
  | list _ | tuple _ | pairs _ => tooDeep? limit depth
  | mapping entries =>
    match entries.find? (·.1.kind ≠ .text) with
    | some entry => some (.type (.objectKey entry.1.kind))
    | none => tooDeep? limit depth
  | set _ => some (.type (.noJsonForm .set))
  | bytes _ => some (.type (.noJsonForm .bytes))
  | unknown => some (.type (.noJsonForm .unknown))
  | path _ => some (.type (.noJsonForm .path))
  | settings _ => some (.type (.noJsonForm .settings))

/-- What the first value in a value that is refused is refused for. -/
def fault? (limit : Option Int) (sortKeys : Bool) (depth : Nat) (v : Value) : Option Fault :=
  (nodes sortKeys depth v).findSome? fun n => offence? limit n.1 n.2

theorem nodes_eq (sortKeys : Bool) (depth : Nat) (v : Value) :
    nodes sortKeys depth v =
      (depth, v) :: (parts sortKeys v).flatMap (nodes sortKeys (depth + 1)) := by
  rw [nodes]
  congr 1
  rw [List.flatMap_def, List.flatMap_def, List.attach_map_val (f := nodes sortKeys (depth + 1))]

theorem fault?_eq (limit : Option Int) (sortKeys : Bool) (depth : Nat) (v : Value) :
    fault? limit sortKeys depth v = (offence? limit depth v).or
      ((parts sortKeys v).findSome? (fault? limit sortKeys (depth + 1))) := by
  have hparts : ∀ us : List Value,
      (us.flatMap (nodes sortKeys (depth + 1))).findSome? (fun n => offence? limit n.1 n.2) =
        us.findSome? (fault? limit sortKeys (depth + 1)) := by
    intro us
    induction us with
    | nil => rfl
    | cons u us ih =>
        rw [List.flatMap_cons, List.findSome?_append, ih, List.findSome?_cons]
        unfold fault?
        cases (nodes sortKeys (depth + 1) u).findSome? _ <;> rfl
  unfold fault?
  rw [nodes_eq, List.findSome?_cons, hparts]
  cases offence? limit depth v <;> rfl

theorem nonTextKey?_eq (entries : List (Value × Value)) :
    Write.nonTextKey? entries =
      (entries.find? (·.1.kind ≠ .text)).map (·.1.kind) := by
  induction entries with
  | nil => rfl
  | cons e entries ih =>
      obtain ⟨k, v⟩ := e
      cases k with
      | text k => exact ih
      | _ => rfl

theorem offence?_mapping (limit : Option Int) (depth : Nat) (entries : List (Value × Value)) :
    offence? limit depth (mapping entries) =
      match Write.nonTextKey? entries with
      | some kind => some (.type (.objectKey kind))
      | none => tooDeep? limit depth := by
  rw [nonTextKey?_eq]
  change (match entries.find? (·.1.kind ≠ .text) with
    | some entry => some (Fault.type (.objectKey entry.1.kind))
    | none => tooDeep? limit depth) = _
  cases entries.find? (·.1.kind ≠ .text) <;> rfl

end Value

/-- The lines that a fault of an emission leaves in the log. -/
def Fault.lines : Fault → List LogLine
  | .nesting (.tooDeep n) => [.violation n.toNat (.tooDeep n)]
  | _ => []

theorem Fault.lines_tooDeep (n : Int) :
    (Violation.fault (.tooDeep n)).lines = Violation.lines n.toNat (.tooDeep n) := by
  unfold Violation.fault Violation.lines
  split <;> rfl

variable {σ : Type} [Sink σ]

def Session.Within (s : Session σ) : Prop := ∀ n, s.tracker.limit = some n → (s.level : Int) ≤ n

/-- How a step ends: with a fault, or with a text and the containers that are open then. -/
def Write.Ends (w : Write σ Unit) (s : Session σ) (fault? : Option Fault) (st : Stack)
    (out : List Char) : Prop :=
  match fault? with
  | none => ∃ s', w s = .ok () s' ∧ s.Grows st out s'
  | some fault => ∃ s', w s = .error fault s' ∧ (s.Within → s'.log = s.log ++ fault.lines)

namespace Write

variable {w w' : Write σ Unit} {s : Session σ} {f f' : Option Fault} {st st' : Stack}
  {out out' : List Char}

theorem ends_pure (s : Session σ) : Ends (pure ()) s none s.stack [] := ⟨s, rfl, .refl s⟩

theorem ends_throw (fault : Fault) (hlines : fault.lines = []) :
    Ends (throw fault) s (some fault) st out := by
  refine ⟨s, rfl, fun _ => ?_⟩
  rw [hlines, List.append_nil]

/-- One step after another; the first may open no more containers than the limit allows. -/
theorem Ends.bind (h : Ends w s f st out)
    (hroom : ∀ n : Int, s.tracker.limit = some n → s.level ≤ n → st.length ≤ n)
    (h' : ∀ s₁, s.Grows st out s₁ → Ends w' s₁ f' st' out') :
    Ends (w >>= fun _ => w') s (f.or f') st' (out ++ out') := by
  cases f with
  | some fault =>
      obtain ⟨s₁, hw, hlog⟩ := h
      exact ⟨s₁, bind_error hw, hlog⟩
  | none =>
      obtain ⟨s₁, hw, hgrows⟩ := h
      have hnext := h' s₁ hgrows
      have hrun : (w >>= fun _ => w') s = w' s₁ := bind_ok hw
      cases f' with
      | some fault =>
          obtain ⟨s₂, hw', hlog⟩ := hnext
          refine ⟨s₂, hrun.trans hw', fun hwithin => ?_⟩
          rw [← hgrows.log]
          apply hlog
          intro n hn
          rw [hgrows.limit] at hn
          rw [hgrows.level]
          exact hroom n hn (hwithin n hn)
      | none =>
          obtain ⟨s₂, hw', hgrows'⟩ := hnext
          exact ⟨s₂, hrun.trans hw', hgrows.trans hgrows'⟩

/-- One step after another, where the first leaves as many containers open as it found. -/
theorem Ends.bind_of_level (h : Ends w s f st out) (hlevel : st.length = s.level)
    (h' : ∀ s₁, s.Grows st out s₁ → Ends w' s₁ f' st' out') :
    Ends (w >>= fun _ => w') s (f.or f') st' (out ++ out') := by
  refine h.bind ?_ h'
  intro n _ hle
  rw [hlevel]
  exact hle

theorem ends_place {α : Type} {move : Stack → Except Violation (α × Stack)} {a : α}
    (text : α → String) (h : move s.stack = .ok (a, st)) :
    Ends (place move text) s none st (text a).toList := place_ok text h

theorem ends_valueText {sep : Separator} (text : String) (h : s.stack.value = .ok (sep, st)) :
    Ends (valueText text) s none st (sep.text.toList ++ text.toList) := by
  have hplace := ends_place (fun sep : Separator => sep.text ++ text) h
  rw [String.toList_append] at hplace
  rwa [valueText_eq]

theorem ends_key {hasMember : Bool} {outer : Stack} (k : String)
    (h : s.stack = ⟨.object, hasMember, false⟩ :: outer) :
    Ends (key (.text k)) s none (⟨.object, hasMember, true⟩ :: outer)
      (Json.comma hasMember ++ ((Text.quote k).toList ++ [':'])) := by
  have hkey : s.stack.key = .ok (Frame.separator ⟨.object, hasMember, false⟩,
      ⟨.object, hasMember, true⟩ :: outer) := by
    rw [h]
    rfl
  have hplace := ends_place (fun sep : Separator => sep.text ++ Text.quote k ++ ":") hkey
  rw [String.toList_append, String.toList_append, Frame.separator_text, List.append_assoc]
    at hplace
  rwa [key_text]

theorem ends_finish {frame : Frame} {outer : Stack} (h : s.stack = frame :: outer)
    (hawaiting : frame.awaitingValue = false) :
    Ends finish s none (Stack.markMember outer) frame.kind.closer.toList := by
  have hpop : s.stack.pop = .ok (frame, Stack.markMember outer) := by
    rw [h]
    simp [Stack.pop, hawaiting]
  rw [finish_eq]
  exact ends_place (fun f : Frame => f.kind.closer) hpop

theorem push_of_tooDeep? {limit : Option Int} {fault : Fault} (stack : Stack)
    (h : Value.tooDeep? limit stack.level = some fault) (kind : FrameKind) :
    ∃ n, limit = some n ∧ n ≤ stack.level ∧ fault = Violation.fault (.tooDeep n) ∧
      Stack.push limit kind stack = .error (.tooDeep n) := by
  obtain ⟨n, rfl, hn⟩ := Option.bind_eq_some_iff.1 h
  by_cases hle : n ≤ stack.level
  · rw [if_pos hle] at hn
    exact ⟨n, rfl, hle, (Option.some.inj hn).symm, if_pos hle⟩
  · rw [if_neg hle] at hn
    cases hn

theorem push_of_room {limit : Option Int} (stack : Stack) {sep : Separator}
    (h : Value.tooDeep? limit stack.level = none) (hvalue : stack.value = .ok (sep, st))
    (kind : FrameKind) : Stack.push limit kind stack = .ok (sep, { kind } :: st) ∧
      ∀ n : Int, limit = some n → stack.level < n := by
  have hopened : Stack.push.opened kind stack = .ok (sep, { kind } :: st) := by
    unfold Stack.push.opened
    rw [hvalue]
    rfl
  cases limit with
  | none => exact ⟨hopened, nofun⟩
  | some n =>
      have hlt : ¬n ≤ stack.level := by
        intro hle
        have hfault : Value.tooDeep? (some n) stack.level =
            some (Violation.fault (.tooDeep n)) := if_pos hle
        rw [hfault] at h
        cases h
      refine ⟨(if_neg hlt).trans hopened, ?_⟩
      intro m hm
      cases hm
      exact Int.not_le.1 hlt

/-- A container ends as its body does, unless the limit leaves no room for it. -/
theorem ends_enclosed {kind : FrameKind} {body : Write σ Unit} {sep : Separator}
    {hasMember : Bool} (h : s.stack.value = .ok (sep, st))
    (hbody : ∀ s₁, s.Grows ({ kind } :: st) (sep.text.toList ++ kind.opener.toList) s₁ →
      Ends body s₁ f (⟨kind, hasMember, false⟩ :: st) out) :
    Ends (enclosed kind body) s ((Value.tooDeep? s.tracker.limit s.level).or f) st
      (sep.text.toList ++ kind.opener.toList ++ (out ++ kind.closer.toList)) := by
  cases hfault : Value.tooDeep? s.tracker.limit s.level with
  | some fault =>
      obtain ⟨n, hlimit, hle, heq, hpush⟩ := push_of_tooDeep? s.stack hfault kind
      rw [heq]
      have hstart := (start_eq kind s).trans (place_error hpush)
      refine ⟨s.refused (.tooDeep n), bind_error hstart, fun hwithin => ?_⟩
      have hn : n.toNat = s.level := by
        have hlevel := hwithin n hlimit
        change n ≤ s.level at hle
        omega
      rw [Session.log_refused, Fault.lines_tooDeep, hn]
  | none =>
      obtain ⟨hpush, hroom⟩ := push_of_room s.stack hfault h kind
      have hstart : Ends (start kind) s none ({ kind } :: st)
          (sep.text.toList ++ kind.opener.toList) := by
        rw [← String.toList_append]
        obtain ⟨s₁, hplace, hgrows⟩ :=
          place_ok (fun sep : Separator => sep.text ++ kind.opener) hpush
        exact ⟨s₁, (start_eq kind s).trans hplace, hgrows⟩
      refine hstart.bind ?_ ?_
      · intro n hn _
        have hlt := hroom n hn
        have hlength := Stack.length_of_value h
        change (s.stack.length : Int) < n at hlt
        rw [List.length_cons]
        omega
      · intro s₁ hgrows
        have hlevel : (⟨kind, hasMember, false⟩ :: st).length = s₁.level := hgrows.level.symm
        have hfinish : ∀ s₂, s₁.Grows (⟨kind, hasMember, false⟩ :: st) out s₂ →
            Ends finish s₂ none st kind.closer.toList := by
          intro s₂ hgrows₂
          have hclosed := ends_finish hgrows₂.stack rfl
          rwa [Stack.markMember_of_value h] at hclosed
        have hbody₁ := (hbody s₁ hgrows).bind_of_level hlevel hfinish
        rwa [Option.or_none] at hbody₁

/-- What is written into a container: texts with commas between them, and before the first one if
others stand there already. -/
def row (hasMember : Bool) : List (List Char) → List Char
  | [] => []
  | t :: ts => Json.comma hasMember ++ (t ++ row true ts)

theorem row_false (ts : List (List Char)) : row false ts = List.intercalate [','] ts := by
  cases ts with
  | nil => rfl
  | cons t ts =>
      change t ++ row true ts = _
      induction ts generalizing t with
      | nil =>
          rw [List.intercalate_singleton]
          exact List.append_nil t
      | cons u ts ih =>
          rw [List.intercalate_cons_cons, ← ih, List.append_assoc]
          rfl

theorem ends_row {α : Type} {w : α → Write σ Unit} {fault? : α → Option Fault}
    {text : α → List Char} {kind : FrameKind} {outer : Stack} {limit : Option Int}
    {settings : Settings} (as : List α)
    (h : ∀ a ∈ as, ∀ (s : Session σ) (hasMember : Bool),
      s.stack = ⟨kind, hasMember, false⟩ :: outer → s.tracker.limit = limit →
      s.settings = settings →
      Ends (w a) s (fault? a) (⟨kind, true, false⟩ :: outer) (Json.comma hasMember ++ text a))
    {s : Session σ} {hasMember : Bool} (hstack : s.stack = ⟨kind, hasMember, false⟩ :: outer)
    (hlimit : s.tracker.limit = limit) (hsettings : s.settings = settings) :
    Ends (as.forM w) s (as.findSome? fault?) (⟨kind, hasMember || !as.isEmpty, false⟩ :: outer)
      (row hasMember (as.map text)) := by
  induction as generalizing s hasMember with
  | nil =>
      have hpure := ends_pure s
      rw [hstack] at hpure
      rwa [List.isEmpty_nil, Bool.not_true, Bool.or_false]
  | cons a as ih =>
      have hfirst := h a List.mem_cons_self s hasMember hstack hlimit hsettings
      have hlevel : (⟨kind, true, false⟩ :: outer).length = s.level :=
        (congrArg List.length hstack).symm
      have hothers : ∀ s₁, s.Grows (⟨kind, true, false⟩ :: outer)
          (Json.comma hasMember ++ text a) s₁ →
          Ends (as.forM w) s₁ (as.findSome? fault?) (⟨kind, true, false⟩ :: outer)
            (row true (as.map text)) := by
        intro s₁ hgrows
        have hnext := ih (fun b hb => h b (List.mem_cons_of_mem a hb)) hgrows.stack
          (hgrows.limit.trans hlimit) (hgrows.settings.trans hsettings)
        rwa [Bool.true_or] at hnext
      have hrest := hfirst.bind_of_level hlevel hothers
      rw [List.append_assoc] at hrest
      rw [List.findSome?_cons, List.isEmpty_cons, Bool.not_false, Bool.or_true]
      cases hfault : fault? a with
      | none =>
          rw [hfault] at hrest
          exact hrest
      | some fault =>
          rw [hfault] at hrest
          exact hrest

/-- Where a value is allowed, a value is written as its compact text, or not to its end. -/
def Emits (σ : Type) [Sink σ] (sortKeys : Bool) (v : Value) : Prop :=
  ∀ (s : Session σ) (sep : Separator) (st : Stack), s.stack.value = .ok (sep, st) →
    Ends (emit sortKeys v) s (v.fault? s.tracker.limit sortKeys s.level) st
      (sep.text.toList ++ v.jsonText s.settings.floatPrecision sortKeys)

variable {sep : Separator}

theorem ends_array (sortKeys : Bool) (items : List Value) (h : s.stack.value = .ok (sep, st))
    (ih : ∀ v ∈ items, Emits σ sortKeys v) :
    Ends (enclosed .array (items.forM (emit sortKeys))) s
      ((Value.tooDeep? s.tracker.limit s.level).or
        (items.findSome? (Value.fault? s.tracker.limit sortKeys (s.level + 1)))) st
      (sep.text.toList ++
        Value.arrayText (items.map (Value.jsonText s.settings.floatPrecision sortKeys))) := by
  have hbody : ∀ s₁, s.Grows ({ kind := .array } :: st)
      (sep.text.toList ++ FrameKind.array.opener.toList) s₁ →
      Ends (items.forM (emit sortKeys)) s₁
        (items.findSome? (Value.fault? s.tracker.limit sortKeys (s.level + 1)))
        (⟨.array, false || !items.isEmpty, false⟩ :: st)
        (row false (items.map (Value.jsonText s.settings.floatPrecision sortKeys))) := by
    intro s₁ hgrows
    refine ends_row items ?_ hgrows.stack hgrows.limit hgrows.settings
    intro v hv s₂ hasMember hstack hlimit hsettings
    have hvalue : s₂.stack.value = .ok (Frame.separator ⟨.array, hasMember, false⟩,
        ⟨.array, true, false⟩ :: st) := by
      rw [hstack]
      rfl
    have hlevel : s₂.level = s.level + 1 := by
      change s₂.stack.length = s.stack.length + 1
      rw [hstack, List.length_cons, Stack.length_of_value h]
    have hemit := ih v hv s₂ _ _ hvalue
    rwa [hlimit, hlevel, hsettings, Frame.separator_text] at hemit
  have henclosed := ends_enclosed h hbody
  rw [row_false, List.append_assoc] at henclosed
  exact henclosed

theorem ends_object (sortKeys : Bool) (ms : List (String × Value))
    (h : s.stack.value = .ok (sep, st)) (ih : ∀ m ∈ ms, Emits σ sortKeys m.2) :
    Ends (enclosed .object (ms.forM (emitMember sortKeys))) s
      ((Value.tooDeep? s.tracker.limit s.level).or
        (ms.findSome? fun m => m.2.fault? s.tracker.limit sortKeys (s.level + 1))) st
      (sep.text.toList ++ Value.objectText
        (ms.map fun m => (m.1, m.2.jsonText s.settings.floatPrecision sortKeys))) := by
  let text (m : String × Value) : List Char :=
    (Text.quote m.1).toList ++ ':' :: m.2.jsonText s.settings.floatPrecision sortKeys
  have hbody : ∀ s₁, s.Grows ({ kind := .object } :: st)
      (sep.text.toList ++ FrameKind.object.opener.toList) s₁ →
      Ends (ms.forM (emitMember sortKeys)) s₁
        (ms.findSome? fun m => m.2.fault? s.tracker.limit sortKeys (s.level + 1))
        (⟨.object, false || !ms.isEmpty, false⟩ :: st) (row false (ms.map text)) := by
    intro s₁ hgrows
    refine ends_row ms ?_ hgrows.stack hgrows.limit hgrows.settings
    intro m hm s₂ hasMember hstack hlimit hsettings
    have hkey := ends_key m.1 hstack
    have hlevel₂ : (⟨.object, hasMember, true⟩ :: st).length = s₂.level :=
      (congrArg List.length hstack).symm
    have hvalue : ∀ s₃, s₂.Grows (⟨.object, hasMember, true⟩ :: st)
        (Json.comma hasMember ++ ((Text.quote m.1).toList ++ [':'])) s₃ →
        Ends (emit sortKeys m.2) s₃ (m.2.fault? s.tracker.limit sortKeys (s.level + 1))
          (⟨.object, true, false⟩ :: st) (m.2.jsonText s.settings.floatPrecision sortKeys) := by
      intro s₃ hgrows₃
      have hallowed : s₃.stack.value = .ok (.none, ⟨.object, true, false⟩ :: st) := by
        rw [hgrows₃.stack]
        rfl
      have hlevel : s₃.level = s.level + 1 := by
        rw [hgrows₃.level, List.length_cons, Stack.length_of_value h]
        rfl
      have hemit := ih m hm s₃ _ _ hallowed
      rwa [hgrows₃.limit, hlimit, hlevel, hgrows₃.settings, hsettings] at hemit
    have hmember := hkey.bind_of_level hlevel₂ hvalue
    simp only [Option.none_or, List.append_assoc, List.singleton_append] at hmember
    exact hmember
  have henclosed := ends_enclosed h hbody
  rw [row_false, List.append_assoc] at henclosed
  unfold Value.objectText
  rw [List.map_map]
  exact henclosed

theorem ends_int (sortKeys : Bool) (n : Int) (h : s.stack.value = .ok (sep, st)) :
    Ends (emit sortKeys (.int n)) s (Value.offence? s.tracker.limit s.level (.int n)) st
      (sep.text.toList ++ Numeral.ofInt n) := by
  by_cases hlong : Numeral.maxDigits < (Nat.toDigits 10 n.natAbs).length
  · have hfault : Value.offence? s.tracker.limit s.level (.int n) =
        some (.value .numeralTooLong) := if_pos hlong
    rw [hfault, emit_int_of_long sortKeys hlong]
    exact ends_throw _ rfl
  · have hfault : Value.offence? s.tracker.limit s.level (.int n) = none := if_neg hlong
    rw [hfault, emit_int_of_short sortKeys hlong]
    have hvalue := ends_valueText (String.ofList (Numeral.ofInt n)) h
    rwa [String.toList_ofList] at hvalue

theorem ends_float (sortKeys : Bool) (x : Binary64) (h : s.stack.value = .ok (sep, st)) :
    Ends (emit sortKeys (.float x)) s none st
      (sep.text.toList ++ (x.toJson s.settings.floatPrecision).toList) := by
  have hvalue := ends_valueText (x.toJson s.settings.floatPrecision) h
  unfold Ends at hvalue ⊢
  rwa [emit_float]

theorem ends_mapping (sortKeys : Bool) (entries : List (Value × Value))
    (h : s.stack.value = .ok (sep, st))
    (ih : ∀ v ∈ Value.parts sortKeys (.mapping entries), Emits σ sortKeys v) :
    Ends (emit sortKeys (.mapping entries)) s
      ((Value.offence? s.tracker.limit s.level (.mapping entries)).or
        ((Value.parts sortKeys (.mapping entries)).findSome?
          (Value.fault? s.tracker.limit sortKeys (s.level + 1)))) st
      (sep.text.toList ++
        Value.jsonText s.settings.floatPrecision sortKeys (.mapping entries)) := by
  rw [Value.jsonText_mapping, Value.offence?_mapping]
  cases hkey : nonTextKey? entries with
  | none =>
      have hobject := ends_object sortKeys (Value.members sortKeys entries) h
        fun m hm => ih m.2 (List.mem_map_of_mem hm)
      rw [emit_mapping sortKeys hkey, Value.parts, List.findSome?_map]
      exact hobject
  | some kind =>
      rw [emit_mapping_of_key sortKeys hkey]
      exact ends_throw _ rfl

theorem ends_pairs (sortKeys : Bool) (p : PairList) (h : s.stack.value = .ok (sep, st))
    (ih : ∀ v ∈ Value.parts sortKeys (.pairs p), Emits σ sortKeys v) :
    Ends (emit sortKeys (.pairs p)) s
      ((Value.offence? s.tracker.limit s.level (.pairs p)).or
        ((Value.parts sortKeys (.pairs p)).findSome?
          (Value.fault? s.tracker.limit sortKeys (s.level + 1)))) st
      (sep.text.toList ++ Value.jsonText s.settings.floatPrecision sortKeys (.pairs p)) := by
  have hmembers : ∀ m ∈ p.entries.map fun e => (e.1, Value.text e.2), Emits σ sortKeys m.2 := by
    intro m hm
    obtain ⟨e, he, rfl⟩ := List.mem_map.1 hm
    exact ih _ (List.mem_map_of_mem he)
  have htext : ∀ e : String × String,
      Value.jsonText s.settings.floatPrecision sortKeys (.text e.2) =
        (Text.quote e.2).toList := fun e => by rw [Value.jsonText]
  have hobject := ends_object sortKeys _ h hmembers
  rw [List.map_map, List.findSome?_map] at hobject
  simp only [Function.comp_def, htext] at hobject
  rw [emit_pairs, Value.jsonText, Value.parts, List.findSome?_map]
  exact hobject

theorem emits (sortKeys : Bool) (v : Value) : Emits σ sortKeys v := by
  -- The parts come in the order in which they are written, so the first fault among them is the
  -- one that is met first.
  induction v using Value.inductionOnParts sortKeys with
  | step v ih =>
      intro s sep st h
      rw [Value.fault?_eq]
      cases v with
      | null =>
          rw [Value.jsonText]
          exact ends_valueText "null" h
      | bool b =>
          rw [Value.jsonText]
          cases b with
          | true => exact ends_valueText "true" h
          | false => exact ends_valueText "false" h
      | int n =>
          rw [Value.jsonText]
          have hint := ends_int sortKeys n h
          rwa [← Option.or_none (o := Value.offence? _ _ _)] at hint
      | float x =>
          rw [Value.jsonText]
          exact ends_float sortKeys x h
      | text t =>
          rw [Value.jsonText]
          exact ends_valueText (Text.quote t) h
      | list items =>
          rw [emit_list, Value.jsonText]
          exact ends_array sortKeys items h ih
      | tuple items =>
          rw [emit_tuple, Value.jsonText]
          exact ends_array sortKeys items h ih
      | mapping entries => exact ends_mapping sortKeys entries h ih
      | pairs p => exact ends_pairs sortKeys p h ih
      | set _ | bytes _ | unknown | path _ | settings _ => exact ends_throw _ rfl

end Write
end JsonWriter
