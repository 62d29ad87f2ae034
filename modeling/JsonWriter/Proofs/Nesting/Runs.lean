import JsonWriter.Nesting.Tracker
import JsonWriter.Proofs.Nesting.Stack
import Mathlib

/-! Runs of a tracker: moves that are tried one after another. Those that are refused leave nothing
but what is noted down of them. -/
namespace JsonWriter.Tracker

def Move.act (limit : Option Int) (st : Stack) : Move → Except Violation (Answer × Stack)
  | value => st.value.map fun r => (.separator r.1, r.2)
  | key => st.key.map fun r => (.separator r.1, r.2)
  | chunk => st.chunk.map fun r => (.nothing, r.2)
  | push kind => (st.push limit kind).map fun r => (.separator r.1, r.2)
  | pop => st.pop.map fun r => (.frame r.1, r.2)

theorem map_eq_ok {α β : Type} {f : α → β} {x : Except Violation α} {b : β}
    (h : x.map f = .ok b) : ∃ a, x = .ok a ∧ f a = b := by
  cases x with
  | error cause => cases h
  | ok a => exact ⟨a, rfl, Except.ok.inj h⟩

theorem map_eq_error {α β : Type} {f : α → β} {x : Except Violation α} {cause : Violation}
    (h : x.map f = .error cause) : x = .error cause := by
  cases x with
  | error cause' => exact congrArg _ (Except.error.inj h)
  | ok a => cases h

theorem map_make {α β : Type} (f : α → β) (move : Stack → Except Violation (α × Stack)) :
    f <$> make move = make fun st => (move st).map fun r => (f r.1, r.2) := by
  funext t
  change EStateM.map f (make move) t = _
  unfold EStateM.map make
  cases hmove : move t.stack <;> simp only [hmove] <;> rfl

theorem Move.run_eq (m : Move) (t : Tracker) : m.run t = make (fun st => m.act t.limit st) t := by
  cases m with
  | value => exact congrFun (map_make _ _) t
  | key => exact congrFun (map_make _ _) t
  | chunk => exact congrFun (map_make _ _) t
  | push kind => exact congrFun (map_make _ _) t
  | pop => exact congrFun (map_make _ _) t

variable {m : Move} {t t' : Tracker}

theorem Move.run_of_ok {a : Answer} {st : Stack} (h : m.act t.limit t.stack = .ok (a, st)) :
    m.run t = .ok a { t with stack := st } := by
  rw [run_eq]
  simp only [make, h]

theorem Move.run_of_error {cause : Violation} (h : m.act t.limit t.stack = .error cause) :
    m.run t = .error cause { t with log := t.log ++ cause.lines t.level } := by
  rw [run_eq]
  simp only [make, h]

/-- A move that is made changes the open containers alone. -/
theorem Move.run_eq_ok {a : Answer} (h : m.run t = .ok a t') :
    ∃ st, m.act t.limit t.stack = .ok (a, st) ∧ t' = { t with stack := st } := by
  cases hact : m.act t.limit t.stack with
  | error cause =>
      rw [run_of_error hact] at h
      cases h
  | ok r =>
      rw [run_of_ok hact] at h
      cases h
      exact ⟨r.2, rfl, rfl⟩

theorem Move.run_eq_error {cause : Violation} (h : m.run t = .error cause t') :
    m.act t.limit t.stack = .error cause ∧
      t' = { t with log := t.log ++ cause.lines t.level } := by
  cases hact : m.act t.limit t.stack with
  | error cause' =>
      rw [run_of_error hact] at h
      cases h
      exact ⟨rfl, rfl⟩
  | ok r =>
      rw [run_of_ok hact] at h
      cases h

/-- The limit refuses a move just if the move opens a container where the limit is reached. -/
theorem Move.act_eq_tooDeep_iff {limit : Option Int} {st : Stack} {n : Int} :
    m.act limit st = .error (.tooDeep n) ↔
      ∃ kind, m = .push kind ∧ limit = some n ∧ n ≤ st.level := by
  cases m with
  | value => exact iff_of_false (fun h => st.value_ne_tooDeep n (map_eq_error h)) nofun
  | key => exact iff_of_false (fun h => st.key_ne_tooDeep n (map_eq_error h)) nofun
  | chunk => exact iff_of_false (fun h => st.chunk_ne_tooDeep n (map_eq_error h)) nofun
  | pop => exact iff_of_false (fun h => st.pop_ne_tooDeep n (map_eq_error h)) nofun
  | push kind =>
      constructor
      · intro h
        have hpush := map_eq_error h
        unfold Stack.push at hpush
        split at hpush
        · split at hpush
          · cases hpush
            exact ⟨kind, rfl, rfl, ‹_›⟩
          · exact absurd (map_eq_error hpush) (st.value_ne_tooDeep n)
        · exact absurd (map_eq_error hpush) (st.value_ne_tooDeep n)
      · rintro ⟨_, ⟨⟩, rfl, hle⟩
        have hdeep : Stack.push (some n) kind st = .error (.tooDeep n) := if_pos hle
        rw [act, hdeep]
        rfl

/-- A refused move fails with its violation, unless it opens a container under a limit without a
numeral. -/
theorem Move.fault_of_refused {cause : Violation} (h : m.run t = .error cause t')
    (hpush : ∀ kind n, m = .push kind → t.limit = some n → n ≤ t.level →
      (Numeral.ofInt? n).isSome) :
    cause.fault = .nesting cause ∧ t'.log = t.log ++ [.violation t.level cause] := by
  obtain ⟨hact, rfl⟩ := run_eq_error h
  have hsaid : cause.message?.isSome := by
    rw [Violation.isSome_message?_iff]
    rintro n rfl
    obtain ⟨kind, hm, hlimit, hle⟩ := act_eq_tooDeep_iff.1 hact
    exact hpush kind n hm hlimit hle
  exact ⟨if_pos hsaid, congrArg (t.log ++ ·) (if_pos hsaid)⟩

def Move.outcome (m : Move) (t : Tracker) : Except Violation Answer × Tracker :=
  match m.run t with
  | .ok a t' => (.ok a, t')
  | .error cause t' => (.error cause, t')

def runAll (t : Tracker) (moves : List Move) : Tracker :=
  moves.foldl (fun t m => (m.outcome t).2) t

/-- What moves answer that are tried one by one. -/
def answers (t : Tracker) : List Move → List (Except Violation Answer)
  | [] => []
  | m :: rest => (m.outcome t).1 :: answers (m.outcome t).2 rest

/-- Those of the moves that are made. -/
def made (t : Tracker) : List Move → List Move
  | [] => []
  | m :: rest =>
    match m.run t with
    | .ok _ t' => m :: made t' rest
    | .error _ t' => made t' rest

def Move.next? (st : Stack) (m : Move) : Option Stack :=
  (m.act none st).toOption.map (·.2)

/-- The open containers after moves all of which are allowed where no limit is set. -/
def replay? (st : Stack) (moves : List Move) : Option Stack := moves.foldlM Move.next? st

theorem replay?_cons (st : Stack) (m : Move) (rest : List Move) :
    replay? st (m :: rest) = (m.next? st).bind (replay? · rest) := rfl

theorem replay?_append (st : Stack) (u w : List Move) :
    replay? st (u ++ w) = (replay? st u).bind (replay? · w) := List.foldlM_append

theorem replay?_concat (st : Stack) (u : List Move) (m : Move) :
    replay? st (u ++ [m]) = (replay? st u).bind m.next? := by
  rw [replay?_append]
  congr 1
  funext st
  rw [replay?_cons]
  exact Option.bind_fun_some (m.next? st)

/-- A move is made if it is allowed without a limit, and if there is room for what it opens. -/
theorem Move.act_eq_ok_iff {limit : Option Int} {st : Stack} {r : Answer × Stack} :
    m.act limit st = .ok r ↔ m.act none st = .ok r ∧
      ∀ kind n, m = .push kind → limit = some n → (st.level : Int) < n := by
  cases m with
  | push kind =>
      cases limit with
      | none => exact ⟨fun h => ⟨h, nofun⟩, fun h => h.1⟩
      | some n =>
          by_cases hle : n ≤ st.level
          · have hdeep : Stack.push (some n) kind st = .error (.tooDeep n) := if_pos hle
            simp only [act, hdeep]
            refine ⟨nofun, ?_⟩
            rintro ⟨-, hroom⟩
            have hlt := hroom kind n rfl rfl
            omega
          · have hroom : Stack.push (some n) kind st = Stack.push none kind st := if_neg hle
            simp only [act, hroom]
            refine ⟨fun h => ⟨h, ?_⟩, fun h => h.1⟩
            intro _ n' _ hn'
            cases hn'
            omega
  | value | key | chunk | pop => exact ⟨fun h => ⟨h, nofun⟩, fun h => h.1⟩

theorem Move.next?_of_act {limit : Option Int} {st : Stack} {r : Answer × Stack}
    (h : m.act limit st = .ok r) : m.next? st = some r.2 := by
  unfold next?
  rw [(act_eq_ok_iff.1 h).1]
  rfl

/-- What the moves that are allowed do to the open containers. -/
inductive Move.Makes : Move → Stack → Stack → Prop
  | value {st st' sep} : Stack.value st = .ok (sep, st') → Makes .value st st'
  | key {st st' sep} : Stack.key st = .ok (sep, st') → Makes .key st st'
  | chunk {st st'} : Stack.chunk st = .ok ((), st') → Makes .chunk st st'
  | push {st st' sep} (kind : FrameKind) : Stack.value st = .ok (sep, st') →
      Makes (.push kind) st ({ kind } :: st')
  | pop {st st' f} : Stack.pop st = .ok (f, st') → Makes .pop st st'

theorem Move.act_makes {st : Stack} {r : Answer × Stack} (h : m.act none st = .ok r) :
    m.Makes st r.2 := by
  cases m with
  | value =>
      obtain ⟨x, hx, rfl⟩ := map_eq_ok h
      exact .value hx
  | key =>
      obtain ⟨x, hx, rfl⟩ := map_eq_ok h
      exact .key hx
  | chunk =>
      obtain ⟨x, hx, rfl⟩ := map_eq_ok h
      exact .chunk hx
  | push kind =>
      obtain ⟨x, hx, rfl⟩ := map_eq_ok h
      obtain ⟨y, hy, rfl⟩ := map_eq_ok hx
      exact .push kind hy
  | pop =>
      obtain ⟨x, hx, rfl⟩ := map_eq_ok h
      exact .pop hx

theorem Move.Makes.next? {st st' : Stack} (h : m.Makes st st') : m.next? st = some st' := by
  unfold Move.next?
  cases h with
  | value h | key h | chunk h | pop h =>
      simp only [act, h]
      rfl
  | push kind h =>
      simp only [act, Stack.push, Stack.push.opened, h]
      rfl

theorem Move.act_of_next? {st st' : Stack} (h : m.next? st = some st') :
    ∃ a, m.act none st = .ok (a, st') := by
  unfold next? at h
  cases hact : m.act none st with
  | error cause =>
      rw [hact] at h
      cases h
  | ok r =>
      rw [hact] at h
      cases h
      exact ⟨r.1, rfl⟩

theorem Move.next?_eq_some_iff {st st' : Stack} : m.next? st = some st' ↔ m.Makes st st' := by
  refine ⟨fun h => ?_, Makes.next?⟩
  obtain ⟨a, hact⟩ := act_of_next? h
  exact act_makes hact

/-- A run leaves the limit as it is, and the open containers that its made moves lead to. -/
theorem runAll_made (t : Tracker) (moves : List Move) :
    (t.runAll moves).limit = t.limit ∧
      replay? t.stack (t.made moves) = some (t.runAll moves).stack := by
  induction moves generalizing t with
  | nil => exact ⟨rfl, rfl⟩
  | cons m rest ih =>
      unfold runAll made
      rw [List.foldl_cons]
      unfold Move.outcome
      cases hact : m.act t.limit t.stack with
      | ok r =>
          rw [Move.run_of_ok hact]
          obtain ⟨hlimit, hreplay⟩ := ih { t with stack := r.2 }
          refine ⟨hlimit, ?_⟩
          rw [replay?_cons, Move.next?_of_act hact]
          exact hreplay
      | error cause =>
          rw [Move.run_of_error hact]
          exact ih _

end JsonWriter.Tracker
