import JsonWriter.Proofs.Json.Grammar
import JsonWriter.Nesting.Stack
import JsonWriter.Text.Basic

/-! The tokens from which a document is written: a whole value, the start and the end of a
container, a key, a piece of a string. A row of tokens that spells a value spells no other one. -/
namespace JsonWriter

inductive Token where
  | value (v : Json)
  | start (kind : FrameKind)
  | chunk (s : String)
  | finish
  | key (k : String)

mutual

/-- A row of tokens spells a value: items, members and pieces stand between the start and the end of
their container, and every key stands right before its value. -/
inductive Spells : List Token → Json → Prop
  | value (v : Json) : Spells [.value v] v
  | array {body items} : SpellsItems body items →
      Spells (.start .array :: (body ++ [.finish])) (.array items)
  | object {body members} : SpellsMembers body members →
      Spells (.start .object :: (body ++ [.finish])) (.object members)
  | string (chunks : List String) :
      Spells (.start .string :: (chunks.map .chunk ++ [.finish])) (.string (String.join chunks))

inductive SpellsItems : List Token → List Json → Prop
  | nil : SpellsItems [] []
  | cons {toks v rest vs} : Spells toks v → SpellsItems rest vs →
      SpellsItems (toks ++ rest) (v :: vs)

inductive SpellsMembers : List Token → List (String × Json) → Prop
  | nil : SpellsMembers [] []
  | cons {k toks v rest ms} : Spells toks v → SpellsMembers rest ms →
      SpellsMembers (.key k :: (toks ++ rest)) ((k, v) :: ms)

end

theorem SpellsItems.concat {body toks : List Token} {vs : List Json} {v : Json}
    (h : SpellsItems body vs) (hv : Spells toks v) : SpellsItems (body ++ toks) (vs ++ [v]) :=
  match h with
  | .nil => by
    have hone := SpellsItems.cons hv .nil
    rwa [List.append_nil] at hone
  | .cons hfirst hrest => by
    rw [List.append_assoc]
    exact .cons hfirst (hrest.concat hv)

theorem SpellsMembers.concat {body toks : List Token} {ms : List (String × Json)} {k : String}
    {v : Json} (h : SpellsMembers body ms) (hv : Spells toks v) :
    SpellsMembers (body ++ .key k :: toks) (ms ++ [(k, v)]) :=
  match h with
  | .nil => by
    have hone := SpellsMembers.cons (k := k) hv .nil
    rwa [List.append_nil] at hone
  | .cons hfirst hrest => by
    rw [List.cons_append, List.append_assoc]
    exact .cons hfirst (hrest.concat hv)

theorem Spells.head {toks : List Token} {v : Json} (h : Spells toks v) :
    ∃ tok rest, toks = tok :: rest ∧ tok ≠ .finish ∧ ∀ k, tok ≠ .key k := by
  cases h with
  | value v => exact ⟨.value v, [], rfl, nofun, nofun⟩
  | array hbody => exact ⟨.start .array, _, rfl, nofun, nofun⟩
  | object hbody => exact ⟨.start .object, _, rfl, nofun, nofun⟩
  | string chunks => exact ⟨.start .string, _, rfl, nofun, nofun⟩

theorem chunks_unique {cs cs' : List String} {r r' : List Token}
    (h : cs.map Token.chunk ++ .finish :: r = cs'.map Token.chunk ++ .finish :: r') :
    cs = cs' ∧ r = r' := by
  induction cs generalizing cs' with
  | nil =>
      cases cs' with
      | nil => exact ⟨rfl, (List.cons.inj h).2⟩
      | cons c' cs' => exact absurd (List.cons.inj h).1 nofun
  | cons c cs ih =>
      cases cs' with
      | nil => exact absurd (List.cons.inj h).1 nofun
      | cons c' cs' =>
          obtain ⟨hc, hrest⟩ := List.cons.inj h
          obtain ⟨hcs, hr⟩ := ih hrest
          exact ⟨by rw [Token.chunk.inj hc, hcs], hr⟩

mutual

/-- A row of tokens begins with at most one value. -/
theorem Spells.unique {toks toks' : List Token} {v v' : Json} {r r' : List Token} :
    Spells toks v → Spells toks' v' → toks ++ r = toks' ++ r' → v = v' ∧ r = r'
  | .value v, h', heq => by
    cases h' with
    | value v' =>
        obtain ⟨hv, hr⟩ := List.cons.inj heq
        exact ⟨Token.value.inj hv, hr⟩
    | _ => exact absurd (List.cons.inj heq).1 nofun
  | .array hbody, h', heq => by
    cases h' with
    | array hbody' =>
        simp only [List.cons_append, List.append_assoc] at heq
        have hrest := (List.cons.inj heq).2
        obtain ⟨hvs, hr⟩ := hbody.unique hbody' hrest
        exact ⟨by rw [hvs], hr⟩
    | _ => exact absurd (List.cons.inj heq).1 nofun
  | .object hbody, h', heq => by
    cases h' with
    | object hbody' =>
        simp only [List.cons_append, List.append_assoc] at heq
        have hrest := (List.cons.inj heq).2
        obtain ⟨hms, hr⟩ := hbody.unique hbody' hrest
        exact ⟨by rw [hms], hr⟩
    | _ => exact absurd (List.cons.inj heq).1 nofun
  | .string chunks, h', heq => by
    cases h' with
    | string chunks' =>
        simp only [List.cons_append, List.append_assoc] at heq
        have hrest := (List.cons.inj heq).2
        obtain ⟨hcs, hr⟩ := chunks_unique hrest
        exact ⟨by rw [hcs], hr⟩
    | _ => exact absurd (List.cons.inj heq).1 nofun

theorem SpellsItems.unique {body body' : List Token} {vs vs' : List Json} {r r' : List Token} :
    SpellsItems body vs → SpellsItems body' vs' →
      body ++ .finish :: r = body' ++ .finish :: r' → vs = vs' ∧ r = r'
  | .nil, h', heq => by
    cases h' with
    | nil => exact ⟨rfl, (List.cons.inj heq).2⟩
    | cons hfirst' hrest' =>
        obtain ⟨tok, rest, rfl, hfinish, -⟩ := hfirst'.head
        exact absurd (List.cons.inj heq).1.symm hfinish
  | .cons hfirst hrest, h', heq => by
    cases h' with
    | nil =>
        obtain ⟨tok, rest, rfl, hfinish, -⟩ := hfirst.head
        exact absurd (List.cons.inj heq).1 hfinish
    | cons hfirst' hrest' =>
        rw [List.append_assoc, List.append_assoc] at heq
        obtain ⟨hv, htail⟩ := hfirst.unique hfirst' heq
        obtain ⟨hvs, hr⟩ := hrest.unique hrest' htail
        exact ⟨by rw [hv, hvs], hr⟩

theorem SpellsMembers.unique {body body' : List Token} {ms ms' : List (String × Json)}
    {r r' : List Token} : SpellsMembers body ms → SpellsMembers body' ms' →
      body ++ .finish :: r = body' ++ .finish :: r' → ms = ms' ∧ r = r'
  | .nil, h', heq => by
    cases h' with
    | nil => exact ⟨rfl, (List.cons.inj heq).2⟩
    | cons _ _ => exact absurd (List.cons.inj heq).1 nofun
  | .cons hfirst hrest, h', heq => by
    cases h' with
    | nil => exact absurd (List.cons.inj heq).1 nofun
    | cons hfirst' hrest' =>
        simp only [List.cons_append, List.append_assoc] at heq
        obtain ⟨hk, htail⟩ := List.cons.inj heq
        obtain ⟨hv, htail⟩ := hfirst.unique hfirst' htail
        obtain ⟨hms, hr⟩ := hrest.unique hrest' htail
        exact ⟨by rw [Token.key.inj hk, hv, hms], hr⟩

end

theorem Spells.value_eq {toks : List Token} {v v' : Json} (h : Spells toks v)
    (h' : Spells toks v') : v = v' := by
  have heq : toks ++ [] = toks ++ [] := rfl
  exact (h.unique h' heq).1

namespace Json

/-- The two ways to read a text as a value: with space around it, or with none. -/
def Reads (spaced : Bool) (t : List Char) (v : Json) : Prop :=
  if spaced then Spaced t v else Denotes t v

theorem Denotes.reads {t : List Char} {v : Json} (h : Denotes t v) (spaced : Bool) :
    Reads spaced t v := by
  cases spaced with
  | true => exact h.spaced
  | false => exact h

theorem Reads.spaced {t : List Char} {v : Json} {spaced : Bool} (h : Reads spaced t v) :
    Spaced t v := by
  cases spaced with
  | true => exact h
  | false => exact Denotes.spaced h

end Json

/-- A token is written where a stack allows it: the stack afterwards, and the text. -/
inductive Adds (spaced : Bool) : Token → Stack → Stack → List Char → Prop
  | value {st st' : Stack} {sep u v} : st.value = .ok (sep, st') → Json.Reads spaced u v →
      Adds spaced (.value v) st st' (sep.text.toList ++ u)
  | start {st st' : Stack} {sep} (kind : FrameKind) : st.value = .ok (sep, st') →
      Adds spaced (.start kind) st ({ kind } :: st') (sep.text.toList ++ kind.opener.toList)
  | chunk {st st' : Stack} (s : String) : st.chunk = .ok ((), st') →
      Adds spaced (.chunk s) st st' (Text.escape s).toList
  | finish {st st' : Stack} {f} : st.pop = .ok (f, st') →
      Adds spaced .finish st st' f.kind.closer.toList
  | key {st st' : Stack} {sep} (k : String) : st.key = .ok (sep, st') →
      Adds spaced (.key k) st st' (sep.text.toList ++ ((Text.quote k).toList ++ [':']))

/-- Tokens are written one after another. While one is written, at least as many containers are open
as the floor says. -/
inductive Writes (spaced : Bool) (floor : Nat) : List Token → Stack → Stack → List Char → Prop
  | nil (st : Stack) : Writes spaced floor [] st st []
  | cons {tok toks} {st st₁ st' : Stack} {out out'} : floor ≤ st.level →
      Adds spaced tok st st₁ out → Writes spaced floor toks st₁ st' out' →
      Writes spaced floor (tok :: toks) st st' (out ++ out')

namespace Writes

variable {spaced : Bool} {floor : Nat} {toks toks' : List Token} {st st₁ st' : Stack}
  {out out' : List Char}

theorem one {tok : Token} (hfloor : floor ≤ st.level) (h : Adds spaced tok st st' out) :
    Writes spaced floor [tok] st st' out := by
  have hone := Writes.cons hfloor h (.nil st')
  rwa [List.append_nil] at hone

theorem append (h : Writes spaced floor toks st st₁ out)
    (h' : Writes spaced floor toks' st₁ st' out') :
    Writes spaced floor (toks ++ toks') st st' (out ++ out') := by
  induction h with
  | nil st => exact h'
  | cons hfloor hadds _ ih =>
      rw [List.append_assoc]
      exact .cons hfloor hadds (ih h')

theorem mono {floor' : Nat} (hle : floor' ≤ floor) (h : Writes spaced floor toks st st' out) :
    Writes spaced floor' toks st st' out := by
  induction h with
  | nil st => exact .nil st
  | cons hfloor hadds _ ih => exact .cons (hle.trans hfloor) hadds ih

end Writes
end JsonWriter
