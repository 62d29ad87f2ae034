import JsonWriter.Proofs.Json.ScalarText
import JsonWriter.Proofs.Json.StringLiteral

/-! Quoted texts decode back, and the bodies that escaping writes are those that are put together
from three kinds of units. -/
namespace JsonWriter

namespace Json

/-- Reads a string literal with its quotes. -/
def readLiteral? : List Char → Option (List Char × List Char)
  | '"' :: rest => readString? rest
  | _ => none

end Json

namespace Text

def shortForms : List (Char × Char) :=
  [('"', '"'), ('\\', '\\'), ('/', '/'), ('b', '\x08'), ('f', '\x0c'), ('n', '\n'), ('r', '\r'),
    ('t', '\t')]

def lowercaseHex : List Char :=
  ['0', '1', '2', '3', '4', '5', '6', '7', '8', '9', 'a', 'b', 'c', 'd', 'e', 'f']

/-- The units of which escaped texts consist, and the character that each stands for. -/
inductive EscapeUnit : List Char → Char → Prop
  | plain {c} : 0x20 ≤ c.toNat → c.toNat ≠ 0x7f → c ∉ ['"', '\\', '/'] → EscapeUnit [c] c
  | short {letter c} : (letter, c) ∈ shortForms → EscapeUnit ['\\', letter] c
  | code {c high low} : c.toNat < 0x20 ∨ c.toNat = 0x7f →
      (∀ letter, (letter, c) ∉ shortForms) → lowercaseHex[c.toNat / 16]? = some high →
      lowercaseHex[c.toNat % 16]? = some low → EscapeUnit ['\\', 'u', '0', '0', high, low] c

/-- A text is split into units, which stand for some characters. -/
structure Splits (t : List Char) (units : List (List Char)) (cs : List Char) : Prop where
  each : List.Forall₂ EscapeUnit units cs
  whole : units.flatten = t

section Units

variable {u t cs cs' : List Char} {units units' : List (List Char)} {c letter : Char}

theorem shortForm?_eq_some_iff : shortForm? c = some letter ↔ (letter, c) ∈ shortForms := by
  constructor
  · intro h
    unfold shortForm? at h
    split at h
    all_goals cases h
    all_goals decide
  · intro h
    simp only [shortForms, List.mem_cons, Prod.mk.injEq, List.not_mem_nil, or_false] at h
    rcases h with ⟨rfl, rfl⟩ | ⟨rfl, rfl⟩ | ⟨rfl, rfl⟩ | ⟨rfl, rfl⟩ | ⟨rfl, rfl⟩ | ⟨rfl, rfl⟩ |
      ⟨rfl, rfl⟩ | ⟨rfl, rfl⟩
    all_goals rfl

theorem shortForm?_eq_none_iff : shortForm? c = none ↔ ∀ letter, (letter, c) ∉ shortForms := by
  rw [Option.eq_none_iff_forall_ne_some]
  exact forall_congr' fun letter => not_congr shortForm?_eq_some_iff

theorem isControl_iff : isControl c = true ↔ c.toNat < 0x20 ∨ c.toNat = 0x7f := by
  unfold isControl
  rw [Bool.or_eq_true, decide_eq_true_eq, beq_iff_eq]

theorem lowercaseHex_eq : ∀ n < 16, lowercaseHex[n]? = some (Nat.digitChar n) := by decide

/-- Above the controls only the quote, the backslash and the slash have a short form. -/
theorem shortForm?_of_plain (hspace : 0x20 ≤ c.toNat) (hc : c ∉ ['"', '\\', '/']) :
    shortForm? c = none := by
  rw [shortForm?_eq_none_iff]
  intro letter h
  simp only [shortForms, List.mem_cons, Prod.mk.injEq, List.not_mem_nil, or_false] at h hc
  rcases h with h | h | h | ⟨-, rfl⟩ | ⟨-, rfl⟩ | ⟨-, rfl⟩ | ⟨-, rfl⟩ | ⟨-, rfl⟩
  · exact hc (.inl h.2)
  · exact hc (.inr (.inl h.2))
  · exact hc (.inr (.inr h.2))
  all_goals exact absurd hspace (by decide)

/-- Each character has one unit. -/
theorem escapeUnit_iff : EscapeUnit u c ↔ u = escapeChar c := by
  constructor
  · intro h
    unfold escapeChar
    cases h with
    | plain hspace hdel hc =>
        have hcontrol : ¬isControl c = true := by
          rw [isControl_iff]
          omega
        rw [shortForm?_of_plain hspace hc]
        dsimp only
        rw [if_neg hcontrol]
    | short h => rw [shortForm?_eq_some_iff.2 h]
    | code hcontrol hshort hhigh hlow =>
        rw [lowercaseHex_eq _ (by omega)] at hhigh hlow
        cases hhigh
        cases hlow
        rw [shortForm?_eq_none_iff.2 hshort]
        dsimp only
        rw [if_pos (isControl_iff.2 hcontrol)]
  · rintro rfl
    unfold escapeChar
    split
    · rename_i letter h
      exact .short (shortForm?_eq_some_iff.1 h)
    · rename_i hshort
      split
      · rename_i hcontrol
        rw [isControl_iff] at hcontrol
        exact .code hcontrol (shortForm?_eq_none_iff.1 hshort) (lowercaseHex_eq _ (by omega))
          (lowercaseHex_eq _ (by omega))
      · rename_i hcontrol
        rw [isControl_iff] at hcontrol
        refine .plain (by omega) (by omega) ?_
        intro hc
        simp only [List.mem_cons, List.not_mem_nil, or_false] at hc
        rcases hc with rfl | rfl | rfl
        all_goals cases hshort

theorem forall₂_escapeUnit_iff : List.Forall₂ EscapeUnit units cs ↔ units = cs.map escapeChar := by
  constructor
  · intro h
    induction h with
    | nil => rfl
    | cons hunit _ ih => rw [List.map_cons, escapeUnit_iff.1 hunit, ih]
  · rintro rfl
    induction cs with
    | nil => exact .nil
    | cons c cs ih => exact .cons (escapeUnit_iff.2 rfl) ih

/-- A text is split in the one way in which escaping writes it. -/
theorem splits_iff : Splits t units cs ↔ t = cs.flatMap escapeChar ∧ units = cs.map escapeChar := by
  constructor
  · rintro ⟨heach, rfl⟩
    obtain rfl := forall₂_escapeUnit_iff.1 heach
    exact ⟨rfl, rfl⟩
  · rintro ⟨rfl, rfl⟩
    exact ⟨forall₂_escapeUnit_iff.2 rfl, rfl⟩

theorem Splits.chars (h : Splits t units cs) : Json.Chars t cs := by
  rw [(splits_iff.1 h).1]
  exact Json.chars_flatMap_escapeChar cs

theorem Splits.unique (h : Splits t units cs) (h' : Splits t units' cs') :
    units = units' ∧ cs = cs' := by
  obtain rfl := h.chars.unique h'.chars
  exact ⟨(splits_iff.1 h).2.trans (splits_iff.1 h').2.symm, rfl⟩

theorem splits_escape (s : String) :
    Splits (escape s).toList (s.toList.map escapeChar) s.toList :=
  splits_iff.2 ⟨toList_escape s, rfl⟩

theorem Splits.eq_escape {t : String} (h : Splits t.toList units cs) :
    t = escape (String.ofList cs) := by
  apply String.toList_inj.1
  rw [toList_escape, String.toList_ofList]
  exact (splits_iff.1 h).1

end Units

section Unescaped

theorem escapeChar_eq_or (c : Char) : escapeChar c = [c] ∨ 2 ≤ (escapeChar c).length := by
  unfold escapeChar
  split
  · exact .inr le_rfl
  · split
    · exact .inr (by simp)
    · exact .inl rfl

theorem length_le_flatMap_escapeChar (cs : List Char) :
    cs.length ≤ (cs.flatMap escapeChar).length := by
  induction cs with
  | nil => exact le_rfl
  | cons c cs ih =>
      rw [List.flatMap_cons, List.length_append, List.length_cons]
      rcases escapeChar_eq_or c with h | h
      · rw [h, List.length_singleton]
        omega
      · omega

/-- Only units of one character leave a text as long as it was. -/
theorem flatMap_escapeChar_eq_self_iff {cs : List Char} :
    cs.flatMap escapeChar = cs ↔ ∀ c ∈ cs, escapeChar c = [c] := by
  induction cs with
  | nil => exact iff_of_true rfl nofun
  | cons c cs ih =>
      rw [List.flatMap_cons, List.forall_mem_cons, ← ih]
      rcases escapeChar_eq_or c with h | h
      · rw [h, List.singleton_append, List.cons_inj_right]
        exact (and_iff_right rfl).symm
      · have hlength := length_le_flatMap_escapeChar cs
        apply iff_of_false
        · intro heq
          have := congrArg List.length heq
          rw [List.length_append, List.length_cons] at this
          omega
        · rintro ⟨hone, -⟩
          simp [hone] at h

end Unescaped

open Json

/-- Quoted texts decode back and end where they should. With any text after it a quoted text is read
as a string literal that ends with it and denotes the text, and there is no other literal at its
place. Escaped are just those texts that are split into units, in one way, and what the units stand
for is what was escaped. A text stays as it is just if each of its characters is a unit itself. -/
theorem quote_decodes (s t : String) (r : List Char) :
    readLiteral? ((quote s).toList ++ r) = some (s.toList, r) ∧
    (∀ body cs rest, Chars body cs → (quote s).toList ++ r = '"' :: (body ++ '"' :: rest) →
      body = (escape s).toList ∧ cs = s.toList ∧ rest = r) ∧
    ((∃ s, t = escape s) ↔ ∃ units cs, Splits t.toList units cs) ∧
    (∀ units units' cs cs', Splits t.toList units cs → Splits t.toList units' cs' →
      units = units' ∧ cs = cs') ∧
    (∀ units cs, Splits t.toList units cs → (t = escape s ↔ cs = s.toList)) ∧
    (escape s = s ↔ ∀ c ∈ s.toList, EscapeUnit [c] c) := by
  have hread := (chars_escape s).read r
  have hquoted : (quote s).toList ++ r = '"' :: ((escape s).toList ++ '"' :: r) := by
    rw [toList_quote, List.cons_append, List.append_assoc, List.singleton_append]
  rw [hquoted]
  refine ⟨hread, ?_, ?_, fun _ _ _ _ h h' => h.unique h', ?_, ?_⟩
  · intro body cs rest hbody heq
    have heq := (List.cons.inj heq).2
    have hbody := hbody.read rest
    rw [← heq, hread] at hbody
    obtain ⟨rfl, rfl⟩ := Prod.mk.inj (Option.some.inj hbody)
    exact ⟨(List.append_cancel_right heq).symm, rfl, rfl⟩
  · constructor
    · rintro ⟨s, rfl⟩
      exact ⟨_, _, splits_escape s⟩
    · rintro ⟨units, cs, h⟩
      exact ⟨_, h.eq_escape⟩
  · intro units cs h
    constructor
    · rintro rfl
      exact (h.unique (splits_escape s)).2
    · rintro rfl
      rw [h.eq_escape, String.ofList_toList]
  · rw [← String.toList_inj, toList_escape, flatMap_escapeChar_eq_self_iff]
    refine forall₂_congr fun c _ => ?_
    rw [escapeUnit_iff, eq_comm]

/-- A run of backslashes before a quote: each of the three characters is one unit. -/
example : (quote "\\\\\"").toList = ['"', '\\', '\\', '\\', '\\', '\\', '"', '"'] := by decide

end Text
end JsonWriter
