import JsonWriter.Proofs.Document.Number
import JsonWriter.Proofs.Results

/-! Literals of a settings document. The values of settings are nulls, strings and integers; those
are read just where the grammar has their literals. -/
namespace JsonWriter.Document

open Json (Chars Whole Stops lowEscape? lowEscape?_append lowEscape?_eq_some_iff)

/-! String literals. -/

/-- A low surrogate is found where the grammar has one, if something follows it. -/
theorem lowSurrogate?_eq_some {s rest : List Char} {n : Nat}
    (h : lowSurrogate? s = .ok (some (n, rest))) : lowEscape? s = some (n, rest) := by
  unfold lowSurrogate? at h
  split at h
  · split at h
    · cases h
    · rename_i m hq
      split at h
      · rename_i hlow
        cases h
        exact lowEscape?_eq_some_iff.2 ⟨_, _, _, _, rfl, hq, hlow⟩
      · cases h
  · cases h

theorem lowSurrogate?_append {t t' : List Char} {n : Nat} (h : lowEscape? t = some (n, t'))
    (r : List Char) : lowSurrogate? (t ++ '"' :: r) = .ok (some (n, t' ++ '"' :: r)) := by
  obtain ⟨a, b, c, d, rfl, hq, hlow⟩ := lowEscape?_eq_some_iff.1 h
  cases t' with
  | nil => simp [lowSurrogate?, hq, hlow]
  | cons next t' => simp [lowSurrogate?, hq, hlow]

theorem isLowSurrogate_of_none {a b c d : Char} {rest : List Char} {n : Nat}
    (hq : quad? a b c d = some n)
    (h : lowEscape? ('\\' :: 'u' :: a :: b :: c :: d :: rest) = none) :
    isLowSurrogate n = false := by
  rw [Bool.eq_false_iff]
  intro hlow
  have hfound : lowEscape? ('\\' :: 'u' :: a :: b :: c :: d :: rest) = some (n, rest) :=
    lowEscape?_eq_some_iff.2 ⟨a, b, c, d, rfl, hq, hlow⟩
  rw [hfound] at h
  cases h

/-- In front of a closing quote none is found where the grammar has none. -/
theorem lowSurrogate?_eq_none {t text : List Char} (h : Chars t text)
    (hnone : lowEscape? t = none) (r : List Char) :
    lowSurrogate? (t ++ '"' :: r) = .ok none := by
  cases h with
  | nil => rfl
  | plain _ hquote hslash _ =>
      unfold lowSurrogate?
      split
      · rename_i heq
        exact absurd (List.cons.inj heq).1 hslash
      · rfl
  | short hc _ =>
      unfold lowSurrogate?
      split
      · rename_i heq
        rw [(List.cons.inj (List.cons.inj heq).2).1] at hc
        cases hc
      · rfl
  | @code a b c d n t s hq _ _ =>
      have hlow := isLowSurrogate_of_none hq hnone
      cases t <;> simp [lowSurrogate?, hq, hlow]
  | @pair a b c d high low t rest s hq _ _ _ =>
      have hlow := isLowSurrogate_of_none hq hnone
      cases t <;> simp [lowSurrogate?, hq, hlow]

theorem chars_of_readCode {s t text r : List Char} {c : Char}
    (h : readCode s = .ok (c, t ++ '"' :: r)) (ht : Chars t text) :
    ∃ u, Chars ('\\' :: 'u' :: u) (c :: text) ∧ s = u ++ '"' :: r := by
  unfold readCode at h
  split at h
  · rename_i a b c d next rest
    split at h
    · cases h
    · rename_i n hq
      split at h
      · rename_i hhigh
        cases hlow : lowSurrogate? (next :: rest) with
        | error e =>
            rw [hlow] at h
            cases h
        | ok found =>
            rw [hlow] at h
            cases found with
            | some found =>
                obtain ⟨low, rest'⟩ := found
                obtain ⟨hc, hrest⟩ := Prod.mk.inj (Except.ok.inj h)
                obtain ⟨e, f, g, k, hsplit, hq', hl⟩ :=
                  lowEscape?_eq_some_iff.1 (lowSurrogate?_eq_some hlow)
                have hpair : lowEscape? (['\\', 'u', e, f, g, k] ++ t) = some (low, t) :=
                  lowEscape?_eq_some_iff.2 ⟨e, f, g, k, rfl, hq', hl⟩
                rw [← hc]
                refine ⟨_, .pair hq hhigh hpair ht, ?_⟩
                rw [hsplit, hrest]
                rfl
            | none =>
                obtain ⟨hc, hrest⟩ := Prod.mk.inj (Except.ok.inj h)
                rw [← hc]
                refine ⟨_, .code hq (fun _ => ?_) ht, ?_⟩
                · cases hl : lowEscape? t with
                  | none => rfl
                  | some p =>
                      rw [hrest, lowSurrogate?_append hl] at hlow
                      cases hlow
                · rw [hrest]
                  rfl
      · rename_i hhigh
        obtain ⟨hc, hrest⟩ := Prod.mk.inj (Except.ok.inj h)
        rw [← hc]
        refine ⟨_, .code hq (fun h => absurd h hhigh) ht, ?_⟩
        rw [hrest]
        rfl
  · cases h

theorem chars_of_readChar {s t text r : List Char} {c : Char}
    (h : readChar s = .ok (some c, t ++ '"' :: r)) (ht : Chars t text) :
    ∃ u, Chars u (c :: text) ∧ s = u ++ '"' :: r := by
  unfold readChar at h
  split at h
  · cases h
  · cases h
  · cases h
  · rename_i rest
    cases hcode : readCode rest with
    | error e =>
        rw [hcode] at h
        cases h
    | ok found =>
        obtain ⟨c', rest'⟩ := found
        rw [hcode] at h
        cases h
        obtain ⟨u, hu, rfl⟩ := chars_of_readCode hcode ht
        exact ⟨_, hu, rfl⟩
  · split at h
    · rename_i hc
      cases h
      exact ⟨_, .short hc ht, rfl⟩
    · cases h
  · rename_i hquote hslash hcode hescape
    split at h
    · cases h
    · rename_i hspace
      cases h
      refine ⟨_, .plain (Nat.not_lt.1 hspace) hquote ?_ ht, rfl⟩
      rintro rfl
      obtain ⟨first, rest, hrest⟩ := List.exists_cons_of_ne_nil
        (List.append_ne_nil_of_right_ne_nil t (List.cons_ne_nil '"' r))
      exact hescape first rest rfl hrest

theorem eq_of_readChar {s r : List Char} (h : readChar s = .ok (none, r)) : s = '"' :: r := by
  unfold readChar at h
  split at h
  · cases h
  · cases h
    rfl
  · cases h
  · rename_i rest
    cases hcode : readCode rest with
    | error e =>
        rw [hcode] at h
        cases h
    | ok found =>
        rw [hcode] at h
        cases h
  · split at h <;> cases h
  · split at h <;> cases h

theorem chars_of_readChars {bound : Nat} {s text r : List Char}
    (h : readChars bound s = .ok (text, r)) : ∃ t, Chars t text ∧ s = t ++ '"' :: r := by
  induction bound generalizing s text with
  | zero => cases h
  | succ bound ih =>
      unfold readChars at h
      obtain ⟨⟨c, rest⟩, hc, h⟩ := exists_of_bind_eq_ok h
      cases c with
      | none =>
          cases h
          exact ⟨[], .nil, eq_of_readChar hc⟩
      | some c =>
          obtain ⟨⟨text', r'⟩, hrest, h⟩ := exists_of_bind_eq_ok h
          cases h
          obtain ⟨t, ht, rfl⟩ := ih hrest
          exact chars_of_readChar hc ht

theorem readCode_of_lone {a b c d : Char} {s : List Char} {n : Nat} (hs : s ≠ [])
    (hq : quad? a b c d = some n) (hlone : isHighSurrogate n = true → lowSurrogate? s = .ok none) :
    readCode (a :: b :: c :: d :: s) = .ok (charOf n, s) := by
  cases s with
  | nil => exact absurd rfl hs
  | cons next s =>
      by_cases hhigh : isHighSurrogate n = true
      · simp only [readCode, hq, hhigh, if_true, hlone hhigh]
        rfl
      · simp only [readCode, hq, hhigh, Bool.false_eq_true, if_false]
        rfl

theorem readCode_of_pair {a b c d : Char} {s rest : List Char} {high low : Nat}
    (hq : quad? a b c d = some high) (hhigh : isHighSurrogate high = true)
    (hlow : lowSurrogate? s = .ok (some (low, rest))) :
    readCode (a :: b :: c :: d :: s) = .ok (joined high low, rest) := by
  cases s with
  | nil => cases hlow
  | cons next s =>
      simp only [readCode, hq, hhigh, if_true, hlow]
      rfl

theorem readChar_append {u text : List Char} (h : Chars u text) (r : List Char) :
    (u = [] ∧ text = []) ∨ ∃ c t rest, text = c :: t ∧ Chars rest t ∧ rest.length < u.length ∧
      readChar (u ++ '"' :: r) = .ok (some c, rest ++ '"' :: r) := by
  cases h with
  | nil => exact .inl ⟨rfl, rfl⟩
  | @plain c t s hspace hquote hslash ht =>
      refine .inr ⟨c, s, t, rfl, ht, Nat.lt_succ_self _, ?_⟩
      have hspace := Nat.not_lt.2 hspace
      simp [readChar, hslash, hspace]
  | @short letter c t s hc ht =>
      refine .inr ⟨c, s, t, rfl, ht, by simp, ?_⟩
      rw [List.cons_append, List.cons_append, readChar]
      · rw [hc]
      · simp
        rintro rfl
        cases hc
  | @code a b c d n t s hq hlone ht =>
      refine .inr ⟨_, s, t, rfl, ht, by simp; omega, ?_⟩
      have hcode : readCode (a :: b :: c :: d :: (t ++ '"' :: r)) = .ok (charOf n, t ++ '"' :: r) :=
        readCode_of_lone (by simp) hq fun hhigh => lowSurrogate?_eq_none ht (hlone hhigh) r
      rw [List.cons_append, List.cons_append, readChar, List.cons_append, List.cons_append,
        List.cons_append, List.cons_append, hcode]
      rfl
  | @pair a b c d high low t rest s hq hhigh hlow hrest =>
      refine .inr ⟨_, s, rest, rfl, hrest, ?_, ?_⟩
      · obtain ⟨e, f, g, k, rfl, -, -⟩ := lowEscape?_eq_some_iff.1 hlow
        simp
        omega
      · have hcode := readCode_of_pair hq hhigh (lowSurrogate?_append hlow r)
        rw [List.cons_append, List.cons_append, readChar, List.cons_append, List.cons_append,
          List.cons_append, List.cons_append, hcode]
        rfl

theorem readChars_append {bound : Nat} {t text : List Char} (h : Chars t text)
    (hb : t.length < bound) (r : List Char) :
    readChars bound (t ++ '"' :: r) = .ok (text, r) := by
  induction bound generalizing t text with
  | zero => exact absurd hb (Nat.not_lt_zero _)
  | succ bound ih =>
      rcases readChar_append h r with ⟨rfl, rfl⟩ | ⟨c, s, rest, rfl, hrest, hlen, hc⟩
      · rfl
      · unfold readChars
        rw [hc]
        simp only [bind, Except.bind]
        rw [ih hrest (by omega)]
        rfl

/-- Exactly the literals are read, each up to the quote that closes it. -/
theorem readString_eq_ok_iff {s text r : List Char} :
    readString s = .ok (text, r) ↔ ∃ t, Chars t text ∧ s = t ++ '"' :: r := by
  constructor
  · exact chars_of_readChars
  · rintro ⟨t, ht, rfl⟩
    exact readChars_append ht (by simp) r

/-! Integer literals, and the values that have no parts. -/

/-- The texts of nulls, strings and integers. The digits of an integer are at most as many as a
numeral may have. -/
inductive Literal : List Char → Value → Prop
  | null : Literal ['n', 'u', 'l', 'l'] .null
  | string {t s} : Chars t s → Literal ('"' :: (t ++ ['"'])) (.text (String.ofList s))
  | positive {t} : Whole t → t.length ≤ Numeral.maxDigits → Literal t (.int (Numeral.value t))
  | negative {t} : Whole t → t.length ≤ Numeral.maxDigits →
      Literal ('-' :: t) (.int (-(Numeral.value t : Int)))

inductive Plain : Value → Prop
  | null : Plain .null
  | text (s : String) : Plain (.text s)
  | int (n : Int) : Plain (.int n)

theorem closeObject_eq_ok {members : List (String × Value)} {v : Value}
    (h : closeObject members = .ok v) : repeated? [] (members.map (·.1)) = none ∧
      v = .mapping (members.map fun m => (.text m.1, m.2)) := by
  unfold closeObject at h
  split at h
  · cases h
  · rename_i hnone
    cases h
    exact ⟨hnone, rfl⟩

theorem literal_of_readScalar {s r : List Char} {v : Value} (h : readScalar s = .ok (v, r))
    (hv : Plain v) : ∃ t, Literal t v ∧ s = t ++ r := by
  have hreads := readScalar_reads s
  rw [h] at hreads
  cases hreads with
  | word _ hword =>
      cases hword with
      | null => exact ⟨_, .null, rfl⟩
      | true | false | notANumber | infinite _ => cases hv
  | @number negative _ _ hnumber =>
      cases hnumber with
      | integer _ ht hshort =>
          cases negative with
          | false => exact ⟨_, .positive ht hshort, rfl⟩
          | true => exact ⟨_, .negative ht hshort, rfl⟩
      | float _ _ _ _ _ => cases hv

/-- A value that has literals is read from one of them. -/
theorem literal_of_readValue {steps : Nat} {s r : List Char} {v : Value}
    (h : readValue steps s = .ok (v, r)) (hv : Plain v) : ∃ t, Literal t v ∧ s = t ++ r := by
  cases steps with
  | zero => cases h
  | succ steps =>
      unfold readValue at h
      split at h
      · obtain ⟨⟨text, rest⟩, hstring, h⟩ := exists_of_bind_eq_ok h
        cases h
        obtain ⟨t, ht, rfl⟩ := readString_eq_ok_iff.1 hstring
        exact ⟨_, .string ht, by simp⟩
      · split at h
        · cases h
          cases hv
        · obtain ⟨⟨members, rest⟩, -, h⟩ := exists_of_bind_eq_ok h
          obtain ⟨object, hclose, h⟩ := exists_of_bind_eq_ok h
          cases h
          rw [(closeObject_eq_ok hclose).2] at hv
          cases hv
      · split at h
        · cases h
          cases hv
        · obtain ⟨⟨items, rest⟩, -, h⟩ := exists_of_bind_eq_ok h
          cases h
          cases hv
      · exact literal_of_readScalar h hv

theorem Literal.read {t r : List Char} {v : Value} (h : Literal t v) (steps : Nat)
    (hr : Stops r) : readValue (steps + 1) (t ++ r) = .ok (v, r) := by
  have hends := endsInteger_of_stops hr
  cases h with
  | null => rfl
  | @string t s ht =>
      have hstring : readString (t ++ ['"'] ++ r) = .ok (s, r) :=
        readString_eq_ok_iff.2 ⟨t, ht, by simp⟩
      rw [List.cons_append, readValue, hstring]
      rfl
  | positive ht hshort =>
      have hread := readValue_integer steps false ht hends
      rwa [if_neg (Nat.not_lt.2 hshort)] at hread
  | negative ht hshort =>
      have hread := readValue_integer steps true ht hends
      rwa [if_neg (Nat.not_lt.2 hshort)] at hread

end JsonWriter.Document
