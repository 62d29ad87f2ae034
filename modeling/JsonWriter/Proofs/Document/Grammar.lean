import JsonWriter.Proofs.Settings.Object

/-! The language of documents, and what may occur while a text is looked at from left to right. Here
documents may repeat names and hold integers of any length; what is wrong with that occurs with the
last character of the object or of the integer. Everything else that is wrong is that a text cannot
go on to a document. -/
namespace JsonWriter.Document

open Json (Blank Chars Exponent Fraction NoDigit Stops Whole signed)

/-- The texts of values that are neither strings nor collections. -/
inductive Atom : List Char → Value → Prop
  | word {t v} : Word t v → Atom t v
  | integer {negative t} : Whole t →
      Atom (minus negative ++ t) (.int (signed negative (Numeral.value t : Int)))
  | float {negative whole fraction digits exponent e} : Whole whole → Fraction fraction digits →
      Exponent exponent e → fraction ++ exponent ≠ [] →
      Atom (minus negative ++ (whole ++ (fraction ++ exponent)))
        (readNumber.float negative whole digits e)

mutual

/-- A text is a value, with no space around it. -/
inductive Spells : List Char → Value → Prop
  | atom {t v} : Atom t v → Spells t v
  | string {t s} : Chars t s → Spells ('"' :: (t ++ ['"'])) (.text (String.ofList s))
  | emptyList {w} : Blank w → Spells ('[' :: (w ++ [']'])) (.list [])
  | list {t vs} : Items t vs → Spells ('[' :: (t ++ [']'])) (.list vs)
  | emptyObject {w} : Blank w → Spells ('\x7b' :: (w ++ ['\x7d'])) (.mapping [])
  | object {t ms} : Members t ms → Spells ('\x7b' :: (t ++ ['\x7d'])) (.mapping (entriesOf ms))

/-- A text is a value, with space around it or without. So are whole documents. -/
inductive Item : List Char → Value → Prop
  | mk {w t v w'} : Blank w → Spells t v → Blank w' → Item (w ++ (t ++ w')) v

inductive Items : List Char → List Value → Prop
  | one {t v} : Item t v → Items t [v]
  | more {t v ts vs} : Item t v → Items ts vs → Items (t ++ ',' :: ts) (v :: vs)

inductive Member : List Char → String × Value → Prop
  | mk {w name s w' t v} : Blank w → Chars name s → Blank w' → Item t v →
      Member (w ++ '"' :: (name ++ '"' :: (w' ++ ':' :: t))) (String.ofList s, v)

inductive Members : List Char → List (String × Value) → Prop
  | one {t m} : Member t m → Members t [m]
  | more {t m ts ms} : Member t m → Members ts ms → Members (t ++ ',' :: ts) (m :: ms)

end

/-! Occurrences, and the places where they are noticed. -/

inductive Occurrence where
  | malformed
  | givenTwice (name : String)
  | numeralTooLong (digits : Nat)
deriving DecidableEq

/-- What has occurred where a text is refused. -/
def Refusal.occurrence : Refusal → Occurrence
  | .malformed _ => .malformed
  | .givenTwice name => .givenTwice name
  | .numeralTooLong digits => .numeralTooLong digits

/-- The first name that stands among those before it. -/
def FirstRepeated (names : List String) (name : String) : Prop :=
  ∃ before after, names = before ++ name :: after ∧ before.Nodup ∧ name ∈ before

/-- With its last character a value shows what is wrong with it. The second text follows it. -/
inductive Offends : List Char → List Char → Occurrence → Prop
  | givenTwice {t ms name} (r : List Char) : Members t ms → FirstRepeated (ms.map (·.1)) name →
      Offends ('\x7b' :: (t ++ ['\x7d'])) r (.givenTwice name)
  | numeralTooLong {negative t r} : Whole t → Numeral.maxDigits < t.length → EndsInteger r →
      Offends (minus negative ++ t) r (.numeralTooLong t.length)

inductive ItemLead : List Char → Prop
  | first {w} : Blank w → ItemLead w
  | next {t v l} : Item t v → ItemLead l → ItemLead (t ++ ',' :: l)

inductive MemberLead : List Char → Prop
  | first {w name s w' u} : Blank w → Chars name s → Blank w' → Blank u →
      MemberLead (w ++ '"' :: (name ++ '"' :: (w' ++ ':' :: u)))
  | next {t m l} : Member t m → MemberLead l → MemberLead (t ++ ',' :: l)

/-- What stands before a value that is part of another, however deep, from where the outermost one
begins. -/
inductive Within : List Char → Prop
  | here : Within []
  | list {l u} : ItemLead l → Within u → Within ('[' :: (l ++ u))
  | object {l u} : MemberLead l → Within u → Within ('\x7b' :: (l ++ u))

def AtStart (l : List Char) : Prop := l = []

/-- A value that shows what is wrong with it ends at a position of a text. A lead comes first, then
the value or one that it is part of. -/
inductive Occurs (lead : List Char → Prop) : List Char → Nat → Occurrence → Prop
  | mk {l u t r o} : lead l → Within u → Offends t r o →
      Occurs lead (l ++ (u ++ (t ++ r))) (l.length + (u.length + t.length)) o

/-- A text that can go on to a document. -/
def Viable (t : List Char) : Prop := ∃ rest v, Item (t ++ rest) v

/-- What occurs in a text, with the number of characters up to where it shows. That the text ends
too early shows after the last of them. -/
inductive Event (s : List Char) : Nat → Occurrence → Prop
  | value {p o} : Occurs Blank s p o → Event s p o
  | malformed {t c r} : s = t ++ c :: r → Viable t → ¬Viable (t ++ [c]) →
      Event s (t.length + 1) .malformed
  | incomplete : Viable s → (∀ v, ¬Item s v) → Event s (s.length + 1) .malformed

/-- What occurs first. -/
def First (s : List Char) (p : Nat) (o : Occurrence) : Prop :=
  Event s p o ∧ ∀ p' o', Event s p' o' → p ≤ p'

def Quiet (lead : List Char → Prop) (s : List Char) (n : Nat) : Prop :=
  ∀ p o, Occurs lead s p o → n ≤ p

/-! Space around the parts. -/

theorem Spells.item {t : List Char} {v : Value} (h : Spells t v) : Item t v := by
  simpa only [List.nil_append, List.append_nil] using Item.mk .nil h .nil

theorem Item.blank {w t : List Char} {v : Value} (hw : Blank w) (h : Item t v) :
    Item (w ++ t) v := by
  cases h with
  | mk hw' ht hw'' =>
      rw [← List.append_assoc]
      exact .mk (hw.append hw') ht hw''

theorem Items.blank {w t : List Char} {vs : List Value} (hw : Blank w) (h : Items t vs) :
    Items (w ++ t) vs := by
  cases h with
  | one ht => exact .one (ht.blank hw)
  | more ht hts =>
      rw [← List.append_assoc]
      exact .more (ht.blank hw) hts

theorem Member.blank {w t : List Char} {m : String × Value} (hw : Blank w) (h : Member t m) :
    Member (w ++ t) m := by
  cases h with
  | mk hw' hname hcolon hv =>
      rw [← List.append_assoc]
      exact .mk (hw.append hw') hname hcolon hv

theorem Members.blank {w t : List Char} {ms : List (String × Value)} (hw : Blank w)
    (h : Members t ms) : Members (w ++ t) ms := by
  cases h with
  | one ht => exact .one (ht.blank hw)
  | more ht hts =>
      rw [← List.append_assoc]
      exact .more (ht.blank hw) hts

theorem ItemLead.blank {w l : List Char} (hw : Blank w) (h : ItemLead l) : ItemLead (w ++ l) := by
  cases h with
  | first hw' => exact .first (hw.append hw')
  | next ht hl =>
      rw [← List.append_assoc]
      exact .next (ht.blank hw) hl

theorem MemberLead.blank {w l : List Char} (hw : Blank w) (h : MemberLead l) :
    MemberLead (w ++ l) := by
  cases h with
  | first hw' hname hcolon hu =>
      rw [← List.append_assoc]
      exact .first (hw.append hw') hname hcolon hu
  | next ht hl =>
      rw [← List.append_assoc]
      exact .next (ht.blank hw) hl

/-! What occurs in a part occurs in the whole. -/

section Places

variable {lead lead' : List Char → Prop} {s x : List Char} {n p : Nat} {o : Occurrence}

theorem Occurs.imp (hx : ∀ l, lead l → lead' l) (h : Occurs lead s p o) : Occurs lead' s p o := by
  cases h with
  | mk hl hu ht => exact .mk (hx _ hl) hu ht

theorem Occurs.append (hx : ∀ l, lead l → lead' (x ++ l)) (h : Occurs lead s p o) :
    Occurs lead' (x ++ s) (x.length + p) o := by
  cases h with
  | @mk l u t r _ hl hu ht =>
      have hmk := Occurs.mk (hx l hl) hu ht
      rwa [List.append_assoc, List.length_append, Nat.add_assoc] at hmk

theorem Occurs.skip {w : List Char} (hw : Blank w) (h : Occurs AtStart s p o) :
    Occurs Blank (w ++ s) (w.length + p) o := by
  refine h.append fun l hl => ?_
  rw [hl]
  simpa using hw

theorem Occurs.enter {c : Char} (hc : ∀ {l u}, lead l → Within u → Within (c :: (l ++ u)))
    (h : Occurs lead s p o) : Occurs AtStart (c :: s) (p + 1) o := by
  cases h with
  | @mk l u t r _ hl hu ht =>
      have hmk := Occurs.mk (show AtStart [] from rfl) (hc hl hu) ht
      have hlen : l.length + u.length + 1 + t.length = l.length + (u.length + t.length) + 1 := by
        omega
      simpa [hlen] using hmk

theorem Occurs.next {t : List Char} {v : Value} (ht : Item t v) (h : Occurs ItemLead s p o) :
    Occurs ItemLead (t ++ ',' :: s) (t.length + 1 + p) o := by
  have happend := h.append (x := t ++ [',']) fun l hl => by
    simpa using ItemLead.next ht hl
  simpa using happend

/-- Before the value of the first member stand its name and a colon. -/
theorem Occurs.member {w name text w' : List Char} (hw : Blank w) (hname : Chars name text)
    (hcolon : Blank w') (h : Occurs Blank s p o) :
    Occurs MemberLead (w ++ '"' :: (name ++ '"' :: (w' ++ ':' :: s)))
      (w.length + name.length + w'.length + 3 + p) o := by
  have happend := h.append (x := w ++ '"' :: (name ++ '"' :: (w' ++ [':'])))
    fun l hl => by simpa using MemberLead.first hw hname hcolon hl
  have hlen : (w ++ '"' :: (name ++ '"' :: (w' ++ [':']))).length =
      w.length + name.length + w'.length + 3 := by
    simp
    omega
  rw [hlen] at happend
  simpa using happend

theorem Occurs.nextMember {t : List Char} {m : String × Value} (ht : Member t m)
    (h : Occurs MemberLead s p o) : Occurs MemberLead (t ++ ',' :: s) (t.length + 1 + p) o := by
  have happend := h.append (x := t ++ [',']) fun l hl => by
    simpa using MemberLead.next ht hl
  simpa using happend

theorem Offends.occurs {t r : List Char} (h : Offends t r o) :
    Occurs AtStart (t ++ r) t.length o := by
  simpa using Occurs.mk (show AtStart [] from rfl) .here h

theorem Quiet.mono {m : Nat} (h : Quiet lead s n) (hm : m ≤ n) : Quiet lead s m :=
  fun p o ho => hm.trans (h p o ho)

theorem Quiet.enter {c : Char} {m : Nat} (hc : ∀ {l u}, lead l → Within u → Within (c :: (l ++ u)))
    (h : Quiet AtStart (c :: s) m) (hm : n < m) : Quiet lead s n :=
  fun _ o ho => Nat.lt_succ_iff.1 (hm.trans_le (h _ o (ho.enter hc)))

theorem Quiet.skip {w : List Char} {m : Nat} (hw : Blank w) (h : Quiet Blank (w ++ s) m)
    (hm : w.length + n ≤ m) : Quiet AtStart s n :=
  fun _ o ho => Nat.le_of_add_le_add_left (hm.trans (h _ o (ho.skip hw)))

/-- Before the first item stands nothing but space. -/
theorem Quiet.item (h : Quiet ItemLead s n) : Quiet Blank s n :=
  fun p o ho => h p o (ho.imp fun _ hl => .first hl)

theorem Quiet.next {t : List Char} {v : Value} {m : Nat} (ht : Item t v)
    (h : Quiet ItemLead (t ++ ',' :: s) m) (hm : t.length + 1 + n ≤ m) : Quiet ItemLead s n :=
  fun _ o ho => Nat.le_of_add_le_add_left (hm.trans (h _ o (ho.next ht)))

theorem Quiet.member {w name text w' : List Char} {m : Nat} (hw : Blank w)
    (hname : Chars name text) (hcolon : Blank w')
    (h : Quiet MemberLead (w ++ '"' :: (name ++ '"' :: (w' ++ ':' :: s))) m)
    (hm : w.length + name.length + w'.length + 3 + n ≤ m) : Quiet Blank s n :=
  fun _ o ho => Nat.le_of_add_le_add_left (hm.trans (h _ o (ho.member hw hname hcolon)))

theorem Quiet.nextMember {t : List Char} {member : String × Value} {m : Nat}
    (ht : Member t member) (h : Quiet MemberLead (t ++ ',' :: s) m) (hm : t.length + 1 + n ≤ m) :
    Quiet MemberLead s n :=
  fun _ o ho => Nat.le_of_add_le_add_left (hm.trans (h _ o (ho.nextMember ht)))

end Places

/-! A text up to the end of a value can go on to a document. -/

section Viability

variable {l t u w : List Char} {v : Value}

theorem ItemLead.items (h : ItemLead l) (ht : Spells t v) : ∃ vs, Items (l ++ t) vs := by
  induction h with
  | first hw => exact ⟨_, .one (ht.item.blank hw)⟩
  | next hitem _ ih =>
      obtain ⟨vs, hvs⟩ := ih
      rw [List.append_assoc]
      exact ⟨_, .more hitem hvs⟩

theorem MemberLead.members (h : MemberLead l) (ht : Spells t v) : ∃ ms, Members (l ++ t) ms := by
  induction h with
  | first hw hname hcolon hu =>
      have hmember := Member.mk hw hname hcolon (ht.item.blank hu)
      simp only [List.append_assoc, List.cons_append]
      exact ⟨_, .one hmember⟩
  | next hm _ ih =>
      obtain ⟨ms, hms⟩ := ih
      rw [List.append_assoc]
      exact ⟨_, .more hm hms⟩

/-- The collections that a value is part of can be closed right after it. -/
theorem Within.closed (h : Within u) (ht : Spells t v) :
    ∃ rest v', Spells (u ++ (t ++ rest)) v' := by
  induction h with
  | here => exact ⟨[], v, by simpa using ht⟩
  | list hl _ ih =>
      obtain ⟨rest, v', hv'⟩ := ih
      obtain ⟨vs, hvs⟩ := hl.items hv'
      exact ⟨rest ++ [']'], _, by simpa using Spells.list hvs⟩
  | object hl _ ih =>
      obtain ⟨rest, v', hv'⟩ := ih
      obtain ⟨ms, hms⟩ := hl.members hv'
      exact ⟨rest ++ ['\x7d'], _, by simpa using Spells.object hms⟩

theorem Offends.spells {r : List Char} {o : Occurrence} (h : Offends t r o) : ∃ v, Spells t v := by
  cases h with
  | givenTwice _ hms _ => exact ⟨_, .object hms⟩
  | numeralTooLong ht _ _ => exact ⟨_, .atom (.integer ht)⟩

theorem Viable.of_append {t' : List Char} (h : Viable (t ++ t')) : Viable t := by
  obtain ⟨rest, v, hv⟩ := h
  rw [List.append_assoc] at hv
  exact ⟨_, v, hv⟩

theorem viable_nil : Viable [] :=
  ⟨_, _, (Spells.atom (.word .null)).item⟩

/-- Where a value shows what is wrong with it, a document is still in sight. -/
theorem Occurs.viable {s : List Char} {p : Nat} {o : Occurrence} (h : Occurs Blank s p o) :
    ∃ t r, s = t ++ r ∧ t.length = p ∧ Viable t := by
  cases h with
  | @mk w u t r _ hw hu ht =>
      obtain ⟨v, hv⟩ := ht.spells
      obtain ⟨rest, v', hv'⟩ := hu.closed hv
      refine ⟨w ++ (u ++ t), r, by simp, by simp, rest, v', ?_⟩
      simpa using hv'.item.blank hw

end Viability

/-! Values that are neither strings nor collections: what is read is one, and one is read unless it
is an integer that is too long. -/

theorem Atom.head {t : List Char} {v : Value} (h : Atom t v) :
    ∃ c s, t = c :: s ∧ isSpace c = false ∧ c ∉ foreign := by
  have hnumber : ∀ {whole : List Char} (negative : Bool) (rest : List Char), Whole whole →
      ∃ c s, minus negative ++ (whole ++ rest) = c :: s ∧ isSpace c = false ∧ c ∉ foreign := by
    intro whole negative rest hwhole
    obtain ⟨c, s, rfl, hc⟩ := hwhole.head
    cases negative with
    | false => exact ⟨c, s ++ rest, rfl, not_foreign_of_isDigit hc⟩
    | true => exact ⟨'-', _, rfl, rfl, by decide⟩
  cases h with
  | word hword =>
      cases hword with
      | infinite negative => cases negative <;> exact ⟨_, _, rfl, rfl, by decide⟩
      | _ => exact ⟨_, _, rfl, rfl, by decide⟩
  | @integer negative _ hwhole => simpa using hnumber negative [] hwhole
  | @float negative _ _ _ _ _ hwhole _ _ _ => exact hnumber negative _ hwhole

theorem atom_of_readScalar {s r : List Char} {v : Value} (h : readScalar s = .ok (v, r)) :
    ∃ t, Atom t v ∧ s = t ++ r := by
  have hreads := readScalar_reads s
  rw [h] at hreads
  cases hreads with
  | word _ hword => exact ⟨_, .word hword, rfl⟩
  | number hnumber =>
      cases hnumber with
      | integer _ ht _ => exact ⟨_, .integer ht, (List.append_assoc _ _ _).symm⟩
      | float _ hwhole hfraction hexponent hne =>
          exact ⟨_, .float hwhole hfraction hexponent hne, (List.append_assoc _ _ _).symm⟩

/-- A number is refused for its length alone where an integer is over. -/
theorem offends_of_readScalar {s : List Char} {refusal : Refusal}
    (h : readScalar s = .error refusal) (hvalid : refusal.occurrence ≠ .malformed) :
    ∃ t r, Offends t r refusal.occurrence ∧ s = t ++ r := by
  have hreads := readScalar_reads s
  rw [h] at hreads
  cases hreads with
  | number hnumber =>
      cases hnumber with
      | none => exact absurd rfl hvalid
      | tooLong ht hlong hends =>
          exact ⟨_, _, .numeralTooLong ht hlong hends, (List.append_assoc _ _ _).symm⟩

theorem Word.read {t : List Char} {v : Value} (h : Word t v) (r : List Char) :
    readScalar (t ++ r) = .ok (v, r) := by
  cases h with
  | infinite negative => cases negative <;> rfl
  | _ => rfl

theorem Atom.read {t r : List Char} {v : Value} (h : Atom t v) (hr : Stops r)
    (hquiet : Quiet AtStart (t ++ r) (t.length + 1)) : readScalar (t ++ r) = .ok (v, r) := by
  cases h with
  | word hword => exact hword.read r
  | @integer negative t ht =>
      have hends := endsInteger_of_stops hr
      rw [readScalar_integer negative ht hends]
      split
      · rename_i hlong
        have hearly := hquiet _ _ (Offends.numeralTooLong ht hlong hends).occurs
        exact absurd hearly (Nat.not_succ_le_self _)
      · rfl
  | @float negative whole fraction digits exponent e hwhole hfraction hexponent hne =>
      rw [← readNumber_float negative hwhole hfraction hexponent hne hr, List.append_assoc]
      obtain ⟨c, s, rfl, hc⟩ := hwhole.head
      exact readScalar_minus hc negative _

end JsonWriter.Document
