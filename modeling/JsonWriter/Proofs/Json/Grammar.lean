import JsonWriter.Document.Reader
import Mathlib

/-! JSON values, and the texts that denote them. An object keeps its members in order, and keeps all
of them; a number is exact. -/
namespace JsonWriter

inductive Json where
  | null
  | bool (b : Bool)
  | number (q : ℚ)
  | string (s : String)
  | array (items : List Json)
  | object (members : List (String × Json))

def Decimal.toRat (d : Decimal) : ℚ := d.coefficient * 10 ^ d.exponent

namespace Json

def Blank (t : List Char) : Prop := ∀ c ∈ t, Document.isSpace c = true

def Digits (t : List Char) : Prop := t ≠ [] ∧ ∀ c ∈ t, c.isDigit = true

/-- One zero, or digits that do not begin with one. -/
def Whole (t : List Char) : Prop := t = ['0'] ∨ Digits t ∧ t.head? ≠ some '0'

/-- A fraction and its digits. -/
inductive Fraction : List Char → List Char → Prop
  | none : Fraction [] []
  | point {digits} : Digits digits → Fraction ('.' :: digits) digits

inductive Sign : List Char → Bool → Prop
  | none : Sign [] false
  | plus : Sign ['+'] false
  | minus : Sign ['-'] true

def signed {α : Type} [Neg α] (negative : Bool) (n : α) : α := if negative then -n else n

/-- An exponent, without which a number has the exponent zero. -/
inductive Exponent : List Char → Int → Prop
  | none : Exponent [] 0
  | written {letter sign negative digits} : letter = 'e' ∨ letter = 'E' → Sign sign negative →
      Digits digits →
      Exponent (letter :: (sign ++ digits)) (signed negative (Numeral.value digits : Int))

/-- The text of a number without its sign. -/
inductive Magnitude : List Char → ℚ → Prop
  | mk {whole fraction digits exponent e} : Whole whole → Fraction fraction digits →
      Exponent exponent e →
      Magnitude (whole ++ (fraction ++ exponent)) (Decimal.ofDigits whole digits e).toRat

inductive Number : List Char → ℚ → Prop
  | positive {t q} : Magnitude t q → Number t q
  | negative {t q} : Magnitude t q → Number ('-' :: t) (-q)

/-- The low surrogate that a text begins with, as an escape, and what follows it. -/
def lowEscape? : List Char → Option (Nat × List Char)
  | '\\' :: 'u' :: a :: b :: c :: d :: rest =>
    ((Document.quad? a b c d).filter Document.isLowSurrogate).map (·, rest)
  | _ => none

/-- What stands between the quotes of a string literal, and the characters it denotes. An escaped
high surrogate forms one character with an escaped low one right after it. Surrogates that stand
alone denote the replacement character. -/
inductive Chars : List Char → List Char → Prop
  | nil : Chars [] []
  | plain {c t s} : 0x20 ≤ c.toNat → c ≠ '"' → c ≠ '\\' → Chars t s → Chars (c :: t) (c :: s)
  | short {letter c t s} : Document.unescaped? letter = some c → Chars t s →
      Chars ('\\' :: letter :: t) (c :: s)
  | code {a b c d n t s} : Document.quad? a b c d = some n →
      (Document.isHighSurrogate n = true → lowEscape? t = none) → Chars t s →
      Chars ('\\' :: 'u' :: a :: b :: c :: d :: t) (Document.charOf n :: s)
  | pair {a b c d high low t rest s} : Document.quad? a b c d = some high →
      Document.isHighSurrogate high = true → lowEscape? t = some (low, rest) → Chars rest s →
      Chars ('\\' :: 'u' :: a :: b :: c :: d :: t) (Document.joined high low :: s)

mutual

/-- A text is a JSON value, with no space around it. -/
inductive Denotes : List Char → Json → Prop
  | nullWord : Denotes ['n', 'u', 'l', 'l'] .null
  | trueWord : Denotes ['t', 'r', 'u', 'e'] (.bool true)
  | falseWord : Denotes ['f', 'a', 'l', 's', 'e'] (.bool false)
  | number {t q} : Number t q → Denotes t (.number q)
  | string {t s} : Chars t s → Denotes ('"' :: (t ++ ['"'])) (.string (String.ofList s))
  | emptyArray {w} : Blank w → Denotes ('[' :: (w ++ [']'])) (.array [])
  | array {t items} : Items t items → Denotes ('[' :: (t ++ [']'])) (.array items)
  | emptyObject {w} : Blank w → Denotes ('\x7b' :: (w ++ ['\x7d'])) (.object [])
  | object {t members} : Members t members → Denotes ('\x7b' :: (t ++ ['\x7d'])) (.object members)

/-- A text is a JSON value, with space around it or without. -/
inductive Spaced : List Char → Json → Prop
  | mk {w t v w'} : Blank w → Denotes t v → Blank w' → Spaced (w ++ (t ++ w')) v

/-- One value or more, with commas between them. -/
inductive Items : List Char → List Json → Prop
  | one {t v} : Spaced t v → Items t [v]
  | more {t v ts vs} : Spaced t v → Items ts vs → Items (t ++ ',' :: ts) (v :: vs)

inductive Member : List Char → String × Json → Prop
  | mk {w name s w' t v} : Blank w → Chars name s → Blank w' → Spaced t v →
      Member (w ++ '"' :: (name ++ '"' :: (w' ++ ':' :: t))) (String.ofList s, v)

/-- One member or more, with commas between them. -/
inductive Members : List Char → List (String × Json) → Prop
  | one {t m} : Member t m → Members t [m]
  | more {t m ts ms} : Member t m → Members ts ms → Members (t ++ ',' :: ts) (m :: ms)

end

theorem Blank.nil : Blank [] := nofun

theorem Denotes.spaced {t : List Char} {v : Json} (h : Denotes t v) : Spaced t v := by
  simpa only [List.nil_append, List.append_nil] using Spaced.mk .nil h .nil

theorem Items.concat {t u : List Char} {vs : List Json} {v : Json} (h : Items t vs)
    (hu : Spaced u v) : Items (t ++ ',' :: u) (vs ++ [v]) :=
  match h with
  | .one ht => .more ht (.one hu)
  | .more ht hts => by
    rw [List.append_assoc]
    exact .more ht (hts.concat hu)

theorem Members.concat {t u : List Char} {ms : List (String × Json)} {m : String × Json}
    (h : Members t ms) (hu : Member u m) : Members (t ++ ',' :: u) (ms ++ [m]) :=
  match h with
  | .one ht => .more ht (.one hu)
  | .more ht hts => by
    rw [List.append_assoc]
    exact .more ht (hts.concat hu)

inductive ItemRow : List Char → List Json → Prop
  | empty : ItemRow [] []
  | items {t vs} : Items t vs → ItemRow t vs

inductive MemberRow : List Char → List (String × Json) → Prop
  | empty : MemberRow [] []
  | members {t ms} : Members t ms → MemberRow t ms

theorem ItemRow.denotes {t : List Char} {vs : List Json} (h : ItemRow t vs) :
    Denotes ('[' :: (t ++ [']'])) (.array vs) := by
  cases h with
  | empty => exact .emptyArray .nil
  | items h => exact .array h

theorem MemberRow.denotes {t : List Char} {ms : List (String × Json)} (h : MemberRow t ms) :
    Denotes ('\x7b' :: (t ++ ['\x7d'])) (.object ms) := by
  cases h with
  | empty => exact .emptyObject .nil
  | members h => exact .object h

/-- What stands before the next item of a row, by whether it has items already. -/
def comma (hasMember : Bool) : List Char := if hasMember then [','] else []

theorem ItemRow.add {t u : List Char} {vs : List Json} {v : Json} (h : ItemRow t vs)
    (hu : Spaced u v) : ItemRow (t ++ (comma (!vs.isEmpty) ++ u)) (vs ++ [v]) := by
  cases h with
  | empty => exact .items (.one hu)
  | items h =>
      have hcomma : comma (!vs.isEmpty) = [','] := by cases h <;> rfl
      rw [hcomma]
      exact .items (h.concat hu)

theorem MemberRow.add {t u : List Char} {ms : List (String × Json)} {m : String × Json}
    (h : MemberRow t ms) (hu : Member u m) :
    MemberRow (t ++ (comma (!ms.isEmpty) ++ u)) (ms ++ [m]) := by
  cases h with
  | empty => exact .members (.one hu)
  | members h =>
      have hcomma : comma (!ms.isEmpty) = [','] := by cases h <;> rfl
      rw [hcomma]
      exact .members (h.concat hu)

theorem items_intercalate {α : Type} {text : α → List Char} {value : α → Json} (a : α)
    (as : List α) (h : ∀ b ∈ a :: as, Spaced (text b) (value b)) :
    Items (List.intercalate [','] ((a :: as).map text)) ((a :: as).map value) := by
  induction as generalizing a with
  | nil =>
      rw [List.map_singleton, List.map_singleton, List.intercalate_singleton]
      exact .one (h a List.mem_cons_self)
  | cons b as ih =>
      have hrest := ih b fun c hc => h c (List.mem_cons_of_mem a hc)
      have hmore := Items.more (h a List.mem_cons_self) hrest
      rw [List.map_cons, List.map_cons, List.map_cons, List.intercalate_cons_cons,
        List.append_assoc]
      exact hmore

theorem members_intercalate {α : Type} {text : α → List Char} {member : α → String × Json}
    (a : α) (as : List α) (h : ∀ b ∈ a :: as, Member (text b) (member b)) :
    Members (List.intercalate [','] ((a :: as).map text)) ((a :: as).map member) := by
  induction as generalizing a with
  | nil =>
      rw [List.map_singleton, List.map_singleton, List.intercalate_singleton]
      exact .one (h a List.mem_cons_self)
  | cons b as ih =>
      have hrest := ih b fun c hc => h c (List.mem_cons_of_mem a hc)
      have hmore := Members.more (h a List.mem_cons_self) hrest
      rw [List.map_cons, List.map_cons, List.map_cons, List.intercalate_cons_cons,
        List.append_assoc]
      exact hmore

theorem itemRow_intercalate {α : Type} {text : α → List Char} {value : α → Json} (as : List α)
    (h : ∀ a ∈ as, Spaced (text a) (value a)) :
    ItemRow (List.intercalate [','] (as.map text)) (as.map value) := by
  cases as with
  | nil => exact .empty
  | cons a as => exact .items (items_intercalate a as h)

theorem memberRow_intercalate {α : Type} {text : α → List Char} {member : α → String × Json}
    (as : List α) (h : ∀ a ∈ as, Member (text a) (member a)) :
    MemberRow (List.intercalate [','] (as.map text)) (as.map member) := by
  cases as with
  | nil => exact .empty
  | cons a as => exact .members (members_intercalate a as h)

end Json
end JsonWriter
