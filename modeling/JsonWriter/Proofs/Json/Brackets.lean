import JsonWriter.Nesting.Stack
import JsonWriter.Proofs.Json.StringLiteral

/-! A scan of a text for its brackets, which passes over string literals. The text of a JSON value
leaves the scan as it was. -/
namespace JsonWriter

/-- Where a scan stands: outside of string literals, in one, or after a backslash in one. -/
inductive ScanPlace where
  | outside | literal | escape
deriving DecidableEq

/-- The brackets that are open, the innermost first, and where the scan stands. -/
structure Scan where
  opened : List FrameKind := []
  place : ScanPlace := .outside

namespace Scan

/-- A closing bracket has to match the innermost one that is open. -/
def close (kind : FrameKind) : List FrameKind → Option Scan
  | [] => none
  | innermost :: opened => if innermost = kind then some { opened } else none

def stepOutside (opened : List FrameKind) : Char → Option Scan
  | '"' => some ⟨opened, .literal⟩
  | '[' => some { opened := .array :: opened }
  | ']' => close .array opened
  | '\x7b' => some { opened := .object :: opened }
  | '\x7d' => close .object opened
  | _ => some { opened }

def stepLiteral (opened : List FrameKind) : Char → Scan
  | '"' => { opened }
  | '\\' => ⟨opened, .escape⟩
  | _ => ⟨opened, .literal⟩

def step (s : Scan) (c : Char) : Option Scan :=
  match s.place with
  | .outside => stepOutside s.opened c
  | .literal => some (stepLiteral s.opened c)
  | .escape => some ⟨s.opened, .literal⟩

/-- Scans a text. There is no result where a closing bracket has no match. -/
def run? (s : Scan) (t : List Char) : Option Scan := t.foldlM step s

/-- What is open: the brackets, and the string literal that the scan stands in. -/
def kinds (s : Scan) : List FrameKind :=
  if s.place = .outside then s.opened else .string :: s.opened

theorem run?_append_of_eq {s s' : Scan} {t : List Char} (h : s.run? t = some s') (u : List Char) :
    s.run? (t ++ u) = s'.run? u := by
  unfold run? at h ⊢
  rw [List.foldlM_append, h]
  rfl

theorem run?_cons_of_eq {s s' : Scan} {c : Char} (h : s.step c = some s') (t : List Char) :
    s.run? (c :: t) = s'.run? t := by
  unfold run?
  rw [List.foldlM_cons, h]
  rfl

end Scan

def Keeps (place : ScanPlace) (t : List Char) : Prop :=
  ∀ opened, Scan.run? ⟨opened, place⟩ t = some ⟨opened, place⟩

def marks : List Char := ['"', '[', ']', '\x7b', '\x7d']

namespace Keeps

variable {place : ScanPlace} {t u : List Char} {c : Char}

theorem nil (place : ScanPlace) : Keeps place [] := fun _ => rfl

theorem append (h : Keeps place t) (hu : Keeps place u) : Keeps place (t ++ u) := by
  intro opened
  rw [Scan.run?_append_of_eq (h opened), hu opened]

theorem flatten {ts : List (List Char)} (h : ∀ t ∈ ts, Keeps place t) : Keeps place ts.flatten := by
  induction ts with
  | nil => exact nil place
  | cons t ts ih =>
      rw [List.forall_mem_cons] at h
      rw [List.flatten_cons]
      exact h.1.append (ih h.2)

theorem plain (hc : c ∉ marks) (h : Keeps .outside t) : Keeps .outside (c :: t) := by
  intro opened
  have hstep : Scan.step { opened } c = some { opened } := by
    simp only [marks, List.mem_cons, List.not_mem_nil, or_false, not_or] at hc
    unfold Scan.step Scan.stepOutside
    simp [hc]
  rw [Scan.run?_cons_of_eq hstep, h opened]

theorem of_plain (h : ∀ c ∈ t, c ∉ marks) : Keeps .outside t := by
  induction t with
  | nil => exact nil .outside
  | cons c t ih =>
      rw [List.forall_mem_cons] at h
      exact plain h.1 (ih h.2)

theorem array (h : Keeps .outside t) : Keeps .outside ('[' :: (t ++ [']'])) := by
  intro opened
  rw [Scan.run?_cons_of_eq rfl, Scan.run?_append_of_eq (h _), Scan.run?_cons_of_eq rfl]
  rfl

theorem object (h : Keeps .outside t) : Keeps .outside ('\x7b' :: (t ++ ['\x7d'])) := by
  intro opened
  rw [Scan.run?_cons_of_eq rfl, Scan.run?_append_of_eq (h _), Scan.run?_cons_of_eq rfl]
  rfl

/-- A string literal, whatever brackets it holds. -/
theorem literal (h : Keeps .literal t) (hu : Keeps .outside u) :
    Keeps .outside ('"' :: (t ++ '"' :: u)) := by
  intro opened
  rw [Scan.run?_cons_of_eq rfl, Scan.run?_append_of_eq (h _), Scan.run?_cons_of_eq rfl]
  exact hu opened

theorem inLiteral (hquote : c ≠ '"') (hslash : c ≠ '\\') (h : Keeps .literal t) :
    Keeps .literal (c :: t) := by
  intro opened
  have hstep : Scan.step ⟨opened, .literal⟩ c = some ⟨opened, .literal⟩ := by
    dsimp only [Scan.step, Scan.stepLiteral]
    split
    · exact absurd rfl hquote
    · exact absurd rfl hslash
    · rfl
  rw [Scan.run?_cons_of_eq hstep, h opened]

/-- A quote or a backslash after a backslash is passed over. -/
theorem escape (c : Char) (h : Keeps .literal t) : Keeps .literal ('\\' :: c :: t) := by
  intro opened
  rw [Scan.run?_cons_of_eq rfl, Scan.run?_cons_of_eq rfl]
  exact h opened

theorem code {a b c d : Char} {n : Nat} (hquad : Document.quad? a b c d = some n)
    (h : Keeps .literal t) : Keeps .literal ('\\' :: 'u' :: a :: b :: c :: d :: t) := by
  have hquote := Json.quad?_not_mem (x := '"') (by decide) hquad
  have hslash := Json.quad?_not_mem (x := '\\') (by decide) hquad
  simp only [List.mem_cons, List.not_mem_nil, or_false, not_or] at hquote hslash
  refine escape 'u' (inLiteral (Ne.symm hquote.1) (Ne.symm hslash.1) ?_)
  refine inLiteral (Ne.symm hquote.2.1) (Ne.symm hslash.2.1) ?_
  refine inLiteral (Ne.symm hquote.2.2.1) (Ne.symm hslash.2.2.1) ?_
  exact inLiteral (Ne.symm hquote.2.2.2) (Ne.symm hslash.2.2.2) h

end Keeps

namespace Json

theorem not_mem_marks {p : Char → Bool} (hp : marks.any p = false) {c : Char} (h : p c = true) :
    c ∉ marks := fun hc => absurd h (List.any_eq_false.1 hp c hc)

theorem Blank.keeps {t : List Char} (h : Blank t) : Keeps .outside t :=
  .of_plain fun c hc => not_mem_marks (by decide) (h c hc)

theorem Digits.keeps {t : List Char} (h : Digits t) : Keeps .outside t :=
  .of_plain fun c hc => not_mem_marks (by decide) (h.2 c hc)

theorem Sign.keeps {t : List Char} {negative : Bool} (h : Sign t negative) : Keeps .outside t := by
  cases h with
  | none => exact .nil _
  | plus => exact .plain (by decide) (.nil _)
  | minus => exact .plain (by decide) (.nil _)

theorem Magnitude.keeps {t : List Char} {q : ℚ} (h : Magnitude t q) : Keeps .outside t := by
  cases h with
  | mk hwhole hfraction hexponent =>
      refine .append ?_ (.append ?_ ?_)
      · rcases hwhole with rfl | ⟨hdigits, -⟩
        · exact .of_plain (by simp [marks])
        · exact hdigits.keeps
      · cases hfraction with
        | none => exact .nil _
        | point hdigits => exact .plain (by decide) hdigits.keeps
      · cases hexponent with
        | none => exact .nil _
        | written hletter hsign hdigits =>
            have hsigned := hsign.keeps.append hdigits.keeps
            rcases hletter with rfl | rfl
            · exact .plain (by decide) hsigned
            · exact .plain (by decide) hsigned

theorem Number.keeps {t : List Char} {q : ℚ} (h : Number t q) : Keeps .outside t := by
  cases h with
  | positive h => exact h.keeps
  | negative h => exact .plain (by decide) h.keeps

theorem Chars.keeps {t s : List Char} (h : Chars t s) : Keeps .literal t := by
  induction h with
  | nil => exact .nil _
  | plain _ hquote hslash _ ih => exact ih.inLiteral hquote hslash
  | short _ _ ih => exact ih.escape _
  | code hquad _ _ ih => exact ih.code hquad
  | pair hquad _ hlow _ ih =>
      obtain ⟨a, b, c, d, rfl, hquad', -⟩ := lowEscape?_eq_some_iff.1 hlow
      exact (ih.code hquad').code hquad

mutual

theorem Denotes.keeps {t : List Char} {v : Json} : Denotes t v → Keeps .outside t
  | .nullWord => .of_plain (by simp [marks])
  | .trueWord => .of_plain (by simp [marks])
  | .falseWord => .of_plain (by simp [marks])
  | .number h => h.keeps
  | .string h => h.keeps.literal (.nil _)
  | .emptyArray h => h.keeps.array
  | .array h => h.keeps.array
  | .emptyObject h => h.keeps.object
  | .object h => h.keeps.object

theorem Spaced.keeps {t : List Char} {v : Json} : Spaced t v → Keeps .outside t
  | .mk hw h hw' => hw.keeps.append (h.keeps.append hw'.keeps)

theorem Items.keeps {t : List Char} {vs : List Json} : Items t vs → Keeps .outside t
  | .one h => h.keeps
  | .more h hrest => h.keeps.append (hrest.keeps.plain (by decide))

theorem Member.keeps {t : List Char} {m : String × Json} : Member t m → Keeps .outside t
  | .mk hw hname hw' h =>
    hw.keeps.append (hname.keeps.literal (hw'.keeps.append (h.keeps.plain (by decide))))

theorem Members.keeps {t : List Char} {ms : List (String × Json)} :
    Members t ms → Keeps .outside t
  | .one h => h.keeps
  | .more h hrest => h.keeps.append (hrest.keeps.plain (by decide))

end

theorem ItemRow.keeps {t : List Char} {vs : List Json} (h : ItemRow t vs) : Keeps .outside t := by
  cases h with
  | empty => exact .nil _
  | items h => exact h.keeps

theorem MemberRow.keeps {t : List Char} {ms : List (String × Json)} (h : MemberRow t ms) :
    Keeps .outside t := by
  cases h with
  | empty => exact .nil _
  | members h => exact h.keeps

theorem comma_keeps (hasMember : Bool) : Keeps .outside (comma hasMember) := by
  cases hasMember with
  | true => exact .plain (by decide) (.nil _)
  | false => exact .nil _

end Json
end JsonWriter
