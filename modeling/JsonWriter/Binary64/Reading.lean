import JsonWriter.Binary64.Basic

/-! Numbers read from texts: a decimal with an optional exponent, or a name for infinity or for no
number, in any case. Digits may be grouped by single underscores, and may be those of any script. -/
namespace JsonWriter

namespace Text

/-- The blanks of ASCII: the space, and the controls from tab to carriage return. -/
def isAsciiBlank (c : Char) : Bool := c == ' ' || (9 ≤ c.toNat && c.toNat ≤ 13)

/-- The code points of the blanks outside ASCII, in increasing order. -/
def wideBlanks : List Nat :=
  [0x85, 0xa0, 0x1680, 0x2000, 0x2001, 0x2002, 0x2003, 0x2004, 0x2005, 0x2006, 0x2007, 0x2008,
   0x2009, 0x200a, 0x2028, 0x2029, 0x202f, 0x205f, 0x3000]

def isWideBlank (c : Char) : Bool := wideBlanks.contains c.toNat

def trimBlanks (s : List Char) : List Char :=
  ((s.dropWhile isAsciiBlank).reverse.dropWhile isAsciiBlank).reverse

/-- The code points of the digits zero, in increasing order. -/
def zeroDigits : List Nat :=
  [0x30, 0x660, 0x6f0, 0x7c0, 0x966, 0x9e6, 0xa66, 0xae6, 0xb66, 0xbe6, 0xc66, 0xce6, 0xd66,
   0xde6, 0xe50, 0xed0, 0xf20, 0x1040, 0x1090, 0x17e0, 0x1810, 0x1946, 0x19d0, 0x1a80, 0x1a90,
   0x1b50, 0x1bb0, 0x1c40, 0x1c50, 0xa620, 0xa8d0, 0xa900, 0xa9d0, 0xa9f0, 0xaa50, 0xabf0,
   0xff10, 0x104a0, 0x10d30, 0x11066, 0x110f0, 0x11136, 0x111d0, 0x112f0, 0x11450, 0x114d0,
   0x11650, 0x116c0, 0x11730, 0x118e0, 0x11950, 0x11c50, 0x11d50, 0x11da0, 0x16a60, 0x16ac0,
   0x16b50, 0x1d7ce, 0x1d7d8, 0x1d7e2, 0x1d7ec, 0x1d7f6, 0x1e140, 0x1e2f0, 0x1e950, 0x1fbf0]

/-- What a character counts for as a decimal digit of its script. -/
def digitValue? (c : Char) : Option Nat :=
  (zeroDigits.find? fun z => z ≤ c.toNat && c.toNat < z + 10).map (c.toNat - ·)

end Text

namespace Decimal

def ofDigits (whole fraction : List Char) (exponent : Int) : Decimal :=
  ⟨Numeral.value (whole ++ fraction), exponent - fraction.length⟩

/-- Reads digits with an optional sign before them, up to the end. -/
def readExponent? : List Char → Option Int
  | '-' :: digits => unsigned? digits |>.map fun n => -(n : Int)
  | '+' :: digits => unsigned? digits |>.map Int.ofNat
  | digits => unsigned? digits |>.map Int.ofNat
where
  unsigned? (digits : List Char) : Option Nat :=
    if digits.isEmpty || !digits.all Char.isDigit then none else some (Numeral.value digits)

/-- Reads a decimal without a sign, up to the end. There is a digit before or after the point. -/
def read? (s : List Char) : Option Decimal :=
  let whole := s.takeWhile Char.isDigit
  let rest := s.dropWhile Char.isDigit
  let (fraction, rest) := match rest with
    | '.' :: rest => (rest.takeWhile Char.isDigit, rest.dropWhile Char.isDigit)
    | _ => ([], rest)
  if whole.isEmpty && fraction.isEmpty then none
  else match rest with
    | [] => some (ofDigits whole fraction 0)
    | c :: rest =>
      if c == 'e' || c == 'E' then (readExponent? rest).map (ofDigits whole fraction) else none

end Decimal

namespace Binary64

/-- Drops the underscores of a text in which each stands between two digits. -/
def dropGrouping? (last : Char) : List Char → Option (List Char)
  | [] => if last == '_' then none else some []
  | c :: rest =>
    if c == '_' then
      if last.isDigit then dropGrouping? c rest else none
    else if last == '_' && !c.isDigit then none
    else (dropGrouping? c rest).map (c :: ·)

/-- Writes a text in ASCII: blanks of all scripts as spaces, decimal digits as the ASCII ones. A
text that is ASCII already stays as it is. -/
def toAscii? (s : List Char) : Option (List Char) :=
  if s.all (·.toNat < 0x80) then some s
  else s.mapM fun c =>
    if c.toNat < 0x7f then some c
    else if Text.isWideBlank c then some ' '
    else (Text.digitValue? c).map Nat.digitChar

def notANumber (negative : Bool) : Binary64 := ⟨negative, infinity + 1, by decide⟩

def readUnsigned? (negative : Bool) (s : List Char) : Option Binary64 :=
  let name := s.map Char.toLower
  if name == ['i', 'n', 'f'] || name == ['i', 'n', 'f', 'i', 'n', 'i', 't', 'y'] then
    some (ofMagnitude negative infinity)
  else if name == ['n', 'a', 'n'] then some (notANumber negative)
  else (Decimal.read? s).map (ofDecimal negative)

def readAscii? (s : List Char) : Option Binary64 :=
  dropGrouping? ' ' (Text.trimBlanks s) >>= fun
    | '-' :: rest => readUnsigned? true rest
    | '+' :: rest => readUnsigned? false rest
    | rest => readUnsigned? false rest

def read? (s : String) : Option Binary64 := toAscii? s.toList >>= readAscii?

end Binary64

end JsonWriter
