/-!
# Classes of characters

Digits are the characters of the Unicode category `Nd`. They come in runs of ten, zero to nine in
order, so the table lists where each run begins. A reference marker may be spelled with any of them;
a number is only ever read from the ASCII run, for which `isAsciiDigit` stands.

Blank characters are those with the Unicode property `White_Space`, listed as ranges of code points.
A text made of them alone counts as empty, and a formula is written without them.
-/

namespace Formulary.Text

/-! ## Decimal digits of every script -/

/-- The code points of the zeros: each begins a run of ten digits. -/
def digitZeros : List Nat :=
  [0x0030, 0x0660, 0x06F0, 0x07C0, 0x0966, 0x09E6, 0x0A66, 0x0AE6, 0x0B66, 0x0BE6, 0x0C66, 0x0CE6,
   0x0D66, 0x0DE6, 0x0E50, 0x0ED0, 0x0F20, 0x1040, 0x1090, 0x17E0, 0x1810, 0x1946, 0x19D0, 0x1A80,
   0x1A90, 0x1B50, 0x1BB0, 0x1C40, 0x1C50, 0xA620, 0xA8D0, 0xA900, 0xA9D0, 0xA9F0, 0xAA50, 0xABF0,
   0xFF10, 0x104A0, 0x10D30, 0x10D40, 0x11066, 0x110F0, 0x11136, 0x111D0, 0x112F0, 0x11450, 0x114D0,
   0x11650, 0x116C0, 0x116D0, 0x116DA, 0x11730, 0x118E0, 0x11950, 0x11BF0, 0x11C50, 0x11D50, 0x11DA0,
   0x11F50, 0x16130, 0x16A60, 0x16AC0, 0x16B50, 0x16D70, 0x1CCF0, 0x1D7CE, 0x1D7D8, 0x1D7E2, 0x1D7EC,
   0x1D7F6, 0x1E140, 0x1E2F0, 0x1E4F0, 0x1E5F1, 0x1E950, 0x1FBF0]

/-- A character is a decimal digit if its code point lies in one of the runs of ten. -/
def isDecimalDigit (c : Char) : Bool :=
  digitZeros.any fun start => start ≤ c.toNat && c.toNat < start + 10

/-- The ten digits that numbers are read from. -/
def isAsciiDigit (c : Char) : Bool :=
  '0' ≤ c && c ≤ '9'

/-- The ASCII digits are decimal digits. -/
theorem isDecimalDigit_of_isAsciiDigit {c : Char} (ascii : isAsciiDigit c = true) :
    isDecimalDigit c = true := by
  simp only [isAsciiDigit, Bool.and_eq_true, decide_eq_true_eq] at ascii
  have lower : 0x30 ≤ c.toNat := ascii.1
  have upper : c.toNat ≤ 0x39 := ascii.2
  refine List.any_eq_true.mpr ⟨0x30, by simp [digitZeros], ?_⟩
  simp only [Bool.and_eq_true, decide_eq_true_eq]
  omega

/-- The runs do not overlap: each begins at least ten code points after the one before. -/
example : digitZeros.Pairwise (fun first second => first + 10 ≤ second) := by decide

/-- There are seventy-six runs. -/
example : digitZeros.length = 76 := by decide

/-- The value of an ASCII digit. -/
def digitValue (c : Char) : Nat :=
  c.toNat - '0'.toNat

/-- The number that a list of ASCII digits spells, most significant digit first. -/
def digitsValue (digits : List Char) : Nat :=
  digits.foldl (fun value c => 10 * value + digitValue c) 0

/-! ## Blank characters -/

/-- The code points with the property `White_Space`, as closed ranges in ascending order. -/
def blankRanges : List (Nat × Nat) :=
  [(0x0009, 0x000D), (0x0020, 0x0020), (0x0085, 0x0085), (0x00A0, 0x00A0), (0x1680, 0x1680),
   (0x2000, 0x200A), (0x2028, 0x2029), (0x202F, 0x202F), (0x205F, 0x205F), (0x3000, 0x3000)]

/-- A character is blank if its code point lies in one of the ranges. -/
def isBlank (c : Char) : Bool :=
  blankRanges.any fun range => range.1 ≤ c.toNat && c.toNat ≤ range.2

/-- There are twenty-five blank characters. -/
example : (blankRanges.map fun range => range.2 + 1 - range.1).sum = 25 := by decide

example : isBlank '\u00a0' = true ∧ isBlank '\u200b' = false ∧ isBlank '\ufeff' = false := by decide

end Formulary.Text
