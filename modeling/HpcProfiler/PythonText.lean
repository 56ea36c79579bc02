import Mathlib.Data.Int.Notation
import Mathlib.Data.List.Basic

/-!
Some methods of Python's strings: split at blanks, upper case, and the integers that
int reads in base 16 and in base 10. The blanks and the decimal digits are those of Unicode.
-/

namespace HpcProfiler.PythonText

def isSpace (c : Char) : Bool :=
  [0x9, 0xA, 0xB, 0xC, 0xD, 0x1C, 0x1D, 0x1E, 0x1F, 0x20, 0x85, 0xA0, 0x1680, 0x2028, 0x2029,
    0x202F, 0x205F, 0x3000].contains c.toNat || (0x2000 ≤ c.toNat && c.toNat ≤ 0x200A)

def split (text : String) : List String :=
  ((text.toList.splitOnP isSpace).filter (· ≠ [])).map String.ofList

/-- Letters beyond ASCII are left as they are; none of them has T or W as its upper case. -/
def upper (text : String) : String := String.ofList (text.toList.map Char.toUpper)

theorem toNat_toUpper (c : Char) :
    c.toUpper.toNat = if 97 ≤ c.toNat ∧ c.toNat ≤ 122 then c.toNat - 32 else c.toNat := by
  have hle : ('a'.val ≤ c.val ∧ c.val ≤ 'z'.val) ↔ 97 ≤ c.toNat ∧ c.toNat ≤ 122 := by
    rw [UInt32.le_iff_toNat_le, UInt32.le_iff_toNat_le]
    rfl
  unfold Char.toUpper
  split
  · rename_i hlower
    have hbounds := hle.mp hlower
    rw [if_pos hbounds]
    show (c.val + ('A'.val - 'a'.val)).toNat = c.toNat - 32
    rw [UInt32.toNat_add]
    show (c.toNat + 4294967264) % 4294967296 = c.toNat - 32
    omega
  · rename_i hlower
    exact (if_neg fun hbounds => hlower (hle.mpr hbounds)).symm

theorem toUpper_eq_iff {c capital small : Char}
    (hcapital : 65 ≤ capital.toNat ∧ capital.toNat ≤ 90)
    (hsmall : small.toNat = capital.toNat + 32) :
    c.toUpper = capital ↔ c = capital ∨ c = small := by
  rw [← Char.toNat_inj, ← Char.toNat_inj, ← Char.toNat_inj, toNat_toUpper, hsmall]
  split <;> omega

theorem upper_eq_iff {text : String} (capital small : Char)
    (hcapital : 65 ≤ capital.toNat ∧ capital.toNat ≤ 90)
    (hsmall : small.toNat = capital.toNat + 32) :
    upper text = String.ofList [capital] ↔
      text = String.ofList [capital] ∨ text = String.ofList [small] := by
  rw [upper, String.ofList_inj, List.map_eq_singleton_iff, ← String.toList_inj,
    ← String.toList_inj, String.toList_ofList, String.toList_ofList]
  constructor
  · rintro ⟨c, hc, hupper⟩
    rw [hc]
    rcases (toUpper_eq_iff hcapital hsmall).mp hupper with rfl | rfl
    · exact .inl rfl
    · exact .inr rfl
  · rintro (hc | hc)
    · exact ⟨capital, hc, (toUpper_eq_iff hcapital hsmall).mpr (.inl rfl)⟩
    · exact ⟨small, hc, (toUpper_eq_iff hcapital hsmall).mpr (.inr rfl)⟩

/-- The zeros of Unicode's decimal digits, each followed by its nine other digits. -/
def decimalZeros : List ℕ :=
  [0x30, 0x660, 0x6F0, 0x7C0, 0x966, 0x9E6, 0xA66, 0xAE6, 0xB66, 0xBE6, 0xC66, 0xCE6, 0xD66,
    0xDE6, 0xE50, 0xED0, 0xF20, 0x1040, 0x1090, 0x17E0, 0x1810, 0x1946, 0x19D0, 0x1A80, 0x1A90,
    0x1B50, 0x1BB0, 0x1C40, 0x1C50, 0xA620, 0xA8D0, 0xA900, 0xA9D0, 0xA9F0, 0xAA50, 0xABF0,
    0xFF10, 0x104A0, 0x10D30, 0x11066, 0x110F0, 0x11136, 0x111D0, 0x112F0, 0x11450, 0x114D0,
    0x11650, 0x116C0, 0x11730, 0x118E0, 0x11950, 0x11C50, 0x11D50, 0x11DA0, 0x16A60, 0x16AC0,
    0x16B50, 0x1D7CE, 0x1D7D8, 0x1D7E2, 0x1D7EC, 0x1D7F6, 0x1E140, 0x1E2F0, 0x1E950, 0x1FBF0]

/-- A decimal digit of any script is read as the ASCII digit of its value. -/
def toAscii (c : Char) : Char :=
  match decimalZeros.find? fun first => first ≤ c.toNat && c.toNat < first + 10 with
  | some first => Char.ofNat (0x30 + (c.toNat - first))
  | none => c

def digitValue (c : Char) : Option ℕ :=
  if '0' ≤ c ∧ c ≤ '9' then some (c.toNat - 0x30)
  else if 'a' ≤ c ∧ c ≤ 'f' then some (c.toNat - 0x61 + 10)
  else if 'A' ≤ c ∧ c ≤ 'F' then some (c.toNat - 0x41 + 10)
  else none

/-- Digits with single underscores between them; the flag tells that a digit is due. -/
def hexDigits (value : ℕ) (due : Bool) : List Char → Option ℕ
  | [] => if due then none else some value
  | c :: rest =>
    if c = '_' then if due then none else hexDigits value true rest
    else (digitValue c).bind fun digit => hexDigits (16 * value + digit) false rest

/-- The digits behind the prefix 0x, which may be followed by an underscore. -/
def dropHexPrefix : List Char → List Char
  | '0' :: x :: '_' :: rest => if x = 'x' ∨ x = 'X' then rest else '0' :: x :: '_' :: rest
  | '0' :: x :: rest => if x = 'x' ∨ x = 'X' then rest else '0' :: x :: rest
  | text => text

/-- The value of int(text, 16) on a text without blanks, if it raises no ValueError. -/
def int16 (text : String) : Option ℤ :=
  match text.toList.map toAscii with
  | '-' :: rest => (hexDigits 0 true (dropHexPrefix rest)).map fun value => -(value : ℤ)
  | '+' :: rest => (hexDigits 0 true (dropHexPrefix rest)).map fun value => (value : ℤ)
  | text => (hexDigits 0 true (dropHexPrefix text)).map fun value => (value : ℤ)

example : ["0x_1f", "1__2", "-1F", "0x", "1_2", "+ 1"].map int16 =
    [some 31, none, some (-31), none, some 18, none] := by decide

/-- The blanks that int skips. The separators of ASCII are not among them. -/
def isIntSpace (c : Char) : Bool := isSpace c && !(0x1C ≤ c.toNat && c.toNat ≤ 0x1F)

def stripInt (text : List Char) : List Char :=
  ((text.dropWhile isIntSpace).reverse.dropWhile isIntSpace).reverse

/-- Digits in base 10, with single underscores as in base 16. -/
def decDigits (value : ℕ) (due : Bool) : List Char → Option ℕ
  | [] => if due then none else some value
  | c :: rest =>
    if c = '_' then if due then none else decDigits value true rest
    else if '0' ≤ c ∧ c ≤ '9' then decDigits (10 * value + (c.toNat - 0x30)) false rest
    else none

/-- The value of int(text), if it raises no ValueError. -/
def int10 (text : String) : Option ℤ :=
  match (stripInt text.toList).map toAscii with
  | '-' :: rest => (decDigits 0 true rest).map fun value => -(value : ℤ)
  | '+' :: rest => (decDigits 0 true rest).map fun value => (value : ℤ)
  | text => (decDigits 0 true text).map fun value => (value : ℤ)

example : [" 1_2\n", "-07", "1__2", "", "1.5", "+ 1"].map int10 =
    [some 12, some (-7), none, none, none, none] := by decide

end HpcProfiler.PythonText
