-- Numerals: the hexadecimal fields that the listings write, and the
-- numerals in any base up to thirty-six that source text holds.

namespace WordMachine.Text

/-! ## Writing -/

/-- The upper-case hexadecimal digit of a value below sixteen. -/
def hexDigit (n : Nat) : Char :=
  if n < 10 then Char.ofNat ('0'.toNat + n) else Char.ofNat ('A'.toNat + (n - 10))

/-- The low `width` hexadecimal digits of a number, high digit first. -/
def hexField : Nat → Nat → List Char
  | 0, _ => []
  | width + 1, n => hexField width (n / 16) ++ [hexDigit (n % 16)]

theorem length_hexField (width n : Nat) : (hexField width n).length = width := by
  induction width generalizing n with
  | zero => rfl
  | succ width ih => simp [hexField, ih]

/-- A number in hexadecimal, filled up with zeros to `width` digits. A number
that needs more digits gets them. -/
def hex (width n : Nat) : String :=
  String.ofList (hexField (max width (n.log2 / 4 + 1)) n)

/-- The two digits of a byte. -/
def hexByte (b : UInt8) : String := String.ofList (hexField 2 b.toNat)

/-- The four digits of a word. -/
def hexWord (w : UInt16) : String := String.ofList (hexField 4 w.toNat)

/-! ## Reading -/

/-- The value of a digit, when it is a digit of the base. Both cases of the
letters count. -/
def digitValue? (base : Nat) (c : Char) : Option Nat :=
  let value :=
    if '0' ≤ c ∧ c ≤ '9' then some (c.toNat - '0'.toNat)
    else if 'a' ≤ c ∧ c ≤ 'z' then some (c.toNat - 'a'.toNat + 10)
    else if 'A' ≤ c ∧ c ≤ 'Z' then some (c.toNat - 'A'.toNat + 10)
    else none
  value.filter (· < base)

/-- The number that a non-empty row of digits denotes. -/
def readDigits? (base : Nat) : List Char → Option Nat
  | [] => none
  | cs => cs.foldlM (fun n c => (digitValue? base c).map (n * base + ·)) 0

/-- The number that a numeral denotes: digits with an optional plus sign. -/
def readNumeral? (base : Nat) : List Char → Option Nat
  | '+' :: digits => readDigits? base digits
  | digits => readDigits? base digits

end WordMachine.Text
