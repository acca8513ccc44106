/-
# Numbers in decimal notation

Reading: `readNumber` accepts an optional `+` and one or more decimal digits whose value is
below `wordLimit`.  Of two faults in a text the one further left is reported.

Writing: `fixedTwo` writes a floating-point number with two decimals.  The number is the
exact fraction its bits stand for, and a fraction half way between two neighbours goes to
the even one.  `bitsText` writes the bits themselves, which loses nothing.
-/
import ManagedHeap.Address

namespace ManagedHeap.Text

/-! ## 1. Reading -/

/-- Why a text is not the number of a word. -/
inductive NumberError where
  | empty
  | invalidDigit
  | tooLarge
  deriving DecidableEq, Repr

/-- The wording of the error. -/
def NumberError.message : NumberError → String
  | .empty => "cannot parse integer from empty string"
  | .invalidDigit => "invalid digit found in string"
  | .tooLarge => "number too large to fit in target type"

/-- The value of a decimal digit. -/
def digitValue? (c : Char) : Option Nat :=
  if '0' ≤ c ∧ c ≤ '9' then some (c.toNat - '0'.toNat) else none

/-- Read the digits after a number `acc`. -/
def readDigits (acc : Nat) : List Char → Except NumberError Nat
  | [] => .ok acc
  | c :: rest =>
    match digitValue? c with
    | none => .error .invalidDigit
    | some d =>
      if acc * 10 + d < wordLimit then readDigits (acc * 10 + d) rest else .error .tooLarge

/-- Read a number with an optional `+`. -/
def readNumber : List Char → Except NumberError Nat
  | [] => .error .empty
  | ['+'] => .error .invalidDigit
  | '+' :: rest => readDigits 0 rest
  | cs => readDigits 0 cs

/-! ## 2. Writing with two decimals -/

/-- The integer nearest to `num / den`, the even one of two equally near. -/
def roundHalfEven (num den : Nat) : Nat :=
  let q := num / den
  let r := num % den
  if den < 2 * r || (den == 2 * r && q % 2 == 1) then q + 1 else q

/-- A finite, non-negative double is `mantissa * 2 ^ (exponent - 1075)`. -/
structure DoubleParts where
  mantissa : Nat
  exponent : Nat

/-- The parts of a double, from its bits. -/
def DoubleParts.ofBits (bits : Nat) : DoubleParts :=
  let e := (bits >>> 52) % 2048
  let f := bits % (1 <<< 52)
  if e = 0 then ⟨f, 1⟩ else ⟨f + (1 <<< 52), e⟩

/-- The number of hundredths nearest to the double. -/
def DoubleParts.hundredths (p : DoubleParts) : Nat :=
  if 1075 ≤ p.exponent then (p.mantissa * 100) <<< (p.exponent - 1075)
  else roundHalfEven (p.mantissa * 100) (1 <<< (1075 - p.exponent))

/-- A non-negative double with two decimals. -/
def fixedTwo (x : Float) : String :=
  let n := (DoubleParts.ofBits x.toBits.toNat).hundredths
  let cents := n % 100
  toString (n / 100) ++ "." ++ (if cents < 10 then "0" else "") ++ toString cents

/-! ## 3. Writing the bits of a double -/

/-- The bits of a double as sixteen hexadecimal digits. -/
def bitsText (x : Float) : String :=
  let digits := hexDigits x.toBits.toNat
  String.ofList (List.replicate (16 - digits.length) '0') ++ digits

end ManagedHeap.Text
