/-
# Sizes in bytes, as people read and write them

* `exactText` writes a size with the largest of the units G, M and K that leaves it a whole
  number, so nothing is lost; it is how an option shows its value.
* `roundedText` writes at least two digits in the largest unit that allows it, rounding
  down; it is how messages about occupancy show a size.
* `readSize` reads a number with an optional unit in either case, and accepts no size that
  does not fit in a word.
-/
import ManagedHeap.Text.Number
import ManagedHeap.Text.Blank
import ManagedHeap.Text.Quoted

namespace ManagedHeap.ByteSize

/-! ## 1. Units -/

/-- A unit: a power of two of bytes. -/
inductive Magnitude where
  | kilo
  | mega
  | giga
  deriving DecidableEq, Repr

/-- The binary logarithm of the unit. -/
def Magnitude.shift : Magnitude → Nat
  | .kilo => 10
  | .mega => 20
  | .giga => 30

/-- The bytes in the unit. -/
def Magnitude.bytes (u : Magnitude) : Nat := 1 <<< u.shift

/-- The letter that stands for the unit. -/
def Magnitude.letter : Magnitude → String
  | .kilo => "K"
  | .mega => "M"
  | .giga => "G"

/-- The unit a letter stands for. -/
def Magnitude.ofLetter? : Char → Option Magnitude
  | 'k' | 'K' => some .kilo
  | 'm' | 'M' => some .mega
  | 'g' | 'G' => some .giga
  | _ => none

/-- The largest unit that divides a size other than zero. -/
def Magnitude.dividing? (n : Nat) : Option Magnitude :=
  if n = 0 then none
  else if n % Magnitude.giga.bytes = 0 then some .giga
  else if n % Magnitude.mega.bytes = 0 then some .mega
  else if n % Magnitude.kilo.bytes = 0 then some .kilo
  else none

/-- The largest unit of which a size holds ten. -/
def Magnitude.tenfold? (n : Nat) : Option Magnitude :=
  if 10 * Magnitude.giga.bytes ≤ n then some .giga
  else if 10 * Magnitude.mega.bytes ≤ n then some .mega
  else if 10 * Magnitude.kilo.bytes ≤ n then some .kilo
  else none

/-! ## 2. Writing -/

/-- A size in a unit, rounded down; in bytes when there is no unit. -/
def textIn (unit : Option Magnitude) (n : Nat) : String :=
  match unit with
  | some u => toString (n / u.bytes) ++ u.letter
  | none => toString n ++ "B"

/-- A size without loss. -/
def exactText (n : Nat) : String := textIn (Magnitude.dividing? n) n

/-- A size in its most readable unit, rounded down. -/
def roundedText (n : Nat) : String := textIn (Magnitude.tenfold? n) n

/-- The percentage of `part` in `whole`, and zero for an empty whole. -/
def percentOf (part whole : Nat) : Float :=
  if whole = 0 then 0.0
  else (UInt64.ofNat part).toFloat * 100.0 / (UInt64.ofNat whole).toFloat

/-! ## 3. Reading -/

/-- Why a text is not a size.  Both causes quote the text without the blanks around it. -/
inductive ReadError where
  | number (text : List Char) (cause : Text.NumberError)
  | tooLarge (text : List Char)
  deriving DecidableEq, Repr

/-- The wording of the error. -/
def ReadError.message : ReadError → String
  | .number text cause =>
    "Failed to parse size " ++ Text.quoted (String.ofList text) ++ ": " ++ cause.message
  | .tooLarge text => "Size " ++ Text.quoted (String.ofList text) ++ " overflows"

/-- The number part of a text, and the binary logarithm of its unit. -/
def splitUnit (cs : List Char) : List Char × Nat :=
  match cs.getLast?.bind Magnitude.ofLetter? with
  | some u => (cs.dropLast, u.shift)
  | none => (cs, 0)

/-- Read a size. -/
def readSize (s : List Char) : Except ReadError Nat :=
  let cs := Text.trim s
  let (digits, shift) := splitUnit cs
  match Text.readNumber digits with
  | .error cause => .error (.number cs cause)
  | .ok n => if n <<< shift < wordLimit then .ok (n <<< shift) else .error (.tooLarge cs)

end ManagedHeap.ByteSize
