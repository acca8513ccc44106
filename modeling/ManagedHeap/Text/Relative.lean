/-
# Addresses in messages, relative to a range

Where a range of memory is, differs from run to run.  `relative` shows a message so that two
runs can be compared: each number in hexadecimal notation that lies in the range, its end
included, becomes its distance from the start.  Other numbers that may be addresses are hidden:
those large enough, and small enough for a word.  The rest stays as it is.
-/
import ManagedHeap.Address

namespace ManagedHeap.Text

/-- The value of a hexadecimal digit. -/
def hexDigit? (c : Char) : Option Nat :=
  if '0' ≤ c ∧ c ≤ '9' then some (c.toNat - '0'.toNat)
  else if 'a' ≤ c ∧ c ≤ 'f' then some (c.toNat - 'a'.toNat + 10)
  else if 'A' ≤ c ∧ c ≤ 'F' then some (c.toNat - 'A'.toNat + 10)
  else none

/-- From here on a number is taken for an address. -/
def leastAddress : Nat := 1 <<< 40

/-- The number `n`, written `shown`, as a message about the range of `size` bytes from `base`
on shows it.  Numbers that do not fit in a word are no addresses. -/
def relativeText (base size n : Nat) (shown : String) : String :=
  if wordLimit ≤ n then shown
  else if base ≤ n ∧ n ≤ base + size then hexText (n - base)
  else if leastAddress ≤ n then "0x?"
  else shown

/-- What was read of a message when the next character comes. -/
inductive HexScan where
  /-- No part of a number. -/
  | outside
  /-- A zero. -/
  | zero
  /-- The sign of a number, without digits yet. -/
  | sign
  /-- A number, and how it is written so far. -/
  | number (n : Nat) (shown : String)

/-- The text that a scan holds back. -/
def HexScan.pending (base size : Nat) : HexScan → String
  | outside => ""
  | zero => "0"
  | sign => "0x"
  | number n shown => relativeText base size n shown

/-- Go on with a character that is no digit of a number. -/
def HexScan.restart (c : Char) : String × HexScan :=
  if c = '0' then ("", zero) else (c.toString, outside)

/-- Take a character.  Gives the text that is settled, and where the scan is then. -/
def HexScan.take (base size : Nat) (s : HexScan) (c : Char) : String × HexScan :=
  let other : String × HexScan :=
    let (text, next) := HexScan.restart c
    (s.pending base size ++ text, next)
  match s, hexDigit? c with
  | zero, _ => if c = 'x' then ("", sign) else other
  | sign, some d => ("", number d ("0x".push c))
  | number n shown, some d => ("", number (n * 16 + d) (shown.push c))
  | _, _ => other

/-- The settled parts of the rest of a message, in order. -/
def relativeParts (base size : Nat) (s : HexScan) : List Char → List String
  | [] => [s.pending base size]
  | c :: rest =>
    let (text, next) := s.take base size c
    text :: relativeParts base size next rest

/-- A message with its addresses relative to the range of `size` bytes from `base` on. -/
def relative (base size : Nat) (message : String) : String :=
  String.join (relativeParts base size .outside message.toList)

/-- A message about no range of memory, with its addresses hidden.  No word lies in the range
that is given here. -/
def hideAddresses (message : String) : String := relative wordLimit 0 message

end ManagedHeap.Text
