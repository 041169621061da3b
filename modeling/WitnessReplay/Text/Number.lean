/-!
# Integers in texts

Decimal integers of a bounded range: at least one digit, a plus sign allowed in front, and a minus
sign where the range has negative numbers. There are no blanks, no separators and no other digits
than those of ASCII.
-/

namespace WitnessReplay.Text

/-- The value of a sequence of digits behind `value`, or nothing if a character is no digit. -/
def digitsFrom? (value : Nat) : List Char → Option Nat
  | [] => some value
  | c :: rest =>
    if c.isDigit then digitsFrom? (10 * value + (c.toNat - '0'.toNat)) rest else none

/-- The value of a nonempty sequence of digits. -/
def digits? : List Char → Option Nat
  | [] => none
  | cs => digitsFrom? 0 cs

/-- A natural number below `bound`. -/
def natBelow? (bound : Nat) (cs : List Char) : Option Nat :=
  let digits := match cs with
    | '+' :: rest => rest
    | _ => cs
  (digits? digits).filter (· < bound)

/-- An integer that is at least `-bound` and less than `bound`. -/
def intWithin? (bound : Nat) (cs : List Char) : Option Int :=
  match cs with
  | '-' :: rest => ((digits? rest).filter (· ≤ bound)).map fun n => -(n : Int)
  | _ => (natBelow? bound cs).map fun n => (n : Int)

/-- A natural number of 64 bits. -/
def nat64? (cs : List Char) : Option Nat :=
  natBelow? UInt64.size cs

/-- A signed integer of 64 bits. -/
def int64? (cs : List Char) : Option Int :=
  intWithin? (UInt64.size / 2) cs

example : nat64? "+7".toList = some 7 ∧ nat64? "-0".toList = none ∧ int64? "-0".toList = some 0 ∧
    nat64? "18446744073709551615".toList = some 18446744073709551615 ∧
    nat64? "18446744073709551616".toList = none ∧
    int64? "-9223372036854775808".toList = some (-9223372036854775808) ∧
    int64? "9223372036854775808".toList = none := by decide +kernel

end WitnessReplay.Text
