/-!
# JSON values

Values of JSON as settings and reports need them. A number is a decimal: an integer over a power of
ten, so that whole numbers are told from others without rounding. The fields of an object are kept
in their order.
-/

namespace WitnessReplay

/-- A value of JSON. -/
inductive Json
  | null
  | bool (b : Bool)
  /-- The number `mantissa / 10 ^ places`. -/
  | number (mantissa : Int) (places : Nat)
  | string (s : String)
  | array (items : List Json)
  | object (fields : List (String × Json))
deriving Repr

namespace Json

instance : Inhabited Json := ⟨null⟩

/-- A whole number. -/
def int (n : Int) : Json := number n 0

/-- A natural number. -/
def nat (n : Nat) : Json := int n

/-- A value, or null where there is none. -/
def ofOption {α : Type} (f : α → Json) : Option α → Json
  | none => null
  | some a => f a

/-- The text, if a value is one. -/
def string? : Json → Option String
  | string s => some s
  | _ => none

/-- The natural number below a bound, if a value is one. A number written with places is none, even
if they are zeros. -/
def natBelow? (bound : Nat) : Json → Option Nat
  | number m 0 => if 0 ≤ m ∧ m < bound then some m.toNat else none
  | _ => none

/-- The items, if a value is an array. -/
def array? : Json → Option (List Json)
  | array items => some items
  | _ => none

end Json

end WitnessReplay
