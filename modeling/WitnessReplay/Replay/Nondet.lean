import WitnessReplay.Program.Basic

/-!
# Nondeterministic values

A program asks for a value that it does not determine by calling a function of a fixed family. The
name of the function says the type of the value. A value is taken up where the call is the right
side of an assignment to a variable or of its declaration.
-/

namespace WitnessReplay

/-- What the names of the family begin with. -/
def nondetStem : String := "__VERIFIER_nondet_"

/-- The rest of each name of the family, and the type of the value. -/
def nondetTypes : List (String × String) := [
  ("bool", "_Bool"),
  ("char", "char"),
  ("charp", "char*"),
  ("const_char_pointer", "const char*"),
  ("double", "double"),
  ("float", "float"),
  ("int", "int"),
  ("long", "long"),
  ("longlong", "long long"),
  ("pointer", "void*"),
  ("short", "short"),
  ("size_t", "size_t"),
  ("u16", "uint16_t"),
  ("u32", "uint32_t"),
  ("u8", "uint8_t"),
  ("uchar", "unsigned char"),
  ("uint", "unsigned int"),
  ("uint128", "unsigned __int128"),
  ("ulong", "unsigned long"),
  ("ulonglong", "unsigned long long"),
  ("unsigned", "unsigned"),
  ("unsigned_char", "unsigned char"),
  ("unsigned_int", "unsigned int"),
  ("ushort", "unsigned short")]

/-- The type of the value that a function of the family gives. -/
def nondetType? (callee : String) : Option String :=
  (nondetTypes.find? fun (name, _) => nondetStem ++ name == callee).map Prod.snd

namespace Expr

/-- The type of the value, if an expression is a call to a function of the family. -/
def nondetType? : Expr → Option String
  | call callee _ => WitnessReplay.nondetType? callee
  | _ => none

/-- Whether an expression is a call to a function of the family. -/
def isNondet (e : Expr) : Bool :=
  e.nondetType?.isSome

end Expr

/-- A place where a nondeterministic value is taken up: the variable and the type of the value. -/
structure NondetSlot where
  name : String
  type : String
deriving DecidableEq, Repr

namespace Leaf

/-- The slot of a statement, if it has one. -/
def nondetSlot? : Leaf → Option NondetSlot
  | evaluates (.assign (.ident name) op value) =>
    if op = "=" then value.nondetType?.map fun type => ⟨name, type⟩ else none
  | declares ⟨_, some name, some init⟩ =>
    init.nondetType?.map fun type => ⟨name, type⟩
  | _ => none

/-- Puts an expression into the place of the value that a statement assigns. -/
def withValue (value : Expr) : Leaf → Leaf
  | evaluates (.assign target op _) => evaluates (.assign target op value)
  | declares d => declares { d with init := some value }
  | other => other

end Leaf

namespace Stmt

/-- The slot of a statement, if it has one. -/
def nondetSlot? : Stmt → Option NondetSlot
  | leaf _ content => content.nondetSlot?
  | _ => none

/-- Whether a statement assigns a nondeterministic value to a variable, or declares one with it. -/
def isNondetAssignment : Stmt → Bool
  | leaf _ (.evaluates (.assign target op value)) =>
    op == "=" && target.ident?.isSome && value.isNondet
  | leaf _ (.declares d) => d.name.isSome && d.init.any Expr.isNondet
  | _ => false

/-- Puts an expression into the place of the value that a statement assigns. -/
def withValue (value : Expr) : Stmt → Stmt
  | leaf l content => leaf l (content.withValue value)
  | other => other

/-- A statement has a slot exactly if it assigns a nondeterministic value. -/
theorem isSome_nondetSlot? (s : Stmt) : s.nondetSlot?.isSome = s.isNondetAssignment := by
  match s with
  | leaf _ (.evaluates (.assign target op value)) =>
    cases target <;> by_cases h : op = "=" <;>
      simp [nondetSlot?, Leaf.nondetSlot?, isNondetAssignment, Expr.ident?, Expr.isNondet, h]
  | leaf _ (.declares ⟨_, name, init⟩) =>
    cases name <;> cases init <;>
      simp [nondetSlot?, Leaf.nondetSlot?, isNondetAssignment, Expr.isNondet]
  | leaf _ (.evaluates (.call ..)) | leaf _ (.evaluates (.ident _))
  | leaf _ (.evaluates (.constant ..)) | leaf _ (.evaluates (.raw _)) | leaf _ (.returns _)
  | leaf _ (.jump _) | leaf _ (.directive _) | leaf _ .empty => rfl
  | block .. | headed .. | ifElse .. => rfl

end Stmt

end WitnessReplay
