import WitnessReplay.Program.Basic
import WitnessReplay.Text.Blank

/-!
# Preparation for linking

An instrumented program is linked with support code that defines the markers and the function that
reports the error. For that the program gets the prototypes of the markers; its own definition of
the error function gives way to a declaration; and its inline functions are made to exist outside
it.
-/

namespace WitnessReplay

/-- The function that a program calls when it reaches the error. -/
def errorFunction : String := "reach_error"

/-- The prototypes of the markers. -/
def markerPrototypes : String := "void yield(int, int);\nvoid release(int, int);"

/-- What was done for linking: whether the error function gave way, and which functions were made to
exist outside. -/
structure LinkReport where
  errorFunctionRelinked : Bool
  externInline : List String
deriving DecidableEq, Repr

/-- The words of a header. -/
def headerWords (header : String) : List String :=
  (Text.words header.toList).map String.ofList

/-- A header without some words, with one blank between the others. -/
def withoutWords (dropped : List String) (header : String) : String :=
  " ".intercalate ((headerWords header).filter fun w => !dropped.contains w)

/-- Whether a function is inline and can be linked from outside. -/
def Function.isSharedInline (f : Function) : Bool :=
  (headerWords f.header).contains "inline" && !(headerWords f.header).contains "static"

/-- An item as it is linked. -/
def Item.relinked : Item → Item
  | function f =>
    if f.name = errorFunction then
      verbatim ("extern " ++ withoutWords ["static", "inline", "extern"] f.header ++ ";") f.line
    else if f.isSharedInline then
      function { f with header := "extern inline " ++ withoutWords ["inline", "extern"] f.header }
    else function f
  | other => other

namespace Program

/-- The program as it is linked: the prototypes, then every item in its place. -/
def prepared (p : Program) : Program :=
  ⟨.verbatim markerPrototypes none :: p.items.map Item.relinked⟩

/-- What the preparation of a program changes. -/
def linkReport (p : Program) : LinkReport where
  errorFunctionRelinked := p.functions.any (·.name == errorFunction)
  externInline :=
    (p.functions.filter fun f => f.name != errorFunction && f.isSharedInline).map Function.name

end Program

end WitnessReplay
