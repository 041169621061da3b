import WitnessReplay.Program.Basic

/-!
# Printing programs

A program is printed as a list of lines, each a text at a depth of indentation. Every statement
begins a line of its own; braces stand alone on their lines; a statement that is no block stands one
level deeper than the head above it, except under a label. Directives stay at the margin whatever
surrounds them, since a number sign counts only where it begins a line.
-/

namespace WitnessReplay

/-- A printed line. A text that was kept as it is may contain line ends of its own. -/
structure Line where
  depth : Nat
  text : String
deriving DecidableEq, Repr

/-- A line with four blanks for each level before it. -/
def Line.render (l : Line) : String :=
  String.ofList (List.replicate (4 * l.depth) ' ') ++ l.text ++ "\n"

namespace Expr

mutual

/-- The text of an expression. A constant of a type other than `int` is cast to it. -/
def render : Expr → String
  | assign target op value => target.render ++ " " ++ op ++ " " ++ value.render
  | call callee args => callee ++ "(" ++ renderArguments args ++ ")"
  | ident name => name
  | constant type value => if type = "int" then value else "((" ++ type ++ ") " ++ value ++ ")"
  | raw text => text

/-- The texts of expressions between commas. -/
def renderArguments : List Expr → String
  | [] => ""
  | [e] => e.render
  | e :: rest => e.render ++ ", " ++ renderArguments rest

end

end Expr

/-- The text of a declaration. -/
def Declaration.render (d : Declaration) : String :=
  match d.init with
  | some init => d.text ++ " = " ++ init.render
  | none => d.text

/-- The line of a statement that holds no other. -/
def Leaf.render (depth : Nat) : Leaf → Line
  | returns (some value) => ⟨depth, "return " ++ value.render ++ ";"⟩
  | returns none => ⟨depth, "return;"⟩
  | jump text => ⟨depth, text ++ ";"⟩
  | declares d => ⟨depth, d.render ++ ";"⟩
  | evaluates e => ⟨depth, e.render ++ ";"⟩
  | directive text => ⟨0, text⟩
  | empty => ⟨depth, ";"⟩

namespace Head

/-- The text above the statement under a head. -/
def opening : Head → String
  | ifThen cond => "if (" ++ cond.render ++ ")"
  | whileDo cond => "while (" ++ cond.render ++ ")"
  | doWhile _ => "do"
  | forLoop header => "for (" ++ header ++ ")"
  | switch cond => "switch (" ++ cond.render ++ ")"
  | label text => text

/-- The line below the statement under a head, if there is one. -/
def closing (depth : Nat) : Head → List Line
  | doWhile cond => [⟨depth, "while (" ++ cond.render ++ ");"⟩]
  | _ => []

/-- Whether the statement under a head is set off from it. -/
def indents : Head → Bool
  | label _ => false
  | _ => true

end Head

namespace Stmt

/-- The depth of a statement that stands under a head or in a branch at some depth. -/
def bodyDepth (depth : Nat) (body : Stmt) : Nat :=
  if body.isBlock then depth else depth + 1

mutual

/-- The lines of a statement. -/
def lines (depth : Nat) : Stmt → List Line
  | leaf _ content => [content.render depth]
  | block _ items => ⟨depth, "\x7b"⟩ :: linesOf (depth + 1) items ++ [⟨depth, "\x7d"⟩]
  | headed _ head body =>
    ⟨depth, head.opening⟩ :: body.lines (if head.indents then bodyDepth depth body else depth)
      ++ head.closing depth
  | ifElse _ cond thenBranch elseBranch =>
    ⟨depth, "if (" ++ cond.render ++ ")"⟩ :: thenBranch.lines (bodyDepth depth thenBranch)
      ++ ⟨depth, "else"⟩ :: elseBranch.lines (bodyDepth depth elseBranch)

/-- The lines of the statements of a block. -/
def linesOf (depth : Nat) : List Stmt → List Line
  | [] => []
  | s :: rest => s.lines depth ++ linesOf depth rest

end

end Stmt

/-- The lines of a top-level item. -/
def Item.lines : Item → List Line
  | function f => ⟨0, f.header⟩ :: f.body.lines 0
  | verbatim text _ => [⟨0, text⟩]

/-- The lines of a program. -/
def Program.lines (p : Program) : List Line :=
  p.items.flatMap Item.lines

/-- The text of a program. -/
def Program.render (p : Program) : String :=
  String.join (p.lines.map Line.render)

end WitnessReplay
