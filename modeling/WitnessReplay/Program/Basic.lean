/-!
# Programs

The tree of a C program, as deep as replaying a witness needs it. Statements that order the
execution are nodes; assignments, calls and initialized declarations are told apart; all else is
kept as text.

A statement has one of four shapes. A `leaf` holds no statement; a `block` holds a list; a `headed`
statement holds one statement under a head (a condition, a loop, a label); `ifElse` holds two. What
is said of all statements is then proved in four cases, and the kinds of heads and leaves matter
only where they are printed.

Every statement that was read carries the line of its first token. Statements that are inserted
later carry none, and that is how the two are told apart.
-/

namespace WitnessReplay

/-- An expression, opened up only where assignments and calls are concerned. -/
inductive Expr
  | assign (target : Expr) (op : String) (value : Expr)
  | call (callee : String) (args : List Expr)
  | ident (name : String)
  /-- A literal with its C type. -/
  | constant (type value : String)
  | raw (text : String)
deriving Repr, Inhabited

namespace Expr

/-- A literal of type `int`. -/
def int (value : String) : Expr :=
  constant "int" value

/-- The name, if the expression is one. -/
def ident? : Expr → Option String
  | ident name => some name
  | _ => none

end Expr

/-- A local declaration. `name` and `init` are set apart where there is one declarator with an
initializer; `text` is then all that stands before the equals sign. -/
structure Declaration where
  text : String
  name : Option String
  init : Option Expr
deriving Repr, Inhabited

/-- What a statement can be that holds no other. -/
inductive Leaf
  | returns (value : Option Expr)
  /-- A `break`, `continue` or `goto`, without its semicolon. -/
  | jump (text : String)
  | declares (declaration : Declaration)
  | evaluates (expr : Expr)
  | directive (text : String)
  | empty
deriving Repr, Inhabited

/-- What can stand over one statement. -/
inductive Head
  | ifThen (cond : Expr)
  | whileDo (cond : Expr)
  | doWhile (cond : Expr)
  /-- A `for` loop, with all that stands between its parentheses. -/
  | forLoop (header : String)
  | switch (cond : Expr)
  /-- A label with its colon. -/
  | label (text : String)
deriving Repr, Inhabited

/-- A statement and the line it starts on, if it was read from a text. -/
inductive Stmt
  | leaf (line : Option Nat) (content : Leaf)
  | block (line : Option Nat) (items : List Stmt)
  | headed (line : Option Nat) (head : Head) (body : Stmt)
  | ifElse (line : Option Nat) (cond : Expr) (thenBranch elseBranch : Stmt)
deriving Repr

namespace Stmt

instance : Inhabited Stmt := ⟨leaf none .empty⟩

/-- The line on which a statement starts. -/
def line : Stmt → Option Nat
  | leaf l _ | block l _ | headed l _ _ | ifElse l _ _ _ => l

/-- Whether a statement is a block. -/
def isBlock : Stmt → Bool
  | block .. => true
  | _ => false

/-- A statement that only calls a function; it has no line. -/
def call (callee : String) (args : List Expr) : Stmt :=
  leaf none (.evaluates (.call callee args))

/-- The statements directly inside a statement, in the order of the text. -/
def children : Stmt → List Stmt
  | leaf .. => []
  | block _ items => items
  | headed _ _ body => [body]
  | ifElse _ _ thenBranch elseBranch => [thenBranch, elseBranch]

/-- Replaces the statements directly inside a statement. -/
def mapChild (i : Nat) (f : Stmt → Stmt) : Stmt → Stmt
  | leaf l content => leaf l content
  | block l items => block l (items.modify i f)
  | headed l head body => if i = 0 then headed l head (f body) else headed l head body
  | ifElse l cond thenBranch elseBranch =>
    if i = 0 then ifElse l cond (f thenBranch) elseBranch
    else if i = 1 then ifElse l cond thenBranch (f elseBranch)
    else ifElse l cond thenBranch elseBranch

/-- Changing a child is changing the list of children at its index. -/
theorem children_mapChild (i : Nat) (f : Stmt → Stmt) (s : Stmt) :
    (s.mapChild i f).children = s.children.modify i f := by
  cases s with
  | leaf => simp [mapChild, children]
  | block => rfl
  | headed l head body =>
    match i with
    | 0 => rfl
    | i + 1 => simp [mapChild, children]
  | ifElse l cond a b =>
    match i with
    | 0 => rfl
    | 1 => rfl
    | i + 2 => simp [mapChild, children]

end Stmt

/-- A function definition. `header` is the text before the body, which is a block in every program
that was read. -/
structure Function where
  header : String
  name : String
  body : Stmt
  line : Option Nat
deriving Repr, Inhabited

/-- What stands at the top level of a program: a function, or a text that is kept as it is. -/
inductive Item
  | function (definition : Function)
  | verbatim (text : String) (line : Option Nat)
deriving Repr, Inhabited

namespace Item

/-- The function definition, if an item is one. -/
def function? : Item → Option Function
  | function f => some f
  | verbatim .. => none

end Item

/-- A whole C file. -/
structure Program where
  items : List Item
deriving Repr, Inhabited

namespace Program

/-- The function definitions of a program, in the order of the text. -/
def functions (p : Program) : List Function :=
  p.items.filterMap Item.function?

/-- The first function definition of a name. -/
def function? (p : Program) (name : String) : Option Function :=
  p.functions.find? (·.name == name)

end Program

end WitnessReplay
