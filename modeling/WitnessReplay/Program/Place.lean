import WitnessReplay.Program.Basic

/-!
# Places in a program

A place is the way to a statement: the index of a function among the top-level items, then the index
of a child at each step down from the body. Statements are looked up, changed and searched by
places. `Stmt.occurrences` lists what is below a statement in the order of the text, each with the
way to it, and a search takes the first that passes a test.
-/

namespace WitnessReplay

/-- The way to a statement in a program. -/
structure Place where
  item : Nat
  steps : List Nat
deriving DecidableEq, Repr

/-- A statement below another one: the way to it, and whether it stands in the list of a block. -/
structure Occurrence where
  steps : List Nat
  inBlock : Bool
  stmt : Stmt
deriving Repr

/-- The same occurrence, seen from a parent that has its root as the child of an index. -/
def Occurrence.under (i : Nat) (o : Occurrence) : Occurrence :=
  { o with steps := i :: o.steps }

namespace Stmt

/-- The statement that is some steps below a statement. -/
def at? : List Nat → Stmt → Option Stmt
  | [], s => some s
  | i :: steps, s => s.children[i]?.bind (at? steps)

/-- Changes the statement that is some steps below a statement. -/
def modifyAt : List Nat → (Stmt → Stmt) → Stmt → Stmt
  | [], f, s => f s
  | i :: steps, f, s => s.mapChild i (modifyAt steps f)

mutual

/-- All statements below a statement, in the order of the text. -/
def occurrences : Stmt → List Occurrence
  | leaf .. => []
  | block _ items => occurrencesFrom 0 items
  | headed _ _ body => ⟨[0], false, body⟩ :: body.occurrences.map (·.under 0)
  | ifElse _ _ thenBranch elseBranch =>
    ⟨[0], false, thenBranch⟩ :: thenBranch.occurrences.map (·.under 0)
      ++ ⟨[1], false, elseBranch⟩ :: elseBranch.occurrences.map (·.under 1)

/-- All statements in and below the list of a block, which starts at an index. -/
def occurrencesFrom (i : Nat) : List Stmt → List Occurrence
  | [] => []
  | s :: rest =>
    ⟨[i], true, s⟩ :: s.occurrences.map (·.under i) ++ occurrencesFrom (i + 1) rest

end

/-- Changing a statement at a place and looking there finds what it was changed to. -/
theorem at?_modifyAt (steps : List Nat) (f : Stmt → Stmt) (s : Stmt) :
    (s.modifyAt steps f).at? steps = (s.at? steps).map f := by
  induction steps generalizing s with
  | nil => rfl
  | cons i steps ih =>
    simp only [modifyAt, at?, children_mapChild, List.getElem?_modify_eq]
    cases s.children[i]? with
    | none => rfl
    | some c => exact ih c

end Stmt

namespace Program

/-- The body of the function that is the item of an index. -/
def body? (p : Program) (i : Nat) : Option Stmt :=
  (p.items[i]?.bind Item.function?).map Function.body

/-- The statement at a place. -/
def stmtAt? (p : Program) (place : Place) : Option Stmt :=
  (p.body? place.item).bind (Stmt.at? place.steps)

/-- Changes the statement at a place. -/
def modifyAt (p : Program) (place : Place) (f : Stmt → Stmt) : Program :=
  ⟨p.items.modify place.item fun
    | .function d => .function { d with body := d.body.modifyAt place.steps f }
    | .verbatim text line => .verbatim text line⟩

/-- The list of the block that holds the statement at a place, and the index there. The index is the
last step of the place, whether or not the list reaches so far. -/
def enclosingList? (p : Program) (place : Place) : Option (List Stmt × Nat) :=
  match place.steps.getLast? with
  | none => none
  | some i =>
    match p.stmtAt? ⟨place.item, place.steps.dropLast⟩ with
    | some (.block _ items) => some (items, i)
    | _ => none

/-- Replaces the statement at a place, in the list of its block, by some statements. -/
def spliceAt (p : Program) (place : Place) (f : Stmt → List Stmt) : Program :=
  match place.steps.getLast? with
  | none => p
  | some i =>
    p.modifyAt ⟨place.item, place.steps.dropLast⟩ fun
      | .block l items =>
        .block l (items.take i ++ (items[i]?.map f).getD [] ++ items.drop (i + 1))
      | s => s

/-- All statements below the bodies of the functions among some items, in the order of the text,
each with its place and whether it stands in the list of a block. -/
def occurrencesFrom (i : Nat) : List Item → List (Place × Bool × Stmt)
  | [] => []
  | .function d :: rest =>
    d.body.occurrences.map (fun o => (⟨i, o.steps⟩, o.inBlock, o.stmt))
      ++ occurrencesFrom (i + 1) rest
  | .verbatim .. :: rest => occurrencesFrom (i + 1) rest

/-- All statements below the bodies of the functions of a program. -/
def occurrences (p : Program) : List (Place × Bool × Stmt) :=
  occurrencesFrom 0 p.items

/-- The place of the first statement that passes a test, which also takes whether the statement
stands in the list of a block. -/
def find? (p : Program) (test : Bool → Stmt → Bool) : Option Place :=
  (p.occurrences.find? fun (_, inBlock, s) => test inBlock s).map Prod.fst

end Program

end WitnessReplay
