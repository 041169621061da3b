import WitnessReplay.Program.Printer

/-!
# Programs without lines

Two programs that differ only in the lines of their statements are printed alike. `eraseLines` takes
the lines away, and printing does not see it (`Program.render_eraseLines`).
-/

namespace WitnessReplay

namespace Stmt

mutual

/-- A statement without its line and the lines of the statements inside. -/
def eraseLines : Stmt → Stmt
  | leaf _ content => leaf none content
  | block _ items => block none (eraseLinesOf items)
  | headed _ head body => headed none head body.eraseLines
  | ifElse _ cond thenBranch elseBranch =>
    ifElse none cond thenBranch.eraseLines elseBranch.eraseLines

/-- Statements without their lines. -/
def eraseLinesOf : List Stmt → List Stmt
  | [] => []
  | s :: rest => s.eraseLines :: eraseLinesOf rest

end

@[simp] theorem isBlock_eraseLines (s : Stmt) : s.eraseLines.isBlock = s.isBlock := by
  cases s <;> rfl

theorem bodyDepth_eraseLines (depth : Nat) (s : Stmt) :
    bodyDepth depth s.eraseLines = bodyDepth depth s := by
  rw [bodyDepth, isBlock_eraseLines, bodyDepth]

mutual

theorem lines_eraseLines (depth : Nat) : (s : Stmt) → s.eraseLines.lines depth = s.lines depth
  | leaf .. => rfl
  | block _ items => by
    rw [eraseLines, lines, lines, linesOf_eraseLinesOf _ items]
  | headed _ head body => by
    rw [eraseLines, lines, lines, bodyDepth_eraseLines, lines_eraseLines _ body]
  | ifElse _ cond thenBranch elseBranch => by
    rw [eraseLines, lines, lines, bodyDepth_eraseLines, bodyDepth_eraseLines,
      lines_eraseLines _ thenBranch, lines_eraseLines _ elseBranch]

theorem linesOf_eraseLinesOf (depth : Nat) :
    (items : List Stmt) → linesOf depth (eraseLinesOf items) = linesOf depth items
  | [] => rfl
  | s :: rest => by
    rw [eraseLinesOf, linesOf, linesOf, lines_eraseLines _ s, linesOf_eraseLinesOf _ rest]

end

mutual

/-- The texts of the directives that are statements, in the order of the text. -/
def directives : Stmt → List String
  | leaf _ (.directive text) => [text]
  | leaf _ _ => []
  | block _ items => directivesOf items
  | headed _ _ body => body.directives
  | ifElse _ _ thenBranch elseBranch => thenBranch.directives ++ elseBranch.directives

/-- The texts of the directives among and below the statements of a list. -/
def directivesOf : List Stmt → List String
  | [] => []
  | s :: rest => s.directives ++ directivesOf rest

end

end Stmt

/-- A top-level item without lines. -/
def Item.eraseLines : Item → Item
  | function f => function { f with body := f.body.eraseLines, line := none }
  | verbatim text _ => verbatim text none

/-- The texts of the directives that are statements in the body of a function. -/
def Item.directives : Item → List String
  | function f => f.body.directives
  | verbatim .. => []

theorem Item.lines_eraseLines (item : Item) : item.eraseLines.lines = item.lines := by
  cases item with
  | function f =>
    show (⟨0, f.header⟩ : Line) :: f.body.eraseLines.lines 0 = ⟨0, f.header⟩ :: f.body.lines 0
    rw [Stmt.lines_eraseLines]
  | verbatim text line => rfl

namespace Program

/-- A program without lines. -/
def eraseLines (p : Program) : Program :=
  ⟨p.items.map Item.eraseLines⟩

/-- Printing does not see the lines of statements. -/
theorem render_eraseLines (p : Program) : p.eraseLines.render = p.render := by
  have hlines : p.eraseLines.lines = p.lines := by
    simp [lines, eraseLines, List.flatMap_map, Item.lines_eraseLines]
  rw [render, hlines, render]

/-- The texts of the directives that are statements in the bodies of functions. -/
def directives (p : Program) : List String :=
  p.items.flatMap Item.directives

end Program

end WitnessReplay
