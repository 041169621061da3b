import WitnessReplay.Proofs.Program.Context
import WitnessReplay.Proofs.Replay.Nearest

/-!
# The placement of a barrier

A search that finds a place for a barrier finds a statement in the list of a block. The list gets
the `yield` in front of the statement, and the `release` inside it or right behind it, as the kind
of the statement has it (`Stmt.Released`). All else in the program is what it was: the program
behind the placement is the program before, with another list in one block (`Program.BarredAt`).
-/

namespace WitnessReplay

namespace Stmt

/-- A body with a statement in front of all others in its block. A body that is no block gets one
around it, without a line, that holds the two and nothing else. -/
inductive Fronted (first : Stmt) : Stmt → Stmt → Prop
  | block {l : Option Nat} {items : List Stmt} :
      Fronted first (block l items) (block l (first :: items))
  | wrapped {body : Stmt} (h : body.isBlock = false) :
      Fronted first body (.block none [first, body])

/-- A statement, the statement that takes its place in a barrier, and what comes to stand behind
it. What is entered at its head is released inside, in every arm; what holds no statement, and what
a jump can enter elsewhere, is released behind. -/
inductive Released (frees : Stmt) : Stmt → Stmt → List Stmt → Prop
  | block {l : Option Nat} {items : List Stmt} :
      Released frees (block l items) (block l (frees :: items)) []
  | ifThen {l : Option Nat} {cond : Expr} {yes yes' : Stmt} (h : Fronted frees yes yes') :
      Released frees (headed l (.ifThen cond) yes) (headed l (.ifThen cond) yes') []
  | ifElse {l : Option Nat} {cond : Expr} {yes yes' no no' : Stmt} (hyes : Fronted frees yes yes')
      (hno : Fronted frees no no') :
      Released frees (ifElse l cond yes no) (ifElse l cond yes' no') []
  | whileDo {l : Option Nat} {cond : Expr} {body body' : Stmt} (h : Fronted frees body body') :
      Released frees (headed l (.whileDo cond) body) (headed l (.whileDo cond) body') []
  | doWhile {l : Option Nat} {cond : Expr} {body body' : Stmt} (h : Fronted frees body body') :
      Released frees (headed l (.doWhile cond) body) (headed l (.doWhile cond) body') []
  | forLoop {l : Option Nat} {header : String} {body body' : Stmt} (h : Fronted frees body body') :
      Released frees (headed l (.forLoop header) body) (headed l (.forLoop header) body') []
  | switch {l : Option Nat} {cond : Expr} {body : Stmt} :
      Released frees (headed l (.switch cond) body) (headed l (.switch cond) body) [frees]
  | label {l : Option Nat} {text : String} {body : Stmt} :
      Released frees (headed l (.label text) body) (headed l (.label text) body) [frees]
  | leaf {l : Option Nat} {content : Leaf} :
      Released frees (leaf l content) (leaf l content) [frees]

theorem fronted_prepend (first body : Stmt) : Fronted first body (prepend first body) := by
  cases hblock : body.isBlock with
  | true =>
    obtain ⟨l, items, rfl⟩ := isBlock_iff.1 hblock
    exact .block
  | false =>
    rw [prepend_of_not_block hblock]
    exact .wrapped hblock

/-- A statement between the markers of a barrier: the `yield`, then what takes the place of the
statement, then what comes behind it. -/
theorem guarded_eq_of_released (b : Barrier) (s : Stmt) :
    ∃ s' behind, Released b.frees s s' behind ∧
      guarded b.seq b.threadId s = [b.waits, s'] ++ behind := by
  have hfronted (body : Stmt) := fronted_prepend b.frees body
  cases s with
  | leaf l content => exact ⟨_, _, .leaf, rfl⟩
  | block l items => exact ⟨_, _, .block, rfl⟩
  | ifElse l cond yes no => exact ⟨_, _, .ifElse (hfronted yes) (hfronted no), rfl⟩
  | headed l head body =>
    cases head with
    | ifThen => exact ⟨_, _, .ifThen (hfronted body), rfl⟩
    | whileDo => exact ⟨_, _, .whileDo (hfronted body), rfl⟩
    | doWhile => exact ⟨_, _, .doWhile (hfronted body), rfl⟩
    | forLoop => exact ⟨_, _, .forLoop (hfronted body), rfl⟩
    | switch => exact ⟨_, _, .switch, rfl⟩
    | label => exact ⟨_, _, .label, rfl⟩

end Stmt

namespace Program

/-- A program with a barrier at the statement of a place: where the list of one block holds the
statement, at an index within the list, it holds the markers and what takes the place of the
statement. All that is not in the list is in the context of the block, and stays. -/
inductive BarredAt (b : Barrier) (place : Place) (target : Stmt) (p q : Program) : Prop
  | intro {c : Context} {l : Option Nat} {items : List Stmt} {i : Nat} {target' : Stmt}
      {behind : List Stmt}
      (hplace : place = ⟨c.place.item, c.place.steps ++ [i]⟩)
      (htarget : items[i]? = some target)
      (hreleased : Stmt.Released b.frees target target' behind)
      (hp : p = c.fill (.block l items))
      (hq : q = c.fill
        (.block l (items.take i ++ [b.waits, target'] ++ (behind ++ items.drop (i + 1)))))

variable {p : Program} {b : Barrier} {place : Place} {t : Stmt}

/-- What is put into the place of a statement of a block goes into its list, and nowhere else. -/
theorem spliceAt_fill {c : Context} {l : Option Nat} {items : List Stmt} {i : Nat}
    (ht : items[i]? = some t) (f : Stmt → List Stmt) :
    (c.fill (.block l items)).spliceAt ⟨c.place.item, c.place.steps ++ [i]⟩ f
      = c.fill (.block l (items.take i ++ f t ++ items.drop (i + 1))) := by
  rw [spliceAt, List.getLast?_concat, List.dropLast_concat]
  dsimp only
  rw [Context.modifyAt_fill]
  dsimp only
  rw [ht]
  rfl

/-- A barrier at a statement of a block. -/
theorem IsItem.barredAt (h : p.IsItem place t) (b : Barrier) :
    BarredAt b place t p (p.spliceAt place (Stmt.guarded b.seq b.threadId)) := by
  obtain ⟨items, i, hlist, ht⟩ := h
  obtain ⟨init, l, hsteps, hblock⟩ := enclosingList?_eq_some.1 hlist
  obtain ⟨c, hc, rfl⟩ := exists_context hblock
  have hplace : place = ⟨c.place.item, c.place.steps ++ [i]⟩ := by rw [hc, ← hsteps]
  obtain ⟨t', behind, hreleased, hguarded⟩ := Stmt.guarded_eq_of_released b t
  refine .intro hplace ht hreleased rfl ?_
  rw [hplace, spliceAt_fill ht, hguarded]
  simp only [List.append_assoc]

end Program

/-- **The placement of a barrier.** Whenever the search for a statement of a block finds a place, a
statement of a block stands there, and a barrier is placed at it: the list of the block is extended
around the statement, and all else stays as it was. A step that switches to the thread does just
this, and takes up the next number. -/
theorem Session.places_barrier (s : Session) {line : Nat} {place : Place}
    (h : s.program.statementFrom? line = some place) (thread : Int) :
    ∃ target q, IsFirst (StartingFrom line s.program.IsItem) place target ∧
      Program.BarredAt ⟨s.nextSeq, thread, line⟩ place target s.program q ∧
      s.program.insertBarrier? ⟨s.nextSeq, thread, line⟩ = some q ∧
      ∀ step : Transition, step.switch? s.activeThread = some (thread, line) →
        s.switch step = .ok ⟨q, s.nextSeq + 1, thread,
          { s.report with barriers := s.report.barriers ++ [⟨s.nextSeq, thread, line⟩] }⟩ := by
  obtain ⟨target, hfirst⟩ := Program.statementFrom?_eq_some_iff.1 h
  have hinsert : s.program.insertBarrier? ⟨s.nextSeq, thread, line⟩
      = some (s.program.spliceAt place (Stmt.guarded s.nextSeq thread)) := by
    rw [Program.insertBarrier?_eq_map, h]
    rfl
  refine ⟨target, _, hfirst, hfirst.1.1.barredAt ⟨s.nextSeq, thread, line⟩, hinsert, ?_⟩
  intro step hswitch
  rw [switch_eq, hswitch]
  dsimp only
  rw [hinsert]

theorem places_barrier_branchingSource :
    ∃ p place target q, Program.parse branchingSource = .ok p ∧ p.statementFrom? 4 = some place ∧
      p.IsItem place target ∧ Program.BarredAt ⟨0, 1, 4⟩ place target p q ∧
      (Session.start p []).switch ⟨some ⟨4, 1, 4, 0, ""⟩, ⟨none, none, some 1, none⟩⟩
        = .ok ⟨q, 1, 1, ⟨[⟨0, 1, 4⟩], []⟩⟩ := by
  have hall : ∃ p, Program.parse branchingSource = .ok p ∧ (p.statementFrom? 4).isSome := by
    decide +kernel
  obtain ⟨p, hp, hfound⟩ := hall
  obtain ⟨place, hplace⟩ := Option.isSome_iff_exists.1 hfound
  obtain ⟨target, q, hfirst, hbarred, -, hswitch⟩ :=
    (Session.start p []).places_barrier hplace 1
  exact ⟨p, place, target, q, hp, hplace, hfirst.1.1, hbarred, hswitch _ rfl⟩

end WitnessReplay
