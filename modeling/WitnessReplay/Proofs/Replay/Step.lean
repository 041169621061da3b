import WitnessReplay.Proofs.Program.Lined
import WitnessReplay.Proofs.Replay.Marker

/-!
# What a step does to a program

A step of a replay changes a program in two ways: a value is put into a statement (`PinnedBy`), and
a statement of a block is put between markers (`GuardedBy`). Both are replacements of one statement.
What a whole replay keeps is proved of these two.
-/

namespace WitnessReplay

/-- What starts from a line on has a line. -/
theorem Stmt.line_isSome_of_startsFrom {line : Nat} {s : Stmt} (h : s.startsFrom line) :
    s.line.isSome := by
  cases hl : s.line with
  | none => simp [Stmt.startsFrom, hl] at h
  | some l => rfl

namespace Program

/-- A program in which a nondeterministic value was replaced by the constant of a report. -/
inductive PinnedBy (pinned : Pinned) (p q : Program) : Prop
  | intro {l : Nat} {content : Leaf} (hslot : content.nondetSlot? = some ⟨pinned.name, pinned.type⟩)
      (hl : pinned.line = some l)
      (h : Replaced (.leaf (some l) content)
        (.leaf (some l) (content.withValue (.constant pinned.type pinned.value))) p q)

/-- A program in which a statement of a block was put between the markers of a barrier. -/
inductive GuardedBy (b : Barrier) (target : Stmt) (p q : Program) : Prop
  | intro {l : Option Nat} {before after : List Stmt} (hl : target.line.isSome)
      (h : Replaced (.block l (before ++ target :: after))
        (.block l (before ++ Stmt.guarded b.seq b.threadId target ++ after)) p q)

variable {p q : Program} {b : Barrier} {target : Stmt} {pinned : Pinned}

/-- What a pin changes is the value of one assignment. -/
theorem pinnedBy_of_pin? {assumption : String} {line : Nat}
    (h : p.pin? assumption line = some (q, pinned)) : PinnedBy pinned p q := by
  obtain ⟨place, hplace, h⟩ := Option.bind_eq_some_iff.1 h
  obtain ⟨t, ht, h⟩ := Option.bind_eq_some_iff.1 h
  obtain ⟨slot, hslot, h⟩ := Option.bind_eq_some_iff.1 h
  obtain ⟨constraint, -, h⟩ := Option.bind_eq_some_iff.1 h
  cases h
  obtain ⟨inBlock, t', d, -, -, ht', htest⟩ := find?_eq_some hplace
  obtain rfl : t = t' := Option.some.inj (ht.symm.trans ht')
  have hl := Stmt.line_isSome_of_startsFrom (Bool.and_eq_true_iff.1 htest).1
  cases t with
  | block | headed | ifElse => cases hslot
  | leaf l content =>
    obtain ⟨l, rfl⟩ := Option.isSome_iff_exists.1 hl
    exact .intro hslot rfl (replaced_modifyAt ht rfl)

/-- The statement at which a barrier is placed. -/
def target? (p : Program) (line : Nat) : Option Stmt :=
  (p.statementFrom? line).bind p.stmtAt?

/-- What a barrier changes is the statement at which it is placed. -/
theorem guardedBy_of_insertBarrier? (h : p.insertBarrier? b = some q) :
    ∃ target, p.target? b.line = some target ∧ GuardedBy b target p q := by
  rw [insertBarrier?_eq_map] at h
  obtain ⟨place, hplace, rfl⟩ := Option.map_eq_some_iff.1 h
  obtain ⟨inBlock, t, d, hd, ho, htarget, htest⟩ := find?_eq_some hplace
  obtain ⟨hblock, hstarts⟩ := Bool.and_eq_true_iff.1 htest
  obtain ⟨init, l, before, after, hsteps, hinit⟩ := (Stmt.at?_of_mem_occurrences ho).2 hblock
  obtain ⟨item, steps⟩ := place
  dsimp only at hsteps hd
  have hold : p.stmtAt? ⟨item, init⟩ = some (.block l (before ++ t :: after)) :=
    stmtAt?_eq_some.2 ⟨d, hd, hinit⟩
  rw [spliceAt, hsteps, List.getLast?_concat, List.dropLast_concat]
  exact ⟨t, by simp [target?, hplace, htarget],
    .intro (Stmt.line_isSome_of_startsFrom hstarts) (replaced_modifyAt hold (by simp))⟩

/-! ### What the changes keep -/

variable {bs : List Barrier}

theorem PinnedBy.placed (h : PinnedBy pinned p q) (hp : p.Every (Stmt.Placed bs)) :
    q.Every (Stmt.Placed bs) := by
  obtain ⟨-, -, h⟩ := h
  refine h.every ?_ (fun _ => Stmt.every_leaf) hp
  intro inBlock s s' hreplaced hs
  exact hs.of_replaced hreplaced (Stmt.resembles_of_line rfl rfl rfl) fun _ => .lined rfl

/-- A barrier adds its own markers, which are placed by it. -/
theorem GuardedBy.placed (h : GuardedBy b target p q) (hb : b ∈ bs)
    (hp : p.Every (Stmt.Placed bs)) : q.Every (Stmt.Placed bs) := by
  obtain ⟨hl, h⟩ := h
  refine h.every ?_ ?_ hp
  · intro inBlock s s' hreplaced hs
    refine hs.of_replaced hreplaced ⟨rfl, rfl, rfl⟩ ?_
    intro inBlock hs
    cases hs with
    | lined hl => exact .lined hl
    | wrapper hs hl' hblock =>
      -- the target is what the wrapper was put around, and stays alone in it
      have hmarker := Stmt.isMarker_eq_false (.inl hl)
      obtain ⟨hbefore, rfl, hafter⟩ := Stmt.unmarked_eq_singleton hmarker hs
      obtain ⟨t, ht, hlook⟩ := Stmt.unmarked_guarded hmarker
      refine .wrapper ?_ (hlook.line ▸ hl) (hlook.isBlock.trans hblock)
      rw [Stmt.unmarked_append, Stmt.unmarked_append, hbefore, ht, hafter]
      rfl
  · intro hold
    rw [Stmt.every_block] at hold ⊢
    simp only [List.mem_append, List.mem_cons] at hold ⊢
    intro c hc
    rcases hc with (hc | hc) | hc
    · exact hold c (.inl hc)
    · exact Stmt.placed_guarded hb hl (hold _ (.inr (.inl rfl))).2 c hc
    · exact hold c (.inr (.inr hc))

end Program

/-! ### Sessions -/

/-- The thread and the line of a step that switches threads. -/
def Transition.switch? (active : Int) (step : Transition) : Option (Int × Nat) :=
  match step.coords, step.metadata.threadId with
  | some coords, some thread => if thread = active then none else some (thread, coords.startline)
  | _, _ => none

/-- A step switches threads if it has a position and names another thread than the active one. -/
theorem Transition.switch?_eq_some_iff {step : Transition} {active thread : Int} {line : Nat} :
    step.switch? active = some (thread, line) ↔
      ∃ coords, step.coords = some coords ∧ step.metadata.threadId = some thread ∧
        thread ≠ active ∧ coords.startline = line := by
  rw [switch?]
  constructor
  · intro h
    split at h
    next coords thread' hcoords hthread =>
      split at h
      next => cases h
      next hne =>
        cases h
        exact ⟨coords, hcoords, hthread, hne, rfl⟩
    next => cases h
  · rintro ⟨coords, hcoords, hthread, hne, rfl⟩
    rw [hcoords, hthread]
    exact if_neg hne

namespace Session

variable {s next : Session} {step : Transition}

/-- A step pins a value or does not. -/
theorem pin_cases (s : Session) (step : Transition) :
    s.pin step = s ∨ ∃ q pinned, Program.PinnedBy pinned s.program q ∧
      s.pin step = { s with
        program := q
        report := { s.report with pinned := s.report.pinned ++ [pinned] } } := by
  rw [pin]
  split
  next =>
    split
    next h => exact .inr ⟨_, _, Program.pinnedBy_of_pin? h, rfl⟩
    next => exact .inl rfl
  next => exact .inl rfl

theorem pin_activeThread : (s.pin step).activeThread = s.activeThread := by
  rcases s.pin_cases step with heq | ⟨q, pinned, -, heq⟩ <;> rw [heq]

theorem pin_nextSeq : (s.pin step).nextSeq = s.nextSeq := by
  rcases s.pin_cases step with heq | ⟨q, pinned, -, heq⟩ <;> rw [heq]

theorem pin_barriers : (s.pin step).report.barriers = s.report.barriers := by
  rcases s.pin_cases step with heq | ⟨q, pinned, -, heq⟩ <;> rw [heq]

/-- A step inserts a barrier if it switches threads, and fails if there is no place for one. -/
theorem switch_eq (s : Session) (step : Transition) :
    s.switch step =
      match step.switch? s.activeThread with
      | none => .ok s
      | some (thread, line) =>
        match s.program.insertBarrier? ⟨s.nextSeq, thread, line⟩ with
        | none => .error (.noTargetStatement line)
        | some q => .ok ⟨q, s.nextSeq + 1, thread,
          { s.report with barriers := s.report.barriers ++ [⟨s.nextSeq, thread, line⟩] }⟩ := by
  rw [switch, Transition.switch?]
  cases step.coords with
  | none => rfl
  | some coords =>
    cases step.metadata.threadId with
    | none => exact if_pos rfl
    | some thread =>
      dsimp only [Option.getD_some]
      by_cases hactive : thread = s.activeThread
      · rw [if_pos hactive, if_pos hactive]
      · cases hinsert : s.program.insertBarrier? ⟨s.nextSeq, thread, coords.startline⟩ <;>
          simp [hactive, hinsert]

/-- A step inserts a barrier exactly if it switches threads. -/
theorem switch_eq_ok (h : s.switch step = .ok next) :
    (step.switch? s.activeThread = none ∧ next = s) ∨
      ∃ thread line q, step.switch? s.activeThread = some (thread, line) ∧
        s.program.insertBarrier? ⟨s.nextSeq, thread, line⟩ = some q ∧
        next = ⟨q, s.nextSeq + 1, thread,
          { s.report with barriers := s.report.barriers ++ [⟨s.nextSeq, thread, line⟩] }⟩ := by
  rw [switch_eq] at h
  split at h
  next hnone =>
    cases h
    exact .inl ⟨hnone, rfl⟩
  next thread line hswitch =>
    split at h
    next => cases h
    next q hq =>
      cases h
      exact .inr ⟨thread, line, q, hswitch, hq, rfl⟩

/-- A step places a barrier exactly if it switches threads. -/
theorem switch_cases (h : s.switch step = .ok next) :
    (step.switch? s.activeThread = none ∧ next = s) ∨
      ∃ thread line target q, step.switch? s.activeThread = some (thread, line) ∧
        s.program.target? line = some target ∧
        Program.GuardedBy ⟨s.nextSeq, thread, line⟩ target s.program q ∧
        next = ⟨q, s.nextSeq + 1, thread,
          { s.report with barriers := s.report.barriers ++ [⟨s.nextSeq, thread, line⟩] }⟩ := by
  rcases switch_eq_ok h with hstays | ⟨thread, line, q, hswitch, hq, rfl⟩
  · exact .inl hstays
  · obtain ⟨target, htarget, hguarded⟩ := Program.guardedBy_of_insertBarrier? hq
    exact .inr ⟨thread, line, target, q, hswitch, htarget, hguarded, rfl⟩

/-- The first step of a replay that succeeds does, and so does the rest. -/
theorem next_of_run {s' : Session} {rest : List Transition}
    (h : s.run (step :: rest) = (s', none)) :
    ∃ next, (s.pin step).switch step = .ok next ∧ next.run rest = (s', none) := by
  rw [run] at h
  split at h
  next next hnext => exact ⟨next, hnext, h⟩
  next => cases h

/-- What the pins and the barriers of some steps keep holds after a replay of them, whether or not
it failed. -/
theorem run_induct_of_mem {I : Session → Prop} (steps : List Transition)
    (hpin : ∀ s, ∀ step ∈ steps, I s → I (s.pin step))
    (hswitch : ∀ s, ∀ step ∈ steps, ∀ next, s.switch step = .ok next → I s → I next) (h : I s) :
    I (s.run steps).1 := by
  induction steps generalizing s with
  | nil => exact h
  | cons step rest ih =>
    have hpinned := hpin s step List.mem_cons_self h
    rw [run]
    split
    next next hnext =>
      exact ih (fun s step hmem => hpin s step (List.mem_cons_of_mem _ hmem))
        (fun s step hmem => hswitch s step (List.mem_cons_of_mem _ hmem))
        (hswitch _ step List.mem_cons_self _ hnext hpinned)
    next => exact hpinned

/-- What every pin and every barrier keeps holds after a replay, whether or not it failed. -/
theorem run_induct {I : Session → Prop} (hpin : ∀ s step, I s → I (s.pin step))
    (hswitch : ∀ s step next, s.switch step = .ok next → I s → I next) (steps : List Transition)
    (h : I s) : I (s.run steps).1 :=
  run_induct_of_mem steps (fun s step _ => hpin s step) (fun s step _ => hswitch s step) h

/-- A session whose program has nothing without a line but the barriers of its report. -/
structure Sound (s : Session) : Prop where
  bodies : ∀ d, .function d ∈ s.program.items → d.body.line.isSome
  placed : s.program.Every (Stmt.Placed s.report.barriers)

theorem Sound.pin (h : s.Sound) : (s.pin step).Sound := by
  rcases s.pin_cases step with heq | ⟨q, pinned, hpinned, heq⟩
  · rwa [heq]
  · rw [heq]
    refine ⟨?_, hpinned.placed h.placed⟩
    obtain ⟨-, -, hreplaced⟩ := hpinned
    exact hreplaced.bodies rfl h.bodies

theorem Sound.switch (h : s.Sound) (hnext : s.switch step = .ok next) : next.Sound := by
  rcases switch_cases hnext with ⟨-, rfl⟩ | ⟨thread, line, target, q, -, -, hguarded, rfl⟩
  · exact h
  · have hplaced : s.program.Every
        (Stmt.Placed (s.report.barriers ++ [⟨s.nextSeq, thread, line⟩])) :=
      fun o ho => (h.placed o ho).mono fun b hb => List.mem_append_left _ hb
    refine ⟨?_, hguarded.placed (by simp) hplaced⟩
    obtain ⟨-, hreplaced⟩ := hguarded
    exact hreplaced.bodies rfl h.bodies

/-- A replay of a program that was read begins with nothing inserted. -/
theorem sound_start {source : String} {p : Program} (h : Program.parse source = .ok p)
    (steps : List Transition) : (start p steps).Sound := by
  have hlined := Program.lined_of_parse h
  refine ⟨fun d hd => (hlined d hd).1, Program.every_iff.2 ?_⟩
  exact fun d hd o ho => .lined ((hlined d hd).2 o ho)

end Session

/-! ### A replay -/

/-- A source with a nondeterministic value and with bodies that have no braces. -/
def branchingSource : String :=
  "int x;\nint main() \x7b\n  x = __VERIFIER_nondet_int();\n  if (x == 1)\n    x = 2;\n  else\n" ++
    "    while (x < 9) x = x + 1;\n  return x;\n\x7d\n"

/-- Steps that pin a value, and that switch threads twice at the `if` of the source and once in an
arm of it. -/
def branchingSteps : List Transition :=
  let step (line : Nat) (assumption : Option String) (thread : Option Int) : Transition :=
    ⟨some ⟨line, 1, line, 0, ""⟩, ⟨assumption, none, thread, none⟩⟩
  [step 3 (some "x == 5;") none, step 4 none (some 1), ⟨none, ⟨none, none, some 7, none⟩⟩,
    step 4 none (some 2), step 5 none none, step 5 none (some 1)]

theorem replay_branchingSource : ∃ p s, Program.parse branchingSource = .ok p ∧
    p.replay branchingSteps = (s, none) ∧
    s.report = ⟨[⟨0, 1, 4⟩, ⟨1, 2, 4⟩, ⟨2, 1, 5⟩], [⟨"x", "5", "int", some 3⟩]⟩ := by
  have hall : ∃ p, Program.parse branchingSource = .ok p ∧ (p.replay branchingSteps).2 = none ∧
      (p.replay branchingSteps).1.report
        = ⟨[⟨0, 1, 4⟩, ⟨1, 2, 4⟩, ⟨2, 1, 5⟩], [⟨"x", "5", "int", some 3⟩]⟩ := by decide +kernel
  obtain ⟨p, hp, hdone, hreport⟩ := hall
  exact ⟨p, _, hp, Prod.ext rfl hdone, hreport⟩

end WitnessReplay
