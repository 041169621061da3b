import WitnessReplay.Proofs.Replay.Nesting
import WitnessReplay.Proofs.Source.LineTable

/-!
# Switches behind the last line

A witness may name a line that the program does not have. Three layers treat it: its offset is the
end of the text, the line of that offset is the one behind the last line end, and the search takes
the first statement that starts there or later. If the text ends its last line, no token stands
there (`line_le_of_tokenize`), so no statement of the program does, before and in the course of a
replay; then the step fails and no barrier is placed (`Program.replay_beyond`).

If the text does not end its last line, the line of its end is the last line itself. A statement
that starts on it is taken for one at or behind the line of the witness, and gets the barrier
(`not_incompatible_replay`).
-/

namespace WitnessReplay

open Text

/-! ### Offsets behind the last line -/

namespace SourceText

variable {cs : List Char} {line : Nat}

/-- A line that a text does not have is taken for its end. -/
theorem offsetOfLine_beyond (h : lineCount cs < line) :
    (mk (encode cs)).offsetOfLine line = (mk (encode cs)).size := by
  by_cases hlast : line = cs.count '\n' + 1
  · -- the last line has its line end, behind which the next one starts
    have hends : endsLine cs := by
      refine Decidable.byContradiction fun hends => ?_
      rw [lineCount, if_neg hends] at h
      omega
    have hstart := offsetOfLine_count_add_one hends []
    rw [List.append_nil] at hstart
    rw [hlast, hstart, size_mk_encode]
  · refine offsetOfLine_of_length_lt _ ?_
    rw [length_lineStarts]
    unfold lineCount at h
    split at h <;> omega

/-- A line that a text does not have resolves to the line of its end. -/
theorem resolve_beyond (h : lineCount cs < line) :
    ∃ coords, (mk (encode cs)).resolve ⟨some line, none, none, none⟩ = some coords ∧
      coords.startline = cs.count '\n' + 1 := by
  refine ⟨_, rfl, ?_⟩
  show ((mk (encode cs)).lineOfOffset (min ((mk (encode cs)).offsetOfLine line) _)).1 = _
  have hline := lineOfOffset_byteSize cs []
  rw [List.append_nil] at hline
  rw [offsetOfLine_beyond h, Nat.min_self, size_mk_encode, hline]

end SourceText

/-! ### Lines of tokens and statements -/

/-- Every token stands on a line of its text. -/
theorem line_le_of_tokenize {source : String} {ts : List Token} (h : tokenize source = .ok ts) :
    Token.On (· ≤ lineCount source.toList) ts := by
  obtain ⟨after, hsource, hlexed, -⟩ := lexed_of_tokenizeFrom h
  intro t ht
  obtain ⟨before, rest, happend, hne, -, hline⟩ := Token.exists_before_of_lexed hlexed t ht
  have hline : t.line = 1 + before.count '\n' := hline
  rw [← hsource] at happend
  rw [lineCount, happend, List.count_append]
  split
  next hends =>
    -- the last line end is behind the token
    rw [endsLine, List.getLast?_append_of_ne_nil _ hne] at hends
    obtain ⟨init, rfl⟩ := exists_concat_of_endsLine hends hne
    rw [List.count_append, List.count_singleton_self]
    omega
  next => omega

namespace Program

variable {source : String} {p : Program}

/-- Every statement that was read starts on a line of the text. -/
theorem line_le_of_parse (h : Program.parse source = .ok p) :
    ∀ l ∈ p.statements.filterMap Stmt.line, l ≤ lineCount source.toList := by
  intro l hl
  obtain ⟨t, ht, hl⟩ := List.mem_filterMap.1 hl
  obtain ⟨o, ho, rfl⟩ := List.mem_map.1 ht
  cases hts : tokenize source with
  | error e =>
    rw [Program.parse, hts] at h
    cases h
  | ok ts =>
    have hlined : p.Every fun _ t => ∃ l ∈ t.line, l ≤ lineCount source.toList :=
      every_iff.2 fun d hd => (linedBy_of_parse h hts (line_le_of_tokenize hts) d hd).2
    obtain ⟨l', hl', hle⟩ := hlined o ho
    rw [show o.2.2.line = some l' from hl'] at hl
    cases hl
    exact hle

/-- No statement in the list of a block starts on a line. -/
def NoneOn (line : Nat) (p : Program) : Prop :=
  p.Every fun inBlock t => inBlock → t.line ≠ some line

theorem PinnedBy.noneOn {pinned : Pinned} {q : Program} {line : Nat} (h : PinnedBy pinned p q)
    (hp : p.NoneOn line) : q.NoneOn line := by
  obtain ⟨-, -, h⟩ := h
  refine h.every ?_ (fun _ => Stmt.every_leaf) hp
  intro inBlock t t' hreplaced ht hblock
  rw [hreplaced.line_eq rfl]
  exact ht hblock

/-- A barrier finds no place if no statement starts behind its line, and none of a block on it. -/
theorem insertBarrier?_eq_none {b : Barrier} (h : p.NoneOn b.line)
    (hle : ∀ l ∈ p.statements.filterMap Stmt.line, l ≤ b.line) : p.insertBarrier? b = none := by
  have hnone : p.occurrences.find? (fun o => o.2.1 && o.2.2.startsFrom b.line) = none := by
    refine List.find?_eq_none.2 fun o ho htest => ?_
    obtain ⟨place, inBlock, t⟩ := o
    obtain ⟨hblock, hstarts⟩ := Bool.and_eq_true_iff.1 htest
    obtain ⟨l, hl⟩ := Option.isSome_iff_exists.1 (Stmt.line_isSome_of_startsFrom hstarts)
    rw [Stmt.startsFrom, hl, Option.any_some, decide_eq_true_eq] at hstarts
    have hmem : l ∈ p.statements.filterMap Stmt.line :=
      List.mem_filterMap.2 ⟨t, List.mem_map.2 ⟨_, ho, rfl⟩, hl⟩
    have := hle l hmem
    exact h _ ho hblock (hl.trans (congrArg some (by omega)))
  rw [insertBarrier?_eq_map, statementFrom?, find?, hnone]
  rfl

end Program

namespace Session

variable {s : Session}

theorem noneOn_pin {line : Nat} (h : s.program.NoneOn line) (step : Transition) :
    (s.pin step).program.NoneOn line := by
  rcases s.pin_cases step with heq | ⟨q, pinned, hpinned, heq⟩
  · rwa [heq]
  · rw [heq]
    exact hpinned.noneOn h

end Session

/-! ### Steps behind the last line -/

/-- The steps of the path of a witness, without their positions in a program. -/
def WitnessGraph.pathEdges (g : WitnessGraph) : Except WitnessError (List WitnessEdge) :=
  g.extractPath.map fun path => path.filterMap fun i => g.links[i]?.map WitnessLink.edge

theorem WitnessGraph.transitions_eq (g : WitnessGraph) (source : SourceText) :
    g.transitions source = g.pathEdges.map (List.map (Transition.resolve source)) := by
  rw [transitions, pathEdges]
  cases g.extractPath with
  | error e => rfl
  | ok path => simp [Except.map, List.map_filterMap, Function.comp_def]

namespace Program

variable {source : String} {p : Program} {g : WitnessGraph} {before after : List WitnessEdge}
  {edge : WitnessEdge} {steps : List Transition} {s : Session} {line : Nat} {thread : Int}

/-- **A switch to a line that the program does not have fails**, where the text ends its last line
or no statement of a block starts on that line. The step has pinned its value by then, and no
barrier is placed. -/
theorem replay_beyond (hp : Program.parse source = .ok p)
    (hedges : g.pathEdges = .ok (before ++ edge :: after))
    (hsteps : g.transitions ⟨encode source.toList⟩ = .ok steps)
    (hreached : (Session.start p steps).run (steps.take before.length) = (s, none))
    (hhints : edge.hints = ⟨some line, none, none, none⟩) (hline : lineCount source.toList < line)
    (hthread : edge.threadId = some thread) (hactive : thread ≠ s.activeThread)
    (hlast : endsLine source.toList ∨ s.program.NoneOn (source.toList.count '\n' + 1)) :
    p.replay steps = (s.pin (.resolve ⟨encode source.toList⟩ edge),
      some (.noTargetStatement (source.toList.count '\n' + 1))) := by
  rw [WitnessGraph.transitions_eq, hedges] at hsteps
  cases hsteps
  rw [List.map_append, List.take_left' (List.length_map _)] at hreached
  rw [List.map_cons] at hreached
  rw [List.map_append, List.map_cons]
  generalize hstep : Transition.resolve ⟨encode source.toList⟩ edge = step at hreached ⊢
  obtain ⟨coords, hcoords, hstart⟩ := SourceText.resolve_beyond hline
  have hcoords : step.coords = some coords := by
    rw [← hstep, Transition.resolve, hhints, hcoords]
  have hmetadata : step.metadata.threadId = some thread := by
    rw [← hstep]
    exact hthread
  -- neither pins nor markers bring new lines: all are those of the source
  have hlines : ∀ l ∈ (s.pin step).program.statements.filterMap Stmt.line,
      l ≤ lineCount source.toList := by
    rw [Session.pin_lines, Session.lines_run hreached]
    exact line_le_of_parse hp
  have hnoneOn : (s.pin step).program.NoneOn (source.toList.count '\n' + 1) := by
    rcases hlast with hends | hnone
    · -- no statement at all starts behind the last line end
      rw [lineCount, if_pos hends] at hlines
      intro o ho _ hl
      have := hlines _ (List.mem_filterMap.2 ⟨o.2.2, List.mem_map.2 ⟨_, ho, rfl⟩, hl⟩)
      omega
    · exact Session.noneOn_pin hnone step
  have hle : lineCount source.toList ≤ source.toList.count '\n' + 1 := by
    rw [lineCount]
    split <;> omega
  have hswitch : (s.pin step).switch step
      = .error (.noTargetStatement (source.toList.count '\n' + 1)) := by
    rw [Session.switch, hcoords]
    dsimp only
    rw [hmetadata, Option.getD_some, Session.pin_activeThread, if_neg hactive, hstart,
      insertBarrier?_eq_none hnoneOn fun l hl => Nat.le_trans (hlines l hl) hle]
  rw [replay, Session.run_append, hreached]
  dsimp only
  rw [Session.run, hswitch]

end Program

/-- A switch to another thread on a line. -/
def switchingEdge (line : Nat) : WitnessEdge :=
  { (default : WitnessEdge) with startline := some line, threadId := some 1 }

/-- A witness of two steps: one without a position, and then a switch to another thread on a line.
-/
def switchingGraph (line : Nat) : WitnessGraph :=
  ⟨some "violation_witness", [⟨"A", true, false⟩, ⟨"B", false, false⟩, ⟨"C", false, false⟩],
    [⟨0, 1, default⟩, ⟨1, 2, switchingEdge line⟩], [("C", 2), ("B", 1), ("A", 0)]⟩

theorem pathEdges_switchingGraph (line : Nat) :
    (switchingGraph line).pathEdges = .ok ([default] ++ [switchingEdge line]) := by
  have hstart : (switchingGraph line).extractPath = (switchingGraph line).walk [1, 2] 0 := rfl
  have hfirst : (switchingGraph line).onward 0 = [(⟨0, 1, default⟩, 0)] := rfl
  have hsecond : (switchingGraph line).onward 1 = [(⟨1, 2, switchingEdge line⟩, 1)] := rfl
  have hend : (switchingGraph line).onward 2 = [] := rfl
  have hpath : (switchingGraph line).extractPath = .ok [0, 1] := by
    rw [hstart, WitnessGraph.walk, hfirst]
    simp [WitnessGraph.walk, hsecond, hend]
  rw [WitnessGraph.pathEdges, hpath]
  rfl

/-- A source of four lines, each with its line end. -/
def endedSource : String :=
  "int x;\nint main() \x7b\n  x = 1;\n\x7d\n"

theorem replay_beyond_endedSource : ∃ p steps s, Program.parse endedSource = .ok p ∧
    (switchingGraph 5).transitions ⟨encode endedSource.toList⟩ = .ok steps ∧
    p.replay steps = (s, some (.noTargetStatement 5)) := by
  have hall : ∃ p, Program.parse endedSource = .ok p ∧
      ∃ steps, (switchingGraph 5).transitions ⟨encode endedSource.toList⟩ = .ok steps ∧
        ((Session.start p steps).run (steps.take 1)).2 = none ∧
        1 ≠ ((Session.start p steps).run (steps.take 1)).1.activeThread := by decide +kernel
  obtain ⟨p, hp, steps, hsteps, hdone, hactive⟩ := hall
  have hline : lineCount endedSource.toList < 5 := by decide
  exact ⟨p, steps, _, hp, hsteps, Program.replay_beyond hp (pathEdges_switchingGraph 5) hsteps
    (Prod.ext rfl hdone) rfl hline rfl hactive (.inl (by decide))⟩

/-- The text need not end its last line, and then a statement on that line is found for any line
behind it. -/
theorem not_incompatible_replay : ¬ ∀ (source : String) (p : Program) (g : WitnessGraph)
    (before after : List WitnessEdge) (edge : WitnessEdge) (steps : List Transition) (s : Session)
    (line : Nat) (thread : Int), Program.parse source = .ok p →
    g.pathEdges = .ok (before ++ edge :: after) →
    g.transitions ⟨encode source.toList⟩ = .ok steps →
    (Session.start p steps).run (steps.take before.length) = (s, none) →
    edge.hints = ⟨some line, none, none, none⟩ → lineCount source.toList < line →
    edge.threadId = some thread → thread ≠ s.activeThread →
    ∃ at_, (p.replay steps).2 = some (.noTargetStatement at_) := by
  intro h
  have hall : ∃ p, Program.parse "int x;\nint main() \x7b x = 1; \x7d" = .ok p ∧
      ∃ steps, (switchingGraph 9).transitions
          ⟨encode "int x;\nint main() \x7b x = 1; \x7d".toList⟩ = .ok steps ∧
        ((Session.start p steps).run (steps.take 1)).2 = none ∧
        1 ≠ ((Session.start p steps).run (steps.take 1)).1.activeThread ∧
        (p.replay steps).2 = none := by decide +kernel
  obtain ⟨p, hp, steps, hsteps, hs, hactive, hdone⟩ := hall
  obtain ⟨at_, hfails⟩ := h _ p _ _ _ _ steps _ 9 1 hp (pathEdges_switchingGraph 9) hsteps
    (Prod.ext rfl hs) rfl (by decide) rfl hactive
  rw [hdone] at hfails
  cases hfails

end WitnessReplay
