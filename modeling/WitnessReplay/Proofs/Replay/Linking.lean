import Mathlib.Algebra.Order.BigOperators.Group.List
import Mathlib.Algebra.Order.Group.Nat
import WitnessReplay.Proofs.Replay.Schedule
import WitnessReplay.Replay.Pipeline

/-!
# What linking leaves of the barriers

A barrier is placed in one function. Linking keeps the bodies of all functions but that of the error
function, which gives way to a declaration. So a barrier is kept with all its markers, or it is lost
with all of them if the statement that it was placed at is in the error function
(`relinks_of_instrumentTexts`).
-/

namespace WitnessReplay

namespace Program

variable {p q : Program} {b : Barrier} {target : Stmt} {pinned : Pinned} {d : Function}

/-! ### Counting in the program that is linked -/

theorem count_single (test : Stmt → Bool) (d : Function) :
    (Program.mk [.function d]).count test = d.body.countBelow test := by
  simp [count_eq, functions, Item.function?]

/-- The counts of a program are those of its parts. -/
theorem count_append_cons (test : Stmt → Bool) (before after : List Item) (d : Function) :
    (Program.mk (before ++ .function d :: after)).count test
      = (Program.mk before).count test + d.body.countBelow test
        + (Program.mk after).count test := by
  simp only [count_eq, functions, List.filterMap_append, List.filterMap_cons, Item.function?,
    List.map_append, List.map_cons, List.sum_append, List.sum_cons]
  omega

/-- The bodies of a program that is linked are those of its functions, without the error
function's. -/
theorem bodies_prepared (p : Program) :
    p.prepared.functions.map Function.body
      = (p.functions.filter (·.name != errorFunction)).map Function.body := by
  obtain ⟨items⟩ := p
  simp only [prepared, functions, List.filterMap_cons, Item.function?]
  induction items with
  | nil => rfl
  | cons item items ih =>
    cases item with
    | verbatim text line => exact ih
    | function d =>
      simp only [List.map_cons, List.filterMap_cons, Item.relinked, Item.function?,
        List.filter_cons]
      by_cases hname : d.name = errorFunction
      · simpa [hname, Item.function?] using ih
      · cases hshared : d.isSharedInline <;> simpa [hname, Item.function?, hshared] using ih

/-- What is counted in a linked program is counted in its functions but the error function. -/
theorem count_prepared (test : Stmt → Bool) (p : Program) :
    p.prepared.count test
      = ((p.functions.filter (·.name != errorFunction)).map (·.body.countBelow test)).sum := by
  have hbodies := congrArg (List.map (Stmt.countBelow test)) p.bodies_prepared
  rw [List.map_map, List.map_map] at hbodies
  rw [count_eq]
  exact congrArg List.sum hbodies

/-- One function of a linked program counts, unless it is the error function. -/
theorem count_prepared_append_cons (test : Stmt → Bool) (before after : List Item) (d : Function) :
    (Program.mk (before ++ .function d :: after)).prepared.count test
      = (Program.mk before).prepared.count test
        + (if d.name = errorFunction then 0 else d.body.countBelow test)
        + (Program.mk after).prepared.count test := by
  simp only [count_prepared, functions, List.filterMap_append, List.filterMap_cons, Item.function?,
    List.filter_append, List.filter_cons, List.map_append, List.sum_append]
  by_cases hname : d.name = errorFunction
  · simp [hname]
  · simp [hname, Nat.add_assoc]

/-- Linking adds nothing to a count of statements that were in the program. -/
theorem count_prepared_le (test : Stmt → Bool) (p : Program) :
    p.prepared.count test ≤ p.count test := by
  rw [count_prepared, count_eq]
  exact (List.filter_sublist.map _).sum_le_sum fun _ _ => Nat.zero_le _

/-- What stands in one function only is kept if this is not the error function, else lost. -/
theorem count_prepared_of_eq {test : Stmt → Bool} (hd : .function d ∈ p.items)
    (h : p.count test = d.body.countBelow test) :
    p.prepared.count test = if d.name = errorFunction then 0 else p.count test := by
  obtain ⟨before, after, hitems⟩ := List.append_of_mem hd
  obtain ⟨items⟩ := p
  obtain rfl : items = before ++ .function d :: after := hitems
  have hbefore := count_prepared_le test ⟨before⟩
  have hafter := count_prepared_le test ⟨after⟩
  rw [count_append_cons] at h ⊢
  rw [count_prepared_append_cons]
  split <;> omega

/-! ### A barrier stands in one function -/

/-- A change is made in one function. -/
theorem Replaced.exists_function {old new : Stmt} (h : Replaced old new p q) :
    ∃ before after d d', p = ⟨before ++ .function d :: after⟩ ∧
      q = ⟨before ++ .function d' :: after⟩ ∧
      Replaced old new ⟨[.function d]⟩ ⟨[.function d']⟩ := by
  obtain ⟨hreplaced⟩ := h
  exact ⟨_, _, _, _, rfl, rfl, @Replaced.intro _ _ [] [] _ _ hreplaced⟩

/-- Whether all the markers that a program has of a barrier are in one of its functions. -/
def Houses (p : Program) (b : Barrier) (d : Function) : Prop :=
  .function d ∈ p.items ∧ ∀ name, p.count (Stmt.isMarkerOf name b.seq b.threadId)
    = d.body.countBelow (Stmt.isMarkerOf name b.seq b.threadId)

variable {before after : List Item} {d' home : Function}

/-- A barrier that stood in one function does so when no marker of it comes or goes. -/
theorem Houses.of_change (h : Houses ⟨before ++ .function d :: after⟩ b home)
    (hcount : ∀ name, d'.body.countBelow (Stmt.isMarkerOf name b.seq b.threadId)
      = d.body.countBelow (Stmt.isMarkerOf name b.seq b.threadId)) :
    ∃ home', Houses ⟨before ++ .function d' :: after⟩ b home' := by
  obtain ⟨hmem, hhome⟩ := h
  simp only [List.mem_append, List.mem_cons] at hmem
  rcases hmem with hmem | hmem | hmem
  · refine ⟨home, by simp [hmem], fun name => ?_⟩
    rw [← hhome name, count_append_cons, count_append_cons, hcount]
  · cases hmem
    refine ⟨d', by simp, fun name => ?_⟩
    rw [hcount, ← hhome name, count_append_cons, count_append_cons, hcount]
  · refine ⟨home, by simp [hmem], fun name => ?_⟩
    rw [← hhome name, count_append_cons, count_append_cons, hcount]

/-- A pin keeps every barrier in its function. -/
theorem PinnedBy.houses (h : PinnedBy pinned p q) (hp : p.Houses b home) :
    ∃ home', q.Houses b home' := by
  obtain ⟨hslot, hl, hreplaced⟩ := h
  obtain ⟨before, after, d, d', rfl, rfl, hsingle⟩ := hreplaced.exists_function
  refine hp.of_change fun name => ?_
  have hcount := (PinnedBy.intro hslot hl hsingle).count_eq name b.seq b.threadId
  rwa [count_single, count_single] at hcount

theorem GuardedBy.houses_of_ne {b' : Barrier} (h : GuardedBy b' target p q)
    (hseq : b'.seq ≠ b.seq) (hp : p.Houses b home) : ∃ home', q.Houses b home' := by
  obtain ⟨hl, hreplaced⟩ := h
  obtain ⟨before, after, d, d', rfl, rfl, hsingle⟩ := hreplaced.exists_function
  refine hp.of_change fun name => ?_
  have hcount := (GuardedBy.intro hl hsingle).count_of_ne hseq name b.threadId
  rwa [count_single, count_single] at hcount

/-- A barrier that is placed stands in the function that changes. -/
theorem GuardedBy.houses (h : GuardedBy b target p q)
    (hp : ∀ name, p.count (Stmt.isMarkerOf name b.seq b.threadId) = 0) :
    ∃ home, q.Houses b home := by
  obtain ⟨-, hreplaced⟩ := h
  obtain ⟨before, after, d, d', rfl, rfl, -⟩ := hreplaced.exists_function
  refine ⟨d', by simp, fun name => ?_⟩
  have hnone := hp name
  rw [count_append_cons] at hnone ⊢
  omega

/-- A program that is linked has the barrier as it was, unless it stood in the error function; then
it has nothing of it. -/
theorem Houses.count_prepared (h : p.Houses b home) (name : String) :
    p.prepared.count (Stmt.isMarkerOf name b.seq b.threadId)
      = if home.name = errorFunction then 0
        else p.count (Stmt.isMarkerOf name b.seq b.threadId) :=
  count_prepared_of_eq h.1 (h.2 name)

end Program

/-! ### Sessions -/

namespace Session

variable {s next : Session} {step : Transition} {targets : List Stmt}

/-- A session whose barriers stand in one function each. -/
def Housed (s : Session) : Prop :=
  ∀ b ∈ s.report.barriers, ∃ home, s.program.Houses b home

/-- The pin of a step keeps all barriers in functions. -/
theorem Housed.pin (h : s.Housed) : (s.pin step).Housed := by
  rcases s.pin_cases step with heq | ⟨q, pinned, hpinned, heq⟩
  · rwa [heq]
  · rw [heq]
    intro b hb
    obtain ⟨home, hhome⟩ := h b hb
    exact hpinned.houses hhome

/-- Its thread switch keeps them there and puts a new one into one. -/
theorem Housed.switch (h : s.Housed) (hs : s.Scheduled targets)
    (hnext : s.switch step = .ok next) : next.Housed := by
  rcases switch_cases hnext with ⟨-, rfl⟩ | ⟨thread, line, target, q, -, -, hguarded, rfl⟩
  · exact h
  · intro b hb
    rcases List.mem_append.1 hb with hb | hb
    · obtain ⟨home, hhome⟩ := h b hb
      exact hguarded.houses_of_ne (Nat.ne_of_gt (hs.seq_lt b hb)) hhome
    · rw [List.mem_singleton.1 hb]
      exact hguarded.houses fun name => hs.fresh _ (Nat.le_refl _) name thread

/-- So every barrier of a run is in a function. -/
theorem Housed.run (h : s.Housed) (hs : s.Scheduled targets) (steps : List Transition) :
    (s.run steps).1.Housed := by
  have hrun := run_induct (I := fun s => s.Housed ∧ ∃ targets, s.Scheduled targets) ?_ ?_
    steps ⟨h, targets, hs⟩
  · exact hrun.1
  · intro s step h
    obtain ⟨h, targets, hs⟩ := h
    exact ⟨h.pin, targets, hs.pin⟩
  · intro s step next hnext h
    obtain ⟨h, targets, hs⟩ := h
    exact ⟨h.switch hs hnext, hs.switch hnext⟩

end Session

/-! ### From texts to a program that is linked -/

/-- What linking makes of a barrier of a statement: the barrier stands in one function, and is kept
with all its markers, or lost with all of them if that is the error function. -/
def Program.Relinks (p : Program) (b : Barrier) (target : Stmt) : Prop :=
  ∃ home, p.Houses b home ∧ p.Marked b target ∧
    if home.name = errorFunction then
      ∀ name, p.prepared.count (Stmt.isMarkerOf name b.seq b.threadId) = 0
    else p.prepared.Marked b target

/-- A barrier in a function is linked with it, or lost with it. -/
theorem Program.Houses.relinks {p : Program} {b : Barrier} {home : Function} {target : Stmt}
    (h : p.Houses b home) (hmarked : p.Marked b target) : p.Relinks b target := by
  refine ⟨home, h, hmarked, ?_⟩
  split
  next hname => exact fun name => by rw [h.count_prepared, if_pos hname]
  next hname =>
    constructor
    · rw [h.count_prepared, if_neg hname, hmarked.waits]
    · rw [h.count_prepared, if_neg hname, hmarked.releases]

/-- A step that may fail has succeeded where the steps behind it have. -/
theorem exists_of_bind_mapError {ε ε' α β : Type} {x : Except ε α} {reword : ε → ε'}
    {f : α → Except ε' β} {b : β} (h : (x.mapError reword >>= f) = .ok b) :
    ∃ a, x = .ok a ∧ f a = .ok b := by
  cases x with
  | error e => cases h
  | ok a => exact ⟨a, rfl, h⟩

/-- An instrumented program that comes of two texts comes of a replay. -/
theorem instrumentTexts_eq_ok {program witness : String} {steps : List Transition}
    {result : Instrumented} (h : instrumentTexts program witness = .ok (steps, result)) :
    ∃ sanitized p s, Program.parseSanitized program = .ok (sanitized, p) ∧
      loadTransitions witness sanitized = .ok steps ∧ p.replay steps = (s, none) ∧
      result = ⟨s.program.prepared.render, s.report, s.program.linkReport⟩ := by
  obtain ⟨⟨sanitized, p⟩, hparse, h⟩ := exists_of_bind_mapError h
  obtain ⟨steps', hload, h⟩ := exists_of_bind_mapError h
  obtain ⟨result', hresult, h⟩ := exists_of_bind_mapError h
  cases h
  rw [Program.instrument] at hresult
  split at hresult
  next => cases hresult
  next s hs =>
    cases hresult
    exact ⟨sanitized, p, s, hparse, hload, hs, rfl⟩

/-- What is read of a sanitized source is read of the text that is left. -/
theorem parse_of_parseSanitized {source sanitized : String} {p : Program}
    (h : Program.parseSanitized source = .ok (sanitized, p)) :
    Program.parse sanitized = .ok p := by
  rw [Program.parseSanitized] at h
  cases hparse : Program.parse (Sanitation.sanitize source) with
  | error e =>
    rw [hparse] at h
    cases h
  | ok q =>
    rw [hparse] at h
    cases h
    exact hparse

/-- **Linking keeps a barrier or loses it as a whole.** In the program that is printed for the
compiler, each barrier of the report has the markers that the replay has placed, unless they were
placed in the error function: of such a barrier nothing is left. -/
theorem relinks_of_instrumentTexts {program witness : String} {steps : List Transition}
    {result : Instrumented} (h : instrumentTexts program witness = .ok (steps, result)) :
    ∃ sanitized p s, Program.parseSanitized program = .ok (sanitized, p) ∧
      loadTransitions witness sanitized = .ok steps ∧ p.replay steps = (s, none) ∧
      result = ⟨s.program.prepared.render, s.report, s.program.linkReport⟩ ∧
      List.Forall₂ s.program.Relinks result.report.barriers
        ((Session.start p steps).targets steps) := by
  obtain ⟨sanitized, p, s, hparse, hload, hs, rfl⟩ := instrumentTexts_eq_ok h
  refine ⟨sanitized, p, s, hparse, hload, hs, rfl, ?_⟩
  have hscheduled := Session.scheduled_start (parse_of_parseSanitized hparse) steps
  have hhoused : s.Housed := by
    have hempty : (Session.start p steps).Housed := fun b hb => nomatch hb
    have hrun := hempty.run hscheduled steps
    rwa [show (Session.start p steps).run steps = (s, none) from hs] at hrun
  have hmarked := (hscheduled.run hs).marked.imp fun b t hb => hb.2
  refine ((List.forall₂_and_left _ _).2 ⟨hhoused, hmarked⟩).imp ?_
  intro b target hb
  obtain ⟨⟨home, hhome⟩, hmarked⟩ := hb
  exact hhome.relinks hmarked

/-- A source whose error function has a body. -/
def reachingSource : String :=
  "void reach_error() \x7b\n  abort();\n\x7d\nint main() \x7b\n  reach_error();\n\x7d\n"

/-- A witness that switches threads in the error function of the source. -/
def reachingWitness : String :=
  "<graphml><graph><data key=\"witness-type\">violation_witness</data>" ++
    "<edge source=\"A\" target=\"B\"/><edge source=\"B\" target=\"C\">" ++
    "<data key=\"startline\">2</data><data key=\"threadId\">1</data></edge></graph></graphml>"

theorem instrumentTexts_reachingSource : ∃ sanitized p steps s,
    Program.parseSanitized reachingSource = .ok (sanitized, p) ∧
    loadTransitions reachingWitness sanitized = .ok steps ∧ p.replay steps = (s, none) ∧
    instrumentTexts reachingSource reachingWitness
      = .ok (steps, ⟨s.program.prepared.render, s.report, s.program.linkReport⟩) ∧
    s.report.barriers = [⟨0, 1, 2⟩] ∧
    s.program.prepared.count (Stmt.isMarkerOf yieldName 0 1) = 0 := by
  have hall : ∃ read, Program.parseSanitized reachingSource = .ok read ∧
      ∃ steps, loadTransitions reachingWitness read.1 = .ok steps ∧
        (read.2.replay steps).2 = none ∧
        (read.2.replay steps).1.report.barriers = [⟨0, 1, 2⟩] ∧
        (read.2.replay steps).1.program.prepared.count (Stmt.isMarkerOf yieldName 0 1) = 0 := by
    decide +kernel
  obtain ⟨⟨sanitized, p⟩, hparse, steps, hload, hdone, hbarriers, hcount⟩ := hall
  have hs : p.replay steps = ((p.replay steps).1, none) := Prod.ext rfl hdone
  refine ⟨sanitized, p, steps, _, hparse, hload, hs, ?_, hbarriers, hcount⟩
  rw [instrumentTexts, hparse]
  simp only [Except.mapError, bind, Except.bind, hload, Program.instrument]
  rw [hs]
  rfl

theorem relinks_reachingSource : ∃ steps result,
    instrumentTexts reachingSource reachingWitness = .ok (steps, result) ∧
    ∃ sanitized p s, Program.parseSanitized reachingSource = .ok (sanitized, p) ∧
      loadTransitions reachingWitness sanitized = .ok steps ∧ p.replay steps = (s, none) ∧
      result = ⟨s.program.prepared.render, s.report, s.program.linkReport⟩ ∧
      List.Forall₂ s.program.Relinks result.report.barriers
        ((Session.start p steps).targets steps) := by
  obtain ⟨-, -, steps, s, -, -, -, h, -⟩ := instrumentTexts_reachingSource
  exact ⟨steps, _, h, relinks_of_instrumentTexts h⟩

/-- Not every barrier of a report is left in the program that is printed: one that was placed in the
error function is not. -/
theorem not_waits_of_instrumentTexts : ¬ ∀ program witness steps result sanitized p s,
    instrumentTexts program witness = .ok (steps, result) →
    Program.parseSanitized program = .ok (sanitized, p) → p.replay steps = (s, none) →
    result.source = s.program.prepared.render →
    ∀ b ∈ result.report.barriers,
      0 < s.program.prepared.count (Stmt.isMarkerOf "yield" b.seq b.threadId) ∧
      0 < s.program.prepared.count (Stmt.isMarkerOf "release" b.seq b.threadId) := by
  intro h
  obtain ⟨sanitized, p, steps, s, hparse, -, hs, hrun, hbarriers, hcount⟩ :=
    instrumentTexts_reachingSource
  have hkept := h _ _ steps _ sanitized p s hrun hparse hs rfl ⟨0, 1, 2⟩ (by simp [hbarriers])
  exact absurd hcount (Nat.ne_of_gt hkept.1)

end WitnessReplay
