import Mathlib.Data.List.Forall2
import WitnessReplay.Proofs.Replay.Step

/-!
# A replay follows the switches of threads

A replay that succeeds has placed one barrier for each switch of threads, in the order of the steps
and numbered from 0. In the program that it leaves each barrier has one statement that waits, and
one that releases it in every arm of the statement that it stands at (`Program.barriers_replay`).
-/

namespace WitnessReplay

/-- The statements that the barriers of a replay are placed at, each as it is when the step
comes. -/
def Session.targets (s : Session) : List Transition → List Stmt
  | [] => []
  | step :: rest =>
    let pinned := s.pin step
    match pinned.switch step with
    | .error _ => []
    | .ok next =>
      ((step.switch? s.activeThread).bind fun (_, line) => pinned.program.target? line).toList
        ++ next.targets rest

/-! ### Counting markers -/

/-- Replacing a statement inside of another changes no marker. -/
theorem Stmt.Replaced.isMarkerOf_eq {old new s s' : Stmt} (h : Replaced old new s s')
    (name : String) (seq : Nat) (thread : Int) (hold : old.line.isSome ∨ old.isBlock)
    (hnew : new.Resembles old) :
    s'.isMarkerOf name seq thread = s.isMarkerOf name seq thread := by
  cases h with
  | here =>
    rw [isMarkerOf_eq_false hold, isMarkerOf_eq_false (by rwa [hnew.line, hnew.isBlock])]
  | item | body | thenBranch | elseBranch => rfl

namespace Program

variable {p q : Program} {b : Barrier} {target : Stmt} {pinned : Pinned}

/-- A pin keeps the number of markers. -/
theorem PinnedBy.count_eq (h : PinnedBy pinned p q) (name : String) (seq : Nat) (thread : Int) :
    q.count (Stmt.isMarkerOf name seq thread) = p.count (Stmt.isMarkerOf name seq thread) := by
  obtain ⟨-, -, h⟩ := h
  have hadd := h.count_add fun hreplaced => hreplaced.isMarkerOf_eq name seq thread (.inl rfl)
    (Stmt.resembles_of_line rfl rfl rfl)
  simpa using hadd

/-- A barrier adds its markers to a count, and nothing else. -/
theorem GuardedBy.count_eq (h : GuardedBy b target p q) (name : String) (seq : Nat) (thread : Int) :
    q.count (Stmt.isMarkerOf name seq thread) = p.count (Stmt.isMarkerOf name seq thread)
      + (if (marker yieldName b.seq b.threadId).isMarkerOf name seq thread then 1 else 0)
      + target.arms *
        (if (marker releaseName b.seq b.threadId).isMarkerOf name seq thread then 1 else 0) := by
  obtain ⟨hl, h⟩ := h
  rename_i l before after
  have hadd := h.count_add fun hreplaced => hreplaced.isMarkerOf_eq name seq thread (.inr rfl)
    ⟨rfl, rfl, rfl⟩
  have hmarker (name' : String) :
      Stmt.countIn (Stmt.isMarkerOf name seq thread) [marker name' b.seq b.threadId]
        = if (marker name' b.seq b.threadId).isMarkerOf name seq thread then 1 else 0 := by
    simp [Stmt.countIn, marker, Stmt.call]
  have hguarded := Stmt.countIn_guarded (q := Stmt.isMarkerOf name seq thread)
    Stmt.isMarkerOf_eq_false b.seq b.threadId hl
  rw [hmarker, hmarker] at hguarded
  -- both lists differ in what stands for the target
  have htarget : before ++ target :: after = before ++ [target] ++ after := by simp
  rw [Stmt.countBelow_block, Stmt.countBelow_block, htarget] at hadd
  simp only [Stmt.countIn_append] at hadd
  omega

/-- In a program that has the markers of a barrier of a statement, one waits, and one releases in
every arm of the statement. -/
structure Marked (p : Program) (b : Barrier) (target : Stmt) : Prop where
  waits : p.count (Stmt.isMarkerOf "yield" b.seq b.threadId) = 1
  releases : p.count (Stmt.isMarkerOf "release" b.seq b.threadId) = target.arms

/-- A barrier with a new number has its markers once. -/
theorem GuardedBy.marked (h : GuardedBy b target p q)
    (hp : ∀ name, p.count (Stmt.isMarkerOf name b.seq b.threadId) = 0) : q.Marked b target := by
  have hne : yieldName ≠ releaseName := by decide
  constructor
  · show q.count (Stmt.isMarkerOf yieldName b.seq b.threadId) = 1
    rw [h.count_eq, hp, if_pos Stmt.isMarkerOf_marker_self,
      Stmt.isMarkerOf_marker (.inl hne.symm)]
    simp
  · show q.count (Stmt.isMarkerOf releaseName b.seq b.threadId) = target.arms
    rw [h.count_eq, hp, if_pos Stmt.isMarkerOf_marker_self, Stmt.isMarkerOf_marker (.inl hne)]
    simp

/-- It adds no markers of another. -/
theorem GuardedBy.count_of_ne (h : GuardedBy b target p q) {seq : Nat} (hseq : b.seq ≠ seq)
    (name : String) (thread : Int) :
    q.count (Stmt.isMarkerOf name seq thread) = p.count (Stmt.isMarkerOf name seq thread) := by
  rw [h.count_eq, Stmt.isMarkerOf_marker (.inr hseq), Stmt.isMarkerOf_marker (.inr hseq)]
  simp

/-- In a program that has nothing inserted there are no markers. -/
theorem count_isMarkerOf_eq_zero (hp : p.Every (Stmt.Placed [])) (name : String) (seq : Nat)
    (thread : Int) : p.count (Stmt.isMarkerOf name seq thread) = 0 := by
  rw [count, List.countP_eq_zero]
  intro o ho
  have hplaced := hp o ho
  obtain ⟨place, inBlock, s⟩ := o
  cases hplaced with
  | lined hl => simp [Stmt.isMarkerOf_eq_false (.inl hl)]
  | marker hb => cases hb
  | wrapper => simp [Stmt.isMarkerOf]

end Program

/-! ### Sessions -/

namespace Session

variable {s next : Session} {step : Transition}

/-- A session whose barriers have their markers in the program, and no later barriers have. The
statements are those that the barriers were placed at. -/
structure Scheduled (s : Session) (targets : List Stmt) : Prop where
  marked : List.Forall₂ (fun b t => b.seq < s.nextSeq ∧ s.program.Marked b t)
    s.report.barriers targets
  fresh : ∀ seq, s.nextSeq ≤ seq → ∀ name thread,
    s.program.count (Stmt.isMarkerOf name seq thread) = 0

variable {targets : List Stmt}

/-- The next barrier has a number of its own. -/
theorem Scheduled.seq_lt (h : s.Scheduled targets) : ∀ b ∈ s.report.barriers, b.seq < s.nextSeq :=
  ((List.forall₂_and_left _ _).1 h.marked).1

/-- All barriers that are reported are in the program. -/
theorem Scheduled.exists_marked (h : s.Scheduled targets) :
    ∀ b ∈ s.report.barriers, ∃ t, s.program.Marked b t := by
  have hmarked : List.Forall₂ (fun b _ => (∃ t, s.program.Marked b t) ∧ True) s.report.barriers
      targets := h.marked.imp fun b t hb => ⟨⟨t, hb.2⟩, trivial⟩
  exact ((List.forall₂_and_left _ _).1 hmarked).1

/-- A pin keeps what is scheduled. -/
theorem Scheduled.pin (h : s.Scheduled targets) : (s.pin step).Scheduled targets := by
  rcases s.pin_cases step with heq | ⟨q, pinned, hpinned, heq⟩
  · rwa [heq]
  · rw [heq]
    refine ⟨h.marked.imp ?_, ?_⟩
    · intro b t hb
      refine ⟨hb.1, ?_, ?_⟩
      · rw [hpinned.count_eq, hb.2.waits]
      · rw [hpinned.count_eq, hb.2.releases]
    · intro seq hseq name thread
      rw [hpinned.count_eq, h.fresh seq hseq]

/-- A new barrier is scheduled behind the others. -/
theorem Scheduled.place {thread : Int} {line : Nat} {target : Stmt} {q : Program}
    (h : s.Scheduled targets)
    (hguarded : Program.GuardedBy ⟨s.nextSeq, thread, line⟩ target s.program q) :
    Scheduled ⟨q, s.nextSeq + 1, thread,
      { s.report with barriers := s.report.barriers ++ [⟨s.nextSeq, thread, line⟩] }⟩
      (targets ++ [target]) := by
  have hmarked : q.Marked ⟨s.nextSeq, thread, line⟩ target :=
    hguarded.marked fun name => h.fresh s.nextSeq (Nat.le_refl _) name thread
  constructor
  · refine List.rel_append (h.marked.imp ?_) (.cons ⟨Nat.lt_succ_self _, hmarked⟩ .nil)
    intro b t hb
    -- the markers of a barrier that was there have another number
    have hne : s.nextSeq ≠ b.seq := Nat.ne_of_gt hb.1
    refine ⟨Nat.lt_succ_of_lt hb.1, ?_, ?_⟩
    · rw [hguarded.count_of_ne hne, hb.2.waits]
    · rw [hguarded.count_of_ne hne, hb.2.releases]
  · intro seq hseq name thread'
    have hne : s.nextSeq ≠ seq := Nat.ne_of_lt hseq
    rw [hguarded.count_of_ne hne, h.fresh seq (Nat.le_of_lt hseq)]

/-- So a thread switch keeps the schedule, with one barrier more or with none. -/
theorem Scheduled.switch (h : s.Scheduled targets) (hnext : s.switch step = .ok next) :
    ∃ targets, next.Scheduled targets := by
  rcases switch_cases hnext with ⟨-, rfl⟩ | ⟨thread, line, target, q, -, -, hguarded, rfl⟩
  · exact ⟨targets, h⟩
  · exact ⟨targets ++ [target], h.place hguarded⟩

/-- At the start nothing is scheduled. -/
theorem scheduled_start {source : String} {p : Program} (h : Program.parse source = .ok p)
    (steps : List Transition) : (start p steps).Scheduled [] :=
  ⟨.nil, fun seq _ name thread =>
    Program.count_isMarkerOf_eq_zero (sound_start h steps).placed name seq thread⟩

/-- A replay that succeeds schedules a barrier at each target. -/
theorem Scheduled.run {s' : Session} {steps : List Transition} (h : s.Scheduled targets)
    (hrun : s.run steps = (s', none)) : s'.Scheduled (targets ++ s.targets steps) := by
  induction steps generalizing s targets with
  | nil =>
    cases hrun
    rwa [Session.targets, List.append_nil]
  | cons step rest ih =>
    obtain ⟨next, hnext, hrun⟩ := next_of_run hrun
    rw [Session.targets]
    dsimp only
    rw [hnext]
    dsimp only
    rcases switch_cases hnext with
      ⟨hswitch, rfl⟩ | ⟨thread, line, target, q, hswitch, htarget, hguarded, rfl⟩
    · rw [pin_activeThread] at hswitch
      rw [hswitch]
      exact ih h.pin hrun
    · rw [pin_activeThread] at hswitch
      rw [hswitch, Option.bind_some, htarget, Option.toList_some, ← List.append_assoc]
      exact ih (h.pin.place hguarded) hrun

end Session

end WitnessReplay
