import WitnessReplay.Proofs.Program.Order
import WitnessReplay.Proofs.Replay.Schedule

/-!
# Barriers of the same statement

Two barriers may be placed at the same statement. The later one is placed as the earlier one was:
its `yield` directly before the statement, and its `release` as the first thing inside. So it stands
within the earlier one, between the `yield` and every `release` of it (`Program.nests_replay`).

Which statement a barrier is placed at is told by a number: how many of the statements that were
read come before it. A replay does not change the numbers. What comes ahead of a statement does
change, but only by markers that are inserted.
-/

namespace WitnessReplay

/-- The statement that waits for a barrier's turn: a call without a line, of `yield` with the number
of the barrier and the thread. -/
def Barrier.waits (b : Barrier) : Stmt :=
  .leaf none (.evaluates (.call "yield"
    [.constant "int" (toString b.seq), .constant "int" (toString b.threadId)]))

/-- The statement that releases a barrier: the same call of `release`. -/
def Barrier.frees (b : Barrier) : Stmt :=
  .leaf none (.evaluates (.call "release"
    [.constant "int" (toString b.seq), .constant "int" (toString b.threadId)]))

/-- What a replay inserts before a statement is what waits. -/
theorem Barrier.marker_yieldName (b : Barrier) : marker yieldName b.seq b.threadId = b.waits :=
  rfl

/-- What a replay inserts behind or inside a statement is what releases. -/
theorem Barrier.marker_releaseName (b : Barrier) : marker releaseName b.seq b.threadId = b.frees :=
  rfl

/-- No statement both waits and releases, whatever the barriers. -/
theorem Barrier.frees_ne_waits (b b' : Barrier) : b.frees ≠ b'.waits := by
  intro heq
  have hself : b'.waits.isMarkerOf yieldName b'.seq b'.threadId := Stmt.isMarkerOf_marker_self
  rw [← heq, ← marker_releaseName, Stmt.isMarkerOf_marker (.inl (by decide))] at hself
  cases hself

/-- Whether one barrier of a program stands within another one: it waits behind the `yield` of the
outer barrier, and before every `release` of it. -/
structure Program.Nests (p : Program) (outer inner : Barrier) : Prop where
  waits : inner.waits ∈ p.statements
  within : ∀ before after, p.statements = before ++ inner.waits :: after →
    outer.waits ∈ before ∧ outer.frees ∉ before ∧ outer.frees ∈ after

/-- The numbers of the statements that the barriers of a replay are placed at. -/
def Session.numbers (s : Session) : List Transition → List Nat
  | [] => []
  | step :: rest =>
    let pinned := s.pin step
    match pinned.switch step with
    | .error _ => []
    | .ok next =>
      ((step.switch? s.activeThread).bind fun (_, line) =>
        (pinned.program.statementFrom? line).map pinned.program.number).toList ++ next.numbers rest

/-! ### Signs -/

namespace Sign

/-- The sign of a marker. -/
def marker (name : String) (b : Barrier) : Sign :=
  .inserted (.evaluates (.call name [.int (toString b.seq), .int (toString b.threadId)]))

/-- Whether a sign is that of a marker of a barrier. -/
def isOf (b : Barrier) : Sign → Bool
  | read _ => false
  | inserted content =>
    (Stmt.leaf none content).isMarkerOf yieldName b.seq b.threadId ||
      (Stmt.leaf none content).isMarkerOf releaseName b.seq b.threadId

/-- The signs ahead of the statement of a number. -/
def ahead : Nat → List Sign → List Sign
  | _, [] => []
  | k, inserted content :: rest => inserted content :: ahead k rest
  | 0, read _ :: _ => []
  | k + 1, read l :: rest => read l :: ahead k rest

/-- The markers of a barrier are its own. -/
theorem isOf_marker_self {name : String} {b : Barrier}
    (h : name = yieldName ∨ name = releaseName) : (marker name b).isOf b := by
  have hself : (WitnessReplay.marker name b.seq b.threadId).isMarkerOf name b.seq b.threadId :=
    Stmt.isMarkerOf_marker_self
  rw [marker, isOf, Bool.or_eq_true_iff]
  rcases h with rfl | rfl
  · exact .inl hself
  · exact .inr hself

/-- Markers of another number belong to another barrier. -/
theorem isOf_marker_of_ne {name : String} {b b' : Barrier} (h : b.seq ≠ b'.seq) :
    (marker name b).isOf b' = false :=
  Bool.or_eq_false_iff.2 ⟨Stmt.isMarkerOf_marker (.inr h), Stmt.isMarkerOf_marker (.inr h)⟩

/-- What is ahead of a statement is the front of the signs. -/
theorem exists_ahead_append (k : Nat) (xs : List Sign) : ∃ behind, xs = ahead k xs ++ behind := by
  fun_induction ahead k xs with
  | case1 => exact ⟨[], rfl⟩
  | case2 k content rest ih | case4 k l rest ih =>
    obtain ⟨behind, hrest⟩ := ih
    exact ⟨behind, congrArg _ hrest⟩
  | case3 l rest => exact ⟨_, rfl⟩

theorem mem_of_mem_ahead {k : Nat} {x : Sign} {xs : List Sign} (h : x ∈ ahead k xs) : x ∈ xs := by
  obtain ⟨behind, hxs⟩ := exists_ahead_append k xs
  rw [hxs]
  exact List.mem_append_left _ h

/-- What is ahead of a statement is what comes before it. -/
theorem ahead_append (before : List Sign) (l : Nat) (after : List Sign) :
    ahead (before.countP isRead) (before ++ read l :: after) = before := by
  induction before with
  | nil => rfl
  | cons x before ih =>
    cases x with
    | read l' => rw [List.countP_cons_of_pos rfl, List.cons_append, ahead, ih]
    | inserted content =>
      rw [List.countP_cons_of_neg (by simp [isRead]), List.cons_append, ahead, ih]

/-- Leaving inserted statements out leaves them out of what is ahead. -/
theorem filter_ahead {keep : Sign → Bool} (hkeep : ∀ l, keep (read l)) (k : Nat) (xs : List Sign) :
    (ahead k xs).filter keep = ahead k (xs.filter keep) := by
  fun_induction ahead k xs with
  | case1 => rfl
  | case2 k content rest ih =>
    by_cases hcontent : keep (inserted content)
    · rw [List.filter_cons_of_pos hcontent, List.filter_cons_of_pos hcontent, ahead, ih]
    · rw [List.filter_cons_of_neg hcontent, List.filter_cons_of_neg hcontent, ih]
  | case3 l rest => rw [List.filter_cons_of_pos (hkeep l)]; rfl
  | case4 k l rest ih =>
    rw [List.filter_cons_of_pos (hkeep l), List.filter_cons_of_pos (hkeep l), ahead, ih]

/-- Signs with a `yield` in front of the statement of a number, and otherwise the same but for the
markers of the barrier behind. -/
inductive Guards (b : Barrier) (k : Nat) (old new : List Sign) : Prop
  | intro {before after after' : List Sign} {l : Nat} (hold : old = before ++ read l :: after)
      (hnew : new = before ++ marker yieldName b :: read l :: after')
      (hk : before.countP isRead = k)
      (hafter : after'.filter (!isOf b ·) = after.filter (!isOf b ·))

variable {b b' : Barrier} {k k' : Nat} {old new : List Sign}

/-- A barrier changes nothing but by its markers. -/
theorem Guards.filter_eq (h : Guards b k old new) :
    new.filter (!isOf b ·) = old.filter (!isOf b ·) := by
  obtain ⟨rfl, rfl, -, hafter⟩ := h
  have hyield : isOf b (marker yieldName b) := isOf_marker_self (.inl rfl)
  rw [List.filter_append, List.filter_append, List.filter_cons_of_neg (by simp [hyield]),
    List.filter_cons_of_pos (by simp [isOf]), List.filter_cons_of_pos (by simp [isOf]), hafter]

/-- A new barrier adds nothing ahead of any statement but its own markers. -/
theorem Guards.filter_ahead_eq (h : Guards b k old new) (k' : Nat) :
    (ahead k' new).filter (!isOf b ·) = (ahead k' old).filter (!isOf b ·) := by
  rw [filter_ahead (fun _ => rfl), filter_ahead (fun _ => rfl), h.filter_eq]

/-- Ahead of the statement it guards it adds the marker that waits, as the last sign. -/
theorem Guards.ahead_new (h : Guards b k old new) :
    ahead k new = ahead k old ++ [marker yieldName b] := by
  obtain ⟨rfl, rfl, rfl, -⟩ := h
  rename_i before after after' l
  have hcount : before.countP isRead = (before ++ [marker yieldName b]).countP isRead := by
    simp [marker, isRead]
  have happend : before ++ marker yieldName b :: read l :: after'
      = (before ++ [marker yieldName b]) ++ read l :: after' := by simp
  rw [ahead_append, happend, hcount, ahead_append]

/-- A barrier brings or takes no marker of another one ahead of a statement. -/
theorem Guards.mem_ahead (h : Guards b k old new) (hne : b'.seq ≠ b.seq) {name : String} :
    marker name b' ∈ ahead k' new ↔ marker name b' ∈ ahead k' old := by
  have hkeep : (!isOf b (marker name b')) = true := by simp [isOf_marker_of_ne hne]
  have hmem (xs : List Sign) : marker name b' ∈ xs.filter (!isOf b ·) ↔ marker name b' ∈ xs := by
    rw [List.mem_filter, and_iff_left hkeep]
  rw [← hmem, h.filter_ahead_eq, hmem]

/-- Markers of other barriers stay in their order. -/
theorem Guards.sublist_ahead {xs : List Sign} (h : Guards b k old new)
    (hxs : ∀ x ∈ xs, isOf b x = false) (hold : xs.Sublist (ahead k' old)) :
    xs.Sublist (ahead k' new) := by
  have hkept : xs.filter (!isOf b ·) = xs :=
    List.filter_eq_self.2 fun x hx => by simp [hxs x hx]
  have hfilter := hold.filter (!isOf b ·)
  rw [hkept, ← h.filter_ahead_eq] at hfilter
  exact hfilter.trans List.filter_sublist

/-- The statements that were read keep their lines. -/
theorem Guards.lines_eq (h : Guards b k old new) :
    new.filterMap line? = old.filterMap line? := by
  have hmarker (xs : List Sign) : (xs.filter (!isOf b ·)).filterMap line? = xs.filterMap line? := by
    rw [List.filterMap_filter]
    refine List.filterMap_congr fun x _ => ?_
    cases x with
    | read l => rfl
    | inserted content => simp [line?]
  rw [← hmarker, h.filter_eq, hmarker]

/-- The two markers of a barrier differ. -/
theorem marker_ne {name name' : String} (h : name ≠ name') : marker name b ≠ marker name' b := by
  intro heq
  simp only [marker, inserted.injEq, Leaf.evaluates.injEq, Expr.call.injEq] at heq
  exact h heq.1

/-- Signs in which some barriers wait ahead of the statements of some numbers and are released
behind their heads, those of the same statement in their order. -/
structure Numbered (xs : List Sign) (bs : List Barrier) (ks : List Nat) : Prop where
  stands : List.Forall₂ (fun b k =>
    marker yieldName b ∈ ahead k xs ∧ marker releaseName b ∉ ahead k xs) bs ks
  ordered : (bs.zip ks).Pairwise fun outer inner => outer.2 = inner.2 →
    [marker yieldName outer.1, marker yieldName inner.1].Sublist (ahead inner.2 xs)

variable {bs : List Barrier} {ks : List Nat}

/-- Barriers that stand as they are numbered do so with one more that guards its statement. -/
theorem Guards.numbered (h : Guards b k old new) (hbs : ∀ b' ∈ bs, b'.seq ≠ b.seq)
    (hfresh : marker releaseName b ∉ old) (hold : Numbered old bs ks) :
    Numbered new (bs ++ [b]) (ks ++ [k]) := by
  obtain ⟨hlength, hstands⟩ := List.forall₂_iff_zip.1 hold.stands
  constructor
  · -- the barriers that were there keep their numbers, since neither new marker is one of theirs
    refine List.rel_append ?_ (.cons ⟨?_, ?_⟩ .nil)
    · refine ((List.forall₂_and_left _ _).2 ⟨hbs, hold.stands⟩).imp ?_
      intro b' k' hb'
      obtain ⟨hne, hyield, hrelease⟩ := hb'
      rw [h.mem_ahead hne, h.mem_ahead hne]
      exact ⟨hyield, hrelease⟩
    · rw [h.ahead_new]
      simp
    · rw [h.ahead_new, List.mem_append, List.mem_singleton, not_or]
      exact ⟨fun hmem => hfresh (mem_of_mem_ahead hmem), marker_ne (by decide)⟩
  · rw [List.zip_append hlength, List.pairwise_append]
    refine ⟨?_, List.pairwise_singleton _ _, ?_⟩
    · refine hold.ordered.imp_of_mem ?_
      intro outer inner houter hinner hordered heq
      refine h.sublist_ahead ?_ (hordered heq)
      simp only [List.mem_cons, List.not_mem_nil, or_false, forall_eq_or_imp, forall_eq]
      exact ⟨isOf_marker_of_ne (hbs _ (List.of_mem_zip houter).1),
        isOf_marker_of_ne (hbs _ (List.of_mem_zip hinner).1)⟩
    · -- the new barrier waits behind all that wait ahead of its statement
      intro outer houter inner hinner heq
      obtain rfl : inner = (b, k) := List.mem_singleton.1 hinner
      have hyield := (hstands houter).1
      rw [heq] at hyield
      rw [h.ahead_new]
      exact (List.singleton_sublist.2 hyield).append (List.Sublist.refl _)

end Sign

/-! ### A statement between markers -/

namespace Stmt

open Sign (isOf)

variable {b : Barrier} {s s' : Stmt}

/-- A marker is a statement that was inserted. -/
theorem sign?_marker (name : String) (b : Barrier) :
    (marker name b.seq b.threadId).sign? = some (.marker name b) :=
  rfl

/-- The signs in and below some statements, without those of a barrier. -/
def signsWithout (b : Barrier) (items : List Stmt) : List Sign :=
  (signs (listing items)).filter (!isOf b ·)

theorem signsWithout_append (b : Barrier) (items more : List Stmt) :
    signsWithout b (items ++ more) = signsWithout b items ++ signsWithout b more := by
  rw [signsWithout, listing_append, signs_append, List.filter_append]
  rfl

/-- The signs of a list without a barrier are those of its statements. -/
theorem signsWithout_cons (b : Barrier) (s : Stmt) (items : List Stmt) :
    signsWithout b (s :: items) = signsWithout b [s] ++ signsWithout b items :=
  signsWithout_append b [s] items

/-- The signs of a block without a barrier. -/
theorem signsWithout_block (b : Barrier) (l : Option Nat) (items : List Stmt) :
    signsWithout b [block l items] = (l.map Sign.read).toList ++ signsWithout b items := by
  rw [signsWithout, listing, List.flatMap_singleton, signs_cons, inner_block, List.filter_append]
  cases l with
  | none => rfl
  | some l => rfl

/-- The marker that frees is one of the barrier itself. -/
theorem signsWithout_frees (b : Barrier) : signsWithout b [b.frees] = [] := by
  have hmarker : isOf b (.marker releaseName b) := Sign.isOf_marker_self (.inr rfl)
  rw [signsWithout, listing, List.flatMap_singleton, signs_cons,
    ← Barrier.marker_releaseName, sign?_marker, marker, call, inner_leaf]
  simp [signs, hmarker]

theorem signsWithout_cons_frees (b : Barrier) (items : List Stmt) :
    signsWithout b (b.frees :: items) = signsWithout b items := by
  rw [signsWithout_cons, signsWithout_frees, List.nil_append]

/-- A `release` at the head of a body is left out, and a block around the body has no sign. -/
theorem signsWithout_prepend (b : Barrier) (s : Stmt) :
    signsWithout b [prepend b.frees s] = signsWithout b [s] := by
  cases hblock : s.isBlock with
  | true =>
    obtain ⟨l, items, rfl⟩ := isBlock_iff.1 hblock
    rw [prepend, signsWithout_block, signsWithout_block, signsWithout_cons_frees]
  | false =>
    rw [prepend_of_not_block hblock, signsWithout_block, signsWithout_cons_frees]
    rfl

/-- Entering a statement changes nothing inside but by the `release`. -/
theorem filter_signs_enterWith? (h : enterWith? b.frees s = some s') :
    (signs s'.inner).filter (!isOf b ·) = (signs s.inner).filter (!isOf b ·) := by
  cases s with
  | leaf => cases h
  | block l items =>
    cases h
    rw [inner_block, inner_block]
    exact signsWithout_cons_frees b items
  | headed l head body =>
    rw [enterWith?] at h
    split at h
    next =>
      cases h
      rw [inner_headed, inner_headed]
      exact signsWithout_prepend b body
    next => cases h
  | ifElse l cond yes no =>
    cases h
    rw [inner_ifElse, inner_ifElse]
    show signsWithout b [_, _] = signsWithout b [_, _]
    rw [signsWithout_cons, signsWithout_cons b yes, signsWithout_prepend, signsWithout_prepend]

/-- A statement between the markers of a barrier: the `yield`, then what was there before, but for
the `release`. -/
theorem signs_guarded (b : Barrier) {l : Nat} (hl : s.line = some l) :
    ∃ inside, signs (listing (guarded b.seq b.threadId s))
        = .marker yieldName b :: .read l :: inside ∧
      inside.filter (!isOf b ·) = (signs s.inner).filter (!isOf b ·) := by
  obtain ⟨t, behind, heq, hcases⟩ := guarded_cases b.seq b.threadId s
  have ht : t.line = some l ∧ (signs t.inner ++ signs (listing behind)).filter (!isOf b ·)
      = (signs s.inner).filter (!isOf b ·) := by
    rcases hcases with ⟨hentered, rfl⟩ | ⟨-, rfl, rfl⟩
    · refine ⟨(enterWith?_resembles hentered).line.trans hl, ?_⟩
      rw [List.filter_append, filter_signs_enterWith? hentered]
      exact List.append_nil _
    · refine ⟨hl, ?_⟩
      have hbehind : (signs (listing [b.frees])).filter (!isOf b ·) = [] := signsWithout_frees b
      rw [List.filter_append]
      exact (congrArg _ hbehind).trans (List.append_nil _)
  refine ⟨signs t.inner ++ signs (listing behind), ?_, ht.2⟩
  rw [heq, listing_cons, listing_cons, marker, call, inner_leaf]
  simp only [List.cons_append, List.nil_append, signs_cons, signs_append, sign?_of_line ht.1]
  rfl

end Stmt

namespace Program

variable {p q : Program} {b : Barrier} {pinned : Pinned}

/-- A barrier waits directly in front of the statement that is searched for it. -/
theorem guards_of_insertBarrier? (h : p.insertBarrier? b = some q) :
    ∃ place, p.statementFrom? b.line = some place ∧
      Sign.Guards b (p.number place) p.signs q.signs := by
  rw [insertBarrier?_eq_map] at h
  obtain ⟨place, hplace, rfl⟩ := Option.map_eq_some_iff.1 h
  obtain ⟨inBlock, t, d, hd, ho, -, htest⟩ := find?_eq_some hplace
  obtain ⟨hblock, hstarts⟩ := Bool.and_eq_true_iff.1 htest
  obtain rfl : inBlock = true := hblock
  obtain ⟨l, hl⟩ := Option.isSome_iff_exists.1 (Stmt.line_isSome_of_startsFrom hstarts)
  obtain ⟨before, after, hsigns, hnumber, hsplice⟩ := signs_spliceAt (mem_occurrences.2 ⟨d, hd, ho⟩)
  obtain ⟨inside, hguarded, hinside⟩ := Stmt.signs_guarded b hl
  have hold : p.signs = before ++ .read l :: (Stmt.signs t.inner ++ after) := by
    rw [hsigns, Stmt.sign?_of_line hl]
    simp
  have hnew : (p.spliceAt place (Stmt.guarded b.seq b.threadId)).signs
      = before ++ .marker yieldName b :: .read l :: (inside ++ after) := by
    rw [hsplice, hguarded]
    simp
  refine ⟨place, hplace, .intro hold hnew hnumber ?_⟩
  rw [List.filter_append, List.filter_append, hinside]

/-- A pin shows nowhere but in the statement that it is made in. -/
theorem PinnedBy.signs_eq (h : PinnedBy pinned p q) : q.signs = p.signs := by
  obtain ⟨-, -, hreplaced⟩ := h
  obtain ⟨place, hat, hmodify⟩ := hreplaced.exists_place
  obtain ⟨before, after, hoccurrences, hsigns⟩ := signs_modifyAt hat
  rename_i l content
  let pin : Stmt → Stmt := Stmt.withValue (.constant pinned.type pinned.value)
  rw [← hmodify pin rfl, hsigns pin rfl, signs, statements, hoccurrences, Stmt.occurrences]
  simp [pin, Stmt.withValue, Stmt.signs]

/-- The lines among the signs of a program are those of its statements. -/
theorem filterMap_line?_signs (p : Program) :
    p.signs.filterMap Sign.line? = p.statements.filterMap Stmt.line :=
  Stmt.filterMap_line?_signs p.statements

/-- Counting statements is counting in their list. -/
theorem count_eq_countP (p : Program) (test : Stmt → Bool) :
    p.count test = p.statements.countP test := by
  rw [count, statements, List.countP_map]
  rfl

theorem mem_signs {name : String} : .marker name b ∈ p.signs ↔
    marker name b.seq b.threadId ∈ p.statements :=
  Stmt.mem_signs

/-- A marker is in a program if it is counted there. -/
theorem mem_statements_iff {name : String} : marker name b.seq b.threadId ∈ p.statements ↔
    0 < p.count (Stmt.isMarkerOf name b.seq b.threadId) := by
  rw [count_eq_countP, List.countP_pos_iff]
  simp [Stmt.isMarkerOf_iff]

end Program

/-! ### Sessions -/

namespace Session

variable {s next s' : Session} {step : Transition} {targets : List Stmt} {ks : List Nat}

/-- A pin shows nowhere in the order of the text. -/
theorem signs_pin : (s.pin step).program.signs = s.program.signs := by
  rcases s.pin_cases step with heq | ⟨q, pinned, hpinned, heq⟩
  · rw [heq]
  · rw [heq]
    exact hpinned.signs_eq

/-- Pins keep the lines of all statements that were read. -/
theorem pin_lines (s : Session) (step : Transition) :
    (s.pin step).program.statements.filterMap Stmt.line
      = s.program.statements.filterMap Stmt.line := by
  have hpin : (s.pin step).program.signs = s.program.signs := signs_pin
  rw [← Program.filterMap_line?_signs, hpin, Program.filterMap_line?_signs]

/-- Barriers keep the lines of all statements that were read. -/
theorem switch_lines (h : s.switch step = .ok next) :
    next.program.statements.filterMap Stmt.line = s.program.statements.filterMap Stmt.line := by
  rcases switch_eq_ok h with ⟨-, rfl⟩ | ⟨thread, line, q, -, hq, rfl⟩
  · rfl
  · obtain ⟨place, -, hguards⟩ := Program.guards_of_insertBarrier? hq
    rw [← Program.filterMap_line?_signs, hguards.lines_eq, Program.filterMap_line?_signs]

/-- A replay keeps the lines of all statements that were read, whether or not it fails. -/
theorem lines_run {steps : List Transition} {failure : Option ReplayError}
    (h : s.run steps = (s', failure)) :
    s'.program.statements.filterMap Stmt.line = s.program.statements.filterMap Stmt.line := by
  have hlines := run_induct (I := fun t =>
      t.program.statements.filterMap Stmt.line = s.program.statements.filterMap Stmt.line)
    (fun t step ht => (pin_lines t step).trans ht)
    (fun _ _ _ hnext ht => (switch_lines hnext).trans ht) steps rfl
  rwa [h] at hlines

/-- A replay that succeeds numbers its barriers by the statements that they are placed at, and keeps
the lines of all that was read. -/
theorem Scheduled.numbered {steps : List Transition} (hs : s.Scheduled targets)
    (h : Sign.Numbered s.program.signs s.report.barriers ks) (hrun : s.run steps = (s', none)) :
    Sign.Numbered s'.program.signs s'.report.barriers (ks ++ s.numbers steps) ∧
      s'.program.signs.filterMap Sign.line? = s.program.signs.filterMap Sign.line? := by
  induction steps generalizing s targets ks with
  | nil =>
    cases hrun
    rw [numbers, List.append_nil]
    exact ⟨h, rfl⟩
  | cons step rest ih =>
    obtain ⟨next, hnext, hrun⟩ := next_of_run hrun
    -- a pin changes no sign, so that only the switch of the step matters
    have hpin : Sign.Numbered (s.pin step).program.signs (s.pin step).report.barriers ks := by
      rw [signs_pin, pin_barriers]
      exact h
    obtain ⟨targets', hs'⟩ := hs.pin.switch hnext
    rw [numbers]
    dsimp only
    rw [hnext]
    dsimp only
    rcases switch_eq_ok hnext with ⟨hswitch, rfl⟩ | ⟨thread, line, q, hswitch, hq, rfl⟩
    · rw [pin_activeThread] at hswitch
      rw [hswitch]
      obtain ⟨hnumbered, hlines⟩ := ih hs' hpin hrun
      exact ⟨hnumbered, hlines.trans (congrArg _ signs_pin)⟩
    · rw [pin_activeThread] at hswitch
      obtain ⟨place, hplace, hguards⟩ := Program.guards_of_insertBarrier? hq
      have hne : ∀ b ∈ (s.pin step).report.barriers, b.seq ≠ (s.pin step).nextSeq := fun b hb =>
        Nat.ne_of_lt (hs.pin.seq_lt b hb)
      -- the number of the barrier was not used before
      have hfresh : .marker releaseName ⟨(s.pin step).nextSeq, thread, line⟩
          ∉ (s.pin step).program.signs := by
        rw [Program.mem_signs, Program.mem_statements_iff, hs.pin.fresh _ (Nat.le_refl _)]
        exact Nat.lt_irrefl 0
      obtain ⟨hnumbered, hlines⟩ := ih hs' (hguards.numbered hne hfresh hpin) hrun
      rw [hswitch, Option.bind_some, hplace, Option.map_some, Option.toList_some,
        ← List.append_assoc]
      refine ⟨hnumbered, hlines.trans ?_⟩
      rw [hguards.lines_eq, signs_pin]

end Session

/-! ### Nesting -/

/-- Every statement has an arm at least. -/
theorem Stmt.arms_pos (s : Stmt) : 0 < s.arms := by
  cases s with
  | leaf | block | headed => exact Nat.one_pos
  | ifElse => exact Nat.two_pos

namespace Program

variable {p : Program} {outer inner : Barrier} {t t' : Stmt} {k : Nat}

/-- The marker that waits is in a program with its barrier. -/
theorem Marked.waits_mem (h : p.Marked inner t) : inner.waits ∈ p.statements := by
  rw [← Barrier.marker_yieldName, mem_statements_iff]
  exact h.waits ▸ Nat.one_pos

theorem Marked.frees_mem (h : p.Marked outer t) : outer.frees ∈ p.statements := by
  rw [← Barrier.marker_releaseName, mem_statements_iff]
  exact h.releases ▸ t.arms_pos

theorem Marked.waits_notMem (h : p.Marked inner t) {before after : List Stmt}
    (hsplit : p.statements = before ++ inner.waits :: after) :
    inner.waits ∉ before ∧ inner.waits ∉ after := by
  have hcount := h.waits
  have hself : inner.waits.isMarkerOf "yield" inner.seq inner.threadId :=
    Stmt.isMarkerOf_marker_self
  rw [count_eq_countP, hsplit, List.countP_append, List.countP_cons_of_pos hself] at hcount
  constructor
  · intro hmem
    have := List.countP_pos_iff.2 ⟨_, hmem, hself⟩
    omega
  · intro hmem
    have := List.countP_pos_iff.2 ⟨_, hmem, hself⟩
    omega

/-- Wherever a program is parted at the one statement that waits for a barrier, the same signs come
before it. -/
theorem Marked.signs_before (h : p.Marked inner t) {before after : List Stmt}
    (hsplit : p.statements = before ++ inner.waits :: after) {front back : List Sign}
    (hsigns : p.signs = front ++ .marker yieldName inner :: back) :
    Stmt.signs before = front := by
  obtain ⟨hbefore, hafter⟩ := h.waits_notMem hsplit
  have hp : p.signs = Stmt.signs (before ++ inner.waits :: after) := congrArg Stmt.signs hsplit
  rw [Stmt.signs_append, Stmt.signs_cons, ← Barrier.marker_yieldName,
    Stmt.sign?_marker, hsigns] at hp
  exact ((List.append_cons_inj_of_notMem (mt Stmt.mem_signs.1 hbefore)
    (mt Stmt.mem_signs.1 hafter)).1 hp.symm).1

/-- Of two barriers that wait ahead of the same statement, the one that waits behind stands within
the other one. -/
theorem nests_of_ahead (houter : p.Marked outer t) (hinner : p.Marked inner t')
    (hrelease : .marker releaseName outer ∉ Sign.ahead k p.signs)
    (hwaits : [.marker yieldName outer, .marker yieldName inner].Sublist
      (Sign.ahead k p.signs)) : p.Nests outer inner := by
  refine ⟨hinner.waits_mem, ?_⟩
  intro before after hsplit
  obtain ⟨front, back, hahead, hfront, hback⟩ := List.cons_sublist_iff.1 hwaits
  obtain ⟨middle, back, rfl⟩ := List.append_of_mem (List.singleton_sublist.1 hback)
  obtain ⟨behind, hbehind⟩ := Sign.exists_ahead_append k p.signs
  rw [hahead, ← List.append_assoc] at hrelease hbehind
  rw [List.append_assoc, List.cons_append] at hbehind
  -- the inner one waits in one place only, so what is before it is known
  have hbefore : Stmt.signs before = front ++ middle := hinner.signs_before hsplit hbehind
  have hunreleased : outer.frees ∉ before := by
    intro hmem
    have hmem : .marker releaseName outer ∈ Stmt.signs before := Stmt.mem_signs.2 hmem
    rw [hbefore] at hmem
    exact hrelease (List.mem_append_left _ hmem)
  refine ⟨?_, hunreleased, ?_⟩
  · refine Stmt.mem_signs.1 ?_
    rw [hbefore]
    exact List.mem_append_left _ hfront
  · have hmem := houter.frees_mem
    rw [hsplit, List.mem_append, List.mem_cons] at hmem
    exact (hmem.resolve_left hunreleased).resolve_left (outer.frees_ne_waits inner)

section

variable {source : String} {steps : List Transition} {s : Session}

/-- A replay keeps the lines of all statements that were read. -/
theorem lines_replay (h : Program.parse source = .ok p) (hs : p.replay steps = (s, none)) :
    s.program.statements.filterMap Stmt.line = p.statements.filterMap Stmt.line := by
  have hlines := ((Session.scheduled_start h steps).numbered ⟨.nil, .nil⟩ hs).2
  rwa [filterMap_line?_signs, filterMap_line?_signs] at hlines

/-- Of any two barriers at one statement the later nests in the earlier. -/
theorem pairwise_nests_replay (h : Program.parse source = .ok p)
    (hs : p.replay steps = (s, none)) :
    (s.report.barriers.zip ((Session.start p steps).numbers steps)).Pairwise
      fun outer inner => outer.2 = inner.2 → s.program.Nests outer.1 inner.1 := by
  have hscheduled := Session.scheduled_start h steps
  have hnumbered := (hscheduled.numbered ⟨.nil, .nil⟩ hs).1
  have hmarked := (hscheduled.run hs).exists_marked
  refine hnumbered.ordered.imp_of_mem ?_
  intro outer inner houter hinner hwaits heq
  obtain ⟨t, houter'⟩ := hmarked _ (List.of_mem_zip houter).1
  obtain ⟨t', hinner'⟩ := hmarked _ (List.of_mem_zip hinner).1
  have hrelease := (List.forall₂_zip hnumbered.stands houter).2
  rw [heq] at hrelease
  exact nests_of_ahead houter' hinner' hrelease (hwaits heq)

/-- **Barriers of the same statement nest.** A replay that succeeds keeps the lines of all
statements that were read, so that a number stands for the same statement all along. Each of its
barriers has the number of the statement that it was placed at; and of two barriers of the same
statement the later one stands within the earlier one: it waits before the earlier one is
released. -/
theorem nests_replay (h : Program.parse source = .ok p) (hs : p.replay steps = (s, none)) :
    s.program.statements.filterMap Stmt.line = p.statements.filterMap Stmt.line ∧
    s.report.barriers.length = ((Session.start p steps).numbers steps).length ∧
    (s.report.barriers.zip ((Session.start p steps).numbers steps)).Pairwise
      fun outer inner => outer.2 = inner.2 → s.program.Nests outer.1 inner.1 := by
  have hnumbered := ((Session.scheduled_start h steps).numbered ⟨.nil, .nil⟩ hs).1
  exact ⟨lines_replay h hs, hnumbered.stands.length_eq, pairwise_nests_replay h hs⟩

end

end Program

/-- A source with one statement. -/
def singleSource : String :=
  "int x;\nint main() \x7b\n  x = 1;\n\x7d\n"

/-- Steps that switch threads twice at the statement of the source. -/
def singleSteps : List Transition :=
  let step (thread : Int) : Transition := ⟨some ⟨3, 1, 3, 0, ""⟩, ⟨none, none, some thread, none⟩⟩
  [step 0, step 1, step 0]

theorem replay_singleSource : ∃ p s, Program.parse singleSource = .ok p ∧
    p.replay singleSteps = (s, none) ∧ s.report.barriers = [⟨0, 1, 3⟩, ⟨1, 0, 3⟩] ∧
    (Session.start p singleSteps).numbers singleSteps = [0, 0] := by
  have hall : ∃ p, Program.parse singleSource = .ok p ∧ (p.replay singleSteps).2 = none ∧
      (p.replay singleSteps).1.report.barriers = [⟨0, 1, 3⟩, ⟨1, 0, 3⟩] ∧
      (Session.start p singleSteps).numbers singleSteps = [0, 0] := by decide +kernel
  obtain ⟨p, hp, hdone, hbarriers, hnumbers⟩ := hall
  exact ⟨p, _, hp, Prod.ext rfl hdone, hbarriers, hnumbers⟩

theorem nests_replay_singleSource : ∃ p s, Program.parse singleSource = .ok p ∧
    p.replay singleSteps = (s, none) ∧ s.program.Nests ⟨0, 1, 3⟩ ⟨1, 0, 3⟩ := by
  obtain ⟨p, s, hp, hs, hbarriers, hnumbers⟩ := replay_singleSource
  have hnests := (Program.nests_replay hp hs).2.2
  rw [hbarriers, hnumbers] at hnests
  exact ⟨p, s, hp, hs, (List.pairwise_pair.1 hnests) rfl⟩

/-- Not every barrier is released before a later one of the same statement waits. -/
theorem not_released_replay : ¬ ∀ source p steps s, Program.parse source = .ok p →
    p.replay steps = (s, none) →
    (s.report.barriers.zip ((Session.start p steps).numbers steps)).Pairwise
      fun earlier later => earlier.2 = later.2 → ∀ before after,
        s.program.statements = before ++ later.1.waits :: after → earlier.1.frees ∉ after := by
  intro h
  obtain ⟨p, s, hp, hs, hbarriers, hnumbers⟩ := replay_singleSource
  have hreleased := h _ p _ s hp hs
  have hnests := Program.pairwise_nests_replay hp hs
  rw [hbarriers, hnumbers] at hreleased hnests
  have hnested := (List.pairwise_pair.1 hnests) rfl
  obtain ⟨before, after, hsplit⟩ := List.append_of_mem hnested.waits
  exact (List.pairwise_pair.1 hreleased) rfl before after hsplit (hnested.within _ _ hsplit).2.2

end WitnessReplay
