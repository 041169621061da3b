import WitnessReplay.Proofs.Program.Replacement
import WitnessReplay.Replay.Session

/-!
# Markers and what they stand among

The statements without a line are those that a replay has inserted. `Placed` says which they are: a
marker of a barrier stands in a block, and a block without a line is a body that had no braces, with
markers around it. Everything a replay does keeps it so.
-/

namespace WitnessReplay

/-- Different numbers are written differently. -/
theorem toString_nat_injective {m n : Nat} (h : toString m = toString n) : m = n := by
  have hdigits : Nat.toDigits 10 m = Nat.toDigits 10 n := by
    have := congrArg String.toList h
    simpa [toString, Nat.repr] using this
  rw [← Nat.ofDigitChars_ten_toDigits (n := m), hdigits, Nat.ofDigitChars_ten_toDigits]

namespace Stmt

/-- Whether a statement is a marker that was inserted, of whatever barrier. -/
def isMarker : Stmt → Bool
  | leaf none (.evaluates (.call callee _)) => callee == "yield" || callee == "release"
  | _ => false

/-- Whether a statement is the marker of a name for a barrier. -/
def isMarkerOf (name : String) (seq : Nat) (thread : Int) : Stmt → Bool
  | leaf none (.evaluates (.call callee [.constant type value, .constant type' value'])) =>
    callee == name && type == "int" && value == toString seq && type' == "int"
      && value' == toString thread
  | _ => false

/-- The test for the markers of a barrier finds exactly the call it writes. -/
theorem isMarkerOf_iff {name : String} {seq : Nat} {thread : Int} {s : Stmt} :
    s.isMarkerOf name seq thread ↔ s = marker name seq thread := by
  unfold isMarkerOf
  split
  next =>
    simp only [Bool.and_eq_true, beq_iff_eq, marker, call, Expr.int, leaf.injEq, true_and,
      Leaf.evaluates.injEq, Expr.call.injEq, List.cons.injEq, Expr.constant.injEq, and_true]
    constructor
    · intro h
      obtain ⟨⟨⟨⟨h₁, h₂⟩, h₃⟩, h₄⟩, h₅⟩ := h
      exact ⟨h₁, ⟨h₂, h₃⟩, h₄, h₅⟩
    · intro h
      obtain ⟨h₁, ⟨h₂, h₃⟩, h₄, h₅⟩ := h
      exact ⟨⟨⟨⟨h₁, h₂⟩, h₃⟩, h₄⟩, h₅⟩
  next hne =>
    constructor
    · intro h
      cases h
    · intro h
      exact absurd h (hne _ _ _ _ _)

theorem isMarkerOf_marker_self {name : String} {seq : Nat} {thread : Int} :
    (marker name seq thread).isMarkerOf name seq thread :=
  isMarkerOf_iff.2 rfl

/-- Markers of different names or numbers are told apart. -/
theorem isMarkerOf_marker {name name' : String} {seq seq' : Nat} {thread thread' : Int}
    (h : name' ≠ name ∨ seq' ≠ seq) :
    (marker name' seq' thread').isMarkerOf name seq thread = false := by
  rw [Bool.eq_false_iff]
  intro hm
  have := isMarkerOf_iff.1 hm
  simp only [marker, call, Expr.int, leaf.injEq, true_and, Leaf.evaluates.injEq, Expr.call.injEq,
    List.cons.injEq, Expr.constant.injEq] at this
  obtain ⟨hname, hseq, -⟩ := this
  rcases h with h | h
  · exact h hname
  · exact h (toString_nat_injective hseq)

/-- No statement that was read is a marker, and no block is. -/
theorem isMarkerOf_eq_false {name : String} {seq : Nat} {thread : Int} {s : Stmt}
    (h : s.line.isSome ∨ s.isBlock) : s.isMarkerOf name seq thread = false := by
  rw [Bool.eq_false_iff]
  intro hm
  rw [isMarkerOf_iff.1 hm] at h
  simp [marker, call, line, isBlock] at h

theorem isMarker_eq_false {s : Stmt} (h : s.line.isSome ∨ s.isBlock) : s.isMarker = false := by
  unfold isMarker
  split
  next => simp [line, isBlock] at h
  next => rfl

/-- The markers of barriers are found. -/
theorem isMarker_marker {name : String} {seq : Nat} {thread : Int}
    (h : name = yieldName ∨ name = releaseName) : (marker name seq thread).isMarker := by
  simpa [marker, call, isMarker, yieldName, releaseName] using h

/-! ### Looks -/

/-- A statement that a tree above it cannot tell from another one. -/
structure Resembles (s' s : Stmt) : Prop where
  line : s'.line = s.line
  isBlock : s'.isBlock = s.isBlock
  isMarker : s'.isMarker = s.isMarker

variable {old new s s' : Stmt}

/-- Replacing a statement by one that resembles it makes one that resembles the whole. -/
theorem Replaced.resembles (h : Replaced old new s s') (hnew : new.Resembles old) :
    s'.Resembles s := by
  refine ⟨h.line_eq hnew.line, h.isBlock_eq hnew.isBlock, ?_⟩
  cases h with
  | here => exact hnew.isMarker
  | item | body | thenBranch | elseBranch => rfl

/-- A statement with a line is never taken for a marker, whatever it holds. -/
theorem resembles_of_line (hl : s'.line = s.line) (hb : s'.isBlock = s.isBlock)
    (hline : s.line.isSome) : s'.Resembles s :=
  ⟨hl, hb, by rw [isMarker_eq_false (.inl hline), isMarker_eq_false (.inl (hl ▸ hline))]⟩

/-- What stands in a block besides markers. -/
def unmarked (items : List Stmt) : List Stmt :=
  items.filter (!·.isMarker)

theorem unmarked_append (items more : List Stmt) :
    unmarked (items ++ more) = unmarked items ++ unmarked more :=
  List.filter_append ..

/-- Markers are left out of a list. -/
theorem unmarked_cons_of_marker {items : List Stmt} (h : s.isMarker) :
    unmarked (s :: items) = unmarked items := by
  simp [unmarked, h]

theorem unmarked_cons {items : List Stmt} (h : s.isMarker = false) :
    unmarked (s :: items) = s :: unmarked items := by
  simp [unmarked, h]

/-- If one statement stays, there are only markers before and behind it. -/
theorem unmarked_eq_singleton {before after : List Stmt} {t : Stmt} (hs : s.isMarker = false)
    (h : unmarked (before ++ s :: after) = [t]) :
    unmarked before = [] ∧ s = t ∧ unmarked after = [] := by
  rw [unmarked_append, unmarked_cons hs] at h
  rcases List.append_eq_singleton_iff.1 h with ⟨hbefore, hafter⟩ | ⟨-, hafter⟩
  · obtain ⟨heq, hafter⟩ := List.cons.inj hafter
    exact ⟨hbefore, heq, hafter⟩
  · cases hafter

/-! ### Where statements without a line stand -/

/-- A statement that has a line, or was inserted for one of some barriers: a marker in a block, or
a block around a body that had no braces. -/
inductive Placed (bs : List Barrier) : Bool → Stmt → Prop
  | lined {inBlock : Bool} {s : Stmt} (hl : s.line.isSome) : Placed bs inBlock s
  | marker {b : Barrier} {name : String} (hb : b ∈ bs) (hname : name = "yield" ∨ name = "release") :
      Placed bs true (leaf none (.evaluates (.call name
        [.constant "int" (toString b.seq), .constant "int" (toString b.threadId)])))
  | wrapper {items : List Stmt} {s : Stmt} (hs : unmarked items = [s]) (hl : s.line.isSome)
      (hblock : s.isBlock = false) : Placed bs false (block none items)

variable {bs bs' : List Barrier} {inBlock : Bool}

/-- What barriers have placed is placed by more barriers too. -/
theorem Placed.mono (h : Placed bs inBlock s) (hbs : ∀ b ∈ bs, b ∈ bs') :
    Placed bs' inBlock s := by
  cases h with
  | lined hl => exact .lined hl
  | marker hb hname => exact .marker (hbs _ hb) hname
  | wrapper hs hl hblock => exact .wrapper hs hl hblock

/-- Only in a block markers are placed. -/
theorem Placed.isMarker (h : Placed bs false s) : s.isMarker = false := by
  cases h with
  | lined hl => exact isMarker_eq_false (.inl hl)
  | wrapper => rfl

/-- A change below a statement leaves it placed, if it does where it is made. -/
theorem Placed.of_replaced (h : Placed bs inBlock s) (hreplaced : Replaced old new s s')
    (hnew : new.Resembles old)
    (hhere : ∀ {inBlock : Bool}, Placed bs inBlock old → Placed bs inBlock new) :
    Placed bs inBlock s' := by
  cases hreplaced with
  | here => exact hhere h
  | @item l before after c c' hreplaced =>
    have hc := hreplaced.resembles hnew
    cases h with
    | lined hl => exact .lined hl
    | wrapper hs hl hblock =>
      -- the change is in a marker, or in the one statement that is none
      cases hmarker : c.isMarker with
      | true =>
        rw [unmarked_append, unmarked_cons_of_marker hmarker] at hs
        refine .wrapper ?_ hl hblock
        rw [unmarked_append, unmarked_cons_of_marker (hc.isMarker.trans hmarker), hs]
      | false =>
        obtain ⟨hbefore, rfl, hafter⟩ := unmarked_eq_singleton hmarker hs
        refine .wrapper ?_ (hc.line ▸ hl) (hc.isBlock.trans hblock)
        rw [unmarked_append, unmarked_cons (hc.isMarker.trans hmarker), hbefore, hafter]
        rfl
  | body | thenBranch | elseBranch =>
    cases h with
    | lined hl => exact .lined hl

/-! ### What stands between the markers of a barrier -/

variable {first : Stmt}

/-- A marker inside of a statement keeps what it resembles. -/
theorem enterWith?_resembles (h : enterWith? first s = some s') : s'.Resembles s := by
  cases s with
  | leaf => cases h
  | block | ifElse =>
    cases h
    exact ⟨rfl, rfl, rfl⟩
  | headed l head body =>
    rw [enterWith?] at h
    split at h
    next =>
      cases h
      exact ⟨rfl, rfl, rfl⟩
    next => cases h

/-- The statement between the markers was entered, or has a marker behind it. -/
theorem guarded_cases (seq : Nat) (thread : Int) (target : Stmt) :
    ∃ inside behind, guarded seq thread target = marker yieldName seq thread :: inside :: behind ∧
      ((enterWith? (marker releaseName seq thread) target = some inside ∧ behind = []) ∨
        (enterWith? (marker releaseName seq thread) target = none ∧ inside = target ∧
          behind = [marker releaseName seq thread])) := by
  cases h : enterWith? (marker releaseName seq thread) target with
  | none =>
    exact ⟨target, [marker releaseName seq thread], by simp [guarded, h], .inr ⟨rfl, rfl, rfl⟩⟩
  | some entered => exact ⟨entered, [], by simp [guarded, h], .inl ⟨rfl, rfl⟩⟩

/-- Between its markers stands the statement alone. -/
theorem unmarked_guarded {seq : Nat} {thread : Int} {target : Stmt}
    (h : target.isMarker = false) :
    ∃ t, unmarked (guarded seq thread target) = [t] ∧ t.Resembles target := by
  obtain ⟨inside, behind, heq, hcases⟩ := guarded_cases seq thread target
  rw [heq, unmarked_cons_of_marker (isMarker_marker (.inl rfl))]
  rcases hcases with ⟨hentered, rfl⟩ | ⟨-, rfl, rfl⟩
  · have hinside := enterWith?_resembles hentered
    exact ⟨inside, unmarked_cons (hinside.isMarker.trans h), hinside⟩
  · rw [unmarked_cons h, unmarked_cons_of_marker (isMarker_marker (.inr rfl))]
    exact ⟨inside, rfl, rfl, rfl, rfl⟩

/-- A statement that is no block gets one, to have the marker in front. -/
theorem prepend_of_not_block (h : s.isBlock = false) :
    Stmt.prepend first s = block none [first, s] := by
  cases s with
  | block => cases h
  | leaf | headed | ifElse => rfl

/-- A body stays placed when a marker is put in front of it, and so does what is below. -/
theorem Placed.prepend (h : Placed bs false s) (hbelow : s.Every (Placed bs))
    (hfirst : Placed bs true first) (hmarker : first.isMarker) (hleaf : first.Every (Placed bs)) :
    Placed bs false (prepend first s) ∧ (Stmt.prepend first s).Every (Placed bs) := by
  cases hblock : s.isBlock with
  | true =>
    obtain ⟨l, items, rfl⟩ := isBlock_iff.1 hblock
    rw [every_block] at hbelow
    refine ⟨?_, every_block.2 (List.forall_mem_cons.2 ⟨⟨hfirst, hleaf⟩, hbelow⟩)⟩
    cases h with
    | lined hl => exact .lined hl
    | wrapper hs hl ht => exact .wrapper ((unmarked_cons_of_marker hmarker).trans hs) hl ht
  | false =>
    -- a body that is no block was read, and gets its wrapper now
    have hl : s.line.isSome := by
      cases h with
      | lined hl => exact hl
      | wrapper => cases hblock
    have hs : unmarked [first, s] = [s] := by
      rw [unmarked_cons_of_marker hmarker, unmarked_cons h.isMarker]
      rfl
    rw [prepend_of_not_block hblock]
    refine ⟨.wrapper hs hl hblock, every_block.2 ?_⟩
    simp only [List.mem_cons, List.not_mem_nil, or_false, forall_eq_or_imp, forall_eq]
    exact ⟨⟨hfirst, hleaf⟩, .lined hl, hbelow⟩

/-- What is below a statement stays placed when a marker is put inside. -/
theorem every_placed_enterWith? (h : enterWith? first s = some s') (hbelow : s.Every (Placed bs))
    (hfirst : Placed bs true first) (hmarker : first.isMarker) (hleaf : first.Every (Placed bs)) :
    s'.Every (Placed bs) := by
  cases s with
  | leaf => cases h
  | block l items =>
    cases h
    rw [every_block] at hbelow ⊢
    exact List.forall_mem_cons.2 ⟨⟨hfirst, hleaf⟩, hbelow⟩
  | headed l head body =>
    rw [enterWith?] at h
    split at h
    next =>
      cases h
      rw [every_headed] at hbelow ⊢
      exact hbelow.1.prepend hbelow.2 hfirst hmarker hleaf
    next => cases h
  | ifElse l cond yes no =>
    cases h
    rw [every_ifElse] at hbelow ⊢
    obtain ⟨hyes, hno⟩ := hbelow
    exact ⟨hyes.1.prepend hyes.2 hfirst hmarker hleaf, hno.1.prepend hno.2 hfirst hmarker hleaf⟩

/-- All that stands between the markers of a barrier is placed, as are the markers. -/
theorem placed_guarded {b : Barrier} (hb : b ∈ bs) (hl : s.line.isSome)
    (hbelow : s.Every (Placed bs)) :
    ∀ t ∈ guarded b.seq b.threadId s, Placed bs true t ∧ t.Every (Placed bs) := by
  obtain ⟨inside, behind, heq, hcases⟩ := guarded_cases b.seq b.threadId s
  have hwaits : Placed bs true (WitnessReplay.marker yieldName b.seq b.threadId) :=
    .marker hb (.inl rfl)
  have hfrees : Placed bs true (WitnessReplay.marker releaseName b.seq b.threadId) :=
    .marker hb (.inr rfl)
  rw [heq, List.forall_mem_cons, List.forall_mem_cons]
  refine ⟨⟨hwaits, every_leaf⟩, ?_⟩
  rcases hcases with ⟨hentered, rfl⟩ | ⟨-, rfl, rfl⟩
  · have hinside := every_placed_enterWith? hentered hbelow hfrees
      (isMarker_marker (.inr rfl)) every_leaf
    have hline : inside.line.isSome := (enterWith?_resembles hentered).line ▸ hl
    exact ⟨⟨.lined hline, hinside⟩, fun t ht => nomatch ht⟩
  · refine ⟨⟨.lined hl, hbelow⟩, ?_⟩
    rw [List.forall_mem_singleton]
    exact ⟨hfrees, every_leaf⟩

/-! ### How many markers there are -/

/-- How often a barrier of a statement is released: in both arms of an `if` with an `else`, else
once. -/
def arms : Stmt → Nat
  | ifElse .. => 2
  | _ => 1

/-- A statement without a body has one arm. -/
theorem arms_of_not_entered (h : enterWith? first s = none) : s.arms = 1 := by
  cases s with
  | leaf | block | headed => rfl
  | ifElse => cases h

section

-- `q` looks for some marker
variable {q : Stmt → Bool} (hq : ∀ {s : Stmt}, s.line.isSome ∨ s.isBlock → q s = false)
include hq

/-- What is put in front is counted too. -/
theorem countIn_prepend : countIn q [Stmt.prepend first s] = countIn q [first] + countIn q [s] := by
  have hwrap (l : Option Nat) (items : List Stmt) : q (block l items) = false := hq (.inr rfl)
  cases hblock : s.isBlock with
  | true =>
    obtain ⟨l, items, rfl⟩ := isBlock_iff.1 hblock
    simp only [Stmt.prepend, countIn, countBelow_block, hwrap]
    omega
  | false =>
    simp only [prepend_of_not_block hblock, countIn, countBelow_block, hwrap, Bool.false_eq_true,
      if_false]
    omega

/-- A marker that is put inside of a statement is counted once for every arm. -/
theorem countBelow_enterWith? (h : enterWith? first s = some s') :
    s'.countBelow q = s.arms * countIn q [first] + s.countBelow q := by
  cases s with
  | leaf => cases h
  | block l items =>
    cases h
    simp only [countBelow_block, countIn, arms]
    omega
  | headed l head body =>
    rw [enterWith?] at h
    split at h
    next =>
      cases h
      simp only [countBelow_headed, countIn_prepend hq, arms]
      omega
    next => cases h
  | ifElse l cond yes no =>
    cases h
    simp only [countBelow_ifElse, countIn_prepend hq, arms]
    omega

/-- What a barrier adds to a count: its markers, the second one in every arm of the statement. -/
theorem countIn_guarded (seq : Nat) (thread : Int) (hl : s.line.isSome) :
    countIn q (guarded seq thread s) = countIn q [marker yieldName seq thread]
      + s.arms * countIn q [marker releaseName seq thread] + countIn q [s] := by
  obtain ⟨inside, behind, heq, hcases⟩ := guarded_cases seq thread s
  have happend (t u : Stmt) (items : List Stmt) :
      countIn q (t :: u :: items) = countIn q [t] + countIn q [u] + countIn q items := by
    simp only [countIn]
    omega
  rw [heq, happend]
  rcases hcases with ⟨hentered, rfl⟩ | ⟨hnone, rfl, rfl⟩
  · have hinside : inside.line.isSome := (enterWith?_resembles hentered).line ▸ hl
    have hbelow := countBelow_enterWith? hq hentered
    simp only [countIn, hq (.inl hl), hq (.inl hinside)] at hbelow ⊢
    omega
  · rw [arms_of_not_entered hnone]
    omega

end

end Stmt

/-! ### Placing a barrier -/

/-- Once a statement of a block is found, its list is found too: a barrier is placed exactly if the
search finds a statement. -/
theorem Program.insertBarrier?_eq_map (p : Program) (b : Barrier) :
    p.insertBarrier? b =
      (p.statementFrom? b.line).map fun place =>
        p.spliceAt place (Stmt.guarded b.seq b.threadId) := by
  unfold insertBarrier?
  cases h : p.statementFrom? b.line with
  | none => rfl
  | some place =>
    obtain ⟨list, hlist⟩ := exists_enclosingList? h
    simp [hlist]

end WitnessReplay
