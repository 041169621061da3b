import WitnessReplay.Proofs.Program.Order
import WitnessReplay.Proofs.Replay.Marker

/-!
# Pins and barriers as walks

A pin and a barrier are placed by a search, which gives a way, and a change at the end of the way.
Ways go wrong as soon as the tree is changed above them, so here both are told as walks over the
tree. A pin is a visit of the leaves that have a line (`Stmt.visit`), with a state that says whether
the value has been found; a barrier is put at the first statement of a list that starts late enough
(`Stmt.spliceFirst?`). A barrier adds only leaves without a line and keeps the order of all others,
so every visit commutes with it (`Program.insertBarrier?_visit`), and a pin does
(`Program.pinned_insertBarrier?`).
-/

namespace WitnessReplay

namespace Stmt

variable {σ ρ : Type} {s c : Stmt}

/-! ### Visits -/

section

variable (f : σ → Nat → Leaf → σ × Leaf)

mutual

/-- Visits the leaves of a statement that have a line, in the order of the text. -/
def visit (state : σ) : Stmt → σ × Stmt
  | leaf none content => (state, leaf none content)
  | leaf (some l) content => ((f state l content).1, leaf (some l) (f state l content).2)
  | block l items => ((visitAll state items).1, block l (visitAll state items).2)
  | headed l head body => ((visit state body).1, headed l head (visit state body).2)
  | ifElse l cond yes no =>
    ((visit (visit state yes).1 no).1,
      ifElse l cond (visit state yes).2 (visit (visit state yes).1 no).2)

/-- Visits some statements, one after the other. -/
def visitAll (state : σ) : List Stmt → σ × List Stmt
  | [] => (state, [])
  | s :: rest =>
    ((visitAll (visit state s).1 rest).1, (visit state s).2 :: (visitAll (visit state s).1 rest).2)

end

/-- Visits what is below a statement. -/
def visitBelow (state : σ) : Stmt → σ × Stmt
  | leaf l content => (state, leaf l content)
  | s => visit f state s

end

section

variable {f : σ → Nat → Leaf → σ × Leaf} {state : σ}

/-- A visit leaves a statement where it is. -/
theorem line_visit (state : σ) (s : Stmt) : (s.visit f state).2.line = s.line := by
  cases s with
  | leaf l content => cases l <;> rfl
  | block | headed | ifElse => rfl

/-- A visit of two lists goes on in the second with the state that the first has left. -/
theorem visitAll_append (state : σ) (items more : List Stmt) :
    visitAll f state (items ++ more)
      = ((visitAll f (visitAll f state items).1 more).1,
        (visitAll f state items).2 ++ (visitAll f (visitAll f state items).1 more).2) := by
  induction items generalizing state with
  | nil => rfl
  | cons s items ih => simp only [List.cons_append, visitAll, ih]

end

/-! ### Splices -/

section

variable (line : Nat) (f : Stmt → List Stmt)

mutual

/-- Puts some statements into the place of the first one of a list, below a statement, that starts
on a line or later. -/
def spliceFirst? : Stmt → Option Stmt
  | leaf .. => none
  | block l items => (spliceFirstOf? items).map (block l)
  | headed l head body => (spliceFirst? body).map (headed l head)
  | ifElse l cond yes no =>
    match spliceFirst? yes with
    | some yes => some (ifElse l cond yes no)
    | none => (spliceFirst? no).map (ifElse l cond yes)

/-- The same in the list of a block. -/
def spliceFirstOf? : List Stmt → Option (List Stmt)
  | [] => none
  | s :: rest =>
    if s.startsFrom line then some (f s ++ rest)
    else
      match spliceFirst? s with
      | some s => some (s :: rest)
      | none => (spliceFirstOf? rest).map (s :: ·)

end

end

/-! ### Visits and splices -/

section

variable {f : σ → Nat → Leaf → σ × Leaf} {state : σ} {seq : Nat} {thread : Int} {name : String}

/-- A visit passes over markers: they are no statements that were read. -/
theorem visit_marker : (marker name seq thread).visit f state = (state, marker name seq thread) :=
  rfl

theorem visit_prepend (state : σ) (s : Stmt) :
    (prepend (marker name seq thread) s).visit f state
      = ((s.visit f state).1, prepend (marker name seq thread) (s.visit f state).2) := by
  cases s with
  | leaf l content => cases l <;> rfl
  | block | headed | ifElse => rfl

/-- The markers of a barrier are passed over. -/
theorem visitAll_guarded (state : σ) (s : Stmt) :
    visitAll f state (guarded seq thread s)
      = ((s.visit f state).1, guarded seq thread (s.visit f state).2) := by
  cases s with
  | leaf l content => cases l <;> rfl
  | block => rfl
  | headed l head body =>
    cases hhead : head.entersBody with
    | true => simp [guarded, enterWith?, hhead, visitAll, visit, visit_marker, visit_prepend]
    | false => simp [guarded, enterWith?, hhead, visitAll, visit, visit_marker]
  | ifElse => simp [guarded, enterWith?, visitAll, visit, visit_marker, visit_prepend]

end

/-- A visit and a splice that do not disturb each other at a statement. -/
def Commutes (f : σ → Nat → Leaf → σ × Leaf) (g : Stmt → List Stmt) : Prop :=
  ∀ state s, visitAll f state (g s) = ((s.visit f state).1, g (s.visit f state).2)

section

variable {f : σ → Nat → Leaf → σ × Leaf} {g : Stmt → List Stmt} (line : Nat)

mutual

/-- A visit finds the same leaves after a splice, and the splice the same place after a visit. -/
theorem spliceFirst?_visit (hg : Commutes f g) (state : σ) : (s : Stmt) →
    (s.visit f state).2.spliceFirst? line g
        = (s.spliceFirst? line g).map (fun t => (t.visit f state).2) ∧
      ∀ t, s.spliceFirst? line g = some t → (t.visit f state).1 = (s.visit f state).1
  | leaf l content => by
    cases l <;> exact ⟨rfl, fun t ht => by cases ht⟩
  | block l items => by
    obtain ⟨hsplice, hstate⟩ := spliceFirstOf?_visitAll hg state items
    simp only [visit, spliceFirst?, hsplice]
    cases h : spliceFirstOf? line g items with
    | none => exact ⟨rfl, fun t ht => by cases ht⟩
    | some items' =>
      refine ⟨rfl, fun t ht => ?_⟩
      cases ht
      exact hstate items' h
  | headed l head body => by
    obtain ⟨hsplice, hstate⟩ := spliceFirst?_visit hg state body
    simp only [visit, spliceFirst?, hsplice]
    cases h : body.spliceFirst? line g with
    | none => exact ⟨rfl, fun t ht => by cases ht⟩
    | some body' =>
      refine ⟨rfl, fun t ht => ?_⟩
      cases ht
      exact hstate body' h
  | ifElse l cond yes no => by
    obtain ⟨hyes, hstateYes⟩ := spliceFirst?_visit hg state yes
    -- the second branch is visited in the state that the first one leaves
    obtain ⟨hno, hstateNo⟩ := spliceFirst?_visit hg (yes.visit f state).1 no
    simp only [visit, spliceFirst?, hyes, hno]
    cases h : yes.spliceFirst? line g with
    | some yes' =>
      have hsame := hstateYes yes' h
      refine ⟨by simp [visit, hsame], fun t ht => ?_⟩
      cases ht
      rw [visit, hsame]
    | none =>
      cases h' : no.spliceFirst? line g with
      | none => exact ⟨rfl, fun t ht => by cases ht⟩
      | some no' =>
        refine ⟨rfl, fun t ht => ?_⟩
        cases ht
        exact hstateNo no' h'

/-- **In a list, a visit and the search for a statement commute.** The search stops at the same
place before and after the visit, and the visit leaves the same state before and after the statement
there is replaced. -/
theorem spliceFirstOf?_visitAll (hg : Commutes f g) (state : σ) : (items : List Stmt) →
    spliceFirstOf? line g (visitAll f state items).2
        = (spliceFirstOf? line g items).map (fun more => (visitAll f state more).2) ∧
      ∀ more, spliceFirstOf? line g items = some more →
        (visitAll f state more).1 = (visitAll f state items).1
  | [] => ⟨rfl, fun more h => by cases h⟩
  | s :: rest => by
    obtain ⟨hs, hstate⟩ := spliceFirst?_visit hg state s
    obtain ⟨hrest, hstateRest⟩ := spliceFirstOf?_visitAll hg (s.visit f state).1 rest
    -- a visit changes no line, so the search stops at the same statement
    have hstarts : (s.visit f state).2.startsFrom line = s.startsFrom line := by
      rw [startsFrom, line_visit, startsFrom]
    simp only [visitAll, spliceFirstOf?, hstarts, hs, hrest]
    split
    · refine ⟨?_, fun more h => ?_⟩
      · rw [Option.map_some, visitAll_append, hg]
      · cases h
        rw [visitAll_append, hg]
    · cases h : s.spliceFirst? line g with
      | some s' =>
        have hsame := hstate s' h
        refine ⟨by simp [visitAll, hsame], fun more h => ?_⟩
        cases h
        rw [visitAll, hsame]
      | none =>
        cases h' : spliceFirstOf? line g rest with
        | none => exact ⟨rfl, fun more h => by cases h⟩
        | some rest' =>
          refine ⟨rfl, fun more h => ?_⟩
          cases h
          exact hstateRest rest' h'

end

end

/-! ### Ways -/

/-- A way below a statement begins at one of its children. -/
theorem mapChild_eq {i : Nat} (f : Stmt → Stmt) (h : s.children[i]? = some c) :
    s.mapChild i f = s.mapChild i fun _ => f c := by
  cases s with
  | leaf => rfl
  | block l items =>
    obtain ⟨before, after, hitems, rfl⟩ := exists_append_of_getElem? h
    rw [mapChild, mapChild, show items = before ++ c :: after from hitems, modify_append_cons,
      modify_append_cons]
  | headed l head body =>
    cases i with
    | zero => cases h; rfl
    | succ i => cases h
  | ifElse l cond yes no =>
    rcases getElem?_pair_eq_some.1 h with ⟨rfl, rfl⟩ | ⟨rfl, rfl⟩ <;> rfl

/-- Changing nothing at the end of a way changes nothing. -/
theorem modifyAt_id (steps : List Nat) (s : Stmt) : s.modifyAt steps id = s := by
  induction steps generalizing s with
  | nil => rfl
  | cons i steps ih =>
    rw [modifyAt, show modifyAt steps id = id from funext ih]
    cases s with
    | leaf => rfl
    | block => rw [mapChild, List.modify_id]
    | headed | ifElse => simp [mapChild]

/-- Replaces the item of a block at an index by some statements. -/
def spliceItem (i : Nat) (f : Stmt → List Stmt) : Stmt → Stmt
  | block l items => block l (items.take i ++ (items[i]?.map f).getD [] ++ items.drop (i + 1))
  | s => s

/-- Replaces the statement at the end of a way, in the list of its block, by some statements. -/
def spliceBelow (steps : List Nat) (f : Stmt → List Stmt) (s : Stmt) : Stmt :=
  match steps.getLast? with
  | none => s
  | some i => s.modifyAt steps.dropLast (spliceItem i f)

section

variable {line i : Nat} {f : Stmt → List Stmt}

theorem spliceBelow_concat (steps : List Nat) :
    spliceBelow (steps ++ [i]) f = modifyAt steps (spliceItem i f) := by
  funext s
  rw [spliceBelow, List.getLast?_concat, List.dropLast_concat]

/-- A replacement further below goes through the child on the way. -/
theorem spliceBelow_cons {steps : List Nat} (h : steps ≠ []) :
    s.spliceBelow (i :: steps) f = s.mapChild i (spliceBelow steps f) := by
  obtain ⟨init, j, rfl⟩ := (List.eq_nil_or_concat' steps).resolve_left h
  rw [← List.cons_append, spliceBelow_concat, spliceBelow_concat, modifyAt]

theorem spliceItem_append (l : Option Nat) (before : List Stmt) (s : Stmt) (after : List Stmt) :
    (block l (before ++ s :: after)).spliceItem before.length f
      = block l (before ++ f s ++ after) := by
  simp [spliceItem]

/-- What the search finds below a child, seen from above. -/
theorem find?_under (o : Option Stmt) (hc : s.children[i]? = some c)
    (ho : o = (c.occurrences.find? fun o => o.inBlock && o.stmt.startsFrom line).map
      fun o => c.spliceBelow o.steps f) :
    ((c.occurrences.map (·.under i)).find? fun o => o.inBlock && o.stmt.startsFrom line).map
        (fun o => s.spliceBelow o.steps f)
      = o.map fun c' => s.mapChild i fun _ => c' := by
  rw [ho, List.find?_map]
  change Option.map _ (Option.map _ (c.occurrences.find? fun o => o.inBlock && o.stmt.startsFrom line)) = _
  cases h : c.occurrences.find? fun o => o.inBlock && o.stmt.startsFrom line with
  | none => rfl
  | some o =>
    have hne := steps_ne_nil (List.mem_of_find?_eq_some h)
    simp only [Option.map_some, Occurrence.under]
    rw [spliceBelow_cons hne, mapChild_eq _ hc]

mutual

/-- The splice is made where the search ends. -/
theorem spliceFirst?_eq : (s : Stmt) →
    s.spliceFirst? line f
      = (s.occurrences.find? fun o => o.inBlock && o.stmt.startsFrom line).map
        fun o => s.spliceBelow o.steps f
  | leaf l content => rfl
  | block l items => by
    rw [spliceFirst?, occurrences]
    exact spliceFirstOf?_eq l [] items
  | headed l head body => by
    rw [spliceFirst?, occurrences, List.find?_cons_of_neg (by simp),
      find?_under _ rfl (spliceFirst?_eq body)]
    rfl
  | ifElse l cond yes no => by
    have hyes := find?_under (s := ifElse l cond yes no) (i := 0) _ rfl (spliceFirst?_eq yes)
    have hno := find?_under (s := ifElse l cond yes no) (i := 1) _ rfl (spliceFirst?_eq no)
    rw [spliceFirst?, occurrences, List.cons_append, List.find?_cons_of_neg (by simp),
      List.find?_append, List.find?_cons_of_neg (by simp), Option.map_or, hyes, hno]
    cases yes.spliceFirst? line f <;> rfl

/-- The search in a list replaces the first statement of a block that starts from the line on. -/
theorem spliceFirstOf?_eq (l : Option Nat) (before : List Stmt) : (items : List Stmt) →
    (spliceFirstOf? line f items).map (fun items => block l (before ++ items))
      = ((occurrencesFrom before.length items).find?
          fun o => o.inBlock && o.stmt.startsFrom line).map
        fun o => (block l (before ++ items)).spliceBelow o.steps f
  | [] => rfl
  | s :: rest => by
    have hchild : (block l (before ++ s :: rest)).children[before.length]? = some s := by
      simp [children]
    have hunder := find?_under (s := block l (before ++ s :: rest)) (i := before.length) _ hchild
      (spliceFirst?_eq s)
    -- the statements passed over move to the front, so that the steps below are those in the block
    have hrest := spliceFirstOf?_eq l (before ++ [s]) rest
    rw [List.length_append, List.length_singleton, List.append_assoc, List.singleton_append] at hrest
    rw [spliceFirstOf?, occurrencesFrom, List.cons_append]
    split
    next hs =>
      rw [List.find?_cons_of_pos (by simpa using hs)]
      simp [spliceBelow, modifyAt, spliceItem_append]
    next hs =>
      rw [List.find?_cons_of_neg (by simpa using hs), List.find?_append, Option.map_or, hunder,
        ← hrest]
      cases s.spliceFirst? line f with
      | none => simp [Function.comp_def]
      | some s' => simp [mapChild, modify_append_cons]

end

end

end Stmt

/-! ### Pins -/

/-- A leaf with the value of a pin, if there is one. -/
def Leaf.pinned : Option Pinned → Leaf → Leaf
  | some pin, content => content.withValue (.constant pin.type pin.value)
  | none, content => content

namespace Stmt

/-- A statement with the value of a pin, if there is one. -/
def pinned : Option Pinned → Stmt → Stmt
  | some pin, s => s.withValue (.constant pin.type pin.value)
  | none, s => s

theorem pinned_leaf (pin : Option Pinned) (l : Option Nat) (content : Leaf) :
    (leaf l content).pinned pin = leaf l (content.pinned pin) := by
  cases pin <;> rfl

section

variable (find : Nat → Leaf → Option (Option Pinned))

/-- The visit that pins the first value that is found. The state says what was found. -/
def pinOnce : Option (Option Pinned) → Nat → Leaf → Option (Option Pinned) × Leaf
  | none, l, content => (find l content, content.pinned (find l content).join)
  | some found, _, content => (some found, content)

/-- What is found at a statement. -/
def found? : Stmt → Option (Option Pinned)
  | leaf (some l) content => find l content
  | _ => none

/-- What is found first among some statements below a statement, and the statement with the pin. -/
def pinFirst (os : List Occurrence) (s : Stmt) : Option (Option Pinned) × Stmt :=
  match os.find? fun o => (o.stmt.found? find).isSome with
  | none => (none, s)
  | some o => (o.stmt.found? find, s.modifyAt o.steps (pinned (o.stmt.found? find).join))

end

section

variable {find : Nat → Leaf → Option (Option Pinned)} {found : Option Pinned}

mutual

/-- Behind the first value nothing is pinned. -/
theorem visit_pinOnce_some : (s : Stmt) →
    s.visit (pinOnce find) (some found) = (some found, s)
  | leaf l content => by cases l <;> rfl
  | block l items => by rw [visit, visitAll_pinOnce_some items]
  | headed l head body => by rw [visit, visit_pinOnce_some body]
  | ifElse l cond yes no => by
    rw [visit, visit_pinOnce_some yes, visit_pinOnce_some no]

/-- Once there is a pin, nothing else is pinned. -/
theorem visitAll_pinOnce_some : (items : List Stmt) →
    visitAll (pinOnce find) (some found) items = (some found, items)
  | [] => rfl
  | s :: rest => by rw [visitAll, visit_pinOnce_some s, visitAll_pinOnce_some rest]

end

/-- Whether a value is found at a statement or only below it. -/
theorem visit_pinOnce (s : Stmt) :
    s.visit (pinOnce find) none =
      match s.found? find with
      | some found => (some found, s.pinned found)
      | none => s.visitBelow (pinOnce find) none := by
  cases s with
  | leaf l content =>
    cases l with
    | none => rfl
    | some l =>
      rw [visit, pinOnce, found?]
      cases h : find l content with
      | none => simp [visitBelow, Leaf.pinned]
      | some found => simp [pinned_leaf]
  | block | headed | ifElse => rfl

/-- Where nothing is found to be pinned nothing changes. -/
theorem pinFirst_eq_none {os : List Occurrence} (h : (pinFirst find os s).1 = none) :
    pinFirst find os s = (none, s) := by
  rw [pinFirst] at h ⊢
  split
  next => rfl
  next o ho =>
    rw [ho] at h
    have hnone : o.stmt.found? find = none := h
    have := List.find?_some ho
    rw [hnone] at this
    cases this

/-- What is found in a child and behind it. -/
theorem pinFirst_child {i : Nat} (inBlock : Bool) (os : List Occurrence)
    (hc : s.children[i]? = some c)
    (h : c.visitBelow (pinOnce find) none = pinFirst find c.occurrences c) :
    pinFirst find (⟨[i], inBlock, c⟩ :: c.occurrences.map (·.under i) ++ os) s =
      match c.visit (pinOnce find) none with
      | (some found, c') => (some found, s.mapChild i fun _ => c')
      | (none, _) => pinFirst find os s := by
  have hunder : (c.occurrences.map (·.under i)).find? (fun o => (o.stmt.found? find).isSome)
      = (c.occurrences.find? fun o => (o.stmt.found? find).isSome).map (·.under i) :=
    List.find?_map ..
  rw [visit_pinOnce, h, pinFirst, List.cons_append, List.find?_cons]
  cases hfound : c.found? find with
  | some found => simp [hfound, modifyAt, mapChild_eq _ hc]
  | none =>
    rw [Option.isSome_none]
    dsimp only
    rw [List.find?_append, hunder, pinFirst]
    cases ho : c.occurrences.find? fun o => (o.stmt.found? find).isSome with
    | none => rfl
    | some o =>
      have hsome := List.find?_some ho
      obtain ⟨found, hfound⟩ := Option.isSome_iff_exists.1 hsome
      simp [Occurrence.under, hfound, modifyAt, mapChild_eq _ hc]

theorem visit_pinOnce_none (h : s.visitBelow (pinOnce find) none = pinFirst find s.occurrences s)
    {s' : Stmt} (hs : s.visit (pinOnce find) none = (none, s')) : s' = s := by
  rw [visit_pinOnce, h] at hs
  split at hs
  next => cases hs
  next =>
    rw [pinFirst_eq_none (congrArg Prod.fst hs)] at hs
    cases hs
    rfl

mutual

/-- The visit pins where the search ends. -/
theorem visitBelow_pinOnce : (s : Stmt) →
    s.visitBelow (pinOnce find) none = pinFirst find s.occurrences s
  | leaf l content => rfl
  | block l items => by
    have := visitAll_pinOnce l [] items
    rw [visitBelow, visit, occurrences]
    exact this
    simp
  | headed l head body => by
    have ih := visitBelow_pinOnce body
    have hchild := pinFirst_child (s := headed l head body) (i := 0) false [] rfl ih
    rw [List.append_nil] at hchild
    rw [occurrences, hchild, visitBelow, visit]
    · -- once something is found the rest of the tree is left as it is
      cases hv : body.visit (pinOnce find) none with
      | mk found body' =>
        cases found with
        | none =>
          rw [visit_pinOnce_none ih hv]
          rfl
        | some found => rfl
    · simp
  | ifElse l cond yes no => by
    have ihYes := visitBelow_pinOnce yes
    have ihNo := visitBelow_pinOnce no
    have hno := pinFirst_child (s := ifElse l cond yes no) (i := 1) false [] rfl ihNo
    have hyes := pinFirst_child (s := ifElse l cond yes no) (i := 0) false
      (⟨[1], false, no⟩ :: no.occurrences.map (·.under 1)) rfl ihYes
    rw [List.append_nil] at hno
    rw [occurrences, hyes, hno, visitBelow, visit]
    · cases hv : yes.visit (pinOnce find) none with
      | mk found yes' =>
        cases found with
        | some found => simp [visit_pinOnce_some, mapChild]
        | none =>
          rw [visit_pinOnce_none ihYes hv]
          cases hv' : no.visit (pinOnce find) none with
          | mk found no' =>
            cases found with
            | some found => simp [mapChild]
            | none =>
              rw [visit_pinOnce_none ihNo hv']
              rfl
    · simp

/-- In a list, the visit that pins once pins the first statement where a pin is found. -/
theorem visitAll_pinOnce (l : Option Nat) (before : List Stmt) : (items : List Stmt) →
    ((visitAll (pinOnce find) none items).1,
        block l (before ++ (visitAll (pinOnce find) none items).2))
      = pinFirst find (occurrencesFrom before.length items) (block l (before ++ items))
  | [] => rfl
  | s :: rest => by
    have ih := visitBelow_pinOnce s
    have hrest := visitAll_pinOnce l (before ++ [s]) rest
    have hchild := pinFirst_child (s := block l (before ++ s :: rest)) (i := before.length)
      true (occurrencesFrom (before.length + 1) rest) (by simp [children]) ih
    rw [List.length_append, List.length_singleton, List.append_assoc, List.append_assoc] at hrest
    rw [occurrencesFrom, hchild, visitAll]
    cases hv : s.visit (pinOnce find) none with
    | mk found s' =>
      cases found with
      | some found => simp [visitAll_pinOnce_some, mapChild, modify_append_cons]
      | none =>
        rw [visit_pinOnce_none ih hv]
        exact hrest

end

end

end Stmt

/-! ### Programs -/

namespace Program

open Stmt

variable {σ : Type} {p q : Program}

/-- Visits the leaves below the bodies of the functions among some items. -/
def visitItems (f : σ → Nat → Leaf → σ × Leaf) (state : σ) : List Item → σ × List Item
  | [] => (state, [])
  | .verbatim text line :: rest =>
    ((visitItems f state rest).1, .verbatim text line :: (visitItems f state rest).2)
  | .function d :: rest =>
    ((visitItems f (d.body.visitBelow f state).1 rest).1,
      .function { d with body := (d.body.visitBelow f state).2 }
        :: (visitItems f (d.body.visitBelow f state).1 rest).2)

/-- Visits the leaves below the bodies of the functions of a program. -/
def visit (f : σ → Nat → Leaf → σ × Leaf) (state : σ) (p : Program) : σ × Program :=
  ((visitItems f state p.items).1, ⟨(visitItems f state p.items).2⟩)

/-- Puts some statements into the place of the first one of a block that starts on a line or later.
-/
def spliceFirstOf? (line : Nat) (g : Stmt → List Stmt) : List Item → Option (List Item)
  | [] => none
  | .verbatim text l :: rest => (spliceFirstOf? line g rest).map (.verbatim text l :: ·)
  | .function d :: rest =>
    match d.body.spliceFirst? line g with
    | some body => some (.function { d with body } :: rest)
    | none => (spliceFirstOf? line g rest).map (.function d :: ·)

/-- A body in which a place to splice at is found is no leaf, before and after. -/
theorem visitBelow_of_spliceFirst? (f : σ → Nat → Leaf → σ × Leaf) {g : Stmt → List Stmt}
    {line : Nat} (state : σ) {s t : Stmt} (h : s.spliceFirst? line g = some t) :
    s.visitBelow f state = s.visit f state ∧ t.visitBelow f state = t.visit f state := by
  cases s with
  | leaf => cases h
  | block | headed =>
    obtain ⟨_, -, rfl⟩ := Option.map_eq_some_iff.1 h
    exact ⟨rfl, rfl⟩
  | ifElse =>
    rw [spliceFirst?] at h
    split at h
    next =>
      cases h
      exact ⟨rfl, rfl⟩
    next =>
      obtain ⟨_, -, rfl⟩ := Option.map_eq_some_iff.1 h
      exact ⟨rfl, rfl⟩

/-- A visit and the search commute below a statement. -/
theorem spliceFirst?_visitBelow {f : σ → Nat → Leaf → σ × Leaf} {g : Stmt → List Stmt}
    (line : Nat) (hg : Commutes f g) (state : σ) (s : Stmt) :
    (s.visitBelow f state).2.spliceFirst? line g
        = (s.spliceFirst? line g).map (fun t => (t.visitBelow f state).2) ∧
      ∀ t, s.spliceFirst? line g = some t →
        (t.visitBelow f state).1 = (s.visitBelow f state).1 := by
  obtain ⟨hsplice, hstate⟩ := spliceFirst?_visit line hg state s
  cases hs : s.spliceFirst? line g with
  | none =>
    refine ⟨?_, fun t ht => by cases ht⟩
    rw [hs] at hsplice
    cases s with
    | leaf => rfl
    | block | headed | ifElse => exact hsplice
  | some t =>
    obtain ⟨hbelow, hbelow'⟩ := visitBelow_of_spliceFirst? f state hs
    rw [hbelow, hsplice, hs, Option.map_some, Option.map_some, hbelow']
    refine ⟨rfl, fun t' ht' => ?_⟩
    cases ht'
    rw [hbelow']
    exact hstate t hs

theorem spliceFirstOf?_visitItems {f : σ → Nat → Leaf → σ × Leaf} {g : Stmt → List Stmt}
    (line : Nat) (hg : Commutes f g) (state : σ) (items : List Item) :
    spliceFirstOf? line g (visitItems f state items).2
        = (spliceFirstOf? line g items).map (fun more => (visitItems f state more).2) ∧
      ∀ more, spliceFirstOf? line g items = some more →
        (visitItems f state more).1 = (visitItems f state items).1 := by
  induction items generalizing state with
  | nil => exact ⟨rfl, fun more h => by cases h⟩
  | cons item rest ih =>
    cases item with
    | verbatim text l =>
      obtain ⟨hrest, hstate⟩ := ih state
      simp only [visitItems, spliceFirstOf?, hrest]
      cases h : spliceFirstOf? line g rest with
      | none => exact ⟨rfl, fun more h => by cases h⟩
      | some rest' =>
        refine ⟨rfl, fun more hmore => ?_⟩
        cases hmore
        exact hstate rest' h
    | function d =>
      obtain ⟨hbody, hstate⟩ := spliceFirst?_visitBelow line hg state d.body
      obtain ⟨hrest, hstateRest⟩ := ih (d.body.visitBelow f state).1
      simp only [visitItems, spliceFirstOf?, hbody, hrest]
      cases h : d.body.spliceFirst? line g with
      | some body =>
        have hsame := hstate body h
        refine ⟨by simp [visitItems, hsame], fun more hmore => ?_⟩
        cases hmore
        rw [visitItems, hsame]
      | none =>
        cases h' : spliceFirstOf? line g rest with
        | none => exact ⟨rfl, fun more h => by cases h⟩
        | some rest' =>
          refine ⟨rfl, fun more hmore => ?_⟩
          cases hmore
          exact hstateRest rest' h'

/-- A replacement inside of one function keeps the items before and behind it. -/
theorem spliceAt_append_cons (before rest : List Item) (d : Function) (steps : List Nat)
    (g : Stmt → List Stmt) :
    (Program.mk (before ++ .function d :: rest)).spliceAt ⟨before.length, steps⟩ g
      = ⟨before ++ .function { d with body := d.body.spliceBelow steps g } :: rest⟩ := by
  rw [spliceAt, spliceBelow]
  cases steps.getLast? with
  | none => rfl
  | some i =>
    dsimp only
    rw [modifyAt_append_cons]
    rfl

/-- The search among items replaces the first statement of a block that starts from the line on. -/
theorem spliceFirstOf?_eq (line : Nat) {g : Stmt → List Stmt} (before items : List Item) :
    (spliceFirstOf? line g items).map (fun items => Program.mk (before ++ items))
      = ((occurrencesFrom before.length items).find? fun (_, inBlock, s) =>
          inBlock && s.startsFrom line).map
        fun o => (Program.mk (before ++ items)).spliceAt o.1 g := by
  induction items generalizing before with
  | nil => rfl
  | cons item rest ih =>
    have hrest := ih (before ++ [item])
    rw [List.length_append, List.length_singleton, List.append_assoc, List.singleton_append] at hrest
    cases item with
    | verbatim text l =>
      rw [occurrencesFrom, ← hrest, spliceFirstOf?, Option.map_map]
      simp [Function.comp_def]
    | function d =>
      have hmap : (d.body.occurrences.map fun o => ((⟨before.length, o.steps⟩ : Place), o.inBlock,
          o.stmt)).find? (fun (_, inBlock, s) => inBlock && s.startsFrom line)
            = (d.body.occurrences.find? fun o => o.inBlock && o.stmt.startsFrom line).map
              fun o => (⟨before.length, o.steps⟩, o.inBlock, o.stmt) := List.find?_map ..
      rw [occurrencesFrom, List.find?_append, Option.map_or, ← hrest, hmap, spliceFirstOf?,
        spliceFirst?_eq]
      cases d.body.occurrences.find? fun o => o.inBlock && o.stmt.startsFrom line with
      | none => simp [Function.comp_def]
      | some o => simp [spliceAt_append_cons]

/-- A barrier is a splice at the first statement of a block. -/
theorem insertBarrier?_eq (p : Program) (b : Barrier) :
    p.insertBarrier? b
      = (spliceFirstOf? b.line (guarded b.seq b.threadId) p.items).map Program.mk := by
  have h := spliceFirstOf?_eq b.line (g := guarded b.seq b.threadId) [] p.items
  rw [insertBarrier?_eq_map, statementFrom?, Program.find?, Option.map_map]
  exact h.symm

/-! ### The first value of a program -/

/-- What is found first among some statements below the bodies of a program, and the program with
the pin. -/
def pinFirst (find : Nat → Leaf → Option (Option Pinned)) (os : List (Place × Bool × Stmt))
    (p : Program) : Option (Option Pinned) × Program :=
  match os.find? fun o => (o.2.2.found? find).isSome with
  | none => (none, p)
  | some o => (o.2.2.found? find, p.modifyAt o.1 (pinned (o.2.2.found? find).join))

/-- Once there is a pin, no other item is changed. -/
theorem visitItems_pinOnce_some {find : Nat → Leaf → Option (Option Pinned)}
    {found : Option Pinned} (items : List Item) :
    visitItems (pinOnce find) (some found) items = (some found, items) := by
  induction items with
  | nil => rfl
  | cons item rest ih =>
    cases item with
    | verbatim => rw [visitItems, ih]
    | function d =>
      have hbody : d.body.visitBelow (pinOnce find) (some found) = (some found, d.body) := by
        cases hd : d.body with
        | leaf => rfl
        | block | headed | ifElse => exact visit_pinOnce_some _
      rw [visitItems, hbody, ih]

/-- Among items, the visit that pins once pins the first statement where a pin is found. -/
theorem visitItems_pinOnce {find : Nat → Leaf → Option (Option Pinned)}
    (before items : List Item) :
    ((visitItems (pinOnce find) none items).1,
        Program.mk (before ++ (visitItems (pinOnce find) none items).2))
      = pinFirst find (occurrencesFrom before.length items) ⟨before ++ items⟩ := by
  induction items generalizing before with
  | nil => rfl
  | cons item rest ih =>
    have hrest := ih (before ++ [item])
    rw [List.length_append, List.length_singleton, List.append_assoc, List.append_assoc,
      List.singleton_append] at hrest
    cases item with
    | verbatim text l => exact hrest
    | function d =>
      have hmap : (d.body.occurrences.map fun o => ((⟨before.length, o.steps⟩ : Place), o.inBlock,
          o.stmt)).find? (fun o => (o.2.2.found? find).isSome)
            = (d.body.occurrences.find? fun o => (o.stmt.found? find).isSome).map
              fun o => (⟨before.length, o.steps⟩, o.inBlock, o.stmt) := List.find?_map ..
      rw [pinFirst, occurrencesFrom, List.find?_append, hmap, visitItems, visitBelow_pinOnce,
        Stmt.pinFirst]
      cases ho : d.body.occurrences.find? fun o => (o.stmt.found? find).isSome with
      | none => exact hrest
      | some o =>
        have hsome := List.find?_some ho
        obtain ⟨found, hfound⟩ := Option.isSome_iff_exists.1 hsome
        simp [hfound, visitItems_pinOnce_some, modifyAt_append_cons]

/-- What an assumption says about a leaf on a line or later: nothing if it takes up no
nondeterministic value, and no pin if it does and the assumption does not name the variable. -/
def findPin (assumption : String) (line l : Nat) (content : Leaf) : Option (Option Pinned) :=
  if line ≤ l then
    content.nondetSlot?.map fun slot =>
      ((Assumption.parse assumption).find? (·.name == slot.name)).map fun constraint =>
        ⟨slot.name, constraint.value, slot.type, some l⟩
  else none

/-- The pin of an assumption, and the program with it. -/
def pinAt (assumption : String) (line : Nat) (p : Program) : Option Pinned × Program :=
  ((p.visit (pinOnce (findPin assumption line)) none).1.join,
    (p.visit (pinOnce (findPin assumption line)) none).2)

/-- A pin is found at the assignments of a nondeterministic value that start from the line on. -/
theorem isSome_found? (assumption : String) (line : Nat) (s : Stmt) :
    (s.found? (findPin assumption line)).isSome
      = (s.startsFrom line && s.isNondetAssignment) := by
  rw [← isSome_nondetSlot?]
  cases s with
  | leaf l content =>
    cases l with
    | none => rfl
    | some l =>
      rw [found?, findPin, startsFrom, Stmt.line, Option.any_some]
      split
      next hle => simp [hle, nondetSlot?]
      next hle => simp [hle]
  | block | headed | ifElse => simp [found?, nondetSlot?]

theorem modifyAt_id (p : Program) (place : Place) : p.modifyAt place id = p := by
  rw [modifyAt]
  refine congrArg Program.mk ((congrArg (p.items.modify place.item) (funext fun item => ?_)).trans
    (List.modify_id ..))
  cases item with
  | function d =>
    dsimp only
    rw [Stmt.modifyAt_id]
    rfl
  | verbatim => rfl

/-- A pin is made at the first leaf of which the assumption may say something. -/
theorem pin?_cases (p : Program) (assumption : String) (line : Nat) :
    (p.pin? assumption line = none ∧ (p.pinAt assumption line) = (none, p)) ∨
      ∃ pin q, p.pin? assumption line = some (q, pin) ∧ p.pinAt assumption line = (some pin, q) := by
  have hvisit : p.visit (pinOnce (findPin assumption line)) none
      = pinFirst (findPin assumption line) p.occurrences p :=
    visitItems_pinOnce [] p.items
  have htest : (fun o : Place × Bool × Stmt => (o.2.2.found? (findPin assumption line)).isSome)
      = fun (_, _, s) => s.startsFrom line && s.isNondetAssignment :=
    funext fun o => isSome_found? assumption line o.2.2
  rw [pinAt, hvisit, pinFirst, htest, pin?, nondetFrom?, Program.find?]
  cases ho : p.occurrences.find? fun (_, _, s) => s.startsFrom line && s.isNondetAssignment with
  | none => exact .inl ⟨rfl, rfl⟩
  | some o =>
    obtain ⟨place, inBlock, t⟩ := o
    have hstmt : p.stmtAt? place = some t := by
      obtain ⟨d, hd, hmem⟩ := mem_occurrences.1 (List.mem_of_find?_eq_some ho)
      exact stmtAt?_eq_some.2 ⟨d, hd, (at?_of_mem_occurrences hmem).1⟩
    have htest := List.find?_some ho
    have hsome := (isSome_found? assumption line t).trans htest
    match t with
    | block .. | headed .. | ifElse .. | leaf none _ => cases hsome
    | leaf (some l) content =>
      obtain ⟨hstarts, hslot⟩ := Bool.and_eq_true_iff.1 htest
      rw [← isSome_nondetSlot?] at hslot
      obtain ⟨slot, hslot⟩ := Option.isSome_iff_exists.1 hslot
      have hle : line ≤ l := by simpa [startsFrom, Stmt.line] using hstarts
      have hcontent : content.nondetSlot? = some slot := hslot
      -- the search stops at this leaf, and whether it is pinned is up to the assumption
      have hfound : (leaf (some l) content).found? (findPin assumption line)
          = some (((Assumption.parse assumption).find? (·.name == slot.name)).map fun constraint =>
            ⟨slot.name, constraint.value, slot.type, some l⟩) := by
        rw [found?, findPin, if_pos hle, hcontent, Option.map_some]
      simp only [Option.map_some, Option.bind_eq_bind, Option.bind_some, hstmt, hslot, hfound,
        Option.join_some]
      cases (Assumption.parse assumption).find? (·.name == slot.name) with
      | none => exact .inl ⟨rfl, Prod.ext rfl (modifyAt_id p place)⟩
      | some constraint => exact .inr ⟨_, _, rfl, rfl⟩

/-- **A pin and a barrier do not disturb each other.** A barrier is placed at the same statement
behind a pin, and a pin is made at the same leaf, with the same value, behind a barrier. -/
theorem pinAt_insertBarrier? (p : Program) (assumption : String) (line : Nat) (b : Barrier) :
    (p.pinAt assumption line).2.insertBarrier? b
        = (p.insertBarrier? b).map (fun q => (q.pinAt assumption line).2) ∧
      ∀ q, p.insertBarrier? b = some q →
        (q.pinAt assumption line).1 = (p.pinAt assumption line).1 := by
  obtain ⟨hsplice, hstate⟩ := spliceFirstOf?_visitItems b.line
    (f := pinOnce (findPin assumption line)) (g := guarded b.seq b.threadId) visitAll_guarded none
    p.items
  simp only [insertBarrier?_eq, pinAt, visit, hsplice]
  cases h : spliceFirstOf? b.line (guarded b.seq b.threadId) p.items with
  | none => exact ⟨rfl, fun q hq => by cases hq⟩
  | some items =>
    refine ⟨rfl, fun q hq => ?_⟩
    cases hq
    exact congrArg Option.join (hstate items h)

end Program

end WitnessReplay
