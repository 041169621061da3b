import Mathlib.Data.List.Nodup
import WitnessReplay.Proofs.Program.Replacement

/-!
# The order of the text

`Program.statements` lists the statements of a program in the order of the text. A change at a place
changes what is above the place as well, since statements hold those below them; what stays is what
a statement shows of itself, its sign. A program in which a statement was replaced by some others
has the same signs before and behind it (`Program.signs_spliceAt`).

The places of the statements are in the same order (`Place.Before`), in which a statement comes
before all that is below it (`Program.pairwise_places`).
-/

namespace WitnessReplay

/-- What a statement shows of itself: its line if it was read, all of it if it was inserted and
holds no other statement. -/
inductive Sign
  | read (line : Nat)
  | inserted (content : Leaf)

namespace Sign

/-- Whether a sign is that of a statement that was read. -/
def isRead : Sign → Bool
  | read _ => true
  | inserted _ => false

/-- The line of a statement that was read. -/
def line? : Sign → Option Nat
  | read l => some l
  | inserted _ => none

end Sign

namespace Stmt

/-- The sign of a statement. An inserted one that holds others has none. -/
def sign? : Stmt → Option Sign
  | leaf none content => some (.inserted content)
  | s => s.line.map .read

/-- The signs of some statements. -/
def signs (ss : List Stmt) : List Sign :=
  ss.filterMap sign?

/-- The statements below a statement, in the order of the text. -/
def inner (s : Stmt) : List Stmt :=
  s.occurrences.map Occurrence.stmt

/-- Some statements and those below them, in the order of the text. -/
def listing (items : List Stmt) : List Stmt :=
  items.flatMap fun s => s :: s.inner

variable {s t c old : Stmt} {items : List Stmt}

/-- A statement with a line was read there. -/
theorem sign?_of_line {l : Nat} (h : s.line = some l) : s.sign? = some (.read l) := by
  match s, h with
  | leaf (some _) _, rfl | block _ _, rfl | headed _ _ _, rfl | ifElse _ _ _ _, rfl => rfl

/-- Only a leaf without a line was inserted. -/
theorem sign?_eq_inserted {content : Leaf} :
    s.sign? = some (.inserted content) ↔ s = leaf none content := by
  match s with
  | leaf none _ => simp [sign?]
  | leaf (some _) _ | block _ _ | headed _ _ _ | ifElse _ _ _ _ => simp [sign?]

/-- The sign of a statement tells its line. -/
theorem line?_bind_sign? (s : Stmt) : s.sign?.bind Sign.line? = s.line := by
  match s with
  | leaf none _ => rfl
  | leaf (some _) _ => rfl
  | block l _ | headed l _ _ | ifElse l _ _ _ => cases l <;> rfl

theorem signs_append (ss more : List Stmt) : signs (ss ++ more) = signs ss ++ signs more :=
  List.filterMap_append

theorem signs_cons (s : Stmt) (ss : List Stmt) :
    signs (s :: ss) = s.sign?.toList ++ signs ss := by
  rw [signs, List.filterMap_cons]
  cases s.sign? <;> rfl

/-- The leaves without a line are those that were inserted. -/
theorem mem_signs {content : Leaf} {ss : List Stmt} :
    .inserted content ∈ signs ss ↔ leaf none content ∈ ss := by
  simp [signs, List.mem_filterMap, sign?_eq_inserted]

/-- The lines among the signs are those of the statements. -/
theorem filterMap_line?_signs (ss : List Stmt) :
    (signs ss).filterMap Sign.line? = ss.filterMap line := by
  rw [signs, List.filterMap_filterMap]
  exact List.filterMap_congr fun s _ => line?_bind_sign? s

/-- As many signs are of statements that were read as statements have a line. -/
theorem countP_isRead_signs (ss : List Stmt) :
    (signs ss).countP Sign.isRead = ss.countP (·.line.isSome) := by
  rw [signs, List.countP_filterMap]
  refine List.countP_congr fun s _ => ?_
  rw [← line?_bind_sign? s]
  cases s.sign? with
  | none => rfl
  | some sign => cases sign <;> rfl

/-! ### Trees -/

/-- The place of an occurrence says nothing of its statement. -/
theorem map_stmt_under (i : Nat) (os : List Occurrence) :
    (os.map (·.under i)).map Occurrence.stmt = os.map Occurrence.stmt := by
  rw [List.map_map]
  rfl

/-- The statements that occur in a list are its listing. -/
theorem map_stmt_occurrencesFrom (i : Nat) (items : List Stmt) :
    (occurrencesFrom i items).map Occurrence.stmt = listing items := by
  induction items generalizing i with
  | nil => rfl
  | cons s items ih =>
    rw [occurrencesFrom, List.map_append, List.map_cons, map_stmt_under, ih]
    rfl

theorem listing_append (items more : List Stmt) :
    listing (items ++ more) = listing items ++ listing more :=
  List.flatMap_append

/-- A statement comes before all statements inside of it, and these before the next. -/
theorem listing_cons (s : Stmt) (items : List Stmt) :
    listing (s :: items) = s :: s.inner ++ listing items :=
  rfl

@[simp] theorem inner_leaf {l : Option Nat} {content : Leaf} : (leaf l content).inner = [] := by
  rw [inner, occurrences, List.map_nil]

@[simp] theorem inner_block {l : Option Nat} : (block l items).inner = listing items := by
  rw [inner, occurrences, map_stmt_occurrencesFrom]

@[simp] theorem inner_headed {l : Option Nat} {head : Head} {body : Stmt} :
    (headed l head body).inner = listing [body] := by
  rw [inner, occurrences, List.map_cons, map_stmt_under]
  simp [listing, inner]

@[simp] theorem inner_ifElse {l : Option Nat} {cond : Expr} {yes no : Stmt} :
    (ifElse l cond yes no).inner = listing [yes, no] := by
  rw [inner, occurrences, List.map_append, List.map_cons, List.map_cons, map_stmt_under,
    map_stmt_under]
  simp [listing, inner]

/-- The occurrences in two lists come one behind the other. -/
theorem occurrencesFrom_append (i : Nat) (items more : List Stmt) :
    occurrencesFrom i (items ++ more)
      = occurrencesFrom i items ++ occurrencesFrom (i + items.length) more := by
  induction items generalizing i with
  | nil => rfl
  | cons s items ih =>
    rw [List.cons_append, occurrencesFrom, occurrencesFrom, ih, List.append_assoc,
      List.length_cons, Nat.add_assoc, Nat.add_comm 1]

/-- What is below a statement, around one of its children. -/
theorem occurrences_child {i : Nat} (hc : s.children[i]? = some c) :
    ∃ before after,
      s.occurrences = before ++ ⟨[i], s.isBlock, c⟩ :: c.occurrences.map (·.under i) ++ after ∧
      ∀ f : Stmt → Stmt, (s.mapChild i f).inner
        = before.map Occurrence.stmt ++ f c :: (f c).inner ++ after.map Occurrence.stmt := by
  cases s with
  | leaf => cases hc
  | block l items =>
    obtain ⟨before, after, hitems, rfl⟩ := exists_append_of_getElem? hc
    obtain rfl : items = before ++ c :: after := hitems
    refine ⟨occurrencesFrom 0 before, occurrencesFrom (before.length + 1) after, ?_, ?_⟩
    · rw [occurrences, occurrencesFrom_append, occurrencesFrom, Nat.zero_add]
      simp [isBlock]
    · intro f
      rw [mapChild, modify_append_cons, inner_block, listing_append, listing_cons,
        map_stmt_occurrencesFrom, map_stmt_occurrencesFrom]
      simp
  | headed l head body =>
    -- a statement with one body has a child at `0` alone
    cases i with
    | succ i => cases hc
    | zero =>
      cases hc
      refine ⟨[], [], by simp [occurrences, isBlock], ?_⟩
      intro f
      rw [mapChild, if_pos rfl]
      simp [listing]
  | ifElse l cond yes no =>
    rcases getElem?_pair_eq_some.1 hc with ⟨rfl, rfl⟩ | ⟨rfl, rfl⟩
    · refine ⟨[], ⟨[1], false, no⟩ :: no.occurrences.map (·.under 1),
        by simp [occurrences, isBlock], ?_⟩
      intro f
      rw [mapChild, if_pos rfl, inner_ifElse, List.map_cons, map_stmt_under]
      simp [listing, inner]
    · refine ⟨⟨[0], false, yes⟩ :: yes.occurrences.map (·.under 0), [],
        by simp [occurrences, isBlock], ?_⟩
      intro f
      rw [mapChild, if_neg Nat.one_ne_zero, if_pos rfl, inner_ifElse, List.map_cons,
        map_stmt_under]
      simp [listing, inner]

/-- Changing what is below a statement does not change its sign. -/
theorem sign?_mapChild (i : Nat) (f : Stmt → Stmt) (s : Stmt) : (s.mapChild i f).sign? = s.sign? := by
  cases s with
  | leaf | block => rfl
  | headed l head body =>
    rw [mapChild]
    split <;> rfl
  | ifElse l cond yes no =>
    rw [mapChild]
    split
    next => rfl
    next => split <;> rfl

/-- Changing what is inside of a statement keeps its sign, and changing the statement itself does so
if the change keeps it. -/
theorem sign?_modifyAt {steps : List Nat} {f : Stmt → Stmt} (h : s.at? steps = some old)
    (hf : (f old).sign? = old.sign?) : (s.modifyAt steps f).sign? = s.sign? := by
  cases steps with
  | nil =>
    cases h
    exact hf
  | cons i steps => exact sign?_mapChild i _ s

end Stmt

/-- The same occurrence, seen from a statement that has its root at the end of some steps. -/
def Occurrence.behind (init : List Nat) (o : Occurrence) : Occurrence :=
  { o with steps := init ++ o.steps }

namespace Stmt

variable {s old : Stmt}

/-- What is inside a statement, around what is inside the one at the end of some steps. A change
there leaves the signs around it. -/
theorem signs_modifyAt {init : List Nat} (h : s.at? init = some old) :
    ∃ before after,
      s.occurrences = before ++ old.occurrences.map (·.behind init) ++ after ∧
      ∀ f : Stmt → Stmt, (f old).sign? = old.sign? →
        signs (s.modifyAt init f).inner = signs (before.map Occurrence.stmt)
          ++ signs (f old).inner ++ signs (after.map Occurrence.stmt) := by
  induction init generalizing s with
  | nil =>
    cases h
    exact ⟨[], [], by simp [Occurrence.behind], fun f hf => by simp [modifyAt, signs]⟩
  | cons i init ih =>
    obtain ⟨c, hc, hat⟩ := Option.bind_eq_some_iff.1 h
    obtain ⟨before, after, hoccurrences, hmodify⟩ := ih hat
    obtain ⟨before', after', hoccurrences', hmodify'⟩ := occurrences_child hc
    refine ⟨before' ++ ⟨[i], s.isBlock, c⟩ :: before.map (·.under i),
      after.map (·.under i) ++ after', ?_, ?_⟩
    · rw [hoccurrences', hoccurrences]
      simp [Occurrence.behind, Occurrence.under, Function.comp_def]
    · intro f hf
      -- the child has the same sign before and after
      rw [modifyAt, hmodify', signs_append, signs_append, signs_cons, sign?_modifyAt hat hf,
        hmodify f hf, List.map_append, List.map_cons, map_stmt_under, List.map_append,
        map_stmt_under]
      simp [signs_append, signs_cons]

/-! ### The order of ways -/

/-- An occurrence inside of a statement is a step away from it at least. -/
theorem steps_ne_nil {o : Occurrence} (h : o ∈ s.occurrences) : o.steps ≠ [] := by
  obtain ⟨i, c, -, rfl | ⟨o', -, rfl⟩⟩ := mem_occurrences.1 h
  · exact List.cons_ne_nil _ _
  · exact List.cons_ne_nil _ _

/-- Each way begins with the index of a child. -/
theorem le_head_of_mem_occurrencesFrom {o : Occurrence} {i : Nat} {items : List Stmt}
    (h : o ∈ occurrencesFrom i items) : ∃ j steps, o.steps = j :: steps ∧ i ≤ j := by
  obtain ⟨j, c, -, rfl | ⟨o', -, rfl⟩⟩ := mem_occurrencesFrom.1 h
  · exact ⟨i + j, [], rfl, Nat.le_add_right i j⟩
  · exact ⟨i + j, o'.steps, rfl, Nat.le_add_right i j⟩

/-- The ways to what is inside a statement are the ways into its children. -/
theorem map_steps_occurrences (s : Stmt) :
    s.occurrences.map Occurrence.steps
      = (occurrencesFrom 0 s.children).map Occurrence.steps := by
  cases s with
  | leaf | block => simp [occurrences, children, occurrencesFrom]
  | headed | ifElse => simp [occurrences, children, occurrencesFrom]

theorem pairwise_steps_nil {i : Nat} :
    ((occurrencesFrom i []).map Occurrence.steps).Pairwise (· < ·) := by
  rw [occurrencesFrom]
  exact .nil

/-- One step of the order: what is inside of a statement comes before the statements behind it. -/
theorem pairwise_steps_cons {i : Nat} {items : List Stmt}
    (hs : (s.occurrences.map Occurrence.steps).Pairwise (· < ·))
    (hitems : ((occurrencesFrom (i + 1) items).map Occurrence.steps).Pairwise (· < ·)) :
    ((occurrencesFrom i (s :: items)).map Occurrence.steps).Pairwise (· < ·) := by
  have hunder : (s.occurrences.map (·.under i)).map Occurrence.steps
      = (s.occurrences.map Occurrence.steps).map (List.cons i) := by
    simp [Occurrence.under, Function.comp_def]
  rw [occurrencesFrom, List.map_append, List.map_cons, hunder, List.pairwise_append,
    List.pairwise_cons]
  refine ⟨⟨?_, ?_⟩, hitems, ?_⟩
  · -- a statement comes before what is inside it
    intro steps hsteps
    obtain ⟨steps, hmem, rfl⟩ := List.mem_map.1 hsteps
    obtain ⟨o, ho, rfl⟩ := List.mem_map.1 hmem
    obtain ⟨j, more, hsteps⟩ := List.exists_cons_of_ne_nil (steps_ne_nil ho)
    rw [hsteps]
    exact List.cons_lt_cons_iff.2 (.inr ⟨rfl, List.nil_lt_cons j more⟩)
  · exact hs.map _ fun _ _ h => List.cons_lt_cons_iff.2 (.inr ⟨rfl, h⟩)
  · -- the ways into the rest begin with a greater index
    intro steps hsteps steps' hsteps'
    obtain ⟨o, ho, rfl⟩ := List.mem_map.1 hsteps'
    obtain ⟨j, more, hhead, hle⟩ := le_head_of_mem_occurrencesFrom ho
    have hi : ∃ inside, steps = i :: inside := by
      rcases List.mem_cons.1 hsteps with rfl | hsteps
      · exact ⟨[], rfl⟩
      · obtain ⟨inside, -, rfl⟩ := List.mem_map.1 hsteps
        exact ⟨inside, rfl⟩
    obtain ⟨inside, rfl⟩ := hi
    rw [hhead]
    exact List.cons_lt_cons_iff.2 (.inl hle)

mutual

/-- The statements below a statement come in the order of their ways. -/
theorem pairwise_steps : (s : Stmt) → (s.occurrences.map Occurrence.steps).Pairwise (· < ·)
  | leaf .. => by
    rw [map_steps_occurrences]
    exact pairwise_steps_nil
  | block _ items => by
    rw [map_steps_occurrences]
    exact pairwise_stepsFrom 0 items
  | headed _ _ body => by
    rw [map_steps_occurrences]
    exact pairwise_steps_cons (pairwise_steps body) pairwise_steps_nil
  | ifElse _ _ yes no => by
    rw [map_steps_occurrences]
    exact pairwise_steps_cons (pairwise_steps yes)
      (pairwise_steps_cons (pairwise_steps no) pairwise_steps_nil)

/-- The occurrences in a list come in the order of their places. -/
theorem pairwise_stepsFrom (i : Nat) :
    (items : List Stmt) → ((occurrencesFrom i items).map Occurrence.steps).Pairwise (· < ·)
  | [] => pairwise_steps_nil
  | s :: rest => pairwise_steps_cons (pairwise_steps s) (pairwise_stepsFrom (i + 1) rest)

end

end Stmt

/-! ### Places -/

namespace Place

/-- Whether a place comes before another one in the text: in an earlier item, or in the same one by
a lesser way. A statement comes before all that is below it, and that before the next child. -/
def Before (a b : Place) : Prop :=
  a.item < b.item ∨ a.item = b.item ∧ a.steps < b.steps

/-- No two places come before one another. -/
theorem Before.asymm {a b : Place} (h : a.Before b) : ¬ b.Before a := by
  intro h'
  rcases h with h | ⟨heq, h⟩
  · rcases h' with h' | ⟨heq', -⟩ <;> omega
  · rcases h' with h' | ⟨-, h'⟩
    · omega
    · exact List.lt_asymm h h'

/-- No place comes before itself. -/
theorem Before.ne {a b : Place} (h : a.Before b) : a ≠ b := by
  rintro rfl
  exact h.asymm h

end Place

/-! ### Programs -/

namespace Program

open Stmt

/-- The statements below the bodies of the functions of a program, in the order of the text. -/
def statements (p : Program) : List Stmt :=
  p.occurrences.map (·.2.2)

/-- The signs of a program, in the order of the text. -/
def signs (p : Program) : List Sign :=
  Stmt.signs p.statements

/-- The number of a place: how many statements that were read come before it in the text. -/
def number (p : Program) (place : Place) : Nat :=
  (p.occurrences.takeWhile (·.1 != place)).countP (·.2.2.line.isSome)

variable {p : Program} {old t : Stmt} {place : Place}

/-- An occurrence in the body of a function that is the item of an index, behind some steps. -/
def placed (i : Nat) (init : List Nat) (o : Occurrence) : Place × Bool × Stmt :=
  (⟨i, init ++ o.steps⟩, o.inBlock, o.stmt)

/-- Where an occurrence is placed says nothing of its statement. -/
theorem map_stmt_placed (i : Nat) (init : List Nat) (os : List Occurrence) :
    (os.map (placed i init)).map (·.2.2) = os.map Occurrence.stmt := by
  rw [List.map_map]
  rfl

/-- The occurrences in two lists of items come one behind the other. -/
theorem occurrencesFrom_append (i : Nat) (items more : List Item) :
    occurrencesFrom i (items ++ more)
      = occurrencesFrom i items ++ occurrencesFrom (i + items.length) more := by
  induction items generalizing i with
  | nil => rfl
  | cons item items ih =>
    rw [List.cons_append, List.length_cons, Nat.add_comm items.length, ← Nat.add_assoc]
    cases item with
    | function d => rw [occurrencesFrom, occurrencesFrom, ih, List.append_assoc]
    | verbatim => rw [occurrencesFrom, occurrencesFrom, ih]

/-- The occurrences in a program come in the order of their places. -/
theorem pairwise_places_occurrencesFrom (i : Nat) (items : List Item) :
    ((occurrencesFrom i items).map Prod.fst).Pairwise Place.Before := by
  induction items generalizing i with
  | nil => exact .nil
  | cons item items ih =>
    cases item with
    | verbatim => exact ih (i + 1)
    | function d =>
      have hbody : (d.body.occurrences.map fun o => (⟨i, o.steps⟩ : Place)).Pairwise
          Place.Before := by
        refine List.pairwise_map.2 ((List.pairwise_map.1 (pairwise_steps d.body)).imp ?_)
        exact fun h => .inr ⟨rfl, h⟩
      rw [occurrencesFrom, List.map_append, List.map_map, List.pairwise_append]
      refine ⟨hbody, ih (i + 1), ?_⟩
      -- the places in the rest of the items have a greater index
      intro place hplace place' hplace'
      obtain ⟨o, -, rfl⟩ := List.mem_map.1 hplace
      obtain ⟨⟨_, inBlock, t⟩, ho, rfl⟩ := List.mem_map.1 hplace'
      obtain ⟨j, d', -, hitem, -⟩ := mem_occurrencesFrom.1 ho
      have hlt : i < i + 1 + j := by omega
      exact .inl (Nat.lt_of_lt_of_eq hlt hitem.symm)

/-- The statements of a program come in the order of their places. -/
theorem pairwise_places (p : Program) : (p.occurrences.map Prod.fst).Pairwise Place.Before :=
  pairwise_places_occurrencesFrom 0 p.items

theorem nodup_places (p : Program) : (p.occurrences.map Prod.fst).Nodup :=
  p.pairwise_places.imp Place.Before.ne

/-- The statements of a function come behind those of the items before it, and before those of the
items behind it. -/
theorem statements_append_cons (items more : List Item) (d : Function) :
    (Program.mk (items ++ .function d :: more)).statements
      = (occurrencesFrom 0 items).map (·.2.2) ++ d.body.inner
        ++ (occurrencesFrom (items.length + 1) more).map (·.2.2) := by
  rw [statements, occurrences, occurrencesFrom_append, occurrencesFrom, Nat.zero_add,
    List.map_append, List.map_append, List.map_map, List.append_assoc]
  rfl

/-- What is inside the bodies of a program, around what is inside the statement at a place. A change
there leaves the signs around it. -/
theorem signs_modifyAt (h : p.stmtAt? place = some old) :
    ∃ before after,
      p.occurrences = before ++ old.occurrences.map (placed place.item place.steps) ++ after ∧
      ∀ f : Stmt → Stmt, (f old).sign? = old.sign? →
        (p.modifyAt place f).signs = Stmt.signs (before.map (·.2.2))
          ++ Stmt.signs (f old).inner ++ Stmt.signs (after.map (·.2.2)) := by
  obtain ⟨d, hd, hat⟩ := stmtAt?_eq_some.1 h
  obtain ⟨items, more, hitems, hlength⟩ := exists_append_of_getElem? hd
  obtain ⟨all⟩ := p
  obtain ⟨item, steps⟩ := place
  cases hlength
  obtain rfl : all = items ++ .function d :: more := hitems
  obtain ⟨before, after, hoccurrences, hmodify⟩ := Stmt.signs_modifyAt hat
  refine ⟨occurrencesFrom 0 items ++ before.map (placed items.length []),
    after.map (placed items.length []) ++ occurrencesFrom (items.length + 1) more, ?_, ?_⟩
  · rw [occurrences, occurrencesFrom_append, occurrencesFrom, hoccurrences, Nat.zero_add,
      List.map_append, List.map_append, List.map_map]
    simp only [List.append_assoc]
    rfl
  · intro f hf
    rw [modifyAt_append_cons, signs, statements_append_cons]
    simp only [List.map_append, map_stmt_placed, signs_append, hmodify f hf, List.append_assoc]

/-- The number of a place is how many statements with a line come before it. -/
theorem number_eq {before after : List (Place × Bool × Stmt)} {inBlock : Bool}
    (h : p.occurrences = before ++ (place, inBlock, t) :: after) :
    p.number place = before.countP (·.2.2.line.isSome) := by
  have hnodup := p.nodup_places
  rw [h, List.map_append, List.map_cons, List.nodup_middle, List.nodup_cons] at hnodup
  have hbefore : ∀ o ∈ before, (o.1 != place) = true := by
    intro o ho
    rw [bne_iff_ne]
    intro heq
    exact hnodup.1 (List.mem_append_left _ (List.mem_map.2 ⟨o, ho, heq⟩))
  rw [number, h, List.takeWhile_append_of_pos hbefore, List.takeWhile_cons_of_neg (by simp),
    List.append_nil]

/-- A statement of a block with what comes before and behind it, and what becomes of it when some
statements are put into its place. -/
theorem signs_spliceAt (h : (place, true, t) ∈ p.occurrences) :
    ∃ before after, p.signs = before ++ t.sign?.toList ++ Stmt.signs t.inner ++ after ∧
      before.countP Sign.isRead = p.number place ∧
      ∀ f : Stmt → List Stmt,
        (p.spliceAt place f).signs = before ++ Stmt.signs (listing (f t)) ++ after := by
  obtain ⟨d, hd, ho⟩ := mem_occurrences.1 h
  obtain ⟨init, l, items, more, hsteps, hinit⟩ := (Stmt.at?_of_mem_occurrences ho).2 rfl
  obtain ⟨item, steps⟩ := place
  obtain rfl : steps = init ++ [items.length] := hsteps
  -- a list is changed by changing the block that holds it, so the lemma for one statement applies
  have hold : p.stmtAt? ⟨item, init⟩ = some (.block l (items ++ t :: more)) :=
    stmtAt?_eq_some.2 ⟨d, hd, hinit⟩
  obtain ⟨before, after, hoccurrences, hmodify⟩ := signs_modifyAt hold
  rw [Stmt.occurrences, Stmt.occurrencesFrom_append, Stmt.occurrencesFrom, Nat.zero_add,
    List.map_append, List.cons_append, List.map_cons, ← List.append_assoc, List.append_assoc,
    List.cons_append] at hoccurrences
  refine ⟨Stmt.signs (before.map (·.2.2)) ++ Stmt.signs (listing items),
    Stmt.signs (listing more) ++ Stmt.signs (after.map (·.2.2)), ?_, ?_, ?_⟩
  · rw [signs, statements, hoccurrences]
    simp only [List.map_append, List.map_cons, map_stmt_placed, map_stmt_under,
      map_stmt_occurrencesFrom, signs_append, signs_cons, List.append_assoc]
    rfl
  · rw [number_eq hoccurrences, List.countP_append, List.countP_append, countP_isRead_signs,
      countP_isRead_signs, ← map_stmt_occurrencesFrom 0, List.countP_map, List.countP_map,
      List.countP_map]
    rfl
  · intro f
    rw [spliceAt, List.getLast?_concat, List.dropLast_concat]
    dsimp only
    rw [hmodify _ rfl]
    simp [listing_append, signs_append]

end Program

end WitnessReplay
