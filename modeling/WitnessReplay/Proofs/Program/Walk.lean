import Mathlib.Algebra.GroupWithZero.Nat
import WitnessReplay.Program.Place

/-!
# What is below a statement

`Stmt.occurrences` lists the statements below a statement, each with its way. Here the list is
related to the tree: every way leads to the statement that stands with it, one that stands in a
block comes with that block, and what is said of all occurrences is said of the children and of
what is below them.
-/

namespace WitnessReplay

/-- A list that has an element at an index, opened there. -/
theorem exists_append_of_getElem? {α : Type} {l : List α} {i : Nat} {a : α} (h : l[i]? = some a) :
    ∃ before after, l = before ++ a :: after ∧ before.length = i := by
  obtain ⟨hi, rfl⟩ := List.getElem?_eq_some_iff.1 h
  exact ⟨l.take i, l.drop (i + 1), by simp, by simp; omega⟩

theorem getElem?_pair_eq_some {α : Type} {a b c : α} {i : Nat} :
    [a, b][i]? = some c ↔ i = 0 ∧ a = c ∨ i = 1 ∧ b = c := by
  rcases i with - | - | i <;> simp

/-- Changing one element of a list keeps those before and behind it. -/
theorem modify_append_cons {α : Type} (f : α → α) (before : List α) (a : α) (after : List α) :
    (before ++ a :: after).modify before.length f = before ++ f a :: after := by
  induction before with
  | nil => rfl
  | cons b before ih => simp [ih]

namespace Stmt

/-! ### Children and occurrences -/

/-- What occurs in a list is one of its statements, or occurs in one. -/
theorem mem_occurrencesFrom {o : Occurrence} {i : Nat} {items : List Stmt} :
    o ∈ occurrencesFrom i items ↔ ∃ j c, items[j]? = some c ∧
      (o = ⟨[i + j], true, c⟩ ∨ ∃ o' ∈ c.occurrences, o = o'.under (i + j)) := by
  induction items generalizing i with
  | nil => simp [occurrencesFrom]
  | cons s items ih =>
    rw [occurrencesFrom, List.mem_append, ih, List.mem_cons, List.mem_map]
    constructor
    · intro h
      rcases h with (rfl | ⟨o', ho, rfl⟩) | ⟨j, c, hc, h⟩
      · exact ⟨0, s, rfl, .inl rfl⟩
      · exact ⟨0, s, rfl, .inr ⟨o', ho, rfl⟩⟩
      · rw [show i + 1 + j = i + (j + 1) by omega] at h
        exact ⟨j + 1, c, hc, h⟩
    · intro h
      obtain ⟨j, c, hc, h⟩ := h
      -- the first statement of the list, or one of the others with its index moved
      cases j with
      | zero =>
        cases hc
        rcases h with rfl | ⟨o', ho, rfl⟩
        · exact .inl (.inl rfl)
        · exact .inl (.inr ⟨o', ho, rfl⟩)
      | succ j =>
        rw [show i + (j + 1) = i + 1 + j by omega] at h
        exact .inr ⟨j, c, hc, h⟩

/-- What is below a statement is a child, or below a child. -/
theorem mem_occurrences {o : Occurrence} {s : Stmt} :
    o ∈ s.occurrences ↔ ∃ i c, s.children[i]? = some c ∧
      (o = ⟨[i], s.isBlock, c⟩ ∨ ∃ o' ∈ c.occurrences, o = o'.under i) := by
  cases s with
  | leaf l content => simp [occurrences, children]
  | block l items => simp [occurrences, mem_occurrencesFrom, children, isBlock]
  | headed l head body =>
    simp only [occurrences, List.mem_cons, List.mem_map, children, isBlock]
    constructor
    · intro h
      rcases h with rfl | ⟨o', ho, rfl⟩
      · exact ⟨0, body, rfl, .inl rfl⟩
      · exact ⟨0, body, rfl, .inr ⟨o', ho, rfl⟩⟩
    · intro h
      obtain ⟨i, c, hc, h⟩ := h
      cases i with
      | succ i => cases hc
      | zero =>
        cases hc
        rcases h with rfl | ⟨o', ho, rfl⟩
        · exact .inl rfl
        · exact .inr ⟨o', ho, rfl⟩
  | ifElse l cond yes no =>
    simp only [occurrences, List.cons_append, List.mem_cons, List.mem_append, List.mem_map,
      children, isBlock]
    constructor
    · intro h
      rcases h with rfl | ⟨o', ho, rfl⟩ | rfl | ⟨o', ho, rfl⟩
      · exact ⟨0, yes, rfl, .inl rfl⟩
      · exact ⟨0, yes, rfl, .inr ⟨o', ho, rfl⟩⟩
      · exact ⟨1, no, rfl, .inl rfl⟩
      · exact ⟨1, no, rfl, .inr ⟨o', ho, rfl⟩⟩
    · intro h
      obtain ⟨i, c, hc, h⟩ := h
      rcases getElem?_pair_eq_some.1 hc with ⟨rfl, rfl⟩ | ⟨rfl, rfl⟩
      · rcases h with rfl | ⟨o', ho, rfl⟩
        · exact .inl rfl
        · exact .inr (.inl ⟨o', ho, rfl⟩)
      · rcases h with rfl | ⟨o', ho, rfl⟩
        · exact .inr (.inr (.inl rfl))
        · exact .inr (.inr (.inr ⟨o', ho, rfl⟩))

/-- Blocks are the statements with a list of statements. -/
theorem isBlock_iff {s : Stmt} : s.isBlock ↔ ∃ l items, s = block l items := by
  cases s <;> simp [isBlock]

/-- The way of an occurrence leads to its statement, and passes the block that it stands in. -/
theorem at?_of_mem_occurrences {steps : List Nat} {inBlock : Bool} {t s : Stmt}
    (h : ⟨steps, inBlock, t⟩ ∈ s.occurrences) :
    s.at? steps = some t ∧ (inBlock → ∃ init l before after,
      steps = init ++ [before.length] ∧ s.at? init = some (block l (before ++ t :: after))) := by
  induction steps generalizing s with
  | nil =>
    -- every occurrence is at least one step away
    obtain ⟨i, c, -, h | ⟨o', -, h⟩⟩ := mem_occurrences.1 h
    · cases h
    · cases h
  | cons i steps ih =>
    obtain ⟨j, c, hc, h | ⟨o', ho, h⟩⟩ := mem_occurrences.1 h
    · cases h
      refine ⟨by simp [at?, hc], ?_⟩
      intro hblock
      obtain ⟨l, items, rfl⟩ := isBlock_iff.1 hblock
      obtain ⟨before, after, hitems, hlength⟩ := exists_append_of_getElem? hc
      refine ⟨[], l, before, after, by rw [hlength]; rfl, ?_⟩
      rw [at?, show items = before ++ t :: after from hitems]
    · cases h
      obtain ⟨hat, henclosed⟩ := ih ho
      refine ⟨by simp [at?, hc, hat], ?_⟩
      intro hblock
      obtain ⟨init, l, before, after, hsteps, hinit⟩ := henclosed hblock
      exact ⟨i :: init, l, before, after, by rw [hsteps]; rfl, by simp [at?, hc, hinit]⟩

/-! ### Saying something of all occurrences -/

/-- Whether something holds of all that is below a statement; it may depend on whether a statement
stands in a block. -/
def Every (P : Bool → Stmt → Prop) (s : Stmt) : Prop :=
  ∀ o ∈ s.occurrences, P o.inBlock o.stmt

section

variable {P : Bool → Stmt → Prop}

/-- Something holds of every statement below another if it holds of every child and of all below it.
-/
theorem every_iff_children {s : Stmt} :
    s.Every P ↔ ∀ c ∈ s.children, P s.isBlock c ∧ c.Every P := by
  constructor
  · intro h c hc
    obtain ⟨i, hi⟩ := List.mem_iff_getElem?.1 hc
    refine ⟨h _ (mem_occurrences.2 ⟨i, c, hi, .inl rfl⟩), ?_⟩
    intro o ho
    exact h (o.under i) (mem_occurrences.2 ⟨i, c, hi, .inr ⟨o, ho, rfl⟩⟩)
  · intro h o ho
    obtain ⟨i, c, hi, rfl | ⟨o', ho', rfl⟩⟩ := mem_occurrences.1 ho
    · exact (h c (List.mem_of_getElem? hi)).1
    · exact (h c (List.mem_of_getElem? hi)).2 o' ho'

@[simp] theorem every_leaf {l : Option Nat} {content : Leaf} : (leaf l content).Every P := by
  rw [every_iff_children]
  simp [children]

@[simp] theorem every_block {l : Option Nat} {items : List Stmt} :
    (block l items).Every P ↔ ∀ c ∈ items, P true c ∧ c.Every P :=
  every_iff_children

@[simp] theorem every_headed {l : Option Nat} {head : Head} {body : Stmt} :
    (headed l head body).Every P ↔ P false body ∧ body.Every P := by
  rw [every_iff_children]
  simp [children, isBlock]

@[simp] theorem every_ifElse {l : Option Nat} {cond : Expr} {yes no : Stmt} :
    (ifElse l cond yes no).Every P ↔
      (P false yes ∧ yes.Every P) ∧ (P false no ∧ no.Every P) := by
  rw [every_iff_children]
  simp [children, isBlock]

end

/-! ### Counting occurrences -/

/-- How many of the statements below a statement pass a test. -/
def countBelow (q : Stmt → Bool) (s : Stmt) : Nat :=
  s.occurrences.countP (q ·.stmt)

/-- How many of the statements of a list, and of those below them, pass a test. -/
def countIn (q : Stmt → Bool) : List Stmt → Nat
  | [] => 0
  | s :: rest => (if q s then 1 else 0) + s.countBelow q + countIn q rest

section

variable {q : Stmt → Bool}

/-- Where statements occur does not matter for how many there are. -/
theorem countP_under (i : Nat) (os : List Occurrence) :
    (os.map (·.under i)).countP (q ·.stmt) = os.countP (q ·.stmt) := by
  rw [List.countP_map]
  rfl

/-- Counting the occurrences in a list is counting in the list. -/
theorem countP_occurrencesFrom (i : Nat) (items : List Stmt) :
    (occurrencesFrom i items).countP (q ·.stmt) = countIn q items := by
  induction items generalizing i with
  | nil => rfl
  | cons s items ih =>
    rw [occurrencesFrom, List.countP_append, List.countP_cons, countP_under, ih,
      countIn, countBelow]
    dsimp only
    omega

theorem countIn_append (items more : List Stmt) :
    countIn q (items ++ more) = countIn q items + countIn q more := by
  induction items with
  | nil => simp [countIn]
  | cons s items ih =>
    simp only [List.cons_append, countIn, ih]
    omega

@[simp] theorem countBelow_leaf {l : Option Nat} {content : Leaf} :
    (leaf l content).countBelow q = 0 := by
  simp [countBelow, occurrences]

@[simp] theorem countBelow_block {l : Option Nat} {items : List Stmt} :
    (block l items).countBelow q = countIn q items := by
  rw [countBelow, occurrences, countP_occurrencesFrom]

@[simp] theorem countBelow_headed {l : Option Nat} {head : Head} {body : Stmt} :
    (headed l head body).countBelow q = countIn q [body] := by
  simp only [countBelow, occurrences, List.countP_cons, countP_under, countIn]
  omega

@[simp] theorem countBelow_ifElse {l : Option Nat} {cond : Expr} {yes no : Stmt} :
    (ifElse l cond yes no).countBelow q = countIn q [yes] + countIn q [no] := by
  simp only [countBelow, occurrences, List.countP_append, List.countP_cons, countP_under, countIn]
  omega

end

end Stmt

/-! ### Programs -/

namespace Program

/-- What occurs among items is in the body of one of them. -/
theorem mem_occurrencesFrom {place : Place} {inBlock : Bool} {t : Stmt} {i : Nat}
    {items : List Item} :
    (place, inBlock, t) ∈ occurrencesFrom i items ↔ ∃ j d, items[j]? = some (.function d) ∧
      place.item = i + j ∧ ⟨place.steps, inBlock, t⟩ ∈ d.body.occurrences := by
  induction items generalizing i with
  | nil => simp [occurrencesFrom]
  | cons item items ih =>
    -- what the rest of the items contributes, one index on
    have hrest : (place, inBlock, t) ∈ occurrencesFrom (i + 1) items ↔
        ∃ j d, (item :: items)[j + 1]? = some (.function d) ∧
          place.item = i + (j + 1) ∧ ⟨place.steps, inBlock, t⟩ ∈ d.body.occurrences := by
      rw [ih]
      simp only [List.getElem?_cons_succ, Nat.add_assoc, Nat.add_comm 1]
    cases item with
    | verbatim text line =>
      rw [occurrencesFrom, hrest]
      constructor
      · intro h
        obtain ⟨j, h⟩ := h
        exact ⟨j + 1, h⟩
      · intro h
        obtain ⟨j, d, hd, h⟩ := h
        cases j with
        | zero => cases hd
        | succ j => exact ⟨j, d, hd, h⟩
    | function f =>
      rw [occurrencesFrom, List.mem_append, List.mem_map, hrest]
      constructor
      · intro h
        rcases h with ⟨o, ho, h⟩ | ⟨j, h⟩
        · cases h
          exact ⟨0, f, rfl, rfl, ho⟩
        · exact ⟨j + 1, h⟩
      · intro h
        obtain ⟨j, d, hd, hitem, h⟩ := h
        cases j with
        | zero =>
          cases hd
          refine .inl ⟨_, h, ?_⟩
          rw [show i = place.item from hitem.symm]
        | succ j => exact .inr ⟨j, d, hd, hitem, h⟩

/-- What occurs in a program is in the body of one of its functions. -/
theorem mem_occurrences {place : Place} {inBlock : Bool} {t : Stmt} {p : Program} :
    (place, inBlock, t) ∈ p.occurrences ↔ ∃ d, p.items[place.item]? = some (.function d) ∧
      ⟨place.steps, inBlock, t⟩ ∈ d.body.occurrences := by
  rw [occurrences, mem_occurrencesFrom]
  constructor
  · intro h
    obtain ⟨j, d, hd, hitem, h⟩ := h
    rw [Nat.zero_add] at hitem
    exact ⟨d, hitem ▸ hd, h⟩
  · intro h
    obtain ⟨d, hd, h⟩ := h
    exact ⟨place.item, d, hd, (Nat.zero_add _).symm, h⟩

/-- A place of a program is one in a body. -/
theorem stmtAt?_eq_some {p : Program} {place : Place} {t : Stmt} :
    p.stmtAt? place = some t ↔
      ∃ d, p.items[place.item]? = some (.function d) ∧ d.body.at? place.steps = some t := by
  rw [stmtAt?, body?]
  cases p.items[place.item]? with
  | none => simp
  | some item => cases item <;> simp [Item.function?]

/-- A place that a search finds leads to a statement below a body that passes the test. -/
theorem find?_eq_some {p : Program} {test : Bool → Stmt → Bool} {place : Place}
    (h : p.find? test = some place) :
    ∃ inBlock t d, p.items[place.item]? = some (.function d) ∧
      ⟨place.steps, inBlock, t⟩ ∈ d.body.occurrences ∧ p.stmtAt? place = some t ∧
      test inBlock t := by
  obtain ⟨⟨place', inBlock, t⟩, hfind, rfl⟩ := Option.map_eq_some_iff.1 h
  have htest := List.find?_some hfind
  obtain ⟨d, hd, ho⟩ := mem_occurrences.1 (List.mem_of_find?_eq_some hfind)
  have hat := (Stmt.at?_of_mem_occurrences ho).1
  exact ⟨inBlock, t, d, hd, ho, stmtAt?_eq_some.2 ⟨d, hd, hat⟩, htest⟩

/-- A place that a search for a statement of a block finds leads into the list of a block. -/
theorem exists_enclosingList? {p : Program} {test : Stmt → Bool} {place : Place}
    (h : p.find? (fun inBlock s => inBlock && test s) = some place) :
    ∃ list, p.enclosingList? place = some list := by
  obtain ⟨inBlock, t, d, hd, ho, -, htest⟩ := find?_eq_some h
  have hblock := (Bool.and_eq_true_iff.1 htest).1
  obtain ⟨init, l, before, after, hsteps, hat⟩ := (Stmt.at?_of_mem_occurrences ho).2 hblock
  have hparent : p.stmtAt? ⟨place.item, init⟩ = some (.block l (before ++ t :: after)) :=
    stmtAt?_eq_some.2 ⟨d, hd, hat⟩
  refine ⟨(before ++ t :: after, before.length), ?_⟩
  rw [enclosingList?, hsteps, List.getLast?_concat, List.dropLast_concat]
  dsimp only
  rw [hparent]

/-- Whether something holds of all that is below the bodies of a program. -/
def Every (P : Bool → Stmt → Prop) (p : Program) : Prop :=
  ∀ o ∈ p.occurrences, P o.2.1 o.2.2

/-- Something holds of every statement of a program if it does of all in each body. -/
theorem every_iff {P : Bool → Stmt → Prop} {p : Program} :
    p.Every P ↔ ∀ d, .function d ∈ p.items → d.body.Every P := by
  constructor
  · intro h d hd o ho
    obtain ⟨i, hi⟩ := List.mem_iff_getElem?.1 hd
    exact h (⟨i, o.steps⟩, o.inBlock, o.stmt) (mem_occurrences.2 ⟨d, hi, ho⟩)
  · intro h o ho
    obtain ⟨place, inBlock, t⟩ := o
    obtain ⟨d, hd, ho⟩ := mem_occurrences.1 ho
    exact h d (List.mem_of_getElem? hd) _ ho

/-- How many of the statements below the bodies of a program pass a test. -/
def count (q : Stmt → Bool) (p : Program) : Nat :=
  p.occurrences.countP fun (_, _, s) => q s

/-- The counts of the bodies add up to that of the items. -/
theorem countP_occurrencesFrom {q : Stmt → Bool} {i : Nat} {items : List Item} :
    (occurrencesFrom i items).countP (fun (_, _, s) => q s)
      = ((items.filterMap Item.function?).map (·.body.countBelow q)).sum := by
  induction items generalizing i with
  | nil => rfl
  | cons item items ih =>
    cases item with
    | verbatim text line =>
      rw [occurrencesFrom, ih]
      rfl
    | function d =>
      rw [occurrencesFrom, List.countP_append, List.countP_map, ih]
      rfl

/-- The counts of the bodies add up to that of the program. -/
theorem count_eq {q : Stmt → Bool} {p : Program} :
    p.count q = (p.functions.map (·.body.countBelow q)).sum :=
  countP_occurrencesFrom

end Program

end WitnessReplay
