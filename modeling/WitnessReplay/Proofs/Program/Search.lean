import WitnessReplay.Proofs.Program.Order

/-!
# The first statement of a sort

A search takes the first statement that passes its test from the list of all statements. Here it is
said without the list what that is: of all places in the program at which such a statement stands,
the one that comes before all others (`Program.find?_eq_some_iff`). A place is looked up by the
steps to it, and a statement stands in the list of a block if its last step is an index there.
-/

namespace WitnessReplay

/-- What is found first in a list comes before all else in it that passes the test. -/
theorem eq_or_rel_of_find? {α : Type} {R : α → α → Prop} {test : α → Bool} {l : List α} {a b : α}
    (h : l.find? test = some a) (hl : l.Pairwise R) (hb : b ∈ l) (hbtest : test b) :
    b = a ∨ R a b := by
  obtain ⟨-, before, after, rfl, hbefore⟩ := List.find?_eq_some_iff_append.1 h
  have hafter := (List.pairwise_append.1 hl).2.1
  rcases List.mem_append.1 hb with hb | hb
  · have hno := hbefore b hb
    rw [hbtest] at hno
    cases hno
  · rcases List.mem_cons.1 hb with rfl | hb
    · exact .inl rfl
    · exact .inr (List.rel_of_pairwise_cons hafter hb)

namespace Stmt

variable {s t : Stmt} {steps init : List Nat} {i : Nat}

/-- What a way leads to is one of the statements below. -/
theorem exists_mem_occurrences (h : s.at? steps = some t) (hne : steps ≠ []) :
    ∃ inBlock, ⟨steps, inBlock, t⟩ ∈ s.occurrences := by
  induction steps generalizing s with
  | nil => exact absurd rfl hne
  | cons i steps ih =>
    obtain ⟨c, hc, hat⟩ := Option.bind_eq_some_iff.1 h
    by_cases hsteps : steps = []
    · subst hsteps
      cases hat
      exact ⟨s.isBlock, mem_occurrences.2 ⟨i, t, hc, .inl rfl⟩⟩
    · obtain ⟨inBlock, ho⟩ := ih hat hsteps
      exact ⟨inBlock, mem_occurrences.2 ⟨i, c, hc, .inr ⟨_, ho, rfl⟩⟩⟩

/-- What stands in the list of a block below is one of the statements below, and known to stand in
a block. -/
theorem mem_occurrences_of_block {l : Option Nat} {items : List Stmt}
    (h : s.at? init = some (block l items)) (ht : items[i]? = some t) :
    ⟨init ++ [i], true, t⟩ ∈ s.occurrences := by
  induction init generalizing s with
  | nil =>
    cases h
    exact mem_occurrences.2 ⟨i, t, ht, .inl rfl⟩
  | cons j init ih =>
    obtain ⟨c, hc, hat⟩ := Option.bind_eq_some_iff.1 h
    exact mem_occurrences.2 ⟨j, c, hc, .inr ⟨_, ih hat, rfl⟩⟩

end Stmt

/-- A statement of a sort at a place that comes before all others at which one of the sort stands.
-/
def IsFirst (sort : Place → Stmt → Prop) (place : Place) (t : Stmt) : Prop :=
  sort place t ∧ ∀ place' t', sort place' t' → place' = place ∨ place.Before place'

namespace Program

variable {p : Program} {place : Place} {t : Stmt}

/-- A statement at a place below the body of a function. -/
def IsBelow (p : Program) (place : Place) (t : Stmt) : Prop :=
  p.stmtAt? place = some t ∧ place.steps ≠ []

/-- A statement at a place in the list of a block. -/
def IsItem (p : Program) (place : Place) (t : Stmt) : Prop :=
  ∃ items i, p.enclosingList? place = some (items, i) ∧ items[i]? = some t

theorem isBelow_iff : p.IsBelow place t ↔ ∃ inBlock, (place, inBlock, t) ∈ p.occurrences := by
  constructor
  · intro h
    obtain ⟨hat, hne⟩ := h
    obtain ⟨d, hd, hat⟩ := stmtAt?_eq_some.1 hat
    obtain ⟨inBlock, ho⟩ := Stmt.exists_mem_occurrences hat hne
    exact ⟨inBlock, mem_occurrences.2 ⟨d, hd, ho⟩⟩
  · intro h
    obtain ⟨inBlock, h⟩ := h
    obtain ⟨d, hd, ho⟩ := mem_occurrences.1 h
    exact ⟨stmtAt?_eq_some.2 ⟨d, hd, (Stmt.at?_of_mem_occurrences ho).1⟩, Stmt.steps_ne_nil ho⟩

theorem enclosingList?_eq_some {items : List Stmt} {i : Nat} :
    p.enclosingList? place = some (items, i) ↔
      ∃ init l, place.steps = init ++ [i] ∧
        p.stmtAt? ⟨place.item, init⟩ = some (.block l items) := by
  rw [enclosingList?]
  constructor
  · intro h
    split at h
    next => cases h
    next j hlast =>
      split at h
      next l items' hblock =>
        cases h
        refine ⟨place.steps.dropLast, l, ?_, hblock⟩
        obtain ⟨init, hsteps⟩ := List.getLast?_eq_some_iff.1 hlast
        rw [hsteps, List.dropLast_concat]
      next => cases h
  · intro h
    obtain ⟨init, l, hsteps, hblock⟩ := h
    rw [hsteps, List.getLast?_concat, List.dropLast_concat]
    dsimp only
    rw [hblock]

theorem isItem_iff : p.IsItem place t ↔ (place, true, t) ∈ p.occurrences := by
  constructor
  · intro h
    obtain ⟨items, i, hlist, ht⟩ := h
    obtain ⟨init, l, hsteps, hblock⟩ := enclosingList?_eq_some.1 hlist
    obtain ⟨d, hd, hat⟩ := stmtAt?_eq_some.1 hblock
    refine mem_occurrences.2 ⟨d, hd, ?_⟩
    rw [hsteps]
    exact Stmt.mem_occurrences_of_block hat ht
  · intro h
    obtain ⟨d, hd, ho⟩ := mem_occurrences.1 h
    obtain ⟨init, l, before, after, hsteps, hat⟩ := (Stmt.at?_of_mem_occurrences ho).2 rfl
    exact ⟨before ++ t :: after, before.length,
      enclosingList?_eq_some.2 ⟨init, l, hsteps, stmtAt?_eq_some.2 ⟨d, hd, hat⟩⟩, by simp⟩

theorem IsItem.isBelow (h : p.IsItem place t) : p.IsBelow place t :=
  isBelow_iff.2 ⟨true, isItem_iff.1 h⟩

/-- Nothing but one statement stands at a place. -/
theorem IsBelow.eq {t' : Stmt} (h : p.IsBelow place t) (h' : p.IsBelow place t') : t = t' :=
  Option.some.inj (h.1.symm.trans h'.1)

/-! ### Searches -/

variable {test : Bool → Stmt → Bool} {sort : Place → Stmt → Prop}

/-- What a search looks for, said of a place. -/
def Finds (test : Bool → Stmt → Bool) (sort : Place → Stmt → Prop) (p : Program) : Prop :=
  ∀ place t, sort place t ↔ ∃ inBlock, (place, inBlock, t) ∈ p.occurrences ∧ test inBlock t

/-- A search finds nothing exactly if no statement of the sort stands anywhere. -/
theorem find?_eq_none_iff (h : p.Finds test sort) :
    p.find? test = none ↔ ∀ place t, ¬ sort place t := by
  rw [find?, Option.map_eq_none_iff, List.find?_eq_none]
  constructor
  · intro hnone place t hsort
    obtain ⟨inBlock, ho, htest⟩ := (h place t).1 hsort
    exact hnone _ ho htest
  · intro hnone o ho htest
    exact hnone o.1 o.2.2 ((h o.1 o.2.2).2 ⟨o.2.1, ho, htest⟩)

/-- **A search finds the first statement of its sort.** -/
theorem find?_eq_some_iff (h : p.Finds test sort) :
    p.find? test = some place ↔ ∃ t, IsFirst sort place t := by
  constructor
  · intro h'
    obtain ⟨⟨place, inBlock, t⟩, hfind, rfl⟩ := Option.map_eq_some_iff.1 h'
    have ho := List.mem_of_find?_eq_some hfind
    have htest := List.find?_some hfind
    refine ⟨t, (h place t).2 ⟨inBlock, ho, htest⟩, ?_⟩
    intro place' t' hsort
    obtain ⟨inBlock', ho', htest'⟩ := (h place' t').1 hsort
    rcases eq_or_rel_of_find? hfind (List.pairwise_map.1 p.pairwise_places) ho' htest' with
      heq | hbefore
    · exact .inl (congrArg Prod.fst heq)
    · exact .inr hbefore
  · intro hfirst
    obtain ⟨t, hsort, hfirst⟩ := hfirst
    obtain ⟨inBlock, ho, htest⟩ := (h place t).1 hsort
    -- something is found, and neither comes before the other
    cases h' : p.find? test with
    | none => exact absurd hsort ((find?_eq_none_iff h).1 h' place t)
    | some place' =>
      obtain ⟨⟨place', inBlock', t'⟩, hfind, rfl⟩ := Option.map_eq_some_iff.1 h'
      have ho' := List.mem_of_find?_eq_some hfind
      have htest' := List.find?_some hfind
      have hsort' := (h place' t').2 ⟨inBlock', ho', htest'⟩
      rcases eq_or_rel_of_find? hfind (List.pairwise_map.1 p.pairwise_places) ho htest with
        heq | hbefore
      · exact congrArg some (congrArg Prod.fst heq).symm
      · rcases hfirst place' t' hsort' with rfl | hbefore'
        · rfl
        · exact absurd hbefore' hbefore.asymm

end Program

end WitnessReplay
