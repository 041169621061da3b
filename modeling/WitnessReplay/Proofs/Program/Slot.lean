import WitnessReplay.Proofs.Program.Search

/-!
# Changing a program in place

A slot is a part of a whole that was reached in order to be changed: the part that is there, and
what the whole becomes with another in its place. `Stmt.childSlot?` reaches one child,
`Stmt.slotAt?` follows a way, `Program.slotAt?` a place, and `Program.listSlot?` reaches the list
that holds the statement of a place.

Slots count children by themselves, kind by kind, and so do the list of the children, the change of
one child, and the list of all occurrences that is searched. That all of them count alike is proved
once for a single step (`Stmt.childSlot?_eq`). Then a way that is followed for a change leads to the
statement that it leads to for a look, and putting something there is filling the hole of the
context in which the statement stands (`Program.slotAt?_eq_some_iff`,
`Program.listSlot?_eq_some_iff`).

A search tests each statement together with the one that holds it. `FirstPassed` says which pair it
stopped at, and that the place it gives is the place of that pair (`Program.firstPassed_of_find?`).
-/

namespace WitnessReplay

/-- A part of a whole, and the whole with something else in the place of the part. -/
structure Slot (Part Whole : Type) where
  part : Part
  put : Part → Whole

/-- A slot in what another slot holds. -/
def Slot.within {Part Middle Whole : Type} (outer : Slot Middle Whole) (inner : Slot Part Middle) :
    Slot Part Whole :=
  ⟨inner.part, fun part => outer.put (inner.put part)⟩

namespace Stmt

/-- The slot of one child of a statement. -/
def childSlot? (i : Nat) : Stmt → Option (Slot Stmt Stmt)
  | leaf .. => none
  | block l items => items[i]?.map fun c => ⟨c, fun c' => block l (items.set i c')⟩
  | headed l head body => if i = 0 then some ⟨body, headed l head⟩ else none
  | ifElse l cond thenBranch elseBranch =>
    if i = 0 then some ⟨thenBranch, fun c => ifElse l cond c elseBranch⟩
    else if i = 1 then some ⟨elseBranch, ifElse l cond thenBranch⟩
    else none

/-- The slot of the statement that is some steps below a statement. -/
def slotAt? : List Nat → Stmt → Option (Slot Stmt Stmt)
  | [], s => some ⟨s, id⟩
  | i :: steps, s =>
    (s.childSlot? i).bind fun child => (slotAt? steps child.part).map child.within

variable {s t : Stmt} {i : Nat} {steps : List Nat}

/-- **The slots of the children are numbered like the children**, and putting something into one is
changing that child. -/
theorem childSlot?_eq (i : Nat) (s : Stmt) :
    s.childSlot? i = s.children[i]?.map fun c => ⟨c, fun c' => s.mapChild i fun _ => c'⟩ := by
  cases s with
  | leaf => rfl
  | block l items =>
    unfold childSlot? children mapChild
    simp only [List.set_eq_modify]
  | headed l head body =>
    unfold childSlot? children mapChild
    match i with
    | 0 => rfl
    | i + 1 => rfl
  | ifElse l cond yes no =>
    unfold childSlot? children mapChild
    match i with
    | 0 => rfl
    | 1 => rfl
    | i + 2 => rfl

/-- A child that is reached to be changed is the child of that number, and what is put there takes
its place among the children. -/
theorem children_of_childSlot? {slot : Slot Stmt Stmt} (h : s.childSlot? i = some slot) :
    s.children[i]? = some slot.part ∧ ∀ c, (slot.put c).children = s.children.set i c := by
  rw [childSlot?_eq] at h
  obtain ⟨c, hc, rfl⟩ := Option.map_eq_some_iff.1 h
  refine ⟨hc, fun c' => ?_⟩
  rw [children_mapChild, List.set_eq_modify]

theorem isSome_childSlot? : (s.childSlot? i).isSome ↔ i < s.children.length := by
  simp only [childSlot?_eq, Option.isSome_map, isSome_getElem?]

/-- How a child is changed matters for the child that is there, and for no other statement. -/
theorem mapChild_congr {c : Stmt} {f g : Stmt → Stmt} (hc : s.children[i]? = some c)
    (hfg : f c = g c) : s.mapChild i f = s.mapChild i g := by
  cases s with
  | leaf => cases hc
  | block l items =>
    obtain ⟨before, after, hitems, rfl⟩ := exists_append_of_getElem? hc
    obtain rfl : items = before ++ c :: after := hitems
    rw [mapChild, mapChild, modify_append_cons, modify_append_cons, hfg]
  | headed l head body =>
    cases i with
    | succ i => cases hc
    | zero =>
      cases hc
      rw [mapChild, mapChild, if_pos rfl, if_pos rfl, hfg]
  | ifElse l cond yes no =>
    rw [mapChild, mapChild]
    rcases getElem?_pair_eq_some.1 hc with ⟨rfl, rfl⟩ | ⟨rfl, rfl⟩
    · rw [if_pos rfl, if_pos rfl, hfg]
    · rw [if_neg Nat.one_ne_zero, if_pos rfl, if_neg Nat.one_ne_zero, if_pos rfl, hfg]

/-- Every statement below another one is listed with whether the one that holds it is a block. -/
theorem exists_parent {inBlock : Bool} (h : ⟨steps, inBlock, t⟩ ∈ s.occurrences) :
    ∃ init i parent, steps = init ++ [i] ∧ s.at? init = some parent ∧ inBlock = parent.isBlock ∧
      parent.children[i]? = some t := by
  induction steps generalizing s with
  | nil => exact absurd rfl (steps_ne_nil h)
  | cons i steps ih =>
    obtain ⟨j, c, hc, ho | ⟨o, ho, heq⟩⟩ := mem_occurrences.1 h
    · cases ho
      exact ⟨[], i, s, rfl, rfl, rfl, hc⟩
    · cases heq
      obtain ⟨init, k, parent, hsteps, hparent, hblock, hchild⟩ := ih ho
      refine ⟨i :: init, k, parent, by rw [hsteps]; rfl, ?_, hblock, hchild⟩
      rw [at?, hc]
      exact hparent

/-- A way that is followed for a change leads where it leads for a look. -/
theorem slotAt?_eq (steps : List Nat) (s : Stmt) :
    s.slotAt? steps = (s.at? steps).map fun t => ⟨t, fun t' => s.modifyAt steps fun _ => t'⟩ := by
  induction steps generalizing s with
  | nil => rfl
  | cons i steps ih =>
    unfold slotAt? at?
    rw [childSlot?_eq]
    cases hc : s.children[i]? with
    | none => rfl
    | some c =>
      show (c.slotAt? steps).map _ = (c.at? steps).map _
      rw [ih c, Option.map_map]
      refine congrArg (fun f => (c.at? steps).map f) (funext fun t => ?_)
      refine congrArg (Slot.mk t) (funext fun t' => ?_)
      exact mapChild_congr hc rfl

end Stmt

namespace Program

/-- The slot of the statement at a place. -/
def slotAt? (p : Program) (place : Place) : Option (Slot Stmt Program) :=
  match p.items[place.item]? with
  | some (.function d) =>
    (d.body.slotAt? place.steps).map fun slot =>
      ⟨slot.part, fun t => ⟨p.items.set place.item (.function { d with body := slot.put t })⟩⟩
  | _ => none

/-- The slot of the list of the block that holds the statement at a place, and the index there. -/
def listSlot? (p : Program) (place : Place) : Option (Slot (List Stmt) Program × Nat) :=
  match place.steps.getLast? with
  | none => none
  | some i =>
    match p.slotAt? ⟨place.item, place.steps.dropLast⟩ with
    | some ⟨.block l items, put⟩ => some (⟨items, fun items' => put (.block l items')⟩, i)
    | _ => none

variable {p : Program} {place : Place} {t : Stmt}

theorem slotAt?_eq (p : Program) (place : Place) :
    p.slotAt? place = (p.stmtAt? place).map fun t => ⟨t, fun t' => p.modifyAt place fun _ => t'⟩ := by
  unfold slotAt? stmtAt? body?
  cases hd : p.items[place.item]? with
  | none => rfl
  | some item =>
    cases item with
    | verbatim text line => rfl
    | function d =>
      show (d.body.slotAt? place.steps).map _ = (d.body.at? place.steps).map _
      rw [Stmt.slotAt?_eq, Option.map_map]
      refine congrArg (fun f => (d.body.at? place.steps).map f) (funext fun t => ?_)
      refine congrArg (Slot.mk t) (funext fun t' => ?_)
      obtain ⟨before, after, hitems, hlength⟩ := exists_append_of_getElem? hd
      unfold modifyAt
      rw [hitems, ← hlength, modify_append_cons, List.set_append_right _ _ (Nat.le_refl _),
        Nat.sub_self, List.set_cons_zero]

/-- **The statement at a place stands in the hole of a context, and putting something there fills
the hole.** -/
theorem slotAt?_eq_some_iff {slot : Slot Stmt Program} : p.slotAt? place = some slot ↔
    ∃ c : Context, c.place = place ∧ p = c.fill slot.part ∧ slot.put = c.fill := by
  rw [slotAt?_eq, Option.map_eq_some_iff]
  constructor
  · intro h
    obtain ⟨t, ht, rfl⟩ := h
    obtain ⟨c, rfl, rfl⟩ := exists_context ht
    exact ⟨c, rfl, rfl, funext fun t' => c.modifyAt_fill t fun _ => t'⟩
  · intro h
    obtain ⟨c, rfl, hp, hput⟩ := h
    refine ⟨slot.part, by rw [hp, Context.stmtAt?_fill], ?_⟩
    have hfill : (fun t' => p.modifyAt c.place fun _ => t') = slot.put := by
      rw [hput, hp]
      exact funext fun t' => c.modifyAt_fill slot.part fun _ => t'
    rw [hfill]

/-- **The list that holds the statement of a place is that of a block in the hole of a context**,
and putting another list there fills the hole with a block of that list. -/
theorem listSlot?_eq_some_iff {slot : Slot (List Stmt) Program} {i : Nat} :
    p.listSlot? place = some (slot, i) ↔ ∃ (c : Context) (l : Option Nat),
      place = ⟨c.place.item, c.place.steps ++ [i]⟩ ∧ p = c.fill (.block l slot.part) ∧
        slot.put = fun items => c.fill (.block l items) := by
  unfold listSlot?
  constructor
  · intro h
    split at h
    next => cases h
    next j hlast =>
      split at h
      next l items put hslot =>
        cases h
        -- the last step is the index in the list, those before it lead to the block
        obtain ⟨init, hsteps⟩ := List.getLast?_eq_some_iff.1 hlast
        obtain ⟨c, hplace, hp, hput⟩ := slotAt?_eq_some_iff.1 hslot
        refine ⟨c, l, ?_, hp, funext fun items' => congrFun hput (.block l items')⟩
        rw [hplace, hsteps, List.dropLast_concat, ← hsteps]
      next => cases h
  · intro h
    obtain ⟨c, l, rfl, hp, hput⟩ := h
    have hslot : p.slotAt? c.place = some ⟨.block l slot.part, c.fill⟩ :=
      slotAt?_eq_some_iff.2 ⟨c, rfl, hp, rfl⟩
    rw [List.getLast?_concat, List.dropLast_concat]
    dsimp only
    rw [hslot]
    dsimp only
    rw [← hput]

/-! ### Searches -/

/-- The pair that a search stops at: a statement with the one that holds it, which passes the test
where every statement listed before fails it, and the place of the statement. -/
structure FirstPassed (p : Program) (test : Bool → Stmt → Bool) (place : Place) (parent t : Stmt) :
    Prop where
  /-- The parent is at the place but for the last step, and the statement is its child there. -/
  child : ∃ init i, place.steps = init ++ [i] ∧ p.stmtAt? ⟨place.item, init⟩ = some parent ∧
    parent.children[i]? = some t
  passes : test parent.isBlock t = true
  first : ∃ before after, p.occurrences = before ++ (place, parent.isBlock, t) :: after ∧
    ∀ o ∈ before, test o.2.1 o.2.2 = false

theorem FirstPassed.stmtAt? {test : Bool → Stmt → Bool} {parent : Stmt}
    (h : p.FirstPassed test place parent t) : p.stmtAt? place = some t := by
  obtain ⟨before, after, hlist, -⟩ := h.first
  have hmem : (place, parent.isBlock, t) ∈ p.occurrences := by
    rw [hlist]
    exact List.mem_append_right before List.mem_cons_self
  obtain ⟨d, hd, ho⟩ := mem_occurrences.1 hmem
  exact stmtAt?_eq_some.2 ⟨d, hd, (Stmt.at?_of_mem_occurrences ho).1⟩

/-- **The place that a search gives is the place of the pair that it stops at.** -/
theorem firstPassed_of_find? {test : Bool → Stmt → Bool} (h : p.find? test = some place) :
    ∃ parent t, p.FirstPassed test place parent t := by
  obtain ⟨⟨place, inBlock, t⟩, hfind, rfl⟩ := Option.map_eq_some_iff.1 h
  obtain ⟨htest, before, after, hlist, hbefore⟩ := List.find?_eq_some_iff_append.1 hfind
  have hmem : (place, inBlock, t) ∈ p.occurrences := by
    rw [hlist]
    exact List.mem_append_right before List.mem_cons_self
  obtain ⟨d, hd, ho⟩ := mem_occurrences.1 hmem
  obtain ⟨init, i, parent, hsteps, hparent, rfl, hchild⟩ := Stmt.exists_parent ho
  refine ⟨parent, t, ⟨init, i, hsteps, stmtAt?_eq_some.2 ⟨d, hd, hparent⟩, hchild⟩, htest,
    before, after, hlist, ?_⟩
  intro o ho
  simpa using hbefore o ho

end Program

end WitnessReplay
