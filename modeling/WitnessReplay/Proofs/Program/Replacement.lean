import WitnessReplay.Proofs.Program.Context

/-!
# Putting one statement into the place of another

A change of a program at a place is a relation of what was there, what is there now, and the two
trees, which are one context with either of the two in the hole (`Replaced.exists_context`). The
relation says nothing of ways and indices, so that what a change preserves is proved by induction
over the tree above it.
-/

namespace WitnessReplay

namespace Stmt

/-- A statement with a new statement where an old one stood, once. -/
inductive Replaced (old new : Stmt) : Stmt → Stmt → Prop
  | here : Replaced old new old new
  | item {l : Option Nat} {before after : List Stmt} {s s' : Stmt} : Replaced old new s s' →
      Replaced old new (block l (before ++ s :: after)) (block l (before ++ s' :: after))
  | body {l : Option Nat} {head : Head} {s s' : Stmt} : Replaced old new s s' →
      Replaced old new (headed l head s) (headed l head s')
  | thenBranch {l : Option Nat} {cond : Expr} {s s' no : Stmt} : Replaced old new s s' →
      Replaced old new (ifElse l cond s no) (ifElse l cond s' no)
  | elseBranch {l : Option Nat} {cond : Expr} {yes s s' : Stmt} : Replaced old new s s' →
      Replaced old new (ifElse l cond yes s) (ifElse l cond yes s')

variable {old new s s' : Stmt}

/-- One statement may be put for another in the hole of a context. -/
theorem Context.replaced (c : Context) : Replaced old new (c.fill old) (c.fill new) := by
  induction c with
  | hole => exact .here
  | item _ _ _ _ ih => exact .item ih
  | body _ _ _ ih => exact .body ih
  | thenBranch _ _ _ _ ih => exact .thenBranch ih
  | elseBranch _ _ _ _ ih => exact .elseBranch ih

/-- All that a replacement leaves as it was is a context. -/
theorem Replaced.exists_context (h : Replaced old new s s') :
    ∃ c : Context, s = c.fill old ∧ s' = c.fill new := by
  induction h with
  | here => exact ⟨.hole, rfl, rfl⟩
  | @item l before after _ _ _ ih =>
    obtain ⟨c, rfl, rfl⟩ := ih
    exact ⟨.item l before c after, rfl, rfl⟩
  | @body l head _ _ _ ih =>
    obtain ⟨c, rfl, rfl⟩ := ih
    exact ⟨.body l head c, rfl, rfl⟩
  | @thenBranch l cond _ _ no _ ih =>
    obtain ⟨c, rfl, rfl⟩ := ih
    exact ⟨.thenBranch l cond c no, rfl, rfl⟩
  | @elseBranch l cond yes _ _ _ ih =>
    obtain ⟨c, rfl, rfl⟩ := ih
    exact ⟨.elseBranch l cond yes c, rfl, rfl⟩

/-- A statement keeps its line if the one that is replaced does. -/
theorem Replaced.line_eq (h : Replaced old new s s') (hl : new.line = old.line) :
    s'.line = s.line := by
  cases h with
  | here => exact hl
  | item | body | thenBranch | elseBranch => rfl

theorem Replaced.isBlock_eq (h : Replaced old new s s') (hb : new.isBlock = old.isBlock) :
    s'.isBlock = s.isBlock := by
  cases h with
  | here => exact hb
  | item | body | thenBranch | elseBranch => rfl

/-- What holds of all statements below a statement still does, if the change keeps it where it is
made and in all that is above. -/
theorem Replaced.every {P : Bool → Stmt → Prop} (h : Replaced old new s s')
    (hP : ∀ {inBlock : Bool} {s s' : Stmt}, Replaced old new s s' → P inBlock s → P inBlock s')
    (hnew : old.Every P → new.Every P) (hs : s.Every P) : s'.Every P := by
  induction h with
  | here => exact hnew hs
  | item hreplaced ih =>
    rw [every_block] at hs ⊢
    simp only [List.mem_append, List.mem_cons] at hs ⊢
    intro c hc
    rcases hc with hc | rfl | hc
    · exact hs c (.inl hc)
    · obtain ⟨hself, hbelow⟩ := hs _ (.inr (.inl rfl))
      exact ⟨hP hreplaced hself, ih hbelow⟩
    · exact hs c (.inr (.inr hc))
  | body hreplaced ih =>
    rw [every_headed] at hs ⊢
    exact ⟨hP hreplaced hs.1, ih hs.2⟩
  | thenBranch hreplaced ih =>
    rw [every_ifElse] at hs ⊢
    exact ⟨⟨hP hreplaced hs.1.1, ih hs.1.2⟩, hs.2⟩
  | elseBranch hreplaced ih =>
    rw [every_ifElse] at hs ⊢
    exact ⟨hs.1, hP hreplaced hs.2.1, ih hs.2.2⟩

/-- What holds of all statements below a statement holds of those below what is replaced. -/
theorem Replaced.every_old {P : Bool → Stmt → Prop} (h : Replaced old new s s') (hs : s.Every P) :
    old.Every P := by
  induction h with
  | here => exact hs
  | @item l before after c c' _ ih => exact ih (every_block.1 hs c (by simp)).2
  | body _ ih => exact ih (every_headed.1 hs).2
  | thenBranch _ ih => exact ih (every_ifElse.1 hs).1.2
  | elseBranch _ ih => exact ih (every_ifElse.1 hs).2.2

/-- A count changes by what the change adds. -/
theorem Replaced.countBelow_add {q : Stmt → Bool} (h : Replaced old new s s')
    (hq : ∀ {s s' : Stmt}, Replaced old new s s' → q s' = q s) :
    s'.countBelow q + old.countBelow q = s.countBelow q + new.countBelow q := by
  induction h with
  | here => omega
  | item hreplaced ih =>
    simp only [countBelow_block, countIn_append, countIn, hq hreplaced]
    omega
  | body hreplaced ih =>
    simp only [countBelow_headed, countIn, hq hreplaced]
    omega
  | thenBranch hreplaced ih =>
    simp only [countBelow_ifElse, countIn, hq hreplaced]
    omega
  | elseBranch hreplaced ih =>
    simp only [countBelow_ifElse, countIn, hq hreplaced]
    omega

/-- Changing what a leaf holds leaves the leaves at the end of other ways as they were. -/
theorem at?_of_modifyAt_leaf {steps steps' : List Nat} {f : Stmt → Stmt} {l l' : Option Nat}
    {content content' after : Leaf} (hs : s.at? steps = some (leaf l content))
    (hf : f (leaf l content) = leaf l after) (hne : steps' ≠ steps)
    (h : (s.modifyAt steps f).at? steps' = some (leaf l' content')) :
    s.at? steps' = some (leaf l' content') := by
  induction steps generalizing s steps' with
  | nil =>
    cases hs
    cases steps' with
    | nil => exact absurd rfl hne
    | cons j steps' =>
      rw [modifyAt, hf] at h
      cases h
  | cons i steps ih =>
    obtain ⟨c, hc, hat⟩ := Option.bind_eq_some_iff.1 hs
    cases steps' with
    | nil =>
      -- what is above a statement is no leaf, before and after
      cases s with
      | leaf => cases hc
      | block => cases h
      | headed | ifElse =>
        simp only [modifyAt, mapChild, at?, Option.some.injEq] at h
        repeat' split at h
        all_goals cases h
    | cons j steps' =>
      simp only [modifyAt, at?, children_mapChild] at h ⊢
      by_cases hij : j = i
      · subst hij
        rw [List.getElem?_modify_eq, hc] at h
        rw [hc]
        exact ih hat (fun heq => hne (heq ▸ rfl)) h
      · rwa [List.getElem?_modify_ne _ _ (Ne.symm hij)] at h

end Stmt

/-! ### Programs -/

namespace Program

variable {old new : Stmt} {p p' : Program}

/-- A program with a new statement where an old one stood, once. -/
inductive Replaced (old new : Stmt) : Program → Program → Prop
  | intro {before after : List Item} {d : Function} {body : Stmt} :
      Stmt.Replaced old new d.body body →
      Replaced old new ⟨before ++ .function d :: after⟩
        ⟨before ++ .function { d with body } :: after⟩

theorem Context.replaced (c : Context) : Replaced old new (c.fill old) (c.fill new) :=
  .intro c.body.replaced

theorem Replaced.exists_context (h : Replaced old new p p') :
    ∃ c : Context, p = c.fill old ∧ p' = c.fill new := by
  obtain ⟨hreplaced⟩ := h
  rename_i before after d body
  obtain ⟨c, hbody, rfl⟩ := hreplaced.exists_context
  obtain ⟨header, name, body, line⟩ := d
  obtain rfl : body = c.fill old := hbody
  exact ⟨⟨before, header, name, c, line, after⟩, rfl, rfl⟩

/-- What is changed at a place is replaced. -/
theorem replaced_modifyAt {place : Place} {f : Stmt → Stmt} (h : p.stmtAt? place = some old)
    (hf : f old = new) : Replaced old new p (p.modifyAt place f) := by
  obtain ⟨c, rfl, rfl⟩ := exists_context h
  rw [Context.modifyAt_fill, hf]
  exact c.replaced

/-- What is replaced stands at a place, and changing it there gives the new program. -/
theorem Replaced.exists_place (h : Replaced old new p p') :
    ∃ place, p.stmtAt? place = some old ∧
      ∀ f : Stmt → Stmt, f old = new → p.modifyAt place f = p' := by
  obtain ⟨c, rfl, rfl⟩ := h.exists_context
  refine ⟨c.place, c.stmtAt?_fill old, ?_⟩
  intro f hf
  rw [Context.modifyAt_fill, hf]

/-- A function body has a line after a change if it had one before, if the change keeps lines. -/
theorem Replaced.bodies (h : Replaced old new p p') (hl : new.line = old.line)
    (hp : ∀ d, .function d ∈ p.items → d.body.line.isSome) :
    ∀ d, .function d ∈ p'.items → d.body.line.isSome := by
  obtain ⟨hreplaced⟩ := h
  simp only [List.mem_append, List.mem_cons] at hp ⊢
  intro d hd
  rcases hd with hd | hd | hd
  · exact hp d (.inl hd)
  · cases hd
    rw [hreplaced.line_eq hl]
    exact hp _ (.inr (.inl rfl))
  · exact hp d (.inr (.inr hd))

theorem Replaced.every {P : Bool → Stmt → Prop} (h : Replaced old new p p')
    (hP : ∀ {inBlock : Bool} {s s' : Stmt}, Stmt.Replaced old new s s' → P inBlock s → P inBlock s')
    (hnew : old.Every P → new.Every P) (hp : p.Every P) : p'.Every P := by
  obtain ⟨hreplaced⟩ := h
  rw [every_iff] at hp ⊢
  simp only [List.mem_append, List.mem_cons] at hp ⊢
  intro d hd
  rcases hd with hd | hd | hd
  · exact hp d (.inl hd)
  · cases hd
    exact hreplaced.every hP hnew (hp _ (.inr (.inl rfl)))
  · exact hp d (.inr (.inr hd))

/-- A count changes by what is counted in the statements that are replaced. -/
theorem Replaced.count_add {q : Stmt → Bool} (h : Replaced old new p p')
    (hq : ∀ {s s' : Stmt}, Stmt.Replaced old new s s' → q s' = q s) :
    p'.count q + old.countBelow q = p.count q + new.countBelow q := by
  obtain ⟨hreplaced⟩ := h
  have := hreplaced.countBelow_add hq
  simp only [count_eq, functions, List.filterMap_append, List.filterMap_cons, Item.function?,
    List.map_append, List.map_cons, List.sum_append, List.sum_cons]
  omega

/-- What was changed is found at its place. -/
theorem stmtAt?_modifyAt {place : Place} {f : Stmt → Stmt} (h : p.stmtAt? place = some old) :
    (p.modifyAt place f).stmtAt? place = some (f old) := by
  obtain ⟨d, hd, hat⟩ := stmtAt?_eq_some.1 h
  refine stmtAt?_eq_some.2 ⟨{ d with body := d.body.modifyAt place.steps f }, ?_, ?_⟩
  · simp [modifyAt, hd]
  · rw [Stmt.at?_modifyAt, hat]
    rfl

/-- Changing a leaf changes no other. -/
theorem stmtAt?_of_modifyAt_leaf {place place' : Place} {f : Stmt → Stmt} {l l' : Option Nat}
    {content content' after : Leaf} (hp : p.stmtAt? place = some (.leaf l content))
    (hf : f (.leaf l content) = .leaf l after) (hne : place' ≠ place)
    (h : (p.modifyAt place f).stmtAt? place' = some (.leaf l' content')) :
    p.stmtAt? place' = some (.leaf l' content') := by
  obtain ⟨d, hd, hat⟩ := stmtAt?_eq_some.1 hp
  obtain ⟨d', hd', hat'⟩ := stmtAt?_eq_some.1 h
  by_cases hitem : place'.item = place.item
  · dsimp only [modifyAt] at hd'
    rw [hitem, List.getElem?_modify_eq, hd] at hd'
    cases hd'
    refine stmtAt?_eq_some.2 ⟨d, hitem ▸ hd, Stmt.at?_of_modifyAt_leaf hat hf ?_ hat'⟩
    intro hsteps
    exact hne (by cases place; cases place'; cases hitem; cases hsteps; rfl)
  · dsimp only [modifyAt] at hd'
    rw [List.getElem?_modify_ne _ _ (Ne.symm hitem)] at hd'
    exact stmtAt?_eq_some.2 ⟨d', hd', hat'⟩

end Program

end WitnessReplay
