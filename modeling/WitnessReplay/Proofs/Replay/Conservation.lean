import WitnessReplay.Proofs.Replay.Step

/-!
# A replay keeps the program

Taking the markers out of the blocks, and the blocks around bodies that had no braces away, leaves
the program that was read, but for the values that were pinned (`Program.withoutMarkers_replay`).
-/

namespace WitnessReplay

namespace Stmt

/-- A block, or the statement in it if it has no line and holds just one. -/
def unwrapped : Option Nat → List Stmt → Stmt
  | none, [s] => s
  | l, items => block l items

mutual

/-- A statement without the markers in the blocks below it, and without the blocks that were put
around bodies for them. -/
def withoutMarkers : Stmt → Stmt
  | leaf l content => leaf l content
  | block l items => unwrapped l (withoutMarkersOf items)
  | headed l head body => headed l head body.withoutMarkers
  | ifElse l cond thenBranch elseBranch =>
    ifElse l cond thenBranch.withoutMarkers elseBranch.withoutMarkers

/-- The statements of a block that are no markers, without the markers below them. -/
def withoutMarkersOf : List Stmt → List Stmt
  | [] => []
  | s :: rest =>
    if s.isMarker then withoutMarkersOf rest else s.withoutMarkers :: withoutMarkersOf rest

end

theorem withoutMarkersOf_append (items more : List Stmt) :
    withoutMarkersOf (items ++ more) = withoutMarkersOf items ++ withoutMarkersOf more := by
  induction items with
  | nil => rfl
  | cons s items ih =>
    rw [List.cons_append, withoutMarkersOf, withoutMarkersOf, ih]
    split <;> rfl

variable {s s' old new first : Stmt}

theorem withoutMarkersOf_cons_of_marker {items : List Stmt} (h : s.isMarker) :
    withoutMarkersOf (s :: items) = withoutMarkersOf items := by
  rw [withoutMarkersOf, if_pos h]

/-- All other statements stay, without the markers inside of them. -/
theorem withoutMarkersOf_cons {items : List Stmt} (h : s.isMarker = false) :
    withoutMarkersOf (s :: items) = s.withoutMarkers :: withoutMarkersOf items := by
  rw [withoutMarkersOf, if_neg (by simp [h])]

mutual

/-- There is nothing to take out of a statement that was read. -/
theorem withoutMarkers_of_lined : (s : Stmt) → s.Lined → s.withoutMarkers = s
  | .leaf .., _ => rfl
  | .block l items, h => by
    obtain ⟨l, rfl⟩ := Option.isSome_iff_exists.1 h.1
    rw [withoutMarkers, withoutMarkersOf_of_lined items (every_block.1 h.2)]
    rfl
  | .headed l head body, h => by
    rw [withoutMarkers, withoutMarkers_of_lined body (every_headed.1 h.2)]
  | .ifElse l cond yes no, h => by
    obtain ⟨hyes, hno⟩ := every_ifElse.1 h.2
    rw [withoutMarkers, withoutMarkers_of_lined yes hyes, withoutMarkers_of_lined no hno]

/-- A list that was read has no markers. -/
theorem withoutMarkersOf_of_lined :
    (items : List Stmt) → (∀ s ∈ items, s.Lined) → withoutMarkersOf items = items
  | [], _ => rfl
  | s :: items, h => by
    obtain ⟨hs, hitems⟩ := List.forall_mem_cons.1 h
    rw [withoutMarkersOf_cons (isMarker_eq_false (.inl hs.1)), withoutMarkers_of_lined s hs,
      withoutMarkersOf_of_lined items hitems]

end

/-! ### Barriers -/

/-- A marker in front of a statement is left out, with the block around both. -/
theorem withoutMarkers_prepend (hfirst : first.isMarker) (h : s.isMarker = false) :
    (Stmt.prepend first s).withoutMarkers = s.withoutMarkers := by
  cases hblock : s.isBlock with
  | true =>
    obtain ⟨l, items, rfl⟩ := isBlock_iff.1 hblock
    rw [Stmt.prepend, withoutMarkers, withoutMarkers, withoutMarkersOf_cons_of_marker hfirst]
  | false =>
    rw [prepend_of_not_block hblock, withoutMarkers, withoutMarkersOf_cons_of_marker hfirst,
      withoutMarkersOf_cons h]
    rfl

variable {bs : List Barrier}

/-- A marker that is the first thing inside of a statement is left out. -/
theorem withoutMarkers_enterWith? (h : enterWith? first s = some s') (hfirst : first.isMarker)
    (hbelow : s.Every (Placed bs)) : s'.withoutMarkers = s.withoutMarkers := by
  cases s with
  | leaf => cases h
  | block l items =>
    cases h
    rw [withoutMarkers, withoutMarkers, withoutMarkersOf_cons_of_marker hfirst]
  | headed l head body =>
    rw [enterWith?] at h
    split at h
    next =>
      cases h
      have hbody := (every_headed.1 hbelow).1.isMarker
      rw [withoutMarkers, withoutMarkers, withoutMarkers_prepend hfirst hbody]
    next => cases h
  | ifElse l cond yes no =>
    cases h
    obtain ⟨hyes, hno⟩ := every_ifElse.1 hbelow
    rw [withoutMarkers, withoutMarkers, withoutMarkers_prepend hfirst hyes.1.isMarker,
      withoutMarkers_prepend hfirst hno.1.isMarker]

/-- A statement between its markers becomes what it is without any. -/
theorem withoutMarkersOf_guarded (seq : Nat) (thread : Int) (h : s.isMarker = false)
    (hbelow : s.Every (Placed bs)) :
    withoutMarkersOf (guarded seq thread s) = [s.withoutMarkers] := by
  obtain ⟨inside, behind, heq, hcases⟩ := guarded_cases seq thread s
  rw [heq, withoutMarkersOf_cons_of_marker (isMarker_marker (.inl rfl))]
  rcases hcases with ⟨hentered, rfl⟩ | ⟨-, rfl, rfl⟩
  · have hinside := (enterWith?_resembles hentered).isMarker.trans h
    rw [withoutMarkersOf_cons hinside,
      withoutMarkers_enterWith? hentered (isMarker_marker (.inr rfl)) hbelow]
    rfl
  · rw [withoutMarkersOf_cons h, withoutMarkersOf_cons_of_marker (isMarker_marker (.inr rfl))]
    rfl

/-- So markers around a statement of a block do not show in it. -/
theorem withoutMarkers_block_guarded (l : Option Nat) (before after : List Stmt) (seq : Nat)
    (thread : Int) (h : s.isMarker = false) (hbelow : s.Every (Placed bs)) :
    (block l (before ++ guarded seq thread s ++ after)).withoutMarkers
      = (block l (before ++ s :: after)).withoutMarkers := by
  rw [withoutMarkers, withoutMarkers, withoutMarkersOf_append, withoutMarkersOf_append,
    withoutMarkersOf_guarded seq thread h hbelow, withoutMarkersOf_append,
    withoutMarkersOf_cons h, List.append_assoc]
  rfl

/-- A change that is not seen where it is made is not seen from above. -/
theorem Replaced.withoutMarkers_eq (h : Replaced old new s s') (hnew : new.Resembles old)
    (heq : new.withoutMarkers = old.withoutMarkers) : s'.withoutMarkers = s.withoutMarkers := by
  induction h with
  | here => exact heq
  | @item l before after c c' hreplaced ih =>
    have hc := (hreplaced.resembles hnew).isMarker
    rw [withoutMarkers, withoutMarkers, withoutMarkersOf_append, withoutMarkersOf_append]
    rw [withoutMarkersOf, withoutMarkersOf, ih, hc]
  | body hreplaced ih => rw [withoutMarkers, withoutMarkers, ih]
  | thenBranch hreplaced ih => rw [withoutMarkers, withoutMarkers, ih]
  | elseBranch hreplaced ih => rw [withoutMarkers, withoutMarkers, ih]

/-! ### Pins -/

/-- Whether a block is taken off does not depend on the statement in it. -/
theorem unwrapped_append_cons (l : Option Nat) (before after : List Stmt) :
    (∀ s, unwrapped l (before ++ s :: after) = s) ∨
      ∀ s, unwrapped l (before ++ s :: after) = block l (before ++ s :: after) := by
  match l, before, after with
  | none, [], [] => exact .inl fun s => rfl
  | some l, before, after => exact .inr fun s => rfl
  | none, [], t :: after => exact .inr fun s => rfl
  | none, [t], after => exact .inr fun s => rfl
  | none, t :: u :: before, after => exact .inr fun s => rfl

/-- Taking a block off keeps a replacement inside. -/
theorem Replaced.unwrapped (h : Replaced old new s s') (l : Option Nat) (before after : List Stmt) :
    Replaced old new (unwrapped l (before ++ s :: after))
      (unwrapped l (before ++ s' :: after)) := by
  rcases unwrapped_append_cons l before after with heq | heq
  · rw [heq, heq]
    exact h
  · rw [heq, heq]
    exact .item h

/-- A statement that is put into the place of one with a line is put there without the markers
too. -/
theorem Replaced.withoutMarkers (h : Replaced old new s s') (hold : old.line.isSome)
    (hnew : new.Resembles old) (heq : old.withoutMarkers = old) (heq' : new.withoutMarkers = new) :
    Replaced old new s.withoutMarkers s'.withoutMarkers := by
  induction h with
  | here =>
    rw [heq, heq']
    exact .here
  | @item l before after c c' hreplaced ih =>
    -- what has a statement with a line in it is no marker, so it stays in the list
    have hc : c.isMarker = false := by
      cases hreplaced with
      | here => exact isMarker_eq_false (.inl hold)
      | item | body | thenBranch | elseBranch => rfl
    have hc' := (hreplaced.resembles hnew).isMarker.trans hc
    rw [Stmt.withoutMarkers, Stmt.withoutMarkers, withoutMarkersOf_append, withoutMarkersOf_append,
      withoutMarkersOf_cons hc, withoutMarkersOf_cons hc']
    exact ih.unwrapped l _ _
  | body hreplaced ih => exact .body ih
  | thenBranch hreplaced ih => exact .thenBranch ih
  | elseBranch hreplaced ih => exact .elseBranch ih

end Stmt

/-! ### Programs -/

/-- An item without the markers in it. -/
def Item.withoutMarkers : Item → Item
  | .function d => .function { d with body := d.body.withoutMarkers }
  | .verbatim text line => .verbatim text line

namespace Program

/-- A program without the markers in it, and without the blocks that were put around bodies for
them. -/
def withoutMarkers (p : Program) : Program :=
  ⟨p.items.map Item.withoutMarkers⟩

variable {p q : Program} {bs : List Barrier} {b : Barrier} {target : Stmt} {pinned : Pinned}

theorem withoutMarkers_of_lined (h : ∀ d, .function d ∈ p.items → d.body.Lined) :
    p.withoutMarkers = p := by
  have hitem : ∀ item ∈ p.items, item.withoutMarkers = id item := by
    intro item hitem
    cases item with
    | verbatim => rfl
    | function d =>
      rw [Item.withoutMarkers, Stmt.withoutMarkers_of_lined _ (h d hitem)]
      rfl
  rw [withoutMarkers, List.map_congr_left hitem, List.map_id]

/-- A barrier does not show without the markers. -/
theorem GuardedBy.withoutMarkers_eq (h : GuardedBy b target p q) (hp : p.Every (Stmt.Placed bs)) :
    q.withoutMarkers = p.withoutMarkers := by
  obtain ⟨hl, ⟨hreplaced⟩⟩ := h
  have hbelow : target.Every (Stmt.Placed bs) := by
    have hblock := hreplaced.every_old (every_iff.1 hp _ (by simp))
    exact (Stmt.every_block.1 hblock target (by simp)).2
  have hmarker := Stmt.isMarker_eq_false (.inl hl)
  have heq := hreplaced.withoutMarkers_eq ⟨rfl, rfl, rfl⟩
    (Stmt.withoutMarkers_block_guarded _ _ _ _ _ hmarker hbelow)
  simp [withoutMarkers, Item.withoutMarkers, heq]

theorem PinnedBy.withoutMarkers (h : PinnedBy pinned p q) :
    PinnedBy pinned p.withoutMarkers q.withoutMarkers := by
  obtain ⟨hslot, hl, ⟨hreplaced⟩⟩ := h
  have := hreplaced.withoutMarkers rfl (Stmt.resembles_of_line rfl rfl rfl) rfl rfl
  refine .intro hslot hl ?_
  rw [Program.withoutMarkers, Program.withoutMarkers, List.map_append, List.map_append]
  exact .intro this

/-! ### The places of the pins -/

/-- Pins one after the other, each where the ones before have left a nondeterministic value. -/
inductive Pins (p : Program) : List (Place × Pinned) → Program → Prop
  | nil : Pins p [] p
  | snoc {pins : List (Place × Pinned)} {q : Program} {place : Place} {pinned : Pinned} {l : Nat}
      {content : Leaf} (h : Pins p pins q)
      (hat : q.stmtAt? place = some (.leaf (some l) content))
      (hslot : content.nondetSlot? = some ⟨pinned.name, pinned.type⟩)
      (hl : pinned.line = some l) :
      Pins p (pins ++ [(place, pinned)])
        (q.modifyAt place (Stmt.withValue (.constant pinned.type pinned.value)))

/-- Where a value is pinned, there is no nondeterministic one any more. -/
theorem nondetSlot?_withValue_constant {content : Leaf} {type value : String} :
    (content.withValue (.constant type value)).nondetSlot? = none := by
  match content with
  | .evaluates (.assign target op _) =>
    cases target <;> by_cases h : op = "=" <;> simp [Leaf.withValue, Leaf.nondetSlot?, h,
      Expr.nondetType?]
  | .declares ⟨_, name, _⟩ => cases name <;> rfl
  | .evaluates (.call ..) | .evaluates (.ident _) | .evaluates (.constant ..)
  | .evaluates (.raw _) | .returns _ | .jump _ | .directive _ | .empty => rfl

variable {pins : List (Place × Pinned)}

/-- A nondeterministic value that is left was there before, and not at the place of a pin. -/
theorem Pins.before (h : Pins p pins q) {place : Place} {l : Option Nat} {content : Leaf}
    {slot : NondetSlot} (hat : q.stmtAt? place = some (.leaf l content))
    (hslot : content.nondetSlot? = some slot) :
    place ∉ pins.map Prod.fst ∧ p.stmtAt? place = some (.leaf l content) := by
  induction h with
  | nil => exact ⟨by simp, hat⟩
  | @snoc pins q place' pinned l' content' h hat' hslot' hl ih =>
    have hne : place ≠ place' := by
      -- there is a constant now
      intro heq
      rw [heq, stmtAt?_modifyAt hat'] at hat
      cases hat
      rw [nondetSlot?_withValue_constant] at hslot
      cases hslot
    obtain ⟨hmem, hp⟩ := ih (stmtAt?_of_modifyAt_leaf hat' rfl hne hat)
    refine ⟨?_, hp⟩
    rw [List.map_append, List.mem_append, not_or]
    exact ⟨hmem, by simpa using hne⟩

theorem Pins.nodup (h : Pins p pins q) : (pins.map Prod.fst).Nodup := by
  induction h with
  | nil => exact List.nodup_nil
  | snoc h hat hslot hl ih =>
    rw [List.map_append, List.nodup_append]
    refine ⟨ih, by simp, ?_⟩
    intro place hplace place' hplace' heq
    rw [heq, List.mem_singleton.1 hplace'] at hplace
    exact (h.before hat hslot).1 hplace

/-- One more pin is put at a place of its own. -/
theorem PinnedBy.snoc {q' : Program} (h : PinnedBy pinned q q') (hpins : Pins p pins q) :
    ∃ place, Pins p (pins ++ [(place, pinned)]) q' := by
  obtain ⟨hslot, hl, hreplaced⟩ := h
  obtain ⟨place, hat, hmodify⟩ := hreplaced.exists_place
  rw [← hmodify (Stmt.withValue (.constant pinned.type pinned.value)) rfl]
  exact ⟨place, .snoc hpins hat hslot hl⟩

end Program

/-! ### Replays -/

/-- A session whose program is the one that it began with, but for markers and the pins of its
report. -/
def Session.Conserves (p : Program) (s : Session) : Prop :=
  ∃ pins, pins.map Prod.snd = s.report.pinned ∧ p.Pins pins s.program.withoutMarkers

namespace Session

variable {p : Program} {s next : Session} {step : Transition}

/-- The pin of a step adds to the pins and to nothing else. -/
theorem Conserves.pin (h : s.Conserves p) : (s.pin step).Conserves p := by
  rcases s.pin_cases step with heq | ⟨q, pinned, hpinned, heq⟩
  · rwa [heq]
  · obtain ⟨pins, hreport, hpins⟩ := h
    obtain ⟨place, hpins⟩ := hpinned.withoutMarkers.snoc hpins
    rw [heq]
    exact ⟨pins ++ [(place, pinned)], by simp [hreport], hpins⟩

/-- The thread switch of a step adds markers and nothing else. -/
theorem Conserves.switch (h : s.Conserves p) (hs : s.Sound) (hnext : s.switch step = .ok next) :
    next.Conserves p := by
  rcases switch_cases hnext with ⟨-, rfl⟩ | ⟨thread, line, target, q, -, -, hguarded, rfl⟩
  · exact h
  · obtain ⟨pins, hreport, hpins⟩ := h
    rw [← hguarded.withoutMarkers_eq hs.placed] at hpins
    exact ⟨pins, hreport, hpins⟩

end Session

end WitnessReplay
