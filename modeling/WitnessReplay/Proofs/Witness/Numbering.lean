import Mathlib.Data.List.Infix
import WitnessReplay.Proofs.Witness.Mention

/-!
# The numbers of a witness graph

States and transitions are numbered as they come, and a table has the numbers of the states by their
ids. `WitnessGraph.Consistent` says what this comes to in terms of the mentions that built a graph:
which ids have a number, to which state a number leads, how that state is marked, and which
transition has which number.

That a number once given out stays with its id is a law of two graphs, one before some more mentions
and one after them. `Extends` is what relates them: the states and the transitions of the first are
the first ones of the second. Each mention extends (`WellFormed.extends_mention`), and so does a
run.
-/

namespace WitnessReplay.WitnessGraph

/-- A graph that goes on from another one: the states and transitions that there were keep their
numbers, and the states their ids. -/
structure Extends (g g' : WitnessGraph) : Prop where
  ids : g.ids <+: g'.ids
  links : g.links <+: g'.links

/-- A graph whose table, states and transitions say what the mentions say that it was built by. -/
structure Consistent (g : WitnessGraph) (mentions : List Mention) : Prop where
  /-- Just the ids that are mentioned have numbers. -/
  isSome_index? : ∀ id, (g.index? id).isSome ↔ ∃ m ∈ mentions, id ∈ m.ids
  /-- No two ids have one number. -/
  distinct : ∀ id id' i, g.index? id = some i → g.index? id' = some i → id = id'
  /-- The number of an id leads to its state, which has the markers that it was mentioned with. -/
  node : ∀ id i, g.index? id = some i → ∃ n, g.nodes[i]? = some n ∧ n.id = id ∧
    (n.isEntry = true ↔ ∃ isSink, .node id true isSink ∈ mentions) ∧
    (n.isSink = true ↔ ∃ isEntry, .node id isEntry true ∈ mentions)
  /-- Every state has its number in the table. -/
  index?_id : ∀ i n, g.nodes[i]? = some n → g.index? n.id = some i
  /-- There are as many transitions as were mentioned. -/
  length_links : g.links.length = (mentions.filterMap Mention.link?).length
  /-- Transitions are numbered in the order of their mentions, each between the states of its ids.
  -/
  link : ∀ (k : Nat) (l : NamedLink), (mentions.filterMap Mention.link?)[k]? = some l →
    ∃ i j, g.index? l.source = some i ∧ g.index? l.target = some j ∧
      g.links[k]? = some ⟨i, j, l.edge⟩

variable {g g' g'' : WitnessGraph} {mentions : List Mention} {id : String} {i : Nat}

/-! ### What stays -/

theorem Extends.refl (g : WitnessGraph) : Extends g g :=
  ⟨List.prefix_rfl, List.prefix_rfl⟩

theorem Extends.trans (h : Extends g g') (h' : Extends g' g'') : Extends g g'' :=
  ⟨h.ids.trans h'.ids, h.links.trans h'.links⟩

/-- Mentioning a node extends a graph. -/
theorem WellFormed.extends_addNode (h : g.WellFormed) (id : String) (isEntry isSink : Bool) :
    Extends g (g.addNode id isEntry isSink) := by
  constructor
  · rcases h.addNode_ids id isEntry isSink with ⟨-, heq⟩ | ⟨-, heq⟩
    · rw [heq]
    · rw [heq]
      exact List.prefix_append ..
  · rw [addNode_links]

/-- One more mention takes back no number. -/
theorem WellFormed.extends_mention (h : g.WellFormed) (m : Mention) : Extends g (g.mention m) := by
  cases m with
  | node id isEntry isSink => exact h.extends_addNode id isEntry isSink
  | edge source target edge =>
    have hends := (h.extends_addNode source false false).trans
      (h.addNode.extends_addNode target false false)
    -- the transition comes behind those there are
    exact ⟨hends.ids, hends.links.trans (List.prefix_append ..)⟩

theorem Holds.extends_foldl (h : g.Holds mentions) (more : List Mention) :
    Extends g (more.foldl WitnessGraph.mention g) := by
  induction more generalizing g mentions with
  | nil => exact .refl g
  | cons m more ih => exact (h.toWellFormed.extends_mention m).trans (ih (h.mention m))

/-- A graph that is built further extends the graph there was. -/
theorem extends_built (kind : Option String) (mentions more : List Mention) :
    Extends (built kind mentions) (built kind (mentions ++ more)) := by
  unfold built
  rw [List.foldl_append]
  exact (holds_built kind mentions).extends_foldl more

theorem getElem?_of_extended {α : Type} {xs ys : List α} {a : α} (h : xs <+: ys)
    (hget : xs[i]? = some a) : ys[i]? = some a := by
  obtain ⟨more, rfl⟩ := h
  rw [List.getElem?_append_left (List.getElem?_eq_some_iff.1 hget).1]
  exact hget

/-- In a graph that goes on from another one an id has the number that it had there. -/
theorem Extends.index? (h : Extends g g') (hg : g.WellFormed) (hg' : g'.WellFormed)
    (hi : g.index? id = some i) : g'.index? id = some i :=
  (hg'.numbered id i).2 (getElem?_of_extended h.ids ((hg.numbered id i).1 hi))

/-- The state of a number keeps its id. -/
theorem Extends.node (h : Extends g g') {n : WitnessNode} (hn : g.nodes[i]? = some n) :
    ∃ n', g'.nodes[i]? = some n' ∧ n'.id = n.id := by
  have hid : g.ids[i]? = some n.id := by
    rw [WitnessGraph.ids, List.getElem?_map, hn]
    rfl
  have hget := getElem?_of_extended h.ids hid
  rw [WitnessGraph.ids, List.getElem?_map] at hget
  exact Option.map_eq_some_iff.1 hget

/-! ### What a graph says of its mentions -/

/-- A node has the index of its name. -/
theorem WellFormed.index?_id (h : g.WellFormed) {n : WitnessNode} (hn : g.nodes[i]? = some n) :
    g.index? n.id = some i := by
  rw [h.numbered, ids, List.getElem?_map, hn]
  rfl

/-- A name with an index is that of a node. -/
theorem WellFormed.exists_node (h : g.WellFormed) (hi : g.index? id = some i) :
    ∃ n, g.nodes[i]? = some n ∧ n.id = id := by
  have hget := (h.numbered id i).1 hi
  rw [ids, List.getElem?_map] at hget
  exact Option.map_eq_some_iff.1 hget

/-- What any state of an id says, the one with its number says. -/
theorem WellFormed.any_id (h : g.WellFormed) {n : WitnessNode} (hn : g.nodes[i]? = some n)
    (p : WitnessNode → Bool) : (g.nodes.any fun n' => n'.id == n.id && p n') = p n := by
  rw [Bool.eq_iff_iff, List.any_eq_true]
  constructor
  · rintro ⟨n', hmem, hp⟩
    obtain ⟨hid, hp⟩ := Bool.and_eq_true_iff.1 hp
    obtain ⟨j, hj⟩ := List.mem_iff_getElem?.1 hmem
    -- both states have the number of their id
    have hindex := h.index?_id hj
    rw [eq_of_beq hid, h.index?_id hn] at hindex
    obtain rfl := Option.some.inj hindex
    rw [hn] at hj
    rwa [Option.some.inj hj]
  · intro hp
    exact ⟨n, List.mem_of_getElem? hn, by simp [hp]⟩

/-- A marking that no edge makes is made by some mention of the state. -/
theorem any_marks_iff {marks : Mention → Bool} {p : Bool → Bool → Bool}
    (hnode : ∀ id' isEntry isSink,
      marks (.node id' isEntry isSink) = (id' == id && p isEntry isSink))
    (hedge : ∀ source target edge, marks (.edge source target edge) = false) :
    mentions.any marks = true ↔
      ∃ isEntry isSink, p isEntry isSink = true ∧ .node id isEntry isSink ∈ mentions := by
  rw [List.any_eq_true]
  constructor
  · rintro ⟨m, hm, hmarks⟩
    cases m with
    | edge source target edge =>
      rw [hedge] at hmarks
      cases hmarks
    | node id' isEntry isSink =>
      rw [hnode, Bool.and_eq_true] at hmarks
      obtain ⟨hid, hp⟩ := hmarks
      rw [eq_of_beq hid] at hm
      exact ⟨isEntry, isSink, hp, hm⟩
  · rintro ⟨isEntry, isSink, hp, hm⟩
    refine ⟨_, hm, ?_⟩
    rw [hnode, hp, Bool.and_true, beq_self_eq_true]

/-- A name is marked as an entry if some mention says so. -/
theorem any_marksEntry_iff :
    mentions.any (·.marksEntry id) = true ↔ ∃ isSink, .node id true isSink ∈ mentions := by
  rw [any_marks_iff (p := fun isEntry _ => isEntry) (fun _ _ _ => rfl) fun _ _ _ => rfl]
  simp

theorem any_marksSink_iff :
    mentions.any (·.marksSink id) = true ↔ ∃ isEntry, .node id isEntry true ∈ mentions := by
  rw [any_marks_iff (p := fun _ isSink => isSink) (fun _ _ _ => rfl) fun _ _ _ => rfl]
  simp

theorem WellFormed.index?_idOf (h : g.WellFormed) (hi : i < g.nodes.length) :
    g.index? (g.idOf i) = some i :=
  (h.numbered _ i).2 (getElem?_ids hi)

/-- A graph that holds its mentions is consistent with them. -/
theorem Holds.consistent (h : g.Holds mentions) : g.Consistent mentions where
  isSome_index? id := by
    rw [← h.mem_ids id]
    constructor
    · intro hsome
      obtain ⟨i, hi⟩ := Option.isSome_iff_exists.1 hsome
      exact List.mem_of_getElem? ((h.numbered id i).1 hi)
    · intro hid
      obtain ⟨i, hi, -⟩ := h.exists_index_of_mem hid
      rw [hi]
      rfl
  distinct id id' i hi hi' := by
    rw [h.numbered] at hi hi'
    exact Option.some.inj (hi.symm.trans hi')
  node id i hi := by
    obtain ⟨n, hn, rfl⟩ := h.exists_node hi
    refine ⟨n, hn, rfl, ?_, ?_⟩
    · rw [← any_marksEntry_iff, ← h.isEntryId, WitnessGraph.isEntryId, h.any_id hn]
    · rw [← any_marksSink_iff, ← h.isSinkId, WitnessGraph.isSinkId, h.any_id hn]
  index?_id i n hn := h.toWellFormed.index?_id hn
  length_links := by
    rw [← h.namedLinks, WitnessGraph.namedLinks, List.length_map]
  link k l hl := by
    rw [← h.namedLinks, WitnessGraph.namedLinks, List.getElem?_map] at hl
    obtain ⟨link, hlink, rfl⟩ := Option.map_eq_some_iff.1 hl
    obtain ⟨hsource, htarget⟩ := h.inRange link (List.mem_of_getElem? hlink)
    exact ⟨_, _, h.index?_idOf hsource, h.index?_idOf htarget, hlink⟩

/-- **The table and the states of a witness graph stay in step**, whatever is mentioned in whatever
order: what was built is consistent with the mentions, further mentions change no number and no id
of a number, and the same mentions in another order leave the same markers. -/
theorem consistent_built (kind : Option String) (mentions : List Mention) :
    (built kind mentions).Consistent mentions ∧
      (∀ (more : List Mention) (id : String) (i : Nat), (built kind mentions).index? id = some i →
        (built kind (mentions ++ more)).index? id = some i) ∧
      (∀ (more : List Mention) (i : Nat) (n : WitnessNode), (built kind mentions).nodes[i]? = some n →
        ∃ n', (built kind (mentions ++ more)).nodes[i]? = some n' ∧ n'.id = n.id) ∧
      ∀ (mentions' : List Mention), mentions'.Perm mentions → ∀ id,
        (built kind mentions').isEntryId id = (built kind mentions).isEntryId id ∧
          (built kind mentions').isSinkId id = (built kind mentions).isSinkId id := by
  have hg := holds_built kind mentions
  refine ⟨hg.consistent, ?_, ?_, ?_⟩
  · intro more id i hi
    have hmore := (holds_built kind (mentions ++ more)).toWellFormed
    exact (extends_built kind mentions more).index? hg.toWellFormed hmore hi
  · intro more i n hn
    exact (extends_built kind mentions more).node hn
  · intro mentions' hperm id
    have hg' := holds_built kind mentions'
    rw [hg.isEntryId, hg.isSinkId, hg'.isEntryId, hg'.isSinkId]
    exact ⟨hperm.any_eq, hperm.any_eq⟩

end WitnessReplay.WitnessGraph
