import Mathlib.Data.List.Nodup
import WitnessReplay.Proofs.Program.Walk
import WitnessReplay.Witness.Graph

/-!
# What a witness graph holds

A witness graph is built by mentions: of a state with markers, or of a transition between two
states. `WitnessGraph.Holds` says what it holds after some mentions, in terms of the mentions alone:
which states there are, how they are marked, and what the transitions are between. States are named
by their ids there, so that nothing of it hangs on the numbers that the graph has given out.

`Holds.mention` is the step: one more mention adds to the graph just what it says. `holds_built` is
the run.
-/

namespace WitnessReplay

/-- A transition between two states that are named by their ids. -/
structure NamedLink where
  source : String
  target : String
  edge : WitnessEdge
deriving DecidableEq

/-- What is told to a graph: a state with markers, or a transition. -/
inductive Mention
  | node (id : String) (isEntry isSink : Bool)
  | edge (source target : String) (edge : WitnessEdge)

namespace Mention

/-- The states that a mention names. -/
def ids : Mention → List String
  | node id _ _ => [id]
  | edge source target _ => [source, target]

/-- Whether a mention marks a state as entry. -/
def marksEntry (id : String) : Mention → Bool
  | node id' isEntry _ => id' == id && isEntry
  | edge .. => false

/-- Whether a mention marks a state as sink. -/
def marksSink (id : String) : Mention → Bool
  | node id' _ isSink => id' == id && isSink
  | edge .. => false

/-- The transition of a mention, if it is of one. -/
def link? : Mention → Option NamedLink
  | node .. => none
  | edge source target e => some ⟨source, target, e⟩

end Mention

namespace WitnessGraph

/-- A graph after one more mention. -/
def mention (g : WitnessGraph) : Mention → WitnessGraph
  | .node id isEntry isSink => g.addNode id isEntry isSink
  | .edge source target edge => g.addEdge source target edge

/-- The graph of a kind that some mentions, one after the other, come to. -/
def built (kind : Option String) (mentions : List Mention) : WitnessGraph :=
  mentions.foldl mention (empty kind)

/-- The ids of the states, in the order of their numbers. -/
def ids (g : WitnessGraph) : List String :=
  g.nodes.map WitnessNode.id

/-- Whether the state of an id is marked as entry. -/
def isEntryId (g : WitnessGraph) (id : String) : Bool :=
  g.nodes.any fun n => n.id == id && n.isEntry

/-- Whether the state of an id is marked as sink. -/
def isSinkId (g : WitnessGraph) (id : String) : Bool :=
  g.nodes.any fun n => n.id == id && n.isSink

/-- A transition between the ids of its states. -/
def named (g : WitnessGraph) (l : WitnessLink) : NamedLink :=
  ⟨g.idOf l.source, g.idOf l.target, l.edge⟩

/-- The transitions between the ids of their states. -/
def namedLinks (g : WitnessGraph) : List NamedLink :=
  g.links.map g.named

/-- A graph whose table has just the numbers of its states, and whose transitions are between states
of it. -/
structure WellFormed (g : WitnessGraph) : Prop where
  numbered : ∀ id i, g.index? id = some i ↔ g.ids[i]? = some id
  inRange : ∀ l ∈ g.links, l.source < g.nodes.length ∧ l.target < g.nodes.length

/-- A graph that holds what some mentions say, and nothing else. -/
structure Holds (g : WitnessGraph) (mentions : List Mention) : Prop extends g.WellFormed where
  mem_ids : ∀ id, id ∈ g.ids ↔ ∃ m ∈ mentions, id ∈ m.ids
  isEntryId : ∀ id, g.isEntryId id = mentions.any (·.marksEntry id)
  isSinkId : ∀ id, g.isSinkId id = mentions.any (·.marksSink id)
  namedLinks : g.namedLinks = mentions.filterMap Mention.link?

/-! ### Ids and numbers -/

variable {g : WitnessGraph} {id id' : String} {isEntry isSink : Bool} {i : Nat}

/-- There is a name for every node. -/
theorem length_ids : g.ids.length = g.nodes.length :=
  List.length_map _

/-- The names come in the order of the nodes. -/
theorem getElem?_ids (h : i < g.nodes.length) : g.ids[i]? = some (g.idOf i) := by
  rw [ids, idOf, List.getElem?_map, List.getElem?_eq_getElem h]
  rfl

theorem getElem_ids (h : i < g.ids.length) : g.ids[i] = g.idOf i := by
  have hlt : i < g.nodes.length := by rwa [← length_ids]
  exact Option.some.inj ((List.getElem?_eq_getElem h).symm.trans (getElem?_ids hlt))

theorem idOf_mem_ids (h : i < g.nodes.length) : g.idOf i ∈ g.ids :=
  List.mem_of_getElem? (getElem?_ids h)

/-- A number in the table belongs to one id, so there is one state for each id. -/
theorem WellFormed.distinct (h : g.WellFormed) : g.ids.Nodup := by
  rw [List.nodup_iff_getElem?_ne_getElem?]
  intro i j hlt hj heq
  have hget := List.getElem?_eq_getElem hj
  have hi := (h.numbered _ i).2 (heq.trans hget)
  rw [(h.numbered _ j).2 hget] at hi
  exact Nat.ne_of_gt hlt (Option.some.inj hi)

/-- No two nodes of a graph have one name. -/
theorem WellFormed.idOf_injective (h : g.WellFormed) {i j : Nat} (hi : i < g.nodes.length)
    (hj : j < g.nodes.length) (heq : g.idOf i = g.idOf j) : i = j := by
  rw [← length_ids] at hi hj
  have hget : g.ids[i] = g.ids[j] := by rw [getElem_ids, getElem_ids, heq]
  exact h.distinct.getElem_inj_iff.1 hget

/-- Every name has an index, which is that of its node. -/
theorem WellFormed.exists_index_of_mem (h : g.WellFormed) (hid : id ∈ g.ids) :
    ∃ i, g.index? id = some i ∧ i < g.nodes.length ∧ g.idOf i = id := by
  obtain ⟨i, hget⟩ := List.mem_iff_getElem?.1 hid
  have hlt : i < g.nodes.length := by
    rw [← length_ids]
    exact (List.getElem?_eq_some_iff.1 hget).1
  rw [getElem?_ids hlt] at hget
  exact ⟨i, (h.numbered id i).2 (by rw [getElem?_ids hlt, hget]), hlt, Option.some.inj hget⟩

/-! ### One more state -/

/-- A mention of a state marks the one that there is, or adds one at the end. -/
theorem WellFormed.addNode_cases (h : g.WellFormed) (id : String) (isEntry isSink : Bool) :
    (∃ before n after, g.nodes = before ++ n :: after ∧ n.id = id ∧
      g.addNode id isEntry isSink = { g with nodes := before ++ n.mark isEntry isSink :: after }) ∨
    (id ∉ g.ids ∧ g.addNode id isEntry isSink = { g with
      nodes := g.nodes ++ [⟨id, isEntry, isSink⟩]
      numbers := (id, g.nodes.length) :: g.numbers }) := by
  rw [WitnessGraph.addNode]
  split
  next i hi =>
    -- what the table has under the id is the number of its state
    have hid := (h.numbered id i).1 hi
    rw [ids, List.getElem?_map] at hid
    obtain ⟨n, hn, rfl⟩ := Option.map_eq_some_iff.1 hid
    obtain ⟨before, after, hnodes, rfl⟩ := exists_append_of_getElem? hn
    refine .inl ⟨before, n, after, hnodes, rfl, ?_⟩
    rw [hnodes, modify_append_cons]
  next hnone =>
    refine .inr ⟨?_, rfl⟩
    intro hmem
    obtain ⟨i, hi, -⟩ := h.exists_index_of_mem hmem
    rw [hnone] at hi
    cases hi

/-- Mentioning a node adds no edge. -/
theorem addNode_links : (g.addNode id isEntry isSink).links = g.links := by
  unfold addNode
  split <;> rfl

/-- No state loses its number, and only the state that is mentioned can be new. -/
theorem WellFormed.addNode_ids (h : g.WellFormed) (id : String) (isEntry isSink : Bool) :
    (id ∈ g.ids ∧ (g.addNode id isEntry isSink).ids = g.ids) ∨
      (id ∉ g.ids ∧ (g.addNode id isEntry isSink).ids = g.ids ++ [id]) := by
  rcases h.addNode_cases id isEntry isSink with ⟨before, n, after, hnodes, rfl, heq⟩ | ⟨hid, heq⟩
  · refine .inl ⟨by simp [ids, hnodes], ?_⟩
    rw [heq, ids, ids, hnodes]
    simp [WitnessNode.mark]
  · refine .inr ⟨hid, ?_⟩
    rw [heq, ids, ids]
    simp

/-- Mentioning a node adds its name, if it is new. -/
theorem WellFormed.addNode_mem_ids (h : g.WellFormed) :
    id' ∈ (g.addNode id isEntry isSink).ids ↔ id' ∈ g.ids ∨ id' = id := by
  rcases h.addNode_ids id isEntry isSink with ⟨hid, heq⟩ | ⟨-, heq⟩
  · rw [heq]
    constructor
    · exact .inl
    · rintro (h | rfl) <;> assumption
  · rw [heq, List.mem_append, List.mem_singleton]

/-- Mentioning a node removes none. -/
theorem addNode_length (g : WitnessGraph) (id : String) (isEntry isSink : Bool) :
    g.nodes.length ≤ (g.addNode id isEntry isSink).nodes.length := by
  unfold addNode
  split <;> simp

/-- It keeps the names of all others. -/
theorem WellFormed.addNode_idOf (h : g.WellFormed) (hi : i < g.nodes.length) :
    (g.addNode id isEntry isSink).idOf i = g.idOf i := by
  have hold := getElem?_ids hi
  have hnew := getElem?_ids (Nat.lt_of_lt_of_le hi (addNode_length g id isEntry isSink))
  rcases h.addNode_ids id isEntry isSink with ⟨-, heq⟩ | ⟨-, heq⟩
  · rw [heq, hold] at hnew
    exact (Option.some.inj hnew).symm
  · rw [heq, List.getElem?_append_left (by rwa [length_ids]), hold] at hnew
    exact (Option.some.inj hnew).symm

/-- A marker is there if it was there, or if the mention brings it. -/
theorem WellFormed.addNode_isEntryId (h : g.WellFormed) :
    (g.addNode id isEntry isSink).isEntryId id' =
      (g.isEntryId id' || (id == id' && isEntry)) := by
  rcases h.addNode_cases id isEntry isSink with ⟨before, n, after, hnodes, rfl, heq⟩ | ⟨-, heq⟩
  · rw [heq, isEntryId, isEntryId, hnodes]
    simp only [WitnessNode.mark, List.any_append, List.any_cons, Bool.and_or_distrib_left]
    ac_rfl
  · rw [heq, isEntryId, isEntryId]
    simp

/-- It makes a node a sink if it is mentioned as one. -/
theorem WellFormed.addNode_isSinkId (h : g.WellFormed) :
    (g.addNode id isEntry isSink).isSinkId id' =
      (g.isSinkId id' || (id == id' && isSink)) := by
  rcases h.addNode_cases id isEntry isSink with ⟨before, n, after, hnodes, rfl, heq⟩ | ⟨-, heq⟩
  · rw [heq, isSinkId, isSinkId, hnodes]
    simp only [WitnessNode.mark, List.any_append, List.any_cons, Bool.and_or_distrib_left]
    ac_rfl
  · rw [heq, isSinkId, isSinkId]
    simp

theorem getElem?_concat_eq_some {α : Type} {xs : List α} {a b : α} :
    (xs ++ [a])[i]? = some b ↔ xs[i]? = some b ∨ (i = xs.length ∧ a = b) := by
  rw [List.getElem?_append]
  split
  next hlt => simp [Nat.ne_of_lt hlt]
  next hge =>
    have hnone : xs[i]? = none := List.getElem?_eq_none (Nat.le_of_not_lt hge)
    have hlast : i - xs.length = 0 ↔ i = xs.length := by omega
    simp [hnone, List.getElem?_singleton, hlast]

/-- A new state comes last and is entered with that number, which no other state has. -/
theorem WellFormed.addNode_numbered (h : g.WellFormed) (id' : String) (i : Nat) :
    (g.addNode id isEntry isSink).index? id' = some i ↔
      (g.addNode id isEntry isSink).ids[i]? = some id' := by
  rcases h.addNode_cases id isEntry isSink with ⟨before, n, after, hnodes, -, heq⟩ | ⟨hid, heq⟩
  · have hids : (g.addNode id isEntry isSink).ids = g.ids := by
      rw [heq, ids, ids, hnodes]
      simp [WitnessNode.mark]
    rw [hids, ← h.numbered id' i, heq]
    rfl
  have hids : (g.addNode id isEntry isSink).ids = g.ids ++ [id] := by
    rw [heq, ids, ids]
    simp
  rw [hids, getElem?_concat_eq_some, ← h.numbered id' i, heq, index?, index?, List.lookup_cons,
    ← length_ids]
  by_cases hnew : id' = id
  · subst hnew
    have hnone : g.numbers.lookup id' ≠ some i :=
      fun hi => hid (List.mem_of_getElem? ((h.numbered id' i).1 hi))
    simp [hnone, eq_comm]
  · have hother : (id' == id) = false := by simpa using hnew
    simp [hother, Ne.symm hnew]

/-- It keeps a graph well formed. -/
theorem WellFormed.addNode (h : g.WellFormed) : (g.addNode id isEntry isSink).WellFormed := by
  constructor
  · exact h.addNode_numbered
  · rw [addNode_links]
    intro l hl
    obtain ⟨hsource, htarget⟩ := h.inRange l hl
    have hle := addNode_length g id isEntry isSink
    exact ⟨Nat.lt_of_lt_of_le hsource hle, Nat.lt_of_lt_of_le htarget hle⟩

/-- It keeps the edges between the names. -/
theorem WellFormed.addNode_namedLinks (h : g.WellFormed) :
    (g.addNode id isEntry isSink).namedLinks = g.namedLinks := by
  rw [namedLinks, namedLinks, addNode_links]
  refine List.map_congr_left ?_
  intro l hl
  obtain ⟨hsource, htarget⟩ := h.inRange l hl
  rw [named, named, h.addNode_idOf hsource, h.addNode_idOf htarget]

/-! ### One more mention -/

variable {mentions : List Mention} {kind : Option String}

/-- A graph that holds what was mentioned holds one more node. -/
theorem Holds.addNode (h : g.Holds mentions) :
    (g.addNode id isEntry isSink).Holds (mentions ++ [.node id isEntry isSink]) where
  toWellFormed := h.toWellFormed.addNode
  mem_ids id' := by
    rw [h.addNode_mem_ids, h.mem_ids]
    simp [or_and_right, exists_or, Mention.ids]
  isEntryId id' := by
    rw [h.addNode_isEntryId, h.isEntryId]
    simp [Mention.marksEntry]
  isSinkId id' := by
    rw [h.addNode_isSinkId, h.isSinkId]
    simp [Mention.marksSink]
  namedLinks := by
    rw [h.toWellFormed.addNode_namedLinks, h.namedLinks]
    simp [Mention.link?]

/-- And one more edge: its ends are mentioned first, so that they have indices. -/
theorem Holds.addEdge {source target : String} {edge : WitnessEdge} (h : g.Holds mentions) :
    (g.addEdge source target edge).Holds (mentions ++ [.edge source target edge]) := by
  -- the ends are mentioned first, without markers
  obtain ⟨ends, hends⟩ : ∃ ends, ends = (g.addNode source false false).addNode target false false :=
    ⟨_, rfl⟩
  have hold : ends.Holds (mentions ++ [.node source false false] ++ [.node target false false]) :=
    hends ▸ h.addNode.addNode
  have hsource : source ∈ ends.ids :=
    (hold.mem_ids source).2 ⟨.node source false false, by simp, by simp [Mention.ids]⟩
  have htarget : target ∈ ends.ids :=
    (hold.mem_ids target).2 ⟨.node target false false, by simp, by simp [Mention.ids]⟩
  obtain ⟨i, hi, hilt, hid⟩ := hold.exists_index_of_mem hsource
  obtain ⟨j, hj, hjlt, hjd⟩ := hold.exists_index_of_mem htarget
  have heq : g.addEdge source target edge = { ends with links := ends.links ++ [⟨i, j, edge⟩] } := by
    rw [WitnessGraph.addEdge, ← hends, hi, hj]
    rfl
  rw [heq]
  refine { numbered := hold.numbered, inRange := ?_, mem_ids := ?_, isEntryId := ?_,
           isSinkId := ?_, namedLinks := ?_ }
  · intro l hl
    rcases List.mem_append.1 hl with hl | hl
    · exact hold.inRange l hl
    · rw [List.mem_singleton.1 hl]
      exact ⟨hilt, hjlt⟩
  · intro id
    refine (hold.mem_ids id).trans ?_
    simp [or_and_right, exists_or, Mention.ids]
  · intro id
    refine (hold.isEntryId id).trans ?_
    simp [Mention.marksEntry]
  · intro id
    refine (hold.isSinkId id).trans ?_
    simp [Mention.marksSink]
  · have hnew : ends.named ⟨i, j, edge⟩ = ⟨source, target, edge⟩ := by
      rw [named, hid, hjd]
    rw [show WitnessGraph.namedLinks { ends with links := ends.links ++ [⟨i, j, edge⟩] }
        = (ends.links ++ [WitnessLink.mk i j edge]).map ends.named from rfl, List.map_append,
      show ends.links.map ends.named = ends.namedLinks from rfl, hold.namedLinks,
      List.map_singleton, hnew]
    simp [Mention.link?, List.filterMap_cons]

/-- One more mention adds to what a graph holds just what it says. -/
theorem Holds.mention (h : g.Holds mentions) (m : Mention) :
    (g.mention m).Holds (mentions ++ [m]) := by
  cases m with
  | node => exact h.addNode
  | edge => exact h.addEdge

/-- The empty graph holds nothing. -/
theorem holds_empty : (empty kind).Holds [] where
  numbered := fun id i => by simp [index?, ids, empty]
  inRange := fun l hl => nomatch hl
  mem_ids := by simp [ids, empty]
  isEntryId := fun id => rfl
  isSinkId := fun id => rfl
  namedLinks := rfl

/-- So a graph holds all that was mentioned, by induction on the mentions. -/
theorem Holds.foldl (h : g.Holds mentions) (more : List Mention) :
    (more.foldl WitnessGraph.mention g).Holds (mentions ++ more) := by
  induction more generalizing g mentions with
  | nil => rwa [List.append_nil]
  | cons m more ih =>
    rw [List.append_cons]
    exact ih (h.mention m)

/-- A graph that is built by mentions holds what they say. -/
theorem holds_built (kind : Option String) (mentions : List Mention) :
    (built kind mentions).Holds mentions :=
  holds_empty.foldl mentions

/-- Mentions do not change the kind. -/
theorem kind_mention (m : Mention) : (g.mention m).kind = g.kind := by
  have hnode (g : WitnessGraph) (id : String) (isEntry isSink : Bool) :
      (g.addNode id isEntry isSink).kind = g.kind := by
    unfold addNode
    split <;> rfl
  cases m with
  | node => exact hnode ..
  | edge => exact (hnode ..).trans (hnode ..)

/-- Mentions do not change the kind of a graph. -/
theorem kind_built (kind : Option String) (mentions : List Mention) :
    (built kind mentions).kind = kind := by
  suffices h : ∀ g : WitnessGraph, (mentions.foldl mention g).kind = g.kind from h (empty kind)
  induction mentions with
  | nil => exact fun g => rfl
  | cons m mentions ih => exact fun g => (ih _).trans (kind_mention m)

end WitnessGraph

end WitnessReplay
