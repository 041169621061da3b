import Mathlib.Data.List.Perm.Basic
import WitnessReplay.Proofs.Witness.Chain
import WitnessReplay.Witness.Transition

/-!
# Graphs that differ in numbers and names

Two graphs may number their states and transitions in different orders and call their states by
different ids, and still be one witness. `Corresponds` says so in terms of ids: up to a renaming
they have the same states with the same markers and, in some order, the same transitions.

The walks through two such graphs go side by side (`Corresponds.walk`): at states of corresponding
ids the same transitions lead on, and a state was visited in one if it was visited in the other. So
both give the same steps, or the same error up to the name in it (`Corresponds.transitions`).
-/

namespace WitnessReplay

/-- An error with the ids of states in it renamed. -/
def WitnessError.renamed (f : String → String) : WitnessError → WitnessError
  | hasBranching id => hasBranching (f id)
  | hasCycle id => hasCycle (f id)
  | e => e

/-- Errors that are the same up to a renaming of states. Where attributes are no numbers, either may
name another one. -/
inductive SameError (f : String → String) : WitnessError → WitnessError → Prop
  | renamed (e : WitnessError) : SameError f e (e.renamed f)
  | attribute {name value name' value' : String} :
      SameError f (.invalidAttribute name value) (.invalidAttribute name' value')

/-- Outcomes that are the same up to a renaming of states in their errors. -/
inductive SameOutcome {α : Type} (f : String → String) :
    Except WitnessError α → Except WitnessError α → Prop
  | ok (a : α) : SameOutcome f (.ok a) (.ok a)
  | error {e e' : WitnessError} (h : SameError f e e') : SameOutcome f (.error e) (.error e')

theorem SameOutcome.map {α β : Type} {f : String → String} {r r' : Except WitnessError α}
    (h : SameOutcome f r r') (g : α → β) : SameOutcome f (r.map g) (r'.map g) := by
  cases h with
  | ok a => exact .ok (g a)
  | error h => exact .error h

/-- A transition with its states renamed. -/
def NamedLink.renamed (f : String → String) (l : NamedLink) : NamedLink :=
  ⟨f l.source, f l.target, l.edge⟩

namespace WitnessGraph

/-- Graphs that are the same up to the numbers of their states and transitions and to a renaming of
the states. -/
structure Corresponds (f : String → String) (g g' : WitnessGraph) : Prop where
  left : g.WellFormed
  right : g'.WellFormed
  kind : g'.kind = g.kind
  ids : g'.ids.Perm (g.ids.map f)
  isEntryId : ∀ id ∈ g.ids, g'.isEntryId (f id) = g.isEntryId id
  isSinkId : ∀ id ∈ g.ids, g'.isSinkId (f id) = g.isSinkId id
  namedLinks : g'.namedLinks.Perm (g.namedLinks.map (NamedLink.renamed f))

/-! ### From numbers to ids -/

variable {g g' : WitnessGraph} {i j number : Nat}

/-- The names of all states in order. -/
theorem map_idOf_range : (List.range g.nodes.length).map g.idOf = g.ids := by
  refine List.ext_getElem? fun i => ?_
  by_cases hi : i < g.nodes.length
  · rw [getElem?_ids hi, List.getElem?_map, List.getElem?_range hi]
    rfl
  · have hle : g.nodes.length ≤ i := Nat.le_of_not_lt hi
    rw [List.getElem?_eq_none (by simpa using hle),
      List.getElem?_eq_none (by rwa [length_ids])]

/-- What is asked of a state by its number can be asked by its id. -/
theorem WellFormed.any_node (h : g.WellFormed) (hi : i < g.nodes.length) (p : WitnessNode → Bool) :
    g.nodes[i]?.any p = g.nodes.any fun n => n.id == g.idOf i && p n := by
  rw [List.getElem?_eq_getElem hi, Option.any_some, Bool.eq_iff_iff, List.any_eq_true]
  have hid (k : Nat) (hk : k < g.nodes.length) : g.idOf k = g.nodes[k].id := by
    rw [idOf, List.getElem?_eq_getElem hk]
    rfl
  constructor
  · intro hp
    exact ⟨g.nodes[i], List.getElem_mem hi, by rw [hid i hi, hp]; simp⟩
  · rintro ⟨n, hn, hp⟩
    rw [Bool.and_eq_true, beq_iff_eq] at hp
    obtain ⟨k, hk, rfl⟩ := List.mem_iff_getElem.1 hn
    obtain rfl := h.idOf_injective hk hi (by rw [hid k hk, hp.1])
    exact hp.2

/-- Whether a state is a sink is told by its name. -/
theorem WellFormed.isSinkAt_eq (h : g.WellFormed) (hi : i < g.nodes.length) :
    g.isSinkAt i = g.isSinkId (g.idOf i) :=
  h.any_node hi WitnessNode.isSink

/-- The ends of a transition are names of states. -/
theorem WellFormed.mem_namedLinks (h : g.WellFormed) {l : NamedLink} (hl : l ∈ g.namedLinks) :
    l.source ∈ g.ids ∧ l.target ∈ g.ids := by
  obtain ⟨link, hlink, rfl⟩ := List.mem_map.1 hl
  obtain ⟨hsource, htarget⟩ := h.inRange link hlink
  exact ⟨idOf_mem_ids hsource, idOf_mem_ids htarget⟩

/-- The transitions that lead on, by the ids of their states. -/
theorem WellFormed.map_onward (h : g.WellFormed) (hi : i < g.nodes.length) :
    (g.onward i).map (fun o => g.named o.1)
      = g.namedLinks.filter fun l => l.source == g.idOf i && !g.isSinkId l.target := by
  have hnumbers : (g.onward i).map Prod.fst
      = g.links.filter fun l => l.source == i && !g.isSinkAt l.target := by
    rw [onward, ← List.zipIdx_map_fst 0 g.links, List.filter_map, List.zipIdx_map_fst]
    rfl
  rw [show (fun o : WitnessLink × Nat => g.named o.1) = g.named ∘ Prod.fst from rfl,
    ← List.map_map, hnumbers, show g.namedLinks = g.links.map g.named from rfl, List.filter_map]
  congr 1
  refine List.filter_congr ?_
  intro l hl
  obtain ⟨hsource, htarget⟩ := h.inRange l hl
  have hsame : (l.source == i) = (g.idOf l.source == g.idOf i) := by
    rw [Bool.eq_iff_iff, beq_iff_eq, beq_iff_eq]
    exact ⟨fun heq => heq ▸ rfl, h.idOf_injective hsource hi⟩
  rw [h.isSinkAt_eq htarget, hsame]
  rfl

/-- The ids of the states where the path may begin. -/
def candidateIds (g : WitnessGraph) : List String :=
  let marked := g.ids.filter g.isEntryId
  if marked.isEmpty then
    g.ids.filter fun id =>
      !(g.namedLinks.any (·.target == id)) && g.namedLinks.any (·.source == id)
  else marked

/-- The candidates for the entry, by their names. -/
theorem WellFormed.map_entryCandidates (h : g.WellFormed) :
    g.entryCandidates.map g.idOf = g.candidateIds := by
  -- a test of numbers that is a test of ids picks the same states
  have hfilter (p : Nat → Bool) (q : String → Bool)
      (hpq : ∀ i < g.nodes.length, p i = q (g.idOf i)) :
      ((List.range g.nodes.length).filter p).map g.idOf = g.ids.filter q := by
    rw [← map_idOf_range, List.filter_map]
    congr 1
    refine List.filter_congr ?_
    intro i hi
    exact hpq i (List.mem_range.1 hi)
  have hlinks (i : Nat) (hi : i < g.nodes.length) (p : WitnessLink → Nat)
      (hp : ∀ l ∈ g.links, p l < g.nodes.length) :
      g.links.any (p · == i) = g.links.any fun l => g.idOf (p l) == g.idOf i := by
    rw [Bool.eq_iff_iff, List.any_eq_true, List.any_eq_true]
    refine exists_congr fun l => and_congr_right fun hl => ?_
    rw [beq_iff_eq, beq_iff_eq]
    exact ⟨fun heq => heq ▸ rfl, h.idOf_injective (hp l hl) hi⟩
  have hmarked := hfilter (fun i => g.nodes[i]?.any WitnessNode.isEntry) g.isEntryId
    fun i hi => h.any_node hi WitnessNode.isEntry
  unfold entryCandidates candidateIds
  dsimp only
  rw [← hmarked, List.isEmpty_map]
  split
  · refine hfilter _ _ fun i hi => ?_
    rw [hlinks i hi WitnessLink.target fun l hl => (h.inRange l hl).2,
      hlinks i hi WitnessLink.source fun l hl => (h.inRange l hl).1, namedLinks, List.any_map,
      List.any_map]
    rfl
  · rfl

/-! ### States that correspond -/

namespace Corresponds

variable {f : String → String}

theorem injOn (h : Corresponds f g g') {a b : String} (ha : a ∈ g.ids) (hb : b ∈ g.ids)
    (heq : f a = f b) : a = b := by
  have hnodup : (g.ids.map f).Nodup := h.ids.nodup_iff.1 h.right.distinct
  exact List.inj_on_of_nodup_map hnodup ha hb heq

/-- Corresponding graphs have the same candidates, so there are as many of them. -/
theorem candidateIds (h : Corresponds f g g') :
    g'.candidateIds.Perm (g.candidateIds.map f) := by
  have hfilter (p q : String → Bool) (hpq : ∀ id ∈ g.ids, q (f id) = p id) :
      (g'.ids.filter q).Perm ((g.ids.filter p).map f) := by
    refine (h.ids.filter q).trans ?_
    rw [List.filter_map]
    refine List.Perm.of_eq (congrArg (List.map f) (List.filter_congr ?_))
    exact hpq
  have hlinks (id : String) (hid : id ∈ g.ids) (p : NamedLink → String)
      (hp : ∀ l ∈ g.namedLinks, p l ∈ g.ids) (hf : ∀ l, p (l.renamed f) = f (p l)) :
      g'.namedLinks.any (p · == f id) = g.namedLinks.any (p · == id) := by
    rw [h.namedLinks.any_eq, List.any_map, Bool.eq_iff_iff, List.any_eq_true, List.any_eq_true]
    refine exists_congr fun l => and_congr_right fun hl => ?_
    rw [Function.comp_apply, hf, beq_iff_eq, beq_iff_eq]
    exact ⟨h.injOn (hp l hl) hid, congrArg f⟩
  have hmarked := hfilter g.isEntryId g'.isEntryId h.isEntryId
  unfold WitnessGraph.candidateIds
  dsimp only
  rw [hmarked.isEmpty_eq, List.isEmpty_map]
  split
  · refine hfilter _ _ fun id hid => ?_
    rw [hlinks id hid NamedLink.target (fun l hl => (h.left.mem_namedLinks hl).2) fun l => rfl,
      hlinks id hid NamedLink.source (fun l hl => (h.left.mem_namedLinks hl).1) fun l => rfl]
  · exact hmarked

/-- At states of corresponding ids the same transitions lead on. -/
theorem onward (h : Corresponds f g g') {i' : Nat} (hi : i < g.nodes.length)
    (hi' : i' < g'.nodes.length) (heq : g'.idOf i' = f (g.idOf i)) :
    ((g'.onward i').map fun o => g'.named o.1).Perm
      ((g.onward i).map fun o => (g.named o.1).renamed f) := by
  rw [h.right.map_onward hi', show (fun o : WitnessLink × Nat => (g.named o.1).renamed f)
    = NamedLink.renamed f ∘ fun o => g.named o.1 from rfl, ← List.map_map, h.left.map_onward hi]
  refine (h.namedLinks.filter _).trans ?_
  rw [List.filter_map]
  refine List.Perm.of_eq (congrArg _ (List.filter_congr ?_))
  intro l hl
  obtain ⟨hsource, htarget⟩ := h.left.mem_namedLinks hl
  rw [Function.comp_apply, NamedLink.renamed, h.isSinkId _ htarget, heq]
  congr 1
  rw [Bool.eq_iff_iff, beq_iff_eq, beq_iff_eq]
  exact ⟨h.injOn hsource (idOf_mem_ids hi), congrArg f⟩

end Corresponds

/-! ### Walks side by side -/

/-- What the transitions of some numbers say. -/
def edgesOf (g : WitnessGraph) (path : List Nat) : List WitnessEdge :=
  path.filterMap fun number => g.links[number]?.map WitnessLink.edge

/-- States of two graphs whose ids correspond. -/
structure SameState (f : String → String) (g g' : WitnessGraph) (i i' : Nat) : Prop where
  left : i < g.nodes.length
  right : i' < g'.nodes.length
  id : g'.idOf i' = f (g.idOf i)

namespace Corresponds

variable {f : String → String} {i' : Nat}

/-- States that are one in one graph are one in the other. -/
theorem same_iff (h : Corresponds f g g') {j j' : Nat} (hi : SameState f g g' i i')
    (hj : SameState f g g' j j') : i = j ↔ i' = j' := by
  constructor
  · rintro rfl
    exact h.right.idOf_injective hi.right hj.right (hi.id.trans hj.id.symm)
  · rintro rfl
    refine h.left.idOf_injective hi.left hj.left ?_
    exact h.injOn (idOf_mem_ids hi.left) (idOf_mem_ids hj.left) (hi.id.symm.trans hj.id)

/-- Where one transition leads on in one graph, one does in the other: with the same things to say,
and to the corresponding state. -/
theorem onward_singleton (h : Corresponds f g g') (hi : SameState f g g' i i') {l : WitnessLink}
    (heq : g.onward i = [(l, number)]) :
    ∃ l' number', g'.onward i' = [(l', number')] ∧ SameState f g g' l.target l'.target ∧
      g.links[number]? = some l ∧ g'.links[number']? = some l' ∧ l'.edge = l.edge := by
  have hperm := h.onward hi.left hi.right hi.id
  rw [heq, List.map_singleton, List.perm_singleton, List.map_eq_singleton_iff] at hperm
  obtain ⟨⟨l', number'⟩, heq', hnamed⟩ := hperm
  have hmem : (l, number) ∈ g.onward i := by rw [heq]; exact List.mem_singleton_self _
  have hmem' : (l', number') ∈ g'.onward i' := by rw [heq']; exact List.mem_singleton_self _
  have hlink := (mem_onward.1 hmem).1
  have hlink' := (mem_onward.1 hmem').1
  refine ⟨l', number', heq', ⟨?_, ?_, ?_⟩, hlink, hlink', congrArg NamedLink.edge hnamed⟩
  · exact (h.left.inRange l (List.mem_of_getElem? hlink)).2
  · exact (h.right.inRange l' (List.mem_of_getElem? hlink')).2
  · exact congrArg NamedLink.target hnamed

/-- **Walks from states of the same name have the same outcome.** The induction is on the states
that are left: both walks take a step to states of one name, and leave out one state each. -/
theorem walk (h : Corresponds f g g') {i i' : Nat} {unvisited unvisited' : List Nat}
    (hi : SameState f g g' i i') (hnodup : unvisited.Nodup) (hnodup' : unvisited'.Nodup)
    (hsame : ∀ k k', SameState f g g' k k' → (k ∈ unvisited ↔ k' ∈ unvisited')) :
    SameOutcome f ((g.walk unvisited i).map g.edgesOf)
      ((g'.walk unvisited' i').map g'.edgesOf) := by
  have hperm := h.onward hi.left hi.right hi.id
  match heq : g.onward i with
  | [] =>
    rw [heq, List.map_nil, List.perm_nil, List.map_eq_nil_iff] at hperm
    rw [walk_nil heq, walk_nil hperm]
    exact .ok []
  | [(l, number)] =>
    obtain ⟨l', number', heq', hnext, hlink, hlink', hedge⟩ := h.onward_singleton hi heq
    rw [walk_singleton heq, walk_singleton heq']
    by_cases hmem : l.target ∈ unvisited
    · have hmem' := (hsame _ _ hnext).1 hmem
      rw [if_pos hmem, if_pos hmem']
      have hrest := h.walk hnext (hnodup.erase l.target) (hnodup'.erase l'.target) ?_
      · -- the same edge comes in front of both rests
        have hfront := hrest.map (l.edge :: ·)
        revert hfront
        cases g.walk (unvisited.erase l.target) l.target <;>
          cases g'.walk (unvisited'.erase l'.target) l'.target <;>
          simp [Except.map, edgesOf, hlink, hlink', hedge]
      · intro k k' hk
        rw [hnodup.mem_erase_iff, hnodup'.mem_erase_iff, hsame k k' hk]
        rw [ne_eq, ne_eq, h.same_iff hk hnext]
    · have hmem' : l'.target ∉ unvisited' := fun hmem' => hmem ((hsame _ _ hnext).2 hmem')
      rw [if_neg hmem, if_neg hmem', hnext.id]
      exact .error (.renamed (.hasCycle (g.idOf l.target)))
  | first :: second :: rest =>
    have hlength := hperm.length_eq
    rw [List.length_map, List.length_map, heq, List.length_cons, List.length_cons] at hlength
    match heq' : g'.onward i' with
    | [] => simp [heq'] at hlength
    | [_] => simp [heq'] at hlength
    | first' :: second' :: rest' =>
      rw [walk_several heq, walk_several heq', hi.id]
      exact .error (.renamed (.hasBranching (g.idOf i)))
termination_by unvisited.length
decreasing_by
  have := List.length_erase_of_mem hmem
  have := List.length_pos_of_mem hmem
  omega

/-! ### Outcomes -/

/-- The path begins at corresponding states, or nowhere for the same reason. -/
theorem entryNode (h : Corresponds f g g') :
    (∃ entry entry', g.entryNode = .ok entry ∧ g'.entryNode = .ok entry' ∧
      SameState f g g' entry entry') ∨
    ∃ e, g.entryNode = .error e ∧ g'.entryNode = .error (e.renamed f) := by
  have hperm := h.candidateIds
  rw [← h.left.map_entryCandidates, ← h.right.map_entryCandidates] at hperm
  have hlength := hperm.length_eq
  simp only [List.length_map] at hlength
  -- there are as many candidates in both graphs, so the cases match up
  match hentries : g.entryCandidates, hentries' : g'.entryCandidates with
  | [], [] =>
    refine .inr ⟨.noEntryNode, ?_, ?_⟩
    · rw [WitnessGraph.entryNode, hentries]
    · rw [WitnessGraph.entryNode, hentries']
      rfl
  | [entry], [entry'] =>
    refine .inl ⟨entry, entry', ?_, ?_, ?_, ?_, ?_⟩
    · rw [WitnessGraph.entryNode, hentries]
    · rw [WitnessGraph.entryNode, hentries']
    · exact (mem_entryCandidates.1 (by rw [hentries]; exact List.mem_singleton_self _)).lt
    · exact (mem_entryCandidates.1 (by rw [hentries']; exact List.mem_singleton_self _)).lt
    · rw [hentries, hentries'] at hperm
      exact List.cons.inj (List.perm_singleton.1 hperm) |>.1
  | first :: second :: rest, first' :: second' :: rest' =>
    rw [hentries, hentries'] at hlength
    refine .inr ⟨.multipleEntryNodes (first :: second :: rest).length, ?_, ?_⟩
    · rw [WitnessGraph.entryNode, hentries]
    · rw [WitnessGraph.entryNode, hentries', ← hlength]
      rfl
  | [], _ :: _ | _ :: _, [] | [_], _ :: _ :: _ | _ :: _ :: _, [_] =>
    simp [hentries, hentries'] at hlength

/-- What is wrong with the kind of a graph names no state. -/
theorem ensureViolation (h : Corresponds f g g') :
    g.ensureViolation = .ok () ∧ g'.ensureViolation = .ok () ∨
    ∃ e, g.ensureViolation = .error e ∧ g'.ensureViolation = .error (e.renamed f) := by
  unfold WitnessGraph.ensureViolation
  rw [h.kind]
  split
  next => exact .inr ⟨_, rfl, rfl⟩
  next kind _ =>
    dsimp only
    split
    next => exact .inl ⟨rfl, rfl⟩
    next => exact .inr ⟨_, rfl, rfl⟩

/-- So the paths that are extracted are the same, with the same transitions, or fail alike. -/
theorem extractPath (h : Corresponds f g g') :
    SameOutcome f (g.extractPath.map g.edgesOf) (g'.extractPath.map g'.edgesOf) := by
  unfold WitnessGraph.extractPath
  rcases h.ensureViolation with ⟨hkind, hkind'⟩ | ⟨e, hkind, hkind'⟩
  · rcases h.entryNode with ⟨entry, entry', hentry, hentry', hsame⟩ | ⟨e, hentry, hentry'⟩
    · rw [hkind, hkind', hentry, hentry']
      refine h.walk hsame (List.nodup_range.erase entry) (List.nodup_range.erase entry') ?_
      intro k k' hk
      rw [List.nodup_range.mem_erase_iff, List.nodup_range.mem_erase_iff, List.mem_range,
        List.mem_range, ne_eq, ne_eq, h.same_iff hk hsame]
      simp [hk.left, hk.right]
    · rw [hkind, hkind', hentry, hentry']
      exact .error (.renamed e)
  · rw [hkind, hkind']
    exact .error (.renamed e)

/-- The steps of graphs that correspond are the same. -/
theorem transitions (h : Corresponds f g g') (source : SourceText) :
    SameOutcome f (g.transitions source) (g'.transitions source) := by
  have heq (g : WitnessGraph) : g.transitions source
      = (g.extractPath.map g.edgesOf).map (List.map (Transition.resolve source)) := by
    rw [WitnessGraph.transitions]
    cases g.extractPath with
    | error e => rfl
    | ok path => simp [Except.map, edgesOf, List.map_filterMap, Function.comp_def]
  rw [heq, heq]
  exact h.extractPath.map _

end Corresponds

end WitnessGraph

end WitnessReplay
