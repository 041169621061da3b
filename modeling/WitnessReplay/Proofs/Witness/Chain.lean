import Mathlib.Data.Set.Card
import WitnessReplay.Proofs.Witness.Mention
import WitnessReplay.Witness.Path

/-!
# The path of a witness is its chain

What `WitnessGraph.extractPath` finds is said here without a walk. `Chain` is the way from an entry
along transitions each of which is the only one that leads on from its state, to states where it has
not been. A chain cannot be longer than there are states, so every chain can be extended to one that
goes no further (`Chain.exists_last`): because nothing leads on, or more than one transition does,
or the only one closes a cycle. Which of the three it is decides what is extracted (`Extracted`).

A chain also fixes what the walk does up to its last state (`Chain.walk`). So there is a chain that
is the path or the fault, and the walk follows it: `extractPath_eq_iff`.
-/

namespace WitnessReplay.WitnessGraph

/-! ### What leads on from a state -/

/-- A transition from one state to another one that is no sink. -/
def LeadsOn (g : WitnessGraph) (i number j : Nat) : Prop :=
  ∃ edge, g.links[number]? = some ⟨i, j, edge⟩ ∧ g.isSinkAt j = false

/-- A transition that leads on, where no other one does. -/
structure LeadsOnly (g : WitnessGraph) (i number j : Nat) : Prop where
  leads : g.LeadsOn i number j
  only : ∀ number' j', g.LeadsOn i number' j' → number' = number

/-- A state where nothing leads on. -/
def Ends (g : WitnessGraph) (i : Nat) : Prop :=
  ∀ number j, ¬ g.LeadsOn i number j

/-- A state where more than one transition leads on, if only to one and the same state. -/
def Branches (g : WitnessGraph) (i : Nat) : Prop :=
  ∃ number j number' j', number ≠ number' ∧ g.LeadsOn i number j ∧ g.LeadsOn i number' j'

/-- The way from an entry along the only transitions that lead on, each to a state where the way has
not been: the numbers of the transitions, the states that were visited, and the last of them. -/
inductive Chain (g : WitnessGraph) (entry : Nat) : List Nat → List Nat → Nat → Prop
  | start : Chain g entry [] [entry] entry
  | step {path states : List Nat} {last number next : Nat} (h : Chain g entry path states last)
      (hleads : g.LeadsOnly last number next) (hnew : next ∉ states) :
      Chain g entry (path ++ [number]) (states ++ [next]) next

/-! ### Where a path begins -/

/-- A state where the path may begin: one that is marked as entry, or, if none is, one that
transitions leave and none enters. -/
def IsCandidate (g : WitnessGraph) (i : Nat) : Prop :=
  (∃ n, g.nodes[i]? = some n ∧ n.isEntry) ∨
    ((∀ n ∈ g.nodes, n.isEntry = false) ∧ i < g.nodes.length ∧
      (∀ l ∈ g.links, l.target ≠ i) ∧ ∃ l ∈ g.links, l.source = i)

/-- The one state where the path may begin. -/
structure IsEntry (g : WitnessGraph) (i : Nat) : Prop where
  candidate : g.IsCandidate i
  only : ∀ j, g.IsCandidate j → j = i

/-- A graph that says of itself that it is a violation witness. -/
def IsViolation (g : WitnessGraph) : Prop :=
  ∃ kind, g.kind = some kind ∧ Text.trim kind.toList = "violation_witness".toList

/-- What is extracted from a graph: a chain that goes no further, or what is wrong. Of several
faults the kind comes first, then the entry, then what stops the chain. -/
inductive Extracted (g : WitnessGraph) : Except WitnessError (List Nat) → Prop
  | missingKind (h : g.kind = none) : Extracted g (.error .missingWitnessType)
  | wrongKind {kind : String} (h : g.kind = some kind)
      (hkind : Text.trim kind.toList ≠ "violation_witness".toList) :
      Extracted g (.error (.wrongWitnessKind (String.ofList (Text.trim kind.toList))))
  | noEntry (h : g.IsViolation) (hentry : ∀ i, ¬ g.IsCandidate i) :
      Extracted g (.error .noEntryNode)
  | severalEntries (h : g.IsViolation) (hentry : 2 ≤ {i | g.IsCandidate i}.ncard) :
      Extracted g (.error (.multipleEntryNodes {i | g.IsCandidate i}.ncard))
  | path (h : g.IsViolation) {entry : Nat} (hentry : g.IsEntry entry) {path states : List Nat}
      {last : Nat} (hchain : g.Chain entry path states last) (hlast : g.Ends last) :
      Extracted g (.ok path)
  | branching (h : g.IsViolation) {entry : Nat} (hentry : g.IsEntry entry)
      {path states : List Nat} {last : Nat} (hchain : g.Chain entry path states last)
      (hlast : g.Branches last) {n : WitnessNode} (hn : g.nodes[last]? = some n) :
      Extracted g (.error (.hasBranching n.id))
  | cycle (h : g.IsViolation) {entry : Nat} (hentry : g.IsEntry entry) {path states : List Nat}
      {last number next : Nat} (hchain : g.Chain entry path states last)
      (hleads : g.LeadsOnly last number next) (hbeen : next ∈ states) {n : WitnessNode}
      (hn : g.nodes[next]? = some n) : Extracted g (.error (.hasCycle n.id))

/-! ### The transitions out of a state -/

variable {g : WitnessGraph} {i j number : Nat}

/-- The way onward from a state is its transitions to states that are no sinks, each with its
number. -/
theorem mem_onward {l : WitnessLink} :
    (l, number) ∈ g.onward i ↔
      g.links[number]? = some l ∧ l.source = i ∧ g.isSinkAt l.target = false := by
  rw [onward, List.mem_filter, List.mk_mem_zipIdx_iff_getElem?]
  simp

/-- A transition leads on just if it is on the way onward. -/
theorem leadsOn_iff : g.LeadsOn i number j ↔ ∃ edge, (⟨i, j, edge⟩, number) ∈ g.onward i := by
  simp only [mem_onward, true_and, LeadsOn]

/-- No transition is on the way onward twice. -/
theorem nodup_onward : (g.onward i).Nodup := by
  have hnumbers : (g.links.zipIdx.map Prod.snd).Nodup := by
    rw [List.zipIdx_map_snd]
    exact List.nodup_range'
  exact hnumbers.of_map.filter _

/-- A path ends where no transition leads on. -/
theorem onward_eq_nil : g.onward i = [] ↔ g.Ends i := by
  constructor
  · intro h number j hleads
    obtain ⟨edge, hmem⟩ := leadsOn_iff.1 hleads
    rw [h] at hmem
    cases hmem
  · intro h
    rw [List.eq_nil_iff_forall_not_mem]
    intro ⟨⟨i', j, edge⟩, number⟩ hmem
    obtain ⟨-, rfl, -⟩ := mem_onward.1 hmem
    exact h number j (leadsOn_iff.2 ⟨edge, hmem⟩)

/-- Where one transition alone leads on, it is the way onward. -/
theorem LeadsOnly.onward_eq (h : g.LeadsOnly i number j) :
    ∃ edge, g.onward i = [(⟨i, j, edge⟩, number)] := by
  obtain ⟨edge, hmem⟩ := leadsOn_iff.1 h.leads
  refine ⟨edge, List.perm_singleton.1 ?_⟩
  rw [List.perm_ext_iff_of_nodup nodup_onward (List.nodup_singleton _)]
  intro ⟨⟨i', j', edge'⟩, number'⟩
  rw [List.mem_singleton]
  constructor
  · intro hmem'
    obtain ⟨hlink, rfl, -⟩ := mem_onward.1 hmem'
    obtain rfl := h.only number' j' (leadsOn_iff.2 ⟨edge', hmem'⟩)
    -- the number says which transition it is
    rw [(mem_onward.1 hmem).1] at hlink
    rw [Option.some.inj hlink]
  · rintro ⟨⟩
    exact hmem

/-- From every state either nothing leads on, or one transition does, or more than one. -/
theorem onward_cases (g : WitnessGraph) (i : Nat) :
    g.Ends i ∨ (∃ number j, g.LeadsOnly i number j) ∨ g.Branches i := by
  cases h : g.onward i with
  | nil => exact .inl (onward_eq_nil.1 h)
  | cons first rest =>
    have hleads : ∀ l number, (l, number) ∈ g.onward i → g.LeadsOn i number l.target := by
      intro ⟨i', j, edge⟩ number hmem
      obtain ⟨-, rfl, -⟩ := mem_onward.1 hmem
      exact leadsOn_iff.2 ⟨edge, hmem⟩
    obtain ⟨l, number⟩ := first
    cases rest with
    | nil =>
      refine .inr (.inl ⟨number, l.target, hleads l number (by simp [h]), ?_⟩)
      intro number' j' hleads'
      obtain ⟨edge', hmem⟩ := leadsOn_iff.1 hleads'
      rw [h, List.mem_singleton] at hmem
      exact congrArg Prod.snd hmem
    | cons second rest =>
      obtain ⟨l', number'⟩ := second
      refine .inr (.inr ⟨number, l.target, number', l'.target, ?_, hleads l number (by simp [h]),
        hleads l' number' (by simp [h])⟩)
      intro heq
      have hnodup := nodup_onward (g := g) (i := i)
      have hfirst : (l, number) ∈ g.onward i := by simp [h]
      have hsecond : (l', number') ∈ g.onward i := by simp [h]
      -- one number is one transition, and none is listed twice
      have hlink := (mem_onward.1 hsecond).1
      rw [← heq, (mem_onward.1 hfirst).1] at hlink
      rw [h, heq, Option.some.inj hlink] at hnodup
      simp at hnodup

/-- Where several transitions lead on, the way onward has two at least. -/
theorem Branches.onward_eq (h : g.Branches i) :
    ∃ first second rest, g.onward i = first :: second :: rest := by
  obtain ⟨number, j, number', j', hne, hleads, hleads'⟩ := h
  obtain ⟨edge, hmem⟩ := leadsOn_iff.1 hleads
  obtain ⟨edge', hmem'⟩ := leadsOn_iff.1 hleads'
  match h : g.onward i with
  | [] =>
    rw [h] at hmem
    cases hmem
  | [only] =>
    rw [h, List.mem_singleton] at hmem hmem'
    exact absurd (congrArg Prod.snd (hmem.trans hmem'.symm)) hne
  | first :: second :: rest => exact ⟨first, second, rest, rfl⟩

/-! ### The walk from a state -/

variable {unvisited : List Nat}

/-- A walk ends where there is no way onward. -/
theorem walk_nil (h : g.onward i = []) : g.walk unvisited i = .ok [] := by
  rw [walk, h]

/-- A walk goes on along the only transition, unless it leads back. -/
theorem walk_singleton {l : WitnessLink} (h : g.onward i = [(l, number)]) :
    g.walk unvisited i =
      if l.target ∈ unvisited then
        (g.walk (unvisited.erase l.target) l.target).map (number :: ·)
      else .error (.hasCycle (g.idOf l.target)) := by
  rw [walk, h]
  dsimp only
  split
  · cases g.walk (unvisited.erase l.target) l.target <;> rfl
  · rfl

/-- A walk fails where there are two ways onward. -/
theorem walk_several {first second : WitnessLink × Nat} {rest : List (WitnessLink × Nat)}
    (h : g.onward i = first :: second :: rest) :
    g.walk unvisited i = .error (.hasBranching (g.idOf i)) := by
  rw [walk, h]

theorem LeadsOnly.walk_eq (h : g.LeadsOnly i number j) :
    g.walk unvisited i =
      if j ∈ unvisited then (g.walk (unvisited.erase j) j).map (number :: ·)
      else .error (.hasCycle (g.idOf j)) := by
  obtain ⟨edge, heq⟩ := h.onward_eq
  exact walk_singleton heq

theorem Branches.walk_eq (h : g.Branches i) :
    g.walk unvisited i = .error (.hasBranching (g.idOf i)) := by
  obtain ⟨first, second, rest, heq⟩ := h.onward_eq
  exact walk_several heq

/-! ### Chains -/

variable {entry last : Nat} {path states : List Nat}

/-- A transition leads to a state of the graph. -/
theorem LeadsOn.target_lt (h : g.LeadsOn i number j) (hg : g.WellFormed) :
    j < g.nodes.length := by
  obtain ⟨edge, hlink, -⟩ := h
  exact (hg.inRange _ (List.mem_of_getElem? hlink)).2

/-- No state is on a chain twice. -/
theorem Chain.nodup (h : g.Chain entry path states last) : states.Nodup := by
  induction h with
  | start => exact List.nodup_singleton _
  | step h hleads hnew ih =>
    rw [← List.concat_eq_append]
    exact ih.concat hnew

/-- All states of a chain are states of the graph. -/
theorem Chain.inRange (h : g.Chain entry path states last) (hg : g.WellFormed)
    (hentry : entry < g.nodes.length) : ∀ k ∈ states, k < g.nodes.length := by
  induction h with
  | start =>
    intro k hk
    rwa [List.mem_singleton.1 hk]
  | step h hleads hnew ih =>
    intro k hk
    rcases List.mem_append.1 hk with hk | hk
    · exact ih k hk
    · rw [List.mem_singleton.1 hk]
      exact hleads.leads.target_lt hg

/-- The last state of a chain is one of its states. -/
theorem Chain.last_mem (h : g.Chain entry path states last) : last ∈ states := by
  cases h <;> simp

/-- A chain has no more states than the graph. -/
theorem Chain.length_le (h : g.Chain entry path states last) (hg : g.WellFormed)
    (hentry : entry < g.nodes.length) : states.length ≤ g.nodes.length := by
  have hsub : states ⊆ List.range g.nodes.length := by
    intro k hk
    exact List.mem_range.2 (h.inRange hg hentry k hk)
  have hle := h.nodup.length_le_of_subset hsub
  rwa [List.length_range] at hle

/-- What stops a chain: nothing leads on, or more than one transition does, or the only one closes a
cycle. -/
def Stops (g : WitnessGraph) (states : List Nat) (last : Nat) : Prop :=
  g.Ends last ∨ g.Branches last ∨ ∃ number next, g.LeadsOnly last number next ∧ next ∈ states

/-- Every chain goes on to where it stops, since there are not more states than there are. -/
theorem Chain.exists_last {path states : List Nat} {last : Nat}
    (h : g.Chain entry path states last) (hg : g.WellFormed) (hentry : entry < g.nodes.length) :
    ∃ path' states' last', g.Chain entry path' states' last' ∧ g.Stops states' last' := by
  rcases g.onward_cases last with hends | ⟨number, next, hleads⟩ | hbranches
  · exact ⟨path, states, last, h, .inl hends⟩
  · by_cases hbeen : next ∈ states
    · exact ⟨path, states, last, h, .inr (.inr ⟨number, next, hleads, hbeen⟩)⟩
    · have hnext := h.step hleads hbeen
      have hle := hnext.length_le hg hentry
      exact hnext.exists_last hg hentry
  · exact ⟨path, states, last, h, .inr (.inl hbranches)⟩
termination_by g.nodes.length - states.length
decreasing_by
  rw [List.length_append, List.length_singleton] at *
  omega

/-- The walk from the entry follows a chain to its last state, and goes on from there with the
states left where the chain has not been. -/
theorem Chain.walk (h : g.Chain entry path states last) (hg : g.WellFormed) :
    ∃ unvisited : List Nat, unvisited.Nodup ∧
      (∀ k, k ∈ unvisited ↔ k < g.nodes.length ∧ k ∉ states) ∧
      g.walk ((List.range g.nodes.length).erase entry) entry
        = (g.walk unvisited last).map (path ++ ·) := by
  induction h with
  | start =>
    refine ⟨(List.range g.nodes.length).erase entry, List.nodup_range.erase entry, ?_, ?_⟩
    · intro k
      rw [List.nodup_range.mem_erase_iff, List.mem_range, List.mem_singleton, and_comm]
    · cases g.walk ((List.range g.nodes.length).erase entry) entry <;> rfl
  | @step path states last number next h hleads hnew ih =>
    obtain ⟨unvisited, hnodup, hmem, heq⟩ := ih
    -- the chain takes each state once, so the walk has not been at the next one
    have hnext : next ∈ unvisited := (hmem next).2 ⟨hleads.leads.target_lt hg, hnew⟩
    refine ⟨unvisited.erase next, hnodup.erase next, ?_, ?_⟩
    · intro k
      rw [hnodup.mem_erase_iff, hmem, List.mem_append, List.mem_singleton, not_or]
      constructor
      · rintro ⟨hne, hk, hstates⟩
        exact ⟨hk, hstates, hne⟩
      · rintro ⟨hk, hstates, hne⟩
        exact ⟨hne, hk, hstates⟩
    · rw [heq, hleads.walk_eq, if_pos hnext]
      cases g.walk (unvisited.erase next) next with
      | error e => rfl
      | ok more => simp [Except.map]

/-! ### Entries -/

/-- The states that are marked as entries. -/
theorem mem_marked : i ∈ (List.range g.nodes.length).filter
    (fun i => g.nodes[i]?.any WitnessNode.isEntry) ↔ ∃ n, g.nodes[i]? = some n ∧ n.isEntry := by
  rw [List.mem_filter, List.mem_range]
  cases hn : g.nodes[i]? with
  | none => simp
  | some n =>
    have hlt := (List.getElem?_eq_some_iff.1 hn).1
    simp [hlt]

/-- The candidates that are computed are those of the specification. -/
theorem mem_entryCandidates : i ∈ g.entryCandidates ↔ g.IsCandidate i := by
  unfold entryCandidates IsCandidate
  dsimp only
  -- the marked states if there are any, and else those that edges leave and none enter
  split
  next hempty =>
    rw [List.isEmpty_iff, List.eq_nil_iff_forall_not_mem] at hempty
    have hnone : ∀ n ∈ g.nodes, n.isEntry = false := by
      intro n hn
      obtain ⟨k, hk⟩ := List.mem_iff_getElem?.1 hn
      rw [Bool.eq_false_iff]
      intro hentry
      exact hempty k (mem_marked.2 ⟨n, hk, hentry⟩)
    rw [← mem_marked, List.mem_filter, List.mem_range]
    simp only [hempty i, false_or, Bool.and_eq_true, Bool.not_eq_true', List.any_eq_false,
      List.any_eq_true, beq_iff_eq]
    exact ⟨fun ⟨hlt, htarget, hsource⟩ => ⟨hnone, hlt, htarget, hsource⟩,
      fun ⟨_, hlt, htarget, hsource⟩ => ⟨hlt, htarget, hsource⟩⟩
  next hsome =>
    rw [List.isEmpty_iff] at hsome
    obtain ⟨k, hk⟩ := List.exists_mem_of_ne_nil _ hsome
    obtain ⟨n, hn, hentry⟩ := mem_marked.1 hk
    rw [mem_marked, or_iff_left]
    rintro ⟨hnone, -⟩
    rw [hnone n (List.mem_of_getElem? hn)] at hentry
    cases hentry

/-- No candidate is listed twice. -/
theorem nodup_entryCandidates : g.entryCandidates.Nodup := by
  unfold entryCandidates
  dsimp only
  split <;> exact List.nodup_range.filter _

/-- There are as many listed as there are candidates. -/
theorem length_entryCandidates : g.entryCandidates.length = {i | g.IsCandidate i}.ncard := by
  have hset : {i | g.IsCandidate i} = (g.entryCandidates.toFinset : Set Nat) := by
    ext i
    simp [mem_entryCandidates]
  rw [hset, Set.ncard_coe_finset, List.toFinset_card_of_nodup nodup_entryCandidates]

/-- The entry is found if it is the only candidate. -/
theorem entryNode_of_isEntry (h : g.IsEntry i) : g.entryNode = .ok i := by
  have heq : g.entryCandidates = [i] := by
    refine List.perm_singleton.1 ?_
    rw [List.perm_ext_iff_of_nodup nodup_entryCandidates (List.nodup_singleton _)]
    intro j
    rw [mem_entryCandidates, List.mem_singleton]
    constructor
    · exact h.only j
    · rintro rfl
      exact h.candidate
  rw [entryNode, heq]

/-- Without candidates there is no entry. -/
theorem entryNode_of_none (h : ∀ i, ¬ g.IsCandidate i) : g.entryNode = .error .noEntryNode := by
  have heq : g.entryCandidates = [] := by
    rw [List.eq_nil_iff_forall_not_mem]
    intro i hi
    exact h i (mem_entryCandidates.1 hi)
  rw [entryNode, heq]

/-- With several candidates the search fails, and says how many there are. -/
theorem entryNode_of_several (h : 2 ≤ {i | g.IsCandidate i}.ncard) :
    g.entryNode = .error (.multipleEntryNodes {i | g.IsCandidate i}.ncard) := by
  rw [← length_entryCandidates] at h ⊢
  unfold entryNode
  split
  next heq =>
    rw [heq, List.length_nil] at h
    omega
  next heq =>
    rw [heq, List.length_singleton] at h
    omega
  next => rfl

/-- The path can begin nowhere, at one state, or at several. -/
theorem candidate_cases (g : WitnessGraph) :
    (∀ i, ¬ g.IsCandidate i) ∨ (∃ i, g.IsEntry i) ∨ 2 ≤ {i | g.IsCandidate i}.ncard := by
  rw [← length_entryCandidates]
  cases h : g.entryCandidates with
  | nil =>
    refine .inl fun i hi => ?_
    have hmem := mem_entryCandidates.2 hi
    rw [h] at hmem
    cases hmem
  | cons i rest =>
    cases rest with
    | nil =>
      refine .inr (.inl ⟨i, mem_entryCandidates.1 (by simp [h]), ?_⟩)
      intro j hj
      have hmem := mem_entryCandidates.2 hj
      rwa [h, List.mem_singleton] at hmem
    | cons j rest =>
      refine .inr (.inr ?_)
      rw [List.length_cons, List.length_cons]
      omega

/-- Candidates are states of the graph. -/
theorem IsCandidate.lt (h : g.IsCandidate i) : i < g.nodes.length := by
  rcases h with ⟨n, hn, -⟩ | ⟨-, hlt, -⟩
  · exact (List.getElem?_eq_some_iff.1 hn).1
  · exact hlt

/-! ### What is extracted -/

theorem ensureViolation_of_isViolation (h : g.IsViolation) : g.ensureViolation = .ok () := by
  obtain ⟨kind, hkind, htrim⟩ := h
  rw [ensureViolation, hkind]
  dsimp only
  rw [if_pos htrim]

/-- With an entry, the path of a violation witness is what a walk from there finds. -/
theorem extractPath_of_isEntry (h : g.IsViolation) (hentry : g.IsEntry i) :
    g.extractPath = g.walk ((List.range g.nodes.length).erase i) i := by
  rw [extractPath, ensureViolation_of_isViolation h, entryNode_of_isEntry hentry]
  rfl

/-- Without one it is the error of the search for it. -/
theorem extractPath_of_entryNode {error : WitnessError} (h : g.IsViolation)
    (hentry : g.entryNode = .error error) : g.extractPath = .error error := by
  rw [extractPath, ensureViolation_of_isViolation h, hentry]
  rfl

/-- Of another kind of witness no path is extracted. -/
theorem extractPath_of_ensureViolation {error : WitnessError}
    (h : g.ensureViolation = .error error) : g.extractPath = .error error := by
  rw [extractPath, h]
  rfl

theorem idOf_eq {n : WitnessNode} (h : g.nodes[i]? = some n) : g.idOf i = n.id := by
  rw [idOf, h]
  rfl

/-- What the graph says is what the walk finds. -/
theorem Extracted.extractPath_eq {result : Except WitnessError (List Nat)} (h : g.Extracted result)
    (hg : g.WellFormed) : g.extractPath = result := by
  cases h with
  | missingKind h =>
    apply extractPath_of_ensureViolation
    rw [ensureViolation, h]
  | wrongKind h hkind =>
    apply extractPath_of_ensureViolation
    rw [ensureViolation, h]
    dsimp only
    rw [if_neg hkind]
  | noEntry h hentry => exact extractPath_of_entryNode h (entryNode_of_none hentry)
  | severalEntries h hentry => exact extractPath_of_entryNode h (entryNode_of_several hentry)
  | path h hentry hchain hlast =>
    obtain ⟨unvisited, -, -, heq⟩ := hchain.walk hg
    rw [extractPath_of_isEntry h hentry, heq, walk_nil (onward_eq_nil.2 hlast)]
    simp [Except.map]
  | branching h hentry hchain hlast hn =>
    obtain ⟨unvisited, -, -, heq⟩ := hchain.walk hg
    rw [extractPath_of_isEntry h hentry, heq, hlast.walk_eq, idOf_eq hn]
    rfl
  | @cycle h entry hentry path states last number next hchain hleads hbeen n hn =>
    obtain ⟨unvisited, -, hmem, heq⟩ := hchain.walk hg
    have hvisited : next ∉ unvisited := by
      intro hnext
      exact ((hmem next).1 hnext).2 hbeen
    rw [extractPath_of_isEntry h hentry, heq, hleads.walk_eq, if_neg hvisited, idOf_eq hn]
    rfl

/-- Every graph says what is to be extracted from it. -/
theorem WellFormed.exists_extracted (hg : g.WellFormed) : ∃ result, g.Extracted result := by
  cases hkind : g.kind with
  | none => exact ⟨_, .missingKind hkind⟩
  | some kind =>
    by_cases htrim : Text.trim kind.toList = "violation_witness".toList
    · have h : g.IsViolation := ⟨kind, hkind, htrim⟩
      rcases g.candidate_cases with hnone | ⟨entry, hentry⟩ | hseveral
      · exact ⟨_, .noEntry h hnone⟩
      · have hlt := hentry.candidate.lt
        have hstart : g.Chain entry [] [entry] entry := .start
        obtain ⟨path, states, last, hchain, hstops⟩ := hstart.exists_last hg hlt
        have hnode : ∀ k ∈ states, ∃ n, g.nodes[k]? = some n := by
          intro k hk
          exact ⟨_, List.getElem?_eq_getElem (hchain.inRange hg hlt k hk)⟩
        rcases hstops with hends | hbranches | ⟨number, next, hleads, hbeen⟩
        · exact ⟨_, .path h hentry hchain hends⟩
        · obtain ⟨n, hn⟩ := hnode last hchain.last_mem
          exact ⟨_, .branching h hentry hchain hbranches hn⟩
        · obtain ⟨n, hn⟩ := hnode next hbeen
          exact ⟨_, .cycle h hentry hchain hleads hbeen hn⟩
      · exact ⟨_, .severalEntries h hseveral⟩
    · exact ⟨_, .wrongKind hkind htrim⟩

/-- **The path of a witness is its chain.** What is extracted from a graph that was built by
mentions of states and transitions is what the graph says: the transitions of the chain from its one
entry, if it is a violation witness and the chain ends, and else the first fault there is. -/
theorem extractPath_eq_iff (kind : Option String) (mentions : List Mention)
    (result : Except WitnessError (List Nat)) :
    (built kind mentions).extractPath = result ↔ (built kind mentions).Extracted result := by
  have hg := (holds_built kind mentions).toWellFormed
  constructor
  · intro h
    obtain ⟨result', hresult⟩ := hg.exists_extracted
    rwa [← h, hresult.extractPath_eq hg]
  · intro h
    exact h.extractPath_eq hg

end WitnessReplay.WitnessGraph
