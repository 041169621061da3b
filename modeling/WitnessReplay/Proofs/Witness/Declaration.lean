import Mathlib.Data.Set.Function
import WitnessReplay.Proofs.Witness.Renaming

/-!
# A witness does not depend on its declarations

A document lists its nodes and edges in some order, may declare a node more than once or only by an
edge, and names the states as it likes. None of this counts: documents that differ in order and
names only (`Document.Redeclared`) give the same steps, or the same error up to the name in it
(`Document.transitions_of_redeclared`).

The reason is that loading a document is building a graph by mentions (`ofDocument_eq`), and that
graphs built by the same mentions in another order and under other names correspond
(`corresponds_built`). Only where an edge says something that is no number does the order show, in
which attribute the error names.
-/

namespace WitnessReplay

/-- A mention with its states renamed. -/
def Mention.renamed (f : String → String) : Mention → Mention
  | node id isEntry isSink => node (f id) isEntry isSink
  | edge source target e => edge (f source) (f target) e

/-- The states that some mentions name. -/
def Mention.idsOf (mentions : List Mention) : List String :=
  mentions.flatMap ids

theorem Mention.ids_renamed (f : String → String) (m : Mention) :
    (m.renamed f).ids = m.ids.map f := by
  cases m <;> rfl

namespace WitnessGraph

variable {f : String → String} {mentions mentions' : List Mention}

theorem Holds.mem_idsOf {g : WitnessGraph} (h : g.Holds mentions) (id : String) :
    id ∈ g.ids ↔ id ∈ Mention.idsOf mentions := by
  rw [h.mem_ids, Mention.idsOf, List.mem_flatMap]

/-- Renaming the states of a mention renames the one that it marks. -/
theorem marks_renamed (hf : Set.InjOn f {id | id ∈ Mention.idsOf mentions}) {m : Mention}
    (hm : m ∈ mentions) {id : String} (hid : id ∈ Mention.idsOf mentions) :
    (m.renamed f).marksEntry (f id) = m.marksEntry id ∧
      (m.renamed f).marksSink (f id) = m.marksSink id := by
  cases m with
  | edge => exact ⟨rfl, rfl⟩
  | node id' isEntry isSink =>
    have hid' : id' ∈ Mention.idsOf mentions :=
      List.mem_flatMap.2 ⟨.node id' isEntry isSink, hm, List.mem_singleton_self id'⟩
    have hbeq : (f id' == f id) = (id' == id) := by
      rw [Bool.eq_iff_iff, beq_iff_eq, beq_iff_eq]
      exact hf.eq_iff hid' hid
    constructor
    · rw [Mention.renamed, Mention.marksEntry, Mention.marksEntry, hbeq]
    · rw [Mention.renamed, Mention.marksSink, Mention.marksSink, hbeq]

/-- The same mentions, in any order and under other names, build the same graph but for numbers and
names. -/
theorem corresponds_built (kind : Option String)
    (hperm : mentions'.Perm (mentions.map (Mention.renamed f)))
    (hf : Set.InjOn f {id | id ∈ Mention.idsOf mentions}) :
    Corresponds f (built kind mentions) (built kind mentions') := by
  have hg := holds_built kind mentions
  have hg' := holds_built kind mentions'
  refine
    { left := hg.toWellFormed, right := hg'.toWellFormed, kind := ?_, ids := ?_, isEntryId := ?_,
      isSinkId := ?_, namedLinks := ?_ }
  · rw [kind_built, kind_built]
  · -- renamed ids stay distinct, so it is enough that both graphs mention the same ones
    have hnodup : ((built kind mentions).ids.map f).Nodup := by
      refine hg.distinct.map_on fun a ha b hb heq => ?_
      exact hf ((hg.mem_idsOf a).1 ha) ((hg.mem_idsOf b).1 hb) heq
    have hids : (Mention.idsOf mentions').Perm ((Mention.idsOf mentions).map f) := by
      refine (hperm.flatMap_right Mention.ids).trans (List.Perm.of_eq ?_)
      rw [Mention.idsOf, List.flatMap_map, List.map_flatMap]
      exact List.flatMap_congr fun m _ => m.ids_renamed f
    rw [List.perm_ext_iff_of_nodup hg'.distinct hnodup]
    intro id
    rw [hg'.mem_idsOf, hids.mem_iff, List.mem_map, List.mem_map]
    simp only [hg.mem_idsOf]
  · intro id hid
    rw [hg.isEntryId, hg'.isEntryId, hperm.any_eq, List.any_map, Bool.eq_iff_iff,
      List.any_eq_true, List.any_eq_true]
    refine exists_congr fun m => and_congr_right fun hm => ?_
    rw [Function.comp_apply, (marks_renamed hf hm ((hg.mem_idsOf id).1 hid)).1]
  · intro id hid
    rw [hg.isSinkId, hg'.isSinkId, hperm.any_eq, List.any_map, Bool.eq_iff_iff,
      List.any_eq_true, List.any_eq_true]
    refine exists_congr fun m => and_congr_right fun hm => ?_
    rw [Function.comp_apply, (marks_renamed hf hm ((hg.mem_idsOf id).1 hid)).2]
  · rw [hg.namedLinks, hg'.namedLinks]
    refine (hperm.filterMap _).trans ?_
    rw [List.filterMap_map, List.map_filterMap]
    refine List.Perm.of_eq (List.filterMap_congr ?_)
    intro m hm
    cases m <;> rfl

end WitnessGraph

namespace GraphML

/-! ### Documents as mentions -/

/-- What a node of a document tells a graph. -/
def DocumentNode.mention (n : DocumentNode) : Mention :=
  .node n.id (isMarked n.attributes ["entry", "isEntryNode"])
    (isMarked n.attributes ["sink", "isSinkNode"])

/-- What an edge of a document tells a graph, if all its numbers are numbers. -/
def DocumentEdge.mention? (e : DocumentEdge) : Option Mention :=
  (WitnessEdge.ofAttributes e.attributes).toOption.map (.edge e.source e.target)

/-- What a document tells a graph. -/
def Document.mentions (doc : Document) : List Mention :=
  doc.nodes.map DocumentNode.mention ++ doc.edges.filterMap DocumentEdge.mention?

/-- Whether all attributes of a document that must be numbers are. -/
def Document.Numeric (doc : Document) : Prop :=
  ∀ e ∈ doc.edges, ∃ edge, WitnessEdge.ofAttributes e.attributes = .ok edge

variable {f : String → String} {doc doc' : Document}

/-- An error of two readings, one after the other, is one of the first or of the second. -/
theorem error_of_bind {α β : Type} {x : Except WitnessError α} {g : α → Except WitnessError β}
    {P : WitnessError → Prop} (hx : ∀ error, x = .error error → P error)
    (hg : ∀ a error, g a = .error error → P error) :
    ∀ error, x >>= g = .error error → P error := by
  intro error h
  cases x with
  | error e =>
    have heq : (Except.error e : Except WitnessError β) = .error error := h
    exact hx error (congrArg Except.error (Except.error.inj heq))
  | ok a => exact hg a error h

theorem numberAttribute_eq_error {α : Type} {read? : List Char → Option α} {a : Attributes}
    {key : String} : ∀ error, numberAttribute read? a key = .error error →
      ∃ name value, error = .invalidAttribute name value := by
  intro error h
  unfold numberAttribute at h
  split at h
  next => cases h
  next =>
    dsimp only at h
    split at h
    next => cases h
    next =>
      split at h
      next => cases h
      next =>
        cases h
        exact ⟨_, _, rfl⟩

/-- Only a number that is none keeps an edge from being read. -/
theorem ofAttributes_eq_error {a : Attributes} : ∀ error, WitnessEdge.ofAttributes a = .error error →
    ∃ name value, error = .invalidAttribute name value := by
  unfold WitnessEdge.ofAttributes
  refine error_of_bind numberAttribute_eq_error fun startline => ?_
  refine error_of_bind numberAttribute_eq_error fun endline => ?_
  refine error_of_bind numberAttribute_eq_error fun startoffset => ?_
  refine error_of_bind numberAttribute_eq_error fun endoffset => ?_
  refine error_of_bind numberAttribute_eq_error fun threadId => ?_
  refine error_of_bind numberAttribute_eq_error fun createThread => ?_
  intro error h
  cases h

/-- Edges whose numbers are numbers are added to a graph as mentions. -/
theorem addEdges_of_numeric {edges : List DocumentEdge} (g : WitnessGraph)
    (h : ∀ e ∈ edges, ∃ edge, WitnessEdge.ofAttributes e.attributes = .ok edge) :
    g.addEdges edges
      = .ok ((edges.filterMap DocumentEdge.mention?).foldl WitnessGraph.mention g) := by
  induction edges generalizing g with
  | nil => rfl
  | cons e rest ih =>
    obtain ⟨⟨edge, hedge⟩, hrest⟩ := List.forall_mem_cons.1 h
    have hmention : e.mention? = some (.edge e.source e.target edge) := by
      rw [DocumentEdge.mention?, hedge]
      rfl
    rw [WitnessGraph.addEdges, hedge, List.filterMap_cons_some hmention, List.foldl_cons]
    exact ih _ hrest

/-- Other edges are not added at all. -/
theorem addEdges_of_not_numeric {edges : List DocumentEdge} (g : WitnessGraph)
    (h : ¬ ∀ e ∈ edges, ∃ edge, WitnessEdge.ofAttributes e.attributes = .ok edge) :
    ∃ name value, g.addEdges edges = .error (.invalidAttribute name value) := by
  induction edges generalizing g with
  | nil => exact absurd (fun e he => nomatch he) h
  | cons e rest ih =>
    rw [WitnessGraph.addEdges]
    cases hedge : WitnessEdge.ofAttributes e.attributes with
    | error error =>
      obtain ⟨name, value, rfl⟩ := ofAttributes_eq_error error hedge
      exact ⟨name, value, rfl⟩
    | ok edge =>
      refine ih _ fun hrest => h ?_
      exact List.forall_mem_cons.2 ⟨⟨edge, hedge⟩, hrest⟩

/-- Loading a document is building a graph by what the document tells it. -/
theorem ofDocument_eq (h : doc.Numeric) :
    WitnessGraph.ofDocument doc
      = .ok (WitnessGraph.built (doc.graph.get? "witness-type") doc.mentions) := by
  rw [WitnessGraph.ofDocument, addEdges_of_numeric _ h, WitnessGraph.built, Document.mentions,
    List.foldl_append, List.foldl_map]
  rfl

/-! ### Documents that are declared differently -/

/-- A node under another name. -/
def DocumentNode.renamed (f : String → String) (n : DocumentNode) : DocumentNode :=
  { n with id := f n.id }

/-- An edge with its ends under other names. -/
def DocumentEdge.renamed (f : String → String) (e : DocumentEdge) : DocumentEdge :=
  { e with source := f e.source, target := f e.target }

/-- The ids of nodes that a document names, by declaring a node or by an edge. -/
def Document.ids (doc : Document) : List String :=
  doc.nodes.map DocumentNode.id ++ doc.edges.flatMap fun e => [e.source, e.target]

/-- A document that declares the nodes and edges of another one in another order and under other
names, different ones for different nodes. -/
structure Document.Redeclared (f : String → String) (doc doc' : Document) : Prop where
  graph : doc'.graph = doc.graph
  nodes : doc'.nodes.Perm (doc.nodes.map (DocumentNode.renamed f))
  edges : doc'.edges.Perm (doc.edges.map (DocumentEdge.renamed f))
  injective : Set.InjOn f {id | id ∈ doc.ids}

theorem Document.Redeclared.numeric_iff (h : Redeclared f doc doc') :
    doc'.Numeric ↔ doc.Numeric := by
  rw [Numeric, Numeric]
  simp only [h.edges.mem_iff, List.forall_mem_map]
  rfl

theorem Document.Redeclared.mentions (h : Redeclared f doc doc') :
    doc'.mentions.Perm (doc.mentions.map (Mention.renamed f)) := by
  rw [Document.mentions, Document.mentions, List.map_append]
  refine List.Perm.append ?_ ?_
  · refine (h.nodes.map _).trans (List.Perm.of_eq ?_)
    rw [List.map_map, List.map_map]
    rfl
  · refine (h.edges.filterMap _).trans (List.Perm.of_eq ?_)
    rw [List.filterMap_map, List.map_filterMap]
    refine List.filterMap_congr fun e he => ?_
    rw [Function.comp_apply, DocumentEdge.mention?, DocumentEdge.mention?, Option.map_map]
    rfl

theorem Document.mem_ids {id : String} (h : id ∈ Mention.idsOf doc.mentions) : id ∈ doc.ids := by
  obtain ⟨m, hm, hid⟩ := List.mem_flatMap.1 h
  rw [Document.ids, List.mem_append]
  rcases List.mem_append.1 hm with hm | hm
  · obtain ⟨n, hn, rfl⟩ := List.mem_map.1 hm
    rw [List.mem_singleton.1 hid]
    exact .inl (List.mem_map_of_mem hn)
  · obtain ⟨e, he, hmention⟩ := List.mem_filterMap.1 hm
    obtain ⟨edge, -, rfl⟩ := Option.map_eq_some_iff.1 hmention
    exact .inr (List.mem_flatMap.2 ⟨e, he, hid⟩)

/-- The steps of a witness that a document holds, located in the text of a program. -/
def Document.transitions (doc : Document) (source : SourceText) :
    Except WitnessError (List Transition) :=
  match WitnessGraph.ofDocument doc with
  | .error e => .error e
  | .ok g => g.transitions source

/-- **A witness does not depend on its declarations.** Documents that declare the same nodes and
edges in different orders and under different names give the same steps, or errors of one kind with
the same details, up to the name of the node in them. -/
theorem Document.transitions_of_redeclared (h : Redeclared f doc doc') (source : SourceText) :
    SameOutcome f (doc.transitions source) (doc'.transitions source) := by
  unfold Document.transitions
  by_cases hnumeric : doc.Numeric
  · have hcorresponds := WitnessGraph.corresponds_built (doc.graph.get? "witness-type") h.mentions
      (h.injective.mono fun id hid => mem_ids hid)
    rw [ofDocument_eq hnumeric, ofDocument_eq (h.numeric_iff.2 hnumeric), h.graph]
    exact hcorresponds.transitions source
  · have hnumeric' : ¬ doc'.Numeric := fun hnumeric' => hnumeric (h.numeric_iff.1 hnumeric')
    obtain ⟨name, value, heq⟩ := addEdges_of_not_numeric _ hnumeric
    obtain ⟨name', value', heq'⟩ := addEdges_of_not_numeric _ hnumeric'
    rw [WitnessGraph.ofDocument, heq, WitnessGraph.ofDocument, heq']
    exact .error .attribute

/-- A witness that branches at a state which only an edge declares. -/
def branchingDocument : Document where
  graph := .ofList [("witness-type", "violation_witness")]
  nodes := [⟨"A", .empty⟩, ⟨"D", .ofList [("sink", "1")]⟩, ⟨"A", .ofList [("entry", "true")]⟩]
  edges := [⟨"A", "B", .ofList [("startline", "3")]⟩, ⟨"B", "A", .empty⟩, ⟨"B", "D", .empty⟩,
    ⟨"B", "C", .empty⟩]

/-- The same witness with its declarations turned around, and with longer names. -/
def branchingDocument' : Document where
  graph := branchingDocument.graph
  nodes := (branchingDocument.nodes.map (DocumentNode.renamed ("state " ++ ·))).reverse
  edges := (branchingDocument.edges.map (DocumentEdge.renamed ("state " ++ ·))).reverse

theorem transitions_branchingDocument :
    branchingDocument.Redeclared ("state " ++ ·) branchingDocument' ∧
      branchingDocument.transitions ⟨[]⟩ = .error (.hasBranching "B") ∧
      branchingDocument'.transitions ⟨[]⟩ = .error (.hasBranching "state B") := by
  have hids : ∀ a ∈ branchingDocument.ids, ∀ b ∈ branchingDocument.ids,
      "state " ++ a = "state " ++ b → a = b := by decide
  have hredeclared : branchingDocument.Redeclared ("state " ++ ·) branchingDocument' :=
    ⟨rfl, List.reverse_perm _, List.reverse_perm _, fun a ha b hb => hids a ha b hb⟩
  have hsame := Document.transitions_of_redeclared hredeclared ⟨[]⟩
  have hbranches : branchingDocument.transitions ⟨[]⟩ = .error (.hasBranching "B") := by
    decide +kernel
  refine ⟨hredeclared, hbranches, ?_⟩
  rw [hbranches] at hsame
  generalize branchingDocument'.transitions ⟨[]⟩ = outcome at hsame
  cases hsame with
  | error h =>
    cases h
    rfl

end GraphML

end WitnessReplay
