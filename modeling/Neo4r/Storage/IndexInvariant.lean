/-
  `Storage.IndexInvariant`: what `verify_invariants` reports along a run.

  The expected index of the program lists a relationship at its target whenever the
  target is a node now; the index of a graph lists it there when it was linked at its
  creation.  So the report is clean exactly if every relationship to a stored node is
  linked.

  A run is a sequence of commands, each applied alone or as part of a batch, and a batch
  may be cut short anywhere.
-/
import Neo4r.Storage.BatchApply

set_option autoImplicit false

namespace Neo4r.PropertyGraph

/-- The index that the program expects. -/
def Expected (g : PropertyGraph) (range : IndexRange) (id : Nat) : Prop :=
  g.NodeListed range id ∨ g.BoundaryNodeListed range id ∨
    ∃ relationship, g.relationships id = some relationship ∧
      (range ∈ relationship.leavingRanges ∨
        (g.nodes relationship.toId).isSome ∧ range ∈ relationship.enteringRanges)

/-- The index of a graph is the expected one if every relationship to a stored node is
linked. -/
theorem expected_iff_indexed {g : PropertyGraph} (hw : g.WellFormed) :
    (∀ range id, g.Expected range id ↔ g.Indexed range id) ↔ g.FullyLinked := by
  constructor
  · intro hall id rel hr hto
    have hexp : g.Expected (.incoming rel.toId) id := .inr (.inr ⟨rel, hr, .inr ⟨hto, .head _⟩⟩)
    obtain ⟨relationship', -, hlinked, -⟩ := indexed_incoming.mp ((hall _ _).mp hexp)
    exact hlinked
  · intro hfull range id
    refine or_congr_right (or_congr_right (exists_congr fun rel => ?_))
    refine and_congr_right fun hr => or_congr_right (and_congr_left fun _ => ?_)
    refine ⟨hfull id rel hr, fun hlinked => ?_⟩
    obtain ⟨relationship', hr', hto⟩ := hw.linked hlinked
    rw [hr] at hr'
    cases hr'
    exact hto

end Neo4r.PropertyGraph

namespace Neo4r.Storage

open Foundation PropertyGraph List

namespace KvGraphStore

/-! ## The report -/

variable {store : KvGraphStore} {graph : PropertyGraph}

theorem Represents.expectedRelationshipIndexKeys_eq (h : store.Represents graph)
    (rel : Relationship) :
    store.expectedRelationshipIndexKeys rel =
      .ok ((graph.contents.createdRanges rel).map fun range =>
        indexKey range rel.id) := by
  rw [expectedRelationshipIndexKeys, h.node_eq]
  rfl

theorem Represents.expectedIndexKeys_eq (h : store.Represents graph) :
    store.expectedIndexKeys = .ok (toFinset
      (((store.scanIds .node).filterMap graph.nodes).flatMap expectedNodeIndexKeys ++
        ((store.scanIds .boundaryNode).filterMap graph.boundaryNodes).flatMap
          expectedBoundaryNodeIndexKeys ++
        ((store.scanIds .relationship).filterMap graph.relationships).flatMap fun rel =>
          (graph.contents.createdRanges rel).map fun range =>
            indexKey range rel.id)) := by
  have hnodes : store.nodes = _ := mapM_scanPrefix_eq h.nodes fun _ => rfl
  have hbnodes : store.boundaryNodes = _ := mapM_scanPrefix_eq h.boundaryNodes fun _ => rfl
  have hrels : store.relationships = _ := mapM_scanPrefix_eq h.relationships fun _ => rfl
  rw [expectedIndexKeys, hnodes, hbnodes, hrels]
  change Except.bind (mapM _ _) _ = _
  rw [exceptMapM_ok fun rel _ => h.expectedRelationshipIndexKeys_eq rel]
  rfl

/-- The index keys of the records of one kind. -/
theorem mem_flatMap_indexKey {α : Type} {range : KeyRange} {records : Nat → Option α}
    {encode : α → KvValue} (hget : ∀ id, store.kv.get ⟨range, id⟩ = (records id).map encode)
    {idOf : α → Nat} (hid : ∀ {id a}, records id = some a → idOf a = id)
    (ranges : α → List IndexRange) (key : GraphKey) :
    (key ∈ ((store.scanIds range).filterMap records).flatMap fun a =>
      (ranges a).map fun range => indexKey range (idOf a)) ↔
      ∃ range id, key = indexKey range id ∧ ∃ a, records id = some a ∧ range ∈ ranges a := by
  simp only [mem_flatMap, mem_filterMap_scanIds hget, mem_map]
  constructor
  · rintro ⟨a, ⟨id, ha⟩, range, hrange, rfl⟩
    exact ⟨range, id, congrArg _ (hid ha), a, ha, hrange⟩
  · rintro ⟨range, id, rfl, a, ha, hrange⟩
    exact ⟨a, ⟨id, ha⟩, range, hrange, congrArg _ (hid ha)⟩

section

variable (h : store.Represents graph)

include h

theorem Represents.mem_expectedIndexKeys (hw : graph.WellFormed) :
    ∃ keys, store.expectedIndexKeys = .ok keys ∧
      ∀ key, key ∈ keys ↔ ∃ range id, key = indexKey range id ∧ graph.Expected range id := by
  refine ⟨_, h.expectedIndexKeys_eq, fun key => ?_⟩
  have hnodes := mem_flatMap_indexKey h.nodes hw.node_id Node.ranges key
  have hbnodes := mem_flatMap_indexKey h.boundaryNodes hw.boundaryNode_id BoundaryNode.ranges key
  have hrels := mem_flatMap_indexKey h.relationships hw.relationship_id
    graph.contents.createdRanges key
  rw [mem_toFinset, mem_append, mem_append]
  refine (or_congr (or_congr hnodes hbnodes) hrels).trans ?_
  simp only [← exists_or, ← and_or_left, or_assoc, Contents.mem_createdRanges]
  rfl

theorem Represents.mem_actualIndexKeys (key : GraphKey) :
    key ∈ store.actualIndexKeys ↔ ∃ range id, key = indexKey range id ∧ graph.Indexed range id := by
  have hindexed range (id : Nat) :
      (store.kv.get (indexKey range id)).isSome ↔ graph.Indexed range id :=
    mem_scanIds.symm.trans (h.mem_scanIds_index)
  rw [actualIndexKeys, mem_toFinset, mem_filter, FiniteMap.mem_keys]
  obtain ⟨range, id⟩ := key
  cases range with
  | index =>
    simp only [indexKey, GraphKey.mk.injEq, KeyRange.index.injEq] at hindexed ⊢
    simp [hindexed]
  | _ => simp [indexKey]

/-- The report is clean if every relationship to a stored node is linked. -/
theorem Represents.verifyInvariants_isClean_iff (hw : graph.WellFormed) :
    ∃ report, store.verifyInvariants = .ok report ∧ (report.isClean ↔ graph.FullyLinked) := by
  obtain ⟨keys, hkeys, hmem⟩ := h.mem_expectedIndexKeys hw
  refine ⟨⟨keys \ store.actualIndexKeys, store.actualIndexKeys \ keys⟩, ?_, ?_⟩
  · rw [verifyInvariants, hkeys]
    rfl
  · rw [← expected_iff_indexed hw]
    have hclean : (GraphInvariantReport.isClean
        ⟨keys \ store.actualIndexKeys, store.actualIndexKeys \ keys⟩) ↔
          ∀ key, key ∈ keys ↔ key ∈ store.actualIndexKeys := by
      simp only [GraphInvariantReport.isClean, Bool.and_eq_true, decide_eq_true_eq,
        Finset.sdiff_eq_empty_iff_subset]
      exact ⟨fun hsub key => ⟨fun hk => hsub.1 hk, fun hk => hsub.2 hk⟩,
        fun hiff => ⟨fun key => (hiff key).mp, fun key => (hiff key).mpr⟩⟩
    rw [hclean]
    simp only [hmem, h.mem_actualIndexKeys]
    constructor
    · intro hall range id
      have hone := hall (indexKey range id)
      simpa [indexKey] using hone
    · intro hall key
      simp only [hall]

end

/-- No read of relationships finds the store corrupt. -/
def ReadsCleanly (store : KvGraphStore) : Prop :=
  ∀ nodeId relType message, store.outgoing nodeId ≠ .error (.corruptStore message) ∧
    store.outgoingByType nodeId relType ≠ .error (.corruptStore message) ∧
    store.incoming nodeId ≠ .error (.corruptStore message) ∧
    store.incomingByType nodeId relType ≠ .error (.corruptStore message)

theorem Represents.readsCleanly (h : store.Represents graph) : store.ReadsCleanly := by
  have hread {range : IndexRange} (hkind : range.kind = .relationship) (msg : String) :
      store.relationshipsFromIndex range ≠ .error (.corruptStore msg) := by
    rw [h.relationshipsFromIndex_eq hkind]
    nofun
  exact fun _ _ msg => ⟨hread rfl msg, hread rfl msg, hread rfl msg,
    hread rfl msg⟩

/-- The store is sound: the report is clean and reads find nothing corrupt. -/
def IndexSound (store : KvGraphStore) : Prop :=
  (∃ report, store.verifyInvariants = .ok report ∧ report.isClean) ∧ store.ReadsCleanly

theorem Represents.indexSound_iff (h : store.Represents graph) (hw : graph.WellFormed) :
    store.IndexSound ↔
      graph.FullyLinked := by
  obtain ⟨report, hreport, hclean⟩ := h.verifyInvariants_isClean_iff hw
  rw [← hclean, IndexSound, and_iff_left h.readsCleanly]
  constructor
  · rintro ⟨report', hreport', hclean'⟩
    rw [hreport] at hreport'
    cases hreport'
    exact hclean'
  · exact fun hclean => ⟨report, hreport, hclean⟩

end KvGraphStore

/-! ## Runs -/

open KvGraphStore

/-- How a command reaches the store: through `apply`, or as the first or a later command of
an `apply_batch`. -/
inductive Delivery
  | apply (command : Command)
  | newBatch (command : Command)
  | sameBatch (command : Command)

/-- The command that is delivered. -/
def Delivery.command : Delivery → Command
  | .apply command | .newBatch command | .sameBatch command => command

/-- A store with the batch that is being collected for it. -/
structure Session where
  store : KvGraphStore
  batch : List Command

namespace Session

/-- Nothing is stored or collected. -/
def new : Session := ⟨.new, []⟩

/-- The store once the batch is applied. -/
def current (session : Session) : Except StorageError KvGraphStore :=
  session.store.applyBatch session.batch

/-- A command is delivered. -/
def deliver (session : Session) : Delivery → Except StorageError Session
  | .apply command => do
      let store ← session.current
      let store ← store.apply command
      pure ⟨store, []⟩
  | .newBatch command => do
      let store ← session.current
      pure ⟨store, [command]⟩
  | .sameBatch command => pure ⟨session.store, session.batch ++ [command]⟩

end Session

/-- The store after a sequence of deliveries. -/
def storeAfter (deliveries : List Delivery) : Except StorageError KvGraphStore := do
  let session ← deliveries.foldlM Session.deliver .new
  session.current

/-! ## What a run represents -/

namespace Session

/-- The session stands for a graph: the store for the graph before the batch, and the
collected batch leads to it. -/
structure Represents (session : Session) (graph : PropertyGraph) : Prop where
  wellFormed : graph.WellFormed
  staged : ∃ base : PropertyGraph, session.store.Represents base ∧
    ∃ progress, session.batch.foldlM session.store.stage ([], .new) = .ok progress ∧
      Staged session.store base.contents session.batch progress graph.contents

variable {session : Session} {graph : PropertyGraph} {store : KvGraphStore} {id : Nat}

theorem represents_of_store (h : store.Represents graph) (hw : graph.WellFormed) :
    Represents ⟨store, []⟩ graph :=
  ⟨hw, graph, h, _, rfl, staged_new h hw.idsMatch graph.leavingListed_contents⟩

theorem represents_new : new.Represents .empty :=
  represents_of_store new_represents wellFormed_empty

theorem Represents.current_eq (h : session.Represents graph) :
    ∃ store, session.current = .ok store ∧ store.Represents graph := by
  obtain ⟨base, -, progress, hrun, hs⟩ := h.staged
  exact ⟨_, applyBatch_eq hrun, hs.holds⟩

/-- A node is deleted with at least the relationships listed at it. -/
theorem wellFormed_eraseNode (hw : graph.WellFormed) {ids : Set Nat}
    (hids : ∀ r, graph.Incident id r → r ∈ ids) :
    ((graph.eraseRelationships ids).eraseNode id).WellFormed := by
  refine (hw.eraseRelationships ids).eraseNode fun {r rel} hr hto hlinked => ?_
  obtain ⟨hnot, hr⟩ := (relationships_eraseRelationships _ _).mp hr
  exact hnot (hids r ⟨rel, hr, .inr ⟨hlinked.1, hto⟩⟩)

/-- A batch deletes with a node at least the relationships that the view lists at it. -/
theorem incident_mem_nextView {base : PropertyGraph} {done : List Command}
    {progress : KvWriteBatch × StagedBatchState}
    (hs : Staged store base.contents done progress graph.contents) {r : Nat}
    (h : graph.Incident id r) :
    r ∈ base.contents.listedAt id ∪ { r | r ∈ stagedIncident progress.2 id } := by
  have hlisted : r ∈ graph.contents.listedAt id := by
    rw [listedAt_contents]
    exact h
  obtain ⟨rel, hr, hend⟩ := h
  have hread := hs.relationships r
  cases hstaged : progress.2.relationships.get r with
  | none =>
    have hidx := hs.unstaged r hstaged
    exact .inl ((or_congr (hidx _ rfl) (hidx _ rfl)).mp hlisted)
  | some =>
    rw [hstaged, Option.getD_some] at hread
    refine .inr (mem_stagedIncident.mpr ⟨rel, ?_, hend.imp_right And.right⟩)
    rw [hstaged, hread]
    exact congrArg some hr

/-- A command joins the batch. -/
theorem Represents.collect (h : session.Represents graph) {cmd : Command}
    (hfresh : graph.Fresh cmd) :
    ∃ graph' : PropertyGraph, Represents ⟨session.store, session.batch ++ [cmd]⟩ graph' ∧
      (graph.FullyLinked → (graph'.FullyLinked ↔
        ∀ id, createdNode cmd = some id → ¬graph.Entered id)) := by
  obtain ⟨base, hbase, progress, hrun, hs⟩ := h.staged
  obtain ⟨batch, staged, hok, hs'⟩ := hs.step hbase cmd
  have hrun' := exceptFoldlM_concat hrun (stage_of_ok hok)
  have hcommon (hnext : nextView base.contents progress.2 graph.contents cmd =
      graph.contents.apply cmd) :
      ∃ graph' : PropertyGraph, Represents ⟨session.store, session.batch ++ [cmd]⟩ graph' ∧
        (graph.FullyLinked → (graph'.FullyLinked ↔
          ∀ id, createdNode cmd = some id → ¬graph.Entered id)) := by
    rw [hnext, contents_apply h.wellFormed hfresh] at hs'
    exact ⟨_, ⟨h.wellFormed.apply hfresh, base, hbase, _, hrun', hs'⟩,
      fun hfull => fullyLinked_apply_iff hfull h.wellFormed hfresh⟩
  cases cmd with
  | deleteNode id =>
    by_cases hnode : (graph.nodes id).isSome
    · rw [nextView, contents_dropNode h.wellFormed hnode] at hs'
      exact ⟨_, ⟨wellFormed_eraseNode h.wellFormed fun r => incident_mem_nextView hs,
        base, hbase, _, hrun', hs'⟩, fun hfull => iff_of_true
          ((hfull.eraseRelationships _).eraseNode id) fun _ hid => by cases hid⟩
    · have hnone : graph.contents.nodes id = none := Option.not_isSome_iff_eq_none.mp hnode
      refine hcommon ?_
      rw [nextView, Contents.apply, Contents.dropNode, Contents.dropNode, hnone]
  | _ => exact hcommon rfl

/-- A delivery. -/
theorem Represents.deliver (h : session.Represents graph) {delivery : Delivery}
    (hfresh : graph.Fresh delivery.command) :
    ∃ session' graph', session.deliver delivery = .ok session' ∧ session'.Represents graph' ∧
      (graph.FullyLinked → (graph'.FullyLinked ↔
        ∀ id, createdNode delivery.command = some id → ¬graph.Entered id)) := by
  obtain ⟨store, hcur, hstore⟩ := h.current_eq
  cases delivery with
  | apply cmd =>
    obtain ⟨store', hok, hstore'⟩ := hstore.apply h.wellFormed hfresh
    refine ⟨⟨store', []⟩, _, ?_, represents_of_store hstore' (h.wellFormed.apply hfresh),
      fun hfull => fullyLinked_apply_iff hfull h.wellFormed hfresh⟩
    rw [Session.deliver, hcur]
    change Except.bind (store.apply (Delivery.apply cmd).command) _ = _
    rw [hok]
    rfl
  | newBatch =>
    obtain ⟨graph', h', hlinked⟩ := (represents_of_store hstore h.wellFormed).collect hfresh
    refine ⟨_, graph', ?_, h', hlinked⟩
    rw [Session.deliver, hcur]
    rfl
  | sameBatch =>
    obtain ⟨graph', h', hlinked⟩ := h.collect hfresh
    exact ⟨_, graph', rfl, h', hlinked⟩

end Session

/-! ## The index along a run -/

/-- The identifier is that of a node or of a boundary node. -/
def KvGraphStore.HasEndpoint (store : KvGraphStore) (id : Nat) : Prop :=
  (∃ node, store.node id = .ok (some node)) ∨ ∃ node, store.boundaryNode id = .ok (some node)

/-- A command that creates uses a free identifier, and a relationship has its endpoints. -/
def KvGraphStore.Admits (store : KvGraphStore) : Command → Prop
  | .createNode id _ _ => store.node id = .ok none
  | .createRelationship id fromId toId _ _ =>
    store.relationship id = .ok none ∧ store.HasEndpoint fromId ∧ store.HasEndpoint toId
  | _ => True

variable {graph : PropertyGraph}

theorem KvGraphStore.Represents.fresh {store : KvGraphStore} (h : store.Represents graph)
    {command : Command} (hadmits : store.Admits command) :
    graph.Fresh command := by
  cases command with
  | createNode id =>
    have hnone : store.node id = .ok none := hadmits
    rw [h.node_eq] at hnone
    exact Except.ok.inj hnone
  | createRelationship id =>
    have hnone : store.relationship id = .ok none := hadmits.1
    rw [h.relationship_eq] at hnone
    exact Except.ok.inj hnone
  | _ => trivial

/-- The store admits every command when it is delivered. -/
def Admissible (deliveries : List Delivery) : Prop :=
  ∀ done delivery, done ++ [delivery] <+: deliveries →
    ∀ store, storeAfter done = .ok store → store.Admits delivery.command

variable {deliveries : List Delivery} {session : Session}

theorem storeAfter_eq (h : deliveries.foldlM Session.deliver .new = .ok session) :
    storeAfter deliveries = session.current := by
  rw [storeAfter, h]
  rfl

variable {done : List Delivery}

/-- One more delivery of an admissible run. -/
theorem Admissible.deliver (hadm : Admissible deliveries) {delivery : Delivery}
    (hpre : done ++ [delivery] <+: deliveries)
    (hrun : done.foldlM Session.deliver .new = .ok session) (h : session.Represents graph) :
    ∃ session' graph', (done ++ [delivery]).foldlM Session.deliver .new = .ok session' ∧
      session'.Represents graph' ∧ (graph.FullyLinked → (graph'.FullyLinked ↔
        ∀ id, createdNode delivery.command = some id → ¬graph.Entered id)) := by
  obtain ⟨store, hcur, hstore⟩ := h.current_eq
  have hadmits := hadm done delivery hpre store ((storeAfter_eq hrun).trans hcur)
  obtain ⟨session', graph', hok, h', hlinked⟩ := h.deliver (hstore.fresh hadmits)
  exact ⟨session', graph', exceptFoldlM_concat hrun hok, h', hlinked⟩

theorem Admissible.run (hadm : Admissible deliveries) (hpre : done <+: deliveries) :
    ∃ session graph, done.foldlM Session.deliver .new = .ok session ∧ session.Represents graph := by
  induction done using reverseRecOn with
  | nil => exact ⟨_, _, rfl, Session.represents_new⟩
  | append_singleton done delivery ih =>
    obtain ⟨session, graph, hrun, h⟩ := ih ((prefix_append _ _).trans hpre)
    obtain ⟨session', graph', hrun', h', -⟩ := hadm.deliver hpre hrun h
    exact ⟨session', graph', hrun', h'⟩

/-- The store is there after the deliveries, and sound. -/
def SoundAfter (deliveries : List Delivery) : Prop :=
  ∃ store, storeAfter deliveries = .ok store ∧ store.IndexSound

theorem soundAfter_iff (hrun : deliveries.foldlM Session.deliver .new = .ok session)
    (h : session.Represents graph) :
    SoundAfter deliveries ↔ graph.FullyLinked := by
  obtain ⟨store, hcur, hstore⟩ := h.current_eq
  rw [← hstore.indexSound_iff h.wellFormed, SoundAfter, storeAfter_eq hrun, hcur]
  constructor
  · rintro ⟨store', heq, hsound⟩
    cases heq
    exact hsound
  · exact fun hsound => ⟨store, rfl, hsound⟩

theorem admissible_nil : Admissible [] := forall_concat_isPrefix_nil

theorem Admissible.concat (h : Admissible deliveries) (delivery : Delivery) {store : KvGraphStore}
    (hafter : storeAfter deliveries = .ok store) (hadmits : store.Admits delivery.command) :
    Admissible (deliveries ++ [delivery]) := by
  refine forall_concat_isPrefix_concat.mpr ⟨fun store' hstore => ?_, h⟩
  rw [hafter] at hstore
  cases hstore
  exact hadmits

/-- Along an admissible run the index stays sound exactly if no node is created that a
stored relationship, made towards a boundary node, already enters. -/
theorem index_sound_along_iff (deliveries : List Delivery) (hadmissible : Admissible deliveries) :
    (∀ done, done <+: deliveries → SoundAfter done) ↔
      ∀ done delivery, done ++ [delivery] <+: deliveries → ∀ id labels properties,
        delivery.command = .createNode id labels properties →
          ∀ store, storeAfter done = .ok store →
            ∀ r relationship, store.relationship r = .ok (some relationship) →
              relationship.toId ≠ id := by
  refine forall_isPrefix_iff ?_ fun done delivery hpre hearlier => ?_
  · exact (soundAfter_iff rfl Session.represents_new).mpr fullyLinked_empty
  · obtain ⟨session, graph, hrun, h⟩ :=
      hadmissible.run ((prefix_append _ _).trans hpre)
    obtain ⟨session', graph', hrun', h', hlinked⟩ := hadmissible.deliver hpre hrun h
    have hfull := (soundAfter_iff hrun h).mp (hearlier done prefix_rfl)
    obtain ⟨store, hcurrent, hstore⟩ := h.current_eq
    have hafter : storeAfter done = .ok store := (storeAfter_eq hrun).trans hcurrent
    rw [soundAfter_iff hrun' h', hlinked hfull]
    constructor
    · intro hentered id labels properties hcommand store' heq r relationship hr hto
      rw [hafter] at heq
      cases heq
      rw [hstore.relationship_eq] at hr
      exact hentered id (by rw [hcommand]; rfl) ⟨r, relationship, Except.ok.inj hr, hto⟩
    · rintro hcond id hcreated ⟨r, relationship, hr, hto⟩
      cases hcommand : delivery.command with
      | createNode id' labels properties =>
        rw [hcommand] at hcreated
        cases hcreated
        refine hcond id labels properties hcommand store hafter r relationship ?_ hto
        rw [hstore.relationship_eq]
        exact congrArg _ hr
      | _ =>
        rw [hcommand] at hcreated
        cases hcreated

/-- A relationship towards a boundary node, in a batch. -/
theorem admissible_boundary_relationship :
    Admissible [.apply (.upsertBoundaryNode 5 1 [] [] 1), .newBatch (.createNode 1 [] []),
      .sameBatch (.createRelationship 0 1 5 "KNOWS" [])] :=
  ((admissible_nil.concat (.apply (.upsertBoundaryNode 5 1 [] [] 1)) rfl trivial).concat
    (.newBatch (.createNode 1 [] [])) rfl rfl).concat
      (.sameBatch (.createRelationship 0 1 5 "KNOWS" [])) rfl ⟨rfl, .inl ⟨_, rfl⟩, .inr ⟨_, rfl⟩⟩

theorem index_sound_boundary_relationship :
    SoundAfter [.apply (.upsertBoundaryNode 5 1 [] [] 1), .newBatch (.createNode 1 [] []),
      .sameBatch (.createRelationship 0 1 5 "KNOWS" [])] := by
  refine (index_sound_along_iff _ admissible_boundary_relationship).mpr ?_ _ prefix_rfl
  refine forall_concat_isPrefix_cons.mpr ⟨nofun, forall_concat_isPrefix_cons.mpr
    ⟨fun id labels properties _ store hstore r relationship hr => ?_,
      forall_concat_isPrefix_cons.mpr ⟨nofun, forall_concat_isPrefix_nil⟩⟩⟩
  cases hstore
  cases hr

/-- A relationship towards a boundary node, which then becomes a node: the report misses
the keys at its end. -/
theorem created_node_misses_incoming_keys :
    Admissible [.apply (.upsertBoundaryNode 5 1 [] [] 1), .newBatch (.createNode 1 [] []),
      .sameBatch (.createRelationship 0 1 5 "KNOWS" []), .apply (.createNode 5 [] [])] ∧
    ∃ store report, storeAfter [.apply (.upsertBoundaryNode 5 1 [] [] 1),
        .newBatch (.createNode 1 [] []), .sameBatch (.createRelationship 0 1 5 "KNOWS" []),
        .apply (.createNode 5 [] [])] = .ok store ∧
      store.verifyInvariants = .ok report ∧ report.isClean = false ∧
      report.missingIndexKeys =
        {indexKey (.incoming 5) 0, indexKey (.incomingType 5 "KNOWS") 0} := by
  refine ⟨admissible_boundary_relationship.concat (.apply (.createNode 5 [] [])) rfl rfl,
    _, _, rfl, rfl, ?_, ?_⟩
  · decide
  · decide

end Neo4r.Storage
