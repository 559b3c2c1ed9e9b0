/-
  `Db.GraphIndexes`: the graph of a server with its index catalog, and what the catalog has
  against a command (`neo4r-storage/src/catalog.rs`,
  `neo4r-db/src/database/db_index_validation.rs`, `database/helpers.rs`,
  `database/vector_index.rs`, `database/write_cypher_helpers.rs`,
  `database/db_write_schema/schema_index.rs`).

  `graphEngine` is the engine that the program runs on.  The caches of the vector indexes
  and the statistics are computed from the store and read by no modelled function, so
  keeping them up to date does nothing here.  Messages are without the property values
  that the program prints in them.
-/
import Neo4r.Db.Database
import Neo4r.Storage.Partition

set_option autoImplicit false

namespace Neo4r

open Value

/-! ## Equality of values -/

/-- Equality of floating-point numbers of some exponent and mantissa widths, from their
bits: a number that is not one equals nothing, and the zeros are equal. -/
def floatEq (exponent mantissa : Nat) (a b : Nat) : Bool :=
  let isNan := fun bits => decide (bits / 2 ^ mantissa % 2 ^ exponent = 2 ^ exponent - 1) &&
    decide (bits % 2 ^ mantissa ≠ 0)
  let isZero := fun bits => decide (bits % 2 ^ (exponent + mantissa) = 0)
  !isNan a && !isNan b && (decide (a = b) || isZero a && isZero b)

mutual

/-- `Value::eq`, on values whose maps are listed by key. -/
def Value.keyEq : ValueKey → ValueKey → Bool
  | .null, .null => true
  | .bool a, .bool b => a = b
  | .int a, .int b => a = b
  | .float a, .float b => floatEq 11 52 a b
  | .string a, .string b => a = b
  | .vector a, .vector b =>
    a.length = b.length && (a.zip b).all fun pair => floatEq 8 23 pair.1 pair.2
  | .map a, .map b => entriesEq a b
  | _, _ => false

/-- Equality of maps, listed by key. -/
def Value.entriesEq : List (String × ValueKey) → List (String × ValueKey) → Bool
  | [], [] => true
  | (key, a) :: as, (key', b) :: bs => decide (key = key') && keyEq a b && entriesEq as bs
  | _, _ => false

end

/-- `Value::eq`. -/
def Value.partialEq (a b : Value) : Bool := keyEq a.toKey b.toKey

mutual

/-- No floating-point number stands in the value. -/
def Value.floatFree : Value → Bool
  | .float _ | .vector _ => false
  | .map entries => entriesFloatFree entries
  | _ => true

/-- No floating-point number stands in the values of a map. -/
def Value.entriesFloatFree : List (String × Value) → Bool
  | [] => true
  | entry :: entries => entry.2.floatFree && entriesFloatFree entries

end

theorem Value.entriesFloatFree_iff (entries : List (String × Value)) :
    entriesFloatFree entries = true ↔ ∀ entry ∈ entries, entry.2.floatFree = true := by
  induction entries with
  | nil => simp [entriesFloatFree]
  | cons entry entries ih => simp [entriesFloatFree, ih]

theorem Value.floatFree_toKey (value : Value) : value.toKey.floatFree = value.floatFree := by
  refine @rec (fun value => value.toKey.floatFree = value.floatFree)
    (fun entries => entriesFloatFree (entryKeys entries) = entriesFloatFree entries)
    (fun entry => entry.2.toKey.floatFree = entry.2.floatFree)
    rfl (fun _ => rfl) (fun _ => rfl) (fun _ => rfl) (fun _ => rfl) (fun _ => rfl) ?_ rfl ?_
    (fun _ _ h => h) value
  · intro entries ih
    rw [floatFree, ← ih, toKey, floatFree, Bool.eq_iff_iff,
      entriesFloatFree_iff, entriesFloatFree_iff]
    simp only [(List.perm_insertionSort _ _).mem_iff]
  · intro entry entries hvalue ih
    rw [entryKeys, entriesFloatFree, entriesFloatFree, hvalue, ih]

/-- Against a value without floating-point numbers, `Value::eq` is equality of keys. -/
theorem Value.keyEq_iff (key' : ValueKey) (h : key'.floatFree = true) (key : ValueKey) :
    keyEq key key' = true ↔ key = key' := by
  refine @rec (fun key' => key'.floatFree = true → ∀ key, keyEq key key' = true ↔ key = key')
    (fun entries' => entriesFloatFree entries' = true →
      ∀ entries, entriesEq entries entries' = true ↔ entries = entries')
    (fun entry' => entry'.2.floatFree = true → ∀ key, keyEq key entry'.2 = true ↔ key = entry'.2)
    ?_ ?_ ?_ ?_ ?_ ?_ ?_ ?_ ?_ ?_ key' h key
  case refine_4 | refine_6 => simp [floatFree]
  case refine_7 =>
    intro entries' ih hfree key
    cases key with
    | map entries => simpa [keyEq] using ih hfree entries
    | _ => simp [keyEq]
  case refine_8 =>
    intro _ entries
    cases entries <;> simp [entriesEq]
  case refine_9 =>
    intro entry' entries' hvalue ih hfree entries
    rw [entriesFloatFree, Bool.and_eq_true] at hfree
    cases entries with
    | nil => simp [entriesEq]
    | cons => simp [entriesEq, hvalue hfree.1, ih hfree.2, Prod.ext_iff]
  case refine_10 => exact fun _ _ h => h
  all_goals
    intros
    rename_i key
    cases key <;> simp [keyEq]

/-- `Option::eq`, on the values that two maps have under a key. -/
def sameProperty : Option Value → Option Value → Bool
  | some value, some value' => value.partialEq value'
  | none, none => true
  | _, _ => false

theorem sameProperty_iff {value : Value} (h : value.floatFree = true) (property : Option Value) :
    sameProperty property (some value) = true ↔ ∃ value', property = some value' ∧
      value'.toKey = value.toKey := by
  cases property with
  | none => simp [sameProperty]
  | some =>
    simp [sameProperty, partialEq, keyEq_iff _ ((floatFree_toKey value).trans h)]

end Neo4r

namespace Neo4r.Db

open Foundation Storage

/-! ## The catalog -/

/-- `IndexKind`. -/
inductive IndexKind
  | nodeProperty
  | uniqueNodeProperty
  | vector (dimensions : Nat) (metric : String)
  deriving DecidableEq, Repr

/-- `IndexDefinition`. -/
structure IndexDefinition where
  name : String
  label : String
  property : String
  kind : IndexKind
  deriving DecidableEq, Repr

/-- `VectorMetric`. -/
inductive VectorMetric
  | cosine
  | l2
  deriving DecidableEq, Repr

/-- `eq_ignore_ascii_case`. -/
def eqIgnoreAsciiCase (a b : String) : Bool := a.toList.map Char.toLower = b.toList.map Char.toLower

/-- `parse_vector_metric`. -/
def parseVectorMetric (metric : String) : Option VectorMetric :=
  if eqIgnoreAsciiCase metric "cosine" then some .cosine
  else if eqIgnoreAsciiCase metric "l2" then some .l2
  else none

/-- `vector_definition_parts`. -/
def vectorDefinitionParts (index : IndexDefinition) : Option (Nat × VectorMetric) :=
  match index.kind with
  | .vector dimensions metric => (parseVectorMetric metric).map fun metric => (dimensions, metric)
  | _ => none

/-- The characters that `trim` takes off. -/
def isWhiteSpace (char : Char) : Bool :=
  (9 ≤ char.toNat && char.toNat ≤ 13) || (0x2000 ≤ char.toNat && char.toNat ≤ 0x200a) ||
    char.toNat ∈ [0x20, 0x85, 0xa0, 0x1680, 0x2028, 0x2029, 0x202f, 0x205f, 0x3000]

/-- `validate_catalog_identifier`. -/
def validateCatalogIdentifier (kind value : String) : Except DatabaseError Unit :=
  if value.toList.all isWhiteSpace ∨
      value.toList.any fun char => char = '\t' || char = '\n' || char = '\r' then
    .error (.invalidConfig s!"{kind} must be a non-empty token")
  else .ok ()

/-- `validate_index_definition`. -/
def validateIndexDefinition (index : IndexDefinition) : Except DatabaseError Unit := do
  validateCatalogIdentifier "index name" index.name
  validateCatalogIdentifier "index label" index.label
  validateCatalogIdentifier "index property" index.property
  match index.kind with
  | .vector dimensions metric =>
    if dimensions = 0 then
      .error (.invalidConfig "vector index dimensions must be greater than zero")
    else if (parseVectorMetric metric).isNone then
      let shown := metric.quote
      .error (.invalidConfig s!"unsupported vector index metric {shown}")
    else .ok ()
  | _ => .ok ()

/-- The graph store of a server and the indexes of its catalog. -/
structure IndexedGraph where
  store : PartitionedGraphStore
  indexes : List IndexDefinition

/-- A server that replicates a graph. -/
abbrev GraphCore (R : Type) : Type := Database Command IndexedGraph R

/-- An operation on it. -/
abbrev CoreOp (R α : Type) : Type := Database.Op Command IndexedGraph R α

namespace IndexedGraph

/-- `self.store.node`. -/
def node (graph : IndexedGraph) (id : Nat) : Except DatabaseError (Option Node) :=
  (graph.store.node id).mapError .storage

/-! ## Properties that can be stored -/

/-- `validate_storable_property_value`. -/
def validateStorablePropertyValue : Value → Except DatabaseError Unit
  | .map _ => .error (.invalidConfig "graph properties do not support nested map values")
  | _ => .ok ()

/-- `validate_storable_properties`. -/
def validateStorableProperties (properties : Properties) : Except DatabaseError Unit :=
  properties.forM fun entry => validateStorablePropertyValue entry.2

/-- `validate_storable_properties_for_command`. -/
def validateStorablePropertiesForCommand : Command → Except DatabaseError Unit
  | .createNode _ _ properties | .createRelationship _ _ _ _ properties
  | .upsertBoundaryNode _ _ _ properties _ => validateStorableProperties properties
  | .setNodeProperty _ _ value | .setRelationshipProperty _ _ value =>
    validateStorablePropertyValue value
  | _ => .ok ()

/-! ## Vector indexes -/

/-- `validate_vector_indexed_property_value`. -/
def validateVectorIndexedPropertyValue (index : IndexDefinition) (properties : Properties)
    (dimensions : Nat) : Except DatabaseError Unit :=
  match properties.get index.property with
  | none => .ok ()
  | some (.vector vector) =>
    if vector.length ≠ dimensions then
      .error (.invalidConfig (s!"vector indexed property {index.label}.{index.property} " ++
        s!"expected {dimensions} dimensions, got {vector.length}"))
    else .ok ()
  | some _ => .error (.invalidConfig
      s!"vector indexed property {index.label}.{index.property} must be a vector")

/-- `validate_vector_indexed_properties`. -/
def validateVectorIndexedProperties (indexes : List IndexDefinition) (labels : List String)
    (properties : Properties) : Except DatabaseError Unit :=
  indexes.forM fun index => match vectorDefinitionParts index with
    | none => .ok ()
    | some (dimensions, _) =>
      if index.label ∈ labels then
        validateVectorIndexedPropertyValue index properties dimensions
      else .ok ()

/-- The labels of a node with one more, unless it has it. -/
def labelsWith (labels : List String) (label : String) : List String :=
  if label ∈ labels then labels else labels ++ [label]

variable (graph : IndexedGraph)

/-- `validate_vector_indexes_for_command`. -/
def validateVectorIndexesForCommand :
    Command → Except DatabaseError Unit
  | .createNode _ labels properties =>
    validateVectorIndexedProperties graph.indexes labels properties
  | .setNodeProperty id key value => do
      match ← graph.node id with
      | none => pure ()
      | some node =>
        validateVectorIndexedProperties graph.indexes node.labels
          (Properties.insert node.properties key value)
  | .addNodeLabel id label => do
      match ← graph.node id with
      | none => pure ()
      | some node =>
        validateVectorIndexedProperties graph.indexes (labelsWith node.labels label) node.properties
  | _ => .ok ()

/-- The nodes that the entries of a replicated batch have written so far, or deleted. -/
abbrev NodeOverlay := FiniteMap Nat (Option Node)

/-- `overlay_node`. -/
def overlayNode (overlay : NodeOverlay) (id : Nat) :
    Except DatabaseError (Option Node) :=
  match overlay.get id with
  | some node => .ok node
  | none => graph.node id

/-- `validate_replicated_vector_indexes_for_command`, with the overlay after the command. -/
def validateReplicatedVectorIndexesForCommand (overlay : NodeOverlay) :
    Command → Except DatabaseError NodeOverlay
  | .createNode id labels properties => do
      validateVectorIndexedProperties graph.indexes labels properties
      pure (overlay.insert id (some ⟨id, labels, properties⟩))
  | .setNodeProperty id key value => do
      match ← graph.overlayNode overlay id with
      | none => pure overlay
      | some node =>
        let node := node.withProperty key value
        validateVectorIndexedProperties graph.indexes node.labels node.properties
        pure (overlay.insert id (some node))
  | .removeNodeProperty id key => do
      match ← graph.overlayNode overlay id with
      | none => pure overlay
      | some node => pure (overlay.insert id (some (node.withoutProperty key)))
  | .addNodeLabel id label => do
      match ← graph.overlayNode overlay id with
      | none => pure overlay
      | some node =>
        let node := { node with labels := labelsWith node.labels label }
        validateVectorIndexedProperties graph.indexes node.labels node.properties
        pure (overlay.insert id (some node))
  | .removeNodeLabel id label => do
      match ← graph.overlayNode overlay id with
      | none => pure overlay
      | some node => pure (overlay.insert id (some { node with
          labels := node.labels.filter fun existing => existing ≠ label }))
  | .deleteNode id => pure (overlay.insert id none)
  | _ => pure overlay

/-- The check of an entry of a replicated batch, after the commands of the entries that
have been accepted before it. -/
def validateReplicatedVectorIndexes (accepted : List Command)
    (command : Command) : Except DatabaseError Unit := do
  let overlay ← accepted.foldlM graph.validateReplicatedVectorIndexesForCommand .empty
  let _ ← graph.validateReplicatedVectorIndexesForCommand overlay command
  pure ()

/-! ## Unique constraints -/

/-- `unique_node_property_constraints_for`. -/
def uniqueNodePropertyConstraintsFor (labels : List String)
    (property : Option String) : List IndexDefinition :=
  graph.indexes.filter fun index => decide (index.kind = .uniqueNodeProperty) &&
    decide (index.label ∈ labels) && property.all fun property => property = index.property

/-- `ensure_unique_node_property_value`. -/
def ensureUniqueNodePropertyValue (label property : String) (value : Value)
    (exceptNodeId : Option Nat) : Except DatabaseError Unit :=
  if value = .null then .ok ()
  else (graph.store.nodeIdsByLabelProperty label property value).forM fun existingId =>
    if some existingId ≠ exceptNodeId then
      .error (.invalidConfig (s!"unique constraint violation for {label}.{property}; " ++
        s!"existing node {existingId}"))
    else .ok ()

/-- The loop over the constraints of a node that has the properties. -/
def ensureUniqueProperties (id : Nat) (labels : List String)
    (properties : Properties) : Except DatabaseError Unit :=
  (graph.uniqueNodePropertyConstraintsFor labels none).forM fun index =>
    match properties.get index.property with
    | none => .ok ()
    | some value =>
      graph.ensureUniqueNodePropertyValue index.label index.property value (some id)

/-- `validate_unique_constraints_for_command`. -/
def validateUniqueConstraintsForCommand :
    Command → Except DatabaseError Unit
  | .createNode id labels properties => graph.ensureUniqueProperties id labels properties
  | .setNodeProperty id key value => do
      match ← graph.node id with
      | none => pure ()
      | some node =>
        (graph.uniqueNodePropertyConstraintsFor node.labels (some key)).forM fun index =>
          graph.ensureUniqueNodePropertyValue index.label index.property value (some id)
  | .addNodeLabel id label => do
      match ← graph.node id with
      | none => pure ()
      | some node =>
        if label ∈ node.labels then pure ()
        else graph.ensureUniqueProperties id (node.labels ++ [label]) node.properties
  | _ => .ok ()

/-! ## Changes of the catalog -/

/-- The loop of `validate_existing_unique_node_property_constraint`: `seen` has the values
of the nodes before. -/
def checkUniqueValues (index : IndexDefinition) :
    List Node → List (Value × Nat) → Except DatabaseError Unit
  | [], _ => .ok ()
  | node :: nodes, seen =>
    if index.label ∉ node.labels then checkUniqueValues index nodes seen
    else match Properties.get node.properties index.property with
      | none => checkUniqueValues index nodes seen
      | some value =>
        if value = .null then checkUniqueValues index nodes seen
        else match seen.find? fun entry => entry.1.partialEq value with
          | some (_, existingId) =>
            let name := index.name.quote
            .error (.invalidConfig (s!"unique constraint {name} would be violated by " ++
              s!"nodes {existingId} and {node.id} for {index.label}.{index.property}"))
          | none => checkUniqueValues index nodes (seen ++ [(value, node.id)])

/-- `validate_existing_unique_node_property_constraint`. -/
def validateExistingUniqueNodePropertyConstraint
    (index : IndexDefinition) : Except DatabaseError Unit := do
  let nodes ← graph.store.nodes.mapError .storage
  checkUniqueValues index nodes []

/-- `validate_existing_vector_index_values`. -/
def validateExistingVectorIndexValues (index : IndexDefinition) :
    Except DatabaseError Unit :=
  match vectorDefinitionParts index with
  | none => .ok ()
  | some (dimensions, _) => do
      let nodes ← graph.store.nodes.mapError .storage
      nodes.forM fun node =>
        if index.label ∈ node.labels then
          validateVectorIndexedPropertyValue index node.properties dimensions
        else .ok ()

/-- The checks of `add_index_definition`. -/
def validateNewIndex (index : IndexDefinition) : Except DatabaseError Unit := do
  validateIndexDefinition index
  if graph.indexes.any fun existing => existing.name = index.name then
    let name := index.name.quote
    .error (.invalidConfig s!"index {name} already exists")
  else match index.kind with
    | .nodeProperty => .ok ()
    | .vector _ _ =>
      if graph.indexes.any fun existing => existing.kind matches .vector _ _ &&
          existing.label = index.label && existing.property = index.property &&
          (vectorDefinitionParts existing).map Prod.snd =
            (vectorDefinitionParts index).map Prod.snd then
        let label := index.label.quote
        let property := index.property.quote
        .error (.invalidConfig
          s!"vector index already exists for label {label} property {property}")
      else graph.validateExistingVectorIndexValues index
    | .uniqueNodeProperty =>
      if graph.indexes.any fun existing => existing.kind = .uniqueNodeProperty &&
          existing.label = index.label && existing.property = index.property then
        let label := index.label.quote
        let property := index.property.quote
        .error (.invalidConfig
          s!"unique constraint already exists for label {label} property {property}")
      else graph.validateExistingUniqueNodePropertyConstraint index

/-- `add_index_definition`. -/
def addIndexDefinition (index : IndexDefinition) : Fallible DatabaseError IndexedGraph Unit := do
  Fallible.lookup fun graph => graph.validateNewIndex index
  Fallible.change fun graph => { graph with indexes := graph.indexes ++ [index] }

/-- `drop_index`. -/
def dropIndex (name : String) : Fallible DatabaseError IndexedGraph Unit := do
  let graph ← Fallible.current
  if graph.indexes.all fun index => index.name ≠ name then
    let shown := name.quote
    Fallible.fail (.invalidConfig s!"index {shown} does not exist")
  else Fallible.change fun graph => { graph with
    indexes := graph.indexes.filter fun index => index.name ≠ name }

/-! ## The engine -/

/-- A command on the store. -/
def applyCommand (shardId : Nat) (command : Command) : Fallible DatabaseError IndexedGraph Unit :=
  ⟨fun graph => match graph.store.apply shardId command with
    | .ok store => (.ok (), { graph with store })
    | .error err => (.error (.storage err), graph)⟩

/-- A batch of commands on the store. -/
def applyCommands (commands : List (Nat × Command)) : Fallible DatabaseError IndexedGraph Unit :=
  ⟨fun graph =>
    (((PartitionedGraphStore.applyBatch commands).run graph.store).1.mapError .storage,
      { graph with store := ((PartitionedGraphStore.applyBatch commands).run graph.store).2 })⟩

end IndexedGraph

open IndexedGraph in
/-- The engine of the program. -/
def graphEngine : GraphEngine Command IndexedGraph where
  configChange
    | .clusterConfigChange phase _ _ routingTable => some (phase, routingTable)
    | _ => none
  validateStorableProperties := validateStorablePropertiesForCommand
  validateVectorIndexes := validateVectorIndexesForCommand
  validateUniqueConstraints := validateUniqueConstraintsForCommand
  validateReplicatedVectorIndexes := validateReplicatedVectorIndexes
  apply := applyCommand
  applyBatch := applyCommands
  updateVectorIndexes _ := pure ()
  refreshStatistics := pure ()

end Neo4r.Db
