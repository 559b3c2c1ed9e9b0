/-
  `Db.Rebalance`: moving shards between the servers of a cluster
  (`neo4r-db/src/database/db_cluster/rebalance.rs`, `metadata.rs`, `database/helpers.rs`,
  `neo4r-storage/src/membership.rs`).

  The metadata authority plans steps from the routing table and the membership, and carries
  them out one by one: a server is added to a shard, the primary of a shard is moved, a server
  is taken from a shard.  What a server that is added has caught up with is kept in its
  assignment.

  The membership, the plan, the execution and the log of the metadata are in files, and every
  save of one may fail.  It then leaves its file as it was, but not what has been changed in
  memory before.  `install_routing_table` saves its own files before it changes the table in
  memory; these saves are left out.
-/
import Neo4r.Db.Reconfiguration

set_option autoImplicit false

namespace Neo4r.Db

open Foundation Raft Storage Database Fallible

/-! ## Membership -/

/-- `NodeMembershipState`. -/
inductive NodeMembershipState
  | negotiating
  | joining
  | active
  | draining
  | leaving
  | removed
  | dead
  | rejected
  deriving DecidableEq, Repr

/-- The name of a state in an error. -/
def NodeMembershipState.name : NodeMembershipState → String
  | .negotiating => "Negotiating"
  | .joining => "Joining"
  | .active => "Active"
  | .draining => "Draining"
  | .leaving => "Leaving"
  | .removed => "Removed"
  | .dead => "Dead"
  | .rejected => "Rejected"

/-- `ClusterNode`, without the versions and texts that only joining looks at. -/
structure ClusterNode where
  serverId : Nat
  address : String
  state : NodeMembershipState
  deriving DecidableEq, Repr

/-- `ShardAssignmentState`. -/
inductive ShardAssignmentState
  | planned
  | catchingUp
  | caughtUp
  | servingReplica
  | promoting
  | servingPrimary
  | removing
  | removed
  deriving DecidableEq, Repr

/-- The name of a state in an error. -/
def ShardAssignmentState.name : ShardAssignmentState → String
  | .planned => "Planned"
  | .catchingUp => "CatchingUp"
  | .caughtUp => "CaughtUp"
  | .servingReplica => "ServingReplica"
  | .promoting => "Promoting"
  | .servingPrimary => "ServingPrimary"
  | .removing => "Removing"
  | .removed => "Removed"

/-- `ClusterShardAssignment`. -/
structure ClusterShardAssignment where
  shardId : Nat
  serverId : Nat
  state : ShardAssignmentState
  matchIndex : Nat
  deriving DecidableEq, Repr

/-- `ClusterMembership`. -/
structure ClusterMembership where
  version : Nat
  nodes : List ClusterNode
  shardAssignments : List ClusterShardAssignment
  deriving DecidableEq, Repr

/-! ## Plans -/

/-- `RebalanceStep`. -/
inductive RebalanceStep
  | addReplica (shardId serverId : Nat)
  | transferPrimary (shardId fromServer toServer : Nat)
  | removeReplica (shardId serverId : Nat)
  deriving DecidableEq, Repr

/-- `RebalancePolicy`. -/
structure RebalancePolicy where
  replicationFactor : Nat
  maxStepsPerPlan : Nat
  deriving DecidableEq, Repr

/-- `RebalancePlanState`. -/
inductive RebalancePlanState
  | proposed
  | running
  | completed
  | failed
  | cancelled
  deriving DecidableEq, Repr

/-- `RebalancePlan`. -/
structure RebalancePlan where
  planId : Nat
  state : RebalancePlanState
  fromRoutingVersion : Nat
  targetRoutingVersion : Nat
  steps : List RebalanceStep
  deriving DecidableEq, Repr

/-- `RebalanceStepState`. -/
inductive RebalanceStepState
  | pending
  | preparing
  | catchingUp
  | ready
  | applying
  | applied
  | failed
  | cancelled
  deriving DecidableEq, Repr

/-- `RebalanceStepExecution`. -/
structure RebalanceStepExecution where
  stepIndex : Nat
  step : RebalanceStep
  state : RebalanceStepState
  attempts : Nat
  retryable : Bool
  lastError : String
  deriving DecidableEq, Repr

/-- `RebalanceExecution`. -/
structure RebalanceExecution where
  plan : RebalancePlan
  state : RebalancePlanState
  currentStep : Nat
  steps : List RebalanceStepExecution
  lastError : String
  deriving DecidableEq, Repr

/-- A server with what it knows of its cluster.  `savedPlan` is in the file of the plan, and
`saves` has the outcomes of the coming saves (a save past the end of the list succeeds). -/
structure ClusterDatabase (R : Type) where
  core : Database Command IndexedGraph R
  authorityServerId : Nat
  policy : RebalancePolicy
  membership : ClusterMembership
  savedPlan : Option RebalancePlan
  execution : Option RebalanceExecution
  saves : List (Except StorageError Unit)

namespace ClusterDatabase

variable {R : Type}

/-- An operation on a server. -/
abbrev Op (R α : Type) : Type := Fallible DatabaseError (ClusterDatabase R) α

/-- An operation that does not look at the cluster. -/
def onCore {α : Type} (x : Database.Op Command IndexedGraph R α) : Op R α :=
  zoom core (fun db core => { db with core }) x

/-! ## Metadata -/

/-- `ensure_metadata_authority`. -/
def ensureMetadataAuthority (db : ClusterDatabase R) : Except DatabaseError Unit :=
  if db.authorityServerId ≠ db.core.config.serverId then
    let serverId := db.core.config.serverId
    let authority := db.authorityServerId
    .error (.invalidConfig (s!"server {serverId} is not metadata authority {authority}; " ++
      "forward cluster metadata changes to the authority"))
  else .ok ()

/-- `ensure_joining_or_active_node`. -/
def ensureJoiningOrActiveNode (serverId : Nat) (db : ClusterDatabase R) :
    Except DatabaseError Unit :=
  match db.membership.nodes.find? fun node => node.serverId = serverId with
  | some node =>
    if node.state = .joining ∨ node.state = .active then .ok ()
    else
      let state := node.state.name
      .error (.invalidConfig s!"cluster node {serverId} is {state}, not joining or active")
  | none => .error (.invalidConfig s!"cluster node {serverId} does not exist")

/-- `assignment`. -/
def assignment (shardId serverId : Nat) (db : ClusterDatabase R) : Option ClusterShardAssignment :=
  db.membership.shardAssignments.find? fun assignment =>
    assignment.shardId = shardId && assignment.serverId = serverId

/-- The first element with the property is changed. -/
def modifyFirst {α : Type} (p : α → Bool) (f : α → α) : List α → List α
  | [] => []
  | a :: l => if p a then f a :: l else a :: modifyFirst p f l

/-- A change of the assignment that `assignment_mut` gives, if there is one. -/
def modifyAssignment (shardId serverId : Nat)
    (f : ClusterShardAssignment → ClusterShardAssignment) (membership : ClusterMembership) :
    ClusterMembership :=
  { membership with
    shardAssignments := modifyFirst (fun assignment => assignment.shardId = shardId &&
      assignment.serverId = serverId) f membership.shardAssignments }

/-- `has_active_assignment`. -/
def hasActiveAssignment (shardId serverId : Nat) (db : ClusterDatabase R) : Bool :=
  (db.assignment shardId serverId).any fun assignment =>
    assignment.state ≠ .removed && assignment.state ≠ .removing

/-- A file is saved. -/
def saveFile : Op R Unit :=
  ⟨fun db => ((db.saves.head?.getD (.ok ())).mapError .storage, { db with saves := db.saves.tail })⟩

/-- The membership with its next version, in order. -/
def nextMembership (membership : ClusterMembership) : ClusterMembership where
  version := saturatingAdd membership.version 1
  nodes := membership.nodes.insertionSort fun a b => a.serverId ≤ b.serverId
  shardAssignments := membership.shardAssignments.insertionSort fun a b =>
    a.shardId < b.shardId ∨ a.shardId = b.shardId ∧ a.serverId ≤ b.serverId

/-- `save_membership`. -/
def saveMembership : Op R Unit := do
  change fun db => { db with membership := nextMembership db.membership }
  saveFile

/-- `committed_index`. -/
def committedIndex (shardId : Nat) (db : ClusterDatabase R) : Except DatabaseError Nat :=
  if shardId < db.core.shardCount then .ok (db.core.commitIndexes shardId)
  else .error (.invalidConfig s!"routing table missing shard {shardId}")

/-- `observed_match_index`. -/
def observedMatchIndex (shardId serverId : Nat) (db : ClusterDatabase R) : Nat :=
  ((if shardId < db.core.shardCount then db.core.matchIndexes shardId serverId else none).or
    ((db.assignment shardId serverId).map (·.matchIndex))).getD 0

/-- `ensure_assignment_match_index`. -/
def ensureAssignmentMatchIndex (shardId serverId matchIndex : Nat) (db : ClusterDatabase R) :
    Except DatabaseError Unit := do
  let committedIndex ← db.committedIndex shardId
  if matchIndex < committedIndex then
    .error (.invalidConfig (s!"shard {shardId} server {serverId} match index {matchIndex} " ++
      s!"is behind committed index {committedIndex}"))
  else .ok ()

/-- `ensure_assignment_caught_up`. -/
def ensureAssignmentCaughtUp (shardId serverId : Nat) (db : ClusterDatabase R) :
    Except DatabaseError Unit :=
  match db.assignment shardId serverId with
  | some assignment =>
    if assignment.state = .caughtUp then
      db.ensureAssignmentMatchIndex shardId serverId assignment.matchIndex
    else
      let state := assignment.state.name
      .error (.invalidConfig
        s!"shard {shardId} server {serverId} assignment is {state}, not caught_up")
  | none => .error (.invalidConfig
      s!"shard {shardId} server {serverId} must be prepared and caught up before applying")

/-- `ensure_primary_transfer_target_ready`. -/
def ensurePrimaryTransferTargetReady (shardId serverId : Nat) (db : ClusterDatabase R) :
    Except DatabaseError Unit :=
  match db.assignment shardId serverId with
  | none => .ok ()
  | some assignment =>
    if assignment.state = .caughtUp ∨ assignment.state = .servingReplica ∨
        assignment.state = .servingPrimary then
      db.ensureAssignmentMatchIndex shardId serverId assignment.matchIndex
    else
      let state := assignment.state.name
      .error (.invalidConfig
        s!"shard {shardId} server {serverId} assignment is {state}, not transfer ready")

/-! ## Planning -/

/-- The steps that add the joining servers to shards that lack replicas.  `counts` has the
replicas that are planned so far. -/
def addSteps (db : ClusterDatabase R) :
    List (Nat × ShardPlacement) → (Nat → Nat) → List RebalanceStep
  | [], _ => []
  | (serverId, placement) :: rest, counts =>
    if counts placement.shardId < db.policy.replicationFactor &&
        (!placement.hasServer serverId && !db.hasActiveAssignment placement.shardId serverId) then
      .addReplica placement.shardId serverId :: db.addSteps rest
        (Function.update counts placement.shardId (counts placement.shardId + 1))
    else db.addSteps rest counts

/-- How many replicas the table gives a shard. -/
def replicaCounts (table : ShardRoutingTable) (shardId : Nat) : Nat :=
  table.placements.foldl (fun count placement =>
    if placement.shardId = shardId then placement.replicas.length else count) 0

/-- The steps that free a draining server of a shard. -/
def drainSteps (serverId : Nat) (placement : ShardPlacement) : List RebalanceStep :=
  if placement.primaryServerId = some serverId then
    match placement.replicas.find? fun replica => replica.serverId ≠ serverId with
    | some target => [.transferPrimary placement.shardId serverId target.serverId]
    | none => []
  else if placement.hasServer serverId then [.removeReplica placement.shardId serverId]
  else []

/-- `generate_rebalance_steps`. -/
def generateRebalanceSteps (db : ClusterDatabase R) : List RebalanceStep :=
  let placements := db.core.routingTable.placements
  let joining := db.membership.nodes.filter fun node => node.state = .joining
  let draining := db.membership.nodes.filter fun node => node.state = .draining
  db.addSteps (joining.flatMap fun node => placements.map fun placement =>
      (node.serverId, placement)) (replicaCounts db.core.routingTable) ++
    draining.flatMap fun node => placements.flatMap fun placement =>
      drainSteps node.serverId placement

/-- `RebalancePlanStore::save`. -/
def savePlan (plan : RebalancePlan) : Op R Unit := do
  saveFile
  change fun db => { db with savedPlan := some plan }

/-- `RebalanceExecutionStore::save`, and the execution that the server keeps from then on. -/
def saveExecution (execution : RebalanceExecution) : Op R Unit := do
  saveFile
  change fun db => { db with execution := some execution }

/-- `plan_rebalance`. -/
def planRebalance : Op R RebalancePlan := do
  lookup ensureMetadataAuthority
  let db ← current
  let steps := db.generateRebalanceSteps.take db.policy.maxStepsPerPlan
  let plan : RebalancePlan := {
    planId := (db.savedPlan.map fun plan => saturatingAdd plan.planId 1).getD 1
    state := .proposed
    fromRoutingVersion := db.core.routingTable.version
    targetRoutingVersion := db.core.routingTable.version + steps.length
    steps }
  savePlan plan
  -- `append_metadata_operation`
  saveFile
  pure plan

/-- `start_rebalance_plan`. -/
def startRebalancePlan : Op R RebalanceExecution := do
  lookup ensureMetadataAuthority
  let db ← current
  match db.execution.filter fun execution =>
      execution.state = .proposed || execution.state = .running with
  | some execution => pure execution
  | none => do
      let plan ← planRebalance
      let plan := { plan with state := .running }
      savePlan plan
      let execution : RebalanceExecution := {
        plan
        state := .running
        currentStep := 0
        steps := plan.steps.zipIdx.map fun step => ⟨step.2, step.1, .pending, 0, true, ""⟩
        lastError := "" }
      saveExecution execution
      pure execution

/-! ## Steps -/

/-- The placement that `mutable_placement` gives is edited. -/
def editPlacement (shardId : Nat) (edit : ShardPlacement → Except DatabaseError ShardPlacement) :
    List ShardPlacement → Except DatabaseError (List ShardPlacement)
  | [] => .error (.invalidConfig s!"routing table missing shard {shardId}")
  | placement :: placements =>
    if placement.shardId = shardId then do
      let placement ← edit placement
      pure (placement :: placements)
    else do
      let placements ← editPlacement shardId edit placements
      pure (placement :: placements)

/-- The edit of a step. -/
def editOf : RebalanceStep → ShardPlacement → Except DatabaseError ShardPlacement
  | .addReplica _ serverId, placement =>
    if placement.hasServer serverId then .ok placement
    else .ok { placement with replicas := placement.replicas ++ [⟨serverId, .replica⟩] }
  | .transferPrimary shardId fromServer toServer, placement =>
    if placement.primaryServerId ≠ some fromServer then
      .error (.invalidConfig s!"shard {shardId} primary is not server {fromServer}")
    else if !placement.hasServer toServer then
      .error (.invalidConfig s!"server {toServer} is not a replica of shard {shardId}")
    else .ok { placement with
      replicas := placement.replicas.map fun replica =>
        ⟨replica.serverId, if replica.serverId = toServer then .primary else .replica⟩ }
  | .removeReplica shardId serverId, placement =>
    if !placement.hasServer serverId then
      .error (.invalidConfig s!"server {serverId} does not serve shard {shardId}")
    else if placement.primaryServerId = some serverId then
      .error (.invalidConfig s!"cannot remove primary server {serverId} from shard {shardId}")
    else if placement.replicas.length ≤ 1 then
      .error (.invalidConfig s!"cannot remove the last replica from shard {shardId}")
    else .ok { placement with
      replicas := placement.replicas.filter fun replica => replica.serverId ≠ serverId }

/-- The shard of a step. -/
def shardOf : RebalanceStep → Nat
  | .addReplica shardId _ | .transferPrimary shardId _ _ | .removeReplica shardId _ => shardId

variable (step : RebalanceStep)

/-- What a step asks of the assignments. -/
def ensureReady (db : ClusterDatabase R) : Except DatabaseError Unit :=
  match step with
  | .addReplica shardId serverId => db.ensureAssignmentCaughtUp shardId serverId
  | .transferPrimary shardId _ toServer => db.ensurePrimaryTransferTargetReady shardId toServer
  | .removeReplica _ _ => .ok ()

/-- The table that a step leads to. -/
def tableAfter (db : ClusterDatabase R) : Except DatabaseError ShardRoutingTable := do
  db.ensureReady step
  let placements ← editPlacement (shardOf step) (editOf step) db.core.routingTable.placements
  pure ⟨saturatingAdd db.core.routingTable.version 1, placements⟩

/-- `finish_applied_assignments`. -/
def finishAppliedAssignments : Op R Unit := do
  change fun db => { db with
    membership := match step with
      | .addReplica shardId serverId =>
        modifyAssignment shardId serverId ({ · with state := .servingReplica }) db.membership
      | .transferPrimary shardId _ toServer =>
        modifyAssignment shardId toServer ({ · with state := .servingPrimary }) db.membership
      | .removeReplica shardId serverId =>
        modifyAssignment shardId serverId ({ · with state := .removed }) db.membership }
  saveMembership

/-- Whether a server holds a copy of any shard. -/
def serves (table : ShardRoutingTable) (serverId : Nat) : Bool :=
  table.placements.any fun placement => placement.hasServer serverId

/-- The body of the loop of `finish_drained_nodes`. -/
def settleNode (table : ShardRoutingTable) (node : ClusterNode) : ClusterNode :=
  let node := if node.state = .joining ∧ serves table node.serverId then
      { node with state := .active }
    else node
  if node.state = .draining ∧ serves table node.serverId = false then
    { node with state := .removed }
  else node

/-- `finish_drained_nodes`. -/
def finishDrainedNodes : Op R Unit := do
  let db ← current
  let nodes := db.membership.nodes.map (settleNode db.core.routingTable)
  if nodes = db.membership.nodes then pure ()
  else do
    change fun db => { db with membership := { db.membership with nodes } }
    saveMembership

variable (replicator : ShardReplicator Command R)

/-- `apply_rebalance_step`. -/
def applyRebalanceStep (step : RebalanceStep) : Op R ShardRoutingTable := do
  lookup ensureMetadataAuthority
  let table ← lookup (tableAfter step)
  let db ← current
  onCore (installRoutingTableAsAuthority replicator db.authorityServerId table)
  finishAppliedAssignments step
  finishDrainedNodes
  pure table

/-- The checks of `prepare_rebalance_step`. -/
def checkPrepare (db : ClusterDatabase R) : Except DatabaseError Unit :=
  match step with
  | .addReplica shardId serverId => do
      db.ensureJoiningOrActiveNode serverId
      if db.core.routingTable.hasLocalCopy shardId serverId then
        .error (.invalidConfig s!"server {serverId} already serves shard {shardId}")
      else .ok ()
  | .transferPrimary shardId fromServer toServer =>
    match db.core.routingTable.placement shardId with
    | none => .error (.invalidConfig s!"routing table missing shard {shardId}")
    | some placement =>
      if placement.primaryServerId ≠ some fromServer ∨ !placement.hasServer toServer then
        .error (.invalidConfig "primary transfer step does not match current placement")
      else .ok ()
  | .removeReplica shardId serverId =>
    match db.core.routingTable.placement shardId with
    | none => .error (.invalidConfig s!"routing table missing shard {shardId}")
    | some placement =>
      if !placement.hasServer serverId then
        .error (.invalidConfig s!"server {serverId} does not serve shard {shardId}")
      else .ok ()

/-- The assignment that `prepare_rebalance_step` starts. -/
def startAssignment (membership : ClusterMembership) : ClusterMembership :=
  match step with
  | .addReplica shardId serverId =>
    if membership.shardAssignments.any fun assignment =>
        assignment.shardId = shardId && assignment.serverId = serverId then
      modifyAssignment shardId serverId
        ({ · with state := .catchingUp, matchIndex := 0 }) membership
    else { membership with
      shardAssignments := membership.shardAssignments ++ [⟨shardId, serverId, .catchingUp, 0⟩] }
  | _ => membership

/-- `prepare_rebalance_step`. -/
def prepareRebalanceStep : Op R ClusterMembership := do
  lookup ensureMetadataAuthority
  lookup (checkPrepare step)
  change fun db => { db with membership := startAssignment step db.membership }
  saveMembership
  let db ← current
  pure db.membership

/-- `mark_shard_caught_up`. -/
def markShardCaughtUp (shardId serverId matchIndex : Nat) : Op R ClusterMembership := do
  lookup ensureMetadataAuthority
  lookup fun db => match db.assignment shardId serverId with
    | none => .error (.invalidConfig
        s!"shard {shardId} server {serverId} has no prepared assignment")
    | some assignment =>
      if assignment.state = .planned ∨ assignment.state = .catchingUp ∨
          assignment.state = .caughtUp then .ok ()
      else .error (.invalidConfig
        s!"shard {shardId} server {serverId} assignment is not catch-up eligible")
  change fun db => { db with
    membership := modifyAssignment shardId serverId ({ · with state := .caughtUp, matchIndex })
      db.membership }
  saveMembership
  let db ← current
  pure db.membership

/-! ## Executing a plan -/

/-- A server that is being added is looked at. -/
def checkCatchUp (shardId serverId : Nat) : Op R (String × RebalanceStepState) := do
  let committedIndex ← lookup (committedIndex shardId)
  let db ← current
  let observedIndex := db.observedMatchIndex shardId serverId
  let position := s!"shard={shardId} server={serverId} " ++
    s!"match_index={observedIndex} committed_index={committedIndex}"
  if committedIndex ≤ observedIndex then do
    let _ ← markShardCaughtUp shardId serverId observedIndex
    pure ("caught_up", .ready)
  else if observedIndex = 0 ∧ 0 < committedIndex then
    pure ("snapshot_bootstrap_required " ++ position, .catchingUp)
  else pure ("waiting_for_catch_up " ++ position, .catchingUp)

/-- `advance_rebalance_step`, with the state that it leaves the step in. -/
def advanceRebalanceStep (step : RebalanceStep)
    (state : RebalanceStepState) : Op R (String × RebalanceStepState) :=
  match step, state with
  | .addReplica _ _, .pending | .addReplica _ _, .preparing | .addReplica _ _, .failed => do
      let _ ← prepareRebalanceStep step
      pure ("prepared", .catchingUp)
  | .addReplica shardId serverId, .catchingUp => checkCatchUp shardId serverId
  | .transferPrimary _ _ _, .catchingUp | .removeReplica _ _, .catchingUp =>
    pure ("ready", .catchingUp)
  | _, .applied => pure ("already_applied", .applied)
  | _, .cancelled => pure ("cancelled", .cancelled)
  | _, _ => do
      let _ ← applyRebalanceStep replicator step
      pure ("applied", .applied)

/-- `sanitize_cluster_text`. -/
def sanitizeClusterText (input : String) : String :=
  input.map fun ch => if ch = '\t' || ch = '\n' || ch = '\r' then ' ' else ch

/-- `is_retryable_rebalance_error`. -/
def isRetryableRebalanceError : DatabaseError → Bool
  | .invalidConfig message =>
    ["caught up", "catch-up", "behind committed index", "transfer ready"].any fun text =>
      (message.splitOn text).length ≠ 1
  | .replication _ => true
  | _ => false

/-- What the result of a step makes of it. -/
def recordStep (result : Except DatabaseError (String × RebalanceStepState))
    (step : RebalanceStepExecution) : RebalanceStepExecution :=
  let step := { step with attempts := saturatingAdd step.attempts 1 }
  match result with
  | .ok (_, state) => { step with state }
  | .error err => { step with
      state := .failed
      lastError := sanitizeClusterText err.text
      retryable := isRetryableRebalanceError err }

/-- What the result of a step makes of the execution. -/
def recordResult (result : Except DatabaseError (String × RebalanceStepState)) (stepIndex : Nat)
    (execution : RebalanceExecution) : RebalanceExecution × String :=
  let execution := { execution with
    currentStep := stepIndex
    steps := execution.steps.modify stepIndex (recordStep result) }
  let (execution, action) := match result with
    | .ok (action, _) => ({ execution with lastError := "" }, action)
    | .error err => ({ execution with
        state := .failed
        plan := { execution.plan with state := .failed }
        lastError := sanitizeClusterText err.text }, "failed")
  if execution.steps.all fun step => step.state = .applied then
    ({ execution with
      state := .completed
      plan := { execution.plan with state := .completed } }, action)
  else (execution, action)

/-- The end of `advance_rebalance`: the plan and the execution are saved. -/
def saveProgress (execution : RebalanceExecution) : Op R Unit := do
  savePlan execution.plan
  saveExecution execution

/-- The execution that is under way. -/
def activeExecution (db : ClusterDatabase R) : Except DatabaseError RebalanceExecution :=
  match db.execution with
  | some execution => .ok execution
  | none => .error (.invalidConfig "no active rebalance execution")

/-- The execution that `advance_rebalance` goes on with, which it starts if there is none. -/
def currentExecution : Op R RebalanceExecution := do
  let db ← current
  if db.execution.isNone then do
    let _ ← startRebalancePlan
    lookup activeExecution
  else lookup activeExecution

/-- `advance_rebalance`. -/
def advanceRebalance : Op R (RebalanceExecution × String) := do
  lookup ensureMetadataAuthority
  let execution ← currentExecution
  if execution.state ≠ .running then pure (execution, "idle")
  else match execution.steps.zipIdx.find? fun step => step.1.state ≠ .applied with
    | none => do
        let execution := { execution with
          state := .completed
          plan := { execution.plan with state := .completed } }
        saveProgress execution
        pure (execution, "completed")
    | some step => do
        let result ← (advanceRebalanceStep replicator step.1.step step.1.state).attempt
        let recorded := recordResult result step.2 execution
        saveProgress recorded.1
        pure recorded

/-! ## Without Raft groups -/

variable {replicator : ShardReplicator Command R} {table : ShardRoutingTable}
  {core core' : GraphCore R}

/-- The server with another state of its replicator. -/
def withReplicator (core : Database Command IndexedGraph R) (replicator : R) :
    Database Command IndexedGraph R :=
  { core with replicator }

/-- The server with a new table. -/
def withTable (core : Database Command IndexedGraph R) (replicator : R)
    (table : ShardRoutingTable) : Database Command IndexedGraph R :=
  { core with replicator, configEpoch := table.version, routingTable := table }

theorem phase_none (h : core.raftGroups = none) (phase description : String) :
    (appendReplicatedConfigChangePhase replicator phase description table).run core =
      (.ok (), core) := by
  rw [appendReplicatedConfigChangePhase, run_bind_of_ok (run_current core), h]
  rfl

/-- **Without Raft groups a table is installed** if it passes the checks and the replicator
takes it; otherwise nothing is changed. -/
theorem installRoutingTable_cases (h : core.raftGroups = none) (authorityServerId : Nat) :
    (∃ err r, (installRoutingTableAsAuthority replicator authorityServerId table).run core =
        (.error err, withReplicator core r) ∧
          (checkNewTable authorityServerId table core = .error err ∨
            (replicator.installRoutingTable table).run core.replicator = (.error err, r))) ∨
      ∃ r, (installRoutingTableAsAuthority replicator authorityServerId table).run core =
        (.ok (), withTable core r table) ∧ checkNewTable authorityServerId table core = .ok () := by
  rw [installRoutingTableAsAuthority]
  cases hcheck : checkNewTable authorityServerId table core with
  | error err =>
    rw [run_bind, run_lookup, hcheck]
    exact .inl ⟨err, core.replicator, rfl, .inl rfl⟩
  | ok =>
    have hbegin : (beginJointConsensusForRouting table).run core = (.ok (), core) := by
      rw [beginJointConsensusForRouting]
      dsimp only
      rw [h]
    rw [run_lookup_of_ok hcheck, run_bind_of_ok (phase_none h _ _),
      run_bind_of_ok hbegin, run_bind_of_ok (phase_none h _ _)]
    rcases hinst : (replicator.installRoutingTable table).run core.replicator with ⟨result, r⟩
    have hrun : (onReplicator (replicator.installRoutingTable table)).run core =
        (result, withReplicator core r) := by
      rw [onReplicator, run_zoom, hinst]
      rfl
    cases result with
    | error err =>
      rw [run_bind_of_error hrun]
      exact .inl ⟨err, r, rfl, .inr rfl⟩
    | ok =>
      have hset : (setRoutingTable table).run (withReplicator core r) =
          (.ok (), withTable core r table) := rfl
      have hnone : (withTable core r table).raftGroups = none := h
      have hrebuild : rebuildRaftGroups.run (withTable core r table) =
          (.ok (), withTable core r table) := by
        rw [rebuildRaftGroups, run_bind_of_ok (run_current _), hnone]
        rfl
      have hfinalize : (finalizeJointConsensusForRouting table).run
          (withTable core r table) = (.ok (), withTable core r table) := by
        rw [finalizeJointConsensusForRouting, run_change, hnone, Option.map_none, ← hnone]
      rw [run_bind_of_ok hrun, run_bind_of_ok hset,
        run_bind_of_ok hrebuild, run_bind_of_ok (phase_none hnone _ _), hfinalize]
      exact .inr ⟨r, rfl, rfl⟩

end ClusterDatabase

end Neo4r.Db
