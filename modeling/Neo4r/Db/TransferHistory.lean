/-
  `Db.TransferHistory`: whether the primary of a shard moves to servers with every committed
  entry.

  A server acknowledges the entries that are published to it, which the primary counts in
  `match_indexes`, and a server that is added acknowledges what it has replayed.  A transfer asks
  neither: it asks the assignment of its target, which has the position that was reported to
  `mark_shard_caught_up`, and asks nothing of a server of the first table, which has no
  assignment.

  Over every history of writes, acknowledgements and calls, the assignments are not ahead of the
  acknowledgements if no report is.  The commit index runs ahead of an assignment with the first
  write after its server was added.
-/
import Neo4r.Db.PlanExecution

set_option autoImplicit false

namespace Neo4r.Db

open Foundation Raft List Fallible

/-! ## What is acknowledged -/

namespace Database

variable {R : Type} {replicator : ShardReplicator Command R} {db db' : GraphCore R}

/-- What the servers have acknowledged has only grown, and so have the logs of the server
itself. -/
structure AcksGrow (db db' : Database Command IndexedGraph R) : Prop where
  config : db'.config = db.config
  logs : ∀ shardId, db.nextLogIndexes shardId ≤ db'.nextLogIndexes shardId
  acks : ∀ shardId serverId,
    (db.matchIndexes shardId serverId).getD 0 ≤ (db'.matchIndexes shardId serverId).getD 0

instance : IsPreorder (Database Command IndexedGraph R) AcksGrow where
  refl _ := ⟨rfl, fun _ => Nat.le_refl _, fun _ _ => Nat.le_refl _⟩
  trans _ _ _ h h' := ⟨h'.config.trans h.config, fun shard => (h.logs shard).trans (h'.logs shard),
    fun shard server => (h.acks shard server).trans (h'.acks shard server)⟩

/-- What concerns neither. -/
theorem acksGrow_of_eq (hconfig : db'.config = db.config)
    (hnext : db'.nextLogIndexes = db.nextLogIndexes)
    (hmatch : db'.matchIndexes = db.matchIndexes) : AcksGrow db db' :=
  ⟨hconfig, fun _ => hnext ▸ Nat.le_refl _, fun _ _ => hmatch ▸ Nat.le_refl _⟩

theorem le_raiseMatch (slots : Nat → Option Nat) (raised index serverId : Nat) :
    (slots serverId).getD 0 ≤ (raiseMatch slots raised index serverId).getD 0 := by
  rw [raiseMatch, Function.update_apply]
  split
  · next heq =>
    rw [heq, Option.getD_some]
    exact Nat.le_max_left _ _
  · exact Nat.le_refl _

theorem le_foldl_raiseMatch {α : Type} (server index : α → Nat) (acks : List α)
    (slots : Nat → Option Nat) (serverId : Nat) :
    (slots serverId).getD 0 ≤ ((acks.foldl (fun slots ack =>
      raiseMatch slots (server ack) (index ack)) slots) serverId).getD 0 := by
  induction acks generalizing slots with
  | nil => exact Nat.le_refl _
  | cons ack acks ih => exact (le_raiseMatch slots _ _ serverId).trans (ih _)

theorem observeReplicationOutcome_acksGrow (entry : LogEntry Command)
    (outcome : ReplicationOutcome) :
    Respects AcksGrow (observeReplicationOutcome entry outcome : CoreOp R Unit) := by
  refine Respects.lookup_bind fun db slots hslots => ?_
  obtain ⟨-, rfl⟩ := of_ofShard_ok hslots
  refine ⟨rfl, fun _ => Nat.le_refl _, fun shard server => ?_⟩
  dsimp only [run_change]
  rw [Function.update_apply]
  split
  · next heq =>
    rw [heq]
    exact (le_foldl_raiseMatch _ _ _ _ server).trans (le_foldl_raiseMatch _ _ _ _ server)
  · exact Nat.le_refl _

theorem observeLogPosition_acksGrow (entry : LogEntry Command) :
    Respects AcksGrow (observeLogPosition entry : CoreOp R Unit) := by
  refine fun db => ⟨rfl, fun shard => ?_, fun _ _ => Nat.le_refl _⟩
  change _ ≤ Function.update db.nextLogIndexes entry.shardId _ shard
  rw [Function.update_apply]
  split
  · next heq =>
    rw [heq]
    exact Nat.le_max_left _ _
  · exact Nat.le_refl _

theorem ignoresCluster_acksGrow :
    IgnoresCluster (AcksGrow : Database Command IndexedGraph R → _ → Prop) :=
  fun _ _ _ _ _ _ _ _ => acksGrow_of_eq rfl rfl rfl

/-- **Writes** only add to what is acknowledged. -/
theorem writeRules_acksGrow (replicator : ShardReplicator Command R) :
    WriteRules graphEngine replicator AcksGrow fun _ => True where
  append _ _ := appendLocalCommand_respects (fun _ => acksGrow_of_eq rfl rfl rfl)
    (fun _ _ _ _ _ => (Respects.lookup _).bind fun _ _ => acksGrow_of_eq rfl rfl rfl)
    (fun _ => ignoresCluster_acksGrow.appendEntryToLocalRaft) observeLogPosition_acksGrow
  onReplicator := ignoresCluster_acksGrow.onReplicator
  observe := observeReplicationOutcome_acksGrow
  observeRaft _ _ := ignoresCluster_acksGrow.observeRaftReplicationOutcome
  setCommitIndex _ _ _ := acksGrow_of_eq rfl rfl rfl
  saveCommit _ _ := acksGrow_of_eq rfl rfl rfl
  configChange _ _ := ignoresCluster_acksGrow.applyClusterConfigChange _
  onStore _ _ := acksGrow_of_eq rfl rfl rfl
  observeEntry entry := (observeLogPosition_acksGrow entry).bind fun _ _ =>
    acksGrow_of_eq rfl rfl rfl
  saveCheckpoint _ _ := acksGrow_of_eq rfl rfl rfl

/-- **A new table**, with or without Raft groups, and whether it is installed or not. -/
theorem installRoutingTableAsAuthority_acksGrow (authorityServerId : Nat)
    (table : ShardRoutingTable) :
    Respects AcksGrow (installRoutingTableAsAuthority replicator authorityServerId table) := by
  have hphase : ∀ phase, Respects AcksGrow
      (appendReplicatedConfigChangePhase replicator phase "install_routing_table" table) :=
    fun _ => appendReplicatedConfigChangePhase_respects (writeRules_acksGrow replicator) trivial
  have hbegin : Respects AcksGrow (beginJointConsensusForRouting table : CoreOp R Unit) := by
    intro db
    rw [beginJointConsensusForRouting]
    dsimp only
    split <;> exact acksGrow_of_eq rfl rfl rfl
  refine (Respects.lookup _).bind fun _ => (hphase _).bind fun _ => hbegin.bind fun _ => ?_
  refine (hphase _).bind fun _ => Respects.bind (fun _ => acksGrow_of_eq rfl rfl rfl) fun _ => ?_
  refine Respects.bind (fun _ => acksGrow_of_eq rfl rfl rfl) fun _ => ?_
  refine ignoresCluster_acksGrow.rebuildRaftGroups.bind fun _ => (hphase _).bind fun _ _ => ?_
  exact acksGrow_of_eq rfl rfl rfl

/-! ## What is committed -/

/-- The table is as before, and so are the commit indexes of the other shards. -/
structure CommitsOnly (shards : Nat → Prop) (db db' : Database Command IndexedGraph R) : Prop where
  shardCount : db'.shardCount = db.shardCount
  routingTable : db'.routingTable = db.routingTable
  commits : ∀ shardId, ¬shards shardId → db'.commitIndexes shardId = db.commitIndexes shardId

variable {shards : Nat → Prop}

instance : IsPreorder (Database Command IndexedGraph R) (CommitsOnly shards) where
  refl _ := ⟨rfl, rfl, fun _ _ => rfl⟩
  trans _ _ _ h h' := ⟨h'.shardCount.trans h.shardCount, h'.routingTable.trans h.routingTable,
    fun shard hshard => (h'.commits shard hshard).trans (h.commits shard hshard)⟩

/-- **Commands on the graph** are committed to their shards. -/
theorem writeRules_commitsOnly (shards : Nat → Prop) (replicator : ShardReplicator Command R) :
    WriteRules graphEngine replicator (CommitsOnly shards) fun command =>
      shards command.1 ∧ graphEngine.configChange command.2 = none where
  append _ _ := appendLocalCommand_respects (fun _ => ⟨rfl, rfl, fun _ _ => rfl⟩)
    (fun _ _ _ _ _ => (Respects.lookup _).bind fun _ _ => ⟨rfl, rfl, fun _ _ => rfl⟩)
    (fun _ => appendEntryToLocalRaft_respects fun _ _ => ⟨rfl, rfl, fun _ _ => rfl⟩)
    fun _ _ => ⟨rfl, rfl, fun _ _ => rfl⟩
  onReplicator _ _ := ⟨rfl, rfl, fun _ _ => rfl⟩
  observe _ _ := (Respects.lookup _).bind fun _ _ => ⟨rfl, rfl, fun _ _ => rfl⟩
  observeRaft _ _ := observeRaftReplicationOutcome_respects fun _ _ =>
    ⟨rfl, rfl, fun _ _ => rfl⟩
  setCommitIndex entry hentry _ := by
    refine ⟨rfl, rfl, fun shard hshard => Function.update_of_ne ?_ _ _⟩
    rintro rfl
    exact hshard hentry.1
  saveCommit _ _ := ⟨rfl, rfl, fun _ _ => rfl⟩
  configChange _ hcommand db := by
    rw [applyClusterConfigChange_graph hcommand.2]
    exact refl db
  onStore _ _ := ⟨rfl, rfl, fun _ _ => rfl⟩
  observeEntry _ _ := ⟨rfl, rfl, fun _ _ => rfl⟩
  saveCheckpoint _ _ := ⟨rfl, rfl, fun _ _ => rfl⟩

end Database

namespace ClusterDatabase

open Database (AcksGrow CommitsOnly)
open ShardRoutingTable ShardPlacement

variable {R : Type} {replicator : ShardReplicator Command R} {s t : ClusterDatabase R}
  {step : RebalanceStep} {shard server matchIndex : Nat}

/-! ## The assignments -/

/-- The assignments by shard and server. -/
def records (s : ClusterDatabase R) (key : Nat × Nat) : Option ClusterShardAssignment :=
  s.assignment key.1 key.2

/-- The assignments and the server. -/
def ledger (s : ClusterDatabase R) :
    (Nat × Nat → Option ClusterShardAssignment) × Database Command IndexedGraph R :=
  (s.records, s.core)

theorem saveMembership_ledger : Preserves ledger (saveMembership : Op R Unit) := fun _ =>
  Prod.ext (funext fun key => assignment_saveMembership key.1 key.2) rfl

theorem finishDrainedNodes_ledger : Preserves ledger (finishDrainedNodes : Op R Unit) := by
  refine Preserves.current.bind fun db => ?_
  dsimp only
  split
  · exact Preserves.pure ()
  · exact Preserves.bind (fun _ => rfl) fun _ => saveMembership_ledger

theorem ignoresPlans_ledger : IgnoresPlans fun s t : ClusterDatabase R => t.ledger = s.ledger :=
  ⟨fun _ => rfl, fun _ _ _ => rfl⟩

/-- A change of the membership that is saved, or not. -/
theorem ledger_saved (f : ClusterDatabase R → ClusterDatabase R) (s : ClusterDatabase R) :
    ((do
      change f
      saveMembership
      let db ← current
      pure db.membership : Op R ClusterMembership).run s).2.ledger = (f s).ledger := by
  rw [run_bind_of_ok (run_change f s)]
  refine Preserves.bind saveMembership_ledger (fun _ => ?_) (f s)
  exact Preserves.current.bind fun _ => Preserves.pure _

theorem records_withAssignment (s : ClusterDatabase R) (shard server : Nat)
    {f : ClusterShardAssignment → ClusterShardAssignment}
    (hf : ∀ a, (f a).shardId = a.shardId ∧ (f a).serverId = a.serverId) :
    (s.withAssignment shard server f).records =
      Function.update s.records (shard, server) ((s.records (shard, server)).map f) := by
  funext key
  rw [Function.update_apply]
  split
  · next heq =>
    rw [heq]
    exact assignment_withAssignment hf
  · next hne => exact (touches_withAssignment hf s).assignments key.1 key.2 hne

/-- **Preparing** starts the assignment of a server that does not hold the shard. -/
theorem prepareRebalanceStep_ledger (step : RebalanceStep) (s : ClusterDatabase R) :
    ((prepareRebalanceStep step).run s).2.ledger = s.ledger ∨
      ∃ shard server assignment, s.core.routingTable.hasLocalCopy shard server = false ∧
        assignment.matchIndex = 0 ∧ ((prepareRebalanceStep step).run s).2.ledger =
          (Function.update s.records (shard, server) (some assignment), s.core) := by
  rw [prepareRebalanceStep, run_bind, run_lookup]
  cases s.ensureMetadataAuthority with
  | error => exact .inl rfl
  | ok =>
    dsimp only
    rw [run_bind, run_lookup]
    cases hcheck : s.checkPrepare step with
    | error => exact .inl rfl
    | ok =>
      dsimp only
      rw [ledger_saved]
      cases step with
      | transferPrimary | removeReplica => exact .inl rfl
      | addReplica shard server =>
        obtain ⟨_, -, hcopy⟩ := of_exceptBind_ok hcheck
        have habsent : s.core.routingTable.hasLocalCopy shard server = false := by
          by_contra hcopies
          rw [if_pos (Bool.eq_true_of_not_eq_false hcopies)] at hcopy
          cases hcopy
        rw [startAssignment, any_assignment]
        cases hold : s.assignment shard server with
        | none =>
          refine .inr ⟨shard, server, ⟨shard, server, .catchingUp, 0⟩, habsent, rfl,
            Prod.ext (funext fun key => ?_) rfl⟩
          obtain ⟨htouches, hstarted⟩ := touches_newAssignment hold
          dsimp only
          by_cases hkey : key = (shard, server)
          · rw [hkey, Function.update_self]
            exact hstarted
          · rw [Function.update_of_ne hkey]
            exact htouches.assignments key.1 key.2 hkey
        | some old =>
          have hupdated := records_withAssignment s shard server
            (f := fun a => { a with state := .catchingUp, matchIndex := 0 }) fun _ => ⟨rfl, rfl⟩
          have hrecord : s.records (shard, server) = some old := hold
          rw [hrecord, Option.map_some] at hupdated
          exact .inr ⟨shard, server, { old with state := .catchingUp, matchIndex := 0 }, habsent,
            rfl, Prod.ext hupdated rfl⟩

/-- **A report** is entered for an assignment that is still catching up. -/
theorem markShardCaughtUp_ledger (shard server matchIndex : Nat) (s : ClusterDatabase R) :
    ((markShardCaughtUp shard server matchIndex).run s).2.ledger = s.ledger ∨
      ∃ old, s.records (shard, server) = some old ∧
        (old.state = .planned ∨ old.state = .catchingUp ∨ old.state = .caughtUp) ∧
        ((markShardCaughtUp shard server matchIndex).run s).2.ledger =
          (Function.update s.records (shard, server)
            (some { old with state := .caughtUp, matchIndex }), s.core) := by
  rw [markShardCaughtUp, run_bind, run_lookup]
  cases s.ensureMetadataAuthority with
  | error => exact .inl rfl
  | ok =>
    dsimp only
    rw [run_bind, run_lookup]
    cases hold : s.assignment shard server with
    | none => exact .inl rfl
    | some old =>
      dsimp only
      by_cases heligible : old.state = .planned ∨ old.state = .catchingUp ∨ old.state = .caughtUp
      · rw [if_pos heligible]
        dsimp only
        rw [ledger_saved]
        have hupdated := records_withAssignment s shard server
          (f := fun a => { a with state := .caughtUp, matchIndex }) fun _ => ⟨rfl, rfl⟩
        have hrecord : s.records (shard, server) = some old := hold
        rw [hrecord, Option.map_some] at hupdated
        exact .inr ⟨old, hrecord, heligible, Prod.ext hupdated rfl⟩
      · rw [if_neg heligible]
        exact .inl rfl

/-- The state of the assignment once a step is applied. -/
def stateAfter : RebalanceStep → ShardAssignmentState
  | .addReplica _ _ => .servingReplica
  | .transferPrimary _ _ _ => .servingPrimary
  | .removeReplica _ _ => .removed

/-- **The end of a step** enters what has become of its server. -/
theorem finishStep_ledger (step : RebalanceStep) (s : ClusterDatabase R) :
    ((finishStep step).run s).2.ledger =
      (Function.update s.records (shardOf step, serverOf step)
        ((s.records (shardOf step, serverOf step)).map ({ · with state := stateAfter step })),
        s.core) := by
  have happlied : ((finishAppliedAssignments step).run s).2.ledger =
      (s.withAssignment (shardOf step) (serverOf step)
        ({ · with state := stateAfter step })).ledger := by
    cases step with
    | addReplica | transferPrimary | removeReplica => exact saveMembership_ledger _
  have hrest : ((finishStep step).run s).2.ledger =
      ((finishAppliedAssignments step).run s).2.ledger := by
    rw [finishStep, run_bind]
    rcases (finishAppliedAssignments step).run s with ⟨result, t⟩
    cases result with
    | error => rfl
    | ok => exact finishDrainedNodes_ledger t
  rw [hrest, happlied]
  exact Prod.ext (records_withAssignment s _ _ fun _ => ⟨rfl, rfl⟩) rfl

theorem of_ensureAssignmentMatchIndex
    (h : s.ensureAssignmentMatchIndex shard server matchIndex = .ok ()) :
    s.core.commitIndexes shard ≤ matchIndex := by
  obtain ⟨committed, hcommitted, hrest⟩ := of_exceptBind_ok h
  have hsame : committed = s.core.commitIndexes shard := by
    rw [committedIndex] at hcommitted
    split at hcommitted
    · exact (Except.ok.inj hcommitted).symm
    · cases hcommitted
  rw [← hsame]
  by_contra hbehind
  rw [if_pos (Nat.lt_of_not_le hbehind)] at hrest
  cases hrest

/-! ## Assignments and acknowledgements -/

/-- The position up to which a server has acknowledged the entries of a shard: by the entries that
were published to it, and by those that it has replayed.  The server itself has what is in its
log. -/
def acknowledgedIn (replayed : Nat × Nat → Nat) (core : Database Command IndexedGraph R)
    (key : Nat × Nat) : Nat :=
  max (if key.2 = core.config.serverId then core.nextLogIndexes key.1 - 1 else 0)
    (max ((core.matchIndexes key.1 key.2).getD 0) (replayed key))

variable {replayed : Nat × Nat → Nat}

theorem acknowledgedIn_mono {core core' : GraphCore R} (h : AcksGrow core core')
    (key : Nat × Nat) : acknowledgedIn replayed core key ≤ acknowledgedIn replayed core' key := by
  rw [acknowledgedIn, acknowledgedIn, h.config]
  have hlog := h.logs key.1
  refine max_le_max ?_ (max_le_max (h.acks key.1 key.2) (Nat.le_refl _))
  split <;> omega

/-- No assignment is ahead of what its server has acknowledged. -/
def Within (replayed : Nat × Nat → Nat) (s : ClusterDatabase R) : Prop :=
  ∀ key assignment, s.records key = some assignment →
    assignment.matchIndex ≤ acknowledgedIn replayed s.core key

theorem within_of_records (hrecords : t.records = s.records) (hacks : AcksGrow s.core t.core) :
    Stays (Within replayed) s t := fun hs key assignment hrecord =>
  (hs key assignment (hrecords ▸ hrecord)).trans (acknowledgedIn_mono hacks key)

theorem within_of_ledger (h : t.ledger = s.ledger) : Stays (Within replayed) s t := by
  obtain ⟨hrecords, hcore⟩ := Prod.mk.inj h
  refine within_of_records hrecords ?_
  rw [hcore]
  exact refl s.core

/-- One assignment is entered anew. -/
theorem within_of_update {key : Nat × Nat} {entered : Option ClusterShardAssignment}
    (h : t.ledger = (Function.update s.records key entered, s.core))
    (hentered : ∀ assignment, entered = some assignment →
      assignment.matchIndex ≤ acknowledgedIn replayed s.core key) :
    Stays (Within replayed) s t := by
  intro hs key' assignment hrecord
  obtain ⟨hrecords, hcore⟩ := Prod.mk.inj h
  rw [hcore]
  rw [hrecords, Function.update_apply] at hrecord
  split at hrecord
  · next heq =>
    rw [heq]
    exact hentered assignment hrecord
  · exact hs key' assignment hrecord

theorem prepareRebalanceStep_within (step : RebalanceStep) :
    Respects (Stays (Within replayed)) (prepareRebalanceStep step : Op R ClusterMembership) := by
  intro s
  rcases prepareRebalanceStep_ledger step s with hsame | ⟨shard, server, a, -, hzero, hledger⟩
  · exact within_of_ledger hsame
  · refine within_of_update hledger fun assignment heq => ?_
    cases heq
    exact hzero ▸ Nat.zero_le _

/-- A report that is not ahead of the server. -/
theorem markShardCaughtUp_within
    (h : matchIndex ≤ acknowledgedIn replayed s.core (shard, server)) :
    Stays (Within replayed) s ((markShardCaughtUp shard server matchIndex).run s).2 := by
  rcases markShardCaughtUp_ledger shard server matchIndex s with hsame | ⟨old, -, -, hledger⟩
  · exact within_of_ledger hsame
  · refine within_of_update hledger fun assignment heq => ?_
    cases heq
    exact h

theorem finishStep_within (step : RebalanceStep) :
    Respects (Stays (Within replayed)) (finishStep step : Op R Unit) := by
  intro s hs
  refine within_of_update (finishStep_ledger step s) (fun assignment heq => ?_) hs
  obtain ⟨old, hold, rfl⟩ := Option.map_eq_some_iff.mp heq
  exact hs _ old hold

/-- **A step** is no report, whether the server has Raft groups or not. -/
theorem applyRebalanceStep_within (step : RebalanceStep) :
    Respects (Stays (Within replayed)) (applyRebalanceStep replicator step) := by
  rw [applyRebalanceStep_eq]
  refine (Respects.lookup _).bind fun _ => (Respects.lookup _).bind fun table => ?_
  refine Respects.current.bind fun db => Respects.bind (fun s => ?_) fun _ => ?_
  · exact within_of_records rfl
      (Database.installRoutingTableAsAuthority_acksGrow db.authorityServerId table s.core)
  · exact (finishStep_within step).bind fun _ => Respects.pure _

/-- What is observed of a server is not ahead of it. -/
theorem observedMatchIndex_le (hs : s.Within replayed) (shard server : Nat) :
    s.observedMatchIndex shard server ≤ acknowledgedIn replayed s.core (shard, server) := by
  have hmatch : (s.core.matchIndexes shard server).getD 0 ≤
      acknowledgedIn replayed s.core (shard, server) :=
    (Nat.le_max_left _ _).trans (Nat.le_max_right _ _)
  have hrecord : ((s.assignment shard server).map (·.matchIndex)).getD 0 ≤
      acknowledgedIn replayed s.core (shard, server) := by
    cases hassign : s.assignment shard server with
    | none => exact Nat.zero_le _
    | some assignment => exact hs (shard, server) assignment hassign
  rw [observedMatchIndex]
  split
  · cases hslot : s.core.matchIndexes shard server with
    | none => exact hrecord
    | some index =>
      rw [hslot] at hmatch
      exact hmatch
  · exact hrecord

theorem checkCatchUp_within (shard server : Nat) : Respects (Stays (Within replayed))
      (checkCatchUp shard server : Op R (String × RebalanceStepState)) := by
  intro s hs
  rw [checkCatchUp, run_bind, run_lookup]
  cases s.committedIndex shard with
  | error => exact hs
  | ok =>
    dsimp only
    rw [run_bind_of_ok (run_current s)]
    split
    · have hmark := markShardCaughtUp_within (observedMatchIndex_le hs shard server) hs
      rw [run_bind]
      split <;> next heq => rwa [heq] at hmark
    · split <;> exact hs

theorem advanceRebalance_within :
    Respects (Stays (Within replayed)) (advanceRebalance replicator) :=
  advanceRebalance_respects prepareRebalanceStep_within checkCatchUp_within
    applyRebalanceStep_within ⟨fun s => within_of_ledger (ignoresPlans_ledger.save s),
      fun s plan execution => within_of_ledger (ignoresPlans_ledger.set s plan execution)⟩

/-! ## Assignments and the commit index -/

/-- The table is well formed.  If a server of the shard has an assignment, it is one that serves
and is not behind the commit index. -/
structure Settled (shard target : Nat) (s : ClusterDatabase R) : Prop where
  wellFormed : s.core.routingTable.WellFormed s.core.shardCount
  serving : s.core.routingTable.hasLocalCopy shard target = true → ∀ assignment,
    s.records (shard, target) = some assignment →
      (assignment.state = .servingReplica ∨ assignment.state = .servingPrimary) ∧
        s.core.commitIndexes shard ≤ assignment.matchIndex

variable {target : Nat}

theorem settled_of_ledger (h : t.ledger = s.ledger) : Stays (Settled shard target) s t := by
  intro hs
  obtain ⟨hrecords, hcore⟩ := Prod.mk.inj h
  refine ⟨by rw [hcore]; exact hs.wellFormed, ?_⟩
  rw [hrecords, hcore]
  exact hs.serving

/-- One assignment is entered anew, of another server or of one that does not hold the shard. -/
theorem settled_of_update {key : Nat × Nat} {entered : Option ClusterShardAssignment}
    (h : t.ledger = (Function.update s.records key entered, s.core))
    (hapart : key = (shard, target) →
      s.core.routingTable.hasLocalCopy shard target = true → False) :
    Stays (Settled shard target) s t := by
  intro hs
  obtain ⟨hrecords, hcore⟩ := Prod.mk.inj h
  refine ⟨by rw [hcore]; exact hs.wellFormed, ?_⟩
  rw [hrecords, hcore]
  intro hcopy
  rw [Function.update_of_ne fun heq => hapart heq.symm hcopy]
  exact hs.serving hcopy

/-- Commits to other shards, or to the shard as long as the server does not hold it. -/
theorem settled_of_commits {core : GraphCore R} (h : CommitsOnly (fun written =>
      s.core.routingTable.hasLocalCopy shard target = true → written ≠ shard) s.core core) :
    Stays (Settled shard target) s { s with core } := by
  refine fun hs => ⟨?_, fun hcopy assignment hrecord => ?_⟩
  · dsimp only
    rw [h.routingTable, h.shardCount]
    exact hs.wellFormed
  · dsimp only at hcopy ⊢
    rw [h.routingTable] at hcopy
    rw [h.commits shard fun helsewhere => helsewhere hcopy rfl]
    exact hs.serving hcopy assignment hrecord

theorem prepareRebalanceStep_settled (step : RebalanceStep) : Respects
      (Stays (Settled shard target)) (prepareRebalanceStep step : Op R ClusterMembership) := by
  intro s
  rcases prepareRebalanceStep_ledger step s with hsame | ⟨shard', server, a, habsent, -, hledger⟩
  · exact settled_of_ledger hsame
  · refine settled_of_update hledger fun heq hcopy => ?_
    cases heq
    rw [habsent] at hcopy
    cases hcopy

/-- A report is not entered for an assignment that serves. -/
theorem markShardCaughtUp_settled (shard' server matchIndex : Nat) :
    Respects (Stays (Settled shard target))
      (markShardCaughtUp shard' server matchIndex : Op R ClusterMembership) := by
  intro s hs
  rcases markShardCaughtUp_ledger shard' server matchIndex s with
    hsame | ⟨old, hold, heligible, hledger⟩
  · exact settled_of_ledger hsame hs
  · refine settled_of_update hledger (fun heq hcopy => ?_) hs
    cases heq
    obtain ⟨hserving, -⟩ := hs.serving hcopy old hold
    rcases hserving with hstate | hstate <;> simp [hstate] at heligible

theorem hasLocalCopy_of_placement {table : ShardRoutingTable} {placement : ShardPlacement}
    (h : table.placement shard = some placement) :
    table.hasLocalCopy shard server = placement.hasServer server := by
  rw [hasLocalCopy, h]
  rfl

/-- The servers of a placement after an edit. -/
theorem hasServer_editOf {placement place' : ShardPlacement}
    (h : editOf step placement = .ok place') (hhas : place'.hasServer server = true) :
    (placement.hasServer server = true ∧ ∀ shard, step ≠ .removeReplica shard server) ∨
      ∃ shard, step = .addReplica shard server := by
  have hedit := editOf_ok h
  cases step with
  | addReplica shard added =>
    by_cases hsame : added = server
    · exact .inr ⟨shard, by rw [hsame]⟩
    · refine .inl ⟨?_, fun _ heq => by cases heq⟩
      dsimp only at hedit
      split at hedit
      · rwa [hedit] at hhas
      · rw [hedit, hasServer_iff, map_append, mem_append, map_singleton, mem_singleton] at hhas
        exact hasServer_iff.mpr (hhas.resolve_right (Ne.symm hsame))
  | transferPrimary =>
    obtain ⟨-, -, rfl⟩ := hedit
    rw [hasServer_iff, map_map] at hhas
    exact .inl ⟨hasServer_iff.mpr hhas, fun _ heq => by cases heq⟩
  | removeReplica shard removed =>
    obtain ⟨-, -, -, rfl⟩ := hedit
    rw [hasServer_iff] at hhas
    obtain ⟨replica, hreplica, rfl⟩ := mem_map.mp hhas
    rw [mem_filter, decide_eq_true_eq] at hreplica
    refine .inl ⟨hasServer_iff.mpr (mem_map_of_mem hreplica.1), fun shard' heq => ?_⟩
    cases heq
    exact hreplica.2 rfl

/-- A server of a shard in the new table is one of the old table that is not removed, or it is
added. -/
theorem hasLocalCopy_tableAfter {table : ShardRoutingTable}
    (htable : s.tableAfter step = .ok table)
    (hcopy : table.hasLocalCopy shard target = true) :
    (s.core.routingTable.hasLocalCopy shard target = true ∧
        step ≠ .removeReplica shard target) ∨ step = .addReplica shard target := by
  obtain ⟨-, -, hplaces⟩ := tableAfter_ok htable
  obtain ⟨hothers, hshards⟩ := find?_editPlacement (fun _ _ hedit => shardId_editOf hedit) hplaces
  by_cases hshard : shard = shardOf step
  · obtain ⟨-, placement, -, hfound, -⟩ := tableAfter_iff.mp ⟨table, htable⟩
    obtain ⟨place', hedit, hfound'⟩ := hshards placement hfound
    rw [hshard, hasLocalCopy_of_placement hfound'] at hcopy
    rw [hshard, hasLocalCopy_of_placement hfound]
    refine (hasServer_editOf hedit hcopy).imp (fun h => ⟨h.1, h.2 _⟩) ?_
    rintro ⟨shard', rfl⟩
    rfl
  · have hsame : table.hasLocalCopy shard target =
        s.core.routingTable.hasLocalCopy shard target := by
      have hfound : table.placement shard = s.core.routingTable.placement shard :=
        hothers shard hshard
      rw [hasLocalCopy, hasLocalCopy, hfound]
    refine .inl ⟨hsame ▸ hcopy, fun heq => hshard ?_⟩
    rw [heq]
    rfl

/-- **A step without Raft groups** adds a server whose assignment is caught up, and keeps what the
assignments say of the other servers. -/
theorem applyRebalanceStep_settled (hnone : s.core.raftGroups = none) (step : RebalanceStep) :
    Stays (Settled shard target) s ((applyRebalanceStep replicator step).run s).2 := by
  intro hs
  rcases @applyRebalanceStep_cases R replicator s hnone step with
    ⟨err, r, hrun, -⟩ | ⟨table, r, htable, hcheck, hrun⟩
  · rw [hrun]
    exact ⟨hs.wellFormed, hs.serving⟩
  have hledger : ((applyRebalanceStep replicator step).run s).2.ledger =
      (Function.update s.records (shardOf step, serverOf step)
        ((s.records (shardOf step, serverOf step)).map ({ · with state := stateAfter step })),
        withTable s.core r table) := by
    have hfinish := finishStep_ledger step { s with core := withTable s.core r table }
    rw [hrun, run_bind]
    split <;> next heq => rwa [heq] at hfinish
  obtain ⟨hrecords, hcore⟩ := Prod.mk.inj hledger
  obtain ⟨-, hshards, hplaced⟩ := follows_tableAfter step htable hcheck
  refine ⟨?_, fun hcopy assignment hrecord => ?_⟩
  · rw [hcore]
    exact ⟨hshards ▸ hs.wellFormed.shards, hplaced hs.wellFormed.placed⟩
  rw [hcore] at hcopy ⊢
  rw [hrecords] at hrecord
  obtain ⟨hready, -, -⟩ := tableAfter_ok htable
  rcases hasLocalCopy_tableAfter htable hcopy with ⟨hbefore, hkept⟩ | rfl
  · by_cases hkey : (shard, target) = (shardOf step, serverOf step)
    · -- the step is a transfer to the server, or adds it again
      rw [← hkey, Function.update_self] at hrecord
      obtain ⟨old, hold, rfl⟩ := Option.map_eq_some_iff.mp hrecord
      refine ⟨?_, (hs.serving hbefore old hold).2⟩
      cases step with
      | addReplica => exact .inl rfl
      | transferPrimary => exact .inr rfl
      | removeReplica =>
        obtain ⟨rfl, rfl⟩ := Prod.mk.inj hkey
        exact absurd rfl hkept
    · rw [Function.update_of_ne hkey] at hrecord
      exact hs.serving hbefore assignment hrecord
  · have hkey : (shardOf (.addReplica shard target), serverOf (.addReplica shard target)) =
        (shard, target) := rfl
    rw [hkey, Function.update_self] at hrecord
    obtain ⟨old, hold, rfl⟩ := Option.map_eq_some_iff.mp hrecord
    refine ⟨.inl rfl, ?_⟩
    have hassign : s.assignment shard target = some old := hold
    rw [ensureReady, ensureAssignmentCaughtUp, hassign] at hready
    dsimp only at hready
    split at hready
    · exact of_ensureAssignmentMatchIndex hready
    · cases hready

/-- A server without Raft groups whose assignments are settled. -/
def SettledAlone (shard target : Nat) (s : ClusterDatabase R) : Prop :=
  s.core.raftGroups = none ∧ s.Settled shard target

theorem settledAlone_of_core {α : Type} {x : Op R α} (hcore : Preserves core x)
    (h : Respects (Stays (Settled shard target)) x) :
    Respects (Stays (SettledAlone shard target)) x := by
  rintro s ⟨hnone, hs⟩
  refine ⟨?_, h s hs⟩
  rw [hcore s]
  exact hnone

theorem applyRebalanceStep_settledAlone (step : RebalanceStep) :
    Respects (Stays (SettledAlone shard target)) (applyRebalanceStep replicator step) := by
  rintro s ⟨hnone, hs⟩
  refine ⟨?_, applyRebalanceStep_settled hnone step hs⟩
  rcases @applyRebalanceStep_cases R replicator s hnone step with
    ⟨err, r, hrun, -⟩ | ⟨table, r, -, -, hrun⟩
  · rw [hrun]
    exact hnone
  · have hcore := (finishStep_core step).bind (fun _ => Preserves.pure table)
      { s with core := withTable s.core r table }
    rw [hrun, hcore]
    exact hnone

theorem advanceRebalance_settledAlone :
    Respects (Stays (SettledAlone shard target)) (advanceRebalance replicator) := by
  refine advanceRebalance_respects (fun step => ?_) (fun shard' server => ?_)
    applyRebalanceStep_settledAlone ⟨?_, fun s plan execution hs => ⟨hs.1,
      settled_of_ledger (ignoresPlans_ledger.set s plan execution) hs.2⟩⟩
  · exact settledAlone_of_core (prepareRebalanceStep_core step) (prepareRebalanceStep_settled step)
  · exact settledAlone_of_core (checkCatchUp_core shard' server)
      (checkCatchUp_respects markShardCaughtUp_settled shard' server)
  · exact settledAlone_of_core ignoresPlans_core.save fun s =>
      settled_of_ledger (ignoresPlans_ledger.save s)

end ClusterDatabase

/-! ## Histories -/

/-- A server and its cluster, with the positions up to which the servers have replayed the
shards that they catch up with. -/
structure TransferHistory (R : Type) where
  db : ClusterDatabase R
  replayed : Nat × Nat → Nat

/-- What happens to the server: a write, the acknowledgement of a server that catches up, or a
call that rebalances.  The acknowledgements of what is written come with the write. -/
inductive TransferEvent (shardMap : ShardMap)
  | write (call : GraphCall shardMap)
  | catchUp (shardId serverId index : Nat)
  | rebalance (e : ClusterDatabase.RebalanceEvent)

namespace TransferHistory

open ClusterDatabase
open Database (writeRules_acksGrow writeRules_commitsOnly)

variable {R : Type} {shardMap : ShardMap}

/-- The position up to which a server has acknowledged the entries of a shard. -/
def acknowledged (s : TransferHistory R) (shardId serverId : Nat) : Nat :=
  acknowledgedIn s.replayed s.db.core (shardId, serverId)

/-- The server has acknowledged every committed entry of the shard. -/
def HasCommitted (s : TransferHistory R) (shardId serverId : Nat) : Prop :=
  s.db.core.commitIndexes shardId ≤ s.acknowledged shardId serverId

/-- The histories of a server.  It starts with a table that is well formed, and without
assignments. -/
def machine (shardMap : ShardMap) (replicator : ShardReplicator Command R) :
    Machine (TransferHistory R) (TransferEvent shardMap) where
  init s := s.db.core.routingTable.WellFormed s.db.core.shardCount ∧
    s.db.membership.shardAssignments = []
  enabled _ _ := True
  next s
    | .write call => { s with db := ((onCore (call.run replicator)).run s.db).2 }
    | .catchUp shardId serverId index => { s with
        replayed := Function.update s.replayed (shardId, serverId)
          (max (s.replayed (shardId, serverId)) index) }
    | .rebalance e => { s with db := (ClusterDatabase.machine replicator).next s.db e }

/-- A report is not ahead of what the server has acknowledged. -/
def Truthful (s : TransferHistory R) : TransferEvent shardMap → Prop
  | .rebalance ⟨.markCaughtUp shardId serverId matchIndex, _⟩ =>
    matchIndex ≤ s.acknowledged shardId serverId
  | _ => True

/-- Writes are on the graph, and once the server holds the shard none of them is to the shard.
The table is only changed without Raft groups. -/
def Quiet (shard target : Nat) (s : TransferHistory R) : TransferEvent shardMap → Prop
  | .write call => ∀ command, call.Writes command →
      graphEngine.configChange command.2 = none ∧
        (s.db.core.routingTable.hasLocalCopy shard target = true → command.1 ≠ shard)
  | .catchUp _ _ _ => True
  | .rebalance e => e.call.EditsTable → s.db.core.raftGroups = none

variable {replicator : ShardReplicator Command R} {s : TransferHistory R}
  {shard target fromServer : Nat}

theorem records_of_nil {db : ClusterDatabase R} (h : db.membership.shardAssignments = [])
    (key : Nat × Nat) : db.records key = none := by
  rw [records, assignment, h]
  rfl

/-- **No assignment is ahead of its server** in a history of truthful reports. -/
theorem within_of_truthful
    (hs : ((machine shardMap replicator).restrict Truthful).Reachable s) :
    s.db.Within s.replayed := by
  refine hs.invariant (P := fun s => s.db.Within s.replayed) ?_ ?_
  · intro s hinit key assignment hrecord
    rw [records_of_nil hinit.2 key] at hrecord
    cases hrecord
  · rintro s e - hwithin ⟨-, htruthful⟩
    cases e with
    | write call =>
      exact within_of_records (s := s.db) rfl
        (GraphCall.respects (writeRules_acksGrow replicator) call (fun _ _ => trivial) s.db.core)
        hwithin
    | catchUp shardId serverId index =>
      intro key assignment hrecord
      refine (hwithin key assignment hrecord).trans ?_
      refine max_le_max (Nat.le_refl _) (max_le_max (Nat.le_refl _) ?_)
      change _ ≤ Function.update s.replayed (shardId, serverId) _ key
      rw [Function.update_apply]
      split
      · next heq =>
        rw [heq]
        exact Nat.le_max_left _ _
      · exact Nat.le_refl _
    | rebalance e =>
      obtain ⟨call, saves⟩ := e
      have hsaves : (s.db.withSaves saves).Within s.replayed := hwithin
      cases call with
      | prepare step => exact prepareRebalanceStep_within step _ hsaves
      | markCaughtUp => exact markShardCaughtUp_within (s := s.db.withSaves saves) htruthful hsaves
      | apply step => exact applyRebalanceStep_within step _ hsaves
      | advance => exact advanceRebalance_within _ hsaves

/-- **The assignments are settled** in a quiet history. -/
theorem settled_of_quiet
    (hs : ((machine shardMap replicator).restrict (Quiet shard target)).Reachable s) :
    s.db.Settled shard target := by
  refine hs.invariant (P := fun s => s.db.Settled shard target) ?_ ?_
  · refine fun s hinit => ⟨hinit.1, fun _ assignment hrecord => ?_⟩
    rw [records_of_nil hinit.2] at hrecord
    cases hrecord
  · rintro s e - hsettled ⟨-, hquiet⟩
    cases e with
    | write call =>
      refine settled_of_commits (s := s.db) (GraphCall.respects
        (writeRules_commitsOnly _ replicator) call (fun command hwrites => ?_) s.db.core) hsettled
      exact (hquiet command hwrites).symm
    | catchUp => exact ⟨hsettled.wellFormed, hsettled.serving⟩
    | rebalance e =>
      obtain ⟨call, saves⟩ := e
      have hsaves : (s.db.withSaves saves).Settled shard target :=
        ⟨hsettled.wellFormed, hsettled.serving⟩
      cases call with
      | prepare step => exact prepareRebalanceStep_settled step _ hsaves
      | markCaughtUp => exact markShardCaughtUp_settled _ _ _ _ hsaves
      | apply step =>
        exact applyRebalanceStep_settled (s := s.db.withSaves saves) (hquiet trivial) step hsaves
      | advance =>
        exact (advanceRebalance_settledAlone (s.db.withSaves saves) ⟨hquiet trivial, hsaves⟩).2

/-- **Transfers follow the acknowledgements.**  In a history of truthful reports, with or without
Raft groups, a transfer to a server with an assignment is accepted only if the server has
acknowledged every committed entry.  In a quiet history it is accepted for every server of the
shard, by a metadata authority that changes the table on its own. -/
theorem transfer_follows_acks :
    (((machine shardMap replicator).restrict Truthful).Reachable s →
      (s.db.assignment shard target).isSome = true →
      s.db.Accepts replicator (.apply (.transferPrimary shard fromServer target)) →
        s.HasCommitted shard target) ∧
    (((machine shardMap replicator).restrict (Quiet shard target)).Reachable s →
      s.db.Transfers shard fromServer target → TakesTables replicator →
      s.db.authorityServerId = s.db.core.config.serverId → s.db.core.raftGroups = none →
      s.db.core.routingTable.version < u64Max → s.db.Saving →
        s.db.Accepts replicator (.apply (.transferPrimary shard fromServer target))) := by
  constructor
  · intro hs hsome haccepts
    obtain ⟨assignment, hassign⟩ := Option.isSome_iff_exists.mp hsome
    obtain ⟨table, htable⟩ := tableAfter_of_accepts haccepts
    obtain ⟨hready, -, -⟩ := tableAfter_ok htable
    rw [ensureReady, ensurePrimaryTransferTargetReady, hassign] at hready
    dsimp only at hready
    split at hready
    · exact (of_ensureAssignmentMatchIndex hready).trans
        (within_of_truthful hs (shard, target) assignment hassign)
    · cases hready
  · intro hs htransfers htakes hauth hnone hroom hsaving
    have hsettled := settled_of_quiet hs
    obtain ⟨placement, hfound, -, hserves⟩ := id htransfers
    have hcopy : s.db.core.routingTable.hasLocalCopy shard target = true := by
      rw [hasLocalCopy_of_placement hfound, hserves]
    have hstanding : s.db.Standing :=
      ⟨hauth, hnone, hsettled.wellFormed, hroom.le, hsaving⟩
    rw [hstanding.accepts_iff htakes, transfer_tableAfter_iff,
      ensurePrimaryTransferTargetReady_ok (shard_lt hsettled.wellFormed hfound)]
    refine ⟨⟨fun assignment hassign => ?_, htransfers⟩, hroom⟩
    obtain ⟨hserving, hcommitted⟩ := hsettled.serving hcopy assignment hassign
    exact ⟨.inr hserving, hcommitted⟩

/-! ### A shard on servers 1 and 2, to which server 4 is added -/

/-- The server before the first write. -/
def start : TransferHistory Unit :=
  ⟨joining { graphServer with routingTable := Database.raftTable 1 [1, 2] }, fun _ => 0⟩

theorem start_init (replicator : ShardReplicator Command Unit) :
    (machine oneShard replicator).init start := by
  have hformed : (Database.raftTable 1 [1, 2]).WellFormed 1 :=
    wellFormed_raftTable (by decide) (by decide)
  exact ⟨hformed, rfl⟩

/-- A node is created. -/
def create (id : Nat) : TransferEvent oneShard :=
  .write (.single (onOnlyShard (.createNode id ["Person"] [])))

/-- A node is created, and server 4 replays its entry and is added to the shard. -/
def joinEvents : List (TransferEvent oneShard) :=
  [create 0, .rebalance ⟨.prepare (.addReplica 0 4), []⟩, .catchUp 0 4 1,
    .rebalance ⟨.markCaughtUp 0 4 1, []⟩, .rebalance ⟨.apply (.addReplica 0 4), []⟩]

/-- The server after the events. -/
def after (replicator : ShardReplicator Command Unit) (es : List (TransferEvent oneShard)) :
    TransferHistory Unit :=
  (machine oneShard replicator).run start es

theorem reachable_after {replicator : ShardReplicator Command Unit}
    {guard : TransferHistory Unit → TransferEvent oneShard → Prop}
    {es : List (TransferEvent oneShard)}
    (h : ((machine oneShard replicator).restrict guard).Admissible start es) :
    ((machine oneShard replicator).restrict guard).Reachable (after replicator es) := by
  have hstart : ((machine oneShard replicator).restrict guard).Reachable start :=
    .start (start_init replicator)
  exact hstart.run h

/-- Server 4 has the entry, and the primary may move to it. -/
theorem transfer_follows_acks_joined :
    ∃ s, s = after (noopShardReplicator Command) joinEvents ∧
      s.db.core.commitIndexes 0 = 1 ∧ s.HasCommitted 0 4 ∧
      s.db.Accepts (noopShardReplicator Command) (.apply (.transferPrimary 0 1 4)) := by
  have hacked : 1 ≤ (after (noopShardReplicator Command) (joinEvents.take 3)).acknowledged 0 4 := by
    decide +kernel
  have halone : (after (noopShardReplicator Command) (joinEvents.take 4)).db.core.raftGroups =
      none := Option.isNone_iff_eq_none.mp (by decide +kernel)
  have hcaughtUp : ((machine oneShard (noopShardReplicator Command)).restrict Truthful).Admissible
      start joinEvents :=
    ⟨⟨trivial, trivial⟩, ⟨trivial, trivial⟩, ⟨trivial, trivial⟩, ⟨trivial, hacked⟩,
      ⟨trivial, trivial⟩, trivial⟩
  have hwrites : ((machine oneShard (noopShardReplicator Command)).restrict (Quiet 0 4)).Admissible
      start joinEvents := by
    refine ⟨⟨trivial, ?_⟩, ⟨trivial, False.elim⟩, ⟨trivial, trivial⟩, ⟨trivial, False.elim⟩,
      ⟨trivial, fun _ => halone⟩, trivial⟩
    rintro command rfl
    exact ⟨rfl, fun hcopy => absurd hcopy (by decide)⟩
  have hsaves : (after (noopShardReplicator Command) joinEvents).db.saves = [] :=
    isEmpty_iff.mp (by decide +kernel)
  have haccepts : (after (noopShardReplicator Command) joinEvents).db.Accepts
      (noopShardReplicator Command) (.apply (.transferPrimary 0 1 4)) := by
    refine transfer_follows_acks.2 (reachable_after hwrites)
      ⟨⟨0, [⟨1, .primary⟩, ⟨2, .replica⟩, ⟨4, .replica⟩]⟩, by decide +kernel, by decide, by decide⟩
      (fun _ r => ⟨r, rfl⟩) (by decide +kernel) (Option.isNone_iff_eq_none.mp (by decide +kernel))
      (by decide +kernel) ?_
    intro outcome hmem
    rw [hsaves] at hmem
    cases hmem
  exact ⟨_, rfl, by decide +kernel,
    transfer_follows_acks.1 (reachable_after hcaughtUp) (by decide +kernel) haccepts,
    haccepts⟩

/-- Server 2, which has no assignment, is made the primary without the entry.  Server 4 is not
made the primary, although it has acknowledged the entry that was written after it was added. -/
theorem transfer_to_server_without_entry :
    (∃ s, s = after (noopShardReplicator Command) [create 0] ∧
      s.db.core.commitIndexes 0 = 1 ∧ s.acknowledged 0 2 = 0 ∧
      s.db.Accepts (noopShardReplicator Command) (.apply (.transferPrimary 0 1 2))) ∧
    ∃ s, s = after (Database.ackedBy [1, 4]) (joinEvents ++ [create 1]) ∧
      s.db.core.commitIndexes 0 = 2 ∧ s.acknowledged 0 4 = 2 ∧ s.db.Transfers 0 1 4 ∧
      ¬s.db.Accepts (Database.ackedBy [1, 4]) (.apply (.transferPrimary 0 1 4)) := by
  refine ⟨⟨_, rfl, by decide +kernel, by decide +kernel, accepts_of_isSome (by decide +kernel)⟩,
    _, rfl, by decide +kernel, by decide +kernel, ?_, rejects_of_isSome _ (by decide +kernel)⟩
  exact ⟨⟨0, [⟨1, .primary⟩, ⟨2, .replica⟩, ⟨4, .replica⟩]⟩, by decide +kernel, by decide,
    by decide⟩

end TransferHistory

end Neo4r.Db
