/-
  `Db.RelationshipIds`: the relationship ids of servers that replicate to each other.

  Each server gives ids from a counter of its own.  The counter is raised past the ids of the
  entries that the server applies, so what keeps two servers apart is that the one has applied
  the creations of the other before it creates.  The servers here write, send each other
  entries of their logs in any order, and may fail at any step of a call.

  `Learns` says what a call can bring to a server: commands in its logs, and relationships in
  its store whose ids are then below its counter.
-/
import Neo4r.Db.IdAllocation
import Neo4r.Db.ReplicaAccepts
import Neo4r.Storage.RelationshipOrigin

set_option autoImplicit false

namespace Neo4r.Db

open Foundation Raft Storage Function Database List Fallible SegmentedShardLog
namespace Database

variable {R : Type} {repl : ShardReplicator Command R} {source : Command → Prop}
  {db db' : GraphCore R} {created : Origin → Prop}

/-! ## Logs -/

/-- If the commands in the logs are from a source, they still are. -/
def LogsFrom (source : Command → Prop) (db db' : Database Command IndexedGraph R) : Prop :=
  (∀ command, db.Logged command → source command) → ∀ command, db'.Logged command → source command

instance : IsPreorder (Database Command IndexedGraph R) (LogsFrom source) where
  refl _ h := h
  trans _ _ _ h h' hdb := h' (h hdb)

variable {α : Type} {x : CoreOp R α} (shard : Nat)

theorem logsFrom_of_logs_eq (h : db'.logs = db.logs) : LogsFrom source db db' :=
  fun hdb cmd hlogged => hdb cmd (logsGrow_of_eq h.symm cmd hlogged)

theorem logsFrom_of_logs (h : Preserves logs x) : Respects (LogsFrom source) x :=
  fun db => logsFrom_of_logs_eq (h db)

theorem logsFrom_of_stored (h : Preserves stored x) :
    Respects (LogsFrom source) x :=
  logsFrom_of_logs (h.map fun part => part.2.2.1)

theorem appendToLog_logsFrom {entry : LogEntry Command} (hentry : source entry.command) :
    Respects (LogsFrom source) (appendToLog shard entry : CoreOp R Unit) := by
  intro db hdb cmd hlogged
  rcases appendToLog_cases shard entry db with heq | ⟨log, hlog, -, heq⟩
  · rw [heq] at hlogged
    exact hdb cmd hlogged
  · rw [heq] at hlogged
    rcases (logged_update hlog cmd).mp hlogged with hold | rfl
    · exact hdb cmd hold
    · exact hentry

variable {command : Command}

theorem appendLocalCommand_logsFrom (hcmd : source command) : Respects (LogsFrom source)
      (appendLocalCommand graphEngine shard command : CoreOp R _) :=
  appendLocalCommand_respects (logsFrom_of_stored tickClock_preserves)
    (fun _ _ _ _ heq => appendToLog_logsFrom shard (heq ▸ hcmd))
    (fun entry => logsFrom_of_stored (appendEntryToLocalRaft_preserves entry))
    fun _ => logsFrom_of_logs fun _ => rfl

theorem writeCommand_logsFrom (shard : Nat) {command : Command} (hcmd : source command) :
    Respects (LogsFrom source)
      (writeCommand graphEngine repl shard command : CoreOp R Unit) :=
  (writeRules_of_logs (P := fun command => source command.2) (fun _ _ => logsFrom_of_logs_eq)
    fun command => appendLocalCommand_logsFrom command.1).writeCommand hcmd

section Replica

theorem truncated_logsFrom (db : GraphCore R) (shard index : Nat) :
    LogsFrom source db (db.truncated shard index) := by
  rintro hdb command ⟨shardId', entry, hentry, rfl⟩
  dsimp only [truncated] at hentry
  by_cases hshard : shardId' = shard
  · rw [hshard, update_self] at hentry
    refine hdb _ ⟨shard, entry, ?_, rfl⟩
    exact (mem_replayFrom.mp (mem_of_mem_filter hentry)).1
  · rw [update_of_ne hshard] at hentry
    exact hdb _ ⟨shardId', entry, hentry, rfl⟩

variable (shard : Nat) (entries : List (LogEntry Command)) [BEq Command]

/-- The log is left as it is or truncated. -/
theorem truncateReplicatedLogForAppend_respects
    {r : GraphCore R → GraphCore R → Prop} [IsPreorder (GraphCore R) r]
    (h : ∀ db index, r db (db.truncated shard index)) :
    Respects r (truncateReplicatedLogForAppend shard entries : CoreOp R Unit) := by
  induction entries with
  | nil => exact Respects.pure ()
  | cons entry entries ih =>
    rw [truncateReplicatedLogForAppend]
    split
    · exact ih
    refine Respects.lookup_bind fun db _ hlog => ?_
    obtain ⟨-, rfl⟩ := of_ofShard_ok hlog
    split
    · exact ih db
    split
    · exact ih db
    rw [run_bind, run_lookup]
    cases commitIndex shard db with
    | error => exact refl db
    | ok =>
      dsimp only
      split
      · exact refl db
      · exact h db _

/-- The entries that the first loop of `append_replicated_entries` accepts are appended. -/
theorem appendReplicatedEntries_respects {entries : List (LogEntry Command)}
    {r : GraphCore R → GraphCore R → Prop} [IsPreorder (GraphCore R) r]
    (happend : ∀ entry ∈ entries, Respects r (appendToLog entry.shardId entry))
    (hobserve : ∀ entry, Respects r (observeLogPosition entry)) :
    Respects r (appendReplicatedEntries graphEngine entries : CoreOp R Unit) := by
  unfold appendReplicatedEntries
  split
  · exact Respects.pure ()
  refine Respects.lookup_bind fun db _ haccept => ?_
  obtain ⟨taken, rfl, hsub, -⟩ := acceptEntries_ok haccept
  refine Respects.bind ?_ (fun _ => ?_) db
  · exact Respects.forEach fun entry hentry =>
      (happend entry (hsub.subset hentry)).bind fun _ => hobserve entry
  · exact Respects.forEach fun entry _ => (Respects.lookup _).bind fun _ => Respects.pure ()

end Replica

/-- What is committed and applied is in the logs. -/
theorem logged_of_committable {commits : List (Nat × Nat)} {entries : List (LogEntry Command)}
    (h : committableEntriesThrough db commits = .ok entries) :
    ∀ entry ∈ entries, db.Logged entry.command := by
  induction commits generalizing entries with
  | nil =>
    cases h
    exact forall_mem_nil _
  | cons first rest ih =>
    obtain ⟨found, hfound, h₁⟩ := of_exceptBind_ok h
    obtain ⟨others, hothers, h₂⟩ := of_exceptBind_ok h₁
    cases h₂
    intro entry hmem
    rcases mem_append.mp hmem with hmem | hmem
    · exact ⟨first.1, entry, mem_written_of_committableEntries hfound entry hmem, rfl⟩
    · exact ih hothers entry hmem

/-! ## Work on the store -/

/-- Work that succeeds on a sound store and creates the relationships of some commands. -/
def Adds (work : Fallible DatabaseError IndexedGraph Unit) (commands : List Command) : Prop :=
  ∀ (graph : IndexedGraph) (created : Origin → Prop), graph.store.CreatedBy created →
    PartitionedGraphStore.CreatesOnly created commands →
    ∃ store, work.run graph = (.ok (), { graph with store }) ∧ store.CreatedBy created

theorem applyWork_adds (command : Command) :
    Adds (applyWork graphEngine shard command) [command] := by
  intro graph created h hcmd
  obtain ⟨store, hok, hcreated⟩ := h.apply shard (hcmd command (.head _))
  exact ⟨store, run_applyWork hok, hcreated⟩

theorem applyBatchWork_adds (entries : List (LogEntry Command)) :
    Adds (applyBatchWork graphEngine (entries.map commandOf)) (entries.map (·.command)) := by
  intro graph created h hcmds
  obtain ⟨store, hok, hcreated⟩ := @PartitionedGraphStore.CreatedBy.applyBatch _ _ h
    (entries.map commandOf) (by rwa [map_map])
  exact ⟨store, run_applyBatchWork hok, hcreated⟩

/-- A write that succeeds is in the log. -/
theorem logged_of_writeCommand {shard : Nat}
    (h : (writeCommand graphEngine repl shard command).run db = (.ok (), db')) :
    db'.Logged command := by
  rw [writeCommand_eq] at h
  obtain ⟨entry, t, happend, hpublish⟩ := of_bind_ok h
  have hlogs : db'.logs = t.logs := (publish_logs entry).of_run hpublish
  exact logsGrow_of_eq hlogs command (logged_of_appendLocalCommand happend)

end Database

namespace GraphDatabase

variable {R : Type} {repl : ShardReplicator Command R} {source : Command → Prop}
  {db db' : GraphDatabase R}

/-! ## What a call brings -/

variable {command : Command} (entries : List (LogEntry Command)) {α : Type} {x : CoreOp R α}

theorem lt_observeIds {origin : Origin} (h : originOf command = some origin)
    (db : GraphDatabase R) :
    saturatingAdd origin.id 1 ≤ (observeIds command db).nextRelationshipId := by
  cases command with
  | createRelationship =>
    cases h
    exact Nat.le_max_right _ _
  | _ => cases h

/-- The allocators after some commands. -/
theorem nextRelationshipId_observeAll (commands : List Command) (db : GraphDatabase R) :
    db.nextRelationshipId ≤
        (commands.foldl (fun db command => observeIds command db) db).nextRelationshipId ∧
      ∀ command ∈ commands, ∀ origin, originOf command = some origin →
        saturatingAdd origin.id 1 ≤
          (commands.foldl (fun db command => observeIds command db) db).nextRelationshipId := by
  induction commands generalizing db with
  | nil => exact ⟨Nat.le_refl _, forall_mem_nil _⟩
  | cons first rest ih =>
    obtain ⟨hle, hrest⟩ := ih (observeIds first db)
    refine ⟨(nextRelationshipId_le_observeIds _ _).trans hle, fun command hmem => ?_⟩
    rcases mem_cons.mp hmem with rfl | hmem
    · exact fun _ heq => (lt_observeIds heq db).trans hle
    · exact hrest command hmem

theorem core_observeAll (commands : List Command) (db : GraphDatabase R) :
    (commands.foldl (fun db command => observeIds command db) db).core = db.core := by
  induction commands generalizing db with
  | nil => rfl
  | cons first rest ih => exact (ih _).trans (core_observeIds _ _)

/-- A relationship was there before, or it is created by a command from the source and the
counter is past it. -/
def OrLearned (source : Command → Prop) (next : Nat) (created : Origin → Prop) (origin : Origin) :
    Prop :=
  created origin ∨
    (∃ command, source command ∧ originOf command = some origin) ∧ saturatingAdd origin.id 1 ≤ next

/-- What a call brings to a server: commands from the source in its logs, and relationships
that they create. -/
structure Learns (source : Command → Prop) (db db' : GraphDatabase R) : Prop where
  logged : ∀ command, db'.core.Logged command → source command
  counter : db.nextRelationshipId ≤ db'.nextRelationshipId
  stored : ∀ created, db.core.store.store.CreatedBy created →
    db'.core.store.store.CreatedBy (OrLearned source db'.nextRelationshipId created)

/-- On a server whose logs are from the source. -/
def LearnsFrom (source : Command → Prop) (db db' : GraphDatabase R) : Prop :=
  (∀ command, db.core.Logged command → source command) → Learns source db db'

theorem learns_of_store (hlogged : ∀ command, db'.core.Logged command → source command)
    (hcounter : db.nextRelationshipId ≤ db'.nextRelationshipId)
    (hstore : db'.core.store = db.core.store) : Learns source db db' :=
  ⟨hlogged, hcounter, fun _ hcreated => hstore ▸ hcreated.mono fun _ h => .inl h⟩

instance : IsPreorder (GraphDatabase R) (LearnsFrom source) where
  refl _ h := learns_of_store h (Nat.le_refl _) rfl
  trans _ _ _ h h' hdb := by
    have h₁ := h hdb
    have h₂ := h' h₁.logged
    refine ⟨h₂.logged, h₁.counter.trans h₂.counter, fun created hcreated => ?_⟩
    refine (h₂.stored _ (h₁.stored created hcreated)).mono fun origin hr => ?_
    rcases hr with (hold | ⟨hsource, hle⟩) | hlearned
    · exact .inl hold
    · exact .inr ⟨hsource, hle.trans h₂.counter⟩
    · exact .inr hlearned

/-- An operation that leaves the store alone. -/
theorem onCore_learnsFrom (hstore : Preserves Database.store x)
    (hlogs : Respects (Database.LogsFrom source) x) : Respects (LearnsFrom source) (onCore x) :=
  fun db hdb => learns_of_store (hlogs db.core hdb) (Nat.le_refl _) (hstore db.core)

theorem onCore_learnsFrom_of_stored (h : Preserves Database.stored x) :
    Respects (LearnsFrom source) (onCore x) :=
  onCore_learnsFrom (Database.preserves_store h) (Database.logsFrom_of_stored h)

/-- Commands are applied, and the allocators are told of them if that succeeds. -/
theorem learns_of_does {x : CoreOp R Unit} {work : Fallible DatabaseError IndexedGraph Unit}
    {commands : List Command} (hadds : Adds work commands) {result : Except DatabaseError Unit}
    {core : GraphCore R} (hrun : x.run db.core = (result, core))
    (hdoes : core.store = db.core.store ∨ work.run db.core.store = (result, core.store))
    (hlogged : ∀ command, core.Logged command → source command)
    (hsource : result = .ok () → ∀ command ∈ commands, source command) :
    Learns source db ((do
      onCore x
      change fun db => commands.foldl (fun db command => observeIds command db) db :
        Op R Unit).run db).2 := by
  have hcore := run_onCore hrun
  cases result with
  | error =>
    rw [run_bind_of_error hcore]
    refine ⟨hlogged, Nat.le_refl _, fun created hcreated => ?_⟩
    rcases hdoes with hstore | hwork
    · rw [hstore]
      exact hcreated.mono fun _ h => .inl h
    · obtain ⟨store, hok, -⟩ := hadds db.core.store (fun _ => True)
        (hcreated.mono fun _ _ => trivial) fun _ _ _ _ => trivial
      cases hwork.symm.trans hok
  | ok =>
    rw [run_bind_of_ok hcore, run_change]
    obtain ⟨hle, hobserved⟩ := nextRelationshipId_observeAll commands { db with core }
    have hcore : (commands.foldl (fun db command => observeIds command db)
      { db with core }).core = core := core_observeAll commands { db with core }
    refine ⟨fun command h => hlogged command (hcore ▸ h), hle, fun created hcreated => ?_⟩
    rw [hcore]
    have hmono : ∀ next, db.core.store.store.CreatedBy (OrLearned source next created) :=
      fun _ => hcreated.mono fun _ h => .inl h
    rcases hdoes with hstore | hwork
    · rw [hstore]
      exact hmono _
    · obtain ⟨store, hok, hstore⟩ := hadds _ _ (hmono _) fun command hmem origin horigin =>
        .inr ⟨⟨command, hsource rfl command hmem, horigin⟩, hobserved command hmem origin horigin⟩
      rw [(Prod.mk.inj (hwork.symm.trans hok)).2]
      exact hstore

theorem applyEntriesBatch_learnsFrom {entries : List (LogEntry Command)}
    (hentries : ∀ entry ∈ entries, source entry.command) :
    Respects (LearnsFrom source) (applyEntriesBatch repl entries) := by
  intro db hdb
  have hkeeps := applyEntriesBatch_keepsProgress graphEngine repl entries db.core
  have hlearns := learns_of_does (applyBatchWork_adds entries) Prod.mk.eta.symm
    ((applyEntriesBatch_does graphEngine repl entries db.core _ _
      Prod.mk.eta.symm).imp_left And.left)
    (fun command h => hdb command (logsGrow_of_eq hkeeps.1.symm command h))
    fun _ => forall_mem_map.mpr hentries
  simp only [foldl_map] at hlearns
  exact hlearns

theorem commitAndApplyShardsThrough_learnsFrom (commits : List (Nat × Nat)) :
    Respects (LearnsFrom source) (commitAndApplyShardsThrough repl commits) := by
  intro db hdb
  revert hdb
  rw [commitAndApplyShardsThrough, run_bind, onCore, run_zoom, run_lookup]
  cases hfound : committableEntriesThrough db.core commits with
  | error => exact refl (r := LearnsFrom source) db
  | ok entries =>
    intro hdb
    have hentries : ∀ entry ∈ entries.insertionSort beforeInBatch,
        source entry.command := fun entry hmem =>
      hdb _ (logged_of_committable hfound entry ((mem_insertionSort _).mp hmem))
    dsimp only
    split
    · exact refl (r := LearnsFrom source) db hdb
    · refine Respects.bind (R := LearnsFrom source) ?_ (fun _ => ?_) db hdb
      · exact onCore_learnsFrom_of_stored (Database.commitEntries_preserves _)
      · exact applyEntriesBatch_learnsFrom hentries

section Replica

variable [BEq Command] {entries : List (LogEntry Command)}

theorem appendReplicatedEntries_learnsFrom (hentries : ∀ entry ∈ entries, source entry.command) :
    Respects (LearnsFrom source)
      (onCore (R := R) (appendReplicatedEntries graphEngine entries)) := by
  refine onCore_learnsFrom (appendReplicatedEntries_respects
    (r := fun db db' => db'.store = db.store) (fun _ _ => ?_) fun _ _ => rfl)
      (appendReplicatedEntries_respects (fun entry hmem => ?_) fun _ =>
        logsFrom_of_logs fun _ => rfl)
  · exact (Preserves.lookup _).bind fun _ _ => rfl
  · exact appendToLog_logsFrom _ (hentries entry hmem)

theorem applyReplicatedEntries_learnsFrom (hentries : ∀ entry ∈ entries, source entry.command) :
    Respects (LearnsFrom source) (applyReplicatedEntries repl entries) := by
  refine Respects.bind ?_ fun _ => ?_
  · exact appendReplicatedEntries_learnsFrom hentries
  · exact commitAndApplyShardsThrough_learnsFrom _

theorem applyRaftAppendEntries_learnsFrom (shard : Nat)
    (hentries : ∀ entry ∈ entries, source entry.command) (leaderCommit : Nat) :
    Respects (LearnsFrom source)
      (applyRaftAppendEntriesWithResponse repl shard entries leaderCommit) := by
  refine Respects.bind ?_ fun _ => ?_
  · exact onCore_learnsFrom_of_stored (Preserves.lookup _)
  refine Respects.bind ?_ fun resp => ?_
  · exact onCore_learnsFrom_of_stored
      (Database.ignoresCluster_stored.observeRaftAppendEntries _ _ _)
  split
  · refine Respects.bind ?_ fun _ => ?_
    · exact onCore_learnsFrom (truncateReplicatedLogForAppend_respects shard entries
        (r := fun db db' => db'.store = db.store) fun _ _ => rfl)
          (truncateReplicatedLogForAppend_respects shard entries fun db =>
            truncated_logsFrom db shard)
    refine Respects.bind ?_ fun _ => ?_
    · exact appendReplicatedEntries_learnsFrom hentries
    refine Respects.bind ?_ fun _ => ?_
    · exact commitAndApplyShardsThrough_learnsFrom _
    · exact Respects.pure _
  · exact Respects.pure _

end Replica

/-- A write brings its command, if it comes as far as the log. -/
theorem writeCommand_learns {shard : Nat} {result : Except DatabaseError Unit}
    (h : (writeCommand repl shard command).run db = (result, db')) :
    Learns (fun c => db.core.Logged c ∨ c = command ∧ db'.core.Logged command) db db' ∧
      (result = .ok () → db'.core.Logged command) := by
  obtain ⟨core, hrun, hcore, -⟩ := writeCommand_run h
  have hfrom : ∀ c, core.Logged c → db.core.Logged c ∨ c = command := by
    have hlogs := @writeCommand_logsFrom R repl
      (fun c => db.core.Logged c ∨ c = command) shard command (.inr rfl) db.core
    rw [hrun] at hlogs
    exact hlogs fun c hc => .inl hc
  have hok : result = .ok () → core.Logged command := by
    rintro rfl
    exact logged_of_writeCommand hrun
  rw [hcore]
  have hlearns := @learns_of_does R (fun c => db.core.Logged c ∨ c = command ∧ core.Logged command)
    db _ _ _ (applyWork_adds shard command) _ _ hrun
    ((writeCommand_store hrun).imp And.left And.right)
    (fun c hc => (hfrom c hc).imp_right fun heq => ⟨heq, heq ▸ hc⟩)
    fun hres => forall_mem_singleton.mpr (.inr ⟨rfl, hok hres⟩)
  change Learns _ db ((writeCommand repl shard command).run db).2 at hlearns
  rw [h] at hlearns
  exact ⟨hlearns, hok⟩

end GraphDatabase

/-! ## Runs -/

/-- A relationship creation that a server has accepted. -/
structure RelationshipCreation where
  server : Nat
  shardId : Nat
  id : Nat
  fromId : Nat
  toId : Nat
  relType : String

/-- What the relationship is created with. -/
def RelationshipCreation.origin (creation : RelationshipCreation) : Origin :=
  ⟨creation.id, creation.fromId, creation.toId, creation.relType⟩

/-- Servers that replicate to each other, with what has been in their logs and stores and the
creations that they have accepted. -/
structure RelationshipCluster (R : Type) where
  servers : Nat → GraphDatabase R
  logged : Nat → Set Command
  applied : Nat → Set Nat
  accepted : List RelationshipCreation

/-- What happens in a cluster. -/
inductive ClusterEvent where
  /-- `create_relationship` on a server. -/
  | createRelationship (server fromId toId : Nat) (relType : String) (properties : Properties)
  /-- Any other single write on a server. -/
  | write (server shardId : Nat) (command : Command)
  /-- A server receives entries (`apply_replicated_entries`). -/
  | replicate (server : Nat) (entries : List (LogEntry Command))
  /-- A server receives entries in a Raft request. -/
  | appendEntries (server shardId : Nat) (entries : List (LogEntry Command)) (leaderCommit : Nat)

namespace RelationshipCluster

open GraphDatabase

variable {R : Type}

/-- A relationship of this id is in the store of a server. -/
def Stores (db : GraphDatabase R) (id : Nat) : Prop :=
  ∃ relationships, db.core.store.store.relationships = .ok relationships ∧
    id ∈ relationships.map Relationship.id

/-- A server is left in a state. -/
def withServer (s : RelationshipCluster R) (server : Nat) (db : GraphDatabase R) :
    RelationshipCluster R :=
  { s with
    servers := update s.servers server db
    logged := update s.logged server (s.logged server ∪ { c | db.core.Logged c })
    applied := update s.applied server (s.applied server ∪ { id | Stores db id }) }

/-- The entries are in the logs of other servers. -/
def SentBy (s : RelationshipCluster R) (server : Nat) (entries : List (LogEntry Command)) : Prop :=
  ∀ entry ∈ entries, ∃ other, other ≠ server ∧
    entry ∈ ((s.servers other).core.logs entry.shardId).written

/-- A server creates when the creations of the others have been in its store, and its counter
is not at its end. -/
def CatchesUp (s : RelationshipCluster R) : ClusterEvent → Prop
  | .createRelationship server _ _ _ _ =>
    (s.servers server).nextRelationshipId + 1 < 2 ^ 64 ∧
      ∀ other, other ≠ server → ∀ id fromId toId relType properties,
        .createRelationship id fromId toId relType properties ∈ s.logged other →
          id ∈ s.applied server
  | _ => True

section Machine

variable [BEq Command] (replicator : ShardReplicator Command R)

/-- What an event does. -/
def next (s : RelationshipCluster R) : ClusterEvent → RelationshipCluster R
  | .createRelationship server fromId toId relType properties =>
    let db := s.servers server
    let created := (createRelationship replicator fromId toId relType properties).run db
    { s.withServer server created.2 with
      accepted := s.accepted ++ (issued created.1).map fun id =>
        ⟨server, db.ownerOfRelationship fromId, id, fromId, toId, relType⟩ }
  | .write server shardId command =>
    s.withServer server ((writeCommand replicator shardId command).run (s.servers server)).2
  | .replicate server entries =>
    s.withServer server ((applyReplicatedEntries replicator entries).run (s.servers server)).2
  | .appendEntries server shardId entries leaderCommit =>
    s.withServer server ((applyRaftAppendEntriesWithResponse replicator shardId entries
      leaderCommit).run (s.servers server)).2

/-- The servers start on new data directories.  They receive what others have in their logs. -/
def machine : Machine (RelationshipCluster R) ClusterEvent where
  init s := (∀ server, (∃ placement, (s.servers server).core.store.store = .fresh placement) ∧
      (∀ shardId, ((s.servers server).core.logs shardId).written = []) ∧
      (s.servers server).nextRelationshipId = 0 ∧ s.logged server = ∅ ∧ s.applied server = ∅) ∧
    s.accepted = []
  enabled s
    | .createRelationship _ _ _ _ _ => True
    | .write _ _ command => ∀ id fromId toId relType properties,
        command ≠ .createRelationship id fromId toId relType properties
    | .replicate server entries => s.SentBy server entries
    | .appendEntries server _ entries _ => s.SentBy server entries
  next := next replicator

end Machine

/-! ## The invariant -/

/-- A creation has been in a log. -/
def Knows (s : RelationshipCluster R) (origin : Origin) : Prop :=
  ∃ server, ∃ c ∈ s.logged server, originOf c = some origin

/-- What has been in the logs and the stores. -/
structure Inv (s : RelationshipCluster R) : Prop where
  current : ∀ server c, (s.servers server).core.Logged c → c ∈ s.logged server
  below : ∀ server, ∀ c ∈ s.logged server, ∀ origin, originOf c = some origin →
    origin.id < u64Max ∧ (origin.id < (s.servers server).nextRelationshipId ∨
      ∃ other, other ≠ server ∧ c ∈ s.logged other)
  unique : ∀ origin origin', s.Knows origin → s.Knows origin' → origin.id = origin'.id →
    origin = origin'
  stored : ∀ server, (s.servers server).core.store.store.CreatedBy fun origin =>
    origin.id < (s.servers server).nextRelationshipId ∧ s.Knows origin
  applied : ∀ server, ∀ id ∈ s.applied server, id < (s.servers server).nextRelationshipId
  accepted : ∀ creation ∈ s.accepted, s.Knows creation.origin
  nodup : (s.accepted.map RelationshipCreation.id).Nodup

variable {s : RelationshipCluster R} {server : Nat} {db db' : GraphDatabase R}
  {source : Command → Prop} {other : Nat} {c : Command} {origin : Origin}

theorem exists_of_originOf (h : originOf c = some origin) : ∃ properties,
    c = .createRelationship origin.id origin.fromId origin.toId origin.relType properties := by
  cases c with
  | createRelationship =>
    cases h
    exact ⟨_, rfl⟩
  | _ => cases h

theorem mem_logged_withServer : c ∈ (s.withServer server db).logged other ↔
    c ∈ s.logged other ∨ other = server ∧ db.core.Logged c := by
  dsimp only [withServer]
  by_cases hother : other = server
  · subst hother
    rw [update_self]
    exact or_congr_right (and_iff_right rfl).symm
  · rw [update_of_ne hother]
    exact (or_iff_left fun h => hother h.1).symm

theorem logged_subset (s : RelationshipCluster R) (server : Nat) (db : GraphDatabase R)
    (h : c ∈ s.logged other) : c ∈ (s.withServer server db).logged other :=
  mem_logged_withServer.mpr (.inl h)

theorem Knows.withServer (h : s.Knows origin) : (s.withServer server db).Knows origin := by
  obtain ⟨other, c, hmem, horigin⟩ := h
  exact ⟨other, c, logged_subset s server db hmem, horigin⟩

/-- The relationship that a call makes known, if any. -/
structure MakesKnown (s : RelationshipCluster R) (source : Command → Prop) (db' : GraphDatabase R)
    (new : Option Origin) : Prop where
  known : ∀ c origin, source c → originOf c = some origin →
    (∃ other, c ∈ s.logged other) ∨ new = some origin ∧ db'.core.Logged c
  fresh : ∀ origin, new = some origin → origin.id < u64Max ∧
    origin.id < db'.nextRelationshipId ∧ ∀ origin', s.Knows origin' → origin'.id ≠ origin.id

section Call

variable (h : Inv s) (hlearns : Learns source db db') (hcore : db.core = (s.servers server).core)
  (hnext : (s.servers server).nextRelationshipId ≤ db.nextRelationshipId)
  {new : Option Origin} (hknown : s.MakesKnown source db' new)

include hlearns hknown

/-- A creation in a log now was in one before, or is new in that of the server. -/
theorem known_or_new (hknows : (s.withServer server db').Knows origin) :
    s.Knows origin ∨ new = some origin := by
  obtain ⟨other, c, hmem, horigin⟩ := hknows
  rcases mem_logged_withServer.mp hmem with hold | ⟨-, hnew⟩
  · exact .inl ⟨other, c, hold, horigin⟩
  · refine (hknown.known c origin (hlearns.logged _ hnew) horigin).imp ?_ And.left
    rintro ⟨other', hmem'⟩
    exact ⟨other', c, hmem', horigin⟩

include h hcore hnext

theorem Inv.createdBy_withServer : db'.core.store.store.CreatedBy fun origin =>
    origin.id < db'.nextRelationshipId ∧ (s.withServer server db').Knows origin := by
  refine (hlearns.stored _ (hcore ▸ h.stored server)).mono fun origin hr => ?_
  rcases hr with ⟨hlt, hknows⟩ | ⟨⟨c, hsource, horigin⟩, hle⟩
  · exact ⟨hlt.trans_le (hnext.trans hlearns.counter), hknows.withServer⟩
  · rcases hknown.known c origin hsource horigin with ⟨other, hmem⟩ | ⟨hnew, hmem⟩
    · rw [saturatingAdd_one_of_lt (h.below other c hmem origin horigin).1] at hle
      exact ⟨hle, other, c, logged_subset s server db' hmem, horigin⟩
    · exact ⟨(hknown.fresh origin hnew).2.1, server, c,
        mem_logged_withServer.mpr (.inr ⟨rfl, hmem⟩), horigin⟩

/-- A call on a server. -/
theorem Inv.withServer : Inv (s.withServer server db') := by
  have hmono : (s.servers server).nextRelationshipId ≤ db'.nextRelationshipId :=
    hnext.trans hlearns.counter
  have hself : (s.withServer server db').servers server = db' := update_self _ _ _
  have hother : ∀ {other}, other ≠ server →
      (s.withServer server db').servers other = s.servers other :=
    fun hne => update_of_ne hne _ _
  have hcounter : ∀ other, (s.servers other).nextRelationshipId ≤
      ((s.withServer server db').servers other).nextRelationshipId := by
    intro other
    by_cases hne : other = server
    · rw [hne, hself]
      exact hmono
    · rw [hother hne]
  have hstored := h.createdBy_withServer hlearns hcore hnext hknown
  constructor
  case current =>
    intro other c hc
    by_cases hne : other = server
    · rw [hne, hself] at hc
      exact mem_logged_withServer.mpr (.inr ⟨hne, hc⟩)
    · rw [hother hne] at hc
      exact logged_subset s server db' (h.current other c hc)
  case below =>
    intro other c hmem origin horigin
    rcases mem_logged_withServer.mp hmem with hold | ⟨rfl, hlog⟩
    · obtain ⟨hmax, hlt | ⟨other', hne, hmem'⟩⟩ := h.below other c hold origin horigin
      · exact ⟨hmax, .inl (hlt.trans_le (hcounter other))⟩
      · exact ⟨hmax, .inr ⟨other', hne, logged_subset s server db' hmem'⟩⟩
    · rcases hknown.known c origin (hlearns.logged _ hlog) horigin with ⟨other', hmem'⟩ | ⟨hnew, -⟩
      · obtain ⟨hmax, hbelow⟩ := h.below other' c hmem' origin horigin
        by_cases hne : other' = other
        · subst hne
          refine ⟨hmax, hbelow.imp (fun hlt => hlt.trans_le (hcounter _)) ?_⟩
          rintro ⟨other'', hne'', hmem''⟩
          exact ⟨other'', hne'', logged_subset s _ db' hmem''⟩
        · exact ⟨hmax, .inr ⟨other', hne, logged_subset s _ db' hmem'⟩⟩
      · obtain ⟨hmax, hlt, -⟩ := hknown.fresh origin hnew
        exact ⟨hmax, .inl (hself.symm ▸ hlt)⟩
  case unique =>
    intro origin origin' hknows hknows' hid
    rcases known_or_new hlearns hknown hknows with hold | hnew
    · rcases known_or_new hlearns hknown hknows' with hold' | hnew'
      · exact h.unique _ _ hold hold' hid
      · exact absurd hid ((hknown.fresh _ hnew').2.2 _ hold)
    · rcases known_or_new hlearns hknown hknows' with hold' | hnew'
      · exact absurd hid.symm ((hknown.fresh _ hnew).2.2 _ hold')
      · exact Option.some.inj (hnew.symm.trans hnew')
  case stored =>
    intro other
    by_cases hne : other = server
    · rw [hne, hself]
      exact hstored
    · rw [hother hne]
      exact (h.stored other).mono fun _ hr => ⟨hr.1, hr.2.withServer⟩
  case applied =>
    intro other id hid
    dsimp only [RelationshipCluster.withServer] at hid
    by_cases hne : other = server
    · rw [hne, update_self] at hid
      rw [hne, hself]
      rcases hid with hold | ⟨rels, hread, hmem⟩
      · exact (h.applied server id hold).trans_le hmono
      · obtain ⟨list, hok, hlist⟩ := hstored.relationships_eq
        cases hok.symm.trans hread
        obtain ⟨rel, hrel, rfl⟩ := mem_map.mp hmem
        exact (hlist rel hrel).1
    · rw [update_of_ne hne] at hid
      rw [hother hne]
      exact h.applied other id hid
  case accepted => exact fun creation hmem => (h.accepted creation hmem).withServer
  case nodup => exact h.nodup

end Call

section Steps

variable {fromId toId : Nat} {relType : String} {properties : Properties}

/-- Nothing new is made known. -/
theorem makesKnown_of_known
    (h : ∀ c origin, source c → originOf c = some origin → ∃ other, c ∈ s.logged other) :
    s.MakesKnown source db' none :=
  ⟨fun c origin hsource horigin => .inl (h c origin hsource horigin), fun _ hnew => by cases hnew⟩

variable {entries : List (LogEntry Command)}

/-- A server receives entries that others have. -/
theorem Inv.receive (h : Inv s) (hsent : s.SentBy server entries)
    (hlearns : LearnsFrom
      (fun c => (s.servers server).core.Logged c ∨ ∃ entry ∈ entries, entry.command = c)
      (s.servers server) db') :
    Inv (s.withServer server db') := by
  refine h.withServer (hlearns fun _ hc => .inl hc) rfl (Nat.le_refl _)
    (makesKnown_of_known fun c _ hsource _ => ?_)
  rcases hsource with hlogged | ⟨entry, hentry, rfl⟩
  · exact ⟨server, h.current server c hlogged⟩
  · obtain ⟨other, -, hmem⟩ := hsent entry hentry
    exact ⟨other, h.current other _ ⟨entry.shardId, entry, hmem, rfl⟩⟩

/-- A server that has caught up has its counter above every id in a log. -/
theorem Inv.lt_next (h : Inv s)
    (hcatches : s.CatchesUp (.createRelationship server fromId toId relType properties))
    (hknows : s.Knows origin) : origin.id < (s.servers server).nextRelationshipId := by
  have happlied : ∀ other, other ≠ server → ∀ c ∈ s.logged other, originOf c = some origin →
      origin.id < (s.servers server).nextRelationshipId := by
    intro other hother c hmem horigin
    obtain ⟨properties', rfl⟩ := exists_of_originOf horigin
    exact h.applied server _ (hcatches.2 other hother _ _ _ _ _ hmem)
  obtain ⟨other, c, hmem, horigin⟩ := hknows
  by_cases hother : other = server
  · subst hother
    rcases (h.below _ c hmem origin horigin).2 with hlt | ⟨other', hne, hmem'⟩
    · exact hlt
    · exact happlied other' hne c hmem' horigin
  · exact happlied other hother c hmem horigin

/-- A creation under the id of the counter is made known. -/
theorem makesKnown_creation (h : Inv s)
    (hcatches : s.CatchesUp (.createRelationship server fromId toId relType properties))
    {command : Command}
    (horigin : originOf command =
      some ⟨(s.servers server).nextRelationshipId, fromId, toId, relType⟩)
    (hlt : (s.servers server).nextRelationshipId < db'.nextRelationshipId) :
    s.MakesKnown (fun c => (s.servers server).core.Logged c ∨
        c = command ∧ db'.core.Logged command) db'
      (some ⟨(s.servers server).nextRelationshipId, fromId, toId, relType⟩) := by
  refine ⟨?_, ?_⟩
  · rintro c origin (hold | ⟨rfl, hnew⟩) horigin'
    · exact .inl ⟨server, h.current server _ hold⟩
    · exact .inr ⟨horigin.symm.trans horigin', hnew⟩
  · intro origin heq
    cases heq
    exact ⟨Nat.lt_sub_of_add_lt hcatches.1, hlt, fun origin' hknows =>
      (h.lt_next hcatches hknows).ne⟩

theorem Inv.accept (h : Inv s) (creation : RelationshipCreation) (hknows : s.Knows creation.origin)
    (hnew : creation.id ∉ s.accepted.map RelationshipCreation.id) :
    Inv { s with accepted := s.accepted ++ [creation] } := by
  refine { h with
    accepted := fun creation' hmem => ?_
    nodup := ?_ }
  · rcases mem_append.mp hmem with hold | hlast
    · exact h.accepted creation' hold
    · cases mem_singleton.mp hlast
      exact hknows
  · rw [map_append]
    refine nodup_append.mpr ⟨h.nodup, nodup_singleton _, ?_⟩
    intro id hid id' hid' heq
    rw [heq, mem_singleton.mp hid'] at hid
    exact hnew hid

variable [BEq Command] {replicator : ShardReplicator Command R}

theorem Inv.of_init (h : (machine replicator).init s) : Inv s := by
  obtain ⟨hservers, hacc⟩ := h
  have hlogged : ∀ server c, c ∉ s.logged server := fun server c hc => by
    rw [(hservers server).2.2.2.1] at hc
    exact hc
  have hknows : ∀ origin, ¬s.Knows origin := by
    rintro origin ⟨server, c, hmem, -⟩
    exact hlogged server c hmem
  refine ⟨?_, fun server c hmem => absurd hmem (hlogged server c),
    fun origin _ hknown => absurd hknown (hknows origin), fun server => ?_,
    fun server id hid => ?_, ?_, ?_⟩
  · rintro server c ⟨shard, entry, hentry, -⟩
    rw [(hservers server).2.1 shard] at hentry
    exact absurd hentry not_mem_nil
  · obtain ⟨place, hstore⟩ := (hservers server).1
    rw [hstore]
    exact ⟨_, PartitionedGraphStore.fresh_parts place, fun _ => Contents.createdBy_empty⟩
  · rw [(hservers server).2.2.2.2] at hid
    exact absurd hid (Set.notMem_empty id)
  · rw [hacc]
    exact forall_mem_nil _
  · rw [hacc]
    exact nodup_nil

theorem Inv.createRelationship (h : Inv s)
    (hcatches : s.CatchesUp (.createRelationship server fromId toId relType properties)) :
    Inv (s.next replicator (.createRelationship server fromId toId relType properties)) := by
  rw [next]
  rcases hrun : (GraphDatabase.createRelationship replicator fromId toId relType properties).run
      (s.servers server) with ⟨result, db'⟩
  rcases createRelationship_run hcatches.1 hrun with
    ⟨rfl, err, rfl⟩ | ⟨shard, written, hwrite, rfl⟩
  · have hlearns : Learns (s.servers server).core.Logged (s.servers server) (s.servers server) :=
      refl (r := LearnsFrom _) _ fun _ hc => hc
    have hsame := h.withServer hlearns rfl (Nat.le_refl _)
      (makesKnown_of_known fun _ _ hc _ => ⟨server, h.current server _ hc⟩)
    rw [issued, map_nil, append_nil]
    exact hsame
  · obtain ⟨hlearns, hlogged⟩ := writeCommand_learns hwrite
    have hinv := h.withServer hlearns rfl (Nat.le_succ _)
      (makesKnown_creation h hcatches rfl hlearns.counter)
    cases written with
    | error =>
      rw [Except.map, issued, map_nil, append_nil]
      exact hinv
    | ok =>
      refine hinv.accept ⟨server, (s.servers server).ownerOfRelationship fromId,
        (s.servers server).nextRelationshipId, fromId, toId, relType⟩
        ⟨server, _, mem_logged_withServer.mpr (.inr ⟨rfl, hlogged rfl⟩), rfl⟩ fun hmem => ?_
      obtain ⟨creation, hcreation, hid⟩ := mem_map.mp hmem
      exact (h.lt_next hcatches (h.accepted creation hcreation)).ne hid

theorem Inv.next (h : Inv s) {event : ClusterEvent}
    (henabled : (machine replicator).enabled s event)
    (hcatches : s.CatchesUp event) : Inv (s.next replicator event) := by
  cases event with
  | createRelationship => exact h.createRelationship hcatches
  | write server =>
    refine h.withServer (writeCommand_learns rfl).1 rfl (Nat.le_refl _)
      (makesKnown_of_known fun c origin hsource horigin => ?_)
    rcases hsource with hold | ⟨rfl, -⟩
    · exact ⟨server, h.current server c hold⟩
    · obtain ⟨properties, heq⟩ := exists_of_originOf horigin
      exact absurd heq (henabled _ _ _ _ _)
  | replicate =>
    exact h.receive henabled (applyReplicatedEntries_learnsFrom (fun entry hentry =>
      .inr ⟨entry, hentry, rfl⟩) _)
  | appendEntries server shard entries leaderCommit =>
    exact h.receive henabled (applyRaftAppendEntries_learnsFrom shard (fun entry hentry =>
      .inr ⟨entry, hentry, rfl⟩) leaderCommit _)

end Steps

/-! ## Two servers with a shard each -/

/-- Server 1 is the primary of shard 0 and server 2 of shard 1; each has both shards. -/
def crossTable : ShardRoutingTable :=
  ⟨1, [⟨0, [⟨1, .primary⟩, ⟨2, .replica⟩]⟩, ⟨1, [⟨2, .primary⟩, ⟨1, .replica⟩]⟩]⟩

def crossServer (serverId : Nat) : GraphDatabase Unit where
  core := { graphServer with
    config := ⟨serverId, 1024, false⟩
    shardCount := 2
    routingTable := crossTable }
  nextNodeId := 0
  nextRelationshipId := 0

/-- The servers on new data directories. -/
def crossCluster : RelationshipCluster Unit := ⟨crossServer, fun _ => ∅, fun _ => ∅, []⟩

theorem crossCluster_init :
    (machine (noopShardReplicator Command)).init crossCluster :=
  ⟨fun _ => ⟨⟨_, rfl⟩, fun _ => rfl, rfl, rfl, rfl⟩, rfl⟩

/-- A state of the two servers. -/
def crossRun (events : List ClusterEvent) : RelationshipCluster Unit :=
  (machine (noopShardReplicator Command)).run crossCluster events

/-- A node and a relationship on the first server. -/
def createdOnFirst : List ClusterEvent :=
  [.write 1 0 (.createNode 0 [] []), .createRelationship 1 0 0 "KNOWS" []]

/-- The entries of the first server come to the second, which then creates a relationship. -/
def createdInTurn : List ClusterEvent :=
  createdOnFirst ++ [.replicate 2 (((crossRun createdOnFirst).servers 1).core.logs 0).written,
    .write 2 1 (.createNode 1 [] []), .createRelationship 2 1 1 "LIKES" []]

/-- A node and a relationship on each server. -/
def createdOnBoth : List ClusterEvent :=
  [.write 1 0 (.createNode 0 [] []), .write 2 1 (.createNode 1 [] []),
    .createRelationship 1 0 0 "KNOWS" [], .createRelationship 2 1 1 "LIKES" []]

/-- Then the entries of the second server come to the first. -/
def overwritten : List ClusterEvent :=
  createdOnBoth ++ [.replicate 1 (((crossRun createdOnBoth).servers 2).core.logs 1).written]

end RelationshipCluster

end Neo4r.Db
