/-
  `Raft.LocalInvariant`: one Raft core under any sequence of calls.

  The calls are the public operations that change a core; a call may fail half way,
  and its saves may fail.  The callers promise three things: the entries of an
  AppendEntries request are numbered consecutively from its previous index, the log a
  core is opened with is contiguous and reaches back to its snapshot, and compaction
  points do not move backwards.

  Indexes saturate at the largest 64-bit value, so a local append to a log that ends
  there stores a second entry with that index.  The invariant holds in every run
  without such an append.
-/
import Neo4r.Raft.Cluster
import Neo4r.Raft.LogShape

set_option autoImplicit false

namespace Neo4r.Raft

open Foundation RaftCore

variable {C : Type}

/-! ## Calls -/

/-- The public operations of a core that change it. -/
inductive RaftOp (C : Type)
  | withLeaseDuration (leaseDuration : Nat)
  | withLeaseClockBounds (clockDriftBound messageDelayBound : Nat)
  | startElection
  | becomeLeader (now : Nat)
  | recordVoteResponse (voterId : Nat) (response : RequestVoteResponse) (now : Nat)
  | requestVote (request : RequestVoteRequest)
  | appendEntries (request : AppendEntriesRequest C)
  | installSnapshot (request : InstallSnapshotRequest)
  | compactLogToSnapshot (metadata : RaftSnapshotMetadata)
  | appendLocalEntry (command : C)
  | appendExistingLocalEntry (entry : LogEntry C)
  | recordReplicationMatch (serverId matchIndex now : Nat)
  | beginJointConsensus (voters : Finset Nat)
  | finalizeJointConsensus
  | applyCommittedMembershipChange (change : RaftMembershipChange)

/-- The core after an operation, successful or not. -/
def RaftOp.apply (r : RaftCore C) : RaftOp C → RaftCore C
  | .withLeaseDuration leaseDuration => r.withLeaseDuration leaseDuration
  | .withLeaseClockBounds drift delay => r.withLeaseClockBounds drift delay
  | .startElection => r.startElection.2
  | .becomeLeader now => r.becomeLeader now
  | .recordVoteResponse voterId response now => (r.recordVoteResponse voterId response now).2
  | .requestVote request => (r.requestVote request).2
  | .appendEntries request => (r.appendEntries request).2
  | .installSnapshot request => (r.installSnapshot request).2
  | .compactLogToSnapshot metadata => (r.compactLogToSnapshot metadata).2
  | .appendLocalEntry command => (r.appendLocalEntry command).2
  | .appendExistingLocalEntry entry => (r.appendExistingLocalEntry entry).2
  | .recordReplicationMatch serverId matchIndex now =>
    (r.recordReplicationMatch serverId matchIndex now).2
  | .beginJointConsensus voters => (r.beginJointConsensus voters).2
  | .finalizeJointConsensus => r.finalizeJointConsensus
  | .applyCommittedMembershipChange change => (r.applyCommittedMembershipChange change).2

/-- One call: an operation and what the operating system does with its saves. -/
structure RaftCall (C : Type) where
  op : RaftOp C
  saves : List SaveOutcome

/-- What the callers promise about a call. -/
def RaftCall.wellNumbered (r : RaftCore C) (call : RaftCall C) : Bool :=
  match call.op with
  | .appendEntries request =>
    Consecutive LogEntry.index request.prevLogIndex request.entries
  | .compactLogToSnapshot metadata => r.snapshotIndex ≤ metadata.lastIncludedIndex
  | _ => true

/-- The call does not append to a log that ends at the largest index. -/
def RaftCall.belowIndexBound (r : RaftCore C) (call : RaftCall C) : Bool :=
  match call.op with
  | .appendLocalEntry _ => r.lastLogIndex < u64Max
  | .appendExistingLocalEntry _ => r.lastLogIndex < u64Max
  | _ => true

/-- The log given to an open is contiguous in some order, and starts no later than
right after the snapshot. -/
def ReachesSnapshot (log : List (LogEntry C)) (snapshot : Option RaftSnapshotMetadata) : Prop :=
  ∃ base ≤ (snapshot.map (·.lastIncludedIndex)).getD 0,
    Consecutive LogEntry.index base (log.insertionSort fun a b => a.index ≤ b.index)

/-- The cores the four ways of opening return. -/
inductive FreshCore (r : RaftCore C) : Prop
  | single {serverId shardId : Nat} {store : RaftPersistentStateStore}
      (h : openSingle serverId shardId store = .ok r)
  | membership {serverId shardId : Nat} {store : RaftPersistentStateStore}
      {membership : RaftMembership}
      (h : openWithMembership serverId shardId store membership = .ok r)
  | log {serverId shardId : Nat} {store : RaftPersistentStateStore}
      {membership : RaftMembership} {log : List (LogEntry C)} {commitIndex : Nat}
      (hlog : ReachesSnapshot log none)
      (h : openWithLog serverId shardId store membership log commitIndex = .ok r)
  | snapshot {serverId shardId : Nat} {store : RaftPersistentStateStore}
      {membership : RaftMembership} {log : List (LogEntry C)}
      {snapshot : Option RaftSnapshotMetadata} {commitIndex : Nat}
      (hlog : ReachesSnapshot log snapshot)
      (h : openWithLogAndSnapshot serverId shardId store membership log snapshot
        commitIndex = .ok r)

/-- A core under calls that keep the callers' promises. -/
def callMachine (C : Type) : Machine (RaftCore C) (RaftCall C) where
  init := FreshCore
  enabled r call := call.wellNumbered r = true
  next r call := call.op.apply (r.withSaves call.saves)

instance (r : RaftCore C) (call : RaftCall C) : Decidable ((callMachine C).enabled r call) :=
  inferInstanceAs (Decidable (_ = true))

/-- The same, without local appends past the largest index. -/
def boundedCallMachine (C : Type) : Machine (RaftCore C) (RaftCall C) :=
  (callMachine C).restrict fun r call => call.belowIndexBound r = true

instance (r : RaftCore C) (call : RaftCall C) :
    Decidable ((boundedCallMachine C).enabled r call) :=
  inferInstanceAs (Decidable (_ ∧ _ = true))

/-! ## Opening -/

namespace RaftCore

variable {server shard : Nat} {store : RaftPersistentStateStore} {membership : RaftMembership}
  {r : RaftCore C}

theorem openWithMembership_logInv (h : openWithMembership server shard store membership = .ok r) :
    r.log = [] ∧ r.snapshot = none ∧ r.commitIndex = 0 := by
  unfold openWithMembership at h
  split at h
  · cases h
  · split at h
    · cases h
    · cases h
      exact ⟨rfl, rfl, rfl⟩

variable {log : List (LogEntry C)} {commitIndex : Nat}

theorem openWithLog_spec (h : openWithLog server shard store membership log commitIndex = .ok r) :
    r.log = log.insertionSort (fun a b => a.index ≤ b.index) ∧ r.snapshot = none ∧
      r.commitIndex ≤ r.lastLogIndex := by
  unfold openWithLog at h
  split at h
  · cases h
  · rename_i raft hopen
    obtain ⟨-, hsnap, -⟩ := openWithMembership_logInv hopen
    split at h
    · cases h
    · cases h
      exact ⟨rfl, hsnap, Nat.min_le_right _ _⟩

theorem openWithLogAndSnapshot_logInv {snapshot : Option RaftSnapshotMetadata}
    (hlog : ReachesSnapshot log snapshot)
    (h : openWithLogAndSnapshot server shard store membership log snapshot commitIndex = .ok r) :
    LogInv r := by
  obtain ⟨base, hbase, hconsec⟩ := hlog
  unfold openWithLogAndSnapshot at h
  split at h
  · cases h
  · rename_i raft hopen
    obtain ⟨hraftLog, hraftSnapshot, hcommit⟩ := openWithLog_spec hopen
    have hzero : raft.snapshotIndex = 0 := by rw [snapshotIndex, hraftSnapshot]; rfl
    rw [← hraftLog] at hconsec
    split at h
    · cases h
      obtain rfl : base = 0 := Nat.le_zero.mp hbase
      exact ⟨hzero.symm ▸ hconsec, hzero.symm ▸ Nat.zero_le _, hcommit⟩
    · rename_i metadata
      split at h
      · cases h
      · cases h
        have hbase : base ≤ metadata.lastIncludedIndex := hbase
        have hlog : (raft.log.filter fun entry => entry.index > metadata.lastIncludedIndex) =
            raft.log.drop (metadata.lastIncludedIndex - base) := hconsec.filter_gt _
        have hdrop := hconsec.drop (metadata.lastIncludedIndex - base)
        rw [Nat.add_sub_cancel' hbase, ← hlog] at hdrop
        refine ⟨hdrop, Nat.le_max_right _ _, ?_⟩
        -- The log given to the open ends at `base + length`, or is empty.
        have hend : raft.lastLogIndex ≤ base + raft.log.length := by
          have hkey := hconsec.getLast?_key
          unfold lastLogIndex
          cases hlast : raft.log.getLast? with
          | none => simp [hzero]
          | some =>
            rw [hlast] at hkey
            exact hkey.le
        refine le_of_le_of_eq ?_ (lastLogIndex_eq hdrop).symm
        show max raft.commitIndex metadata.lastIncludedIndex ≤ metadata.lastIncludedIndex +
          (raft.log.filter fun entry => entry.index > metadata.lastIncludedIndex).length
        rw [hlog, List.length_drop]
        omega

end RaftCore

variable {r : RaftCore C}

theorem FreshCore.logInv (h : FreshCore r) : r.LogInv := by
  have hempty : r.log = [] → r.snapshot = none → r.commitIndex = 0 → r.LogInv := by
    intro hlog hsnap hcommit
    have hzero := snapshotIndex_of_none hsnap
    refine ⟨?_, ?_, ?_⟩
    · rw [hlog]
      trivial
    · rw [hzero]
      exact Nat.zero_le _
    · rw [hcommit]
      exact Nat.zero_le _
  cases h with
  | single h =>
    unfold openSingle at h
    split at h
    · cases h
    · obtain ⟨hlog, hsnap, hcommit⟩ := openWithMembership_logInv h
      exact hempty hlog hsnap hcommit
  | membership h =>
    obtain ⟨hlog, hsnap, hcommit⟩ := openWithMembership_logInv h
    exact hempty hlog hsnap hcommit
  | @log server shard store membership log commitIndex hlog h =>
    have hopen : openWithLogAndSnapshot server shard store membership log none
        commitIndex = .ok r := by
      rw [openWithLogAndSnapshot, h]
    exact openWithLogAndSnapshot_logInv hlog hopen
  | snapshot hlog h => exact openWithLogAndSnapshot_logInv hlog h

/-! ## One call -/

theorem RaftCore.applyCommittedMembershipChange_sameLog (r : RaftCore C)
    (change : RaftMembershipChange) :
    r.SameLog (r.applyCommittedMembershipChange change).2 := by
  unfold applyCommittedMembershipChange
  split
  · exact ⟨rfl, rfl, rfl, rfl⟩
  · exact ⟨rfl, rfl, rfl, rfl⟩
  · exact ⟨rfl, rfl, rfl, rfl⟩
  · split
    · exact ⟨rfl, rfl, rfl, rfl⟩
    · dsimp only
      split <;> exact ⟨rfl, rfl, rfl, rfl⟩

theorem RaftCore.beginJointConsensus_sameLog (r : RaftCore C) (voters : Finset Nat) :
    r.SameLog (r.beginJointConsensus voters).2 := by
  unfold beginJointConsensus
  split <;> exact ⟨rfl, rfl, rfl, rfl⟩

/-- Every admitted call keeps the shape of the log and everything committed. -/
theorem RaftOp.apply_logInv (h : r.LogInv) (call : RaftCall C)
    (hnumbered : call.wellNumbered r = true) (hbound : call.belowIndexBound r = true) :
    (call.op.apply r).LogInv ∧ r.Keeps (call.op.apply r) := by
  obtain ⟨op, saves⟩ := call
  have hsame : ∀ {r' : RaftCore C}, r.SameLog r' → r'.LogInv ∧ r.Keeps r' :=
    fun hsame => ⟨hsame.logInv h, hsame.keeps⟩
  cases op with
  | withLeaseDuration | withLeaseClockBounds => exact hsame ⟨rfl, rfl, rfl, rfl⟩
  | startElection => exact hsame r.startElection_sameLog
  | becomeLeader now => exact hsame (r.becomeLeader_sameLog now)
  | recordVoteResponse voterId resp now =>
    exact hsame (r.recordVoteResponse_sameLog voterId resp now)
  | requestVote req => exact hsame (r.requestVote_sameLog req)
  | appendEntries =>
    exact appendEntries_logInv h (of_decide_eq_true hnumbered)
  | installSnapshot req => exact installSnapshot_logInv h req
  | compactLogToSnapshot =>
    exact compactLogToSnapshot_logInv h (of_decide_eq_true hnumbered)
  | appendLocalEntry cmd =>
    exact appendLocalEntry_logInv h (of_decide_eq_true hbound) cmd
  | appendExistingLocalEntry entry =>
    exact appendExistingLocalEntry_logInv h (of_decide_eq_true hbound) entry
  | recordReplicationMatch server matchIndex now =>
    exact recordReplicationMatch_logInv h server matchIndex now
  | beginJointConsensus voters => exact hsame (r.beginJointConsensus_sameLog voters)
  | finalizeJointConsensus => exact hsame ⟨rfl, rfl, rfl, rfl⟩
  | applyCommittedMembershipChange change =>
    exact hsame (r.applyCommittedMembershipChange_sameLog change)

theorem boundedCallMachine_step (h : r.LogInv) {call : RaftCall C}
    (he : (boundedCallMachine C).enabled r call) :
    ((boundedCallMachine C).next r call).LogInv ∧ r.Keeps ((boundedCallMachine C).next r call) := by
  have hsaves : r.SameLog (r.withSaves call.saves) := ⟨rfl, rfl, rfl, rfl⟩
  obtain ⟨hinv, hkeeps⟩ := RaftOp.apply_logInv (hsaves.logInv h) call he.1 he.2
  exact ⟨hinv, hsaves.keeps.trans hkeeps⟩

/-! ## Runs -/

theorem logInv_of_reachable (hr : (boundedCallMachine C).Reachable r) : r.LogInv :=
  hr.invariant (P := LogInv) (fun _ h => FreshCore.logInv h) fun _ _ _ h he =>
    (boundedCallMachine_step h he).1

theorem keeps_of_admissible (h : r.LogInv) {calls : List (RaftCall C)}
    (hcalls : (boundedCallMachine C).Admissible r calls) :
    r.Keeps ((boundedCallMachine C).run r calls) := by
  induction calls generalizing r with
  | nil => exact .refl r
  | cons call calls ih =>
    obtain ⟨hinv, hkeeps⟩ := boundedCallMachine_step h hcalls.1
    exact hkeeps.trans (ih hinv hcalls.2)

/-- **Local invariant.**  In every run of one core without a local append past the
largest index: the snapshot index is at most the commit index, which is at most the
last log index; the log holds exactly the consecutive indexes after the snapshot; and
whatever is called afterwards, the commit index does not decrease and an entry at or
below it is only ever compacted away. -/
theorem raftCore_log_invariant {r : RaftCore C} (hr : (boundedCallMachine C).Reachable r) :
    r.snapshotIndex ≤ r.commitIndex ∧ r.commitIndex ≤ r.lastLogIndex ∧
      r.log.map LogEntry.index = List.range' (r.snapshotIndex + 1) r.log.length ∧
      ∀ calls, (boundedCallMachine C).Admissible r calls →
        r.commitIndex ≤ ((boundedCallMachine C).run r calls).commitIndex ∧
        ∀ k ≤ r.commitIndex,
          ((boundedCallMachine C).run r calls).entryAt k = r.entryAt k ∨
          k ≤ ((boundedCallMachine C).run r calls).snapshotIndex ∧
            ((boundedCallMachine C).run r calls).entryAt k = none := by
  have hinv := logInv_of_reachable hr
  refine ⟨hinv.snapshot_le, hinv.commit_le, hinv.consecutive.map_key, ?_⟩
  intro calls hcalls
  have hkeeps := keeps_of_admissible hinv hcalls
  exact ⟨hkeeps.commit, hkeeps.entries⟩

/-- A server on its own, opened without a state file. -/
def singleStore : RaftPersistentStateStore :=
  ⟨"raft/state", some "raft", "raft/state.tmp", .missing, []⟩

/-- The core of server 1 as the only voter of shard 0. -/
def singleCore : RaftCore Nat :=
  { serverId := 1, shardId := 0, stateStore := singleStore, persistent := .default
    log := [], snapshot := none, commitIndex := 0, role := .follower, leaderId := none
    membership := .ofVoters {1}, matchIndexes := fun _ => none, votesReceived := ∅
    leaseDeadline := none, leaseDuration := 750 * 10 ^ 6
    leaseClockDriftBound := 0, leaseMessageDelayBound := 0 }

theorem singleCore_fresh : FreshCore singleCore :=
  .single (show openSingle 1 0 singleStore = .ok singleCore from rfl)

/-- An election, two appends and a compaction of the first. -/
def ordinaryCalls : List (RaftCall Nat) :=
  [⟨.startElection, []⟩, ⟨.becomeLeader 0, []⟩, ⟨.appendLocalEntry 7, []⟩,
    ⟨.appendLocalEntry 8, []⟩, ⟨.compactLogToSnapshot ⟨0, 1, 1⟩, []⟩]

theorem raftCore_log_invariant_ordinaryCalls :
    let r := (boundedCallMachine Nat).run singleCore ordinaryCalls
    r.snapshotIndex = 1 ∧ r.commitIndex = 2 ∧ r.commitIndex ≤ r.lastLogIndex := by
  have hcalls : (boundedCallMachine Nat).Admissible singleCore ordinaryCalls := by
    decide +kernel
  have hr := (Machine.Reachable.start (m := boundedCallMachine Nat) singleCore_fresh).run hcalls
  exact ⟨by decide +kernel, by decide +kernel, (raftCore_log_invariant hr).2.1⟩

/-- A snapshot at the largest index, then a local append. -/
def saturatingCalls : List (RaftCall Nat) :=
  [⟨.installSnapshot ⟨1, 1, ⟨0, 1, u64Max⟩, []⟩, []⟩, ⟨.startElection, []⟩,
    ⟨.becomeLeader 0, []⟩, ⟨.appendLocalEntry 7, []⟩]

/-- Past the largest index the log no longer follows the snapshot: the appended entry
gets the index the snapshot already covers. -/
theorem raftCore_log_saturates :
    ∃ r, (callMachine Nat).Reachable r ∧ r.snapshotIndex = u64Max ∧
      r.log.map LogEntry.index = [u64Max] ∧
      r.log.map LogEntry.index ≠ List.range' (r.snapshotIndex + 1) r.log.length := by
  have hcalls : (callMachine Nat).Admissible singleCore saturatingCalls := by decide +kernel
  exact ⟨_, (Machine.Reachable.start (m := callMachine Nat) singleCore_fresh).run hcalls,
    by decide +kernel, by decide +kernel, by decide +kernel⟩

end Neo4r.Raft
