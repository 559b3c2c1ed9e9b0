/-
  `Server.TwoPhaseCommit`: transactions over several participants
  (`neo4r-server/src/backend/native_execution/transactions.rs`,
  `backend/remote_transactions.rs`, `neo4r-storage/src/transaction.rs`).

  The coordinator asks every participant to prepare its batch, records its decision, and
  asks every participant to commit, which is to take the batch out of the store of prepared
  batches and to execute it.  A participant is a shard whose primary is the coordinator
  itself or another server.  `recover_transaction_decisions` applies the decisions that are
  still on record.

  The protocol is a machine whose phases are the places in these functions between two
  operations that can fail.  An event says which servers restart before the next operation
  and what becomes of it, so runs range over all failures of connections, participants and
  the coordinator.  `issued` and `executed` record which batches were ever held for the
  transaction and which were executed; the program has no such records.
-/
import Neo4r.Server.TransactionStores

set_option autoImplicit false

namespace Neo4r.Server

open Foundation FiniteMap Function List Inv

/-! ## What a store holds under an id -/

namespace PreparedTransactionStore

variable {W : Type} {store store' : PreparedTransactionStore W} {id : Nat}

/-- The batch is in memory. -/
def InMemory (store : PreparedTransactionStore W) (id : Nat) : Prop :=
  (store.prepared.get id).isSome

/-- The batch is in the file. -/
def InFile (store : PreparedTransactionStore W) (id : Nat) : Prop :=
  (store.path.bind fun file => file.get id).isSome

/-- The batch is held: it can be taken now or after a restart. -/
def Holds (store : PreparedTransactionStore W) (id : Nat) : Prop :=
  store.InMemory id ∨ store.InFile id

instance (store : PreparedTransactionStore W) (id : Nat) : Decidable (store.Holds id) :=
  inferInstanceAs (Decidable ((store.prepared.get id).isSome = true ∨
    (store.path.bind fun file => file.get id).isSome = true))

/-- The batch is held and survives a restart. -/
def Kept (store : PreparedTransactionStore W) (id : Nat) : Prop :=
  store.InMemory id ∧ store.InFile id

/-- The batch is not in the file only. -/
def Backed (store : PreparedTransactionStore W) (id : Nat) : Prop :=
  store.InFile id → store.InMemory id

/-- The counter has passed every id in use. -/
def Bounded (store : PreparedTransactionStore W) : Prop := ∀ id, store.Holds id → id ≤ store.nextId

/-- What an operation on another id, or a restart, leaves as it is. -/
structure Carries (store store' : PreparedTransactionStore W) (id : Nat) : Prop where
  kept : store.Kept id → store'.Kept id
  gone : ¬store.Holds id → ¬store'.Holds id
  backed : store.Backed id → store'.Backed id

theorem Carries.refl (store : PreparedTransactionStore W) (id : Nat) : Carries store store id :=
  ⟨fun h => h, fun h => h, fun h => h⟩

variable {file prepared : PreparedBatches W}

theorem inFile_some (hpath : store.path = some file) : store.InFile id ↔ (file.get id).isSome := by
  rw [InFile, hpath]
  exact Iff.rfl

section

variable (hmemory : store'.InMemory id ↔ store.InMemory id)

include hmemory

/-- The memory is as before, and the file is as before or has what is in memory. -/
theorem carries_of
    (hfile : (store'.InFile id ↔ store.InFile id) ∨ (store'.InFile id ↔ store'.InMemory id)) :
    Carries store store' id := by
  rcases hfile with hfile | hfile
  · exact ⟨fun h => ⟨hmemory.mpr h.1, hfile.mpr h.2⟩,
      fun h hin => h (hin.imp hmemory.mp hfile.mp),
      fun h hin => hmemory.mpr (h (hfile.mp hin))⟩
  · exact ⟨fun h => ⟨hmemory.mpr h.1, hfile.mpr (hmemory.mpr h.1)⟩,
      fun h hin => h (.inl (hmemory.mp (hin.elim (fun h' => h') hfile.mp))),
      fun _ => hfile.mp⟩

end

section Saves

variable {α : Type} {outcome : SaveOutcome} {undone : PreparedBatches W} {value : α}
  {result : Except PreparedError α} (h : Saves outcome prepared undone value store store' result)

include h

/-- The memory is as before, and what is in memory is saved or saving it failed. -/
theorem Saves.carries (hprepared : (prepared.get id).isSome ↔ store.InMemory id)
    (hundone : (undone.get id).isSome ↔ store.InMemory id) : Carries store store' id := by
  cases h with
  | saved hmemory hpath =>
    have hin : store'.InMemory id ↔ store.InMemory id := by rw [InMemory, hmemory, hprepared]
    refine carries_of hin ?_
    cases hold : store.path with
    | none =>
      left
      rw [InFile, InFile, hpath, hold]
      exact Iff.rfl
    | some =>
      right
      rw [hold] at hpath
      rw [inFile_some hpath, hprepared, hin]
  | failed hmemory hpath =>
    have hin : store'.InMemory id ↔ store.InMemory id := by rw [InMemory, hmemory, hundone]
    refine carries_of hin ?_
    obtain ⟨-, heq⟩ | ⟨-, heq⟩ := hpath
    · left
      rw [InFile, InFile, heq]
    · right
      rw [inFile_some heq, hprepared, hin]

theorem Saves.path_isSome (hpath : store.path.isSome) : store'.path.isSome := by
  cases h with
  | saved _ heq =>
    rw [heq, Option.isSome_map]
    exact hpath
  | failed _ heq =>
    obtain ⟨-, heq⟩ | ⟨-, heq⟩ := heq
    · rw [heq]
      exact hpath
    · rw [heq]
      rfl

end Saves

/-! ### A restart -/

theorem reopen_some (hpath : store.path = some file) : store.reopen = ofFile file := by
  rw [reopen, hpath]

theorem path_reopen (hpath : store.path.isSome) : store.reopen.path = store.path := by
  obtain ⟨file, hfile⟩ := Option.isSome_iff_exists.mp hpath
  rw [reopen_some hfile, hfile]
  rfl

theorem carries_reopen (hpath : store.path.isSome) (id : Nat) : Carries store store.reopen id := by
  have hfile : store.reopen.InFile id ↔ store.InFile id := by
    rw [InFile, InFile, path_reopen hpath]
  have hmemory : store.reopen.InMemory id ↔ store.InFile id := by
    obtain ⟨file, hsome⟩ := Option.isSome_iff_exists.mp hpath
    rw [reopen_some hsome, inFile_some hsome]
    exact Iff.rfl
  exact ⟨fun h => ⟨hmemory.mpr h.2, hfile.mpr h.2⟩,
    fun h hin => h (.inr (hin.elim hmemory.mp hfile.mp)),
    fun _ hin => hmemory.mpr (hfile.mp hin)⟩

theorem bounded_reopen (hpath : store.path.isSome) : store.reopen.Bounded := by
  obtain ⟨file, hsome⟩ := Option.isSome_iff_exists.mp hpath
  rw [reopen_some hsome]
  rintro id (hin | hin) <;> exact le_nextId_ofFile hin

/-! ### `take` -/

variable {outcome : SaveOutcome} {preparedId : Nat}
  {result : Except PreparedError (PreparedWriteBatch W)}

section

variable (h : (take outcome preparedId).run store = (result, store'))

include h

/-- Where the batches other than the one to be taken are. -/
theorem take_carries (hid : id ≠ preparedId) : Carries store store' id := by
  have herase : ((store.prepared.erase preparedId).get id).isSome ↔ store.InMemory id := by
    rw [get_erase_ne _ hid, InMemory]
  obtain ⟨-, -, rfl⟩ | ⟨batch, -, -, hsaves⟩ := take_cases h
  · exact Carries.refl _ _
  · refine hsaves.carries herase ?_
    rw [get_insert_ne _ _ hid, herase]

theorem take_path (hpath : store.path.isSome) : store'.path.isSome := by
  obtain ⟨-, -, rfl⟩ | ⟨batch, -, -, hsaves⟩ := take_cases h
  · exact hpath
  · exact hsaves.path_isSome hpath

end

/-- A batch that has been taken is not held. -/
theorem take_ok {batch : PreparedWriteBatch W}
    (h : (take outcome preparedId).run store = (.ok batch, store')) : ¬store'.Holds preparedId := by
  have herase : ((store.prepared.erase preparedId).get preparedId).isSome = false := by
    rw [get_erase_self]
    rfl
  obtain ⟨-, hok, -⟩ | ⟨_, -, -, ⟨hprep, hpath⟩⟩ := take_cases h
  · cases hok
  · rintro (hin | hin)
    · rw [InMemory, hprep, herase] at hin
      cases hin
    · cases hold : store.path with
      | none =>
        rw [hold] at hpath
        rw [InFile, hpath] at hin
        cases hin
      | some =>
        rw [hold] at hpath
        rw [inFile_some hpath, herase] at hin
        cases hin

theorem take_unknown {other : Nat}
    (h : (take outcome preparedId).run store = (.error (.unknown other), store')) :
    store' = store ∧ ¬store.InMemory preparedId := by
  obtain ⟨hget, -, rfl⟩ | ⟨_, -, -, hsaves⟩ := take_cases h
  · refine ⟨rfl, fun hin => ?_⟩
    rw [InMemory, hget] at hin
    cases hin
  · cases hsaves

/-- A batch that could not be taken is in memory still; it is out of the file if the new
file is in place. -/
theorem take_save_error {err : String}
    (h : (take outcome preparedId).run store = (.error (.save err), store')) :
    store.InMemory preparedId ∧ store'.InMemory preparedId ∧
      ((outcome = .failed err ∧ store'.path = store.path) ∨ outcome = .failedAfterRename err) := by
  obtain ⟨-, hok, -⟩ | ⟨batch, hget, -, ⟨⟩ | ⟨hprep, hpath⟩⟩ := take_cases h
  · cases hok
  · refine ⟨?_, ?_, hpath.imp_right fun h' => h'.1⟩
    · rw [InMemory, hget]
      rfl
    · rw [InMemory, hprep, get_insert_self]
      rfl

section

variable (h : (take outcome preparedId).run store = (result, store'))

include h

theorem take_gone (hgone : ¬store.Holds id) : ¬store'.Holds id := by
  by_cases hid : id = preparedId
  · subst hid
    obtain ⟨-, -, rfl⟩ | ⟨batch, hget, -⟩ := take_cases h
    · exact hgone
    · refine absurd (.inl ?_) hgone
      rw [InMemory, hget]
      rfl
  · exact (take_carries h hid).gone hgone

theorem take_bounded (hbounded : store.Bounded) : store'.Bounded := by
  intro id hholds
  obtain hnext : store'.nextId = store.nextId := by
    obtain ⟨-, -, rfl⟩ | ⟨-, -, hnext, -⟩ := take_cases h
    · rfl
    · exact hnext
  rw [hnext]
  exact hbounded id (not_imp_not.mp (take_gone h) hholds)

theorem take_backed (hbacked : store.Backed preparedId) : store'.Backed preparedId := by
  cases result with
  | ok => exact fun hin => absurd (.inr hin) (take_ok h)
  | error err =>
    cases err with
    | unknown =>
      rw [(take_unknown h).1]
      exact hbacked
    | save => exact fun _ => (take_save_error h).2.1

end

/-! ### `prepare` -/

variable {batch : PreparedWriteBatch W} {result : Except PreparedError Nat}

section

variable (h : (prepare outcome batch).run store = (result, store'))

include h

theorem prepare_carries (hid : id ≠ nextIdAfter store.nextId) : Carries store store' id := by
  have hinsert : ((store.prepared.insert (nextIdAfter store.nextId) batch).get id).isSome ↔
      store.InMemory id := by
    rw [get_insert_ne _ _ hid, InMemory]
  refine (prepare_cases h).2.carries hinsert ?_
  rw [get_erase_ne _ hid, hinsert]

theorem prepare_bounded (hbounded : store.Bounded) (hnext : store.nextId + 1 < 2 ^ 64) :
    store'.Bounded := by
  intro id hholds
  have hid : nextIdAfter store.nextId = store.nextId + 1 := Nat.mod_eq_of_lt hnext
  rw [(prepare_cases h).1]
  by_cases heq : id = nextIdAfter store.nextId
  · exact heq.le
  · have hle := hbounded id (not_imp_not.mp (prepare_carries h heq).gone hholds)
    omega

end

theorem prepare_ok (h : (prepare outcome batch).run store = (.ok preparedId, store'))
    (hpath : store.path.isSome) : store'.Kept (nextIdAfter store.nextId) := by
  obtain ⟨-, ⟨hprep, heq⟩⟩ := prepare_cases h
  obtain ⟨file, hsome⟩ := Option.isSome_iff_exists.mp hpath
  rw [hsome] at heq
  refine ⟨?_, (inFile_some heq).mpr ?_⟩
  · rw [InMemory, hprep, get_insert_self]
    rfl
  · rw [get_insert_self]
    rfl

/-- A batch that could not be saved is not held under its new id. -/
theorem prepare_error {err : PreparedError}
    (h : (prepare outcome batch).run store = (.error err, store'))
    (hsave : ∀ err, outcome ≠ .failedAfterRename err)
    (hnew : ¬store.Holds (nextIdAfter store.nextId)) :
      ¬store'.Holds (nextIdAfter store.nextId) := by
  obtain ⟨-, ⟨⟩ | ⟨hprep, ⟨-, heq⟩ | ⟨hrename, -⟩⟩⟩ := prepare_cases h
  · rintro (hin | hin)
    · rw [InMemory, hprep, get_erase_self] at hin
      cases hin
    · rw [InFile, heq] at hin
      exact hnew (.inr hin)
  · exact absurd hrename (hsave _)

end PreparedTransactionStore

/-! ## The protocol -/

/-- Where a participant is: the locations `local` and `remote:<address>` of the records. -/
inductive Location
  | coordinator
  | remote (address : String)
  deriving DecidableEq, Repr

/-- A participant of a transaction, with the writes for its shard. -/
structure Participant (W : Type) where
  location : Location
  batch : PreparedWriteBatch W

/-- `TransactionParticipantRecord`. -/
structure TransactionParticipantRecord where
  location : Location
  shardId : Nat
  preparedId : Nat
  deriving DecidableEq, Repr

/-- `TransactionDecision`. -/
inductive TransactionDecision
  | commit
  | abort
  deriving DecidableEq, Repr

/-- `TransactionDecisionRecord`. -/
structure TransactionDecisionRecord where
  txId : Nat
  decision : TransactionDecision
  participants : List TransactionParticipantRecord
  deriving DecidableEq, Repr

/-- What becomes of an operation of the coordinator. -/
inductive Outcome
  /-- It succeeds. -/
  | done
  /-- `TcpStream::connect` fails. -/
  | connectFailed (err : String)
  /-- The participant refuses the request or does not get it. -/
  | unreached (err : String)
  /-- Nothing is written. -/
  | saveFailed (err : String)
  /-- The file is written, and an error is returned. -/
  | saveFailedAfterRename (err : String)
  /-- The batch is taken and not executed. -/
  | unexecuted (err : String)
  /-- Everything is done, and an error is returned. -/
  | unanswered (err : String)
  /-- The coordinator crashes before the operation. -/
  | crashBefore
  /-- The coordinator crashes after the operation. -/
  | crashAfter
  deriving DecidableEq, Repr

namespace Outcome

/-- What it is for a save of the prepared batches. -/
def save : Outcome → SaveOutcome
  | .saveFailed err => .failed err
  | .saveFailedAfterRename err => .failedAfterRename err
  | _ => .saved

/-- The error of a request that does not get to its participant; the coordinator always
gets to its own store. -/
def unreachedAt : Outcome → Location → Option String
  | .unreached err, .remote _ => some err
  | .connectFailed err, .remote _ => some err
  | _, _ => none

/-- A batch that is taken is also executed, and one that could not be taken is in the file. -/
def executes : Outcome → Bool
  | .unexecuted _ => false
  | .saveFailedAfterRename _ => false
  | _ => true

/-- The decision log has been written. -/
def writes : Outcome → Bool
  | .done | .crashAfter | .saveFailedAfterRename _ | .unexecuted _ | .unanswered _ => true
  | _ => false

/-- The error of a file operation. -/
def error : Outcome → Option String
  | .connectFailed err | .unreached err | .saveFailed err | .saveFailedAfterRename err
  | .unexecuted err | .unanswered err => some err
  | .done | .crashBefore | .crashAfter => none

/-- The coordinator crashes. -/
def crashes : Outcome → Bool
  | .crashBefore | .crashAfter => true
  | _ => false

end Outcome

/-- What the coordinator learns from a request to commit or abort. -/
inductive Reply
  | answered
  | unknown
  | failed (err : String)
  | crashed
  deriving DecidableEq, Repr

/-- The answer to a request, as the coordinator gets it. -/
def Outcome.reply (outcome : Outcome) (reply : Reply) : Reply :=
  match outcome with
  | .unanswered err | .unexecuted err => .failed err
  | .crashAfter => .crashed
  | _ => reply

/-- The answer for the result of a `take`. -/
def Reply.ofTake {W : Type} : Except PreparedError (PreparedWriteBatch W) → Reply
  | .ok _ => .answered
  | .error (.unknown _) => .unknown
  | .error (.save err) => .failed err

/-- Where the coordinator is. -/
inductive CommitPhase (W : Type)
  /-- In the loops over the participants to prepare. -/
  | preparing (rest : List (Participant W)) (prepared : List TransactionParticipantRecord)
  /-- At `record_abort_decision`, after an error. -/
  | recordingAbort (prepared : List TransactionParticipantRecord) (err : String)
  /-- In the loops that abort. -/
  | aborting (rest : List TransactionParticipantRecord) (err : String)
  /-- At `record_commit_decision`. -/
  | recordingCommit (prepared : List TransactionParticipantRecord)
  /-- In the loops that commit. -/
  | committing (rest : List TransactionParticipantRecord)
  /-- At `clear_transaction_decision`. -/
  | clearing
  /-- `prepare_commit_mixed_batches` has returned. -/
  | returned (result : Except String Unit)
  /-- The coordinator has crashed. -/
  | stopped
  /-- In the loop of `recover_transaction_decisions`; the first record has the participants
  that are left. -/
  | applying (records : List TransactionDecisionRecord) (completed : List Nat) (count : Nat)
  /-- At a `remove_tx_ids` of `recover_transaction_decisions`. -/
  | removing (completed : List Nat) (result : Except String Nat)
  /-- `recover_transaction_decisions` has returned. -/
  | recovered (result : Except String Nat)

/-- A transaction and all that its outcome depends on. -/
structure TwoPhaseCommit (W : Type) where
  txId : Nat
  participants : List (Participant W)
  stores : Location → PreparedTransactionStore W
  decisions : List TransactionDecisionRecord
  phase : CommitPhase W
  issued : List TransactionParticipantRecord
  executed : List (Location × Nat)

/-- What happens next. -/
inductive CommitEvent
  /-- The next operation, after some servers have restarted. -/
  | proceed (restarted : List String) (outcome : Outcome)
  /-- `recover_transaction_decisions` is called. -/
  | recover (restarted : List Location)

namespace TwoPhaseCommit

open PreparedTransactionStore

variable {W : Type} (s : TwoPhaseCommit W)

/-- Another store at a location. -/
def withStore (location : Location) (store : PreparedTransactionStore W) :
    TwoPhaseCommit W :=
  { s with stores := update s.stores location store }

/-- Servers restart. -/
def restart (restarted : List Location) : TwoPhaseCommit W :=
  { s with stores := fun location =>
      if location ∈ restarted then (s.stores location).reopen else s.stores location }

/-- The coordinator crashes. -/
def crash : TwoPhaseCommit W := { s.restart [.coordinator] with phase := .stopped }

/-- The phase afterwards. -/
def goto (phase : CommitPhase W) : TwoPhaseCommit W := { s with phase }

/-- `TransactionDecisionStore::append`. -/
def append (record : TransactionDecisionRecord) : TwoPhaseCommit W :=
  { s with decisions := s.decisions ++ [record] }

/-- `TransactionDecisionStore::remove_tx_ids`. -/
def removeTxIds (txIds : List Nat) : TwoPhaseCommit W :=
  { s with decisions := s.decisions.filter fun record => !txIds.contains record.txId }

variable (p : Participant W) {store : PreparedTransactionStore W}

/-- A store with a new batch, if it holds it. -/
def issue (store : PreparedTransactionStore W)
    (preparedId : Nat) : TwoPhaseCommit W :=
  { s.withStore p.location store with
    issued := if store.Holds preparedId then
        s.issued ++ [⟨p.location, p.batch.shardId, preparedId⟩]
      else s.issued }

/-- A participant prepares its batch. -/
def prepareBatch (rest : List (Participant W))
    (prepared : List TransactionParticipantRecord) (outcome : Outcome) : TwoPhaseCommit W :=
  let preparedId := nextIdAfter (s.stores p.location).nextId
  match (prepare outcome.save p.batch).run (s.stores p.location) with
  | (.error err, store) =>
    (s.issue p store preparedId).goto (.recordingAbort prepared err.message)
  | (.ok _, store) => match outcome with
    | .crashAfter => (s.issue p store preparedId).crash
    | .unanswered err | .unexecuted err =>
      (s.issue p store preparedId).goto (.recordingAbort prepared err)
    | _ => (s.issue p store preparedId).goto
        (.preparing rest (prepared ++ [⟨p.location, p.batch.shardId, preparedId⟩]))

/-- One participant of the loops that prepare.  A failed connection returns at once. -/
def prepareParticipant (rest : List (Participant W))
    (prepared : List TransactionParticipantRecord) (outcome : Outcome) : TwoPhaseCommit W :=
  match outcome, p.location with
  | .crashBefore, _ => s.crash
  | .connectFailed err, .remote address =>
    s.goto (.returned (.error s!"connect write peer {address}: {err}"))
  | .connectFailed err, .coordinator => s.goto (.recordingAbort prepared err)
  | .unreached err, _ => s.goto (.recordingAbort prepared err)
  | _, _ => s.prepareBatch p rest prepared outcome

/-- `record_transaction_decision`, and where the coordinator goes then. -/
def recordTransactionDecision (decision : TransactionDecision)
    (participants : List TransactionParticipantRecord) (outcome : Outcome)
    (next : CommitPhase W) : TwoPhaseCommit W :=
  if participants.isEmpty then s.goto next
  else
    let s := if outcome.writes then s.append ⟨s.txId, decision, participants⟩ else s
    if outcome.crashes then s.crash
    else match outcome.error with
      | some err => s.goto (.returned (.error err))
      | none => s.goto next

/-- A request to commit or to abort a prepared batch. -/
def request (decision : TransactionDecision)
    (r : TransactionParticipantRecord) (outcome : Outcome) : Reply × TwoPhaseCommit W :=
  if outcome = .crashBefore then (.crashed, s)
  else match outcome.unreachedAt r.location with
    | some err => (.failed err, s)
    | none =>
      match (take outcome.save r.preparedId).run (s.stores r.location) with
      | (result, store) =>
        let executed := if result.isOk ∧ decision = .commit ∧ outcome.executes then
            s.executed ++ [(r.location, r.preparedId)]
          else s.executed
        (outcome.reply (.ofTake result), { s.withStore r.location store with executed })

/-- `commit_decision_participant` and `abort_decision_participant`; the coordinator does not
look at the result of an abort of its own. -/
def applyParticipant (decision : TransactionDecision)
    (r : TransactionParticipantRecord) (outcome : Outcome) : Reply × TwoPhaseCommit W :=
  match s.request decision r outcome with
  | (.failed err, s) =>
    if decision = .abort ∧ r.location = .coordinator then (.answered, s) else (.failed err, s)
  | (reply, s) => (reply, s)

/-- The error of a commit. -/
def commitError (r : TransactionParticipantRecord) (err : String) : String :=
  match r.location with
  | .coordinator => err
  | .remote address =>
    s!"commit prepared transaction {r.preparedId} on {address} failed: {err}"

/-- The next operation of `prepare_commit_mixed_batches` or of
`recover_transaction_decisions`. -/
def proceed (outcome : Outcome) : TwoPhaseCommit W :=
  match s.phase with
  | .preparing [] prepared => s.goto (.recordingCommit prepared)
  | .preparing (p :: rest) prepared => s.prepareParticipant p rest prepared outcome
  | .recordingAbort prepared err =>
    s.recordTransactionDecision .abort prepared outcome (.aborting prepared err)
  | .aborting [] err => s.goto (.returned (.error err))
  | .aborting (r :: rest) err => match s.request .abort r outcome with
    | (.crashed, s) => s.crash
    | (_, s) => s.goto (.aborting rest err)
  | .recordingCommit prepared =>
    s.recordTransactionDecision .commit prepared outcome (.committing prepared)
  | .committing [] => s.goto .clearing
  | .committing (r :: rest) => match s.request .commit r outcome with
    | (.crashed, s) => s.crash
    | (.answered, s) => s.goto (.committing rest)
    | (.unknown, s) => s.goto (.returned (.error
        (commitError r (PreparedError.unknown r.preparedId).message)))
    | (.failed err, s) => s.goto (.returned (.error (commitError r err)))
  | .clearing =>
    let s := if outcome.writes then s.removeTxIds [s.txId] else s
    if outcome.crashes then s.crash else s.goto (.returned (.ok ()))
  | .applying [] completed count => s.goto (.removing completed (.ok count))
  | .applying (record :: records) completed count => match record.participants with
    | [] => s.goto (.applying records (completed ++ [record.txId]) count)
    | r :: rest => match s.applyParticipant record.decision r outcome with
      | (.crashed, s) => s.crash
      | (.failed err, s) => s.goto (.removing completed (.error err))
      | (_, s) =>
        s.goto (.applying ({ record with participants := rest } :: records) completed count)
  | .removing completed result =>
    if completed.isEmpty then s.goto (.recovered result)
    else
      let s := if outcome.writes then s.removeTxIds completed else s
      if outcome.crashes then s.crash
      else match outcome.error with
        | some err => s.goto (.recovered (.error err))
        | none => s.goto (.recovered result)
  | .returned _ | .stopped | .recovered _ => s

/-- No function of the protocol runs. -/
def Rests : Prop :=
  match s.phase with
  | .returned _ | .stopped | .recovered _ => True
  | _ => False

/-- The state after an event. -/
def next : CommitEvent → TwoPhaseCommit W
  | .proceed restarted outcome => (s.restart (restarted.map .remote)).proceed outcome
  | .recover restarted =>
    (s.restart restarted).goto (.applying s.decisions [] s.decisions.length)

/-- `prepare_commit_mixed_batches` is called: first the coordinator's own shards, then the
others.  Every server has a file for its prepared batches, and a counter that has passed the
ids in use. -/
def Called : Prop :=
  (∃ locals : List (PreparedWriteBatch W), ∃ remotes : List (String × PreparedWriteBatch W),
      s.participants = locals.map (⟨.coordinator, ·⟩) ++
        remotes.map fun remote => ⟨.remote remote.1, remote.2⟩) ∧
    s.phase = .preparing s.participants [] ∧ s.issued = [] ∧ s.executed = [] ∧
    ∀ location, (s.stores location).path.isSome ∧ (s.stores location).Bounded

/-- The runs of a transaction, with any number of recoveries. -/
def machine (W : Type) : Machine (TwoPhaseCommit W) CommitEvent where
  init := Called
  enabled s event := match event with
    | .proceed _ _ => ¬s.Rests
    | .recover _ => s.Rests
  next := next

/-- The participant has executed its batch. -/
def Executed : Prop :=
  ∃ r ∈ s.issued, r.location = p.location ∧ r.shardId = p.batch.shardId ∧
    (r.location, r.preparedId) ∈ s.executed

/-- All participants have executed their batch or none has, and no batch of the transaction
is held. -/
structure AtomicOutcome (s : TwoPhaseCommit W) : Prop where
  all_or_none : (∀ p ∈ s.participants, s.Executed p) ∨ ∀ p ∈ s.participants, ¬s.Executed p
  none_held : ∀ r ∈ s.issued, ¬(s.stores r.location).Holds r.preparedId

/-! ### Operations that keep the outcome atomic -/

/-- The record names the batch. -/
def Names (record : TransactionDecisionRecord) (location : Location) (preparedId : Nat) : Prop :=
  ∃ r ∈ record.participants, r.location = location ∧ r.preparedId = preparedId

/-- The coordinator gives up without a decision: it crashes before the request or cannot
connect. -/
def Abandons : Outcome → Location → Prop
  | .crashBefore, _ => True
  | .connectFailed _, .remote _ => True
  | _, _ => False

/-- The operation does not leave a batch that no decision covers, and does not lose one that
is to be executed. -/
def SafeStep (outcome : Outcome) : Prop :=
  match s.phase with
  | .preparing (p :: _) prepared =>
    (Abandons outcome p.location → prepared = []) ∧
      (outcome.writes = true → outcome = .done) ∧
      (s.stores p.location).nextId + 1 < 2 ^ 64 ∧
      ∀ record ∈ s.decisions, ¬Names record p.location ((s.stores p.location).nextId + 1)
  | .recordingAbort prepared _ | .recordingCommit prepared =>
    prepared = [] ∨ outcome.writes = true ∧ ∀ record ∈ s.decisions, record.txId ≠ s.txId
  | .committing (_ :: _) => outcome.executes = true
  | .applying (record :: _) _ _ => record.txId = s.txId →
      match record.decision with
      | .commit => outcome.executes = true
      | .abort => ∀ r ∈ record.participants.head?, r.location = .coordinator → outcome.save = .saved
  | _ => True

/-- As `SafeStep`, after the restarts of the event. -/
def Safe : CommitEvent → Prop
  | .proceed restarted outcome => (s.restart (restarted.map .remote)).SafeStep outcome
  | .recover _ => True

/-! ### What an operation leaves alone -/

/-- The batch of a record is held. -/
def Held (r : TransactionParticipantRecord) : Prop := (s.stores r.location).Holds r.preparedId

/-- No batch of the transaction is held. -/
def Gone : Prop := ∀ r ∈ s.issued, ¬s.Held r

/-- Every server has a file, and a counter that has passed the ids in use. -/
def Opened : Prop := ∀ location, (s.stores location).path.isSome ∧ (s.stores location).Bounded

/-- A change that concerns the batches in `touched` only. -/
structure Frame (touched : Location → Nat → Prop) (s s' : TwoPhaseCommit W) : Prop where
  txId : s'.txId = s.txId
  participants : s'.participants = s.participants
  decisions : s'.decisions = s.decisions
  opened : s'.Opened
  carries : ∀ location id, ¬touched location id →
    Carries (s.stores location) (s'.stores location) id
  executed : ∀ location id, ¬touched location id →
    ((location, id) ∈ s'.executed ↔ (location, id) ∈ s.executed)

theorem frame_restart {s : TwoPhaseCommit W} (hopen : s.Opened) (restarted : List Location) :
    Frame (fun _ _ => False) s (s.restart restarted) := by
  refine ⟨rfl, rfl, rfl, fun loc => ?_, fun loc id _ => ?_, fun _ _ _ => Iff.rfl⟩
  · rw [restart]
    dsimp only
    split
    · rw [path_reopen (hopen loc).1]
      exact ⟨(hopen loc).1, bounded_reopen (hopen loc).1⟩
    · exact hopen loc
  · rw [restart]
    dsimp only
    split
    · exact carries_reopen (hopen loc).1 id
    · exact Carries.refl _ id

/-- Another store at one location. -/
theorem frame_withStore {s : TwoPhaseCommit W} (hopen : s.Opened) {loc : Location} {id : Nat}
    (hpath : store.path.isSome) (hbounded : store.Bounded)
    (hcarries : ∀ id', id' ≠ id → Carries (s.stores loc) store id') :
    Frame (fun l i => l = loc ∧ i = id) s (s.withStore loc store) := by
  refine ⟨rfl, rfl, rfl, ?_, ?_, fun _ _ _ => Iff.rfl⟩
  · refine (forall_update_iff s.stores fun _ store =>
      store.path.isSome ∧ store.Bounded).mpr ⟨⟨hpath, hbounded⟩, fun l _ => hopen l⟩
  · refine (forall_update_iff s.stores fun l store => ∀ i, ¬(l = loc ∧ i = id) →
      Carries (s.stores l) store i).mpr ⟨fun i htouched => ?_, fun l _ i _ => Carries.refl _ i⟩
    exact hcarries i fun hi => htouched ⟨rfl, hi⟩

/-! ### Requests -/

variable {s s' : TwoPhaseCommit W} {decision : TransactionDecision}
  {r : TransactionParticipantRecord} {outcome : Outcome} {reply : Reply}

/-- A request is not made, or a `take` at the participant. -/
theorem request_cases (h : s.request decision r outcome = (reply, s')) :
    (s' = s ∧ (reply = .crashed ∨ ∃ err, reply = .failed err) ∧
        (outcome = .crashBefore ∨ ∃ err, outcome.unreachedAt r.location = some err)) ∨
      ∃ result store,
        (take outcome.save r.preparedId).run (s.stores r.location) = (result, store) ∧
        reply = outcome.reply (.ofTake result) ∧
        s' = { s.withStore r.location store with
          executed := if result.isOk ∧ decision = .commit ∧ outcome.executes then
              s.executed ++ [(r.location, r.preparedId)]
            else s.executed } := by
  rw [request] at h
  split at h
  · cases h
    exact .inl ⟨rfl, .inl rfl, .inl (by assumption)⟩
  · split at h
    · rename_i err hunreached
      cases h
      exact .inl ⟨rfl, .inr ⟨err, rfl⟩, .inr ⟨err, hunreached⟩⟩
    · split at h
      rename_i result store htake
      cases h
      exact .inr ⟨result, store, htake, rfl, rfl⟩

theorem issued_request (h : s.request decision r outcome = (reply, s')) : s'.issued = s.issued := by
  obtain ⟨rfl, -⟩ | ⟨result, store, -, -, rfl⟩ := request_cases h <;> rfl

theorem frame_request (hopen : s.Opened) (h : s.request decision r outcome = (reply, s')) :
    Frame (fun l i => l = r.location ∧ i = r.preparedId) s s' := by
  obtain ⟨rfl, -⟩ | ⟨result, store, htake, -, rfl⟩ := request_cases h
  · exact ⟨rfl, rfl, rfl, hopen, fun _ id _ => .refl _ id, fun _ _ _ => Iff.rfl⟩
  · have hframe := frame_withStore hopen
      (take_path htake (hopen r.location).1)
      (take_bounded htake (hopen r.location).2)
      fun id' hne => take_carries htake hne
    refine ⟨rfl, rfl, rfl, hframe.opened, hframe.carries, fun l i htouched => ?_⟩
    split
    · rw [mem_append, mem_singleton]
      refine or_iff_left fun heq => htouched ?_
      exact ⟨congrArg Prod.fst heq, congrArg Prod.snd heq⟩
    · exact Iff.rfl

variable {store : PreparedTransactionStore W}

theorem stores_withStore_self {loc : Location} :
    (s.withStore loc store).stores loc = store := by
  rw [withStore]
  dsimp only
  rw [update_self]

theorem request_gone (h : s.request decision r outcome = (reply, s')) (hgone : ¬s.Held r) :
    ¬s'.Held r := by
  obtain ⟨rfl, -⟩ | ⟨result, store, htake, -, rfl⟩ := request_cases h
  · exact hgone
  · rw [Held]
    rw [stores_withStore_self]
    exact take_gone htake hgone

theorem request_backed (h : s.request decision r outcome = (reply, s'))
    (hbacked : (s.stores r.location).Backed r.preparedId) :
    (s'.stores r.location).Backed r.preparedId := by
  obtain ⟨rfl, -⟩ | ⟨result, store, htake, -, rfl⟩ := request_cases h
  · exact hbacked
  · rw [stores_withStore_self]
    exact take_backed htake hbacked

/-- A batch that is taken or unknown is not held. -/
theorem gone_of_taken {result : Except PreparedError (PreparedWriteBatch W)}
    (h : (take outcome.save r.preparedId).run (s.stores r.location) = (result, store))
    (hbacked : (s.stores r.location).Backed r.preparedId)
    (hres : ∀ err, result ≠ .error (.save err)) : ¬store.Holds r.preparedId := by
  cases result with
  | ok => exact take_ok h
  | error err =>
    cases err with
    | unknown =>
      obtain ⟨rfl, hmemory⟩ := take_unknown h
      exact fun hholds => hmemory (hholds.elim (fun h => h) hbacked)
    | save err => exact absurd rfl (hres err)

theorem request_answered (h : s.request decision r outcome = (reply, s'))
    (hbacked : (s.stores r.location).Backed r.preparedId)
    (hreply : reply = .answered ∨ reply = .unknown) : ¬s'.Held r := by
  obtain ⟨-, hnot, -⟩ | ⟨result, store, htake, rfl, rfl⟩ := request_cases h
  · obtain rfl | ⟨err, rfl⟩ := hnot <;> rcases hreply with hreply | hreply <;> cases hreply
  · rw [Held]
    rw [stores_withStore_self]
    refine gone_of_taken htake hbacked ?_
    rintro err rfl
    cases outcome <;> rcases hreply with hreply | hreply <;> cases hreply

/-- A request that gets to its participant and can save there. -/
theorem request_saved (h : s.request decision r outcome = (reply, s'))
    (hbacked : (s.stores r.location).Backed r.preparedId)
    (hreached : outcome.unreachedAt r.location = none) (hcrash : outcome ≠ .crashBefore)
    (hsave : outcome.save = .saved) : ¬s'.Held r := by
  obtain ⟨-, -, hnot⟩ | ⟨result, store, htake, -, rfl⟩ := request_cases h
  · obtain hnot | ⟨err, hnot⟩ := hnot
    · exact absurd hnot hcrash
    · rw [hreached] at hnot
      cases hnot
  · rw [Held]
    rw [stores_withStore_self]
    refine gone_of_taken htake hbacked ?_
    rintro err rfl
    rw [hsave] at htake
    obtain ⟨-, -, ⟨hfailed, -⟩ | hfailed⟩ := take_save_error htake <;> cases hfailed

/-- How far the batch of a record is, for a decision: a batch to be committed is kept until
it is executed. -/
def Settled (s : TwoPhaseCommit W) (r : TransactionParticipantRecord) : TransactionDecision → Prop
  | .abort => (r.location, r.preparedId) ∉ s.executed
  | .commit =>
    ((s.stores r.location).Kept r.preparedId ∧ (r.location, r.preparedId) ∉ s.executed) ∨
      ¬s.Held r ∧ (r.location, r.preparedId) ∈ s.executed

theorem request_settled (h : s.request decision r outcome = (reply, s'))
    (hexecutes : decision = .commit → outcome.executes = true) (hsettled : s.Settled r decision) :
    s'.Settled r decision := by
  obtain ⟨rfl, -⟩ | ⟨result, store, htake, -, rfl⟩ := request_cases h
  · exact hsettled
  cases decision with
  | abort =>
    rw [if_neg fun hcommit => TransactionDecision.noConfusion hcommit.2.1]
    exact hsettled
  | commit =>
    have hexec := hexecutes rfl
    rw [Settled, Held]
    rw [stores_withStore_self]
    cases result with
    | ok =>
      rw [if_pos ⟨rfl, rfl, hexec⟩]
      exact .inr ⟨take_ok htake, mem_append_right _ (mem_singleton.mpr rfl)⟩
    | error err =>
      cases err with
      | unknown =>
        rw [(take_unknown htake).1]
        exact hsettled
      | save =>
        obtain ⟨hin, hmemory, hsave⟩ := take_save_error htake
        -- the batch is in memory, so it is kept and the new file is not in place
        obtain ⟨hkept, hnot⟩ | ⟨hgone, -⟩ := hsettled
        · obtain ⟨-, hpath⟩ | hrename := hsave
          · refine .inl ⟨⟨hmemory, ?_⟩, hnot⟩
            rw [InFile, hpath]
            exact hkept.2
          · cases outcome <;> cases hrename
            cases hexec
        · exact absurd (.inl hin) hgone

/-! ### The invariant -/

/-- What holds of the stores in every phase. -/
structure Sound (s : TwoPhaseCommit W) : Prop where
  opened : s.Opened
  backed : ∀ r ∈ s.issued, (s.stores r.location).Backed r.preparedId
  distinct : ∀ r ∈ s.issued, ∀ r' ∈ s.issued,
    r.location = r'.location → r.preparedId = r'.preparedId → r = r'

/-- Before the decision: all batches are kept, and none is in the decision log. -/
structure Undecided (s : TwoPhaseCommit W) : Prop where
  unnamed : ∀ record ∈ s.decisions, ∀ r ∈ s.issued, ¬Names record r.location r.preparedId
  kept : ∀ r ∈ s.issued, (s.stores r.location).Kept r.preparedId
  none_executed : s.executed = []

/-- The record of another transaction, which names no batch of this one. -/
def Foreign (s : TwoPhaseCommit W) (record : TransactionDecisionRecord) : Prop :=
  (s.issued ≠ [] → record.txId ≠ s.txId) ∧ ∀ r ∈ s.issued, ¬Names record r.location r.preparedId

/-- The batch of a participant has been prepared. -/
def Covers (s : TwoPhaseCommit W) : Prop :=
  ∀ p ∈ s.participants, ∃ r ∈ s.issued, r.location = p.location ∧ r.shardId = p.batch.shardId

/-- After the decision: it is on record as long as a batch is held. -/
structure Decided (s : TwoPhaseCommit W) (decision : TransactionDecision) : Prop where
  records : ∀ record ∈ s.decisions, record = ⟨s.txId, decision, s.issued⟩ ∨ s.Foreign record
  recorded : (∃ r ∈ s.issued, s.Held r) → ⟨s.txId, decision, s.issued⟩ ∈ s.decisions
  settled : ∀ r ∈ s.issued, s.Settled r decision
  covers : decision = .commit → s.Covers

/-- What is left of the transaction's own record, in a recovery. -/
structure Ours (s : TwoPhaseCommit W) (decision : TransactionDecision)
    (record : TransactionDecisionRecord) : Prop where
  txId : record.txId = s.txId
  decision : record.decision = decision
  issued : record.participants ⊆ s.issued
  held : ∀ r ∈ s.issued, s.Held r → r ∈ record.participants

/-- The records that a recovery has left. -/
structure Recovering (s : TwoPhaseCommit W) (decision : TransactionDecision)
    (records : List TransactionDecisionRecord) (completed : List Nat) : Prop where
  decided : s.Decided decision
  left : ∀ record ∈ records, s.Ours decision record ∨ s.Foreign record
  pending : (∃ r ∈ s.issued, s.Held r) → ∃ record ∈ records, s.Ours decision record
  finished : s.txId ∈ completed → s.Gone

/-- The shard of a participant. -/
def participantShard : Location × Nat := (p.location, p.batch.shardId)

/-- The shard of a record. -/
def recordShard (r : TransactionParticipantRecord) : Location × Nat := (r.location, r.shardId)

/-- What holds in a phase. -/
def PhaseInv (s : TwoPhaseCommit W) : CommitPhase W → Prop
  | .preparing rest prepared => s.Undecided ∧ prepared = s.issued ∧
      s.participants.map participantShard = s.issued.map recordShard ++ rest.map participantShard
  | .recordingAbort prepared _ => s.Undecided ∧ prepared = s.issued
  | .recordingCommit prepared => s.Undecided ∧ prepared = s.issued ∧ s.Covers
  | .aborting rest _ => s.Decided .abort ∧ rest ⊆ s.issued
  | .committing rest => s.Decided .commit ∧ rest ⊆ s.issued ∧ ∀ r ∈ s.issued, s.Held r → r ∈ rest
  | .clearing => s.Decided .commit ∧ s.Gone
  | .returned _ | .stopped => ∃ decision, s.Decided decision
  | .applying records completed _ => ∃ decision, s.Recovering decision records completed
  | .removing completed result => ∃ decision, s.Decided decision ∧
      (s.txId ∈ completed → s.Gone) ∧ ∀ count, result = .ok count → s.Gone
  | .recovered result => ∃ decision, s.Decided decision ∧ ∀ count, result = .ok count → s.Gone

/-- The invariant of the protocol. -/
structure Inv (s : TwoPhaseCommit W) : Prop where
  sound : s.Sound
  phase : s.PhaseInv s.phase

variable {touched : Location → Nat → Prop} {phase : CommitPhase W}

theorem Sound.of_frame (h : s.Sound) (hframe : Frame touched s s') (hissued : s'.issued = s.issued)
    (htouched : ∀ r ∈ s.issued, touched r.location r.preparedId →
      (s'.stores r.location).Backed r.preparedId) : s'.Sound := by
  refine ⟨hframe.opened, ?_, ?_⟩
  · rw [hissued]
    intro r hr
    by_cases htouch : touched r.location r.preparedId
    · exact htouched r hr htouch
    · exact (hframe.carries _ _ htouch).backed (h.backed r hr)
  · rw [hissued]
    exact h.distinct

theorem Foreign.of_frame {record : TransactionDecisionRecord} (h : s.Foreign record)
    (hframe : Frame touched s s') (hissued : s'.issued = s.issued) : s'.Foreign record := by
  rw [Foreign, hissued, hframe.txId]
  exact h

/-- A settled batch is still settled where nothing was touched. -/
theorem settled_of_frame (hframe : Frame touched s s') (htouch : ¬touched r.location r.preparedId)
    (h : s.Settled r decision) :
    s'.Settled r decision := by
  have hexecuted := hframe.executed _ _ htouch
  cases decision with
  | abort => exact fun hin => h (hexecuted.mp hin)
  | commit =>
    obtain ⟨hkept, hnot⟩ | ⟨hgone, hin⟩ := h
    · exact .inl ⟨(hframe.carries _ _ htouch).kept hkept, fun hin => hnot (hexecuted.mp hin)⟩
    · exact .inr ⟨(hframe.carries _ _ htouch).gone hgone, hexecuted.mpr hin⟩

/-- What is gone stays gone. -/
theorem gone_of_frame (hframe : Frame touched s s')
    (htouched : ∀ r ∈ s.issued, touched r.location r.preparedId → ¬s.Held r → ¬s'.Held r) :
    ∀ r ∈ s.issued, s'.Held r → s.Held r := by
  intro r hr hheld
  by_contra hgone
  by_cases htouch : touched r.location r.preparedId
  · exact htouched r hr htouch hgone hheld
  · exact (hframe.carries _ _ htouch).gone hgone hheld

theorem Decided.of_frame (h : s.Decided decision) (hframe : Frame touched s s')
    (hissued : s'.issued = s.issued)
    (htouched : ∀ r ∈ s.issued, touched r.location r.preparedId →
      (¬s.Held r → ¬s'.Held r) ∧ (s.Settled r decision → s'.Settled r decision)) :
    s'.Decided decision := by
  have hheld := gone_of_frame hframe fun r hr htouch => (htouched r hr htouch).1
  refine ⟨?_, ?_, ?_, ?_⟩
  · rw [hframe.decisions, hframe.txId, hissued]
    exact fun record hrecord => (h.records record hrecord).imp_right fun hforeign =>
      hforeign.of_frame hframe hissued
  · rw [hframe.decisions, hframe.txId, hissued]
    rintro ⟨r, hr, hin⟩
    exact h.recorded ⟨r, hr, hheld r hr hin⟩
  · rw [hissued]
    intro r hr
    by_cases htouch : touched r.location r.preparedId
    · exact (htouched r hr htouch).2 (h.settled r hr)
    · exact settled_of_frame hframe htouch (h.settled r hr)
  · intro hcommit
    rw [Covers, hframe.participants, hissued]
    exact h.covers hcommit

theorem Undecided.of_frame (h : s.Undecided) (hframe : Frame touched s s')
    (hissued : s'.issued = s.issued) (hexecuted : s'.executed = s.executed)
    (htouched : ∀ r ∈ s.issued, ¬touched r.location r.preparedId) : s'.Undecided := by
  refine ⟨?_, ?_, hexecuted.trans h.none_executed⟩
  · rw [hframe.decisions, hissued]
    exact h.unnamed
  · rw [hissued]
    exact fun r hr => (hframe.carries _ _ (htouched r hr)).kept (h.kept r hr)

theorem Sound.goto (h : s.Sound) : (s.goto phase).Sound := ⟨h.opened, h.backed, h.distinct⟩

theorem Undecided.goto (h : s.Undecided) : (s.goto phase).Undecided :=
  ⟨h.unnamed, h.kept, h.none_executed⟩

theorem Decided.goto (h : s.Decided decision) : (s.goto phase).Decided decision :=
  ⟨h.records, h.recorded, h.settled, h.covers⟩

theorem Sound.restart (h : s.Sound) (restarted : List Location) : (s.restart restarted).Sound :=
  h.of_frame (frame_restart h.opened restarted) rfl fun _ _ => False.elim

theorem Decided.restart (h : s.Decided decision) (hopen : s.Opened) (restarted : List Location) :
    (s.restart restarted).Decided decision :=
  h.of_frame (frame_restart hopen restarted) rfl fun _ _ => False.elim

/-- A crash after the decision. -/
theorem Inv.crash (hsound : s.Sound) (h : s.Decided decision) : s.crash.Inv :=
  ⟨(hsound.restart _).goto, decision, (h.restart hsound.opened _).goto⟩

theorem Inv.returned (hsound : s.Sound) (h : s.Decided decision) (result : Except String Unit) :
    (s.goto (.returned result)).Inv :=
  ⟨hsound.goto, decision, h.goto⟩

/-! ### Preparing -/

section Preparing

variable {p : Participant W} {rest : List (Participant W)}
  {prepared : List TransactionParticipantRecord} {outcome : Outcome}

/-- Nothing has been prepared, so every decision fits. -/
theorem Undecided.decided (h : s.Undecided) (hissued : s.issued = [])
    (hcovers : decision = .commit → s.Covers) : s.Decided decision := by
  have hnone : ∀ r, r ∉ s.issued := fun r hr => not_mem_nil (hissued ▸ hr)
  refine ⟨fun record hrecord => .inr ⟨fun hne => absurd hissued hne, h.unnamed record hrecord⟩,
    ?_, fun r hr => absurd hr (hnone r), hcovers⟩
  rintro ⟨r, hr, -⟩
  exact absurd hr (hnone r)

/-- The decision is recorded. -/
theorem Undecided.append (h : s.Undecided) (hcovers : decision = .commit → s.Covers)
    (hnew : ∀ record ∈ s.decisions, record.txId ≠ s.txId) :
    (s.append ⟨s.txId, decision, s.issued⟩).Decided decision := by
  refine ⟨fun record hrecord => ?_, fun _ => ?_, fun r hr => ?_, hcovers⟩
  · rcases mem_append.mp hrecord with hold | hlast
    · exact .inr ⟨fun _ => hnew record hold, h.unnamed record hold⟩
    · exact .inl (mem_singleton.mp hlast)
  · exact mem_append_right _ (mem_singleton.mpr rfl)
  · have hnot : (r.location, r.preparedId) ∉ s.executed := by
      rw [h.none_executed]
      exact not_mem_nil
    cases decision with
    | abort => exact hnot
    | commit => exact .inl ⟨h.kept r hr, hnot⟩

theorem Sound.append (h : s.Sound) (record : TransactionDecisionRecord) : (s.append record).Sound :=
  ⟨h.opened, h.backed, h.distinct⟩

/-- The coordinator records its decision and crashes, returns or goes on. -/
theorem Undecided.recordTransactionDecision (hsound : s.Sound) (h : s.Undecided)
    (hcovers : decision = .commit → s.Covers)
    (hsafe : s.issued = [] ∨ outcome.writes = true ∧ ∀ record ∈ s.decisions, record.txId ≠ s.txId)
    (phase : CommitPhase W)
    (hphase : ∀ t : TwoPhaseCommit W, t.Sound → t.issued = s.issued → t.Decided decision →
      (t.goto phase).Inv) :
    (s.recordTransactionDecision decision s.issued outcome phase).Inv := by
  rw [TwoPhaseCommit.recordTransactionDecision]
  split
  · rename_i hempty
    exact hphase s hsound rfl (h.decided (isEmpty_iff.mp hempty) hcovers)
  · rename_i hne
    obtain hempty | ⟨hwrites, hnew⟩ := hsafe
    · exact absurd (isEmpty_iff.mpr hempty) hne
    · rw [hwrites, if_pos rfl]
      have hdec := h.append hcovers hnew
      have hsound' := hsound.append ⟨s.txId, decision, s.issued⟩
      split
      · exact Inv.crash hsound' hdec
      · split
        · exact Inv.returned hsound' hdec _
        · exact hphase _ hsound' rfl hdec

/-- The id of the next batch of a participant. -/
def newId (s : TwoPhaseCommit W) (p : Participant W) : Nat :=
  nextIdAfter (s.stores p.location).nextId

/-- A participant stores its batch or fails to, if no answer is lost. -/
theorem prepareBatch_cases (hwrites : outcome.writes = true → outcome = .done) :
    (∃ store err, (prepare outcome.save p.batch).run
        (s.stores p.location) = (.error err, store) ∧
      (∀ err, outcome.save ≠ .failedAfterRename err) ∧
      s.prepareBatch p rest prepared outcome =
        (s.issue p store (s.newId p)).goto (.recordingAbort prepared err.message)) ∨
    ∃ store preparedId, (prepare outcome.save p.batch).run
        (s.stores p.location) = (.ok preparedId, store) ∧
      s.prepareBatch p rest prepared outcome =
        (s.issue p store (s.newId p)).goto
          (.preparing rest (prepared ++ [⟨p.location, p.batch.shardId, s.newId p⟩])) := by
  unfold prepareBatch
  rcases hrun : (prepare outcome.save p.batch).run (s.stores p.location) with ⟨result, store⟩
  cases result with
  | error err =>
    refine .inl ⟨store, err, rfl, fun err' hrename => ?_, rfl⟩
    cases outcome <;> cases hrename
    cases hwrites rfl
  | ok preparedId =>
    refine .inr ⟨store, preparedId, rfl, ?_⟩
    dsimp only
    split
    · cases hwrites rfl
    · cases hwrites rfl
    · cases hwrites rfl
    · rfl

/-- What can become of a participant that is asked to prepare. -/
theorem prepareParticipant_cases :
    (Abandons outcome p.location ∧ (s.prepareParticipant p rest prepared outcome = s.crash ∨
        ∃ err, s.prepareParticipant p rest prepared outcome = s.goto (.returned (.error err)))) ∨
      (∃ err, s.prepareParticipant p rest prepared outcome =
        s.goto (.recordingAbort prepared err)) ∨
      s.prepareParticipant p rest prepared outcome = s.prepareBatch p rest prepared outcome := by
  unfold prepareParticipant
  split
  · exact .inl ⟨trivial, .inl rfl⟩
  · rename_i err address hloc
    rw [hloc]
    exact .inl ⟨trivial, .inr ⟨_, rfl⟩⟩
  · exact .inr (.inl ⟨_, rfl⟩)
  · exact .inr (.inl ⟨_, rfl⟩)
  · exact .inr (.inr rfl)

/-- The batch is stored under its new id. -/
theorem Undecided.issue (hsound : s.Sound) (h : s.Undecided) {result : Except PreparedError Nat}
    {save : SaveOutcome} (hrun : (prepare save p.batch).run (s.stores p.location) = (result, store))
    (hnext : (s.stores p.location).nextId + 1 < 2 ^ 64)
    (hnew : ∀ record ∈ s.decisions, ¬Names record p.location ((s.stores p.location).nextId + 1))
    (hheld : store.Holds (s.newId p) → store.Kept (s.newId p)) :
    (s.issue p store (s.newId p)).Sound ∧ (s.issue p store (s.newId p)).Undecided := by
  have hid : s.newId p = (s.stores p.location).nextId + 1 := Nat.mod_eq_of_lt hnext
  have hframe := frame_withStore hsound.opened
    ((prepare_cases hrun).2.path_isSome (hsound.opened p.location).1)
    (prepare_bounded hrun (hsound.opened p.location).2 hnext)
    fun id' hne => prepare_carries hrun hne
  -- a kept id is below the new one
  have hold : ∀ r ∈ s.issued, ¬(r.location = p.location ∧ r.preparedId = s.newId p) := by
    rintro r hr ⟨hloc, heq⟩
    have hle := (hsound.opened r.location).2 r.preparedId (.inl (h.kept r hr).1)
    rw [hloc, heq, hid] at hle
    exact absurd hle (Nat.not_succ_le_self _)
  have hsound' : (s.withStore p.location store).Sound :=
    hsound.of_frame hframe rfl fun r hr htouch => absurd htouch (hold r hr)
  have hundec' : (s.withStore p.location store).Undecided := h.of_frame hframe rfl rfl hold
  by_cases hholds : store.Holds (s.newId p)
  · have hkept : ((s.withStore p.location store).stores p.location).Kept (s.newId p) := by
      rw [stores_withStore_self]
      exact hheld hholds
    rw [TwoPhaseCommit.issue, if_pos hholds]
    refine ⟨⟨hsound'.opened, fun r hr => ?_, fun r hr r' hr' hloc heq => ?_⟩,
      ⟨fun record hrecord r hr => ?_, fun r hr => ?_, hundec'.none_executed⟩⟩
    · rcases mem_append.mp hr with hmem | hlast
      · exact hsound'.backed r hmem
      · cases mem_singleton.mp hlast
        exact fun _ => hkept.1
    · rcases mem_append.mp hr with hmem | hlast
      · rcases mem_append.mp hr' with hmem' | hlast'
        · exact hsound'.distinct r hmem r' hmem' hloc heq
        · cases mem_singleton.mp hlast'
          exact absurd ⟨hloc, heq⟩ (hold r hmem)
      · rcases mem_append.mp hr' with hmem' | hlast'
        · cases mem_singleton.mp hlast
          exact absurd ⟨hloc.symm, heq.symm⟩ (hold r' hmem')
        · rw [mem_singleton.mp hlast, mem_singleton.mp hlast']
    · rcases mem_append.mp hr with hmem | hlast
      · exact hundec'.unnamed record hrecord r hmem
      · cases mem_singleton.mp hlast
        rw [hid]
        exact hnew record hrecord
    · rcases mem_append.mp hr with hmem | hlast
      · exact hundec'.kept r hmem
      · cases mem_singleton.mp hlast
        exact hkept
  · rw [TwoPhaseCommit.issue, if_neg hholds]
    exact ⟨⟨hsound'.opened, hsound'.backed, hsound'.distinct⟩,
      ⟨hundec'.unnamed, hundec'.kept, hundec'.none_executed⟩⟩

theorem Inv.prepareParticipant (hinv : s.Inv) (hphase : s.phase = .preparing (p :: rest) prepared)
    (hsafe : s.SafeStep outcome) : (s.prepareParticipant p rest prepared outcome).Inv := by
  have hsound := hinv.sound
  obtain ⟨hundec, rfl, hshards⟩ := hphase ▸ hinv.phase
  rw [SafeStep, hphase] at hsafe
  obtain ⟨habandons, hwrites, hnext, hnew⟩ := hsafe
  have hid : s.newId p = (s.stores p.location).nextId + 1 := Nat.mod_eq_of_lt hnext
  have hunused : ¬(s.stores p.location).Holds (s.newId p) := by
    intro hholds
    have hle := (hsound.opened p.location).2 _ hholds
    rw [hid] at hle
    exact absurd hle (Nat.not_succ_le_self _)
  obtain ⟨hgives, hcrash⟩ | ⟨err, heq⟩ | heq :=
    @prepareParticipant_cases W s p rest s.issued outcome
  · have hdec : s.Decided .abort := hundec.decided (habandons hgives) fun hne => by cases hne
    rcases hcrash with heq | ⟨err, heq⟩
    · rw [heq]
      exact crash hsound hdec
    · rw [heq]
      exact returned hsound hdec _
  · rw [heq]
    exact ⟨hsound.goto, hundec.goto, rfl⟩
  rw [heq]
  obtain ⟨store, err, hrun, hsave, heq⟩ | ⟨store, preparedId, hrun, heq⟩ :=
    @prepareBatch_cases W s p rest s.issued outcome hwrites
  · have hgone : ¬store.Holds (s.newId p) := prepare_error hrun hsave hunused
    obtain ⟨hsound', hundec'⟩ := Undecided.issue hsound hundec hrun hnext hnew fun hholds =>
      absurd hholds hgone
    rw [heq]
    refine ⟨hsound'.goto, hundec'.goto, ?_⟩
    rw [goto, issue, if_neg hgone]
  · have hkept := prepare_ok hrun (hsound.opened p.location).1
    obtain ⟨hsound', hundec'⟩ := Undecided.issue hsound hundec hrun hnext hnew fun _ => hkept
    have hissued : (s.issue p store (s.newId p)).issued =
        s.issued ++ [⟨p.location, p.batch.shardId, s.newId p⟩] := by
      rw [issue, if_pos (.inl hkept.1)]
    rw [heq]
    refine ⟨hsound'.goto, hundec'.goto, hissued.symm, ?_⟩
    rw [goto]
    rw [hissued, map_append, append_assoc]
    exact hshards

end Preparing

/-! ### Committing, aborting and recovering -/

/-- A request that leaves the decision in force. -/
structure Keeps (s s' : TwoPhaseCommit W) (decision : TransactionDecision) : Prop where
  sound : s'.Sound
  decided : s'.Decided decision
  txId : s'.txId = s.txId
  issued : s'.issued = s.issued
  held : ∀ r ∈ s.issued, s'.Held r → s.Held r

/-- A request for a batch of the transaction, as it was decided. -/
theorem Decided.request (h : s.Decided decision) (hsound : s.Sound) (hr : r ∈ s.issued)
    (hreq : s.request decision r outcome = (reply, s'))
    (hexecutes : decision = .commit → outcome.executes = true) : Keeps s s' decision := by
  have hframe := frame_request hsound.opened hreq
  have hissued := issued_request hreq
  have honly : ∀ r' ∈ s.issued, r'.location = r.location ∧ r'.preparedId = r.preparedId → r' = r :=
    fun r' hr' hsame => hsound.distinct r' hr' r hr hsame.1 hsame.2
  refine ⟨hsound.of_frame hframe hissued ?_, h.of_frame hframe hissued ?_, hframe.txId, hissued,
    gone_of_frame hframe ?_⟩
  · intro r' hr' hsame
    rw [honly r' hr' hsame]
    exact request_backed hreq (hsound.backed r hr)
  · intro r' hr' hsame
    rw [honly r' hr' hsame]
    exact ⟨request_gone hreq, request_settled hreq hexecutes⟩
  · intro r' hr' hsame
    rw [honly r' hr' hsame]
    exact request_gone hreq

/-- A request for a batch of another transaction. -/
theorem Decided.request_foreign (h : s.Decided decision) (hsound : s.Sound)
    {other : TransactionDecision} (hreq : s.request other r outcome = (reply, s'))
    (hforeign : ∀ r' ∈ s.issued, ¬(r'.location = r.location ∧ r'.preparedId = r.preparedId)) :
    Keeps s s' decision := by
  have hframe := frame_request hsound.opened hreq
  have hissued := issued_request hreq
  exact ⟨hsound.of_frame hframe hissued fun r' hr' hsame => absurd hsame (hforeign r' hr'),
    h.of_frame hframe hissued fun r' hr' hsame => absurd hsame (hforeign r' hr'), hframe.txId,
    hissued, gone_of_frame hframe fun r' hr' hsame => absurd hsame (hforeign r' hr')⟩

theorem Keeps.gone (h : Keeps s s' decision) (hgone : s.Gone) : s'.Gone := by
  intro r hr hheld
  rw [h.issued] at hr
  exact hgone r hr (h.held r hr hheld)

theorem Keeps.subset (h : Keeps s s' decision) {rest : List TransactionParticipantRecord}
    (hrest : r :: rest ⊆ s.issued) : rest ⊆ s'.issued := by
  rw [h.issued]
  exact fun r' hr' => hrest (.tail _ hr')

/-- The batch at the front is gone, so what is held is in the rest. -/
theorem Keeps.rest (h : Keeps s s' decision) {rest : List TransactionParticipantRecord}
    (hgone : ¬s'.Held r) (hheld : ∀ r' ∈ s.issued, s.Held r' → r' ∈ r :: rest) :
    ∀ r' ∈ s'.issued, s'.Held r' → r' ∈ rest := by
  rw [h.issued]
  intro r' hr' hin
  rcases mem_cons.mp (hheld r' hr' (h.held r' hr' hin)) with heq | hmem
  · rw [heq] at hin
    exact absurd hin hgone
  · exact hmem

theorem Inv.aborting (hinv : s.Inv) {rest : List TransactionParticipantRecord} {err : String}
    (hphase : s.phase = .aborting rest err) : (s.proceed outcome).Inv := by
  have hsound := hinv.sound
  obtain ⟨hdec, hrest⟩ := hphase ▸ hinv.phase
  rw [proceed, hphase]
  cases rest with
  | nil => exact returned hsound hdec _
  | cons r rest =>
    dsimp only
    rcases hreq : s.request .abort r outcome with ⟨reply, s'⟩
    have hkeeps := hdec.request hsound (hrest (.head _)) hreq
      fun hne => TransactionDecision.noConfusion hne
    have hgoes : (s'.goto (.aborting rest err)).Inv :=
      ⟨hkeeps.sound.goto, hkeeps.decided.goto, hkeeps.subset hrest⟩
    cases reply with
    | crashed => exact crash hkeeps.sound hkeeps.decided
    | answered | unknown | failed => exact hgoes

theorem Inv.committing (hinv : s.Inv) {rest : List TransactionParticipantRecord}
    (hphase : s.phase = .committing rest) (hsafe : s.SafeStep outcome) :
    (s.proceed outcome).Inv := by
  have hsound := hinv.sound
  obtain ⟨hdec, hrest, hheld⟩ := hphase ▸ hinv.phase
  rw [SafeStep, hphase] at hsafe
  rw [proceed, hphase]
  cases rest with
  | nil =>
    exact ⟨hsound.goto, hdec.goto, fun r hr hin => not_mem_nil (hheld r hr hin)⟩
  | cons r rest =>
    dsimp only
    rcases hreq : s.request .commit r outcome with ⟨reply, s'⟩
    have hr := hrest (.head _)
    have hkeeps := hdec.request hsound hr hreq fun _ => hsafe
    cases reply with
    | crashed => exact crash hkeeps.sound hkeeps.decided
    | unknown | failed => exact returned hkeeps.sound hkeeps.decided _
    | answered =>
      have hgone := request_answered hreq (hsound.backed r hr) (.inl rfl)
      exact ⟨hkeeps.sound.goto, hkeeps.decided.goto, hkeeps.subset hrest, hkeeps.rest hgone hheld⟩

/-- Records are removed once no batch is held. -/
theorem Decided.removeTxIds (h : s.Decided decision) {txIds : List Nat}
    (hgone : s.txId ∈ txIds → s.Gone) : (s.removeTxIds txIds).Decided decision := by
  refine ⟨fun record hrecord => h.records record (mem_of_mem_filter hrecord), ?_, h.settled,
    h.covers⟩
  rintro ⟨r, hr, hin⟩
  have hkept : s.txId ∉ txIds := fun hmem => hgone hmem r hr hin
  refine mem_filter.mpr ⟨h.recorded ⟨r, hr, hin⟩, ?_⟩
  rw [Bool.not_eq_true', contains_eq_mem, decide_eq_false_iff_not]
  exact hkept

theorem Sound.removeTxIds (h : s.Sound) (txIds : List Nat) : (s.removeTxIds txIds).Sound :=
  ⟨h.opened, h.backed, h.distinct⟩

theorem Inv.clearing (hinv : s.Inv) (hphase : s.phase = .clearing) : (s.proceed outcome).Inv := by
  have hsound := hinv.sound
  obtain ⟨hdec, hgone⟩ := hphase ▸ hinv.phase
  rw [proceed, hphase]
  dsimp only
  have hsound' := hsound.removeTxIds [s.txId]
  have hdec' : (s.removeTxIds [s.txId]).Decided .commit := hdec.removeTxIds fun _ => hgone
  cases outcome.writes with
  | true =>
    split
    · exact crash hsound' hdec'
    · exact returned hsound' hdec' _
  | false =>
    split
    · exact crash hsound hdec
    · exact returned hsound hdec _

variable {completed : List Nat} {record : TransactionDecisionRecord}
  {records : List TransactionDecisionRecord}

theorem Inv.removing (hinv : s.Inv) {result : Except String Nat}
    (hphase : s.phase = .removing completed result) : (s.proceed outcome).Inv := by
  have hsound := hinv.sound
  obtain ⟨decision, hdec, hcompleted, hok⟩ := hphase ▸ hinv.phase
  have hends : ∀ t : TwoPhaseCommit W, t.Sound → t.Decided decision → (s.Gone → t.Gone) →
      (if outcome.crashes then t.crash else match outcome.error with
        | some err => t.goto (.recovered (.error err))
        | none => t.goto (.recovered result)).Inv := by
    intro t hsound hdec hgone
    split
    · exact crash hsound hdec
    · split
      · exact ⟨hsound.goto, decision, hdec.goto, fun _ herror => by cases herror⟩
      · exact ⟨hsound.goto, decision, hdec.goto, fun count heq => hgone (hok count heq)⟩
  rw [proceed, hphase]
  dsimp only
  split
  · exact ⟨hsound.goto, decision, hdec.goto, hok⟩
  · cases outcome.writes with
    | true =>
      exact hends _ (hsound.removeTxIds completed) (hdec.removeTxIds hcompleted) fun h => h
    | false =>
      exact hends s hsound hdec fun h => h

theorem Keeps.foreign (h : Keeps s s' decision) (hforeign : s.Foreign record) :
    s'.Foreign record := by
  rw [Foreign, h.issued, h.txId]
  exact hforeign

theorem Keeps.ours (h : Keeps s s' decision) (hours : s.Ours decision record) :
    s'.Ours decision record := by
  refine ⟨hours.txId.trans h.txId.symm, hours.decision, ?_, ?_⟩
  · rw [h.issued]
    exact hours.issued
  · rw [h.issued]
    exact fun r hr hin => hours.held r hr (h.held r hr hin)

section

variable (h : s.Recovering decision (record :: records) completed)

include h

/-- The participant at the front of the first record is done with. -/
theorem Recovering.front (hkeeps : Keeps s s' decision) {rest : List TransactionParticipantRecord}
    (hpartics : record.participants = r :: rest) (hgone : s.Ours decision record → ¬s'.Held r) :
    s'.Recovering decision ({ record with participants := rest } :: records) completed := by
  have hours : s.Ours decision record → s'.Ours decision { record with participants := rest } := by
    intro hours
    refine ⟨hours.txId.trans hkeeps.txId.symm, hours.decision, ?_, ?_⟩
    · have hissued := hours.issued
      rw [hpartics] at hissued
      exact hkeeps.subset hissued
    · have hheld := hours.held
      rw [hpartics] at hheld
      exact hkeeps.rest (hgone hours) hheld
  have hforeign : s.Foreign record → s'.Foreign { record with participants := rest } := by
    intro hforeign
    refine ⟨(hkeeps.foreign hforeign).1, ?_⟩
    rintro r' hr' ⟨named, hnamed, hsame⟩
    refine (hkeeps.foreign hforeign).2 r' hr' ⟨named, ?_, hsame⟩
    rw [hpartics]
    exact .tail _ hnamed
  refine ⟨hkeeps.decided, ?_, ?_, ?_⟩
  · intro record' hrecord'
    rcases mem_cons.mp hrecord' with rfl | hmem
    · exact (h.left record (.head _)).imp hours hforeign
    · exact (h.left record' (.tail _ hmem)).imp hkeeps.ours hkeeps.foreign
  · rintro ⟨r', hr', hin⟩
    rw [hkeeps.issued] at hr'
    obtain ⟨record', hrecord', hours'⟩ := h.pending ⟨r', hr', hkeeps.held r' hr' hin⟩
    rcases mem_cons.mp hrecord' with rfl | hmem
    · exact ⟨_, .head _, hours hours'⟩
    · exact ⟨record', .tail _ hmem, hkeeps.ours hours'⟩
  · rw [hkeeps.txId]
    exact fun hmem => hkeeps.gone (h.finished hmem)

/-- The first record has no participants left. -/
theorem Recovering.complete (hpartics : record.participants = []) :
    s.Recovering decision records (completed ++ [record.txId]) := by
  have hgone : s.Ours decision record → s.Gone := by
    intro hours r hr hin
    have hmem := hours.held r hr hin
    rw [hpartics] at hmem
    exact not_mem_nil hmem
  refine ⟨h.decided, fun record' hmem => h.left record' (.tail _ hmem), ?_, ?_⟩
  · rintro ⟨r, hr, hin⟩
    obtain ⟨record', hrecord', hours⟩ := h.pending ⟨r, hr, hin⟩
    rcases mem_cons.mp hrecord' with rfl | hmem
    · exact absurd hin (hgone hours r hr)
    · exact ⟨record', hmem, hours⟩
  · intro hmem
    rcases mem_append.mp hmem with hold | hlast
    · exact h.finished hold
    · have htxId : record.txId = s.txId := (mem_singleton.mp hlast).symm
      rcases h.left record (.head _) with hours | hforeign
      · exact hgone hours
      · -- a foreign record with this id: nothing was prepared
        have hissued : s.issued = [] := by
          by_contra hne
          exact hforeign.1 hne htxId
        rw [Gone, hissued]
        exact forall_mem_nil _

end

theorem Recovering.goto (h : s.Recovering decision records completed) (phase : CommitPhase W) :
    (s.goto phase).Recovering decision records completed :=
  ⟨h.decided.goto, fun record hmem => (h.left record hmem).imp_left fun hours =>
      ⟨hours.txId, hours.decision, hours.issued, hours.held⟩,
    fun hheld => (h.pending hheld).imp fun _ hours => ⟨hours.1,
      ⟨hours.2.txId, hours.2.decision, hours.2.issued, hours.2.held⟩⟩, h.finished⟩

/-- What a participant of a recovered decision answers. -/
theorem applyParticipant_cases (h : s.applyParticipant decision r outcome = (reply, s')) :
    s.request decision r outcome = (reply, s') ∨
      ∃ err, s.request decision r outcome = (.failed err, s') ∧ reply = .answered ∧
        decision = .abort ∧ r.location = .coordinator := by
  unfold applyParticipant at h
  rcases hreq : s.request decision r outcome with ⟨reply', t⟩
  rw [hreq] at h
  cases reply' with
  | failed err =>
    dsimp only at h
    split at h
    · rename_i hlocal
      cases h
      exact .inr ⟨err, rfl, rfl, hlocal⟩
    · exact .inl h
  | answered | unknown | crashed => exact .inl h

variable {rest : List TransactionParticipantRecord}

theorem Recovering.applyParticipant (h : s.Recovering decision (record :: records) completed)
    (hsound : s.Sound) (hpartics : record.participants = r :: rest)
    (happly : s.applyParticipant record.decision r outcome = (reply, s'))
    (hcommit : record.txId = s.txId → record.decision = .commit → outcome.executes = true) :
    Keeps s s' decision := by
  obtain ⟨reply', hreq⟩ : ∃ reply', s.request record.decision r outcome = (reply', s') := by
    obtain hreq | ⟨err, hreq, -⟩ := applyParticipant_cases happly <;> exact ⟨_, hreq⟩
  have hnamed : r ∈ record.participants := by
    rw [hpartics]
    exact .head _
  rcases h.left record (.head _) with hours | hforeign
  · rw [hours.decision] at hreq hcommit
    exact h.decided.request hsound (hours.issued hnamed) hreq (hcommit hours.txId)
  · refine h.decided.request_foreign hsound hreq fun r' hr' hsame => ?_
    exact hforeign.2 r' hr' ⟨r, hnamed, hsame.1.symm, hsame.2.symm⟩

/-- A batch of the transaction is gone once its participant has been applied. -/
theorem gone_of_applyParticipant (hsound : s.Sound) (hours : s.Ours decision record)
    (hpartics : record.participants = r :: rest)
    (happly : s.applyParticipant record.decision r outcome = (reply, s'))
    (habort : record.decision = .abort → r.location = .coordinator → outcome.save = .saved)
    (hreply : reply = .answered ∨ reply = .unknown) : ¬s'.Held r := by
  have hbacked : (s.stores r.location).Backed r.preparedId := by
    refine hsound.backed r (hours.issued ?_)
    rw [hpartics]
    exact .head _
  obtain hreq | ⟨err, hreq, -, hdecision, hloc⟩ := applyParticipant_cases happly
  · exact request_answered hreq hbacked hreply
  · refine request_saved hreq hbacked ?_ ?_ (habort hdecision hloc)
    · rw [hloc]
      cases outcome <;> rfl
    · rintro rfl
      cases hreq

theorem Inv.applying (hinv : s.Inv) {count : Nat}
    (hphase : s.phase = .applying records completed count) (hsafe : s.SafeStep outcome) :
    (s.proceed outcome).Inv := by
  have hsound := hinv.sound
  obtain ⟨decision, hrecovering⟩ := hphase ▸ hinv.phase
  rw [SafeStep, hphase] at hsafe
  rw [proceed, hphase]
  cases records with
  | nil =>
    refine ⟨hsound.goto, decision, hrecovering.decided.goto, hrecovering.finished, ?_⟩
    rintro _ - r hr hin
    obtain ⟨_, hmem, -⟩ := hrecovering.pending ⟨r, hr, hin⟩
    exact not_mem_nil hmem
  | cons record records =>
    dsimp only at hsafe ⊢
    cases hpartics : record.participants with
    | nil => exact ⟨hsound.goto, decision, (hrecovering.complete hpartics).goto _⟩
    | cons r rest =>
      dsimp only
      rcases happly : s.applyParticipant record.decision r outcome with ⟨reply, s'⟩
      have hcommit : record.txId = s.txId → record.decision = .commit →
          outcome.executes = true := by
        intro htxId hcommit
        have hstep := hsafe htxId
        rw [hcommit] at hstep
        exact hstep
      have habort : record.txId = s.txId → record.decision = .abort →
          r.location = .coordinator → outcome.save = .saved := by
        intro htxId habort
        have hstep := hsafe htxId
        rw [habort, hpartics] at hstep
        exact hstep r rfl
      have hkeeps := hrecovering.applyParticipant hsound hpartics happly hcommit
      have hgone := fun (hours : s.Ours decision record) hreply =>
        gone_of_applyParticipant hsound hours hpartics happly (habort hours.txId) hreply
      have hgoes : (reply = .answered ∨ reply = .unknown) →
          (s'.goto (.applying ({ record with participants := rest } :: records) completed
            count)).Inv := fun hreply =>
        ⟨hkeeps.sound.goto, decision,
          (hrecovering.front hkeeps hpartics fun hours => hgone hours hreply).goto _⟩
      cases reply with
      | crashed => exact crash hkeeps.sound hkeeps.decided
      | answered => exact hgoes (.inl rfl)
      | unknown => exact hgoes (.inr rfl)
      | failed =>
        refine ⟨hkeeps.sound.goto, decision, hkeeps.decided.goto, ?_, fun _ herror => by
          cases herror⟩
        intro hmem
        exact hkeeps.gone (hrecovering.finished (hkeeps.txId ▸ hmem))

/-! ### Runs -/

theorem Undecided.restart (h : s.Undecided) (hopen : s.Opened) (restarted : List Location) :
    (s.restart restarted).Undecided :=
  h.of_frame (frame_restart hopen restarted) rfl rfl fun _ _ => not_false

theorem Decided.keeps_restart (h : s.Decided decision) (hsound : s.Sound)
    (restarted : List Location) : Keeps s (s.restart restarted) decision :=
  ⟨hsound.restart restarted, h.restart hsound.opened restarted, rfl, rfl,
    gone_of_frame (frame_restart hsound.opened restarted) fun _ _ => False.elim⟩

theorem Recovering.restart (h : s.Recovering decision records completed) (hsound : s.Sound)
    (restarted : List Location) :
    (s.restart restarted).Recovering decision records completed := by
  have hkeeps := h.decided.keeps_restart hsound restarted
  refine ⟨hkeeps.decided, fun record hmem => (h.left record hmem).imp hkeeps.ours hkeeps.foreign,
    ?_, fun hmem => hkeeps.gone (h.finished hmem)⟩
  rintro ⟨r, hr, hin⟩
  obtain ⟨record, hmem, hours⟩ := h.pending ⟨r, hr, hkeeps.held r hr hin⟩
  exact ⟨record, hmem, hkeeps.ours hours⟩

/-- Restarts of participants keep the invariant of every phase. -/
theorem Inv.restart (hinv : s.Inv) (restarted : List Location) : (s.restart restarted).Inv := by
  obtain ⟨hsound, hinv⟩ := hinv
  refine ⟨hsound.restart restarted, ?_⟩
  change (s.restart restarted).PhaseInv s.phase
  generalize s.phase = phase at hinv ⊢
  cases phase with
  | preparing | recordingAbort | recordingCommit | aborting =>
    exact ⟨hinv.1.restart hsound.opened restarted, hinv.2⟩
  | committing =>
    have hkeeps := hinv.1.keeps_restart hsound restarted
    exact ⟨hkeeps.decided, hinv.2.1, fun r hr hin => hinv.2.2 r hr (hkeeps.held r hr hin)⟩
  | clearing =>
    have hkeeps := hinv.1.keeps_restart hsound restarted
    exact ⟨hkeeps.decided, hkeeps.gone hinv.2⟩
  | returned | stopped =>
    obtain ⟨decision, hdec⟩ := hinv
    exact ⟨decision, hdec.restart hsound.opened restarted⟩
  | applying =>
    obtain ⟨decision, hrecovering⟩ := hinv
    exact ⟨decision, hrecovering.restart hsound restarted⟩
  | removing =>
    obtain ⟨decision, hdec, hcompleted, hok⟩ := hinv
    have hkeeps := hdec.keeps_restart hsound restarted
    exact ⟨decision, hkeeps.decided, fun hmem => hkeeps.gone (hcompleted hmem),
      fun count heq => hkeeps.gone (hok count heq)⟩
  | recovered =>
    obtain ⟨decision, hdec, hok⟩ := hinv
    have hkeeps := hdec.keeps_restart hsound restarted
    exact ⟨decision, hkeeps.decided, fun count heq => hkeeps.gone (hok count heq)⟩

theorem Inv.proceed (hinv : s.Inv) (hsafe : s.SafeStep outcome) : (s.proceed outcome).Inv := by
  cases hphase : s.phase with
  | preparing rest =>
    cases rest with
    | nil =>
      have hsound := hinv.sound
      obtain ⟨hundec, hprep, hshards⟩ := hphase ▸ hinv.phase
      rw [TwoPhaseCommit.proceed, hphase]
      refine ⟨hsound.goto, hundec.goto, hprep, fun p hp => ?_⟩
      have hmem : participantShard p ∈ s.issued.map recordShard := by
        rw [map_nil, append_nil] at hshards
        rw [← hshards]
        exact mem_map_of_mem hp
      obtain ⟨r, hr, heq⟩ := mem_map.mp hmem
      exact ⟨r, hr, congrArg Prod.fst heq, congrArg Prod.snd heq⟩
    | cons =>
      rw [TwoPhaseCommit.proceed, hphase]
      exact hinv.prepareParticipant hphase hsafe
  | recordingAbort =>
    have hsound := hinv.sound
    obtain ⟨hundec, rfl⟩ := hphase ▸ hinv.phase
    rw [SafeStep, hphase] at hsafe
    rw [TwoPhaseCommit.proceed, hphase]
    refine hundec.recordTransactionDecision hsound
      (fun hne => TransactionDecision.noConfusion hne) hsafe _ ?_
    exact fun t hsound hissued hdec => ⟨hsound.goto, hdec.goto, fun r hr => hissued.symm ▸ hr⟩
  | aborting => exact hinv.aborting hphase
  | recordingCommit =>
    have hsound := hinv.sound
    obtain ⟨hundec, rfl, hcovers⟩ := hphase ▸ hinv.phase
    rw [SafeStep, hphase] at hsafe
    rw [TwoPhaseCommit.proceed, hphase]
    refine hundec.recordTransactionDecision hsound (fun _ => hcovers) hsafe _ ?_
    intro t hsound hissued hdec
    exact ⟨hsound.goto, hdec.goto, fun r hr => hissued.symm ▸ hr, fun r hr _ => hissued ▸ hr⟩
  | committing => exact hinv.committing hphase hsafe
  | clearing => exact hinv.clearing hphase
  | applying => exact hinv.applying hphase hsafe
  | removing => exact hinv.removing hphase
  | returned | stopped | recovered =>
    rw [TwoPhaseCommit.proceed, hphase]
    exact hinv

/-- Nothing is going on after a decision only. -/
theorem Inv.decided (hinv : s.Inv) (hrests : s.Rests) :
    ∃ decision, s.Decided decision := by
  have hphase := hinv.phase
  rw [Rests] at hrests
  generalize s.phase = phase at hphase hrests
  cases phase with
  | returned | stopped => exact hphase
  | recovered => exact hphase.imp fun _ h => h.1
  | _ => exact hrests.elim

/-- A recovery starts with the whole log. -/
theorem Decided.recovering (h : s.Decided decision) : s.Recovering decision s.decisions [] := by
  have hours : s.Ours decision ⟨s.txId, decision, s.issued⟩ :=
    ⟨rfl, rfl, Subset.refl _, fun _ hr _ => hr⟩
  refine ⟨h, fun record hmem => (h.records record hmem).imp_left fun heq => ?_,
    fun hheld => ⟨_, h.recorded hheld, hours⟩, fun hmem => absurd hmem not_mem_nil⟩
  rw [heq]
  exact hours

theorem Inv.next (hinv : s.Inv) {event : CommitEvent}
    (henabled : (machine W).enabled s event) (hsafe : s.Safe event) : (s.next event).Inv := by
  cases event with
  | proceed => exact (hinv.restart _).proceed hsafe
  | recover restarted =>
    obtain ⟨decision, hdec⟩ := hinv.decided henabled
    exact ⟨(hinv.sound.restart restarted).goto, decision,
      (hdec.recovering.restart hinv.sound restarted).goto _⟩

theorem Called.inv (h : s.Called) : s.Inv := by
  obtain ⟨-, hphase, hissued, hexecuted, hopen⟩ := h
  have hnone : ∀ r, r ∉ s.issued := fun r hr => not_mem_nil (hissued ▸ hr)
  refine ⟨⟨hopen, fun r hr => absurd hr (hnone r), fun r hr => absurd hr (hnone r)⟩, ?_⟩
  rw [hphase]
  refine ⟨⟨fun _ _ r hr => absurd hr (hnone r), fun r hr => absurd hr (hnone r), hexecuted⟩,
    hissued.symm, ?_⟩
  rw [hissued]
  rfl

/-- A decision that has been carried out everywhere. -/
theorem Decided.atomicOutcome (h : s.Decided decision) (hgone : s.Gone) : s.AtomicOutcome := by
  refine ⟨?_, hgone⟩
  cases decision with
  | abort =>
    right
    rintro p - ⟨r, hr, -, -, hin⟩
    exact h.settled r hr hin
  | commit =>
    left
    intro p hp
    obtain ⟨r, hr, hloc, hshard⟩ := h.covers rfl p hp
    obtain ⟨hkept, -⟩ | ⟨-, hin⟩ := h.settled r hr
    · exact absurd (.inl hkept.1) (hgone r hr)
    · exact ⟨r, hr, hloc, hshard, hin⟩

/-- In a run without orphaned batches and lost executions, a recovery that returns without
an error leaves an atomic outcome. -/
theorem recovered_atomicOutcome {s : TwoPhaseCommit W} {count : Nat}
    (hs : ((machine W).restrict Safe).Reachable s) (hphase : s.phase = .recovered (.ok count)) :
    s.AtomicOutcome := by
  have hinv : s.Inv := by
    refine hs.invariant (P := Inv) (fun _ hinit => Called.inv hinit) ?_
    intro t event _ hprev henabled
    exact hprev.next henabled.1 henabled.2
  obtain ⟨decision, hdecided, hgone⟩ := hphase ▸ hinv.phase
  exact hdecided.atomicOutcome (hgone count rfl)

/-- Two servers, each with an empty file for its prepared batches, and a transaction with a
batch for each. -/
def called : TwoPhaseCommit String where
  txId := 7
  participants := [⟨.coordinator, ⟨0, ["CREATE (a)"]⟩⟩, ⟨.remote "peer", ⟨1, ["CREATE (b)"]⟩⟩]
  stores _ := .ofFile .empty
  decisions := []
  phase := .preparing
    [⟨.coordinator, ⟨0, ["CREATE (a)"]⟩⟩, ⟨.remote "peer", ⟨1, ["CREATE (b)"]⟩⟩] []
  issued := []
  executed := []

theorem called_called : called.Called := by
  refine ⟨⟨[⟨0, ["CREATE (a)"]⟩], [("peer", ⟨1, ["CREATE (b)"]⟩)], rfl⟩, rfl, rfl, rfl,
    fun _ => ⟨rfl, ?_⟩⟩
  rintro id (hin | hin) <;> exact absurd hin Bool.false_ne_true

/-- The coordinator crashes between the two commits, and recovers. -/
def crashedRun : List CommitEvent :=
  [.proceed [] .done, .proceed [] .done, .proceed [] .done, .proceed [] .done,
    .proceed [] .crashAfter, .recover [], .proceed [] .done, .proceed ["peer"] .done,
    .proceed [] .done, .proceed [] .done, .proceed [] .done]

theorem recovered_atomicOutcome_crashedRun :
    ((machine String).run called crashedRun).phase = .recovered (.ok 1) ∧
      ((machine String).run called crashedRun).executed = [(.coordinator, 1), (.remote "peer", 1)] ∧
      ((machine String).run called crashedRun).AtomicOutcome := by
  have hnil : ∀ record ∈ ([] : List TransactionDecisionRecord), ¬Names record .coordinator 1 :=
    forall_mem_nil _
  have hnil' : ∀ record ∈ ([] : List TransactionDecisionRecord), ¬Names record (.remote "peer") 1 :=
    forall_mem_nil _
  have hnew : ∀ record ∈ ([] : List TransactionDecisionRecord), record.txId ≠ 7 := forall_mem_nil _
  refine ⟨rfl, rfl, recovered_atomicOutcome (Machine.Reachable.run (.start called_called) ?_) rfl⟩
  exact ⟨⟨not_false, False.elim, fun _ => rfl, (by decide : 0 + 1 < 2 ^ 64), hnil⟩,
    ⟨not_false, False.elim, fun _ => rfl, (by decide : 0 + 1 < 2 ^ 64), hnil'⟩,
    ⟨not_false, trivial⟩, ⟨not_false, .inr ⟨rfl, hnew⟩⟩, ⟨not_false, rfl⟩, ⟨trivial, trivial⟩,
    ⟨not_false, fun _ => rfl⟩, ⟨not_false, fun _ => rfl⟩, ⟨not_false, fun _ => rfl⟩,
    ⟨not_false, trivial⟩, ⟨not_false, trivial⟩, trivial⟩

/-- The connection to the second participant fails when the first has prepared. -/
def abandonedRun : List CommitEvent :=
  [.proceed [] .done, .proceed [] (.connectFailed "refused"), .recover [.coordinator],
    .proceed [] .done, .proceed [] .done]

/-- The second participant takes its batch and fails to execute it. -/
def unexecutedRun : List CommitEvent :=
  [.proceed [] .done, .proceed [] .done, .proceed [] .done, .proceed [] .done, .proceed [] .done,
    .proceed [] (.unexecuted "conflict"), .recover [.coordinator], .proceed [] .done,
    .proceed [] .done, .proceed [] .done, .proceed [] .done, .proceed [] .done]

/-- A batch that no decision covers stays prepared, and one that was taken is lost while the
other participant has executed its batch. -/
theorem outcome_not_atomic :
    ((machine String).Reachable ((machine String).run called abandonedRun) ∧
        ((machine String).run called abandonedRun).phase = .recovered (.ok 0) ∧
        ¬((machine String).run called abandonedRun).AtomicOutcome) ∧
      (machine String).Reachable ((machine String).run called unexecutedRun) ∧
        ((machine String).run called unexecutedRun).phase = .recovered (.ok 1) ∧
        ¬((machine String).run called unexecutedRun).AtomicOutcome := by
  refine ⟨⟨.run (.start called_called) ?_, rfl, fun h => ?_⟩, .run (.start called_called) ?_, rfl,
    fun h => ?_⟩
  · exact ⟨not_false, not_false, trivial, not_false, not_false, trivial⟩
  · exact h.none_held ⟨.coordinator, 0, 1⟩ (mem_singleton.mpr rfl) (.inl rfl)
  · exact ⟨not_false, not_false, not_false, not_false, not_false, not_false, trivial, not_false,
      not_false, not_false, not_false, not_false, trivial⟩
  · have hexecuted : ((machine String).run called unexecutedRun).executed = [(.coordinator, 1)] :=
    rfl
    rcases h.all_or_none with hall | hnone
    · obtain ⟨r, -, hlocation, -, hin⟩ :=
        hall ⟨.remote "peer", ⟨1, ["CREATE (b)"]⟩⟩ (.tail _ (.head _))
      rw [hexecuted, mem_singleton, hlocation] at hin
      cases hin
    · refine hnone ⟨.coordinator, ⟨0, ["CREATE (a)"]⟩⟩ (.head _)
        ⟨⟨.coordinator, 0, 1⟩, ?_, rfl, rfl, ?_⟩
      · exact .head _
      · exact mem_singleton.mpr rfl

end TwoPhaseCommit

end Neo4r.Server
