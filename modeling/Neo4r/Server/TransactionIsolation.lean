/-
  `Server.TransactionIsolation`: the transactions of one session as the others see them
  (`neo4r-server/src/backend/transaction_store.rs`).

  Every operation on a transaction checks that it belongs to the session that asks, and
  answers as if it did not exist if not.  Two do not: `close_any` closes any session's
  transaction, and `list_all` lists them all.  The counter of ids is the one other thing
  that sessions share.
-/
import Neo4r.Server.TransactionStores

set_option autoImplicit false

namespace Neo4r.Server

open Foundation FiniteMap

/-- What is read off a write: `is_schema_cypher` and `write_conflict_key`. -/
structure WriteRules (W : Type) where
  isSchemaCypher : W → Bool
  writeConflictKey : W → Option String

/-- `NativeTransaction`, over read transactions `R`, isolation levels `I` and writes `W`. -/
inductive NativeTransaction (R I W : Type)
  | readOnly (transaction : R) (isolation : I)
  | readWrite (isolation : I) (ownershipEpoch : Nat) (stagedWrites : List W)
      (conflictKeys : Finset String)
  deriving DecidableEq

/-- `TransactionMode`. -/
inductive TransactionMode
  | readOnly
  | readWrite
  deriving DecidableEq

/-- `TransactionInfo`. -/
structure TransactionInfo (I : Type) where
  sessionId : Nat
  txId : Nat
  mode : TransactionMode
  isolation : I
  stagedWrites : Nat
  ownershipEpoch : Nat
  deriving DecidableEq

/-- The information on a transaction. -/
def TransactionState.info {R I W : Type} (txId : Nat) :
    TransactionState (NativeTransaction R I W) → TransactionInfo I
  | ⟨sessionId, .readOnly _ isolation⟩ => ⟨sessionId, txId, .readOnly, isolation, 0, 0⟩
  | ⟨sessionId, .readWrite isolation ownershipEpoch stagedWrites _⟩ =>
    ⟨sessionId, txId, .readWrite, isolation, stagedWrites.length, ownershipEpoch⟩

/-- The operations of the store; `query_cursor`, `distributed_query_cursor`, `plan_context` and
`staged_writes` each answer from the transaction, which `query` returns as it is. -/
inductive TransactionOperation (R I W : Type)
  | insert (transaction : NativeTransaction R I W)
  | query (txId : Nat)
  | stageWrite (txId : Nat) (write : W)
  | close (txId : Nat)
  | closeAny (txId : Nat)
  | closeSession
  | list
  | listAll
  | status (txId : Nat)

/-- The operation allocates an id. -/
def TransactionOperation.allocates {R I W : Type} : TransactionOperation R I W → Bool
  | .insert _ => true
  | _ => false

/-- What the operations return. -/
inductive TransactionResult (R I W : Type)
  | number (n : Nat)
  | transaction (transaction : NativeTransaction R I W)
  | infos (infos : List (TransactionInfo I))
  | error (err : String)
  deriving DecidableEq

namespace TransactionStore

variable {R I W : Type} (rules : WriteRules W)

/-- The lookup of a transaction with `ensure_session`. -/
def owned (sessionId txId : Nat) (store : TransactionStore (NativeTransaction R I W)) :
    Option (TransactionState (NativeTransaction R I W)) :=
  match store.transactions.get txId with
  | some state => if state.sessionId = sessionId then some state else none
  | none => none

/-- The error for a transaction that is not there. -/
def unknownTransaction (txId : Nat) : TransactionResult R I W :=
  .error s!"unknown transaction: {txId}"

/-- The ids of a session's transactions, in order. -/
def idsOf (sessionId : Nat) (store : TransactionStore (NativeTransaction R I W)) : List Nat :=
  sortedIds (store.transactions.keys.filter fun txId => (store.owned sessionId txId).isSome)

/-- What `stage_write` makes of a transaction. -/
def stage (txId : Nat) (write : W) :
    NativeTransaction R I W → TransactionResult R I W × NativeTransaction R I W
  | .readOnly transaction isolation =>
    (.error s!"transaction {txId} is read-only; begin with READ_WRITE for write queries",
      .readOnly transaction isolation)
  | .readWrite isolation epoch stagedWrites conflictKeys =>
    if rules.isSchemaCypher write then
      (.error "schema DDL is not supported inside native read-write transactions",
        .readWrite isolation epoch stagedWrites conflictKeys)
    else match rules.writeConflictKey write with
      | none => (.number (stagedWrites.length + 1),
          .readWrite isolation epoch (stagedWrites ++ [write]) conflictKeys)
      | some key =>
        if key ∈ conflictKeys then
          (.error s!"transaction {txId} write conflict on staged target {key.quote}",
            .readWrite isolation epoch stagedWrites conflictKeys)
        else (.number (stagedWrites.length + 1),
          .readWrite isolation epoch (stagedWrites ++ [write]) (conflictKeys ∪ {key}))

/-- An operation of a session. -/
def perform (sessionId : Nat) (store : TransactionStore (NativeTransaction R I W)) :
    TransactionOperation R I W →
      TransactionResult R I W × TransactionStore (NativeTransaction R I W)
  | .insert transaction =>
    let (txId, store') := store.insert sessionId transaction
    (.number txId, store')
  | .query txId => match store.owned sessionId txId with
      | none => (unknownTransaction txId, store)
      | some state => (.transaction state.transaction, store)
  | .stageWrite txId write => match store.owned sessionId txId with
      | none => (unknownTransaction txId, store)
      | some state =>
        let (result, transaction) := stage rules txId write state.transaction
        (result, { store with
          transactions := store.transactions.insert txId ⟨sessionId, transaction⟩ })
  | .close txId => match store.owned sessionId txId with
      | none => (unknownTransaction txId, store)
      | some state => (.transaction state.transaction, store.close sessionId txId)
  | .closeAny txId => match store.transactions.get txId with
      | none => (unknownTransaction txId, store)
      | some state => (.infos [state.info txId], store.closeAny txId)
  | .closeSession =>
    let txIds := store.idsOf sessionId
    (.number txIds.length, { store with
      transactions := txIds.foldl erase store.transactions })
  | .list => (.infos ((store.idsOf sessionId).filterMap fun txId =>
    (store.owned sessionId txId).map (·.info txId)), store)
  | .listAll => (.infos ((store.transactions.toList.insertionSort fun entry entry' =>
    entry.2.sessionId < entry'.2.sessionId ∨
      entry.2.sessionId = entry'.2.sessionId ∧ entry.1 ≤ entry'.1).map fun entry =>
        entry.2.info entry.1), store)
  | .status txId => match store.owned sessionId txId with
      | none => (unknownTransaction txId, store)
      | some state => (.infos [state.info txId], store)

/-! ## Histories -/

/-- An event of a history: an operation of a session, or the allocation of an id alone. -/
abbrev Event (R I W : Type) := Option (Nat × TransactionOperation R I W)

/-- The store after an event. -/
def after (store : TransactionStore (NativeTransaction R I W)) :
    Event R I W → TransactionStore (NativeTransaction R I W)
  | none => { store with nextId := nextIdAfter store.nextId }
  | some (by_, operation) => (store.perform rules by_ operation).2

/-- The results that a session gets in a history. -/
def results (sessionId : Nat) (store : TransactionStore (NativeTransaction R I W)) :
    List (Event R I W) → List (TransactionResult R I W)
  | [] => []
  | event :: history =>
    ((event.filter (·.1 = sessionId)).map fun entry =>
      (store.perform rules sessionId entry.2).1).toList ++
        (store.after rules event).results sessionId history

/-- Nothing but the ids that it allocates is left of an event of another session. -/
def purge (sessionId : Nat) : Event R I W → Option (Event R I W)
  | none => some none
  | some (by_, operation) =>
    if by_ = sessionId then some (some (by_, operation))
    else if operation.allocates then some none else none

/-- An event that respects other sessions: the id of a new transaction is not in use, a
session closes no transaction but its own by `close_any`, and none lists all. -/
def Respectful (store : TransactionStore (NativeTransaction R I W)) : Event R I W → Prop
  | some (_, .insert _) => store.transactions.get (nextIdAfter store.nextId) = none
  | some (by_, .closeAny txId) => (store.owned by_ txId).isSome
  | some (_, .listAll) => False
  | _ => True

/-- A history of such events. -/
def AllRespectful (store : TransactionStore (NativeTransaction R I W)) : List (Event R I W) → Prop
  | [] => True
  | event :: history => store.Respectful event ∧ (store.after rules event).AllRespectful history

/-- The same transactions and the same counter, for one session. -/
def Alike (sessionId : Nat) (store store' : TransactionStore (NativeTransaction R I W)) : Prop :=
  store.nextId = store'.nextId ∧ ∀ txId, store.owned sessionId txId = store'.owned sessionId txId

variable {sessionId : Nat} {store store' : TransactionStore (NativeTransaction R I W)}

theorem mem_idsOf {txId : Nat} :
    txId ∈ store.idsOf sessionId ↔ (store.owned sessionId txId).isSome := by
  rw [idsOf, mem_sortedIds, List.mem_filter, mem_keys, owned]
  grind

theorem idsOf_congr (h : Alike sessionId store store') :
    store.idsOf sessionId = store'.idsOf sessionId :=
  eq_of_sortedLE_of_mem_iff (sortedLE_sortedIds _) (sortedLE_sortedIds _) (nodup_sortedIds _)
    (nodup_sortedIds _) fun txId => (mem_idsOf.trans (by rw [h.2 txId])).trans mem_idsOf.symm

theorem get_foldl_erase (txIds : List Nat) (txId : Nat)
    (transactions : FiniteMap Nat (TransactionState (NativeTransaction R I W))) :
    (txIds.foldl erase transactions).get txId =
      if txId ∈ txIds then none else transactions.get txId := by
  induction txIds generalizing transactions with
  | nil => simp
  | cons id txIds ih =>
    rw [List.foldl_cons, ih, get_erase]
    grind

variable {operation : TransactionOperation R I W}

/-- What an operation leaves of the transactions of a session that did not ask for it. -/
theorem owned_perform_other {other : Nat} (hne : other ≠ sessionId)
    (h : store.Respectful (some (other, operation))) (txId : Nat) :
    (store.perform rules other operation).2.owned sessionId txId = store.owned sessionId txId := by
  cases operation with
  | insert =>
    simp only [Respectful] at h
    simp only [perform, insert, owned, get_insert]
    grind
  | query | status =>
    simp only [perform]
    grind
  | list | listAll => rfl
  | stageWrite =>
    simp only [perform, owned]
    grind [get_insert]
  | close =>
    simp only [perform, owned, close]
    grind [get_erase]
  | closeAny =>
    simp only [perform, owned, closeAny, Respectful] at h ⊢
    grind [get_erase]
  | closeSession =>
    have hmem := @mem_idsOf _ _ _ other store txId
    cases hget : store.transactions.get txId with
    | none => simp only [perform, owned, get_foldl_erase, hget, ite_self]
    | some =>
      simp only [perform, owned, get_foldl_erase, hget] at hmem ⊢
      grind

theorem nextId_perform (other : Nat) (operation : TransactionOperation R I W) :
    (store.perform rules other operation).2.nextId =
      if operation.allocates then nextIdAfter store.nextId else store.nextId := by
  cases operation with
  | insert | list | listAll | closeSession => rfl
  | query | status | stageWrite | close | closeAny =>
    simp only [perform]
    split <;> simp [TransactionOperation.allocates, nextId_close, closeAny]

/-- A session's operations depend on its own transactions and on the counter. -/
theorem perform_congr (h : Alike sessionId store store')
    (hrespect : store.Respectful (some (sessionId, operation))) :
    (store.perform rules sessionId operation).1 = (store'.perform rules sessionId operation).1 ∧
      Alike sessionId (store.perform rules sessionId operation).2
        (store'.perform rules sessionId operation).2 := by
  refine and_left_comm.mp ⟨?_, ?_⟩
  · rw [nextId_perform, nextId_perform, h.1]
  cases operation with
  | insert =>
    simp only [perform, insert, h.1]
    refine ⟨trivial, fun txId => ?_⟩
    have := h.2 txId
    simp only [owned, get_insert] at this ⊢
    grind
  | query id | status id =>
    simp only [perform, ← h.2 id]
    cases store.owned sessionId id with
    | none | some => exact ⟨rfl, h.2⟩
  | list =>
    simp only [perform, idsOf_congr h, h.2]
    exact ⟨trivial, fun _ => trivial⟩
  | listAll => exact hrespect.elim
  | stageWrite id =>
    simp only [perform, ← h.2 id]
    cases store.owned sessionId id with
    | none => exact ⟨rfl, h.2⟩
    | some =>
      refine ⟨rfl, fun txId => ?_⟩
      have := h.2 txId
      simp only [owned, get_insert] at this ⊢
      grind
  | close id | closeAny id =>
    have hid := h.2 id
    simp only [perform, owned, close, closeAny, Respectful] at hid hrespect ⊢
    refine ⟨by grind, fun txId => ?_⟩
    have := h.2 txId
    simp only [owned] at this
    grind [get_erase]
  | closeSession =>
    simp only [perform, idsOf_congr h, owned, get_foldl_erase]
    refine ⟨trivial, fun txId => ?_⟩
    have := h.2 txId
    simp only [owned] at this
    grind

/-- In every respectful history, a session's results and its transactions are those of the
history in which nothing is left of the other sessions but the ids that they allocate. -/
theorem results_purge (history : List (Event R I W)) (h : Alike sessionId store store')
    (hrespect : store.AllRespectful rules history) :
    store.results rules sessionId history =
        store'.results rules sessionId (history.filterMap (purge sessionId)) ∧
      Alike sessionId (history.foldl (after rules) store)
        ((history.filterMap (purge sessionId)).foldl (after rules) store') := by
  induction history generalizing store store' with
  | nil => exact ⟨rfl, h⟩
  | cons event history ih =>
    cases event with
    | none =>
      refine ih ⟨?_, h.2⟩ hrespect.2
      simp only [after, h.1]
    | some entry =>
      obtain ⟨by_, operation⟩ := entry
      by_cases hown : by_ = sessionId
      · subst hown
        obtain ⟨hresult, hview⟩ := perform_congr rules h hrespect.1
        obtain ⟨hrest, hlast⟩ := ih hview hrespect.2
        simp only [results, List.filterMap_cons, purge, if_true, List.foldl_cons, after,
          Option.filter_some, decide_true, Option.map_some, Option.toList_some, hresult] at *
        exact ⟨by rw [hrest], hlast⟩
      · have howned := fun txId =>
          (owned_perform_other rules hown hrespect.1 txId).trans (h.2 txId)
        have hnext : _ = ite _ _ store.nextId := nextId_perform rules by_ operation
        simp only [results, List.filterMap_cons, purge, hown, if_false, List.foldl_cons,
          Option.filter_some, decide_false]
        by_cases hallocates : operation.allocates = true
        · simp only [hallocates, if_true] at hnext ⊢
          exact ih ⟨hnext.trans (congrArg nextIdAfter h.1), howned⟩ hrespect.2
        · simp only [hallocates] at hnext ⊢
          exact ih ⟨hnext.trans h.1, howned⟩ hrespect.2

/-! ## A history -/

/-- No schema queries and no conflicts. -/
def plainWrites : WriteRules String := ⟨fun _ => false, fun _ => none⟩

/-- Two sessions, of which the first stages a write. -/
def twoSessions : List (Event Unit Unit String) :=
  [some (1, .insert (.readWrite () 0 [] ∅)), some (2, .insert (.readWrite () 0 [] ∅)),
    some (1, .stageWrite 1 "CREATE (n)"), some (2, .close 1), some (1, .close 1)]

theorem results_purge_twoSessions : (new _).results plainWrites 1 twoSessions =
    (new _).results plainWrites 1 (twoSessions.filterMap (purge 1)) := by
  have hrespect : (new _).AllRespectful plainWrites twoSessions := by
    simp only [AllRespectful, twoSessions, Respectful, and_true]
    decide +kernel
  exact (results_purge plainWrites twoSessions ⟨rfl, fun _ => rfl⟩ hrespect).1

/-- One session kills the transaction of the other, whose commit then finds nothing, and sees
it in the list. -/
theorem results_closeAny :
    (new _).results plainWrites 1 (R := Unit) (I := Unit)
        [some (1, .insert (.readWrite () 0 [] ∅)), some (2, .closeAny 1), some (1, .close 1)] =
      [.number 1, .error "unknown transaction: 1"] ∧
    (new _).results plainWrites 1 (R := Unit) (I := Unit)
        [some (1, .insert (.readWrite () 0 [] ∅)), some (1, .close 1)] =
      [.number 1, .transaction (.readWrite () 0 [] ∅)] ∧
    (new _).results plainWrites 2 (R := Unit) (I := Unit)
        [some (1, .insert (.readWrite () 0 [] ∅)), some (2, .listAll)] =
      [.infos [⟨1, 1, .readWrite, (), 0, 0⟩]] := by
  decide +kernel

end TransactionStore

end Neo4r.Server
