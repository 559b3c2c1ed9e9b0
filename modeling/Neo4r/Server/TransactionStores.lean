/-
  `Server.TransactionStores`: the identifiers of transactions and prepared batches
  (`neo4r-server/src/backend/transaction_store.rs`).

  A server numbers the transactions it begins and the batches that it prepares for other
  coordinators.  Prepared batches are in a file that is written anew with every change;
  transactions are in memory only.  Saving the file can fail, also after the new file is in
  place, so the outcome of a save is an input of every operation that saves.

  The machine at the end is one server over any number of restarts.  It keeps a record of
  the identifiers it has handed out, which the program does not have.
-/
import Neo4r.Foundation.Fallible
import Neo4r.Foundation.FiniteMap
import Neo4r.Foundation.Machine

set_option autoImplicit false

namespace Neo4r.Server

open Foundation List FiniteMap

/-- `fetch_add(1) + 1` on a counter of 64 bits. -/
def nextIdAfter (nextId : Nat) : Nat := (nextId + 1) % 2 ^ 64

/-! ## Prepared batches -/

/-- `PreparedWriteBatch`; a write is a query with its parameters. -/
structure PreparedWriteBatch (W : Type) where
  shardId : Nat
  writes : List W
  deriving DecidableEq, Repr

/-- Prepared batches by their id. -/
abbrev PreparedBatches (W : Type) := FiniteMap Nat (PreparedWriteBatch W)

/-- How `save_prepared_transactions` ends; the last error comes after the new file has
been put in place. -/
inductive SaveOutcome
  | saved
  | failed (err : String)
  | failedAfterRename (err : String)
  deriving DecidableEq, Repr

/-- The errors of the prepared batches. -/
inductive PreparedError
  | unknown (preparedId : Nat)
  | save (err : String)
  deriving DecidableEq, Repr

/-- The text of an error. -/
def PreparedError.message : PreparedError → String
  | .unknown preparedId => s!"unknown prepared transaction: {preparedId}"
  | .save err => err

/-- `PreparedTransactionStore`; `path` has what is in the file, if there is one. -/
structure PreparedTransactionStore (W : Type) where
  nextId : Nat
  prepared : PreparedBatches W
  path : Option (PreparedBatches W)

namespace PreparedTransactionStore

variable {W : Type}

/-- `PreparedTransactionStore::default`. -/
def new (W : Type) : PreparedTransactionStore W := ⟨0, .empty, none⟩

/-- `PreparedTransactionStore::open`. -/
def ofFile (file : PreparedBatches W) : PreparedTransactionStore W :=
  ⟨file.keys.foldr max 0, file, some file⟩

/-- The store that a restarted server opens. -/
def reopen (store : PreparedTransactionStore W) : PreparedTransactionStore W :=
  match store.path with
  | none => new W
  | some file => ofFile file

/-- `save`, with the file afterwards. -/
def save (path : Option (PreparedBatches W)) (outcome : SaveOutcome)
    (prepared : PreparedBatches W) : Except String Unit × Option (PreparedBatches W) :=
  match path with
  | none => (.ok (), none)
  | some file => match outcome with
    | .saved => (.ok (), some prepared)
    | .failed err => (.error err, some file)
    | .failedAfterRename err => (.error err, some prepared)

/-- `prepare`. -/
def prepare (outcome : SaveOutcome) (batch : PreparedWriteBatch W) :
    Fallible PreparedError (PreparedTransactionStore W) Nat :=
  ⟨fun store =>
    let preparedId := nextIdAfter store.nextId
    let prepared := store.prepared.insert preparedId batch
    match save store.path outcome prepared with
    | (.ok (), path) => (.ok preparedId, ⟨preparedId, prepared, path⟩)
    | (.error err, path) => (.error (.save err), ⟨preparedId, prepared.erase preparedId, path⟩)⟩

/-- `take`. -/
def take (outcome : SaveOutcome) (preparedId : Nat) :
    Fallible PreparedError (PreparedTransactionStore W) (PreparedWriteBatch W) :=
  ⟨fun store => match store.prepared.get preparedId with
    | none => (.error (.unknown preparedId), store)
    | some batch =>
      let prepared := store.prepared.erase preparedId
      match save store.path outcome prepared with
      | (.ok (), path) => (.ok batch, { store with prepared, path })
      | (.error err, path) => (.error (.save err),
          { store with prepared := prepared.insert preparedId batch, path })⟩

variable {file prepared : PreparedBatches W} {path path' : Option (PreparedBatches W)}
  {store store' : PreparedTransactionStore W}

theorem le_nextId_ofFile {id : Nat} (h : (file.get id).isSome) : id ≤ (ofFile file).nextId :=
  le_max_of_le (mem_keys.mpr h) (Nat.le_refl id)

variable {outcome : SaveOutcome}

/-- What can become of the file. -/
theorem save_cases {result : Except String Unit}
    (h : save path outcome prepared = (result, path')) :
    (result = .ok () ∧ path' = path.map fun _ => prepared) ∨
      ∃ err, result = .error err ∧ ((outcome = .failed err ∧ path' = path) ∨
        outcome = .failedAfterRename err ∧ path' = some prepared) := by
  cases path with
  | none =>
    cases h
    exact .inl ⟨rfl, rfl⟩
  | some =>
    cases outcome with
    | saved =>
      cases h
      exact .inl ⟨rfl, rfl⟩
    | failed err =>
      cases h
      exact .inr ⟨err, rfl, .inl ⟨rfl, rfl⟩⟩
    | failedAfterRename err =>
      cases h
      exact .inr ⟨err, rfl, .inr ⟨rfl, rfl⟩⟩

/-- A file that has been saved has what was saved. -/
theorem eq_of_saved (hpath : path' = path.map fun _ => prepared) (hsome : path' = some file) :
    prepared = file := by
  cases path with
  | none =>
    rw [hpath] at hsome
    cases hsome
  | some => exact Option.some.inj (hpath.symm.trans hsome)

/-- What a save of `prepared` leaves, with `undone` in memory if it fails. -/
inductive Saves {α : Type} (outcome : SaveOutcome) (prepared undone : PreparedBatches W) (value : α)
    (store store' : PreparedTransactionStore W) : Except PreparedError α → Prop
  | saved (hmemory : store'.prepared = prepared)
      (hpath : store'.path = store.path.map fun _ => prepared) :
      Saves outcome prepared undone value store store' (.ok value)
  | failed {err : String} (hmemory : store'.prepared = undone)
      (hpath : (outcome = .failed err ∧ store'.path = store.path) ∨
        outcome = .failedAfterRename err ∧ store'.path = some prepared) :
      Saves outcome prepared undone value store store' (.error (.save err))

/-- What `prepare` can do. -/
theorem prepare_cases {batch : PreparedWriteBatch W} {result : Except PreparedError Nat}
    (h : (prepare outcome batch).run store = (result, store')) :
    store'.nextId = nextIdAfter store.nextId ∧
      Saves outcome (store.prepared.insert (nextIdAfter store.nextId) batch)
        ((store.prepared.insert (nextIdAfter store.nextId) batch).erase (nextIdAfter store.nextId))
        (nextIdAfter store.nextId) store store' result := by
  rw [prepare] at h
  dsimp only at h
  rcases hsave :
    save store.path outcome (store.prepared.insert (nextIdAfter store.nextId) batch)
      with ⟨saved, path⟩
  rw [hsave] at h
  obtain ⟨rfl, hpath⟩ | ⟨err, rfl, hpath⟩ := save_cases hsave
  · cases h
    exact ⟨rfl, .saved rfl hpath⟩
  · cases h
    exact ⟨rfl, .failed rfl hpath⟩

/-- What `take` can do. -/
theorem take_cases {preparedId : Nat} {result : Except PreparedError (PreparedWriteBatch W)}
    (h : (take outcome preparedId).run store = (result, store')) :
    (store.prepared.get preparedId = none ∧ result = .error (.unknown preparedId) ∧
        store' = store) ∨
      ∃ batch, store.prepared.get preparedId = some batch ∧ store'.nextId = store.nextId ∧
        Saves outcome (store.prepared.erase preparedId)
          ((store.prepared.erase preparedId).insert preparedId batch) batch store store'
            result := by
  rw [take] at h
  dsimp only at h
  cases hget : store.prepared.get preparedId with
  | none =>
    rw [hget] at h
    cases h
    exact .inl ⟨rfl, rfl, rfl⟩
  | some batch =>
    rw [hget] at h
    rcases hsave : save store.path outcome (store.prepared.erase preparedId) with ⟨saved, path⟩
    rw [hsave] at h
    obtain ⟨rfl, hpath⟩ | ⟨err, rfl, hpath⟩ := save_cases hsave
    · cases h
      exact .inr ⟨batch, rfl, rfl, .saved rfl hpath⟩
    · cases h
      exact .inr ⟨batch, rfl, rfl, .failed rfl hpath⟩

end PreparedTransactionStore

/-! ## Transactions -/

/-- `TransactionState`, for transactions `T`. -/
structure TransactionState (T : Type) where
  sessionId : Nat
  transaction : T
  deriving DecidableEq, Repr

/-- `TransactionStore`. -/
structure TransactionStore (T : Type) where
  nextId : Nat
  transactions : FiniteMap Nat (TransactionState T)

namespace TransactionStore

variable {T : Type}

/-- `TransactionStore::default`. -/
def new (T : Type) : TransactionStore T := ⟨0, .empty⟩

/-- `insert`. -/
def insert (sessionId : Nat) (transaction : T) (store : TransactionStore T) :
    Nat × TransactionStore T :=
  let txId := nextIdAfter store.nextId
  (txId, ⟨txId, store.transactions.insert txId ⟨sessionId, transaction⟩⟩)

/-- `close`: only the session of a transaction may close it. -/
def close (sessionId txId : Nat) (store : TransactionStore T) : TransactionStore T :=
  match store.transactions.get txId with
  | some state =>
    if state.sessionId = sessionId then
      { store with transactions := store.transactions.erase txId }
    else store
  | none => store

/-- `close_any`. -/
def closeAny (txId : Nat) (store : TransactionStore T) : TransactionStore T :=
  { store with transactions := store.transactions.erase txId }

theorem nextId_close (sessionId txId : Nat) (store : TransactionStore T) :
    (store.close sessionId txId).nextId = store.nextId := by
  rw [close]
  split
  · split <;> rfl
  · rfl

end TransactionStore

/-! ## A server over its restarts -/

/-- The identifiers of a server, with those that it has handed out and for what. -/
structure IdServer (W T : Type) where
  prepared : PreparedTransactionStore W
  transactions : TransactionStore T
  issuedPrepared : List (Nat × PreparedWriteBatch W)
  issuedTransactions : List (Nat × T)

/-- What happens to a server. -/
inductive IdCall (W T : Type)
  | prepareWriteBatchShard (outcome : SaveOutcome) (batch : PreparedWriteBatch W)
  | commitPrepared (outcome : SaveOutcome) (preparedId : Nat)
  | abortPrepared (outcome : SaveOutcome) (preparedId : Nat)
  | begin (sessionId : Nat) (transaction : T)
  | close (sessionId txId : Nat)
  | kill (txId : Nat)
  | restart

namespace IdServer

variable {W T : Type}

/-- A prepare, with the id it returns. -/
def prepareBatch (s : IdServer W T) (outcome : SaveOutcome) (batch : PreparedWriteBatch W) :
    IdServer W T :=
  match (PreparedTransactionStore.prepare outcome batch).run s.prepared with
  | (.ok preparedId, prepared) =>
    { s with prepared, issuedPrepared := s.issuedPrepared ++ [(preparedId, batch)] }
  | (.error _, prepared) => { s with prepared }

/-- A take, for a commit or an abort. -/
def takeBatch (s : IdServer W T) (outcome : SaveOutcome) (preparedId : Nat) : IdServer W T :=
  { s with prepared := ((PreparedTransactionStore.take outcome preparedId).run s.prepared).2 }

/-- The server after a call. -/
def next (s : IdServer W T) : IdCall W T → IdServer W T
  | .prepareWriteBatchShard outcome batch => s.prepareBatch outcome batch
  | .commitPrepared outcome preparedId | .abortPrepared outcome preparedId =>
    s.takeBatch outcome preparedId
  | .begin sessionId transaction =>
    let (txId, transactions) := s.transactions.insert sessionId transaction
    { s with
      transactions
      issuedTransactions := s.issuedTransactions ++ [(txId, transaction)] }
  | .close sessionId txId => { s with transactions := s.transactions.close sessionId txId }
  | .kill txId => { s with transactions := s.transactions.closeAny txId }
  | .restart => { s with prepared := s.prepared.reopen, transactions := .new T }

/-- A server that has handed out nothing, on a file of its own or without one. -/
def Fresh (s : IdServer W T) : Prop :=
  s.prepared = s.prepared.reopen ∧ s.transactions = .new T ∧ s.issuedPrepared = [] ∧
    s.issuedTransactions = []

/-- The runs of a server. -/
def machine (W T : Type) : Machine (IdServer W T) (IdCall W T) where
  init := Fresh
  enabled _ _ := True
  next := next

/-- Every id was handed out once, and a commit or abort of an id takes the batch that it was
handed out for. -/
structure DenoteOneBatch (s : IdServer W T) : Prop where
  prepared : (s.issuedPrepared.map Prod.fst).Nodup
  transactions : (s.issuedTransactions.map Prod.fst).Nodup
  takes : ∀ id batch, s.prepared.prepared.get id = some batch →
    ∀ other, (id, other) ∈ s.issuedPrepared → other = batch

/-- A call that does not bring an id back: a restart finds a record whose id is not below
any id handed out for a batch, no transaction has been begun before it, and the counters do
not overflow. -/
def KeepsIds (s : IdServer W T) : IdCall W T → Prop
  | .prepareWriteBatchShard _ _ => s.prepared.nextId + 1 < 2 ^ 64
  | .begin _ _ => s.transactions.nextId + 1 < 2 ^ 64
  | .restart => s.issuedTransactions = [] ∧ ∀ entry ∈ s.issuedPrepared,
      ∃ file id, s.prepared.path = some file ∧ (file.get id).isSome ∧ entry.1 ≤ id
  | _ => True

/-! ### The invariant -/

/-- Batches under ids up to a bound, each the one that its id was handed out for. -/
def Agrees (issued : List (Nat × PreparedWriteBatch W)) (bound : Nat)
    (batches : PreparedBatches W) : Prop :=
  ∀ id batch, batches.get id = some batch →
    id ≤ bound ∧ ∀ other, (id, other) ∈ issued → other = batch

variable {issued : List (Nat × PreparedWriteBatch W)} {bound : Nat} {batches : PreparedBatches W}
  {batch : PreparedWriteBatch W} {outcome : SaveOutcome}

section

variable (h : Agrees issued bound batches)

include h

theorem Agrees.erase (id : Nat) : Agrees issued bound (batches.erase id) := by
  intro id' batch' hget
  rw [get_erase] at hget
  split at hget
  · cases hget
  · exact h id' batch' hget

/-- The same entries again. -/
theorem Agrees.restore {id : Nat} (hid : batches.get id = some batch) :
    Agrees issued bound ((batches.erase id).insert id batch) := by
  intro id' batch' hget
  rw [get_insert] at hget
  split at hget
  · rename_i heq
    cases hget
    rw [heq]
    exact h id batch hid
  · exact h.erase id id' batch' hget

/-- A batch under a new id that is not handed out. -/
theorem Agrees.insert (hissued : ∀ entry ∈ issued, entry.1 ≤ bound) :
    Agrees issued (bound + 1) (batches.insert (bound + 1) batch) := by
  intro id' batch' hget
  rw [get_insert] at hget
  split at hget
  · rename_i heq
    refine ⟨Nat.le_of_eq heq, fun other hmem => ?_⟩
    have hle := hissued _ hmem
    rw [heq] at hle
    exact absurd hle (Nat.not_succ_le_self bound)
  · obtain ⟨hle, hsame⟩ := h id' batch' hget
    exact ⟨Nat.le_succ_of_le hle, hsame⟩

theorem Agrees.mono : Agrees issued (bound + 1) batches :=
  fun id' batch' hget => ⟨Nat.le_succ_of_le (h id' batch' hget).1, (h id' batch' hget).2⟩

end

/-- What is in memory and in the file after a save. -/
theorem Agrees.saves {α : Type} {prepared undone : PreparedBatches W} {value : α}
    {store store' : PreparedTransactionStore W} {result : Except PreparedError α}
    (hsaves : PreparedTransactionStore.Saves outcome prepared undone value store store' result)
    (hprepared : Agrees issued bound prepared) (hundone : Agrees issued bound undone)
    (hfile : ∀ file, store.path = some file → Agrees issued bound file) :
    Agrees issued bound store'.prepared ∧
      ∀ file, store'.path = some file → Agrees issued bound file := by
  cases hsaves with
  | saved hmemory hpath =>
    refine ⟨hmemory ▸ hprepared, fun file hsome => ?_⟩
    rw [← PreparedTransactionStore.eq_of_saved hpath hsome]
    exact hprepared
  | failed hmemory hpath =>
    refine ⟨hmemory ▸ hundone, fun file hsome => ?_⟩
    obtain ⟨-, heq⟩ | ⟨-, heq⟩ := hpath
    · exact hfile file (heq.symm.trans hsome)
    · cases heq.symm.trans hsome
      exact hprepared

/-- A new id is handed out for the batch that is stored under it, if any is. -/
theorem Agrees.issue (h : Agrees issued (bound + 1) batches)
    (hnew : ∀ other, batches.get (bound + 1) = some other → other = batch) :
    Agrees (issued ++ [(bound + 1, batch)]) (bound + 1) batches := by
  intro id' batch' hget
  obtain ⟨hle, hsame⟩ := h id' batch' hget
  refine ⟨hle, fun other hmem => ?_⟩
  rcases mem_append.mp hmem with hold | hlast
  · exact hsame other hold
  · cases mem_singleton.mp hlast
    exact (hnew batch' hget).symm

/-- A counter above the ids that were handed out, and batches that agree with them. -/
structure Inv (s : IdServer W T) : Prop where
  prepared_le : ∀ entry ∈ s.issuedPrepared, entry.1 ≤ s.prepared.nextId
  prepared_nodup : (s.issuedPrepared.map Prod.fst).Nodup
  memory : Agrees s.issuedPrepared s.prepared.nextId s.prepared.prepared
  file : ∀ file, s.prepared.path = some file → Agrees s.issuedPrepared s.prepared.nextId file
  transactions_le : ∀ entry ∈ s.issuedTransactions, entry.1 ≤ s.transactions.nextId
  transactions_nodup : (s.issuedTransactions.map Prod.fst).Nodup

variable {α : Type} (a : α)

variable {issued : List (Nat × α)}

/-- One more id, above the others. -/
theorem nodup_issue (hle : ∀ entry ∈ issued, entry.1 ≤ bound)
    (hnodup : (issued.map Prod.fst).Nodup) :
    ((issued ++ [(bound + 1, a)]).map Prod.fst).Nodup := by
  rw [map_append]
  refine hnodup.append (nodup_singleton _) ?_
  intro id hid hlast
  obtain ⟨entry, hentry, rfl⟩ := mem_map.mp hid
  have hnew : entry.1 = bound + 1 := mem_singleton.mp hlast
  have hold := hle entry hentry
  omega

theorem le_issue (hle : ∀ entry ∈ issued, entry.1 ≤ bound) :
    ∀ entry ∈ issued ++ [(bound + 1, a)], entry.1 ≤ bound + 1 := by
  intro entry hentry
  rcases mem_append.mp hentry with hold | hlast
  · exact Nat.le_succ_of_le (hle entry hold)
  · rw [mem_singleton.mp hlast]

variable {s : IdServer W T}

theorem Inv.prepareBatch (h : s.Inv) {batch : PreparedWriteBatch W}
    (hsafe : s.prepared.nextId + 1 < 2 ^ 64) : (s.prepareBatch outcome batch).Inv := by
  have hid : nextIdAfter s.prepared.nextId = s.prepared.nextId + 1 := Nat.mod_eq_of_lt hsafe
  have hnew := @Agrees.insert W _ _ _ batch h.memory h.prepared_le
  have hself : ∀ other, (s.prepared.prepared.insert (s.prepared.nextId + 1) batch).get
      (s.prepared.nextId + 1) = some other → other = batch := by
    intro other hother
    rw [get_insert_self] at hother
    exact (Option.some.inj hother).symm
  rw [IdServer.prepareBatch]
  rcases hrun : (PreparedTransactionStore.prepare outcome batch).run s.prepared with ⟨result, store⟩
  obtain ⟨hnext, hsaves⟩ := PreparedTransactionStore.prepare_cases hrun
  rw [hid] at hnext hsaves
  obtain ⟨hmemory, hfile⟩ := Agrees.saves hsaves hnew (hnew.erase _) fun file hsome =>
    (h.file file hsome).mono
  rw [← hnext] at hmemory hfile
  cases hsaves with
  | saved hprep hpath =>
    refine ⟨?_, nodup_issue batch h.prepared_le h.prepared_nodup, ?_, ?_,
      h.transactions_le, h.transactions_nodup⟩
    · rw [hnext]
      exact le_issue batch h.prepared_le
    · rw [hnext, hprep]
      exact hnew.issue hself
    · intro file hsome
      rw [hnext, ← PreparedTransactionStore.eq_of_saved hpath hsome]
      exact hnew.issue hself
  | failed =>
    refine ⟨fun entry hentry => ?_, h.prepared_nodup, hmemory, hfile, h.transactions_le,
      h.transactions_nodup⟩
    rw [hnext]
    exact Nat.le_succ_of_le (h.prepared_le entry hentry)

theorem Inv.takeBatch (h : s.Inv) (outcome : SaveOutcome) (preparedId : Nat) :
    (s.takeBatch outcome preparedId).Inv := by
  rw [IdServer.takeBatch]
  rcases hrun : (PreparedTransactionStore.take outcome preparedId).run s.prepared
    with ⟨result, store⟩
  obtain ⟨-, -, rfl⟩ | ⟨batch, hget, hnext, hsaves⟩ := PreparedTransactionStore.take_cases hrun
  · exact h
  · obtain ⟨hmemory, hfile⟩ :=
      Agrees.saves hsaves (h.memory.erase preparedId) (h.memory.restore hget) h.file
    rw [← hnext] at hmemory hfile
    refine ⟨?_, h.prepared_nodup, hmemory, hfile, h.transactions_le, h.transactions_nodup⟩
    rw [hnext]
    exact h.prepared_le

theorem Inv.begin (h : s.Inv) (sessionId : Nat) (tx : T)
    (hsafe : s.transactions.nextId + 1 < 2 ^ 64) : (s.next (.begin sessionId tx)).Inv := by
  have hid : nextIdAfter s.transactions.nextId = s.transactions.nextId + 1 := Nat.mod_eq_of_lt hsafe
  refine ⟨h.prepared_le, h.prepared_nodup, h.memory, h.file, ?_, ?_⟩
  · rw [next, TransactionStore.insert]
    rw [hid]
    exact le_issue tx h.transactions_le
  · rw [next, TransactionStore.insert]
    rw [hid]
    exact nodup_issue tx h.transactions_le h.transactions_nodup

theorem Inv.restart (h : s.Inv) (hsafe : s.KeepsIds .restart) : (s.next .restart).Inv := by
  obtain ⟨hnone, hkept⟩ := hsafe
  rw [next, PreparedTransactionStore.reopen]
  cases hpath : s.prepared.path with
  | none =>
    -- without a file nothing may have been handed out
    have hissued : s.issuedPrepared = [] := by
      refine eq_nil_iff_forall_not_mem.mpr fun entry hentry => ?_
      obtain ⟨file, id, hsome, -⟩ := hkept entry hentry
      rw [hpath] at hsome
      cases hsome
    refine ⟨?_, h.prepared_nodup, ?_, ?_, ?_, h.transactions_nodup⟩
    · rw [hissued]
      exact forall_mem_nil _
    · intro id batch hget
      cases hget
    · intro file hsome
      cases hsome
    · rw [hnone]
      exact forall_mem_nil _
  | some file =>
    have hbound : ∀ batches : PreparedBatches W, batches = file →
        Agrees s.issuedPrepared (PreparedTransactionStore.ofFile file).nextId batches := by
      rintro batches rfl id batch hget
      refine ⟨PreparedTransactionStore.le_nextId_ofFile ?_, (h.file batches hpath id batch hget).2⟩
      rw [hget]
      rfl
    refine ⟨?_, h.prepared_nodup, hbound file rfl, ?_, ?_, h.transactions_nodup⟩
    · intro entry hentry
      obtain ⟨file', id, hsome, hstored, hle⟩ := hkept entry hentry
      cases hpath.symm.trans hsome
      exact hle.trans (PreparedTransactionStore.le_nextId_ofFile hstored)
    · intro file' hsome
      cases hsome
      exact hbound file rfl
    · rw [hnone]
      exact forall_mem_nil _

theorem Inv.next (h : s.Inv) {call : IdCall W T} (hsafe : s.KeepsIds call) : (s.next call).Inv := by
  cases call with
  | prepareWriteBatchShard => exact h.prepareBatch hsafe
  | commitPrepared outcome preparedId | abortPrepared outcome preparedId =>
    exact h.takeBatch outcome preparedId
  | begin sessionId tx => exact h.begin sessionId tx hsafe
  | close =>
    refine ⟨h.prepared_le, h.prepared_nodup, h.memory, h.file, ?_, h.transactions_nodup⟩
    rw [IdServer.next]
    rw [TransactionStore.nextId_close]
    exact h.transactions_le
  | kill =>
    exact ⟨h.prepared_le, h.prepared_nodup, h.memory, h.file, h.transactions_le,
      h.transactions_nodup⟩
  | restart => exact h.restart hsafe

theorem Fresh.inv (h : s.Fresh) : s.Inv := by
  obtain ⟨hopen, htransactions, hprep, hnone⟩ := h
  have hagrees : ∀ bound batches, (∀ id, (batches.get id).isSome → id ≤ bound) →
      Agrees s.issuedPrepared bound batches := by
    intro bound batches hle id batch hget
    refine ⟨hle id (by rw [hget]; rfl), fun other hmem => ?_⟩
    rw [hprep] at hmem
    exact absurd hmem not_mem_nil
  have hfile : ∀ file, s.prepared.path = some file → s.prepared = .ofFile file := by
    intro file hpath
    rw [PreparedTransactionStore.reopen, hpath] at hopen
    exact hopen
  refine ⟨?_, ?_, ?_, ?_, ?_, ?_⟩
  · rw [hprep]
    exact forall_mem_nil _
  · rw [hprep]
    exact nodup_nil
  · cases hpath : s.prepared.path with
    | none =>
      rw [PreparedTransactionStore.reopen, hpath] at hopen
      refine hagrees _ _ fun id hstored => ?_
      rw [hopen, PreparedTransactionStore.new, get_empty] at hstored
      cases hstored
    | some file =>
      refine hagrees _ _ fun id hstored => ?_
      rw [hfile file hpath] at hstored ⊢
      exact PreparedTransactionStore.le_nextId_ofFile hstored
  · intro file hpath
    refine hagrees _ _ fun id hstored => ?_
    rw [hfile file hpath]
    exact PreparedTransactionStore.le_nextId_ofFile hstored
  · rw [hnone]
    exact forall_mem_nil _
  · rw [hnone]
    exact nodup_nil

/-- In a run in which every restart still finds the highest id, and none forgets a
transaction, an id stands for one batch. -/
theorem identifiers_denote_one_batch {s : IdServer W T}
    (hs : ((machine W T).restrict KeepsIds).Reachable s) : s.DenoteOneBatch := by
  have hinv : s.Inv := by
    refine hs.invariant (P := Inv) (fun _ hinit => Fresh.inv hinit) ?_
    intro t call _ hprev henabled
    exact hprev.next henabled.2
  exact ⟨hinv.prepared_nodup, hinv.transactions_nodup, fun id batch hget =>
    (hinv.memory id batch hget).2⟩

/-- A server with an empty file for its prepared batches. -/
def started : IdServer String String := ⟨.ofFile .empty, .new String, [], []⟩

/-- Two batches are prepared around a restart, while the first is still prepared. -/
def keptRecordRun : List (IdCall String String) :=
  [.prepareWriteBatchShard .saved ⟨0, ["CREATE (a)"]⟩, .restart,
    .prepareWriteBatchShard .saved ⟨0, ["CREATE (b)"]⟩, .commitPrepared .saved 1, .begin 1 "tx"]

theorem identifiers_denote_one_batch_keptRecord :
    ((machine String String).run started keptRecordRun).issuedPrepared.map Prod.fst = [1, 2] ∧
      ((machine String String).run started keptRecordRun).DenoteOneBatch := by
  refine ⟨rfl, identifiers_denote_one_batch (Machine.Reachable.run (.start ?_) ?_)⟩
  · exact ⟨rfl, rfl, rfl, rfl⟩
  · refine ⟨⟨trivial, (by decide : 0 + 1 < 2 ^ 64)⟩, ⟨trivial, rfl, ?_⟩,
      ⟨trivial, (by decide : 1 + 1 < 2 ^ 64)⟩, ⟨trivial, trivial⟩,
      ⟨trivial, (by decide : 0 + 1 < 2 ^ 64)⟩, trivial⟩
    intro entry hentry
    cases mem_singleton.mp hentry
    exact ⟨_, 1, rfl, rfl, Nat.le_refl 1⟩

/-- A batch is prepared and committed and a transaction begun, the server restarts, and it
prepares another batch and begins another transaction. -/
def lostRecordRun : List (IdCall String String) :=
  [.prepareWriteBatchShard .saved ⟨0, ["CREATE (a)"]⟩, .commitPrepared .saved 1,
    .begin 1 "first", .restart, .prepareWriteBatchShard .saved ⟨1, ["CREATE (b)"]⟩,
    .begin 1 "second"]

theorem restart_reuses_ids :
    ((machine String String).run started lostRecordRun).issuedPrepared =
        [(1, ⟨0, ["CREATE (a)"]⟩), (1, ⟨1, ["CREATE (b)"]⟩)] ∧
      ((machine String String).run started lostRecordRun).issuedTransactions =
        [(1, "first"), (1, "second")] ∧
      ¬((machine String String).run started lostRecordRun).DenoteOneBatch := by
  refine ⟨rfl, rfl, fun h => ?_⟩
  have hnodup : [1, 1].Nodup := h.prepared
  exact absurd hnodup (by decide)

end IdServer

end Neo4r.Server
