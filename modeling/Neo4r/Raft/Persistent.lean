/-
  `Raft.Persistent`: the durable term and vote of a server
  (`neo4r-db/src/raft/persistent.rs`).

  A store is the file the state is kept in together with what the operating system
  will do with the next saves.  A save writes a temporary file and renames it, so it
  either installs the whole new text or leaves the old one.
-/
import Neo4r.Db.Error
import Neo4r.Foundation.Word

set_option autoImplicit false

namespace Neo4r.Raft

open Foundation

/-- `RAFT_STATE_MAGIC`. -/
def raftStateMagic : String := "N4RRAFT1"

/-- The part of the Raft state that survives a crash. -/
structure RaftPersistentState where
  currentTerm : Nat
  votedFor : Option Nat
  deriving DecidableEq, Repr

/-- `RaftPersistentState::default`. -/
def RaftPersistentState.default : RaftPersistentState := ⟨0, none⟩

/-! ## The text of the file -/

/-- `encode_persistent_state`. -/
def encodePersistentState (state : RaftPersistentState) : String :=
  raftStateMagic ++ "\nterm=" ++ toString state.currentTerm ++ "\nvoted_for=" ++
    (match state.votedFor with
      | some serverId => toString serverId
      | none => "-") ++ "\n"

/-- Reads the vote line of the file. -/
def decodeVote (line : Option (List Char)) : Except DatabaseError (Option Nat) :=
  match line.bind fun line => line.dropPrefix? "voted_for=".toList with
  | none => .error (.invalidConfig "missing raft vote")
  | some value =>
    if value = ['-'] then .ok none
    else match parseU64 value with
      | none => .error (.invalidConfig "invalid raft vote")
      | some serverId => .ok (some serverId)

/-- `decode_persistent_state`. -/
def decodePersistentState (input : String) : Except DatabaseError RaftPersistentState :=
  let fileLines := lines input.toList
  if fileLines[0]? ≠ some raftStateMagic.toList then
    .error (.invalidConfig "invalid raft state header")
  else match fileLines[1]?.bind fun line => line.dropPrefix? "term=".toList with
    | none => .error (.invalidConfig "missing raft term")
    | some value => match parseU64 value with
      | none => .error (.invalidConfig "invalid raft term")
      | some term => match decodeVote fileLines[2]? with
        | .error err => .error err
        | .ok votedFor => .ok ⟨term, votedFor⟩

/-! ## The store -/

/-- What a read of the state file finds. -/
inductive StateFile
  | missing
  | unreadable (err : String)
  | text (content : String)
  deriving DecidableEq, Repr

/-- What the operating system does with one save. -/
inductive SaveOutcome
  | installed
  | createDirFailed (err : String)
  | writeFailed (err : String)
  | renameFailed (err : String)
  deriving DecidableEq, Repr

/-- The store of one server: the paths it uses, its file, and the outcomes of the
coming saves (a save past the end of the list succeeds). -/
structure RaftPersistentStateStore where
  path : String
  parent : Option String
  tempPath : String
  file : StateFile
  outcomes : List SaveOutcome
  deriving DecidableEq, Repr

namespace RaftPersistentStateStore

variable (store : RaftPersistentStateStore)

/-- `RaftPersistentStateStore::load`. -/
def load : Except DatabaseError RaftPersistentState :=
  match store.file with
  | .text content => decodePersistentState content
  | .missing => .ok .default
  | .unreadable err =>
    let path := store.path
    .error (.invalidConfig s!"failed to read raft state {path}: {err}")

/-- A successful load depends on the file alone. -/
theorem load_eq_ok_of_file_eq {store store' : RaftPersistentStateStore}
    {state : RaftPersistentState} (hfile : store'.file = store.file)
    (h : store'.load = .ok state) : store.load = .ok state := by
  unfold load at h ⊢
  rw [hfile] at h
  cases hcase : store.file with
  | missing | text => simpa [hcase] using h
  | unreadable => simp [hcase] at h

/-- The store after a save that got as far as the rename. -/
def install (state : RaftPersistentState) :
    RaftPersistentStateStore :=
  { store with file := .text (encodePersistentState state) }

/-- `RaftPersistentStateStore::save`. -/
def save (state : RaftPersistentState) :
    Except DatabaseError Unit × RaftPersistentStateStore :=
  let outcome := store.outcomes.headD .installed
  let store := { store with outcomes := store.outcomes.tail }
  match outcome, store.parent with
  | .createDirFailed err, some parent =>
    (.error (.invalidConfig s!"failed to create raft state dir {parent}: {err}"), store)
  | .writeFailed err, _ =>
    let path := store.tempPath
    (.error (.invalidConfig s!"failed to write raft state {path}: {err}"), store)
  | .renameFailed err, _ =>
    let path := store.path
    (.error (.invalidConfig s!"failed to install raft state {path}: {err}"), store)
  -- A path without a parent needs no directory, so nothing can fail before the write.
  | .createDirFailed _, none => (.ok (), store.install state)
  | .installed, _ => (.ok (), store.install state)

/-- A save that succeeds has installed the new text; one that fails has left the
file alone. -/
theorem save_cases (state : RaftPersistentState) :
    ((store.save state).1 = .ok () ∧
      (store.save state).2.file = .text (encodePersistentState state)) ∨
    ((∃ err, (store.save state).1 = .error err) ∧ (store.save state).2.file = store.file) := by
  unfold save
  dsimp only
  split <;> simp [install]

end RaftPersistentStateStore

/-! ## Reading back what was written -/

variable (state : RaftPersistentState) {loaded : RaftPersistentState}

theorem lines_encodePersistentState : lines (encodePersistentState state).toList =
      [raftStateMagic.toList, "term=".toList ++ decimal state.currentTerm,
        "voted_for=".toList ++ match state.votedFor with
          | some server => decimal server
          | none => ['-']] := by
  have hdigits : ∀ (n : Nat) (c : Char), c.isDigit = false → c ∉ decimal n := by
    intro n c hc hmem
    simp [isDigit_of_mem_decimal hmem] at hc
  have htext : (encodePersistentState state).toList =
      raftStateMagic.toList ++ '\n' :: (("term=".toList ++ decimal state.currentTerm) ++
        '\n' :: (("voted_for=".toList ++ match state.votedFor with
          | some server => decimal server
          | none => ['-']) ++ '\n' :: [])) := by
    cases hvote : state.votedFor <;> simp [encodePersistentState, decimal, hvote]
  rw [htext, lines_append_newline (by decide) (by decide), lines_append_newline,
    lines_append_newline]
  · rfl
  all_goals
    rw [List.mem_append, not_or]
    refine ⟨by decide, ?_⟩
    first
      | exact hdigits _ _ (by decide)
      | cases state.votedFor with
        | none => decide
        | some => exact hdigits _ _ (by decide)

theorem dropPrefix?_append_self (lead rest : List Char) :
    (lead ++ rest).dropPrefix? lead = some rest :=
  List.dropPrefix?_append_of_beq rest (beq_self_eq_true lead)

theorem decodeVote_encoded (vote : Option Nat) :
    decodeVote (some ("voted_for=".toList ++ match vote with
      | some server => decimal server
      | none => ['-'])) = match vote with
      | none => .ok none
      | some server => if server ≤ u64Max then .ok (some server)
          else .error (.invalidConfig "invalid raft vote") := by
  simp only [decodeVote, Option.bind_some, dropPrefix?_append_self]
  cases vote with
  | none => rfl
  | some server =>
    have hdash : decimal server ≠ ['-'] := decimal_ne_cons (by decide)
    by_cases hid : server ≤ u64Max <;> simp [hdash, parseU64_decimal, hid]

/-- Reading a written state: it comes back as it was, and numbers beyond 64 bits are
rejected. -/
theorem decode_encode : decodePersistentState (encodePersistentState state) =
      if state.currentTerm ≤ u64Max then
        match state.votedFor with
        | none => .ok state
        | some server => if server ≤ u64Max then .ok state
            else .error (.invalidConfig "invalid raft vote")
      else .error (.invalidConfig "invalid raft term") := by
  obtain ⟨term, vote⟩ := state
  simp only [decodePersistentState, lines_encodePersistentState, List.getElem?_cons_zero,
    List.getElem?_cons_succ, Option.bind_some, dropPrefix?_append_self, parseU64_decimal,
    decodeVote_encoded, ne_eq, not_true_eq_false, if_false]
  by_cases hterm : term ≤ u64Max
  · simp only [if_pos hterm]
    cases vote with
    | none => rfl
    | some server => by_cases hid : server ≤ u64Max <;> simp [hid]
  · simp only [if_neg hterm]

variable {state : RaftPersistentState}

/-- What a successful load of a written state returns is that state. -/
theorem eq_of_decode_encode
    (h : decodePersistentState (encodePersistentState state) = .ok loaded) : loaded = state := by
  rw [decode_encode] at h
  split at h
  · split at h
    · exact (Except.ok.inj h).symm
    · split at h
      · exact (Except.ok.inj h).symm
      · cases h
  · cases h

/-- A load of a freshly saved state can only return that state. -/
theorem RaftPersistentStateStore.eq_of_load {store : RaftPersistentStateStore}
    (hfile : store.file = .text (encodePersistentState state))
    (h : store.load = .ok loaded) : loaded = state := by
  unfold load at h
  rw [hfile] at h
  exact eq_of_decode_encode h

end Neo4r.Raft
