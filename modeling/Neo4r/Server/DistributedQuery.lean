/-
  `Server.DistributedQuery`: the cursor of a query over all shards
  (`neo4r-server/src/backend/distributed_query.rs`, `neo4r-query/src/engine.rs`).

  A shard with a local copy is queried when the cursor is built; of any other shard the
  peer keeps the rows and sends them page by page.  What a peer answers to a page request
  is the next page of its own cursor, unless the exchange fails; `faults` says which
  requests fail and how, so it stands for every pattern of failures.  The texts that go
  over the wire are decoded into what was encoded.
-/
import Neo4r.Foundation.Fallible
import Neo4r.Foundation.Paging

set_option autoImplicit false

namespace Neo4r.Server

open Foundation List Concat

variable {α : Type}

/-! ## Cursors -/

/-- `VecQueryCursor`. -/
structure VecQueryCursor (α : Type) where
  rows : List α
  position : Nat
  position_le : position ≤ rows.length

namespace VecQueryCursor

/-- `VecQueryCursor::new`. -/
def new (rows : List α) : VecQueryCursor α := ⟨rows, 0, Nat.zero_le _⟩

/-- `fetch`. -/
def fetch (pageSize : Nat) (cursor : VecQueryCursor α) : Page α × VecQueryCursor α :=
  let pageSize := max pageSize 1
  let start := cursor.position
  let stop := min (start + pageSize) cursor.rows.length
  (⟨(cursor.rows.take stop).drop start, decide (stop < cursor.rows.length)⟩,
    ⟨cursor.rows, stop, Nat.min_le_right ..⟩)

end VecQueryCursor

/-- How a page request to a peer fails. -/
inductive PageFault
  | write (err : String)
  | read (err : String)
  | closed
  | errorFrame (payload : String)
  | malformed (err : String)
  deriving DecidableEq, Repr

/-- The error that `fetch_remote` returns. -/
def PageFault.message : PageFault → String
  | .write err => s!"write remote fetch request: {err}"
  | .read err => s!"read remote fetch response: {err}"
  | .closed => "remote query peer closed without fetch response"
  | .errorFrame payload => s!"remote fetch failed: {payload}"
  | .malformed err => err

/-- `RemoteShardQueryCursor`, with the cursor that the peer keeps for it and the requests
that fail, by their id. -/
structure RemoteShardQueryCursor (α : Type) where
  peer : VecQueryCursor α
  faults : Nat → Option PageFault
  bufferedRows : List α
  remoteHasMore : Bool
  nextRequestId : Nat

/-- A shard on another server: the rows of the query there, the page size of the server,
why the cursor cannot be opened, and the page requests that fail. -/
structure RemoteShard (α : Type) where
  rows : List α
  defaultPageSize : Nat
  openFault : Option String
  faults : Nat → Option PageFault

namespace RemoteShardQueryCursor

/-- `open_with_payload`: the first answer has the first page. -/
def openWithPayload (shard : RemoteShard α) : Except String (RemoteShardQueryCursor α) :=
  match shard.openFault with
  | some err => .error err
  | none =>
    let (start, peer) := (VecQueryCursor.new shard.rows).fetch shard.defaultPageSize
    .ok ⟨peer, shard.faults, start.rows, start.hasMore, 2⟩

/-- `fetch_remote`. -/
def fetchRemote (pageSize : Nat) (cursor : RemoteShardQueryCursor α) :
    Except String Unit × RemoteShardQueryCursor α :=
  if cursor.remoteHasMore = false then (.ok (), cursor)
  else
    let requestId := cursor.nextRequestId
    let cursor := { cursor with nextRequestId := cursor.nextRequestId + 1 }
    match cursor.faults requestId with
    | some (.errorFrame payload) =>
      (.error (PageFault.errorFrame payload).message, { cursor with remoteHasMore := false })
    | some fault => (.error fault.message, cursor)
    | none =>
      let (page, peer) := cursor.peer.fetch pageSize
      (.ok (), { cursor with
        peer
        bufferedRows := cursor.bufferedRows ++ page.rows
        remoteHasMore := page.hasMore })

/-- The loop of `fetch`, for a number of rounds; a request that fails ends it. -/
def fillBuffer (pageSize : Nat) : Nat → RemoteShardQueryCursor α → RemoteShardQueryCursor α
  | 0, cursor => cursor
  | rounds + 1, cursor =>
    if cursor.bufferedRows.length < pageSize ∧ cursor.remoteHasMore = true then
      match cursor.fetchRemote (pageSize - cursor.bufferedRows.length) with
      | (.error _, cursor) => { cursor with remoteHasMore := false }
      | (.ok (), cursor) => fillBuffer pageSize rounds cursor
    else cursor

/-- `fetch`.  A round of the loop brings a row, so `page_size` rounds are enough. -/
def fetch (pageSize : Nat) (cursor : RemoteShardQueryCursor α) :
    Page α × RemoteShardQueryCursor α :=
  let pageSize := max pageSize 1
  let cursor := cursor.fillBuffer pageSize pageSize
  let take := min pageSize cursor.bufferedRows.length
  let rest := cursor.bufferedRows.drop take
  (⟨cursor.bufferedRows.take take, !rest.isEmpty || cursor.remoteHasMore⟩,
    { cursor with bufferedRows := rest })

end RemoteShardQueryCursor

/-- The cursor of one shard. -/
inductive ShardCursor (α : Type)
  | vec (cursor : VecQueryCursor α)
  | remote (cursor : RemoteShardQueryCursor α)

/-- `fetch` of the trait `QueryCursor`. -/
def shardCursorPager (α : Type) : Pager (ShardCursor α) α where
  fetch pageSize
    | .vec cursor => ((cursor.fetch pageSize).1, .vec (cursor.fetch pageSize).2)
    | .remote cursor => ((cursor.fetch pageSize).1, .remote (cursor.fetch pageSize).2)

/-- `DistributedQueryCursor`. -/
abbrev DistributedQueryCursor (α : Type) := Concat (ShardCursor α)

/-- `fetch` of `DistributedQueryCursor`. -/
def distributedQueryPager (α : Type) : Pager (DistributedQueryCursor α) α :=
  pager (shardCursorPager α)

/-- A shard of the cluster, as the server that is asked sees it: the result of the query
on its copy, or where to ask. -/
inductive QueryShard (α : Type)
  | localCopy (rows : Except String (List α))
  | remote (target : Except String (RemoteShard α))

/-- The body of the loop of `build_distributed_query_cursor_with_options`. -/
def QueryShard.cursor : QueryShard α → Except String (ShardCursor α)
  | .localCopy rows => rows.map fun rows => .vec (.new rows)
  | .remote target => do
      let target ← target
      let cursor ← RemoteShardQueryCursor.openWithPayload target
      pure (.remote cursor)

/-- `build_distributed_query_cursor_with_options`. -/
def buildDistributedQueryCursor (shards : List (QueryShard α)) :
    Except String (DistributedQueryCursor α) := do
  let cursors ← shards.mapM QueryShard.cursor
  pure ⟨cursors, 0⟩

/-- The rows of a shard. -/
def QueryShard.rows : QueryShard α → List α
  | .localCopy (.ok rows) => rows
  | .remote (.ok target) => target.rows
  | _ => []

/-! ## One page of a shard -/

namespace VecQueryCursor

variable (cursor : VecQueryCursor α)

/-- The rows that have not been fetched. -/
def pending : List α := cursor.rows.drop cursor.position

/-- The number of rows in a page. -/
def pageLength (pageSize : Nat) (cursor : VecQueryCursor α) : Nat :=
  min (max pageSize 1) (cursor.rows.length - cursor.position)

variable (pageSize : Nat)

@[simp] theorem rows_fetch : (cursor.fetch pageSize).2.rows = cursor.rows := rfl

theorem position_fetch :
    (cursor.fetch pageSize).2.position = cursor.position + cursor.pageLength pageSize := by
  have hle := cursor.position_le
  rw [fetch, pageLength]
  dsimp only
  omega

theorem length_fetch : (cursor.fetch pageSize).1.rows.length = cursor.pageLength pageSize := by
  rw [fetch, pageLength]
  rw [length_drop, length_take]
  omega

theorem hasMore_fetch : (cursor.fetch pageSize).1.hasMore =
      decide ((cursor.fetch pageSize).2.position < cursor.rows.length) := rfl

theorem fetch_pending :
    (cursor.fetch pageSize).1.rows ++ (cursor.fetch pageSize).2.pending = cursor.pending := by
  have hle := cursor.position_le
  rw [fetch, pending, pending]
  dsimp only
  rw [drop_take]
  have hsplit : min (cursor.position + max pageSize 1) cursor.rows.length =
      cursor.position + (min (cursor.position + max pageSize 1) cursor.rows.length -
        cursor.position) := by omega
  rw [hsplit]
  simp

end VecQueryCursor

namespace RemoteShardQueryCursor

/-- The cursor after a request that was answered. -/
def received (pageSize : Nat) (cursor : RemoteShardQueryCursor α) : RemoteShardQueryCursor α where
  peer := (cursor.peer.fetch pageSize).2
  faults := cursor.faults
  bufferedRows := cursor.bufferedRows ++ (cursor.peer.fetch pageSize).1.rows
  remoteHasMore := (cursor.peer.fetch pageSize).1.hasMore
  nextRequestId := cursor.nextRequestId + 1

/-- The cursor after a request that failed. -/
def lost (cursor : RemoteShardQueryCursor α) : RemoteShardQueryCursor α :=
  { cursor with remoteHasMore := false, nextRequestId := cursor.nextRequestId + 1 }

/-- What the loop of `fetch` comes to. -/
inductive Filled (pageSize : Nat) (cursor : RemoteShardQueryCursor α) :
    RemoteShardQueryCursor α → Prop
  | enough : pageSize ≤ cursor.bufferedRows.length ∨ cursor.remoteHasMore = false →
      Filled pageSize cursor cursor
  | received : cursor.bufferedRows.length < pageSize → cursor.remoteHasMore = true →
      cursor.faults cursor.nextRequestId = none →
      Filled pageSize cursor (cursor.received (pageSize - cursor.bufferedRows.length))
  | lost : cursor.remoteHasMore = true → cursor.faults cursor.nextRequestId ≠ none →
      Filled pageSize cursor cursor.lost

variable (pageSize : Nat) {cursor : RemoteShardQueryCursor α}

theorem fillBuffer_of_enough {pageSize : Nat}
    (h : pageSize ≤ cursor.bufferedRows.length ∨ cursor.remoteHasMore = false) (rounds : Nat) :
    cursor.fillBuffer pageSize rounds = cursor := by
  cases rounds with
  | zero => rfl
  | succ =>
    refine if_neg ?_
    rintro ⟨hless, hmore⟩
    rcases h with hfull | hend
    · exact Nat.not_lt.mpr hfull hless
    · exact Bool.false_ne_true (hend.symm.trans hmore)

/-- One answer fills the buffer or is the last. -/
theorem received_enough {pageSize : Nat} (h : cursor.bufferedRows.length < pageSize) :
    pageSize ≤ (cursor.received (pageSize - cursor.bufferedRows.length)).bufferedRows.length ∨
      (cursor.received (pageSize - cursor.bufferedRows.length)).remoteHasMore = false := by
  rw [received]
  rw [length_append, VecQueryCursor.length_fetch, VecQueryCursor.hasMore_fetch,
    VecQueryCursor.position_fetch, decide_eq_false_iff_not, VecQueryCursor.pageLength]
  omega

theorem filled_fillBuffer (rounds : Nat) (cursor : RemoteShardQueryCursor α) :
    Filled pageSize cursor (cursor.fillBuffer pageSize (rounds + 1)) := by
  by_cases hless : cursor.bufferedRows.length < pageSize
  · cases hmore : cursor.remoteHasMore with
    | false =>
      rw [fillBuffer_of_enough (.inr hmore)]
      exact .enough (.inr hmore)
    | true =>
      rw [fillBuffer, if_pos ⟨hless, hmore⟩, fetchRemote, if_neg (by simp [hmore])]
      cases hfault : cursor.faults cursor.nextRequestId with
      | none =>
        have henough := received_enough hless
        simp only [hfault]
        have hrest := fillBuffer_of_enough henough rounds
        rw [received] at hrest
        rw [hrest]
        exact .received hless hmore hfault
      | some fault =>
        have hfailed : cursor.faults cursor.nextRequestId ≠ none := by
          rw [hfault]
          exact Option.some_ne_none fault
        cases fault <;> simp only [hfault] <;> exact .lost hmore hfailed
  · rw [fillBuffer_of_enough (.inl (Nat.not_lt.mp hless))]
    exact .enough (.inl (Nat.not_lt.mp hless))

/-- The rows that have not been fetched, here and at the peer. -/
def pending (cursor : RemoteShardQueryCursor α) : List α :=
  cursor.bufferedRows ++ cursor.peer.pending

/-- A page request has failed. -/
def Failed (cursor : RemoteShardQueryCursor α) : Prop :=
  ∃ requestId, 2 ≤ requestId ∧ requestId < cursor.nextRequestId ∧ cursor.faults requestId ≠ none

/-- All rows have been delivered, as far as the cursor knows. -/
def Exhausted (cursor : RemoteShardQueryCursor α) : Prop :=
  cursor.bufferedRows = [] ∧ cursor.remoteHasMore = false

/-- The cursor after the loop of `fetch`. -/
def filled (pageSize : Nat) (cursor : RemoteShardQueryCursor α) : RemoteShardQueryCursor α :=
  cursor.fillBuffer (max pageSize 1) (max pageSize 1)

section

variable (cursor)

theorem filled_spec :
    Filled (max pageSize 1) cursor (cursor.filled pageSize) := by
  have hrounds : max pageSize 1 = (max pageSize 1 - 1) + 1 := by omega
  have hspec := filled_fillBuffer (max pageSize 1) (max pageSize 1 - 1) cursor
  rwa [← hrounds] at hspec

theorem rows_fetch :
    (cursor.fetch pageSize).1.rows = (cursor.filled pageSize).bufferedRows.take
      (min (max pageSize 1) (cursor.filled pageSize).bufferedRows.length) := rfl

theorem fetch_snd :
    (cursor.fetch pageSize).2 = { cursor.filled pageSize with
      bufferedRows := (cursor.filled pageSize).bufferedRows.drop
        (min (max pageSize 1) (cursor.filled pageSize).bufferedRows.length) } := rfl

theorem hasMore_fetch :
    (cursor.fetch pageSize).1.hasMore = false ↔ (cursor.fetch pageSize).2.Exhausted := by
  rw [fetch, Exhausted]
  simp

theorem fetch_buffer :
    (cursor.fetch pageSize).1.rows ++ (cursor.fetch pageSize).2.bufferedRows =
      (cursor.filled pageSize).bufferedRows := by
  exact take_append_drop ..

theorem received_pending :
    (cursor.received pageSize).pending = cursor.pending := by
  rw [pending, received, pending]
  rw [append_assoc, VecQueryCursor.fetch_pending]

/-- The number of rows that are pending does not grow. -/
theorem length_filled_le :
    (cursor.filled pageSize).pending.length ≤ cursor.pending.length := by
  have hspec := filled_spec pageSize cursor
  generalize cursor.filled pageSize = after at hspec
  cases hspec with
  | enough | lost => exact Nat.le_refl _
  | received => rw [received_pending]

theorem shrinks_fetch :
    (cursor.fetch pageSize).2.pending.length + (cursor.fetch pageSize).1.rows.length ≤
      cursor.pending.length := by
  have hbuffer := congrArg length (fetch_buffer pageSize cursor)
  have hfilled := length_filled_le pageSize cursor
  have hpeer : (cursor.fetch pageSize).2.peer = (cursor.filled pageSize).peer := rfl
  rw [pending, length_append] at hfilled ⊢
  rw [length_append] at hbuffer
  rw [hpeer]
  omega

end

theorem productive_fetch {pageSize : Nat} (h : (cursor.fetch pageSize).1.hasMore = true) :
    (cursor.fetch pageSize).1.rows ≠ [] := by
  intro hnil
  -- an empty page means an empty buffer, and the loop does not stop there if more follows
  have hempty : (cursor.filled pageSize).bufferedRows = [] := by
    rw [rows_fetch, take_eq_nil_iff] at hnil
    rcases hnil with hzero | hnil
    · exact length_eq_zero_iff.mp (by omega)
    · exact hnil
  have hstop : max pageSize 1 ≤ (cursor.filled pageSize).bufferedRows.length ∨
      (cursor.filled pageSize).remoteHasMore = false := by
    have hspec := filled_spec pageSize cursor
    generalize cursor.filled pageSize = after at hspec
    cases hspec with
    | enough henough => exact henough
    | received hless => exact received_enough hless
    | lost => exact .inr rfl
  rw [hempty, length_nil] at hstop
  have hend : (cursor.filled pageSize).remoteHasMore = false := hstop.resolve_left (by omega)
  have hover : (cursor.fetch pageSize).1.hasMore = false := by
    rw [hasMore_fetch, fetch_snd]
    rw [hempty, drop_nil]
    exact ⟨rfl, hend⟩
  exact Bool.false_ne_true (hover.symm.trans h)

/-! ### When every answer comes -/

/-- The cursor knows whether the peer has more, no request has failed, and none will that
is still to come: there are at most as many as the peer has rows left. -/
structure Answered (cursor : RemoteShardQueryCursor α) : Prop where
  knows : cursor.remoteHasMore = decide (cursor.peer.position < cursor.peer.rows.length)
  unfailed : ¬cursor.Failed
  upcoming : ∀ n, n < cursor.peer.rows.length - cursor.peer.position →
    cursor.faults (cursor.nextRequestId + n) = none

section

variable (h : cursor.Answered)

include h

theorem Answered.received (hmore : cursor.remoteHasMore = true)
    (pageSize : Nat) : (cursor.received pageSize).Answered := by
  have hleft := of_decide_eq_true (h.knows.symm.trans hmore)
  have hposition : (cursor.received pageSize).peer.position =
      cursor.peer.position + cursor.peer.pageLength pageSize :=
    VecQueryCursor.position_fetch ..
  have hlen : 0 < cursor.peer.pageLength pageSize := by
    rw [VecQueryCursor.pageLength]
    omega
  have hrows : (cursor.received pageSize).peer.rows = cursor.peer.rows := rfl
  refine ⟨VecQueryCursor.hasMore_fetch .., ?_, ?_⟩
  · rintro ⟨requestId, hfirst, hlast, hfault⟩
    rcases Nat.lt_succ_iff_lt_or_eq.mp hlast with hold | rfl
    · exact h.unfailed ⟨requestId, hfirst, hold, hfault⟩
    · exact hfault (h.upcoming 0 (by omega))
  · intro n hn
    rw [hrows] at hn
    have hnext := h.upcoming (n + 1) (by omega)
    rwa [Nat.add_comm n 1, ← Nat.add_assoc] at hnext

theorem Answered.filled (pageSize : Nat) :
    (cursor.filled pageSize).Answered ∧ (cursor.filled pageSize).pending = cursor.pending := by
  have hspec := filled_spec pageSize cursor
  generalize cursor.filled pageSize = after at hspec
  cases hspec with
  | enough => exact ⟨h, rfl⟩
  | received _ hmore => exact ⟨h.received hmore _, received_pending ..⟩
  | lost hmore hfault =>
    have hleft := of_decide_eq_true (h.knows.symm.trans hmore)
    exact absurd (h.upcoming 0 (by omega)) hfault

theorem Answered.fetch (pageSize : Nat) : (cursor.fetch pageSize).2.Answered := by
  obtain ⟨knows, unfailed, upcoming⟩ := (h.filled pageSize).1
  exact ⟨knows, unfailed, upcoming⟩

theorem Answered.delivers (pageSize : Nat) :
    (cursor.fetch pageSize).1.rows ++ (cursor.fetch pageSize).2.pending = cursor.pending := by
  rw [← (h.filled pageSize).2, pending, ← append_assoc, fetch_buffer]
  rfl

theorem Answered.pending_of_exhausted (hend : cursor.Exhausted) : cursor.pending = [] := by
  have hlast := of_decide_eq_false (h.knows.symm.trans hend.2)
  rw [pending, hend.1, VecQueryCursor.pending, drop_eq_nil_of_le (Nat.not_lt.mp hlast)]
  rfl

end

end RemoteShardQueryCursor

/-! ## Whole results -/

namespace ShardCursor

/-- The rows of a shard that have not been fetched. -/
def pending : ShardCursor α → List α
  | vec cursor | remote cursor => cursor.pending

/-- A page request to the peer of the shard has failed. -/
def Failed : ShardCursor α → Prop
  | vec _ => False
  | remote cursor => cursor.Failed

/-- Every page request to the peer of the shard is answered. -/
def Answered : ShardCursor α → Prop
  | vec _ => True
  | remote cursor => cursor.Answered

/-- The end of the shard has been announced. -/
def Exhausted : ShardCursor α → Prop
  | vec _ => True
  | remote cursor => cursor.Exhausted

end ShardCursor

theorem shardCursor_productive : (shardCursorPager α).Productive := by
  intro size cursor hmore
  cases cursor with
  | vec cursor =>
    have hmore : (cursor.fetch size).1.hasMore = true := hmore
    rw [VecQueryCursor.hasMore_fetch, VecQueryCursor.position_fetch, decide_eq_true_iff] at hmore
    refine ne_nil_of_length_pos ?_
    have hlen : ((shardCursorPager α).fetch size (.vec cursor)).1.rows.length =
        cursor.pageLength size := VecQueryCursor.length_fetch ..
    rw [hlen, VecQueryCursor.pageLength]
    omega
  | remote => exact RemoteShardQueryCursor.productive_fetch hmore

theorem shardCursor_shrinks : (shardCursorPager α).Shrinks fun cursor => cursor.pending.length := by
  intro size cursor
  cases cursor with
  | vec cursor =>
    have hpending := congrArg length (cursor.fetch_pending size)
    rw [length_append] at hpending
    exact Nat.le_of_eq ((Nat.add_comm ..).trans hpending)
  | remote cursor => exact cursor.shrinks_fetch size

theorem shardCursor_finishes : (shardCursorPager α).Finishes ShardCursor.Exhausted := by
  intro size cursor hmore
  cases cursor with
  | vec => trivial
  | remote cursor => exact (cursor.hasMore_fetch size).mp hmore

theorem shardCursor_keeps_answered :
    (shardCursorPager α).Keeps (fun _ => True) ShardCursor.Answered := by
  intro size cursor _ h
  cases cursor with
  | vec => trivial
  | remote => exact RemoteShardQueryCursor.Answered.fetch h size

theorem shardCursor_delivers :
    (shardCursorPager α).Delivers ShardCursor.Answered ShardCursor.pending := by
  intro size cursor h
  cases cursor with
  | vec cursor =>
    refine ⟨cursor.fetch_pending size, fun hmore => ?_⟩
    have hend := of_decide_eq_false hmore
    exact drop_eq_nil_of_le (Nat.not_lt.mp hend)
  | remote cursor =>
    refine ⟨h.delivers size, fun hmore => ?_⟩
    exact (h.fetch size).pending_of_exhausted ((cursor.hasMore_fetch size).mp hmore)

/-! ## Built cursors -/

variable {shards : List (QueryShard α)} {query : DistributedQueryCursor α}
  {cursor : RemoteShardQueryCursor α} {target : RemoteShard α}

theorem build_ok (h : buildDistributedQueryCursor shards = .ok query) : query.current = 0 ∧
      Forall₂ (fun shard member => shard.cursor = .ok member) shards query.cursors := by
  obtain ⟨cursors, hcursors, heq⟩ := of_exceptBind_ok h
  cases heq
  exact ⟨rfl, exceptMapM_ok_iff.mp hcursors⟩

theorem openWithPayload_ok (h : RemoteShardQueryCursor.openWithPayload target = .ok cursor) :
    cursor = ⟨((VecQueryCursor.new target.rows).fetch target.defaultPageSize).2, target.faults,
      ((VecQueryCursor.new target.rows).fetch target.defaultPageSize).1.rows,
      ((VecQueryCursor.new target.rows).fetch target.defaultPageSize).1.hasMore, 2⟩ := by
  rw [RemoteShardQueryCursor.openWithPayload] at h
  cases hfault : target.openFault with
  | some =>
    rw [hfault] at h
    cases h
  | none =>
    rw [hfault] at h
    cases h
    rfl

/-- The shard that the cursor was opened for. -/
theorem cursor_ok {shard : QueryShard α} {member : ShardCursor α} (h : shard.cursor = .ok member) :
    (∃ rows, shard = .localCopy (.ok rows) ∧ member = .vec (.new rows)) ∨
      ∃ target cursor, shard = .remote (.ok target) ∧ member = .remote cursor ∧
        RemoteShardQueryCursor.openWithPayload target = .ok cursor := by
  cases shard with
  | localCopy rows =>
    cases rows with
    | error => cases h
    | ok rows =>
      cases h
      exact .inl ⟨rows, rfl, rfl⟩
  | remote target =>
    cases target with
    | error => cases h
    | ok target =>
      obtain ⟨target', htarget, hopen⟩ := of_exceptBind_ok h
      cases htarget
      obtain ⟨cursor, hcursor, heq⟩ := of_exceptBind_ok hopen
      cases heq
      exact .inr ⟨target, cursor, rfl, rfl, hcursor⟩

/-- The position of a peer after the first page. -/
theorem position_opened (target : RemoteShard α) :
    ((VecQueryCursor.new target.rows).fetch target.defaultPageSize).2.position =
      min (max target.defaultPageSize 1) target.rows.length := by
  rw [VecQueryCursor.position_fetch, VecQueryCursor.pageLength, VecQueryCursor.new]
  dsimp only
  omega

section

variable (h : RemoteShardQueryCursor.openWithPayload target = .ok cursor)

include h

theorem not_failed_opened :
    ¬cursor.Failed := by
  rintro ⟨requestId, hfirst, hlast, -⟩
  rw [openWithPayload_ok h] at hlast
  exact absurd hlast (Nat.not_lt.mpr hfirst)

theorem pending_opened :
    cursor.pending = target.rows := by
  rw [openWithPayload_ok h]
  exact (VecQueryCursor.new target.rows).fetch_pending target.defaultPageSize

end

theorem pending_build (h : buildDistributedQueryCursor shards = .ok query) :
    pendingIn ShardCursor.pending query = shards.flatMap QueryShard.rows := by
  obtain ⟨hcur, hmembers⟩ := build_ok h
  rw [pendingIn, hcur, drop_zero]
  clear h
  generalize query.cursors = members at hmembers
  induction hmembers with
  | nil => rfl
  | cons hmember _ ih =>
    rw [flatMap_cons, ih]
    obtain ⟨rows, rfl, rfl⟩ | ⟨target, cursor, rfl, rfl, hopen⟩ := cursor_ok hmember
    · rfl
    · exact congrArg (· ++ _) (pending_opened hopen)

/-! ## No silently truncated result -/

/-- The page requests that fetching the rows of a shard can take are answered: there is at
most one for each row that is not on the first page. -/
def RequestsAnswered (shards : List (QueryShard α)) : Prop :=
  ∀ target, .remote (.ok target) ∈ shards →
    ∀ n, n < target.rows.length - max target.defaultPageSize 1 → target.faults (n + 2) = none

/-- Whoever fetches to the end-of-results answer, with pages of whatever sizes, has been
given exactly the rows of all shards, and no page request has failed on the way. -/
def NoSilentTruncation (shards : List (QueryShard α)) (cursor : DistributedQueryCursor α) : Prop :=
  ∀ sizes rows ended, (distributedQueryPager α).drain sizes cursor = some (rows, ended) →
    rows = shards.flatMap QueryShard.rows ∧ ∀ member ∈ ended.cursors, ¬member.Failed

theorem answered_of_requestsAnswered (h : buildDistributedQueryCursor shards = .ok query)
    (hanswered : RequestsAnswered shards) : All (fun _ => ShardCursor.Answered) query := by
  intro i member hmember
  obtain ⟨hlen, hmembers⟩ := forall₂_iff_get.mp (build_ok h).2
  obtain ⟨hi, rfl⟩ := List.getElem?_eq_some_iff.mp hmember
  have hopened := hmembers i (hlen ▸ hi) hi
  obtain ⟨rows, -, heq⟩ | ⟨target, remote, hshard, heq, hopen⟩ := cursor_ok hopened
  · rw [get_eq_getElem] at heq
    rw [heq]
    trivial
  · rw [get_eq_getElem] at heq hshard
    rw [heq]
    have hmem : .remote (.ok target) ∈ shards := hshard ▸ getElem_mem _
    have hunfailed := not_failed_opened hopen
    have hreqs := hanswered target hmem
    rw [openWithPayload_ok hopen] at hunfailed ⊢
    refine ⟨VecQueryCursor.hasMore_fetch .., hunfailed, fun n hn => ?_⟩
    rw [position_opened, VecQueryCursor.rows_fetch] at hn
    rw [Nat.add_comm]
    refine hreqs n ?_
    rw [VecQueryCursor.new] at hn
    dsimp only at hn
    omega

/-- A cursor that is asked for one row at a time has sent a request for every row that the
peer has moved on by. -/
structure Tracks (target : RemoteShard α) (cursor : RemoteShardQueryCursor α) : Prop where
  faults_eq : cursor.faults = target.faults
  rows_eq : cursor.peer.rows = target.rows
  started : 2 ≤ cursor.nextRequestId
  knows : ¬cursor.Failed →
    cursor.remoteHasMore = decide (cursor.peer.position < cursor.peer.rows.length)
  counted : ¬cursor.Failed → cursor.peer.position + 2 =
    cursor.nextRequestId + min (max target.defaultPageSize 1) target.rows.length

theorem tracks_opened (h : RemoteShardQueryCursor.openWithPayload target = .ok cursor) :
    Tracks target cursor := by
  rw [openWithPayload_ok h]
  refine ⟨rfl, rfl, Nat.le_refl 2, fun _ => VecQueryCursor.hasMore_fetch .., fun _ => ?_⟩
  rw [position_opened, Nat.add_comm]

section

variable (h : Tracks target cursor)

include h

theorem Tracks.filled : Tracks target (cursor.filled 1) := by
  obtain ⟨hfaults, hrows, hstarted, hknows, hcounted⟩ := h
  have hspec := cursor.filled_spec 1
  generalize cursor.filled 1 = after at hspec
  cases hspec with
  | enough => exact ⟨hfaults, hrows, hstarted, hknows, hcounted⟩
  | received hless hmore =>
    -- one request for one row
    have hempty : cursor.bufferedRows.length = 0 := by omega
    rw [hempty]
    have hbefore : ¬(cursor.received (max 1 1 - 0)).Failed → ¬cursor.Failed := by
      rintro hnot ⟨requestId, hfirst, hlast, hfault⟩
      exact hnot ⟨requestId, hfirst, Nat.lt_succ_of_lt hlast, hfault⟩
    refine ⟨hfaults, hrows, Nat.le_succ_of_le hstarted,
      fun _ => VecQueryCursor.hasMore_fetch .., fun hnot => ?_⟩
    have hleft := of_decide_eq_true ((hknows (hbefore hnot)).symm.trans hmore)
    have hmoved : (cursor.received (max 1 1 - 0)).peer.position =
        cursor.peer.position + cursor.peer.pageLength (max 1 1 - 0) :=
      VecQueryCursor.position_fetch ..
    have hnext : (cursor.received (max 1 1 - 0)).nextRequestId = cursor.nextRequestId + 1 := rfl
    have hcount := hcounted (hbefore hnot)
    rw [hmoved, VecQueryCursor.pageLength]
    omega
  | lost hmore hfault =>
    have hfailed : cursor.lost.Failed :=
      ⟨cursor.nextRequestId, hstarted, Nat.lt_succ_self _, hfault⟩
    exact ⟨hfaults, hrows, Nat.le_succ_of_le hstarted, fun hnot => absurd hfailed hnot,
      fun hnot => absurd hfailed hnot⟩

theorem Tracks.fetch : Tracks target (cursor.fetch 1).2 := by
  obtain ⟨hfaults, hrows, hstarted, hknows, hcounted⟩ := h.filled
  exact ⟨hfaults, hrows, hstarted, hknows, hcounted⟩

/-- All rows of a shard that were delivered one at a time were asked for. -/
theorem Tracks.answered (hend : cursor.Exhausted) (hunfailed : ¬cursor.Failed) {n : Nat}
    (hn : n < target.rows.length - max target.defaultPageSize 1) :
    target.faults (n + 2) = none := by
  have hlast := of_decide_eq_false ((h.knows hunfailed).symm.trans hend.2)
  have hcount := h.counted hunfailed
  rw [h.rows_eq] at hlast
  by_contra hfault
  refine hunfailed ⟨n + 2, Nat.le_add_left 2 n, by omega, ?_⟩
  rwa [h.faults_eq]

end

/-- The member of a shard, in a run with pages of one row. -/
def Follows : Option (QueryShard α) → ShardCursor α → Prop
  | some (.remote (.ok target)), .remote cursor => Tracks target cursor
  | some (.remote (.ok _)), .vec _ => False
  | _, _ => True

theorem follows_build (h : buildDistributedQueryCursor shards = .ok query) :
    All (fun i => Follows shards[i]?) query := by
  intro i member hmember
  obtain ⟨hlen, hmembers⟩ := forall₂_iff_get.mp (build_ok h).2
  obtain ⟨hi, rfl⟩ := List.getElem?_eq_some_iff.mp hmember
  have hi' : i < shards.length := hlen ▸ hi
  have hopened := hmembers i hi' hi
  rw [get_eq_getElem, get_eq_getElem] at hopened
  rw [getElem?_eq_getElem hi']
  obtain ⟨rows, hshard, heq⟩ | ⟨target, remote, hshard, heq, hopen⟩ := cursor_ok hopened
  · rw [hshard]
    trivial
  · rw [hshard, heq]
    exact tracks_opened hopen

theorem keeps_follows (shard : Option (QueryShard α)) :
    (shardCursorPager α).Keeps (fun size => size = 1) (Follows shard) := by
  rintro size member rfl h
  cases shard with
  | none => trivial
  | some shard =>
    cases shard with
    | localCopy => trivial
    | remote target =>
      cases target with
      | error => trivial
      | ok =>
        cases member with
        | vec => exact h.elim
        | remote => exact h.fetch

/-- Fetching the result of a distributed query row by row ends, with every member
exhausted. -/
theorem exists_drain_rowwise (h : buildDistributedQueryCursor shards = .ok query) :
    ∃ sizes rows ended, (distributedQueryPager α).drain sizes query = some (rows, ended) ∧
      ended.cursors.length = shards.length ∧ ∀ (i : Nat) member, ended.cursors[i]? = some member →
        Follows shards[i]? member ∧ member.Exhausted := by
  obtain ⟨count, ⟨rows, ended⟩, hdrain⟩ := Pager.exists_drain
    (shrinks_pager (shardCursor_shrinks (α := α)))
    (productive_pager shardCursor_productive) 1 query
  have hsizes : ∀ size ∈ List.replicate count 1, size = 1 := fun _ => List.eq_of_mem_replicate
  have hlen : ended.cursors.length = query.cursors.length :=
    @Pager.drain_keeps _ _ _ _ _ _ _ (fun size => size = 1)
      (fun c : DistributedQueryCursor α => c.cursors.length = query.cursors.length)
      (fun size c _ hc => (length_fetch (shardCursorPager α) size c).trans hc)
      hsizes rfl hdrain
  have hfollows : All (fun i => Follows shards[i]?) ended := by
    refine Pager.drain_keeps ?_ hsizes (follows_build h) hdrain
    rintro size c rfl hc
    refine keeps_pager (fun i => keeps_follows shards[i]?) ?_ hc
    omega
  have hdone : DoneBefore ShardCursor.Exhausted ended := by
    refine Pager.drain_keeps ?_ hsizes ?_ hdrain
    · exact fun size c _ hc => doneBefore_fetch shardCursor_finishes size hc
    · intro i member hi
      rw [(build_ok h).1] at hi
      exact absurd hi (Nat.not_lt_zero i)
  have hover := Pager.done_of_drain (finishes_pager (shardCursorPager α)) hdrain
  refine ⟨_, rows, ended, hdrain, hlen.trans (build_ok h).2.length_eq.symm, ?_⟩
  intro i member hmember
  have hi := (List.getElem?_eq_some_iff.mp hmember).1
  exact ⟨hfollows i member hmember, hdone i member (by omega) hmember⟩

/-- A shard here and one on a peer that sends its rows one by one and does not answer the
page requests that `closes` picks. -/
def pairShards (closes : Nat → Bool) : List (QueryShard String) :=
  [.localCopy (.ok ["a"]),
    .remote (.ok ⟨["b", "c"], 1, none,
      fun requestId => if closes requestId then some .closed else none⟩)]

/-- The cursor over the two shards. -/
def pairCursor (closes : Nat → Bool) : DistributedQueryCursor String :=
  ⟨[.vec (.new ["a"]), .remote ⟨((VecQueryCursor.new ["b", "c"]).fetch 1).2,
    fun requestId => if closes requestId then some .closed else none, ["b"], true, 2⟩], 0⟩

end Neo4r.Server
