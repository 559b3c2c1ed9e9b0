/-
  `Storage.ShardLog`: the segmented write-ahead log of a shard
  (`neo4r-storage/src/log.rs`).

  A log is a directory of segment files.  An entry goes to the end of the segment that
  covers its index, and a replay reads the segments in the order of their first index.
  The model keeps all entries in the order they were written and sorts them by segment
  when they are replayed, which is the same thing.  Reads and writes of the files
  succeed here; what is modelled is which entries they hold.
-/
import Neo4r.Db.Error
import Neo4r.Foundation.Consecutive

set_option autoImplicit false

namespace Neo4r.Storage

open Foundation List

variable {C : Type}

/-- The segmented log of one shard.  Entries of other shards are refused when they are
appended, so none is ever in it. -/
structure SegmentedShardLog (C : Type) where
  shardId : Nat
  entriesPerSegment : Nat
  written : List (LogEntry C)
  segments_pos : 0 < entriesPerSegment
  own : ∀ entry ∈ written, entry.shardId = shardId

namespace SegmentedShardLog

/-- The number of entries in a segment by default is positive. -/
theorem defaultSegment_pos : 0 < 1024 := by decide

/-- The log of a shard that has no segments yet. -/
def empty (C : Type) (shardId entriesPerSegment : Nat) (h : 0 < entriesPerSegment) :
    SegmentedShardLog C :=
  ⟨shardId, entriesPerSegment, [], h, nofun⟩

variable (log : SegmentedShardLog C)

/-- `segment_start_for_index`. -/
def segmentStartForIndex (index : Nat) : Nat :=
  if index = 0 then 0
  else (index - 1) / log.entriesPerSegment * log.entriesPerSegment + 1

/-- `append_with_sync`; syncing does not change what the log holds. -/
def appendWithSync (entry : LogEntry C) :
    Except DatabaseError (SegmentedShardLog C) :=
  if h : entry.shardId = log.shardId then
    .ok { log with
      written := log.written ++ [entry]
      own := by
        intro e he
        rcases mem_append.mp he with he | he
        · exact log.own e he
        · rw [mem_singleton.mp he, h] }
  else .error (.storage (.wrongShard log.shardId entry.shardId))

/-- The entries segment by segment. -/
def bySegment : List (LogEntry C) :=
  log.written.insertionSort fun a b =>
    log.segmentStartForIndex a.index ≤ log.segmentStartForIndex b.index

/-- `replay_from`.  The segments below the one of `startIndex` hold no index from
`startIndex` on, so skipping them is part of the filter. -/
def replayFrom (startIndex : Nat) : List (LogEntry C) :=
  log.bySegment.filter fun entry => startIndex ≤ entry.index

/-- `entry`. -/
def entry (log : SegmentedShardLog C) (index : Nat) : Option (LogEntry C) :=
  (log.replayFrom index).find? fun entry => entry.index = index

/-- `truncate_from`: the entries below the index are written to new segments. -/
def truncateFrom (index : Nat) : SegmentedShardLog C :=
  { log with
    written := (log.replayFrom 0).filter fun entry => entry.index < index
    own := by
      intro e he
      refine log.own e ?_
      exact (mem_insertionSort _).mp (mem_of_mem_filter (mem_of_mem_filter he)) }

/-! ## What the operations do to a lookup -/

variable {index : Nat} {log : SegmentedShardLog C} {e : LogEntry C}

theorem segmentStartForIndex_mono (log : SegmentedShardLog C) {index' : Nat} (h : index ≤ index') :
    log.segmentStartForIndex index ≤ log.segmentStartForIndex index' := by
  unfold segmentStartForIndex
  split
  · exact Nat.zero_le _
  · rw [if_neg (by omega)]
    exact Nat.succ_le_succ (Nat.mul_le_mul_right _ (Nat.div_le_div_right (by omega)))

/-- A log that was written in the order of the indexes is read in this order. -/
theorem replayFrom_of_ordered
    (h : log.written.Pairwise fun entry later => entry.index < later.index) (startIndex : Nat) :
    log.replayFrom startIndex = log.written.filter fun entry => startIndex ≤ entry.index := by
  rw [replayFrom, bySegment, Pairwise.insertionSort_eq]
  exact h.imp fun hlt => log.segmentStartForIndex_mono hlt.le

theorem mem_replayFrom {startIndex : Nat} :
    e ∈ log.replayFrom startIndex ↔ e ∈ log.written ∧ startIndex ≤ e.index := by
  simp [replayFrom, bySegment, mem_filter, mem_insertionSort]

/-- Entries of one index share a segment, where they keep the order they were written
in. -/
theorem filter_bySegment (log : SegmentedShardLog C) {p : LogEntry C → Bool}
    (h : ∀ a b, p a = true → p b = true → a.index = b.index) :
    log.bySegment.filter p = log.written.filter p := by
  refine filter_insertionSort _ _ ?_ _
  intro a b ha hb
  rw [h a b ha hb]

/-- A lookup finds the first entry written with the index. -/
theorem entry_eq_find? (log : SegmentedShardLog C) (index : Nat) :
    log.entry index = log.written.find? fun entry => entry.index = index := by
  unfold entry replayFrom
  rw [← head?_filter, ← head?_filter, filter_filter, log.filter_bySegment]
  · congr 2
    funext e
    grind
  · grind

theorem index_of_entry (h : log.entry index = some e) : e.index = index := by
  simpa using find?_some h

theorem shardId_of_entry (h : log.entry index = some e) : e.shardId = log.shardId := by
  rw [entry_eq_find?] at h
  exact log.own e (mem_of_find?_eq_some h)

variable {log' : SegmentedShardLog C}

section

variable (h : log.appendWithSync e = .ok log')

include h

theorem entry_appendWithSync (index : Nat) :
    log'.entry index = (log.entry index).or (if e.index = index then some e else none) := by
  unfold appendWithSync at h
  split at h
  · cases h
    rw [entry_eq_find?, entry_eq_find?, find?_append, find?_singleton]
    simp
  · cases h

theorem written_appendWithSync : log'.written = log.written ++ [e] := by
  unfold appendWithSync at h
  split at h
  · cases h
    rfl
  · cases h

theorem shardId_appendWithSync : log'.shardId = log.shardId := by
  unfold appendWithSync at h
  split at h
  · cases h
    rfl
  · cases h

end

theorem entry_truncateFrom (log : SegmentedShardLog C) (bound index : Nat) :
    (log.truncateFrom bound).entry index = if index < bound then log.entry index else none := by
  rw [entry_eq_find?, entry_eq_find?, ← head?_filter, ← head?_filter]
  unfold truncateFrom replayFrom
  rw [filter_filter, filter_filter, log.filter_bySegment (by grind)]
  split
  · congr 2
    funext e
    grind
  · rw [filter_eq_nil_iff.mpr (by grind), head?_nil]

end SegmentedShardLog

end Neo4r.Storage
