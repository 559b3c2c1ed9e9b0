/-
  `Storage.LogFiles`: the files of the segmented log (`neo4r-storage/src/log.rs`).

  Here the log is what is on the disk: directories of segment files, each a header and records
  with a length before each.  The operations are scripts whose steps are the smallest that a
  crash can fall between, a byte that is written or a directory that is renamed.  `Represents`
  ties the files to the log of `Storage.ShardLog`, which holds entries.
-/
import Neo4r.Foundation.Script
import Neo4r.Storage.EntryCodec
import Neo4r.Storage.ShardLog

set_option autoImplicit false

namespace Neo4r.Storage

open Foundation Foundation.Framing Function Fallible List

variable {C : Type}

/-! ## The directories of a shard -/

/-- The directory of the segments, and the two that `truncate_from` uses besides. -/
inductive LogDirectory
  | segments
  | tmp
  | old
  deriving DecidableEq, Repr

/-- The segment files of a directory, by their first index. -/
abbrev SegmentFiles := Finmap fun _ : Nat => Bytes

/-- The directories that are there. -/
abbrev ShardDirectory := LogDirectory → Option SegmentFiles

abbrev FileScript := Script StorageError ShardDirectory

/-- The error of an access to a directory that is not there. -/
def notFound : StorageError := .io "No such file or directory (os error 2)"

variable (dir : LogDirectory)

/-- A change of the files of a directory. -/
def onFiles (f : SegmentFiles → SegmentFiles) :
    Fallible StorageError ShardDirectory Unit :=
  ⟨fun s => match s dir with
    | none => (.error notFound, s)
    | some files => (.ok (), update s dir (some (f files)))⟩

/-- What a file holds. -/
def contentOf (files : SegmentFiles) (start : Nat) : Bytes := (files.lookup start).getD []

/-- The content of a file. -/
def content (start : Nat) : Fallible StorageError ShardDirectory Bytes :=
  lookup fun s => match s dir with
    | none => .error notFound
    | some files => .ok (contentOf files start)

/-- A file is created if it is not there. -/
def createFile (start : Nat) : Fallible StorageError ShardDirectory Unit :=
  onFiles dir fun files => files.insert start (contentOf files start)

/-- A byte at the end of a file. -/
def appendByte (start : Nat) (byte : UInt8) :
    Fallible StorageError ShardDirectory Unit :=
  onFiles dir fun files => files.insert start (contentOf files start ++ [byte])

/-- `write_all`. -/
def writeAll (start : Nat) (bytes : Bytes) : FileScript :=
  Script.forEach (fun byte => .step (appendByte dir start byte) fun _ => .done) bytes

/-- `fs::remove_dir_all`, file by file. -/
def removeDirAll : FileScript :=
  .step current fun s =>
    (Script.forEach (fun start => .step (onFiles dir fun files => files.erase start) fun _ => .done)
      (((s dir).map fun files => files.keys.sort (· ≤ ·)).getD [])).andThen
    (.step (change fun s => update s dir none) fun _ => .done)

/-- `fs::rename` of a directory. -/
def rename (source target : LogDirectory) : Fallible StorageError ShardDirectory Unit :=
  ⟨fun s => match s source with
    | none => (.error notFound, s)
    | some files => (.ok (), update (update s source none) target (some files))⟩

/-! ## Records -/

/-- What does not change about a log. -/
structure LogFormat (C : Type) where
  shardId : Nat
  entriesPerSegment : Nat
  codec : EntryCodec C
  segments_pos : 0 < entriesPerSegment

/-- `MAGIC_V1`. -/
def magicV1 : Bytes := [78, 52, 82, 76, 79, 71, 49, 10]

/-- `MAGIC_V2`. -/
def magicV2 : Bytes := [78, 52, 82, 76, 79, 71, 50, 10]

/-- `validate_header`. -/
def validateHeader (content : Bytes) : Except StorageError Unit :=
  if content.length < 8 then .error (.corruptLog "missing header")
  else if content.take 8 = magicV1 ∨ content.take 8 = magicV2 then .ok ()
  else .error (.corruptLog "invalid header")

/-- The error of a record that ends early. -/
def tornError : Torn → StorageError
  | .length => .corruptLog "truncated command length"
  | .payload => .corruptLog "truncated command payload"

namespace LogFormat

variable (format : LogFormat C)

/-- `segment_start_for_index`. -/
def segmentStartForIndex (index : Nat) : Nat :=
  if index = 0 then 0 else (index - 1) / format.entriesPerSegment * format.entriesPerSegment + 1

/-- A payload is decoded, and must be of the shard. -/
def decodeOwn (payload : Bytes) : Except StorageError (LogEntry C) := do
  let entry ← format.codec.decode payload
  if entry.shardId ≠ format.shardId then .error (.wrongShard format.shardId entry.shardId)
  else .ok entry

/-- The entries of a segment file.  Opening an empty file gives it a header. -/
def readSegment (content : Bytes) : Except StorageError (List (LogEntry C)) :=
  if content = [] then .ok []
  else do
    validateHeader content
    readAll format.decodeOwn tornError (content.drop 8)

/-- `segment_paths_from`. -/
def segmentPathsFrom (startIndex : Nat) (files : SegmentFiles) : List Nat :=
  (files.keys.filter fun start => format.segmentStartForIndex startIndex ≤ start).sort (· ≤ ·)

/-- The entries that `replay_from` returns. -/
def replayFrom (startIndex : Nat) (files : SegmentFiles) :
    Except StorageError (List (LogEntry C)) := do
  let parts ← (format.segmentPathsFrom startIndex files).mapM fun start =>
    format.readSegment (contentOf files start)
  pure (parts.flatten.filter fun entry => startIndex ≤ entry.index)

/-- `open`, and a replay. -/
def reopen (s : ShardDirectory) : Except StorageError (List (LogEntry C)) :=
  format.replayFrom 0 ((s .segments).getD ∅)

/-! ## Operations -/

/-- `open_log_file`. -/
def openLogFile (dir : LogDirectory) (start : Nat) : FileScript :=
  .step (createFile dir start) fun _ => .step (content dir start) fun content =>
    if content = [] then writeAll dir start magicV2
    else .step (lookup fun _ => validateHeader content) fun _ => .done

/-- `write_payload`. -/
def writePayload (dir : LogDirectory) (start : Nat) (payload : Bytes) : FileScript :=
  if payload.length < 2 ^ 32 then
    (writeAll dir start (beBytes 4 payload.length)).andThen (writeAll dir start payload)
  else .step (fail (.corruptLog "log payload is too large") :
    Fallible StorageError ShardDirectory Unit) fun _ => .done

/-- `append_with_sync`. -/
def append (dir : LogDirectory) (entry : LogEntry C) : FileScript :=
  if entry.shardId ≠ format.shardId then
    .step (fail (.wrongShard format.shardId entry.shardId) :
      Fallible StorageError ShardDirectory Unit) fun _ => .done
  else
    (openLogFile dir (format.segmentStartForIndex entry.index)).andThen
      (writePayload dir (format.segmentStartForIndex entry.index) (format.codec.encode entry))

/-- The files that a replay opens and reads, in order. -/
def replay (dir : LogDirectory) : FileScript :=
  .step current fun s =>
    Script.forEach (fun start => (openLogFile dir start).andThen
      (.step (content dir start) fun content =>
        .step (lookup fun _ => format.readSegment content) fun _ => .done))
      (((s dir).map (format.segmentPathsFrom 0)).getD [])

/-- `truncate_from`. -/
def truncateFrom (index : Nat) : FileScript :=
  (format.replay .segments).andThen <|
  .step (lookup format.reopen) fun entries =>
  .step current fun s =>
  (if (s .tmp).isSome then removeDirAll .tmp else .done).andThen <|
  .step (change fun s => update s .tmp (some ∅)) fun _ =>
  (Script.forEach (format.append .tmp) (entries.filter fun entry => entry.index < index)).andThen <|
  .step current fun s =>
  (if (s .old).isSome then removeDirAll .old else .done).andThen <|
  .step (rename .segments .old) fun _ =>
  .step (rename .tmp .segments) fun _ =>
  removeDirAll .old

/-! ## Files and entries -/

/-- The files hold the entries of a log, those of a segment in its file.  The entries are values
of the source's types. -/
structure Represents (files : SegmentFiles) (log : SegmentedShardLog C) : Prop where
  shardId : log.shardId = format.shardId
  entriesPerSegment : log.entriesPerSegment = format.entriesPerSegment
  segment : ∀ start, format.readSegment (contentOf files start) =
    .ok (log.written.filter fun entry => format.segmentStartForIndex entry.index = start)
  encodable : ∀ entry ∈ log.written, format.codec.Encodable entry

variable {format} {files : SegmentFiles} {log : SegmentedShardLog C}

theorem readSegment_nil : format.readSegment [] = .ok [] := if_pos rfl

theorem segmentStartForIndex_mono {index index' : Nat} (h : index ≤ index') :
    format.segmentStartForIndex index ≤ format.segmentStartForIndex index' :=
  (SegmentedShardLog.empty C format.shardId format.entriesPerSegment
    format.segments_pos).segmentStartForIndex_mono h

section

variable (h : format.Represents files log)

include h

/-- A file that is not there holds no entries. -/
theorem Represents.filter_eq_nil {start : Nat} (hstart : start ∉ files) :
    (log.written.filter fun entry => format.segmentStartForIndex entry.index = start) = [] := by
  have hseg := h.segment start
  rw [contentOf, Finmap.lookup_eq_none.mpr hstart, Option.getD_none, readSegment_nil] at hseg
  exact (Except.ok.inj hseg).symm

theorem Represents.segmentStart (index : Nat) :
    log.segmentStartForIndex index = format.segmentStartForIndex index := by
  rw [SegmentedShardLog.segmentStartForIndex, h.entriesPerSegment, segmentStartForIndex]

theorem Represents.bySegment_eq :
    log.bySegment = log.written.insertionSort fun a b =>
      format.segmentStartForIndex a.index ≤ format.segmentStartForIndex b.index := by
  simp only [SegmentedShardLog.bySegment, h.segmentStart]

/-- **A replay of the files** gives the entries that the log gives. -/
theorem Represents.replayFrom (startIndex : Nat) :
    format.replayFrom startIndex files = .ok (log.replayFrom startIndex) := by
  have hparts := exceptMapM_ok (l := format.segmentPathsFrom startIndex files)
    fun start _ => h.segment start
  rw [LogFormat.replayFrom, hparts]
  refine congrArg Except.ok (@eq_of_filter_eq _
    (fun entry : LogEntry C => format.segmentStartForIndex entry.index) _ _ ?_ ?_ fun start => ?_)
  · refine Pairwise.filter _ ?_
    rw [← flatMap_def, pairwise_flatMap]
    refine ⟨fun start _ => ?_, ?_⟩
    · refine pairwise_of_forall_mem_list fun a ha b hb => ?_
      rw [mem_filter, decide_eq_true_eq] at ha hb
      exact (ha.2.trans hb.2.symm).le
    · refine (Finset.sortedLT_sort _).pairwise.imp fun hlt a ha b hb => ?_
      rw [mem_filter, decide_eq_true_eq] at ha hb
      omega
  · rw [SegmentedShardLog.replayFrom, h.bySegment_eq]
    exact (pairwise_insertionSort _ _).filter _
  · have hpaths : (format.segmentPathsFrom startIndex files).Nodup := Finset.sort_nodup _ _
    rw [← flatMap_def, filter_comm, filter_flatMap_parts hpaths,
      SegmentedShardLog.replayFrom, filter_comm, h.bySegment_eq,
      filter_insertionSort _ _ fun a b ha hb => ?_]
    · split
      · rfl
      · next hskipped =>
        symm
        rw [filter_nil, filter_eq_nil_iff]
        intro entry hentry hidx
        rw [mem_filter, decide_eq_true_eq] at hentry
        rw [decide_eq_true_eq] at hidx
        -- the segment is there, and it is not below the one of the first index
        refine hskipped ?_
        rw [segmentPathsFrom, Finset.mem_sort, Finset.mem_filter]
        refine ⟨?_, hentry.2 ▸ segmentStartForIndex_mono hidx⟩
        by_contra habsent
        have hnil := h.filter_eq_nil (Finmap.mem_keys.not.mp habsent)
        exact not_mem_nil (hnil ▸ mem_filter.mpr ⟨hentry.1, decide_eq_true hentry.2⟩)
    · rw [decide_eq_true_eq] at ha hb
      exact (ha.trans hb.symm).le

end

/-- A new log has no files. -/
theorem represents_empty : format.Represents ∅ (.empty C format.shardId format.entriesPerSegment
    format.segments_pos) where
  shardId := rfl
  entriesPerSegment := rfl
  segment start := by
    exact readSegment_nil
  encodable _ hmem := absurd hmem not_mem_nil

end LogFormat

end Neo4r.Storage
