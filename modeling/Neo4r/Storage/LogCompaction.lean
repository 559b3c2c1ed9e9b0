/-
  `Storage.LogCompaction`: whole runs of the segmented log (`neo4r-storage/src/log.rs`).

  Entries are appended in the order of their indexes, the log is truncated, and the files that
  `compaction_candidates_before` returns are deleted.  Beside the files the state has the entries
  that the log is meant to hold, and the invariant is that a replay of the files finds them.
-/
import Neo4r.Foundation.Machine
import Neo4r.Storage.LogCrash

set_option autoImplicit false

namespace Neo4r.Storage

open Foundation Foundation.Script List SegmentedShardLog

variable {C : Type} (format : LogFormat C)

namespace LogFormat

/-- `compaction_candidates_before`. -/
def compactionCandidatesBefore (retainedIndex : Nat) (files : SegmentFiles) : List Nat :=
  (files.keys.filter fun start => start < format.segmentStartForIndex retainedIndex).sort (· ≤ ·)

/-- The files that a compaction may delete are deleted. -/
def compact (retainedIndex : Nat) : FileScript :=
  .step (onFiles .segments fun files =>
    (format.compactionCandidatesBefore retainedIndex files).foldl (·.erase ·) files) fun _ => .done

end LogFormat

/-- The calls that change a log. -/
inductive LogCall (C : Type)
  | append (entry : LogEntry C)
  | truncateFrom (index : Nat)
  | compact (retainedIndex : Nat)

/-- The directories of a log, and the entries that were appended and neither truncated nor in a
segment that was deleted. -/
structure LogRun (C : Type) where
  disk : ShardDirectory
  retained : List (LogEntry C)

namespace LogRun

/-- The steps of a call. -/
def script : LogCall C → FileScript
  | .append entry => format.append .segments entry
  | .truncateFrom index => format.truncateFrom index
  | .compact retainedIndex => format.compact retainedIndex

/-- The entries that are left by a call. -/
def retain (s : LogRun C) : LogCall C → List (LogEntry C)
  | .append entry => s.retained ++ [entry]
  | .truncateFrom index => s.retained.filter fun entry => entry.index < index
  | .compact retainedIndex => s.retained.filter fun entry =>
    format.segmentStartForIndex entry.index ∉
      format.compactionCandidatesBefore retainedIndex ((s.disk .segments).getD ∅)

/-- Entries of the shard are appended, after those that the log holds. -/
def Allowed (s : LogRun C) : LogCall C → Prop
  | .append entry => entry.shardId = format.shardId ∧ format.codec.Encodable entry ∧
    (format.codec.encode entry).length < 2 ^ 32 ∧ ∀ e ∈ s.retained, e.index < entry.index
  | .truncateFrom _ => True
  | .compact _ => True

/-- A log that was just opened, and calls one after the other. -/
def machine : Machine (LogRun C) (LogCall C) where
  init s := s.disk .segments = some ∅ ∧ s.retained = []
  enabled := Allowed format
  next s call := ⟨((script format call).run.run s.disk).2, s.retain format call⟩

/-- The files hold the entries, in the order of their indexes. -/
structure Inv (s : LogRun C) : Prop where
  holds : ∃ log, Holds format log s.disk ∧ log.written = s.retained
  ordered : s.retained.Pairwise fun entry later => entry.index < later.index
  small : ∀ entry ∈ s.retained, (format.codec.encode entry).length < 2 ^ 32

variable {format} {s : LogRun C} {call : LogCall C} {files : SegmentFiles}

theorem lookup_foldl_erase (starts : List Nat) (start : Nat) :
    (starts.foldl (·.erase ·) files).lookup start =
      if start ∈ starts then none else files.lookup start := by
  induction starts generalizing files with
  | nil => rfl
  | cons first rest ih =>
    rw [foldl_cons, ih]
    by_cases hfirst : start = first
    · subst hfirst
      simp [Finmap.lookup_erase]
    · simp [hfirst, Finmap.lookup_erase_ne]

/-- A log without the segments of some files. -/
def without (log : SegmentedShardLog C) (format : LogFormat C) (starts : List Nat) :
    SegmentedShardLog C :=
  { log with
    written := log.written.filter fun entry => format.segmentStartForIndex entry.index ∉ starts
    own := fun e he => log.own e (mem_of_mem_filter he) }

theorem represents_without {log : SegmentedShardLog C} (h : format.Represents files log)
    (starts : List Nat) :
    format.Represents (starts.foldl (·.erase ·) files) (without log format starts) where
  shardId := h.shardId
  entriesPerSegment := h.entriesPerSegment
  segment start := by
    rw [contentOf, lookup_foldl_erase, without, filter_filter]
    by_cases hstart : start ∈ starts
    · rw [if_pos hstart, Option.getD_none, LogFormat.readSegment_nil, filter_eq_nil_iff.mpr]
      grind
    · rw [if_neg hstart]
      refine (h.segment start).trans (congrArg Except.ok (filter_congr fun entry _ => ?_))
      grind
  encodable entry hentry := h.encodable entry (mem_of_mem_filter hentry)

/-- What every call does: it succeeds, and the files hold the entries that are left. -/
theorem Inv.succeeds (h : s.Inv format) (hallowed : s.Allowed format call) :
    ∃ disk, (script format call).run.run s.disk = (.ok (), disk) ∧
      ∃ log, Holds format log disk ∧ log.written = s.retain format call := by
  obtain ⟨log, ⟨files, hfiles, hrep⟩, hwritten⟩ := h.holds
  cases call with
  | append entry =>
    obtain ⟨hown, hencodable, hsmall, -⟩ := hallowed
    obtain ⟨disk, hrun, hdisk⟩ := Holds.append ⟨files, hfiles, hrep⟩ hown hencodable hsmall
    refine ⟨disk, hrun, _, hdisk, ?_⟩
    have hlog : log.appendWithSync entry = .ok _ := dif_pos (hown.trans hrep.shardId.symm)
    rw [LogOperation.result, hlog]
    exact congrArg (· ++ [entry]) hwritten
  | truncateFrom index =>
    have hsmall : ∀ entry ∈ log.written, 2 ^ 32 ≤ (format.codec.encode entry).length → False :=
      fun entry hentry => Nat.not_le.mpr (h.small entry (hwritten ▸ hentry))
    have hpasses : Passes False _ _ (format.truncateFrom index) s.disk :=
      passes_truncateFrom ⟨files, hfiles, hrep⟩ hsmall
    obtain ⟨-, disk, hrun, hdisk⟩ := completes_iff.mpr hpasses
    refine ⟨disk, hrun, _, hdisk, ?_⟩
    dsimp only [truncateFrom, retain]
    rw [replayFrom_of_ordered (hwritten ▸ h.ordered), hwritten]
    simp
  | compact =>
    refine ⟨_, Fallible.run_bind_of_ok (onFiles_run _ hfiles), _,
      ⟨_, Function.update_self _ _ _, represents_without hrep _⟩, ?_⟩
    simp only [without, retain, hwritten, hfiles, Option.getD_some]

theorem Inv.next (h : s.Inv format) (hallowed : s.Allowed format call) :
    ((machine format).next s call).Inv format := by
  have hholds : ∃ log, Holds format log ((machine format).next s call).disk ∧
      log.written = s.retain format call := by
    obtain ⟨disk, hrun, hdisk⟩ := h.succeeds hallowed
    dsimp only [machine]
    rwa [hrun]
  cases call with
  | append =>
    obtain ⟨-, -, hsmall, hlast⟩ := hallowed
    refine ⟨hholds, pairwise_append.mpr ⟨h.ordered, pairwise_singleton _ _, ?_⟩,
      forall_mem_append.mpr ⟨h.small, forall_mem_singleton.mpr hsmall⟩⟩
    simpa using hlast
  | truncateFrom | compact =>
    exact ⟨hholds, h.ordered.filter _, fun e he => h.small e (mem_of_mem_filter he)⟩

theorem inv_of_reachable (h : (machine format).Reachable s) : s.Inv format := by
  refine h.invariant ?_ fun _ _ _ ht hallowed => ht.next hallowed
  rintro ⟨disk, _⟩ ⟨hdisk, rfl⟩
  exact ⟨⟨_, ⟨∅, hdisk, LogFormat.represents_empty⟩, rfl⟩, .nil, forall_mem_nil _⟩

/-- **The segmented log** holds, in the order of their indexes, exactly the entries that were
appended and neither truncated nor in a deleted segment.  Every call succeeds, and a compaction
keeps every entry from the retained index on. -/
theorem replayFrom_of_reachable (h : (machine format).Reachable s) :
    (∀ startIndex, format.replayFrom startIndex ((s.disk .segments).getD ∅) =
        .ok (s.retained.filter fun entry => startIndex ≤ entry.index)) ∧
      (s.retained.Pairwise fun entry later => entry.index < later.index) ∧
      (∀ call, s.Allowed format call → ((script format call).run.run s.disk).1 = .ok ()) ∧
      ∀ retainedIndex, ∀ entry ∈ s.retained, retainedIndex ≤ entry.index →
        entry ∈ s.retain format (.compact retainedIndex) := by
  have hinv := inv_of_reachable h
  refine ⟨fun startIndex => ?_, hinv.ordered, fun call hallowed => ?_, ?_⟩
  · obtain ⟨log, ⟨files, hfiles, hrep⟩, hwritten⟩ := hinv.holds
    rw [hfiles, Option.getD_some, hrep.replayFrom,
      replayFrom_of_ordered (hwritten ▸ hinv.ordered), hwritten]
  · obtain ⟨disk, hrun, -⟩ := hinv.succeeds hallowed
    rw [hrun]
  · intro retainedIndex entry hentry hindex
    refine mem_filter.mpr ⟨hentry, decide_eq_true fun hcandidate => ?_⟩
    rw [LogFormat.compactionCandidatesBefore, Finset.mem_sort, Finset.mem_filter] at hcandidate
    exact absurd (LogFormat.segmentStartForIndex_mono hindex) (Nat.not_le.mpr hcandidate.2)

/-- Five entries in three segments; the first segment is compacted away, and the last entry is
truncated and appended again. -/
def threeSegments : List (LogCall Unit) :=
  [1, 2, 3, 4, 5].map (fun index => .append (unitEntry index)) ++
    [.compact 4, .truncateFrom 5, .append (unitEntry 5)]

theorem allowed_unitEntry {s : LogRun Unit} {index : Nat} (h : index < 2 ^ 64 ∧
    (unitFormat.codec.encode (unitEntry index)).length < 2 ^ 32)
    (hlast : ∀ entry ∈ s.retained, entry.index < index) :
    s.Allowed unitFormat (.append (unitEntry index)) :=
  ⟨rfl, encodable_unitEntry h.1, h.2, hlast⟩

theorem replayFrom_threeSegments :
    let s := (machine unitFormat).run ⟨newDirectory, []⟩ threeSegments
    unitFormat.replayFrom 1 ((s.disk .segments).getD ∅) =
      .ok [unitEntry 3, unitEntry 4, unitEntry 5] := by
  intro s
  have hstart : (machine unitFormat).Reachable ⟨newDirectory, []⟩ := .start ⟨rfl, rfl⟩
  have hallowed : (machine unitFormat).Admissible ⟨newDirectory, []⟩ threeSegments :=
    ⟨allowed_unitEntry (by decide) (by decide +kernel),
      allowed_unitEntry (by decide) (by decide +kernel),
      allowed_unitEntry (by decide) (by decide +kernel),
      allowed_unitEntry (by decide) (by decide +kernel),
      allowed_unitEntry (by decide) (by decide +kernel), trivial, trivial,
      allowed_unitEntry (by decide) (by decide +kernel), trivial⟩
  have hretained : s.retained = [unitEntry 3, unitEntry 4, unitEntry 5] := by decide +kernel
  have hreplay := (replayFrom_of_reachable (hstart.run hallowed)).1 1
  rw [hretained] at hreplay
  exact hreplay

end LogRun

end Neo4r.Storage
