/-
  `Storage.LogCrash`: what a crash leaves of the files of a log.

  A crash may fall between any two steps of an append or a truncation.  What it leaves in the
  directory of the segments is the log of before or of after, or a file that ends inside its
  header or a record, or, between the two renames, nothing.  The last two are not repaired when
  the log is opened again.
-/
import Neo4r.Storage.LogFiles

set_option autoImplicit false

namespace Neo4r.Storage

open Foundation Foundation.Framing Foundation.Script List LogFormat SegmentedShardLog
open Function (update update_self update_of_ne)

variable {C : Type} {format : LogFormat C} {files : SegmentFiles} {log log' : SegmentedShardLog C}
  {header : Bytes} {content : Bytes}

/-! ## Whole files -/

/-- The file is empty, or a header and whole records. -/
def Whole (content : Bytes) : Prop :=
  content = [] ∨ ∃ header payloads, (header = magicV1 ∨ header = magicV2) ∧
    (∀ payload ∈ payloads, payload.length < 2 ^ 32) ∧ content = header ++ frames payloads

theorem length_header (h : header = magicV1 ∨ header = magicV2) :
    header.length = 8 := by
  rcases h with rfl | rfl <;> rfl

namespace LogFormat

theorem validateHeader_append {bytes : Bytes} (h : header = magicV1 ∨ header = magicV2) :
    validateHeader (header ++ bytes) = .ok () := by
  have hlen := length_header h
  rw [validateHeader, if_neg (by rw [length_append]; omega), take_left' hlen]
  exact if_pos h

theorem readSegment_header {bytes : Bytes} (h : header = magicV1 ∨ header = magicV2) :
    format.readSegment (header ++ bytes) = readAll format.decodeOwn tornError bytes := by
  have hlen := length_header h
  have hne : header ++ bytes ≠ [] := by
    intro hnil
    rw [(append_eq_nil_iff.mp hnil).1] at hlen
    cases hlen
  rw [readSegment, if_neg hne, validateHeader_append h, drop_left' hlen]
  rfl

variable {entries : List (LogEntry C)}

/-- The records of a file that is read without an error. -/
theorem whole_of_readSegment (h : format.readSegment content = .ok entries) :
    Whole content := by
  rw [readSegment] at h
  split at h
  · next hempty => exact .inl hempty
  · obtain ⟨_, hvalid, hread⟩ := of_exceptBind_ok h
    obtain ⟨payloads, hsmall, hbytes, -⟩ := frames_of_readAll hread
    refine .inr ⟨content.take 8, payloads, ?_, hsmall, ?_⟩
    · rw [validateHeader] at hvalid
      split at hvalid
      · cases hvalid
      · split at hvalid
        · next hheader => exact hheader
        · cases hvalid
    · rw [← hbytes, take_append_drop]

theorem Represents.whole (h : format.Represents files log) (start : Nat) :
    Whole (contentOf files start) :=
  whole_of_readSegment (h.segment start)

/-- A replay that succeeds has read every file. -/
theorem whole_of_replay (h : format.replayFrom 0 files = .ok entries) (start : Nat) :
    Whole (contentOf files start) := by
  by_cases hmem : start ∈ files
  · obtain ⟨parts, hparts, -⟩ := of_exceptBind_ok h
    have hstart : start ∈ format.segmentPathsFrom 0 files := by
      rw [segmentPathsFrom, Finset.mem_sort, Finset.mem_filter]
      exact ⟨Finmap.mem_keys.mpr hmem, Nat.zero_le _⟩
    obtain ⟨part, hpart⟩ := exists_of_exceptMapM_ok hparts hstart
    exact whole_of_readSegment hpart
  · rw [contentOf, Finmap.lookup_eq_none.mpr hmem]
    exact .inl rfl

end LogFormat

variable {count : Nat} {payloads : List Bytes}

/-- A header that ends early. -/
theorem not_whole_header (hpos : 0 < count) (hcut : count < 8) : ¬Whole (magicV2.take count) := by
  have hlen : (magicV2.take count).length = count := by
    rw [length_take]
    exact Nat.min_eq_left hcut.le
  rintro (hempty | ⟨header, payloads, hheader, -, heq⟩)
  · rw [hempty] at hlen
    exact hpos.ne hlen
  · have hheaderLength := length_header hheader
    rw [heq, length_append] at hlen
    omega

/-- A record that ends early, after whole ones. -/
theorem not_whole_record {payload : Bytes} (hheader : header = magicV1 ∨ header = magicV2)
    (hsmall : ∀ payload ∈ payloads, payload.length < 2 ^ 32) (h : payload.length < 2 ^ 32)
    (hpos : 0 < count) (hcut : count < (frame payload).length) :
    ¬Whole (header ++ frames payloads ++ (frame payload).take count) := by
  rintro (hempty | ⟨header', payloads', hheader', hsmall', heq⟩)
  · have hlen := congrArg length hempty
    rw [length_append, length_append, length_header hheader, length_nil] at hlen
    omega
  · rw [append_assoc] at heq
    obtain ⟨-, hframes⟩ :=
      append_inj heq ((length_header hheader).trans (length_header hheader').symm)
    obtain ⟨place, htorn⟩ := @readAll_take Torn Bytes .ok id payload count h hpos hcut
    have hok : ∀ l : List Bytes, l.mapM (m := Except Torn) .ok = .ok l := fun l =>
      (exceptMapM_ok fun _ _ => rfl).trans (congrArg Except.ok (map_id l))
    have hleft :=
      @readAll_frames_append Torn Bytes .ok id ((frame payload).take count) payloads hsmall
    have hright := @readAll_frames_append Torn Bytes .ok id [] payloads' hsmall'
    rw [htorn, hok] at hleft
    rw [readAll_nil, hok, append_nil, ← hframes, hleft] at hright
    cases hright

/-! ## Writing -/

variable {dir : LogDirectory} {start : Nat} {s : ShardDirectory} {E : Prop}

theorem contentOf_insert (files : SegmentFiles) (start start' : Nat) (content : Bytes) :
    contentOf (files.insert start content) start' =
      if start' = start then content else contentOf files start' := by
  rw [contentOf]
  split
  · next heq => rw [heq, Finmap.lookup_insert, Option.getD_some]
  · next hne => rw [Finmap.lookup_insert_of_ne _ hne, contentOf]

/-- The directory with a file that holds the bytes. -/
def withContent (s : ShardDirectory) (dir : LogDirectory) (files : SegmentFiles) (start : Nat)
    (content : Bytes) : ShardDirectory :=
  update s dir (some (files.insert start content))

theorem onFiles_run (f : SegmentFiles → SegmentFiles) (h : s dir = some files) :
    (onFiles dir f).run s = (.ok (), update s dir (some (f files))) := by
  rw [onFiles]
  dsimp only
  rw [h]

theorem content_withContent (content : Bytes) :
    (Storage.content dir start).run (withContent s dir files start content) =
      (.ok content, withContent s dir files start content) := by
  rw [Storage.content, Fallible.run_lookup, withContent, update_self]
  dsimp only
  rw [contentOf_insert, if_pos rfl]

/-- **Bytes are written** one after the other. -/
theorem passes_writeAll {P : ShardDirectory → Prop} (bytes : Bytes)
    (hP : ∀ count ≤ bytes.length, P (withContent s dir files start (content ++ bytes.take count))) :
    Passes E P (fun u => u = withContent s dir files start (content ++ bytes))
      (writeAll dir start bytes) (withContent s dir files start content) := by
  -- the invariant: what is written and what is still to write are the bytes
  have hloop : Passes E P (fun u => ∃ written, written ++ [] = bytes ∧
      u = withContent s dir files start (content ++ written))
      (writeAll dir start bytes) (withContent s dir files start content) := by
    refine passes_forEach (I := fun rest u => ∃ written, written ++ rest = bytes ∧
      u = withContent s dir files start (content ++ written)) ?_ ?_ ⟨[], rfl, by rw [append_nil]⟩
    · rintro u ⟨written, rfl, rfl⟩
      have hend := hP _ (Nat.le_refl _)
      rwa [take_length, append_nil] at hend
    · rintro byte rest u ⟨written, rfl, rfl⟩
      have hfiles : withContent s dir files start (content ++ written) dir =
          some (files.insert start (content ++ written)) := update_self _ _ _
      have hrun : (appendByte dir start byte).run
          (withContent s dir files start (content ++ written)) =
            (.ok (), withContent s dir files start (content ++ (written ++ [byte]))) := by
        rw [appendByte, onFiles_run _ hfiles, contentOf_insert, if_pos rfl, withContent,
          Function.update_idem, Finmap.insert_insert, withContent, append_assoc]
      have hbefore := hP written.length (by rw [length_append]; omega)
      have hafter := hP (written.length + 1) (by rw [length_append, length_cons]; omega)
      rw [take_left' rfl] at hbefore
      rw [take_append, take_of_length_le (by omega), Nat.add_sub_cancel_left,
        take_succ_cons] at hafter
      exact passes_step hbefore hrun
        (passes_done hafter ⟨written ++ [byte], by rw [append_assoc]; rfl, rfl⟩)
  refine hloop.mono (fun _ hu => hu) ?_
  rintro u ⟨written, rfl, rfl⟩
  rw [append_nil]

/-! ## Appending -/

/-- What a directory may be left with: the files of the log, or a file that is not whole. -/
def Left (format : LogFormat C) (dir : LogDirectory) (log : SegmentedShardLog C)
    (t : ShardDirectory) : Prop :=
  ∃ files, t dir = some files ∧
    (format.Represents files log ∨ ∃ start, ¬Whole (contentOf files start))

/-- The other directories are as they were. -/
def Same (dir : LogDirectory) (s t : ShardDirectory) : Prop :=
    ∀ other, other ≠ dir → t other = s other

variable {entry : LogEntry C}

theorem same_withContent (content : Bytes) : Same dir s (withContent s dir files start content) :=
  fun _ hother => update_of_ne hother _ _

theorem left_withContent (h : format.Represents (files.insert start content) log ∨ ¬Whole content) :
    Left format dir log (withContent s dir files start content) := by
  refine ⟨_, update_self _ _ _, h.imp_right fun hcut => ⟨start, ?_⟩⟩
  rwa [contentOf_insert, if_pos rfl]

/-- A file is replaced by one with the same entries. -/
theorem LogFormat.Represents.insert (h : format.Represents files log)
    (hread : format.readSegment content = format.readSegment (contentOf files start)) :
    format.Represents (files.insert start content) log := by
  refine ⟨h.shardId, h.entriesPerSegment, fun start' => ?_, h.encodable⟩
  rw [contentOf_insert]
  split
  · next heq => rw [hread, heq, h.segment]
  · exact h.segment start'

theorem readSegment_magicV2 : format.readSegment magicV2 = .ok [] := by
  have hread := @readSegment_header C format magicV2 [] (.inr rfl)
  rw [append_nil] at hread
  rw [hread, readAll_nil]

/-- **A file is opened**: it ends with a header, if it was empty. -/
theorem passes_openLogFile (hfiles : s dir = some files) (h : format.Represents files log) :
    Passes E (fun u => Left format dir log u ∧ Same dir s u)
      (fun u => ∃ header payloads, (header = magicV1 ∨ header = magicV2) ∧
        (∀ payload ∈ payloads, payload.length < 2 ^ 32) ∧
        u = withContent s dir files start (header ++ frames payloads) ∧
        format.Represents (files.insert start (header ++ frames payloads)) log)
      (openLogFile dir start) s := by
  have hcreate : (createFile dir start).run s =
      (.ok (), withContent s dir files start (contentOf files start)) := onFiles_run _ hfiles
  have hsame : format.Represents (files.insert start (contentOf files start)) log := h.insert rfl
  have hstay : Left format dir log (withContent s dir files start (contentOf files start)) ∧
      Same dir s (withContent s dir files start (contentOf files start)) :=
    ⟨left_withContent (.inl hsame), same_withContent _⟩
  refine passes_step ⟨⟨files, hfiles, .inl h⟩, fun _ _ => rfl⟩ hcreate ?_
  refine passes_step hstay (content_withContent _) ?_
  split
  · next hempty =>
    rw [hempty] at hsame ⊢
    have hmagic : format.Represents (files.insert start magicV2) log :=
      h.insert (by rw [hempty, readSegment_magicV2, readSegment_nil])
    refine (passes_writeAll magicV2 fun count hcount => ?_).mono (fun _ hu => hu) ?_
    · refine ⟨left_withContent ?_, same_withContent _⟩
      rcases Nat.eq_zero_or_pos count with rfl | hpos
      · exact .inl hsame
      · rcases Nat.lt_or_ge count 8 with hcut | hfull
        · exact .inr (not_whole_header hpos hcut)
        · rw [take_of_length_le (show magicV2.length ≤ count from hfull)]
          exact .inl hmagic
    · rintro u rfl
      refine ⟨magicV2, [], .inr rfl, forall_mem_nil _, ?_, ?_⟩
      · exact congrArg _ (append_nil magicV2).symm
      · rwa [frames, flatMap_nil]
  · next hne =>
    have hwhole := h.whole start
    obtain ⟨header, payloads, hheader, hsmall, hcontent⟩ := hwhole.resolve_left hne
    rw [hcontent] at hsame hstay ⊢
    exact passes_step hstay (Prod.ext (validateHeader_append hheader) rfl)
      (passes_done hstay ⟨header, payloads, hheader, hsmall, rfl, hsame⟩)

theorem decodeOwn_encode (h : entry.shardId = format.shardId) (henc : format.codec.Encodable entry)
    (hlen : (format.codec.encode entry).length < 2 ^ 32) :
    format.decodeOwn (format.codec.encode entry) = .ok entry := by
  rw [decodeOwn, format.codec.decode_encode entry henc hlen]
  exact if_neg (not_not_intro h)

/-- What appending does to a log. -/
theorem appendWithSync_ok (h : log.appendWithSync entry = .ok log') :
    entry.shardId = log.shardId ∧ log'.written = log.written ++ [entry] ∧
      log'.shardId = log.shardId ∧ log'.entriesPerSegment = log.entriesPerSegment := by
  rw [appendWithSync] at h
  split at h
  · next hown =>
    cases h
    exact ⟨hown, rfl, rfl, rfl⟩
  · cases h

/-- The record of an entry at the end of its file. -/
theorem represents_append (hheader : header = magicV1 ∨ header = magicV2)
    (hsmall : ∀ payload ∈ payloads, payload.length < 2 ^ 32)
    (hentry : (format.codec.encode entry).length < 2 ^ 32)
    (hstart : start = format.segmentStartForIndex entry.index)
    (h : format.Represents (files.insert start (header ++ frames payloads)) log)
    (henc : format.codec.Encodable entry) (hlog : log.appendWithSync entry = .ok log') :
    format.Represents (files.insert start
      (header ++ frames payloads ++ frame (format.codec.encode entry))) log' := by
  obtain ⟨hown, hwritten, hshard, hsize⟩ := appendWithSync_ok hlog
  refine ⟨hshard.trans h.shardId, hsize.trans h.entriesPerSegment, fun start' => ?_, ?_⟩
  swap
  · rw [hwritten, forall_mem_append, forall_mem_singleton]
    exact ⟨h.encodable, henc⟩
  have hseg := h.segment start'
  rw [contentOf_insert] at hseg
  rw [contentOf_insert, hwritten, filter_append, filter_singleton]
  by_cases heq : start' = start
  · subst heq
    have hplain :=
      @readAll_frames_append StorageError _ format.decodeOwn tornError [] payloads hsmall
    have hrecord := @readAll_append StorageError _ format.decodeOwn tornError
      (format.codec.encode entry) [] hentry
    rw [if_pos rfl, readSegment_header hheader] at hseg
    rw [append_nil, readAll_nil, hseg] at hplain
    obtain ⟨entries, hentries, hrest⟩ := of_exceptBind_ok hplain.symm
    have hsame : entries = log.written.filter fun entry =>
        format.segmentStartForIndex entry.index = start' := by
      rw [← Except.ok.inj hrest, append_nil]
    rw [append_nil, decodeOwn_encode (hown.trans h.shardId) henc hentry, readAll_nil] at hrecord
    rw [if_pos rfl, append_assoc, readSegment_header hheader,
      readAll_frames_append hsmall, hentries, hrecord, hsame, decide_eq_true hstart.symm]
    rfl
  · rw [if_neg heq] at hseg ⊢
    rw [hseg, ← hstart, decide_eq_false (Ne.symm heq)]
    exact congrArg Except.ok (append_nil _).symm

/-- **An entry is appended**, if its record is not too large. -/
theorem passes_append (hfiles : s dir = some files) (h : format.Represents files log)
    (henc : format.codec.Encodable entry) (hlog : log.appendWithSync entry = .ok log')
    (hE : 2 ^ 32 ≤ (format.codec.encode entry).length → E) :
    Passes E (fun u => (Left format dir log u ∨ Left format dir log' u) ∧ Same dir s u)
      (fun u => ∃ files', u dir = some files' ∧ format.Represents files' log' ∧ Same dir s u)
      (format.append dir entry) s := by
  obtain ⟨hown, -⟩ := appendWithSync_ok hlog
  rw [append, if_neg (not_not_intro (hown.trans h.shardId))]
  refine Passes.andThen ((passes_openLogFile hfiles h).mono (fun u hu => ⟨.inl hu.1, hu.2⟩)
    fun _ hu => hu) ?_
  rintro u ⟨header, payloads, hheader, hsmall, rfl, hopened⟩
  have hstay : (Left format dir log (withContent s dir files
        (format.segmentStartForIndex entry.index) (header ++ frames payloads)) ∨
      Left format dir log' (withContent s dir files
        (format.segmentStartForIndex entry.index) (header ++ frames payloads))) ∧
      Same dir s (withContent s dir files
        (format.segmentStartForIndex entry.index) (header ++ frames payloads)) :=
    ⟨.inl (left_withContent (.inl hopened)), same_withContent _⟩
  rw [writePayload]
  split
  · next hpayload =>
    have happended := represents_append hheader hsmall hpayload rfl hopened henc hlog
    have hscript : (writeAll dir (format.segmentStartForIndex entry.index)
        (beBytes 4 (format.codec.encode entry).length)).andThen
          (writeAll dir (format.segmentStartForIndex entry.index) (format.codec.encode entry)) =
        writeAll dir (format.segmentStartForIndex entry.index)
          (frame (format.codec.encode entry)) := (forEach_append _ _ _).symm
    rw [hscript]
    refine (passes_writeAll _ fun count hcount => ⟨?_, same_withContent _⟩).mono (fun _ hu => hu) ?_
    · rintro u rfl
      exact ⟨_, update_self _ _ _, happended, same_withContent _⟩
    · rcases Nat.eq_zero_or_pos count with rfl | hpos
      · rw [take_zero, append_nil]
        exact hstay.1
      · rcases hcount.lt_or_eq with hcut | hfull
        · exact .inl (left_withContent (.inr (not_whole_record hheader hsmall hpayload hpos hcut)))
        · rw [hfull, take_length]
          exact .inr (left_withContent (.inl happended))
  · next hlarge => exact passes_fail hstay rfl hstay (hE (Nat.le_of_not_lt hlarge))

/-! ## Truncating -/

variable {index : Nat}

/-- What `truncate_from` may leave. -/
def LeftByTruncate (format : LogFormat C) (log log' : SegmentedShardLog C) (t : ShardDirectory) :
    Prop :=
  Left format .segments log t ∨ t .segments = none ∨ Left format .segments log' t

/-- The segments are those of the log. -/
def Holds (format : LogFormat C) (log : SegmentedShardLog C) (t : ShardDirectory) : Prop :=
  ∃ files, t .segments = some files ∧ format.Represents files log

theorem Holds.leftByTruncate {t : ShardDirectory} (h : Holds format log t) :
    LeftByTruncate format log log' t := by
  obtain ⟨files, hfiles, hrep⟩ := h
  exact .inl ⟨files, hfiles, .inl hrep⟩

/-- **A replay** leaves the entries as they are. -/
theorem passes_replay (h : Holds format log s) :
    Passes E (LeftByTruncate format log log') (Holds format log) (format.replay .segments) s := by
  refine passes_step h.leftByTruncate rfl ?_
  refine (passes_forEach (I := fun _ u => Holds format log u) (fun u hu => hu.leftByTruncate) ?_ h)
  rintro start rest u ⟨files, hfiles, hrep⟩
  refine Passes.andThen ((passes_openLogFile hfiles hrep).mono
    (fun v hv => .inl hv.1) fun _ hv => hv) ?_
  rintro v ⟨header, payloads, -, -, rfl, hopened⟩
  have hholds : Holds format log
      (withContent u .segments files start (header ++ frames payloads)) :=
    ⟨_, update_self _ _ _, hopened⟩
  have hseg := hopened.segment start
  rw [contentOf_insert, if_pos rfl] at hseg
  exact passes_step hholds.leftByTruncate (content_withContent _)
    (passes_step hholds.leftByTruncate (Prod.ext hseg rfl)
      (passes_done hholds.leftByTruncate hholds))

variable {P : ShardDirectory → Prop}

/-- The removal of a directory leaves the others alone. -/
theorem passes_removeDirAll (hP : ∀ u, Same dir s u → P u) :
    Passes E P (Same dir s) (removeDirAll dir) s := by
  have hs : Same dir s s := fun _ _ => rfl
  have hkept : ∀ {u files}, Same dir s u → Same dir s (update u dir files) := fun hu other hother =>
    (update_of_ne hother _ _).trans (hu other hother)
  refine passes_step (hP s hs) rfl ?_
  -- while there are files to remove, the directory is there
  refine Passes.andThen (passes_forEach
    (I := fun rest u => Same dir s u ∧ (rest ≠ [] → ∃ files, u dir = some files))
    (fun u hu => hP u hu.1) ?_ ⟨hs, fun hrest => ?_⟩) fun u hu => ?_
  · rintro start rest u ⟨hu, hthere⟩
    obtain ⟨files, hfiles⟩ := hthere (cons_ne_nil _ _)
    exact passes_step (hP u hu) (onFiles_run _ hfiles)
      (passes_done (hP _ (hkept hu)) ⟨hkept hu, fun _ => ⟨_, update_self _ _ _⟩⟩)
  · refine Option.ne_none_iff_exists'.mp fun hnone => hrest ?_
    rw [hnone]
    rfl
  · exact passes_step (hP u hu.1) rfl (passes_done (hP _ (hkept hu.1)) (hkept hu.1))

theorem passes_removeIfThere {there : Bool} (hP : ∀ u, Same dir s u → P u) :
    Passes E P (Same dir s) (if there then removeDirAll dir else .done) s := by
  split
  · exact passes_removeDirAll hP
  · exact passes_done (hP s fun _ _ => rfl) fun _ _ => rfl

theorem LogFormat.Represents.congr (h : format.Represents files log)
    (hwritten : log'.written = log.written) (hshard : log'.shardId = log.shardId)
    (hsize : log'.entriesPerSegment = log.entriesPerSegment) : format.Represents files log' := by
  refine ⟨hshard.trans h.shardId, hsize.trans h.entriesPerSegment, fun start => ?_, ?_⟩
  · rw [hwritten]
    exact h.segment start
  · rw [hwritten]
    exact h.encodable

/-- Entries of the shard are written to a new directory. -/
theorem passes_rewrite {retained : List (LogEntry C)}
    (hown : ∀ entry ∈ retained, entry.shardId = format.shardId ∧ format.codec.Encodable entry ∧
      (2 ^ 32 ≤ (format.codec.encode entry).length → E))
    (hs : s .tmp = some ∅) (hP : ∀ u, u .segments = s .segments → P u) :
    Passes E P (fun u => u .segments = s .segments ∧ ∃ files log₁, u .tmp = some files ∧
        format.Represents files log₁ ∧ log₁.written = retained)
      (Script.forEach (format.append .tmp) retained) s := by
  refine (passes_forEach (I := fun rest u => u .segments = s .segments ∧ ∃ files log₁,
    u .tmp = some files ∧ format.Represents files log₁ ∧ log₁.written ++ rest = retained)
    (fun u hu => hP u hu.1) ?_ ⟨rfl, ∅, _, hs, represents_empty, rfl⟩).mono (fun _ hu => hu) ?_
  · rintro entry rest u ⟨hsegs, files, log₁, hfiles, hrep, hwritten⟩
    obtain ⟨hshard, henc, hE⟩ := hown entry (hwritten ▸ mem_append_right _ (.head _))
    have hentry : entry.shardId = log₁.shardId := hshard.trans hrep.shardId.symm
    obtain ⟨log₂, hlog₂⟩ : ∃ log₂, log₁.appendWithSync entry = .ok log₂ := by
      rw [appendWithSync, dif_pos hentry]
      exact ⟨_, rfl⟩
    have hsame : ∀ v, Same .tmp u v → v .segments = s .segments := fun v hv =>
      (hv .segments (by decide)).trans hsegs
    refine (passes_append hfiles hrep henc hlog₂ hE).mono (fun v hv => hP v (hsame v hv.2)) ?_
    rintro v ⟨files', hfiles', hrep', hsame'⟩
    refine ⟨hsame v hsame', files', log₂, hfiles', hrep', ?_⟩
    rw [(appendWithSync_ok hlog₂).2.1, append_assoc]
    exact hwritten
  · rintro u ⟨hsegs, files, log₁, hfiles, hrep, hwritten⟩
    rw [append_nil] at hwritten
    exact ⟨hsegs, files, log₁, hfiles, hrep, hwritten⟩

/-- **A truncation** passes through the log of before, through no log at all, and ends in the
log of after. -/
theorem passes_truncateFrom (h : Holds format log s)
    (hE : ∀ entry ∈ log.written, 2 ^ 32 ≤ (format.codec.encode entry).length → E) :
    Passes E (LeftByTruncate format log (log.truncateFrom index))
      (Holds format (log.truncateFrom index)) (format.truncateFrom index) s := by
  refine Passes.andThen (passes_replay h) fun u hu => ?_
  obtain ⟨files, hfiles, hrep⟩ := hu
  have hbefore : ∀ v, v .segments = u .segments →
      LeftByTruncate format log (log.truncateFrom index) v := fun v hv =>
    .inl ⟨files, hv.trans hfiles, .inl hrep⟩
  have hentries : format.reopen u = .ok (log.replayFrom 0) := by
    rw [reopen, hfiles]
    exact hrep.replayFrom 0
  refine passes_step (hbefore u rfl) (Prod.ext hentries rfl) ?_
  refine passes_step (hbefore u rfl) rfl ?_
  refine Passes.andThen (passes_removeIfThere fun v hv => hbefore v (hv .segments (by decide)))
    fun v hv => ?_
  have htmp : update v .tmp (some (∅ : SegmentFiles)) .segments = u .segments :=
    (update_of_ne (by decide) _ _).trans (hv .segments (by decide))
  refine passes_step (hbefore v (hv .segments (by decide))) rfl ?_
  have hown : ∀ entry ∈ (log.replayFrom 0).filter fun entry => entry.index < index,
      entry.shardId = format.shardId ∧ format.codec.Encodable entry ∧
        (2 ^ 32 ≤ (format.codec.encode entry).length → E) := by
    intro entry hentry
    have hmem := (mem_replayFrom.mp (mem_of_mem_filter hentry)).1
    exact ⟨(log.own entry hmem).trans hrep.shardId, hrep.encodable entry hmem, hE entry hmem⟩
  refine Passes.andThen (passes_rewrite hown (update_self _ _ _)
    fun w hw => hbefore w (hw.trans htmp)) ?_
  rintro w ⟨hsegs, tmpFiles, log₁, htmpFiles, hrep₁, hwritten⟩
  have hw := hsegs.trans htmp
  have hafter : format.Represents tmpFiles (log.truncateFrom index) :=
    hrep₁.congr hwritten.symm (hrep.shardId.trans hrep₁.shardId.symm)
      (hrep.entriesPerSegment.trans hrep₁.entriesPerSegment.symm)
  refine passes_step (hbefore w hw) rfl ?_
  refine Passes.andThen (passes_removeIfThere fun x hx =>
    hbefore x ((hx .segments (by decide)).trans hw)) fun x hx => ?_
  have hx' : x .segments = some files := (hx .segments (by decide)).trans (hw.trans hfiles)
  have hxtmp : x .tmp = some tmpFiles := (hx .tmp (by decide)).trans htmpFiles
  -- the two renames, with no segments between them
  have hfirst : (rename .segments .old).run x = (.ok (), update
      (update x .segments none) .old (some files)) := by
    rw [rename]
    dsimp only
    rw [hx']
  have hgone : LeftByTruncate format log (log.truncateFrom index) (update
      (update x .segments none) .old (some files)) := .inr (.inl rfl)
  refine passes_step (hbefore x ((hx .segments (by decide)).trans hw)) hfirst ?_
  have hsecond : (rename .tmp .segments).run (update
      (update x .segments none) .old (some files)) = (.ok (), update
        (update (update (update x .segments none) .old (some files))
          .tmp none) .segments (some tmpFiles)) := by
    have htmp' : update (update x .segments none) .old (some files) .tmp = some tmpFiles := hxtmp
    rw [rename]
    dsimp only
    rw [htmp']
  have hdone : ∀ y : ShardDirectory, y .segments = some tmpFiles →
      Holds format (log.truncateFrom index) y := fun y hy => ⟨tmpFiles, hy, hafter⟩
  have hleft : ∀ y : ShardDirectory, y .segments = some tmpFiles →
      LeftByTruncate format log (log.truncateFrom index) y := fun y hy =>
    .inr (.inr ⟨tmpFiles, hy, .inl hafter⟩)
  refine passes_step hgone hsecond ?_
  refine (passes_removeDirAll fun y hy => hleft y ?_).mono (fun _ hy => hy) fun y hy => hdone y ?_
  · exact (hy .segments (by decide)).trans (update_self _ _ _)
  · exact (hy .segments (by decide)).trans (update_self _ _ _)

/-! ## Crashes -/

/-- The operations that write to a log. -/
inductive LogOperation (C : Type)
  | append (entry : LogEntry C)
  | truncateFrom (index : Nat)

namespace LogOperation

/-- The steps of the operation. -/
def script (format : LogFormat C) : LogOperation C → FileScript
  | .append entry => format.append .segments entry
  | .truncateFrom index => format.truncateFrom index

/-- The log after the operation. -/
def result (log : SegmentedShardLog C) : LogOperation C → SegmentedShardLog C
  | .append entry => (log.appendWithSync entry).toOption.getD log
  | .truncateFrom index => log.truncateFrom index

/-- An entry that is appended is a value of the source's types. -/
def Encodable (format : LogFormat C) : LogOperation C → Prop
  | .append entry => format.codec.Encodable entry
  | .truncateFrom _ => True

end LogOperation

variable {t : ShardDirectory} {op : LogOperation C}

/-- **What a crash inside an operation leaves.** -/
theorem left_of_crash (h : Holds format log s) (hop : op.Encodable format)
    (ht : t ∈ (op.script format).visits s) : LeftByTruncate format log (op.result log) t := by
  cases op with
  | append entry =>
    obtain ⟨files, hfiles, hrep⟩ := id h
    cases hlog : log.appendWithSync entry with
    | ok log' =>
      have hres : LogOperation.result log (.append entry) = log' := by
        rw [LogOperation.result, hlog]
        rfl
      rw [hres]
      rcases ((passes_append hfiles hrep hop hlog fun _ => trivial).1 t ht).1 with hleft | hleft
      · exact .inl hleft
      · exact .inr (.inr hleft)
    | error =>
      have hother : entry.shardId ≠ format.shardId := by
        rw [← hrep.shardId]
        intro hown
        rw [appendWithSync, dif_pos hown] at hlog
        cases hlog
      rw [LogOperation.script, append, if_pos hother] at ht
      have hsame : t = s := by
        rcases mem_cons.mp ht with hsame | hsame
        · exact hsame
        · exact mem_singleton.mp hsame
      rw [hsame]
      exact h.leftByTruncate
  | truncateFrom => exact (passes_truncateFrom h fun _ _ _ => trivial).1 t ht

/-- An append that is not cut short. -/
theorem Holds.append (h : Holds format log s) (hown : entry.shardId = format.shardId)
    (henc : format.codec.Encodable entry) (hsmall : (format.codec.encode entry).length < 2 ^ 32) :
    ∃ disk, (format.append .segments entry).run.run s = (.ok (), disk) ∧
      Holds format ((LogOperation.append entry).result log) disk := by
  obtain ⟨files, hfiles, hrep⟩ := h
  have hlog : log.appendWithSync entry = .ok _ := dif_pos (hown.trans hrep.shardId.symm)
  obtain ⟨-, disk, hrun, files', hfiles', hrep', -⟩ := completes_iff.mpr
    (passes_append hfiles hrep henc hlog fun hlarge => absurd hsmall (Nat.not_lt.mpr hlarge))
  refine ⟨disk, hrun, files', hfiles', ?_⟩
  rw [LogOperation.result, hlog]
  exact hrep'

theorem reopen_of_represents (hfiles : t .segments = some files) (h : format.Represents files log) :
    format.reopen t = .ok (log.replayFrom 0) := by
  rw [reopen, hfiles]
  exact h.replayFrom 0

/-- **A log survives a crash** exactly if the crash leaves no file that ends inside its header or
a record, and does not fall between the renames of a truncation, where an empty log is found. -/
theorem crash_recovers_iff (h : Holds format log s) (hop : op.Encodable format)
    (ht : t ∈ (op.script format).visits s) :
    (format.reopen t = .ok (log.replayFrom 0) ∨
        format.reopen t = .ok ((op.result log).replayFrom 0)) ↔
      (∀ start, Whole (contentOf ((t .segments).getD ∅) start)) ∧
        (t .segments = none → log.replayFrom 0 = [] ∨ (op.result log).replayFrom 0 = []) := by
  have hnone : t .segments = none → format.reopen t = .ok [] := by
    intro hgone
    rw [reopen, hgone]
    exact represents_empty.replayFrom 0
  constructor
  · intro hrecovers
    refine ⟨fun start => ?_, fun hgone => ?_⟩
    · rcases hrecovers with hok | hok <;> exact whole_of_replay hok start
    · rw [hnone hgone] at hrecovers
      exact hrecovers.imp (fun hok => (Except.ok.inj hok).symm) fun hok => (Except.ok.inj hok).symm
  · rintro ⟨hwhole, hgone⟩
    have hread : ∀ log₁, Left format .segments log₁ t →
      format.reopen t = .ok (log₁.replayFrom 0) := by
      rintro log₁ ⟨files, hfiles, hrep | ⟨start, hcut⟩⟩
      · exact reopen_of_represents hfiles hrep
      · rw [hfiles] at hwhole
        exact absurd (hwhole start) hcut
    rcases left_of_crash h hop ht with hleft | hmissing | hleft
    · exact .inl (hread log hleft)
    · rw [hnone hmissing]
      exact (hgone hmissing).imp (fun hnil => by rw [hnil]) fun hnil => by rw [hnil]
    · exact .inr (hread _ hleft)

/-- Commands of one kind. -/
def unitCodec : CommandCodec Unit where
  encode _ := [0]
  decode bytes := if bytes = [0] then .ok () else .error (.corruptLog "unknown command tag")
  Encodable _ := True
  decode_encode _ _ _ := rfl

/-- The log of shard 0 with two entries in a segment. -/
def unitFormat : LogFormat Unit := ⟨0, 2, unitCodec.entryCodec, by decide⟩

/-- The first entry of the log. -/
def firstEntry : LogEntry Unit := .new 0 1 1 ()

/-- The directories of a log that was just opened. -/
def newDirectory : ShardDirectory := update (fun _ => none) .segments (some ∅)

theorem encodable_firstEntry : unitFormat.codec.Encodable firstEntry :=
  ⟨by decide, by decide, by decide, by decide, by decide, by decide, by decide, trivial⟩

/-- The directories after the first append. -/
def oneEntry : ShardDirectory := ((unitFormat.append .segments firstEntry).run.run newDirectory).2

/-- An entry of the log. -/
def unitEntry (index : Nat) : LogEntry Unit := .new 0 1 index ()

theorem encodable_unitEntry {index : Nat} (h : index < 2 ^ 64) :
    unitFormat.codec.Encodable (unitEntry index) :=
  ⟨encodable_firstEntry.shardId, encodable_firstEntry.term, h, encodable_firstEntry.originServerId,
    encodable_firstEntry.configVersion, encodable_firstEntry.physicalMs,
    encodable_firstEntry.logical, trivial⟩

/-- The same log with four entries in a segment. -/
def longSegments : LogFormat Unit :=
  { unitFormat with entriesPerSegment := 4, segments_pos := Nat.succ_pos 3 }

/-- The log with entries of these indexes. -/
def unitLog (indexes : List Nat) : SegmentedShardLog Unit :=
  indexes.foldl (fun log index => (LogOperation.append (unitEntry index)).result log)
    (empty Unit 0 4 longSegments.segments_pos)

/-- The directories of that log. -/
def unitDisk (indexes : List Nat) : ShardDirectory :=
  indexes.foldl (fun s index => ((longSegments.append .segments (unitEntry index)).run.run s).2)
    newDirectory

theorem holds_unitLog {indexes : List Nat} (h : ∀ index ∈ indexes, index < 2 ^ 64 ∧
    (longSegments.codec.encode (unitEntry index)).length < 2 ^ 32) :
    Holds longSegments (unitLog indexes) (unitDisk indexes) := by
  induction indexes using List.reverseRecOn with
  | nil => exact ⟨∅, rfl, represents_empty⟩
  | append_singleton indexes index ih =>
    have hindex := h index (mem_append_right _ mem_cons_self)
    obtain ⟨disk, hrun, hholds⟩ := (ih fun i hi => h i (mem_append_left _ hi)).append rfl
      (encodable_unitEntry hindex.1) hindex.2
    unfold unitLog unitDisk at *
    rw [foldl_append, foldl_append, foldl_cons, foldl_nil, foldl_cons, foldl_nil, hrun]
    exact hholds

/-- A truncation of three entries, with a crash inside a record that it writes to the temporary
directory. -/
theorem crash_recovers_tornTruncation :
    ∃ t ∈ ((LogOperation.truncateFrom 3).script longSegments).visits (unitDisk [1, 2, 3]),
      (longSegments.replayFrom 0 ((t .tmp).getD ∅)).toOption = none ∧
      (longSegments.reopen t = .ok ((unitLog [1, 2, 3]).replayFrom 0) ∨
        longSegments.reopen t =
          .ok (((LogOperation.truncateFrom 3).result (unitLog [1, 2, 3])).replayFrom 0)) := by
  have hholds : Holds longSegments (unitLog [1, 2, 3]) (unitDisk [1, 2, 3]) :=
    holds_unitLog (by decide)
  have hop : (LogOperation.truncateFrom 3).Encodable longSegments := trivial
  obtain ⟨t, ht, htorn, hthere, hread⟩ :
      ∃ t ∈ ((LogOperation.truncateFrom 3).script longSegments).visits (unitDisk [1, 2, 3]),
        (longSegments.replayFrom 0 ((t .tmp).getD ∅)).toOption = none ∧ (t .segments).isSome ∧
          longSegments.reopen t = .ok [unitEntry 1, unitEntry 2, unitEntry 3] := by
    decide +kernel
  refine ⟨t, ht, htorn, (crash_recovers_iff hholds hop ht).mpr
    ⟨fun start => whole_of_replay hread start, fun hnone => ?_⟩⟩
  rw [hnone] at hthere
  cases hthere

/-- **A crash loses the log.** One byte of the length of the first record makes the log unreadable,
and a truncation above every entry that stops between its two renames leaves no entry. -/
theorem crash_loses_log :
    (∃ t ∈ (unitFormat.append .segments firstEntry).visits newDirectory,
        (unitFormat.reopen t).toOption = none) ∧
      (unitFormat.reopen oneEntry).toOption = some [firstEntry] ∧
      ∃ t ∈ (unitFormat.truncateFrom 2).visits oneEntry,
        (unitFormat.reopen t).toOption = some [] := by
  refine ⟨?_, ?_, ?_⟩
  · decide +kernel
  · decide +kernel
  · decide +kernel

end Neo4r.Storage
