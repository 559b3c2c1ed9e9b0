/-
  `Storage.EntryCodec`: the bytes of a log entry (`neo4r-storage/src/codec.rs`).

  Entries are written in the third version of their format and read in any of the three.  The
  bytes of the command are a block with a length before it; how a command is written is left
  to a codec of its own.
-/
import Neo4r.Db.Error
import Neo4r.Foundation.Framing

set_option autoImplicit false

namespace Neo4r.Storage

open Foundation Foundation.Framing Fallible

variable {C : Type}

/-- `encode_command` and `decode_command`.  `Encodable` says that a command is a value of the
source's types. -/
structure CommandCodec (C : Type) where
  encode : C → Bytes
  decode : Bytes → Except StorageError C
  Encodable : C → Prop
  decode_encode : ∀ command, Encodable command → (encode command).length < 2 ^ 32 →
    decode (encode command) = .ok command

/-- `encode_log_entry` and `decode_log_entry`. -/
structure EntryCodec (C : Type) where
  encode : LogEntry C → Bytes
  decode : Bytes → Except StorageError (LogEntry C)
  Encodable : LogEntry C → Prop
  decode_encode : ∀ entry, Encodable entry → (encode entry).length < 2 ^ 32 →
    decode (encode entry) = .ok entry

/-! ## Reading -/

/-- `Reader`, by the bytes that are left. -/
abbrev Reader (α : Type) := Fallible StorageError Bytes α

/-- `read_exact`. -/
def readExact (length : Nat) : Reader Bytes :=
  ⟨fun input =>
    if input.length < length then (.error (.corruptLog "truncated payload"), input)
    else (.ok (input.take length), input.drop length)⟩

/-- `read_u32`. -/
def readU32 : Reader Nat := do
  let bytes ← readExact 4
  pure (fromBeBytes bytes)

/-- `read_u64`. -/
def readU64 : Reader Nat := do
  let bytes ← readExact 8
  pure (fromBeBytes bytes)

/-- `finish`. -/
def finish : Reader Unit :=
  lookup fun input =>
    if input.length = 0 then .ok () else .error (.corruptLog "trailing bytes")

theorem readExact_append (bytes rest : Bytes) :
    (readExact bytes.length).run (bytes ++ rest) = (.ok bytes, rest) := by
  rw [readExact]
  dsimp only
  rw [if_neg (by rw [List.length_append]; omega), List.take_left, List.drop_left]

theorem readU32_append {n : Nat} (h : n < 2 ^ 32) (rest : Bytes) :
    readU32.run (beBytes 4 n ++ rest) = (.ok n, rest) := by
  have hread := readExact_append (beBytes 4 n) rest
  rw [length_beBytes] at hread
  rw [readU32, run_bind_of_ok hread, run_pure, fromBeBytes_beBytes h]

theorem readU64_append {n : Nat} (h : n < 2 ^ 64) (rest : Bytes) :
    readU64.run (beBytes 8 n ++ rest) = (.ok n, rest) := by
  have hread := readExact_append (beBytes 8 n) rest
  rw [length_beBytes] at hread
  rw [readU64, run_bind_of_ok hread, run_pure, fromBeBytes_beBytes h]

/-! ## Entries -/

/-- `LOG_ENTRY_V2_MAGIC`. -/
def logEntryV2Magic : Bytes := [78, 52, 82, 76, 69, 50, 10]

/-- `LOG_ENTRY_V3_MAGIC`. -/
def logEntryV3Magic : Bytes := [78, 52, 82, 76, 69, 51, 10]

namespace CommandCodec

variable (codec : CommandCodec C)

/-- `encode_log_entry`. -/
def encodeLogEntry (entry : LogEntry C) : Bytes :=
  logEntryV3Magic ++ (beBytes 8 entry.shardId ++ (beBytes 8 entry.term ++
    (beBytes 8 entry.index ++ (beBytes 8 entry.originServerId ++ (beBytes 8 entry.configVersion ++
      (beBytes 8 entry.timestamp.physicalMs ++ (beBytes 4 entry.timestamp.logical ++
        (beBytes 4 (codec.encode entry.command).length ++ codec.encode entry.command))))))))

/-- The block of the command, at the end of an entry. -/
def readCommand : Reader C := do
  let commandLen ← readU32
  let bytes ← readExact commandLen
  let command ← lookup fun _ => codec.decode bytes
  finish
  pure command

/-- `decode_log_entry_v3`. -/
def decodeLogEntryV3 : Reader (LogEntry C) := do
  let shardId ← readU64
  let term ← readU64
  let index ← readU64
  let originServerId ← readU64
  let configVersion ← readU64
  let physicalMs ← readU64
  let logical ← readU32
  let command ← codec.readCommand
  pure (.newWithMetadata shardId term index originServerId configVersion ⟨physicalMs, logical⟩
    command)

/-- `decode_log_entry_v2`. -/
def decodeLogEntryV2 : Reader (LogEntry C) := do
  let shardId ← readU64
  let term ← readU64
  let index ← readU64
  let physicalMs ← readU64
  let logical ← readU32
  let command ← codec.readCommand
  pure (.newWithTimestamp shardId term index ⟨physicalMs, logical⟩ command)

/-- `decode_log_entry_v1`. -/
def decodeLogEntryV1 : Reader (LogEntry C) := do
  let shardId ← readU64
  let term ← readU64
  let index ← readU64
  let command ← codec.readCommand
  pure (.new shardId term index command)

/-- `decode_log_entry`. -/
def decodeLogEntry (input : Bytes) : Except StorageError (LogEntry C) :=
  if input.take 7 = logEntryV3Magic then (codec.decodeLogEntryV3.run (input.drop 7)).1
  else if input.take 7 = logEntryV2Magic then (codec.decodeLogEntryV2.run (input.drop 7)).1
  else (codec.decodeLogEntryV1.run input).1

/-- The entry is a value of the source's types. -/
structure EncodableEntry (entry : LogEntry C) : Prop where
  shardId : entry.shardId < 2 ^ 64
  term : entry.term < 2 ^ 64
  index : entry.index < 2 ^ 64
  originServerId : entry.originServerId < 2 ^ 64
  configVersion : entry.configVersion < 2 ^ 64
  physicalMs : entry.timestamp.physicalMs < 2 ^ 64
  logical : entry.timestamp.logical < 2 ^ 32
  command : codec.Encodable entry.command

variable {codec}

theorem readCommand_append {cmd : C} (h : codec.Encodable cmd)
    (hlen : (codec.encode cmd).length < 2 ^ 32) :
    codec.readCommand.run (beBytes 4 (codec.encode cmd).length ++ codec.encode cmd) =
      (.ok cmd, []) := by
  have hblock := readExact_append (codec.encode cmd) []
  rw [List.append_nil] at hblock
  rw [readCommand, run_bind_of_ok (readU32_append hlen _), run_bind_of_ok hblock, run_bind,
    codec.decode_encode cmd h hlen]
  rfl

/-- **An entry is read as it was written**, if its command fits into the block. -/
theorem decodeLogEntry_encodeLogEntry {entry : LogEntry C} (h : codec.EncodableEntry entry)
    (hlength : (codec.encode entry.command).length < 2 ^ 32) :
    codec.decodeLogEntry (codec.encodeLogEntry entry) = .ok entry := by
  have hmagic : (codec.encodeLogEntry entry).take 7 = logEntryV3Magic := List.take_left' rfl
  have hlen : logEntryV3Magic.length = 7 := rfl
  rw [decodeLogEntry, encodeLogEntry, List.drop_left' hlen, decodeLogEntryV3,
    run_bind_of_ok (readU64_append h.shardId _), run_bind_of_ok (readU64_append h.term _),
    run_bind_of_ok (readU64_append h.index _), run_bind_of_ok (readU64_append h.originServerId _),
    run_bind_of_ok (readU64_append h.configVersion _),
    run_bind_of_ok (readU64_append h.physicalMs _), run_bind_of_ok (readU32_append h.logical _),
    run_bind_of_ok (readCommand_append h.command hlength)]
  rfl

theorem length_encode_lt (entry : LogEntry C) :
    (codec.encode entry.command).length < (codec.encodeLogEntry entry).length := by
  simp only [encodeLogEntry, List.length_append, length_beBytes]
  omega

/-- The codec of entries over a codec of commands. -/
def entryCodec (codec : CommandCodec C) : EntryCodec C where
  encode := codec.encodeLogEntry
  decode := codec.decodeLogEntry
  Encodable := codec.EncodableEntry
  decode_encode entry h hlength :=
    decodeLogEntry_encodeLogEntry h ((length_encode_lt entry).trans hlength)

end CommandCodec

end Neo4r.Storage
