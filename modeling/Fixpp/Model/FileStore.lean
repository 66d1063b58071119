import Fixpp.Foundation.RecordLog
import Fixpp.Model.StoreCalls

/-!
# The file store

A store keeps its frames in a log: a sentinel that names the session, then frame records and
counter records. Opening a log reads it from the front and cuts a torn tail off. `store()` and an
incrementing `next_seqnum()` append records and cut the log back when a step fails; a reset
writes a fresh log beside the live one and renames it over. The checksum is a parameter.
-/

namespace Fixpp.Model

open Foundation

/-- The `width` low bytes of a number, the lowest first. -/
def littleEndian : ℕ → ℕ → Bytes
  | 0, _ => []
  | width + 1, n => UInt8.ofNat (n % 256) :: littleEndian width (n / 256)

def ofLittleEndian : Bytes → ℕ
  | [] => 0
  | b :: rest => b.toNat + 256 * ofLittleEndian rest

/-- `pwrite` at an offset; a hole before it reads as zeros. -/
def pwrite (file : Bytes) (offset : ℕ) (bytes : Bytes) : Bytes :=
  file.take offset ++ List.replicate (offset - file.length) 0 ++ bytes ++
    file.drop (offset + bytes.length)

inductive FileStorePolicy
  | commitPerMessage
  | commitBatched (batchSize : ℕ)
  | commitByInterval
  deriving DecidableEq, Repr

/-- `FileStore::Config` with what the factory adds to it: the identity hash of the
session and the checksum function. The factory refuses a larger frame limit. -/
structure FileStoreConfig where
  maxFrameBytes : ℕ
  policy : FileStorePolicy := .commitPerMessage
  expectedHash : UInt32
  crc32c : Bytes → UInt32
  maxFrameBytes_le : maxFrameBytes ≤ 256 * 1024

def headerSize : ℕ := 16

def recordPadding (payloadLen : ℕ) : ℕ :=
  (headerSize + payloadLen + 7) / 8 * 8 - (headerSize + payloadLen)

def recordDiskSize (payloadLen : ℕ) : ℕ := headerSize + payloadLen + recordPadding payloadLen

structure LogRecord where
  kind : UInt8
  dir : UInt8
  seq : ℕ
  payload : Bytes
  deriving DecidableEq, Repr

/-- `static_cast<std::uint8_t>(dir)`. -/
def Direction.toByte : Direction → UInt8
  | .inbound => 0
  | .outbound => 1

/-- The direction as the scan tells it apart: every byte but one is outbound. -/
def Direction.ofByte (b : UInt8) : Direction := if b = 0 then .inbound else .outbound

def frameRecord (dir : Direction) (seq : ℕ) (frame : Bytes) : LogRecord :=
  ⟨0, dir.toByte, seq, frame⟩

def counterRecord (next : Direction → ℕ) : LogRecord :=
  ⟨2, 0xFF, 0, littleEndian 4 (next .inbound) ++ littleEndian 4 (next .outbound)⟩

/-- The sentinel record: magic, version, identity hash. -/
def sentinelRecord (hash : UInt32) : LogRecord :=
  ⟨1, 0xFF, 0, littleEndian 8 0x46495850535354 ++ [1, 0, 0, 0] ++ littleEndian 4 hash.toNat ++
    List.replicate 16 0⟩

namespace FileStoreConfig

variable (cfg : FileStoreConfig)

/-- The header without its checksum: `kind`, `dir`, two reserved bytes, `seq`, `len`. -/
def headerFields (r : LogRecord) : Bytes :=
  [r.kind, r.dir, 0, 0] ++ littleEndian 4 r.seq ++ littleEndian 4 r.payload.length

/-- The header with `compute_record_crc32` of its fields and the payload. -/
def header (r : LogRecord) : Bytes :=
  headerFields r ++ littleEndian 4 (cfg.crc32c (headerFields r ++ r.payload)).toNat

def padding (r : LogRecord) : Bytes := List.replicate (recordPadding r.payload.length) 0

def encode (r : LogRecord) : Bytes := cfg.header r ++ r.payload ++ padding r

/-- What the loop of `restart_scan` finds from `scan_pos` on, where `rest` is what
the file holds from there. -/
def readRecord (rest : Bytes) : Front LogRecord :=
  if rest.length < headerSize then .torn
  else
    let len := ofLittleEndian (slice rest 8 4)
    if cfg.maxFrameBytes < len then
      if headerSize < rest.length then .corrupt else .torn
    else if rest.length < recordDiskSize len then .torn
    else
      let payload := slice rest headerSize len
      if ofLittleEndian (slice rest 12 4) ≠ (cfg.crc32c (rest.take 12 ++ payload)).toNat then
        if recordDiskSize len < rest.length then .corrupt else .torn
      else
        .record ⟨rest.headD 0, (rest.drop 1).headD 0, ofLittleEndian (slice rest 4 4), payload⟩
          (recordDiskSize len)

end FileStoreConfig

/-- Where the record of a frame starts and how long its payload is. -/
structure IndexEntry where
  seq : ℕ
  fileOffset : ℕ
  len : ℕ
  deriving DecidableEq, Repr

/-- What `restart_scan` gathers: the two indexes and the last counters seen. -/
structure Scanned where
  index : Direction → List IndexEntry
  counters : Option (Direction → ℕ)

namespace Scanned

def empty : Scanned := ⟨fun _ => [], none⟩

/-- The record processing of `restart_scan`. A frame below the last number of its
direction refuses the log; a sentinel behind the first is passed over. -/
def keep (s : Scanned) (pos : ℕ) (r : LogRecord) : Option Scanned :=
  if r.kind = 0 then
    let dir := Direction.ofByte r.dir
    let entry : IndexEntry := ⟨r.seq, pos, r.payload.length⟩
    match (s.index dir).getLast? with
    | some back =>
      if r.seq < back.seq then none
      else some { s with index := Function.update s.index dir
                           (indexFrame IndexEntry.seq (s.index dir) entry) }
    | none => some { s with index := Function.update s.index dir
                              (indexFrame IndexEntry.seq (s.index dir) entry) }
  else if r.kind = 2 ∧ r.payload.length = 8 then
    some { s with counters := some (targets (ofLittleEndian (slice r.payload 0 4))
                                            (ofLittleEndian (slice r.payload 4 4))) }
  else some s

/-- The counter of a direction when the log holds no counter record. -/
def inferred (entries : List IndexEntry) : ℕ :=
  match entries.getLast? with
  | none => seqnumMin
  | some back => if 0 < back.seq then succSeqnum back.seq else seqnumMin

def next (s : Scanned) : Direction → ℕ :=
  match s.counters with
  | some counters => counters
  | none => fun dir => inferred (s.index dir)

end Scanned

/-- `FileStoreImpl`. `valid` says that its file is open: a reset that fails behind
its rename closes it. -/
structure FileStore where
  writePos : ℕ
  next : Direction → ℕ
  index : Direction → List IndexEntry
  openOk : Bool := true
  generation : ℕ := 0
  valid : Bool := true

structure Disk where
  log : Bytes
  resetTmp : Option Bytes := none
  deriving DecidableEq, Repr

structure FileWorld where
  disk : Disk
  impl : FileStore

/-- How far the log of a store that was just initialised reaches. -/
def freshSize : ℕ := recordDiskSize 32 + recordDiskSize 8

variable (cfg : FileStoreConfig)

/-- The sentinel's check at offset 0. -/
def FileStoreConfig.sentinelOk (log : Bytes) : Bool :=
  let payload := slice log headerSize 32
  headerSize ≤ log.length && log.headD 0 == 1 && ofLittleEndian (slice log 8 4) == 32 &&
    payload.length == 32 &&
    ofLittleEndian (slice log 12 4) == (cfg.crc32c (log.take 12 ++ payload)).toNat &&
    ofLittleEndian (slice payload 0 8) == 0x46495850535354 &&
    slice payload 8 1 == [1] && ofLittleEndian (slice payload 12 4) == cfg.expectedHash.toNat

def FileStoreConfig.freshWrites (next : Direction → ℕ) : List (ℕ × Bytes) :=
  let sentinel := sentinelRecord cfg.expectedHash
  let counter := counterRecord next
  [(0, cfg.header sentinel), (headerSize, sentinel.payload),
    (recordDiskSize 32, cfg.header counter), (recordDiskSize 32 + headerSize, counter.payload)]

def FileStoreConfig.freshLog (next : Direction → ℕ) : Bytes :=
  cfg.encode (sentinelRecord cfg.expectedHash) ++ cfg.encode (counterRecord next)

/-- `restart_scan` and the opening of the store: a stale temporary file is removed,
an empty log is initialised, any other one is read. -/
def FileStoreConfig.openLog (disk : Disk) : Option FileWorld :=
  if disk.log = [] then
    some { disk := { log := (cfg.freshWrites (targets 1 1)).foldl (fun f w => pwrite f w.1 w.2) [] },
           impl := { writePos := freshSize, next := targets 1 1, index := fun _ => [] } }
  else if cfg.sentinelOk disk.log then
    let rest := disk.log.drop (recordDiskSize 32)
    match scanLog cfg.readRecord Scanned.keep (rest.length + 1) rest (recordDiskSize 32)
        Scanned.empty with
    | none => none
    | some (scanned, lastGood) =>
      some { disk := { log := disk.log.take lastGood },
             impl := { writePos := lastGood, next := scanned.next, index := scanned.index } }
  else none

/-- A write job on the pool: the writes at consecutive offsets from the committed
end on, and whether a sync follows. -/
structure WriteJob where
  offset : ℕ
  chunks : List Bytes
  flush : Bool

inductive OffloadWriteResult
  | ok
  | failed
  | failedUnrestored
  deriving DecidableEq, Repr

/-- How `restore_committed_end` ends. -/
inductive Restoring
  | restored
  | truncateFails
  | datasyncFails
  deriving DecidableEq, Repr

/-- A step of a write job that fails: which one, how many of its bytes had reached
the file, and what became of the restoring. -/
structure WriteFault where
  step : ℕ
  written : ℕ
  restoring : Restoring
  deriving DecidableEq, Repr

/-- The writes of a job up to a failing one; `fault` counts the steps before it.
What is left of `fault` behind the last write says whether the sync fails. -/
def writeChunks : List Bytes → Option (ℕ × ℕ) → ℕ → Bytes → Bytes × Option (ℕ × ℕ) × Bool
  | [], fault, _, log => (log, fault, true)
  | chunk :: _, some (0, written), offset, log => (pwrite log offset (chunk.take written), none, false)
  | chunk :: rest, some (step + 1, written), offset, log =>
    writeChunks rest (some (step, written)) (offset + chunk.length) (pwrite log offset chunk)
  | chunk :: rest, none, offset, log =>
    writeChunks rest none (offset + chunk.length) (pwrite log offset chunk)

def restoreCommittedEnd (log : Bytes) (committed : ℕ) : Restoring → Bytes × OffloadWriteResult
  | .restored => (log.take committed, .failed)
  | .truncateFails => (log, .failedUnrestored)
  | .datasyncFails => (log.take committed, .failedUnrestored)

/-- The job on the pool. On a closed file no write and no truncation succeeds. -/
def WriteJob.run (job : WriteJob) (valid : Bool) (fault : Option WriteFault) (log : Bytes) :
    Bytes × OffloadWriteResult :=
  if !valid then (log, .failedUnrestored)
  else
    match fault with
    | none => ((writeChunks job.chunks none job.offset log).1, .ok)
    | some f =>
      let written := writeChunks job.chunks (some (f.step, f.written)) job.offset log
      if written.2.2 && !(job.flush && written.2.1 = some (0, f.written)) then (written.1, .ok)
      else restoreCommittedEnd written.1 job.offset f.restoring

namespace FileStore

variable (cfg : FileStoreConfig) (s : FileStore)

/-- Whether `store()` syncs the log behind its writes. -/
def flushes : Bool :=
  match cfg.policy with
  | .commitPerMessage => true
  | .commitBatched batchSize =>
    0 < batchSize &&
      ((s.index .inbound).length + (s.index .outbound).length + 1) % batchSize == 0
  | .commitByInterval => false

def nextAfter (dir : Direction) : Direction → ℕ :=
  Function.update s.next dir (succSeqnum (s.next dir))

/-- `store()` under the lock, up to its job. An empty payload or padding is not
written. -/
def storeJob (seq : ℕ) (frame : Bytes) (dir : Direction) : Except Error WriteJob :=
  if seq ≠ s.next dir then .error .storeSeqnumOutOfOrder
  else if cfg.maxFrameBytes < frame.length then .error .storeIoFailure
  else
    let record := frameRecord dir seq frame
    let counter := counterRecord (s.nextAfter dir)
    .ok { offset := s.writePos
          chunks := [cfg.header record, frame, FileStoreConfig.padding record,
                     cfg.header counter, counter.payload].filter (!·.isEmpty)
          flush := s.flushes cfg }

/-- `store()` behind its job. -/
def storeEnd (seq : ℕ) (frame : Bytes) (dir : Direction) :
    OffloadWriteResult → FileStore × Except Error Unit
  | .ok =>
    ({ s with
        index := Function.update s.index dir
          (indexFrame IndexEntry.seq (s.index dir) ⟨seq, s.writePos, frame.length⟩)
        next := s.nextAfter dir
        writePos := s.writePos + recordDiskSize frame.length + recordDiskSize 8 }, .ok ())
  | .failed => (s, .error .storeIoFailure)
  | .failedUnrestored => ({ s with openOk := false }, .error .storeIoFailure)

/-- `++counter`, which stands before the job and is not taken back. -/
def bump (dir : Direction) : FileStore := { s with next := s.nextAfter dir }

/-- The job of an incrementing `next_seqnum()`, on the store with the new counter. -/
def counterJob : WriteJob :=
  let counter := counterRecord s.next
  { offset := s.writePos, chunks := [cfg.header counter, counter.payload], flush := true }

/-- `next_seqnum()` behind its job. -/
def counterEnd (current : ℕ) : OffloadWriteResult → FileStore × Except Error ℕ
  | .ok => ({ s with writePos := s.writePos + recordDiskSize 8 }, .ok current)
  | .failed => (s, .error .storeIoFailure)
  | .failedUnrestored => ({ s with openOk := false }, .error .storeIoFailure)

/-- One iteration of the walk of `retrieve()`: the generation the snapshot was taken
in is tested and the payload read. A read that comes back short is a failure. -/
def readFrame (log : Bytes) (generation : ℕ) (e : IndexEntry) : Except Error Bytes :=
  if s.generation ≠ generation then .error .storeIoFailure
  else
    let payload := slice log (e.fileOffset + headerSize) e.len
    if s.valid ∧ payload.length = e.len then .ok payload else .error .storeIoFailure

/-- `reset_store_to` behind a job that succeeded. -/
def resetDone (next : Direction → ℕ) : FileStore :=
  { s with
      generation := s.generation + 1, index := fun _ => [], writePos := freshSize, next := next
      valid := true }

/-- `reset_store_to` behind a job that failed. -/
def resetFailed (renameDone : Bool) : FileStore :=
  if renameDone then { s with valid := false, openOk := false } else s

end FileStore

/-- The steps of the job of a reset. `makePath` stands for what can throw between
the temporary file's close and the rename, `throwing` for what can throw behind it. -/
inductive ResetStep
  | openTmp
  | writeTmp (offset : ℕ) (bytes : Bytes)
  | datasyncTmp
  | makePath
  | rename
  | throwing
  | openDirectory
  | fsyncDirectory
  | reopen
  | lock
  deriving DecidableEq, Repr

namespace ResetStep

def perform (disk : Disk) : ResetStep → Disk
  | .openTmp => { disk with resetTmp := some [] }
  | .writeTmp offset bytes => { disk with resetTmp := disk.resetTmp.map (pwrite · offset bytes) }
  | .rename =>
    match disk.resetTmp with
    | some fresh => { log := fresh, resetTmp := none }
    | none => disk
  | _ => disk

/-- What a step has done to the disk when it stops or fails in the middle. -/
def breakOff (disk : Disk) (written : ℕ) : ResetStep → Disk
  | .writeTmp offset bytes =>
    { disk with resetTmp := disk.resetTmp.map (pwrite · offset (bytes.take written)) }
  | _ => disk

/-- The steps whose failure removes the temporary file. -/
def unlinks : ResetStep → Bool
  | .writeTmp _ _ => true
  | .datasyncTmp => true
  | .rename => true
  | _ => false

end ResetStep

/-- The job of a reset to the counters `next`. -/
def FileStoreConfig.resetSteps (cfg : FileStoreConfig) (next : Direction → ℕ) : List ResetStep :=
  ResetStep.openTmp :: (cfg.freshWrites next).map (fun w => ResetStep.writeTmp w.1 w.2) ++
    [ResetStep.datasyncTmp, .makePath, .rename, .throwing, .openDirectory, .fsyncDirectory,
      .reopen, .lock]

/-- The disk when the job stops in step `stepNo`, after `written` bytes of a write. -/
def stopReset (stepNo written : ℕ) (disk : Disk) (steps : List ResetStep) : Disk :=
  let before := (steps.take stepNo).foldl ResetStep.perform disk
  match steps[stepNo]? with
  | none => before
  | some s => s.breakOff before written

/-- The disk when step `stepNo` fails: the job removes its temporary file where it gets
the chance. -/
def failReset (stepNo written : ℕ) (disk : Disk) (steps : List ResetStep) : Disk :=
  let broken := stopReset stepNo written disk steps
  match steps[stepNo]? with
  | some s => if s.unlinks then { broken with resetTmp := none } else broken
  | none => broken

/-- What happens to a call: it runs, its wait for the lock is cancelled, or a step
of its job fails. -/
inductive Fate
  | runs
  | cancelled
  | writeFails (fault : WriteFault)
  | resetFails (step written : ℕ)
  deriving DecidableEq, Repr

def Fate.writeFault : Fate → Option WriteFault
  | .writeFails f => some f
  | _ => none

namespace FileWorld

variable (cfg : FileStoreConfig) (w : FileWorld)

def store (seq : ℕ) (frame : Bytes) (dir : Direction) (fate : Fate) :
    FileWorld × Except Error Unit :=
  if !w.impl.openOk then (w, .error .storeIoFailure)
  else if fate = .cancelled then (w, .error .storeCancelled)
  else
    match w.impl.storeJob cfg seq frame dir with
    | .error e => (w, .error e)
    | .ok job =>
      let io := job.run w.impl.valid fate.writeFault w.disk.log
      let after := w.impl.storeEnd seq frame dir io.2
      ({ disk := { w.disk with log := io.1 }, impl := after.1 }, after.2)

def nextSeqnum (dir : Direction) (increment : Bool) (fate : Fate) : FileWorld × Except Error ℕ :=
  if !w.impl.openOk then (w, .error .storeIoFailure)
  else if fate = .cancelled then (w, .error .storeCancelled)
  else
    match readCounter (w.impl.next dir) increment with
    | .error e => (w, .error e)
    | .ok current =>
      if increment then
        let bumped := w.impl.bump dir
        let io := (bumped.counterJob cfg).run w.impl.valid fate.writeFault w.disk.log
        let after := bumped.counterEnd current io.2
        ({ disk := { w.disk with log := io.1 }, impl := after.1 }, after.2)
      else (w, .ok current)

def resetStoreTo (next : Direction → ℕ) (fate : Fate) : FileWorld × Except Error Unit :=
  if !w.impl.openOk then (w, .error .storeIoFailure)
  else
    let steps := cfg.resetSteps next
    match fate with
    | .cancelled => (w, .error .storeCancelled)
    | .resetFails step written =>
      if step < steps.length then
        ({ disk := failReset step written w.disk steps,
           impl := w.impl.resetFailed (ResetStep.rename ∈ steps.take step) },
          .error .storeIoFailure)
      else ({ disk := steps.foldl ResetStep.perform w.disk, impl := w.impl.resetDone next }, .ok ())
    | _ => ({ disk := steps.foldl ResetStep.perform w.disk, impl := w.impl.resetDone next }, .ok ())

def resetTo (nextIn nextOut : ℕ) (fate : Fate) : FileWorld × Except Error Unit :=
  if resetToTargetsValid nextIn nextOut then w.resetStoreTo cfg (targets nextIn nextOut) fate
  else (w, .error .sessionInvalidArgument)

def retrieve (first last : ℕ) (dir : Direction) (visitor : Visitor) (fate : Fate) :
    List (ℕ × Bytes) × Except Error Unit :=
  if !w.impl.openOk then ([], .error .storeIoFailure)
  else if first = 0 then ([], .error .storeSeqnumInvalid)
  else if last ≠ 0 ∧ last < first then ([], .error .storeInvalidRange)
  else if fate = .cancelled then ([], .error .storeCancelled)
  else
    let found := snapshotRange IndexEntry.seq (w.impl.index dir) (w.impl.next dir) first last
    walkEntries IndexEntry.seq (w.impl.readFrame w.disk.log w.impl.generation) visitor found.2
      found.1 []

/-- The disk when the process stops during a call: `cut` bytes of the writes of an
append are on the log, or a reset got as far as `cut` bytes into its step `stepNo`. -/
def stopped (stepNo cut : ℕ) (c : StoreCall) : Disk :=
  if !w.impl.openOk then w.disk
  else
    match c with
    | .store seq frame dir =>
      match w.impl.storeJob cfg seq frame dir with
      | .error _ => w.disk
      | .ok job =>
        { w.disk with log := pwrite w.disk.log job.offset (job.chunks.flatten.take cut) }
    | .retrieve .. => w.disk
    | .nextSeqnum dir increment =>
      match readCounter (w.impl.next dir) increment with
      | .error _ => w.disk
      | .ok _ =>
        if increment then
          let job := (w.impl.bump dir).counterJob cfg
          { w.disk with log := pwrite w.disk.log job.offset (job.chunks.flatten.take cut) }
        else w.disk
    | .reset => stopReset stepNo cut w.disk (cfg.resetSteps (targets 1 1))
    | .resetTo nextIn nextOut =>
      if resetToTargetsValid nextIn nextOut then
        stopReset stepNo cut w.disk (cfg.resetSteps (targets nextIn nextOut))
      else w.disk

/-- A call, and what becomes of it. -/
def serve (fate : Fate) : StoreCall → FileWorld × StoreReply
  | .store seq frame dir =>
    ((w.store cfg seq frame dir fate).1, .done (w.store cfg seq frame dir fate).2)
  | .retrieve first last dir visitor =>
    (w, .walked (w.retrieve first last dir visitor fate).1 (w.retrieve first last dir visitor fate).2)
  | .nextSeqnum dir increment =>
    ((w.nextSeqnum cfg dir increment fate).1, .number (w.nextSeqnum cfg dir increment fate).2)
  | .reset =>
    ((w.resetStoreTo cfg (targets 1 1) fate).1, .done (w.resetStoreTo cfg (targets 1 1) fate).2)
  | .resetTo nextIn nextOut =>
    ((w.resetTo cfg nextIn nextOut fate).1, .done (w.resetTo cfg nextIn nextOut fate).2)

end FileWorld

/-! ## The factory

It names the log of a session after its two CompIDs; the sentinel carries a hash of them. -/

def fnv1a32 (s : Bytes) : UInt32 :=
  s.foldl (fun h c => (h ^^^ c.toUInt32) * 16777619) 2166136261

/-- `session_triple_hash`. The middle text is written `"\x00"`, which is empty as a
`string_view`. -/
def sessionTripleHash (sender target : Bytes) : UInt32 :=
  fnv1a32 sender ^^^ fnv1a32 [] ^^^ fnv1a32 target

/-- `detail::validate_compid_filesystem_safety`, where `nameMax` is what `pathconf` says
of the directory. -/
def validateCompidFilesystemSafety (nameMax : ℕ) (compid otherCompid : Bytes) : Option Error :=
  if compid = [] then some .storeFactoryFailed
  else if 0 ∈ compid then some .storeFactoryFailed
  else if 47 ∈ compid then some .storeFactoryFailed
  else if compid = ascii "." ∨ compid = ascii ".." then some .storeFactoryFailed
  else if compid.any (fun c => c < 0x20 || c == 0x7F) then some .storeFactoryFailed
  else if nameMax < compid.length + 2 + otherCompid.length + 4 then some .storeFactoryFailed
  else none

def logFilename (sender target : Bytes) : Bytes := sender ++ ascii "__" ++ target ++ ascii ".log"

/-- Its configuration, what the platform adds to it and whether an executor for the file I/O is
there. -/
structure FileStoreFactory where
  maxFrameBytes : ℕ
  policy : FileStorePolicy := .commitPerMessage
  nameMax : ℕ := 255
  executor : Bool := true
  crc32c : Bytes → UInt32

namespace FileStoreFactory

variable (f : FileStoreFactory)

def configFor (sender target : Bytes) (h : f.maxFrameBytes ≤ 256 * 1024) : FileStoreConfig where
  maxFrameBytes := f.maxFrameBytes
  policy := f.policy
  expectedHash := sessionTripleHash sender target
  crc32c := f.crc32c
  maxFrameBytes_le := h

/-- `make()`. `files` is what the directory holds under a name; a log that is not there
is created empty. -/
def make (sender target : Bytes) (files : Bytes → Bytes) : Except Error FileWorld :=
  if h : f.maxFrameBytes ≤ 256 * 1024 then
    if f.policy = .commitByInterval then .error .storeFactoryFailed
    else
      match validateCompidFilesystemSafety f.nameMax sender target with
      | some e => .error e
      | none =>
        match validateCompidFilesystemSafety f.nameMax target sender with
        | some e => .error e
        | none =>
          if !f.executor then .error .storeFactoryFailed
          else
            match (f.configFor sender target h).openLog
                { log := files (logFilename sender target) } with
            | none => .error .storeFactoryFailed
            | some w => .ok w
  else .error .storeFactoryFailed

end FileStoreFactory

end Fixpp.Model
