import Fixpp.Model.Prelude

/-!
# The rotation of a file sink

`FileSink::rotate` archives the live file `<base>.log` under a name with a time and deletes the
oldest archives. Several sinks may share the directory, which lists its files as they were
created. Writes, removals and reopenings succeed.
-/

namespace Fixpp.Model

structure LogFile where
  name : Bytes
  lines : List Bytes := []
  /-- The base name of the sink that archived it; nothing reads it. -/
  archivedBy : Option Bytes := none
  deriving DecidableEq

structure FileSinkConfig where
  baseName : Bytes := ascii "fixpp"
  maxFileBytes : ℕ := 256 * 1024 * 1024
  maxKeepCount : ℕ := 8

namespace FileSinkConfig

variable (cfg : FileSinkConfig) (dir : List LogFile)

def livePath : Bytes := cfg.baseName ++ ascii ".log"

def archivePath (suffix : Bytes) : Bytes := cfg.baseName ++ ascii "." ++ suffix ++ ascii ".log"

/-- The loop over the counters of a second; a directory has no more names than `fuel`. -/
def freeCandidate (suffix : Bytes) : ℕ → ℕ → Option Bytes
  | 0, _ => none
  | fuel + 1, counter =>
    let candidate := cfg.archivePath (suffix ++ ascii "_" ++ ascii (toString counter))
    if candidate ∈ dir.map (·.name) then freeCandidate suffix fuel (counter + 1)
    else some candidate

/-- The test of `list_archived`. -/
def isArchived (name : Bytes) : Bool :=
  name.length > (cfg.baseName ++ ascii ".").length + (ascii ".log").length &&
    (cfg.baseName ++ ascii ".").isPrefixOf name && (ascii ".log").isSuffixOf name &&
    name != cfg.livePath

def listArchived : List Bytes :=
  ((dir.map (·.name)).filter cfg.isArchived).insertionSort (· ≤ ·)

/-- The rename of `rotate`, at a time with this suffix. -/
def archiveLive (suffix : Bytes) : List LogFile :=
  let archived :=
    if cfg.archivePath suffix ∈ dir.map (·.name) then
      cfg.freeCandidate dir suffix (dir.length + 1) 1
    else some (cfg.archivePath suffix)
  match archived with
  | none => dir
  | some name => dir.map fun f =>
      if f.name = cfg.livePath then { f with name, archivedBy := cfg.baseName } else f

/-- The rename may fail; a fresh live file is opened in either case. -/
def rotate (suffix : Bytes) (renames : Bool) : List LogFile :=
  let dir := if renames then cfg.archiveLive dir suffix else dir
  let names := cfg.listArchived dir
  let removed := names.take (names.length - cfg.maxKeepCount)
  dir.filter (fun f => f.name ∉ removed ∧ f.name ≠ cfg.livePath) ++ [{ name := cfg.livePath }]

end FileSinkConfig

/-- A line, and what a rotation behind it finds. -/
structure SinkEmit where
  line : Bytes
  suffix : Bytes
  renames : Bool := true

/-- The directory of a sink and `bytes_written_`. -/
structure SinkState where
  dir : List LogFile
  bytesWritten : ℕ := 0

namespace SinkState

variable (cfg : FileSinkConfig) (w : SinkState) (e : SinkEmit)

def written : List LogFile := w.dir.map fun f =>
  if f.name = cfg.livePath then { f with lines := f.lines ++ [e.line] } else f

def rotates : Bool := w.bytesWritten + e.line.length > cfg.maxFileBytes

def emit : SinkState :=
  if w.rotates cfg e then { dir := cfg.rotate (w.written cfg e) e.suffix e.renames }
  else { dir := w.written cfg e, bytesWritten := w.bytesWritten + e.line.length }

end SinkState

end Fixpp.Model
