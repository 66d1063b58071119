import Fixpp.Analysis.FileLog
import Fixpp.Interface.FrameStore

/-!
# What a call does to the log

The log of a usable store is a row of whole records behind its sentinel, and reading it gives
the index the store has in memory. A step of a call that fails is undone by cutting the log back.
-/

namespace Fixpp.Analysis.StoreLog

open Foundation Interface Model List Scanned

variable {next : Direction → ℕ} {d dir : Direction} {e : IndexEntry}

/-! ## Writing -/

@[simp] theorem pwrite_end (log bytes : Bytes) : pwrite log log.length bytes = log ++ bytes := by
  simp [pwrite]

theorem writeChunks_none (chunks : List Bytes) :
    ∀ log : Bytes, writeChunks chunks none log.length log = (log ++ chunks.flatten, none, true) := by
  induction chunks with
  | nil => simp [writeChunks]
  | cons chunk rest ih =>
    intro log
    simp only [writeChunks, pwrite_end]
    rw [← length_append, ih]
    simp

theorem writeChunks_some (chunks : List Bytes) : ∀ (step written : ℕ) (log : Bytes), ∃ k,
      (writeChunks chunks (some (step, written)) log.length log).1 = log ++ chunks.flatten.take k ∧
        ((writeChunks chunks (some (step, written)) log.length log).2.2 = true →
          (writeChunks chunks (some (step, written)) log.length log).1 = log ++ chunks.flatten) := by
  induction chunks with
  | nil => exact fun _ _ log => ⟨0, by simp [writeChunks]⟩
  | cons chunk rest ih =>
    intro step written log
    cases step with
    | zero =>
      refine ⟨min written chunk.length, ?_, by simp [writeChunks]⟩
      simp only [writeChunks, pwrite_end, flatten_cons]
      rw [take_append_of_le_length (Nat.min_le_right ..)]
      simp [take_eq_take_min]
    | succ step =>
      obtain ⟨k, hk, hall⟩ := ih step written (log ++ chunk)
      simp only [length_append] at hk hall
      refine ⟨chunk.length + k, ?_, ?_⟩
      · simp only [writeChunks, pwrite_end, hk, flatten_cons]
        simp [take_append]
      intro hdone
      simp only [writeChunks, pwrite_end] at hdone ⊢
      rw [hall hdone]
      simp

/-- How a job ends that starts at the end of the log of an open file. -/
inductive JobEnd (log bytes : Bytes) : Bytes × OffloadWriteResult → Prop
  | ok : JobEnd log bytes (log ++ bytes, .ok)
  | failed : JobEnd log bytes (log, .failed)
  | unrestored (k : ℕ) : JobEnd log bytes (log ++ bytes.take k, .failedUnrestored)

theorem jobEnd_run {job : WriteJob} {log : Bytes} (h : job.offset = log.length)
    (fault : Option WriteFault) : JobEnd log job.chunks.flatten (job.run true fault log) := by
  cases fault with
  | none =>
    simp only [WriteJob.run, h, writeChunks_none]
    exact .ok
  | some f =>
    obtain ⟨k, hk, hall⟩ := writeChunks_some job.chunks f.step f.written log
    simp only [WriteJob.run, Bool.not_true, Bool.false_eq_true, if_false, h]
    split
    · rename_i hok
      rw [hall (by simp only [Bool.and_eq_true] at hok; exact hok.1)]
      exact .ok
    rw [hk]
    cases f.restoring with
    | restored =>
      simp only [restoreCommittedEnd, take_left]
      exact .failed
    | truncateFails => exact .unrestored k
    | datasyncFails =>
      simp only [restoreCommittedEnd, take_left]
      have hcut : JobEnd log job.chunks.flatten _ := .unrestored 0
      simpa using hcut

/-! ## Reading back -/

section Log

variable {cfg : FileStoreConfig}

/-- The log is whole records behind the sentinel, and reading them gives `scanned`. -/
def LogHolds (cfg : FileStoreConfig) (log : Bytes) (scanned : Scanned) : Prop :=
  ∃ rs : List LogRecord, (∀ r ∈ rs, LogRecord.Valid cfg r) ∧
    log = cfg.encode (sentinelRecord cfg.expectedHash) ++ rs.flatMap cfg.encode ∧
    keepAll cfg.encode Scanned.keep rs 48 Scanned.empty = some scanned

theorem LogHolds.append {log : Bytes} {s s' : Scanned} (h : LogHolds cfg log s) {r : LogRecord}
    (hr : LogRecord.Valid cfg r) (hkeep : s.keep log.length r = some s') :
    LogHolds cfg (log ++ cfg.encode r) s' := by
  obtain ⟨rs, hvalid, rfl, hkept⟩ := h
  refine ⟨rs ++ [r], ?_, by simp, ?_⟩
  · simp only [mem_append, mem_singleton]
    rintro q (hq | rfl)
    exacts [hvalid q hq, hr]
  have hpos : (cfg.encode (sentinelRecord cfg.expectedHash) ++ rs.flatMap cfg.encode).length =
      48 + (rs.flatMap cfg.encode).length := by simp
  rw [hpos] at hkeep
  rw [keepAll_append, hkept, Option.bind_some, keepAll, hkeep]
  rfl

theorem valid_counterRecord (hlimit : 8 ≤ cfg.maxFrameBytes) (next : Direction → ℕ) :
    LogRecord.Valid cfg (counterRecord next) :=
  ⟨by simp [counterRecord], by simpa using hlimit⟩

theorem keep_counterRecord (hnext : ∀ d, next d ≤ seqnumMax) (s : Scanned) (pos : ℕ) :
    s.keep pos (counterRecord next) = some { s with counters := some next } := by
  have hread : ∀ d, ofLittleEndian (littleEndian 4 (next d)) = next d := fun d =>
    ofLittleEndian_littleEndian (by have := hnext d; simp only [seqnumMax] at this; omega)
  have hnumbers : targets (ofLittleEndian (slice (counterRecord next).payload 0 4))
      (ofLittleEndian (slice (counterRecord next).payload 4 4)) = next := by
    funext d
    cases d with
    | inbound => exact hread .inbound
    | outbound => exact hread .outbound
  have hkind : (counterRecord next).kind = 2 := rfl
  simp only [keep, hkind, length_counterRecord, hnumbers]
  rfl

theorem logHolds_sentinel : LogHolds cfg (cfg.encode (sentinelRecord cfg.expectedHash)) empty :=
  ⟨[], by simp, by simp, rfl⟩

theorem logHolds_freshLog (hlimit : 8 ≤ cfg.maxFrameBytes) (hnext : ∀ d, next d ≤ seqnumMax) :
    LogHolds cfg (cfg.freshLog next) ⟨fun _ => [], some next⟩ := by
  exact logHolds_sentinel.append (valid_counterRecord hlimit next) (keep_counterRecord hnext _ _)

theorem openLog_sentinel (rest : Bytes) (tmp : Option Bytes) :
    cfg.openLog { log := cfg.encode (sentinelRecord cfg.expectedHash) ++ rest, resetTmp := tmp } =
      (scanLog cfg.readRecord keep (rest.length + 1) rest 48 empty).map fun read =>
        { disk := { log := (cfg.encode (sentinelRecord cfg.expectedHash) ++ rest).take read.2 }
          impl := { writePos := read.2, next := read.1.next, index := read.1.index } } := by
  have hlen : (cfg.encode (sentinelRecord cfg.expectedHash)).length = 48 := by simp
  have hne : cfg.encode (sentinelRecord cfg.expectedHash) ++ rest ≠ [] := by
    intro hnil
    have := congrArg length hnil
    simp at this
  have hdrop : (cfg.encode (sentinelRecord cfg.expectedHash) ++ rest).drop 48 = rest := by
    rw [← hlen, drop_left]
  have hok : cfg.sentinelOk (cfg.encode (sentinelRecord cfg.expectedHash) ++ rest) = true := by
    rw [sentinelOk_sentinel]
    simp
  rw [FileStoreConfig.openLog, if_neg hne, if_pos hok]
  simp only [recordDiskSize_sentinel, hdrop]
  cases scanLog cfg.readRecord keep (rest.length + 1) rest 48 empty <;> rfl

theorem LogHolds.openLog {log rest : Bytes} {s : Scanned} (h : LogHolds cfg log s)
    (hrest : rest = [] ∨ cfg.readRecord rest = .torn) (tmp : Option Bytes) :
    cfg.openLog { log := log ++ rest, resetTmp := tmp } =
      some { disk := { log := log }
             impl := { writePos := log.length, next := s.next, index := s.index } } := by
  obtain ⟨rs, hvalid, rfl, hkept⟩ := h
  have hscan := (framing cfg).scan_whole keep hrest rs hvalid
    ((rs.flatMap cfg.encode ++ rest).length + 1) 48 empty (Nat.lt_succ_self _)
  rw [hkept] at hscan
  have hsize : 48 + (rs.flatMap cfg.encode).length =
      (cfg.encode (sentinelRecord cfg.expectedHash) ++ rs.flatMap cfg.encode).length := by simp
  rw [append_assoc, openLog_sentinel, hscan, ← append_assoc]
  simp only [Option.map_some, hsize, take_left]

def frameOf (log : Bytes) (e : IndexEntry) : ℕ × Bytes :=
  (e.seq, slice log (e.fileOffset + headerSize) e.len)

theorem frameOf_fst (log : Bytes) (e : IndexEntry) : (frameOf log e).1 = e.seq := rfl

def framesIn (log : Bytes) (index : Direction → List IndexEntry) (d : Direction) :
    List (ℕ × Bytes) :=
  (index d).map (frameOf log)

theorem framesIn_append {log : Bytes} {index : Direction → List IndexEntry}
    (h : ∀ d, ∀ e ∈ index d, e.fileOffset + headerSize + e.len ≤ log.length) (more : Bytes) :
    framesIn (log ++ more) index = framesIn log index := by
  funext d
  refine map_congr_left fun e he => ?_
  have := h d e he
  rw [frameOf, frameOf, slice, slice, drop_append_of_le_length (by omega),
    take_append_of_le_length (by rw [length_drop]; omega)]

/-- The index and the counters a log gives, with the frames in order below `bound`. -/
structure Tracks (cfg : FileStoreConfig) (log : Bytes) (index : Direction → List IndexEntry)
    (counters bound : Direction → ℕ) : Prop where
  holds : LogHolds cfg log ⟨index, some counters⟩
  placed : ∀ d, ∀ e ∈ index d, e.fileOffset + headerSize + e.len ≤ log.length
  ordered : (FrameStore.mk (framesIn log index) bound).Ordered

namespace Tracks

variable {log : Bytes} {index : Direction → List IndexEntry} {counters bound : Direction → ℕ}

def entryAt (log : Bytes) (seq : ℕ) (frame : Bytes) : IndexEntry := ⟨seq, log.length, frame.length⟩

def joined (log : Bytes) (index : Direction → List IndexEntry) (seq : ℕ) (frame : Bytes)
    (dir : Direction) : Direction → List IndexEntry :=
  Function.update index dir (indexFrame IndexEntry.seq (index dir) (entryAt log seq frame))

variable (h : Tracks cfg log index counters bound)

include h

theorem seq_le (he : e ∈ index d) : e.seq ≤ bound d :=
  h.ordered.le_next d _ (mem_map_of_mem he)

omit h

theorem slice_frame (log : Bytes) (dir : Direction) (seq : ℕ) (frame : Bytes) :
    slice (log ++ cfg.encode (frameRecord dir seq frame)) (log.length + headerSize) frame.length =
      frame := by
  have hdrop : (log ++ cfg.encode (frameRecord dir seq frame)).drop (log.length + headerSize) =
      frame ++ FileStoreConfig.padding (frameRecord dir seq frame) := by
    rw [drop_length_add_append, FileStoreConfig.encode, append_assoc,
      ← length_header cfg (frameRecord dir seq frame), drop_left]
    rfl
  rw [slice, hdrop, take_left]

theorem mem_joined {seq : ℕ} {frame : Bytes} (he : e ∈ joined log index seq frame dir d) :
    e ∈ index d ∨ e = entryAt log seq frame := by
  by_cases hd : d = dir
  · subst hd
    simp only [joined, Function.update_self, indexFrame] at he
    split at he
    · simpa using he
    split at he
    · rcases mem_append.mp he with he | he
      exacts [.inl (dropLast_subset _ he), .inr (by simpa using he)]
    · simpa using he
  · simp only [joined, Function.update_of_ne hd] at he
    exact .inl he

theorem framesIn_joined (cfg : FileStoreConfig)
    (h : ∀ d, ∀ e ∈ index d, e.fileOffset + headerSize + e.len ≤ log.length) (seq : ℕ)
    (frame : Bytes) (dir : Direction) (next : Direction → ℕ) :
    FrameStore.mk (framesIn (log ++ cfg.encode (frameRecord dir seq frame))
        (joined log index seq frame dir)) next =
      (FrameStore.mk (framesIn log index) next).put seq frame dir := by
  have hold := framesIn_append h (cfg.encode (frameRecord dir seq frame))
  simp only [FrameStore.put, FrameStore.mk.injEq, and_true]
  funext d
  by_cases hd : d = dir
  · subst hd
    rw [Function.update_self, ← hold]
    simp only [framesIn, joined, Function.update_self]
    have hframe : frameOf (log ++ cfg.encode (frameRecord d seq frame)) (entryAt log seq frame) =
        (seq, frame) := by simp [frameOf, entryAt, slice_frame]
    rw [← hframe, indexFrame_map (frameOf_fst _)]
  · rw [Function.update_of_ne hd, ← hold]
    simp only [framesIn, joined, Function.update_of_ne hd]

include h

theorem frame (hlt : bound dir < seqnumMax) {frame : Bytes}
    (hlen : frame.length ≤ cfg.maxFrameBytes) :
    Tracks cfg (log ++ cfg.encode (frameRecord dir (bound dir) frame))
      (joined log index (bound dir) frame dir) counters bound := by
  have hvalid : LogRecord.Valid cfg (frameRecord dir (bound dir) frame) := by
    refine ⟨?_, hlen⟩
    simp only [frameRecord, seqnumMax] at hlt ⊢
    omega
  have hdir : Direction.ofByte dir.toByte = dir := by cases dir <;> rfl
  refine ⟨h.holds.append hvalid ?_, ?_, ?_⟩
  · simp only [keep, frameRecord, if_true, hdir]
    cases hback : (index dir).getLast? with
    | none => rfl
    | some back =>
      have hle := h.seq_le (mem_of_getLast? hback)
      simp only [Nat.not_lt.mpr hle, if_false]
      rfl
  · intro d e he
    rw [length_append, length_encode]
    rcases mem_joined he with he | rfl
    · have := h.placed d e he
      omega
    have := headerSize_le_recordDiskSize frame.length
    simp only [entryAt, frameRecord]
    omega
  · rw [framesIn_joined cfg h.placed]
    exact h.ordered.put hlt frame

theorem counter (hlimit : 8 ≤ cfg.maxFrameBytes) (next : Direction → ℕ)
    (hnext : ∀ d, next d ≤ seqnumMax) :
    Tracks cfg (log ++ cfg.encode (counterRecord next)) index next bound := by
  refine ⟨h.holds.append (valid_counterRecord hlimit next) (keep_counterRecord hnext _ _), ?_, ?_⟩
  · intro d e he
    have := h.placed d e he
    rw [length_append]
    omega
  · rw [framesIn_append h.placed]
    exact h.ordered

theorem raise (bound' : Direction → ℕ) (hle : ∀ d, bound d ≤ bound' d ∧ bound' d ≤ seqnumMax) :
    Tracks cfg log index counters bound' :=
  ⟨h.holds, h.placed, h.ordered.rising, h.ordered.pos,
    fun d x hx => Nat.le_trans (h.ordered.le_next d x hx) (hle d).1, h.ordered.lt_max,
    fun d => Nat.lt_of_lt_of_le (h.ordered.next_pos d) (hle d).1, fun d => (hle d).2⟩

end Tracks

end Log

end Fixpp.Analysis.StoreLog
