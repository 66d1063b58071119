import Fixpp.Model.FileStore

/-!
# The bytes of the log

A record reads back as it was written, whatever stands behind it, and a part of one is taken for
torn: the scan of a log cut anywhere finds its whole records. Cutting a file back to where a job
began undoes what the job wrote.
-/

namespace Fixpp.Analysis.StoreLog

open Foundation Model FileStoreConfig

@[simp] theorem length_littleEndian (width n : ℕ) : (littleEndian width n).length = width := by
  induction width generalizing n with
  | zero => rfl
  | succ width ih => simp [littleEndian, ih]

theorem ofLittleEndian_littleEndian {width n : ℕ} (h : n < 256 ^ width) :
    ofLittleEndian (littleEndian width n) = n := by
  induction width generalizing n with
  | zero =>
    have : n = 0 := by simpa using h
    simp [littleEndian, ofLittleEndian, this]
  | succ width ih =>
    have hlow : (UInt8.ofNat (n % 256)).toNat = n % 256 := by
      simp [UInt8.toNat_ofNat']
    have hhigh : n / 256 < 256 ^ width := by
      rw [Nat.div_lt_iff_lt_mul (by decide), ← Nat.pow_succ]
      exact h
    rw [littleEndian, ofLittleEndian, ih hhigh, hlow]
    omega

theorem ofLittleEndian_crc (crc : UInt32) : ofLittleEndian (littleEndian 4 crc.toNat) = crc.toNat :=
  ofLittleEndian_littleEndian crc.toNat_lt

section Records

variable (cfg : FileStoreConfig)

/-- What the format can carry: a number of 32 bits and a payload within the limit. -/
def LogRecord.Valid (r : LogRecord) : Prop :=
  r.seq < 2 ^ 32 ∧ r.payload.length ≤ cfg.maxFrameBytes

@[simp] theorem length_header (r : LogRecord) : (cfg.header r).length = headerSize := by
  simp [header, headerFields, headerSize]

@[simp] theorem length_encode (r : LogRecord) :
    (cfg.encode r).length = recordDiskSize r.payload.length := by
  simp [encode, padding, recordDiskSize, Nat.add_assoc]

@[simp] theorem recordDiskSize_counter : recordDiskSize 8 = 24 := rfl

@[simp] theorem recordDiskSize_sentinel : recordDiskSize 32 = 48 := rfl

@[simp] theorem length_counterRecord (next : Direction → ℕ) :
    (counterRecord next).payload.length = 8 := by
  simp [counterRecord]

@[simp] theorem length_sentinelRecord (hash : UInt32) :
    (sentinelRecord hash).payload.length = 32 := by
  simp [sentinelRecord]

theorem headerSize_le_recordDiskSize (len : ℕ) : headerSize + len ≤ recordDiskSize len := by
  simp [recordDiskSize]

variable {r : LogRecord}

theorem slice_len (h : r.payload.length < 256 ^ 4) (rest : Bytes) :
    ofLittleEndian (slice (cfg.header r ++ rest) 8 4) = r.payload.length := by
  have hfield : slice (cfg.header r ++ rest) 8 4 = littleEndian 4 r.payload.length := rfl
  rw [hfield, ofLittleEndian_littleEndian h]

theorem LogRecord.Valid.short (h : LogRecord.Valid cfg r) : r.payload.length < 256 ^ 4 := by
  have hlimit := cfg.maxFrameBytes_le
  have hlen := h.2
  omega

theorem take_encode {k : ℕ} (hk : headerSize ≤ k) : (cfg.encode r).take k =
    cfg.header r ++ (r.payload ++ padding r).take (k - headerSize) := by
  rw [encode, List.append_assoc, List.take_append, length_header,
    List.take_of_length_le (by rw [length_header]; omega)]

theorem slice_payload (r : LogRecord) (rest : Bytes) :
    slice (cfg.header r ++ (r.payload ++ rest)) headerSize r.payload.length = r.payload := by
  rw [slice, ← length_header cfg r, List.drop_left, List.take_left]

theorem readRecord_encode (h : LogRecord.Valid cfg r) (rest : Bytes) :
    cfg.readRecord (cfg.encode r ++ rest) = .record r (cfg.encode r).length := by
  have hlog : cfg.encode r ++ rest =
      cfg.header r ++ (r.payload ++ (padding r ++ rest)) := by
    simp [encode]
  have hsize : (cfg.encode r ++ rest).length = recordDiskSize r.payload.length + rest.length := by
    simp
  have hbytes := headerSize_le_recordDiskSize r.payload.length
  have hseq : ofLittleEndian (littleEndian 4 r.seq) = r.seq :=
    ofLittleEndian_littleEndian (by have := h.1; omega)
  have hcrc : slice (cfg.header r ++ (r.payload ++ (padding r ++ rest))) 12 4 =
      littleEndian 4 (cfg.crc32c (headerFields r ++ r.payload)).toNat := rfl
  have hfields : (cfg.header r ++ (r.payload ++ (padding r ++ rest))).take 12 =
      headerFields r := rfl
  have hseqField : slice (cfg.header r ++ (r.payload ++ (padding r ++ rest))) 4 4 =
      littleEndian 4 r.seq := rfl
  have hlong : ¬ (cfg.encode r ++ rest).length < headerSize := by omega
  have hfits : ¬ cfg.maxFrameBytes < r.payload.length := by have := h.2; omega
  have hwhole : ¬ (cfg.encode r ++ rest).length < recordDiskSize r.payload.length := by omega
  rw [readRecord, if_neg hlong, hlog, slice_len cfg (h.short cfg), if_neg hfits, ← hlog,
    if_neg hwhole, hlog, slice_payload, hcrc, hfields, ofLittleEndian_crc]
  simp only [ne_eq, not_true_eq_false, if_false, hseqField, hseq, length_encode]
  rfl

theorem readRecord_cut (h : LogRecord.Valid cfg r) {k : ℕ} (hk : k < (cfg.encode r).length) :
    cfg.readRecord ((cfg.encode r).take k) = .torn := by
  have hlen : ((cfg.encode r).take k).length = k := by simp; simp at hk; omega
  rw [readRecord]
  by_cases hshort : k < headerSize
  · rw [if_pos (by rw [hlen]; exact hshort)]
  have htake := take_encode cfg (r := r) (Nat.le_of_not_lt hshort)
  have hfits : ¬ cfg.maxFrameBytes < r.payload.length := by have := h.2; omega
  have hcut : ((cfg.encode r).take k).length < recordDiskSize r.payload.length := by
    rw [hlen]; simpa using hk
  rw [if_neg (by rw [hlen]; exact hshort), htake, slice_len cfg (h.short cfg), if_neg hfits, ← htake,
    if_pos hcut]

/-- A record above the limit is taken for a damaged one as soon as a byte follows its header. -/
theorem readRecord_oversized (h : cfg.maxFrameBytes < r.payload.length)
    (hshort : r.payload.length < 256 ^ 4) (k : ℕ) :
    cfg.readRecord ((cfg.encode r).take k) = if headerSize < k then .corrupt else .torn := by
  have hlen : ((cfg.encode r).take k).length = min k (recordDiskSize r.payload.length) := by simp
  have hsize := headerSize_le_recordDiskSize r.payload.length
  rw [readRecord]
  by_cases hheader : k < headerSize
  · rw [if_pos (by omega), if_neg (by omega)]
  rw [if_neg (by omega), take_encode cfg (Nat.le_of_not_lt hheader), slice_len cfg hshort,
    if_pos h, ← take_encode cfg (Nat.le_of_not_lt hheader), hlen]
  congr 1
  exact propext ⟨fun hmore => by omega, fun hmore => by omega⟩

theorem framing : Framing cfg.encode cfg.readRecord (LogRecord.Valid cfg) where
  ne_nil r h := by
    have := congrArg List.length h
    have := headerSize_le_recordDiskSize r.payload.length
    simp [headerSize] at *
    omega
  whole r rest h := readRecord_encode cfg h rest
  cut r k h hk := readRecord_cut cfg h hk

theorem sentinelOk_sentinel (hash : UInt32) (rest : Bytes) :
    cfg.sentinelOk (cfg.encode (sentinelRecord hash) ++ rest) = decide (hash = cfg.expectedHash) := by
  have hlog : cfg.encode (sentinelRecord hash) ++ rest = cfg.header (sentinelRecord hash) ++
      ((sentinelRecord hash).payload ++
        (padding (sentinelRecord hash) ++ rest)) := by
    simp [encode]
  have hlong : headerSize ≤ (cfg.encode (sentinelRecord hash) ++ rest).length := by
    simp [headerSize]; omega
  generalize cfg.encode (sentinelRecord hash) ++ rest = log at hlog hlong ⊢
  have hpayload : slice log headerSize 32 = (sentinelRecord hash).payload := by
    rw [hlog, ← length_sentinelRecord hash, slice_payload]
  have hlen : ofLittleEndian (slice log 8 4) = 32 := by
    have hfield : slice log 8 4 = littleEndian 4 32 := by rw [hlog]; rfl
    rw [hfield, ofLittleEndian_littleEndian (by decide)]
  have hcrc : slice log 12 4 = littleEndian 4 (cfg.crc32c (headerFields (sentinelRecord hash) ++
      (sentinelRecord hash).payload)).toNat := by rw [hlog]; rfl
  have hfields : log.take 12 = headerFields (sentinelRecord hash) := by rw [hlog]; rfl
  have hkind : log.headD 0 = 1 := by rw [hlog]; rfl
  have hmagic : ofLittleEndian (slice (sentinelRecord hash).payload 0 8) = 0x46495850535354 := by
    have hfield : slice (sentinelRecord hash).payload 0 8 = littleEndian 8 0x46495850535354 := rfl
    rw [hfield, ofLittleEndian_littleEndian (by decide)]
  have hversion : slice (sentinelRecord hash).payload 8 1 = [1] := rfl
  have hhash : ofLittleEndian (slice (sentinelRecord hash).payload 12 4) = hash.toNat :=
    ofLittleEndian_crc hash
  simp only [sentinelOk, hpayload, hlen, hcrc, hfields, hkind, hmagic, hversion,
    hhash, ofLittleEndian_crc, length_sentinelRecord, decide_eq_true hlong, beq_self_eq_true,
    Bool.true_and, Bool.and_true]
  simp [UInt32.toNat_inj, beq_eq_decide]

end Records

end Fixpp.Analysis.StoreLog
