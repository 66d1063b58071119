import Fixpp.Analysis.FileStoreCalls

/-!
# Crash recovery of the file store

Opening the log after a stop recovers the counters before or behind the call, and every number
recorded that no hole separates from the first one.
-/

namespace Fixpp.Analysis.StoreLog

open Foundation Interface Model FileWorld

variable {cfg : FileStoreConfig} {w : FileWorld} {counters : Direction → ℕ} {c : StoreCall}
variable {log rest : Bytes} {index : Direction → List IndexEntry} {seq : ℕ} {w' : FileWorld}
  {kept : Archive → Archive}

/-! ## Opening -/

/-- The store that opening a log gives whose records give `index` and `counters`. -/
def openedOn (log : Bytes) (index : Direction → List IndexEntry) (counters : Direction → ℕ) :
    FileWorld :=
  { disk := { log := log }, impl := { writePos := log.length, next := counters, index := index } }

theorem sound_openedOn (h : Tracks cfg log index counters counters) :
    Sound cfg counters (openedOn log index counters) :=
  ⟨⟨rfl, rfl, rfl⟩, h, fun d => ⟨Nat.le_refl _, h.ordered.next_le d⟩⟩

theorem Tracks.openLog {bound : Direction → ℕ} (h : Tracks cfg log index counters bound)
    (hrest : rest = [] ∨ cfg.readRecord rest = .torn) (tmp : Option Bytes) :
    cfg.openLog { log := log ++ rest, resetTmp := tmp } = some (openedOn log index counters) :=
  h.holds.openLog hrest tmp

theorem Sound.openLog (h : Sound cfg counters w) :
    cfg.openLog w.disk = some (openedOn w.disk.log w.impl.index counters) := by
  have := h.tracks.openLog (.inl rfl) w.disk.resetTmp
  rwa [List.append_nil] at this

theorem openLog_empty (hlimit : 8 ≤ cfg.maxFrameBytes) :
    ∃ w, cfg.openLog { log := [] } = some w ∧ Sound cfg w.impl.next w ∧
      view w = FrameStore.fresh (targets 1 1) := by
  refine ⟨_, rfl, ?_, rfl⟩
  rw [foldl_freshWrites]
  exact sound_fresh hlimit (by intro d; cases d <;> simp [targets]) 0 none

theorem openLog_torn_sentinel (hlen : log.length < 48) (hne : log ≠ []) (tmp : Option Bytes) :
    cfg.openLog { log := log, resetTmp := tmp } = none := by
  have hpayload : (slice log headerSize 32).length ≠ 32 := by
    simp only [slice, headerSize, List.length_take, List.length_drop]
    omega
  have hok : cfg.sentinelOk log = false := by
    simp [FileStoreConfig.sentinelOk, hpayload]
  simp [FileStoreConfig.openLog, hne, hok]

theorem openLog_torn_counter (h : cfg.readRecord rest = .torn) (tmp : Option Bytes) :
    ∃ w, cfg.openLog { log := cfg.encode (sentinelRecord cfg.expectedHash) ++ rest,
                       resetTmp := tmp } = some w ∧ view w = FrameStore.fresh (targets 1 1) := by
  refine ⟨_, logHolds_sentinel.openLog (.inr h) tmp, ?_⟩
  have hnext : Scanned.empty.next = targets 1 1 := by
    funext d
    cases d <;> rfl
  simp only [view, hnext]
  rfl

/-- How much of a new log a stopped process may leave: nothing of the sentinel or all of it,
and under a frame limit that no counter record keeps, no byte behind the first one's header. -/
def Restartable (cfg : FileStoreConfig) (cut : ℕ) : Prop :=
  cut = 0 ∨ recordDiskSize 32 ≤ cut ∧
    (8 ≤ cfg.maxFrameBytes ∨ cut ≤ recordDiskSize 32 + headerSize)

/-- Interrupted creation. A process stops when it has written `cut` bytes of a new log. Where the
log opens again it gives an empty store, and any other part of it is refused. -/
theorem interrupted_creation (cfg : FileStoreConfig) (cut : ℕ) (tmp : Option Bytes) :
    let opened := cfg.openLog { log := (cfg.freshLog (targets 1 1)).take cut, resetTmp := tmp }
    (Restartable cfg cut → ∃ w, opened = some w ∧ view w = FrameStore.fresh (targets 1 1)) ∧
      (¬Restartable cfg cut → opened = none) := by
  intro opened
  simp only [Restartable, recordDiskSize_sentinel, headerSize]
  rcases Nat.eq_zero_or_pos cut with rfl | hpos
  · exact ⟨fun _ => ⟨_, rfl, rfl⟩, fun hnot => absurd (.inl rfl) hnot⟩
  rcases Nat.lt_or_ge cut 48 with hcut | hcut
  · have hlen : ((cfg.freshLog (targets 1 1)).take cut).length = cut := by
      simp [FileStoreConfig.freshLog]
      omega
    refine ⟨fun hrestart => by omega, fun _ => ?_⟩
    apply openLog_torn_sentinel
    · omega
    · exact List.ne_nil_of_length_pos (by omega)
  obtain ⟨k, rfl⟩ := Nat.exists_eq_add_of_le hcut
  -- the sentinel is whole, and `k` bytes follow it
  have hlog : (cfg.freshLog (targets 1 1)).take (48 + k) = cfg.encode (sentinelRecord
      cfg.expectedHash) ++ (cfg.encode (counterRecord (targets 1 1))).take k := by
    rw [FileStoreConfig.freshLog, ← List.take_length_add_append]
    simp
  simp only [opened, hlog]
  rcases Nat.lt_or_ge cfg.maxFrameBytes 8 with hsmall | hlimit
  · have hread := readRecord_oversized cfg (r := counterRecord (targets 1 1)) (by simpa) (by simp) k
    constructor
    · intro hrestart
      rw [if_neg (by simp only [headerSize]; omega)] at hread
      exact openLog_torn_counter hread tmp
    intro hnot
    rw [if_pos (by simp only [headerSize]; omega)] at hread
    obtain ⟨b, bs, hcons⟩ : ∃ b bs, (cfg.encode (counterRecord (targets 1 1))).take k =
        b :: bs := List.exists_cons_of_ne_nil fun hnil => by
          rw [hnil] at hread
          cases hread
    rw [openLog_sentinel, hcons, scanLog, ← hcons, hread]
    rfl
  · refine ⟨fun _ => ?_, fun hnot => by omega⟩
    rcases Nat.lt_or_ge k 24 with hk | hk
    · exact openLog_torn_counter (readRecord_cut cfg (valid_counterRecord hlimit _) (by simpa)) tmp
    have hnext : ∀ d, targets 1 1 d ≤ seqnumMax := by
      intro d
      cases d <;> decide
    have hopen := (logHolds_freshLog hlimit hnext).openLog (.inl rfl) tmp
    rw [List.append_nil] at hopen
    rw [List.take_of_length_le (by simpa)]
    exact ⟨_, hopen, rfl⟩

/-! ## Stops -/

/-- The record of the frames behind a stop: a frame whose record is whole on the log
counts as stored, and a reset that got past its rename as done. -/
def survives (cfg : FileStoreConfig) (w : FileWorld) (stepNo cut : ℕ) (c : StoreCall)
    (A : Archive) : Archive :=
  match c with
  | .store seq frame dir =>
    match w.impl.storeJob cfg seq frame dir with
    | .error _ => A
    | .ok _ => if recordDiskSize frame.length ≤ cut then A.put seq frame dir else A
  | .reset => if .rename ∈ (cfg.resetSteps (targets 1 1)).take stepNo then Archive.empty else A
  | .resetTo nextIn nextOut =>
    if resetToTargetsValid nextIn nextOut = true ∧
        .rename ∈ (cfg.resetSteps (targets nextIn nextOut)).take stepNo then Archive.empty
    else A
  | _ => A

/-- What opening the log behind a stop recovers, and what that makes of the record:
the store before the call, the store with the frame and the old counters, or the
store behind the call. -/
inductive Recovers (cfg : FileStoreConfig) (w : FileWorld) (c : StoreCall) (w' : FileWorld) :
    (Archive → Archive) → Prop
  | before (hview : view w' = view w) : Recovers cfg w c w' fun A => A
  | frame {seq : ℕ} {frame : Bytes} {dir : Direction} (hseq : seq = w.impl.next dir)
      (hview : view w' = (view w).put seq frame dir) :
      Recovers cfg w c w' fun A => A.put seq frame dir
  | behind (hview : view w' = view (w.serve cfg .runs c).1) :
      Recovers cfg w c w' fun A => A.note c (w.serve cfg .runs c).2

/-- Opening a disk gives a store in step with its log that `Recovers` the call. -/
def Reopens (cfg : FileStoreConfig) (w : FileWorld) (c : StoreCall) (disk : Disk)
    (kept : Archive → Archive) : Prop :=
  ∃ w', cfg.openLog disk = some w' ∧ Sound cfg w'.impl.next w' ∧ Recovers cfg w c w' kept

section

variable (h : Sound cfg w.impl.next w)
include h

/-- Where the log is as it was, up to a torn record behind it. -/
theorem reopens_before (c : StoreCall)
    (hrest : rest = [] ∨ cfg.readRecord rest = .torn) (tmp : Option Bytes) :
    Reopens cfg w c { log := w.disk.log ++ rest, resetTmp := tmp } fun A => A :=
  ⟨_, h.tracks.openLog hrest tmp, sound_openedOn h.tracks, .before rfl⟩

theorem reopens_same (c : StoreCall) {disk : Disk}
    (hlog : disk.log = w.disk.log) : Reopens cfg w c disk fun A => A := by
  have hsame := reopens_before h c (.inl rfl) disk.resetTmp
  rwa [List.append_nil, ← hlog] at hsame

theorem reopens_behind (hlimit : 8 ≤ cfg.maxFrameBytes)
    (hc : BelowMax c) (disk : Disk) (hlog : disk.log = (w.serve cfg .runs c).1.disk.log) :
    Reopens cfg w c disk fun A => A.note c (w.serve cfg .runs c).2 := by
  obtain ⟨hsound, -⟩ := serve_runs h hlimit hc
  have hopen := hsound.tracks.openLog (.inl rfl) disk.resetTmp
  rw [List.append_nil, ← hlog] at hopen
  exact ⟨_, hopen, sound_openedOn (hlog ▸ hsound.tracks), .behind (by rw [view, view, ← hlog]; rfl)⟩

end

variable {dir : Direction} {A : Archive}

theorem store_runs (h : AtEnd w) {frame : Bytes} (hseq : seq = w.impl.next dir)
    (hlen : frame.length ≤ cfg.maxFrameBytes) :
    w.serve cfg .runs (.store seq frame dir) = (afterStore cfg w frame dir, .done (.ok ())) := by
  have hend := store_ends cfg h seq frame dir .runs
  simp only [serve]
  generalize w.store cfg seq frame dir .runs = out at hend
  cases hend with
  | refused hjob => simp [FileStore.storeJob, hseq, Nat.not_lt.mpr hlen] at hjob
  | stored => rfl
  | failed hfate => exact absurd rfl hfate
  | poisoned hfate => exact absurd rfl hfate

theorem nextSeqnum_runs (cfg : FileStoreConfig) (h : AtEnd w) (hmax : w.impl.next dir ≠ seqnumMax) :
    w.serve cfg .runs (.nextSeqnum dir true) =
      (afterCount cfg w dir, .number (.ok (w.impl.next dir))) := by
  have hend := nextSeqnum_ends cfg h dir true .runs
  simp only [serve]
  generalize w.nextSeqnum cfg dir true .runs = out at hend
  cases hend with
  | refused hread => simp [readCounter, hmax] at hread
  | read hread => cases hread
  | counted => rfl
  | failed hfate => exact absurd rfl hfate
  | bumped hfate => exact absurd rfl hfate
  | poisoned hfate => exact absurd rfl hfate

section

variable (h : Sound cfg w.impl.next w)
include h

section

variable (hlimit : 8 ≤ cfg.maxFrameBytes)
include hlimit

theorem reopens_store
    (hseq : seq < seqnumMax) (frame : Bytes) (dir : Direction) (stepNo cut : ℕ) :
    Reopens cfg w (.store seq frame dir) (w.stopped cfg stepNo cut (.store seq frame dir))
      (survives cfg w stepNo cut (.store seq frame dir)) := by
  simp only [stopped, h.openOk, Bool.not_true, Bool.false_eq_true, if_false]
  cases hjob : w.impl.storeJob cfg seq frame dir with
  | error e =>
    have hkept : survives cfg w stepNo cut (.store seq frame dir) = fun A => A := by
      funext A
      simp [survives, hjob]
    rw [hkept]
    exact reopens_same h _ rfl
  | ok job =>
    obtain ⟨rfl, hlen, hoffset, hbytes⟩ := storeJob_ok hjob
    have hkept : survives cfg w stepNo cut (.store (w.impl.next dir) frame dir) = fun A =>
        if recordDiskSize frame.length ≤ cut then A.put (w.impl.next dir) frame dir else A := by
      funext A
      simp [survives, hjob]
    have hsize : (cfg.encode (frameRecord dir (w.impl.next dir) frame)).length =
        recordDiskSize frame.length := length_encode cfg _
    simp only [hkept, hoffset, h.ends, pwrite_end, hbytes]
    obtain hcut | hwhole := Nat.lt_or_ge cut (recordDiskSize frame.length)
    · -- the frame record is torn
      have hvalid : LogRecord.Valid cfg (frameRecord dir (w.impl.next dir) frame) :=
        ⟨by simp only [frameRecord, seqnumMax] at hseq ⊢; omega, hlen⟩
      rw [List.take_append_of_le_length (by omega)]
      simp only [Nat.not_le.mpr hcut, if_false]
      exact reopens_before h _ (.inr (readRecord_cut cfg hvalid (hsize ▸ hcut))) w.disk.resetTmp
    rw [List.take_append, List.take_of_length_le (hsize ▸ hwhole), hsize]
    simp only [hwhole, if_true]
    obtain hcut | hall := Nat.lt_or_ge (cut - recordDiskSize frame.length)
      (cfg.encode (counterRecord (w.impl.nextAfter dir))).length
    · -- the frame record is whole, the counter record is torn
      have hframe := h.raised.frame hseq hlen
      have htorn := readRecord_cut cfg (valid_counterRecord hlimit (w.impl.nextAfter dir)) hcut
      have hopen := hframe.openLog (.inr htorn) w.disk.resetTmp
      rw [List.append_assoc] at hopen
      refine ⟨_, hopen, sound_openedOn hframe, .frame rfl ?_⟩
      exact Tracks.framesIn_joined cfg h.tracks.placed _ _ _ _
    -- both records are whole: the call is as good as done
    rw [List.take_of_length_le hall]
    have hdone := store_runs h.toAtEnd (rfl : w.impl.next dir = w.impl.next dir) hlen
    have hbehind := reopens_behind h hlimit (c := .store (w.impl.next dir) frame dir) hseq
      _ (congrArg (fun out => out.1.disk.log) hdone).symm
    rw [hdone] at hbehind
    exact hbehind

theorem reopens_nextSeqnum
    (dir : Direction) (increment : Bool) (stepNo cut : ℕ) :
    Reopens cfg w (.nextSeqnum dir increment)
      (w.stopped cfg stepNo cut (.nextSeqnum dir increment)) fun A => A := by
  simp only [stopped, h.openOk, Bool.not_true, Bool.false_eq_true, if_false]
  cases hread : readCounter (w.impl.next dir) increment with
  | error e => exact reopens_same h _ rfl
  | ok current =>
    cases increment with
    | false => exact reopens_same h _ rfl
    | true =>
      have hoffset : ((w.impl.bump dir).counterJob cfg).offset = w.disk.log.length := h.ends
      simp only [if_true, hoffset, pwrite_end, flatten_counterJob]
      obtain hcut | hall := Nat.lt_or_ge cut
        (cfg.encode (counterRecord (w.impl.bump dir).next)).length
      · have htorn := readRecord_cut cfg (valid_counterRecord hlimit (w.impl.bump dir).next) hcut
        exact reopens_before h _ (.inr htorn) w.disk.resetTmp
      rw [List.take_of_length_le hall]
      have hmax : w.impl.next dir ≠ seqnumMax := fun hmax => by
        simp [readCounter, hmax] at hread
      have hdone := nextSeqnum_runs cfg h.toAtEnd hmax
      exact reopens_behind h hlimit (c := .nextSeqnum dir true) trivial _
        (congrArg (fun out => out.1.disk.log) hdone).symm

theorem reopens_reset
    (hc : BelowMax c) {next : Direction → ℕ} (stepNo cut : ℕ)
    (hserve : w.serve cfg .runs c =
      ((w.resetStoreTo cfg next .runs).1, .done (w.resetStoreTo cfg next .runs).2))
    (hnote : ∀ A : Archive, A.note c (.done (.ok ())) = Archive.empty) :
    Reopens cfg w c (stopReset stepNo cut w.disk (cfg.resetSteps next)) fun A =>
      if .rename ∈ (cfg.resetSteps next).take stepNo then Archive.empty else A := by
  have hlog := log_stopReset cfg next w.disk stepNo cut
  by_cases hrenamed : ResetStep.rename ∈ (cfg.resetSteps next).take stepNo
  · have hdone : w.resetStoreTo cfg next .runs =
        ({ disk := { log := cfg.freshLog next }, impl := w.impl.resetDone next }, .ok ()) := by
      simp [resetStoreTo, h.openOk, foldl_resetSteps]
    rw [hdone] at hserve
    rw [if_pos hrenamed] at hlog
    have hbehind := reopens_behind h hlimit hc (stopReset stepNo cut w.disk (cfg.resetSteps next))
      (by rw [hserve, hlog])
    simp only [hserve, hnote] at hbehind
    simpa only [hrenamed, if_true] using hbehind
  · rw [if_neg hrenamed] at hlog
    simpa only [hrenamed, if_false] using reopens_same h c hlog

theorem reopens_stopped (hc : BelowMax c) (stepNo cut : ℕ) :
    Reopens cfg w c (w.stopped cfg stepNo cut c) (survives cfg w stepNo cut c) := by
  cases c with
  | store seq frame dir => exact reopens_store h hlimit hc frame dir stepNo cut
  | retrieve first last dir visitor =>
    refine reopens_same h _ ?_
    simp [stopped]
  | nextSeqnum dir increment => exact reopens_nextSeqnum h hlimit dir increment stepNo cut
  | reset =>
    have hreset := reopens_reset h hlimit (c := .reset) trivial stepNo cut rfl fun _ => rfl
    simp only [stopped, h.openOk, Bool.not_true, Bool.false_eq_true, if_false]
    exact hreset
  | resetTo nextIn nextOut =>
    by_cases hvalid : resetToTargetsValid nextIn nextOut = true
    · have hserve : w.serve cfg .runs (.resetTo nextIn nextOut) =
          ((w.resetStoreTo cfg (targets nextIn nextOut) .runs).1,
            .done (w.resetStoreTo cfg (targets nextIn nextOut) .runs).2) := by
        simp [serve, resetTo, hvalid]
      have hreset := reopens_reset h hlimit (c := .resetTo nextIn nextOut) trivial stepNo cut
        hserve fun _ => rfl
      have hkept : survives cfg w stepNo cut (.resetTo nextIn nextOut) = fun A =>
          if .rename ∈ (cfg.resetSteps (targets nextIn nextOut)).take stepNo then Archive.empty
          else A := by
        funext A
        simp [survives, hvalid]
      rw [hkept]
      simpa [stopped, h.openOk, hvalid] using hreset
    · have hkept : survives cfg w stepNo cut (.resetTo nextIn nextOut) = fun A => A := by
        funext A
        simp [survives, hvalid]
      rw [hkept]
      refine reopens_same h _ ?_
      simp [stopped, hvalid]

end

end

/-! ## Runs -/

/-- The history of a log and the record of its frames: the log starts empty, calls
run on it, and the process stops in a call and opens the log again. -/
inductive Run (cfg : FileStoreConfig) : FileWorld → Archive → Prop
  | opened {w : FileWorld} (h : cfg.openLog { log := [] } = some w) : Run cfg w Archive.empty
  | served {w : FileWorld} {A : Archive} (hrun : Run cfg w A) (c : StoreCall) (hc : BelowMax c) :
      Run cfg (w.serve cfg .runs c).1 (A.note c (w.serve cfg .runs c).2)
  | restarted {w w' : FileWorld} {A : Archive} (hrun : Run cfg w A) (c : StoreCall)
      (hc : BelowMax c) (stepNo cut : ℕ)
      (hopen : cfg.openLog (w.stopped cfg stepNo cut c) = some w') :
      Run cfg w' (survives cfg w stepNo cut c A)

/-- A store and the record of its frames agree. -/
structure Recorded (cfg : FileStoreConfig) (w : FileWorld) (A : Archive) : Prop where
  sound : Sound cfg w.impl.next w
  keeps : Keeps (view w) A

theorem Recovers.keeps (h : Recovers cfg w c w' kept) (hsound : Sound cfg w.impl.next w)
    (hlimit : 8 ≤ cfg.maxFrameBytes) (hc : BelowMax c) (hA : Keeps (view w) A) :
    Keeps (view w') (kept A) := by
  cases h with
  | before hview => rwa [hview]
  | frame hseq hview =>
    rw [hview, hseq]
    exact hA.put hsound.view_ordered _ _
  | behind hview =>
    rw [hview]
    exact (effect_runs hsound hlimit hc).keeps hsound.view_ordered hA

theorem Run.recorded (hlimit : 8 ≤ cfg.maxFrameBytes) (h : Run cfg w A) : Recorded cfg w A := by
  induction h with
  | opened hopen =>
    obtain ⟨w', hopen', hsound, hview⟩ := openLog_empty hlimit
    obtain rfl := Option.some.inj (hopen'.symm.trans hopen)
    exact ⟨hsound, hview ▸ keeps_fresh _⟩
  | served _ c hc ih =>
    obtain ⟨hsound, -⟩ := serve_runs ih.sound hlimit hc
    exact ⟨hsound, (effect_runs ih.sound hlimit hc).keeps ih.sound.view_ordered ih.keeps⟩
  | restarted _ c hc stepNo cut hopen ih =>
    obtain ⟨w', hopen', hsound, hrec⟩ := reopens_stopped ih.sound hlimit hc stepNo cut
    obtain rfl := Option.some.inj (hopen'.symm.trans hopen)
    exact ⟨hsound, hrec.keeps ih.sound hlimit hc ih.keeps⟩

theorem Sound.retrieve_recorded (h : Sound cfg counters w) (hA : Keeps (view w) A) {s : ℕ}
    {f : Bytes} (hf : A.unbroken dir s = some f) :
    w.retrieve s s dir (fun _ => .cont) .runs = ([(s, f)], .ok ()) := by
  have hord := h.view_ordered
  have hfound : foundIn ((view w).frames dir) s = some f := by
    rw [hA.foundIn_eq hord]
    exact hf
  have hpos : 0 < s := by
    obtain ⟨x, hx, -⟩ := Option.map_eq_some_iff.mp hfound
    obtain ⟨-, -, hmem, rfl⟩ := lookUpSeq_place hx
    exact hord.pos dir x hmem
  obtain ⟨visited, hrun, hwalk⟩ := FrameStore.retrieve_run hord dir hpos (.inr (Nat.le_refl s))
  rw [if_neg (Nat.pos_iff_ne_zero.mp hpos)] at hrun hwalk
  obtain rfl := hrun.eq_singleton hfound
  rw [h.retrieve_eq (by simp), hwalk]
  simp

theorem Recovers.record (h : Recovers cfg w c w' kept) (A : Archive) :
    ∃ B : Archive, (w'.impl.next = w.impl.next ∧ B = A ∨
        w'.impl.next = (w.serve cfg .runs c).1.impl.next ∧ B = A.note c (w.serve cfg .runs c).2) ∧
      ∀ dir s f, s < w'.impl.next dir → B.unbroken dir s = some f →
        (kept A).unbroken dir s = some f := by
  have hnext : ∀ {F : FrameStore}, view w' = F → w'.impl.next = F.next := by
    rintro F rfl
    rfl
  cases h with
  | before hview => exact ⟨A, .inl ⟨hnext hview, rfl⟩, fun _ _ _ _ hf => hf⟩
  | frame hseq hview =>
    refine ⟨A, .inl ⟨hnext hview, rfl⟩, fun dir s f hlt hf => ?_⟩
    -- the frame stands at the next number, above every number below the counter
    rw [hnext hview] at hlt
    rwa [Archive.unbroken_put_of_lt]
    rintro rfl
    exact hseq ▸ hlt
  | behind hview => exact ⟨_, .inr ⟨hnext hview, rfl⟩, fun _ _ _ _ hf => hf⟩

/-- After any history and a stop anywhere in a call the log opens, the counters are those before or
behind the call, and every number stored below them that no hole separates from the first one is
retrieved with the bytes stored last for it. -/
theorem stopped_log_recovers (hlimit : 8 ≤ cfg.maxFrameBytes) {A : Archive} (hrun : Run cfg w A)
    (hc : BelowMax c) (stepNo cut : ℕ) :
    ∃ w', cfg.openLog (w.stopped cfg stepNo cut c) = some w' ∧
      ∃ B : Archive, (w'.impl.next = w.impl.next ∧ B = A ∨
          w'.impl.next = (w.serve cfg .runs c).1.impl.next ∧ B = A.note c (w.serve cfg .runs c).2) ∧
        ∀ dir s f, s < w'.impl.next dir → B.unbroken dir s = some f →
          w'.retrieve s s dir (fun _ => .cont) .runs = ([(s, f)], .ok ()) := by
  obtain ⟨hsound, hkeeps⟩ := hrun.recorded hlimit
  obtain ⟨w', hopen, hsound', hrec⟩ := reopens_stopped hsound hlimit hc stepNo cut
  have hkeeps' := hrec.keeps hsound hlimit hc hkeeps
  obtain ⟨B, hcounters, hkept⟩ := hrec.record A
  refine ⟨w', hopen, B, hcounters, fun dir s f hlt hf => ?_⟩
  exact hsound'.retrieve_recorded hkeeps' (hkept dir s f hlt hf)

def smallFrames : FileStoreConfig where
  maxFrameBytes := 16
  expectedHash := 7
  crc32c := fun bytes => UInt32.ofNat bytes.length
  maxFrameBytes_le := by decide

def openedEmpty : FileWorld :=
  { disk := { log := (smallFrames.freshWrites (targets 1 1)).foldl (fun f w => pwrite f w.1 w.2) [] }
    impl := { writePos := freshSize, next := targets 1 1, index := fun _ => [] } }

theorem openLog_openedEmpty : smallFrames.openLog { log := [] } = some openedEmpty := rfl

/-- A new log with one byte of its sentinel is refused, though nothing was ever stored. -/
theorem one_byte_log_refused :
    smallFrames.openLog { log := (smallFrames.freshLog (targets 1 1)).take 1 } = none := rfl

theorem run_openedEmpty : Run smallFrames openedEmpty Archive.empty := .opened openLog_openedEmpty

/-- A frame is stored, and the process stops between the frame record and the counter
record of a second one. -/
theorem stopped_log_recovers_second_frame : ∃ w A, Run smallFrames w A ∧ A .outbound 1 = some [65] ∧
      ∃ w', smallFrames.openLog (w.stopped smallFrames 0 24 (.store 2 [66] .outbound)) = some w' ∧
        ∃ B : Archive, (w'.impl.next = w.impl.next ∧ B = A ∨
            w'.impl.next = (w.serve smallFrames .runs (.store 2 [66] .outbound)).1.impl.next ∧
              B = A.note (.store 2 [66] .outbound)
                (w.serve smallFrames .runs (.store 2 [66] .outbound)).2) ∧
          ∀ dir s f, s < w'.impl.next dir → B.unbroken dir s = some f →
            w'.retrieve s s dir (fun _ => .cont) .runs = ([(s, f)], .ok ()) :=
  have hrun := run_openedEmpty.served (.store 1 [65] .outbound) (by decide)
  ⟨_, _, hrun, by decide +kernel, stopped_log_recovers (by decide) hrun (by decide) 0 24⟩

/-- A number drawn without a frame leaves a hole, and the frame stored behind it is
not found after the process stopped, though it was stored. -/
theorem hole_hides_stored_frame : ∃ w A, Run smallFrames w A ∧ A .outbound 3 = some [66] ∧
      (smallFrames.openLog (w.stopped smallFrames 0 0 (.nextSeqnum .inbound true))).map
          (fun w' => (w'.impl.next .outbound, w'.retrieve 3 3 .outbound (fun _ => .cont) .runs)) =
        some (4, [], .error .storeSeqnumGap) :=
  have hfirst := run_openedEmpty.served (.store 1 [65] .outbound) (by decide)
  have hdrawn := hfirst.served (.nextSeqnum .outbound true) (by decide)
  have hrun := hdrawn.served (.store 3 [66] .outbound) (by decide)
  ⟨_, _, hrun, by decide +kernel, by decide +kernel⟩

end Fixpp.Analysis.StoreLog
