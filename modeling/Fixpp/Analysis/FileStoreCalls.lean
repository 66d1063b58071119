import Fixpp.Analysis.FileStoreSteps

/-!
# The file store answers as a numbered store

A call on a usable store is answered as the numbered store of the interface answers it, and one in
which the process stops leaves a log that opens as such a store.
-/

namespace Fixpp.Analysis.StoreLog

open Foundation Interface Model FileStoreConfig FileStore ResetStep List FrameStore FileWorld

variable {cfg : FileStoreConfig} {w : FileWorld} {counters : Direction → ℕ}
variable {seq : ℕ} {frame : Bytes}

def view (w : FileWorld) : FrameStore := ⟨framesIn w.disk.log w.impl.index, w.impl.next⟩

@[simp] theorem view_next (w : FileWorld) : (view w).next = w.impl.next := rfl

/-- A usable store appends at the end of its log. -/
structure AtEnd (w : FileWorld) : Prop where
  openOk : w.impl.openOk = true
  valid : w.impl.valid = true
  ends : w.impl.writePos = w.disk.log.length

/-- A usable store whose log gives the index in memory; `counters` are those on the
log, which an increment that failed leaves behind. -/
structure Sound (cfg : FileStoreConfig) (counters : Direction → ℕ) (w : FileWorld) : Prop
    extends AtEnd w where
  tracks : Tracks cfg w.disk.log w.impl.index counters counters
  counters_le : ∀ d, counters d ≤ w.impl.next d ∧ w.impl.next d ≤ seqnumMax

section

variable (h : Sound cfg counters w)
include h

theorem Sound.raised : Tracks cfg w.disk.log w.impl.index counters w.impl.next :=
  h.tracks.raise w.impl.next h.counters_le

theorem Sound.view_ordered : (view w).Ordered := h.raised.ordered

theorem Sound.resetTmp (tmp : Option Bytes) :
    Sound cfg counters { w with disk := { w.disk with resetTmp := tmp } } :=
  ⟨⟨h.openOk, h.valid, h.ends⟩, h.tracks, h.counters_le⟩

/-! ## Retrieving -/

theorem Sound.retrieve_eq {fate : Fate} (hfate : fate ≠ .cancelled)
    (first last : ℕ) (dir : Direction) (visitor : Visitor) :
    w.retrieve first last dir visitor fate =
      retrieveEntries Prod.fst (fun e => .ok e.2) ((view w).frames dir)
        ((view w).next dir) first last visitor := by
  have hread : ∀ e ∈ w.impl.index dir, .ok (frameOf w.disk.log e).2 =
      w.impl.readFrame w.disk.log w.impl.generation e := by
    intro e he
    have hlen : (slice w.disk.log (e.fileOffset + headerSize) e.len).length = e.len := by
      have := h.tracks.placed dir e he
      simp only [slice, length_take, length_drop]
      omega
    simp [readFrame, frameOf, h.valid, hlen]
  have hmap : retrieveEntries Prod.fst (fun x => .ok x.2) (framesIn w.disk.log w.impl.index dir)
      (w.impl.next dir) first last visitor = _ :=
    retrieveEntries_map (frameOf_fst w.disk.log) hread (w.impl.next dir) first last visitor
  simp only [retrieve, h.openOk, hfate, Bool.not_true, Bool.false_eq_true, if_false]
  exact hmap.symm

end

/-! ## Storing -/

variable {dir : Direction}

theorem storeJob_ok {s : FileStore} {job : WriteJob} (h : s.storeJob cfg seq frame dir = .ok job) :
    seq = s.next dir ∧ frame.length ≤ cfg.maxFrameBytes ∧ job.offset = s.writePos ∧
      job.chunks.flatten = cfg.encode (frameRecord dir seq frame) ++
        cfg.encode (counterRecord (s.nextAfter dir)) := by
  simp only [storeJob] at h
  split at h
  · cases h
  rename_i hseq
  split at h
  · cases h
  rename_i hlen
  obtain rfl := Except.ok.inj h
  refine ⟨not_not.mp hseq, Nat.not_lt.mp hlen, rfl, ?_⟩
  have hpad : padding (counterRecord (s.nextAfter dir)) = [] := by
    simp [padding, recordPadding, headerSize]
  rw [flatten_filter_not_isEmpty]
  simp [encode, hpad, frameRecord]

def afterStore (cfg : FileStoreConfig) (w : FileWorld) (frame : Bytes) (dir : Direction) :
    FileWorld :=
  { disk := { w.disk with log := w.disk.log ++
                (cfg.encode (frameRecord dir (w.impl.next dir) frame) ++
                  cfg.encode (counterRecord (w.impl.nextAfter dir))) }
    impl := (w.impl.storeEnd (w.impl.next dir) frame dir .ok).1 }

inductive StoreEnd (cfg : FileStoreConfig) (w : FileWorld) (seq : ℕ) (frame : Bytes)
    (dir : Direction) (fate : Fate) : FileWorld × Except Error Unit → Prop
  | refused {e : Error} (hjob : w.impl.storeJob cfg seq frame dir = .error e) :
      StoreEnd cfg w seq frame dir fate (w, .error e)
  | stored (hseq : seq = w.impl.next dir) (hlen : frame.length ≤ cfg.maxFrameBytes) :
      StoreEnd cfg w seq frame dir fate (afterStore cfg w frame dir, .ok ())
  | failed (hfate : fate ≠ .runs) (e : Error) : StoreEnd cfg w seq frame dir fate (w, .error e)
  | poisoned (hfate : fate ≠ .runs) {w' : FileWorld} (hopen : w'.impl.openOk = false) (e : Error) :
      StoreEnd cfg w seq frame dir fate (w', .error e)

theorem store_ends (cfg : FileStoreConfig) (h : AtEnd w) (seq : ℕ) (frame : Bytes) (dir : Direction)
    (fate : Fate) : StoreEnd cfg w seq frame dir fate (w.store cfg seq frame dir fate) := by
  simp only [store, h.openOk, Bool.not_true, Bool.false_eq_true, if_false]
  by_cases hcancel : fate = .cancelled
  · simp only [hcancel, if_true]
    exact .failed (by simp) _
  simp only [hcancel, if_false]
  cases hjob : w.impl.storeJob cfg seq frame dir with
  | error e => exact .refused hjob
  | ok job =>
    obtain ⟨rfl, hlen, hoffset, hbytes⟩ := storeJob_ok hjob
    have hend := jobEnd_run (hoffset.trans h.ends) fate.writeFault
    have hfaulty : (job.run true fate.writeFault w.disk.log).2 ≠ .ok → fate ≠ .runs := by
      rintro hne rfl
      exact hne rfl
    simp only [h.valid]
    generalize job.run true fate.writeFault w.disk.log = io at hend hfaulty
    cases hend with
    | ok =>
      rw [hbytes]
      exact .stored rfl hlen
    | failed => exact .failed (hfaulty nofun) _
    | unrestored k => exact .poisoned (hfaulty nofun) rfl _

theorem AtEnd.stored (h : AtEnd w) (frame : Bytes) (dir : Direction) :
    AtEnd (afterStore cfg w frame dir) :=
  ⟨h.openOk, h.valid, by simp [afterStore, storeEnd, h.ends, frameRecord, Nat.add_assoc]⟩

theorem Sound.stored (h : Sound cfg counters w) (hlimit : 8 ≤ cfg.maxFrameBytes)
    (hlt : w.impl.next dir < seqnumMax) (hlen : frame.length ≤ cfg.maxFrameBytes) :
    Sound cfg (afterStore cfg w frame dir).impl.next (afterStore cfg w frame dir) ∧
      view (afterStore cfg w frame dir) =
        ((view w).put (w.impl.next dir) frame dir).advance dir := by
  have hput := h.raised.frame hlt hlen
  have hadvanced := hput.ordered.advance hlt
  have hnext : ∀ d, w.impl.next d ≤ w.impl.nextAfter dir d ∧ w.impl.nextAfter dir d ≤ seqnumMax := by
    intro d
    refine ⟨?_, hadvanced.next_le d⟩
    by_cases hd : d = dir
    · subst hd
      simp [nextAfter, succSeqnum_of_lt hlt]
    · simp [nextAfter, hd]
  have hboth := (hput.raise _ hnext).counter hlimit _ fun d => (hnext d).2
  have hframes := framesIn_append hput.placed (cfg.encode (counterRecord (w.impl.nextAfter dir)))
  have hjoined := Tracks.framesIn_joined cfg h.tracks.placed (w.impl.next dir) frame dir w.impl.next
  refine ⟨⟨h.toAtEnd.stored frame dir, ?_, fun d => ⟨Nat.le_refl _, (hnext d).2⟩⟩, ?_⟩
  · simpa [afterStore, storeEnd, Tracks.joined, Tracks.entryAt, h.ends] using hboth
  rw [view, view, ← hjoined, ← hframes]
  simp [afterStore, advance, storeEnd, nextAfter, Tracks.joined,
    Tracks.entryAt, h.ends]

/-- How a call on a usable store can end: answered as the numbered store answers it,
or, where something goes wrong, with nothing changed but the temporary file, with a
counter that moved on in memory only, or with a store that refuses every later call. -/
inductive Served (cfg : FileStoreConfig) (counters : Direction → ℕ) (w : FileWorld) (fate : Fate)
    (c : StoreCall) : FileWorld × StoreReply → Prop
  | answered {w' : FileWorld} {r : StoreReply} {counters' : Direction → ℕ}
      (hsound : Sound cfg counters' w')
      (hcounters : counters' = w'.impl.next ∨ counters' = counters ∧ w'.impl.next = w.impl.next)
      (hview : (view w', r) = (view w).answer cfg.maxFrameBytes c) :
      Served cfg counters w fate c (w', r)
  | failed {r : StoreReply} (hfate : fate ≠ .runs) (tmp : Option Bytes)
      (hnote : ∀ A : Archive, A.note c r = A) :
      Served cfg counters w fate c ({ w with disk := { w.disk with resetTmp := tmp } }, r)
  | bumped {dir : Direction} {r : Except Error ℕ} (hfate : fate ≠ .runs)
      (hc : c = .nextSeqnum dir true) (hmax : w.impl.next dir ≠ seqnumMax) :
      Served cfg counters w fate c ({ w with impl := w.impl.bump dir }, .number r)
  | poisoned {w' : FileWorld} {r : StoreReply} (hfate : fate ≠ .runs)
      (hopen : w'.impl.openOk = false) : Served cfg counters w fate c (w', r)

theorem served_store (h : Sound cfg counters w) (hlimit : 8 ≤ cfg.maxFrameBytes)
    (hseq : seq < seqnumMax) (frame : Bytes) (dir : Direction) (fate : Fate) :
    Served cfg counters w fate (.store seq frame dir) (w.serve cfg fate (.store seq frame dir)) := by
  have hend := store_ends cfg h.toAtEnd seq frame dir fate
  simp only [serve]
  generalize w.store cfg seq frame dir fate = out at hend
  cases hend with
  | refused hjob =>
    refine .answered h (.inr ⟨rfl, rfl⟩) ?_
    simp only [storeJob] at hjob
    split at hjob
    · rename_i hne
      simp [answer, hne, Except.error.inj hjob]
    rename_i heq
    split at hjob
    · rename_i hlong
      simp [answer, not_not.mp heq, hlong, Except.error.inj hjob]
    · cases hjob
  | stored hnext hlen =>
    subst hnext
    obtain ⟨hsound, hview⟩ := h.stored hlimit hseq hlen
    refine .answered hsound (.inl rfl) ?_
    simp [hview, answer, Nat.not_lt.mpr hlen]
  | failed hfate => exact .failed hfate w.disk.resetTmp fun _ => rfl
  | poisoned hfate hopen => exact .poisoned hfate hopen

/-! ## Counting -/

theorem flatten_counterJob (s : FileStore) :
    (s.counterJob cfg).chunks.flatten = cfg.encode (counterRecord s.next) := by
  have hpad : padding (counterRecord s.next) = [] := by
    simp [padding, recordPadding, headerSize]
  simp [counterJob, encode, hpad]

theorem Sound.next_le_bump (h : Sound cfg counters w) (hmax : w.impl.next dir ≠ seqnumMax)
    (d : Direction) :
    w.impl.next d ≤ (w.impl.bump dir).next d ∧ (w.impl.bump dir).next d ≤ seqnumMax := by
  have hle := h.counters_le dir
  by_cases hd : d = dir
  · subst hd
    simp only [bump, nextAfter, Function.update_self,
      succSeqnum_of_lt (Nat.lt_of_le_of_ne hle.2 hmax)]
    omega
  · simp only [bump, nextAfter, Function.update_of_ne hd]
    exact ⟨Nat.le_refl _, (h.counters_le d).2⟩

theorem Sound.bumped (h : Sound cfg counters w) (hmax : w.impl.next dir ≠ seqnumMax) :
    Sound cfg counters { w with impl := w.impl.bump dir } :=
  ⟨⟨h.openOk, h.valid, h.ends⟩, h.tracks, fun d =>
    ⟨Nat.le_trans (h.counters_le d).1 (h.next_le_bump hmax d).1, (h.next_le_bump hmax d).2⟩⟩

def afterCount (cfg : FileStoreConfig) (w : FileWorld) (dir : Direction) : FileWorld :=
  { disk := { w.disk with log := w.disk.log ++ cfg.encode (counterRecord (w.impl.bump dir).next) }
    impl := ((w.impl.bump dir).counterEnd (w.impl.next dir) .ok).1 }

inductive CountEnd (cfg : FileStoreConfig) (w : FileWorld) (dir : Direction) (increment : Bool)
    (fate : Fate) : FileWorld × Except Error ℕ → Prop
  | refused {e : Error} (hread : readCounter (w.impl.next dir) increment = .error e) :
      CountEnd cfg w dir increment fate (w, .error e)
  | read (hread : increment = false) : CountEnd cfg w dir increment fate (w, .ok (w.impl.next dir))
  | counted (hinc : increment = true) (hmax : w.impl.next dir ≠ seqnumMax) :
      CountEnd cfg w dir increment fate (afterCount cfg w dir, .ok (w.impl.next dir))
  | failed (hfate : fate ≠ .runs) (e : Error) : CountEnd cfg w dir increment fate (w, .error e)
  | bumped (hfate : fate ≠ .runs) (hinc : increment = true) (hmax : w.impl.next dir ≠ seqnumMax)
      (e : Error) :
      CountEnd cfg w dir increment fate ({ w with impl := w.impl.bump dir }, .error e)
  | poisoned (hfate : fate ≠ .runs) {w' : FileWorld} (hopen : w'.impl.openOk = false) (e : Error) :
      CountEnd cfg w dir increment fate (w', .error e)

theorem nextSeqnum_ends (cfg : FileStoreConfig) (h : AtEnd w) (dir : Direction) (increment : Bool)
    (fate : Fate) : CountEnd cfg w dir increment fate (w.nextSeqnum cfg dir increment fate) := by
  simp only [nextSeqnum, h.openOk, Bool.not_true, Bool.false_eq_true, if_false]
  by_cases hcancel : fate = .cancelled
  · simp only [hcancel, if_true]
    exact .failed (by simp) _
  simp only [hcancel, if_false]
  cases hread : readCounter (w.impl.next dir) increment with
  | error e => exact .refused hread
  | ok current =>
    have hmax : ¬ (increment = true ∧ w.impl.next dir = seqnumMax) := by
      intro hmax
      simp [readCounter, hmax] at hread
    obtain rfl : w.impl.next dir = current := by
      rw [readCounter, if_neg hmax] at hread
      exact Except.ok.inj hread
    cases increment with
    | false => exact .read rfl
    | true =>
      have hmax : w.impl.next dir ≠ seqnumMax := by simpa using hmax
      have hoffset : ((w.impl.bump dir).counterJob cfg).offset = w.disk.log.length := h.ends
      have hend := jobEnd_run hoffset fate.writeFault
      have hfaulty : (((w.impl.bump dir).counterJob cfg).run true fate.writeFault
          w.disk.log).2 ≠ .ok → fate ≠ .runs := by
        rintro hne rfl
        exact hne rfl
      simp only [h.valid, if_true]
      generalize ((w.impl.bump dir).counterJob cfg).run true fate.writeFault w.disk.log = io
        at hend hfaulty
      cases hend with
      | ok =>
        rw [flatten_counterJob]
        exact .counted rfl hmax
      | failed => exact .bumped (hfaulty (by simp)) rfl hmax _
      | unrestored k => exact .poisoned (hfaulty (by simp)) rfl _

theorem AtEnd.counted (h : AtEnd w) (dir : Direction) : AtEnd (afterCount cfg w dir) :=
  ⟨h.openOk, h.valid, by simp [afterCount, counterEnd, bump, h.ends]⟩

theorem Sound.counted (h : Sound cfg counters w) (hlimit : 8 ≤ cfg.maxFrameBytes)
    (hmax : w.impl.next dir ≠ seqnumMax) :
    Sound cfg (afterCount cfg w dir).impl.next (afterCount cfg w dir) ∧
      view (afterCount cfg w dir) = (view w).advance dir := by
  have hnext := h.next_le_bump hmax
  have hcounter := (h.raised.raise _ hnext).counter hlimit _ fun d => (hnext d).2
  have hframes := framesIn_append h.tracks.placed
    (cfg.encode (counterRecord (w.impl.bump dir).next))
  refine ⟨⟨h.toAtEnd.counted dir, hcounter, fun d => ⟨Nat.le_refl _, (hnext d).2⟩⟩, ?_⟩
  rw [view, view, ← hframes]
  rfl

theorem served_nextSeqnum (h : Sound cfg counters w) (hlimit : 8 ≤ cfg.maxFrameBytes)
    (dir : Direction) (increment : Bool) (fate : Fate) :
    Served cfg counters w fate (.nextSeqnum dir increment)
      (w.serve cfg fate (.nextSeqnum dir increment)) := by
  have hend := nextSeqnum_ends cfg h.toAtEnd dir increment fate
  simp only [serve]
  generalize w.nextSeqnum cfg dir increment fate = out at hend
  cases hend with
  | refused hread =>
    refine .answered h (.inr ⟨rfl, rfl⟩) ?_
    simp [answer, hread]
  | read hread =>
    subst hread
    refine .answered h (.inr ⟨rfl, rfl⟩) ?_
    simp [answer, readCounter]
  | counted hinc hmax =>
    subst hinc
    obtain ⟨hsound, hview⟩ := h.counted hlimit hmax
    refine .answered hsound (.inl rfl) ?_
    simp [hview, answer, readCounter, hmax]
  | failed hfate => exact .failed hfate w.disk.resetTmp fun _ => rfl
  | bumped hfate hinc hmax => exact .bumped hfate (hinc ▸ rfl) hmax
  | poisoned hfate hopen => exact .poisoned hfate hopen

/-! ## Resetting -/

variable (next : Direction → ℕ)

theorem foldl_freshWrites :
    (cfg.freshWrites next).foldl (fun f w => pwrite f w.1 w.2) [] = cfg.freshLog next := by
  have hend : ∀ {log : Bytes} {offset : ℕ} (bytes : Bytes), log.length = offset →
      pwrite log offset bytes = log ++ bytes := by
    rintro log offset bytes rfl
    exact pwrite_end log bytes
  have hsentinel : padding (sentinelRecord cfg.expectedHash) = [] := by
    simp [padding, recordPadding, headerSize]
  have hcounter : padding (counterRecord next) = [] := by
    simp [padding, recordPadding, headerSize]
  simp only [freshWrites, foldl_cons, foldl_nil]
  -- each write starts where the one before it ended
  have h1 : pwrite [] 0 (cfg.header (sentinelRecord cfg.expectedHash)) =
      cfg.header (sentinelRecord cfg.expectedHash) := hend _ rfl
  rw [h1]
  have h2 := hend (sentinelRecord cfg.expectedHash).payload
    (length_header cfg (sentinelRecord cfg.expectedHash))
  rw [h2]
  have h3 := hend (cfg.header (counterRecord next)) (show (cfg.header
    (sentinelRecord cfg.expectedHash) ++ (sentinelRecord cfg.expectedHash).payload).length =
      recordDiskSize 32 by simp [headerSize])
  rw [h3, hend (counterRecord next).payload (by simp [headerSize])]
  simp [freshLog, encode, hsentinel, hcounter]

theorem log_foldl_perform {steps : List ResetStep} (h : rename ∉ steps) (disk : Disk) :
    (steps.foldl perform disk).log = disk.log := by
  induction steps generalizing disk with
  | nil => rfl
  | cons s rest ih =>
    simp only [mem_cons, not_or] at h
    rw [foldl_cons, ih h.2]
    cases s with
    | rename => exact absurd rfl h.1
    | openTmp => rfl
    | writeTmp => rfl
    | datasyncTmp => rfl
    | makePath => rfl
    | throwing => rfl
    | openDirectory => rfl
    | fsyncDirectory => rfl
    | reopen => rfl
    | lock => rfl

def beforeRename (cfg : FileStoreConfig) (next : Direction → ℕ) : List ResetStep :=
  ResetStep.openTmp :: (cfg.freshWrites next).map (fun w => .writeTmp w.1 w.2) ++
    [ResetStep.datasyncTmp, .makePath]

def behindRename : List ResetStep :=
  [.throwing, .openDirectory, .fsyncDirectory, .reopen, .lock]

theorem resetSteps_eq : cfg.resetSteps next = beforeRename cfg next ++ .rename :: behindRename := by
  simp [resetSteps, beforeRename, behindRename]

theorem rename_not_mem_before : .rename ∉ beforeRename cfg next := by
  simp [beforeRename]

theorem foldl_beforeRename (disk : Disk) : (beforeRename cfg next).foldl perform disk =
      { disk with resetTmp := some (cfg.freshLog next) } := by
  have hwrites : ∀ (writes : List (ℕ × Bytes)) (tmp : Bytes),
      (writes.map fun w => writeTmp w.1 w.2).foldl perform
          { disk with resetTmp := some tmp } =
        { disk with resetTmp := some (writes.foldl (fun f w => pwrite f w.1 w.2) tmp) } := by
    intro writes
    induction writes with
    | nil => exact fun _ => rfl
    | cons write rest ih => exact fun tmp => ih (pwrite tmp write.1 write.2)
  simp only [beforeRename, cons_append, foldl_cons, foldl_append, foldl_nil]
  have hstart : perform disk .openTmp = { disk with resetTmp := some [] } := rfl
  rw [hstart, hwrites, foldl_freshWrites]
  rfl

theorem foldl_renamed (disk : Disk) (n : ℕ) :
    (beforeRename cfg next ++ .rename :: behindRename.take n).foldl perform disk =
      { log := cfg.freshLog next } := by
  have hrest : ∀ (d : Disk) (n : ℕ), (behindRename.take n).foldl perform d = d := by
    intro d n
    have hidle : ∀ steps : List ResetStep, (∀ s ∈ steps, ∀ d, perform d s = d) →
        steps.foldl perform d = d := by
      intro steps h
      induction steps with
      | nil => rfl
      | cons s rest ih =>
        rw [foldl_cons, h s (by simp), ih fun t ht => h t (by simp [ht])]
    refine hidle _ fun s hs e => ?_
    have hs := mem_of_mem_take hs
    simp only [behindRename, mem_cons, not_mem_nil, or_false] at hs
    rcases hs with rfl | rfl | rfl | rfl | rfl <;> rfl
  rw [foldl_append, foldl_beforeRename, foldl_cons, hrest]
  rfl

theorem foldl_resetSteps (disk : Disk) :
    (cfg.resetSteps next).foldl perform disk = { log := cfg.freshLog next } := by
  rw [resetSteps_eq]
  exact foldl_renamed next disk behindRename.length

theorem log_breakOff (disk : Disk) (written : ℕ) (s : ResetStep) :
    (s.breakOff disk written).log = disk.log := by
  cases s <;> rfl

theorem log_stopReset (cfg : FileStoreConfig) (next : Direction → ℕ) (disk : Disk)
    (stepNo written : ℕ) :
    (stopReset stepNo written disk (cfg.resetSteps next)).log =
      if .rename ∈ (cfg.resetSteps next).take stepNo then cfg.freshLog next else disk.log := by
  have hlog : (stopReset stepNo written disk (cfg.resetSteps next)).log =
      (((cfg.resetSteps next).take stepNo).foldl perform disk).log := by
    simp only [stopReset]
    split
    · rfl
    · exact log_breakOff _ _ _
  rw [hlog]
  split
  · rename_i hrenamed
    have hpast : ∃ n, (cfg.resetSteps next).take stepNo =
        beforeRename cfg next ++ .rename :: behindRename.take n := by
      rw [resetSteps_eq, take_append] at hrenamed ⊢
      obtain hlt | hle := Nat.lt_or_ge (beforeRename cfg next).length stepNo
      · obtain ⟨n, hn⟩ := Nat.exists_eq_add_of_lt hlt
        refine ⟨n, ?_⟩
        rw [take_of_length_le (Nat.le_of_lt hlt), hn]
        congr 1
        rw [show (beforeRename cfg next).length + n + 1 - (beforeRename cfg next).length = n + 1 by
          omega]
        rfl
      · rw [Nat.sub_eq_zero_of_le hle] at hrenamed
        simp only [take_zero, append_nil] at hrenamed
        exact absurd (mem_of_mem_take hrenamed) (rename_not_mem_before next)
    obtain ⟨n, hn⟩ := hpast
    rw [hn, foldl_renamed]
  · rename_i hnot
    exact log_foldl_perform hnot disk

/-- Where a step fails, the same: the job removes at most its temporary file. -/
theorem log_failReset (cfg : FileStoreConfig) (next : Direction → ℕ) (disk : Disk)
    (stepNo written : ℕ) :
    (failReset stepNo written disk (cfg.resetSteps next)).log =
      if .rename ∈ (cfg.resetSteps next).take stepNo then cfg.freshLog next else disk.log := by
  rw [← log_stopReset cfg next disk stepNo written, failReset]
  split
  · split <;> rfl
  · rfl

theorem sound_fresh (hlimit : 8 ≤ cfg.maxFrameBytes) {next : Direction → ℕ}
    (hnext : ∀ d, next d = 1 ∨ next d = 2) (generation : ℕ) (tmp : Option Bytes) :
    Sound cfg next
      { disk := { log := cfg.freshLog next, resetTmp := tmp }
        impl := { writePos := freshSize, next := next, index := fun _ => []
                  generation := generation } } := by
  have hpos : ∀ d, 0 < next d := fun d => by have := hnext d; omega
  have hle : ∀ d, next d ≤ seqnumMax := fun d => by
    have := hnext d; simp only [seqnumMax]; omega
  refine ⟨⟨rfl, rfl, ?_⟩, ⟨logHolds_freshLog hlimit hle, by simp, ?_⟩,
    fun d => ⟨Nat.le_refl _, hle d⟩⟩
  · simp [freshLog, freshSize]
  · exact ordered_fresh hpos hle

theorem served_reset (h : Sound cfg counters w) (hlimit : 8 ≤ cfg.maxFrameBytes)
    {next : Direction → ℕ} (hnext : ∀ d, next d = 1 ∨ next d = 2) {c : StoreCall}
    (hanswer : (view w).answer cfg.maxFrameBytes c = (fresh next, .done (.ok ())))
    (hnote : ∀ (A : Archive) (e : Error), A.note c (.done (.error e)) = A) (fate : Fate) :
    Served cfg counters w fate c
      ((w.resetStoreTo cfg next fate).1, .done (w.resetStoreTo cfg next fate).2) := by
  have hdone : Served cfg counters w fate c
      ({ disk := (cfg.resetSteps next).foldl perform w.disk
         impl := w.impl.resetDone next }, .done (.ok ())) := by
    have hsound : Sound cfg next
        { disk := { log := cfg.freshLog next }, impl := w.impl.resetDone next } := by
      simpa [resetDone, h.openOk] using
        sound_fresh hlimit hnext (w.impl.generation + 1) none
    rw [foldl_resetSteps]
    exact .answered hsound (.inl rfl) hanswer.symm
  simp only [resetStoreTo, h.openOk, Bool.not_true, Bool.false_eq_true, if_false]
  cases fate with
  | runs => exact hdone
  | writeFails fault => exact hdone
  | cancelled => exact .failed (by simp) w.disk.resetTmp fun A => hnote A _
  | resetFails step written =>
    simp only
    split
    · have hlog := log_failReset cfg next w.disk step written
      by_cases hrenamed : rename ∈ (cfg.resetSteps next).take step
      · refine .poisoned (by simp) ?_
        simp [resetFailed, hrenamed]
      rw [if_neg hrenamed] at hlog
      simp only [resetFailed, hrenamed, decide_false, Bool.false_eq_true, if_false]
      generalize failReset step written w.disk (cfg.resetSteps next) = disk at hlog
      obtain ⟨log, tmp⟩ := disk
      obtain rfl : log = w.disk.log := hlog
      exact .failed (by simp) tmp fun A => hnote A _
    · exact hdone

/-! ## Every call -/

theorem served (h : Sound cfg counters w) (hlimit : 8 ≤ cfg.maxFrameBytes) {c : StoreCall}
    (hc : BelowMax c) (fate : Fate) : Served cfg counters w fate c (w.serve cfg fate c) := by
  cases c with
  | store seq frame dir => exact served_store h hlimit hc frame dir fate
  | retrieve first last dir visitor =>
    by_cases hcancel : fate = .cancelled
    · exact .failed (by simp [hcancel]) w.disk.resetTmp fun _ => rfl
    refine .answered h (.inr ⟨rfl, rfl⟩) ?_
    simp only [h.retrieve_eq hcancel]
    rfl
  | nextSeqnum dir increment => exact served_nextSeqnum h hlimit dir increment fate
  | reset =>
    refine served_reset h hlimit ?_ rfl (fun _ _ => rfl) fate
    intro d
    cases d <;> simp [targets]
  | resetTo nextIn nextOut =>
    simp only [serve, resetTo]
    split
    · rename_i hvalid
      refine served_reset h hlimit (targets_valid hvalid) ?_ (fun _ _ => rfl) fate
      simp [answer, hvalid]
    rename_i hinvalid
    refine .answered h (.inr ⟨rfl, rfl⟩) ?_
    simp [answer, hinvalid]

variable {c : StoreCall} {fate : Fate}

/-- A call that runs on a store in step with its log is answered as the numbered
store answers it, and leaves the two in step. -/
theorem serve_runs (h : Sound cfg w.impl.next w) (hlimit : 8 ≤ cfg.maxFrameBytes)
    (hc : BelowMax c) :
    Sound cfg (w.serve cfg .runs c).1.impl.next (w.serve cfg .runs c).1 ∧
      (view (w.serve cfg .runs c).1, (w.serve cfg .runs c).2) =
        (view w).answer cfg.maxFrameBytes c := by
  have hserved := served h hlimit hc .runs
  generalize w.serve cfg .runs c = out at hserved
  cases hserved with
  | answered hsound hcounters hview =>
    refine ⟨?_, hview⟩
    rcases hcounters with rfl | ⟨rfl, hnext⟩
    · exact hsound
    rw [hnext]
    exact hsound
  | failed hfate => exact absurd rfl hfate
  | bumped hfate => exact absurd rfl hfate
  | poisoned hfate => exact absurd rfl hfate

theorem effect_runs (h : Sound cfg w.impl.next w) (hlimit : 8 ≤ cfg.maxFrameBytes)
    (hc : BelowMax c) :
    Effect (view w) c (view (w.serve cfg .runs c).1, (w.serve cfg .runs c).2) := by
  rw [(serve_runs h hlimit hc).2]
  exact answer_effect _ _ _

/-- Whatever goes wrong, a store that is still usable has a log in step with its
index, and the call did to it what a call may do to a numbered store. -/
theorem serve_usable (h : Sound cfg counters w) (hlimit : 8 ≤ cfg.maxFrameBytes)
    (hc : BelowMax c) (husable : (w.serve cfg fate c).1.impl.openOk = true) :
    (∃ counters', Sound cfg counters' (w.serve cfg fate c).1) ∧
      Effect (view w) c (view (w.serve cfg fate c).1, (w.serve cfg fate c).2) := by
  have hserved := served h hlimit hc fate
  generalize w.serve cfg fate c = out at hserved husable
  cases hserved with
  | answered hsound _ hview =>
    refine ⟨⟨_, hsound⟩, ?_⟩
    rw [hview]
    exact answer_effect _ _ _
  | failed _ tmp hnote => exact ⟨⟨_, h.resetTmp tmp⟩, .refused hnote⟩
  | bumped _ hc hmax =>
    subst hc
    exact ⟨⟨_, h.bumped hmax⟩, .advanced hmax⟩
  | poisoned _ hopen => simp [hopen] at husable

end Fixpp.Analysis.StoreLog
