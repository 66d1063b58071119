import Fixpp.Analysis.FileStoreRecovery

/-!
# Calls that fail

A reset that fails or stops anywhere leaves the old log or the fresh one, and a store that
cannot go on with the fresh one refuses every call. A `store()` that fails and leaves the store
usable changed nothing.
-/

namespace Fixpp.Analysis.StoreLog

open Foundation Interface Model FileStoreConfig FileWorld

variable {cfg : FileStoreConfig} {w : FileWorld} {counters : Direction → ℕ} {c : StoreCall}
variable {disk : Disk} {next : Direction → ℕ} {A : Archive}

/-! ## Resets -/

theorem openLog_congr {d d' : Disk} (h : d.log = d'.log) : cfg.openLog d = cfg.openLog d' := by
  simp [openLog, h]

def Fails : StoreReply → Prop
  | .done result => ∃ e, result = .error e
  | .number result => ∃ e, result = .error e
  | .walked visited result => visited = [] ∧ ∃ e, result = .error e

def Refuses (cfg : FileStoreConfig) (w : FileWorld) : Prop :=
  ∀ fate c, (w.serve cfg fate c).1 = w ∧ Fails (w.serve cfg fate c).2

theorem refuses_of_closed (h : w.impl.openOk = false) : Refuses cfg w := by
  intro fate c
  cases c with
  | store seq frame dir => simp [serve, store, h, Fails]
  | retrieve first last dir visitor => simp [serve, retrieve, h, Fails]
  | nextSeqnum dir increment => simp [serve, nextSeqnum, h, Fails]
  | reset => simp [serve, resetStoreTo, h, Fails]
  | resetTo nextIn nextOut =>
    by_cases hvalid : resetToTargetsValid nextIn nextOut = true
    · simp [serve, resetTo, resetStoreTo, hvalid, h, Fails]
    · simp [serve, resetTo, hvalid, Fails]

/-- The store works on a fresh log: no frame, the counters given, and what it appends
goes behind the log. -/
def ServesFresh (w : FileWorld) (next : Direction → ℕ) : Prop :=
  AtEnd w ∧ view w = FrameStore.fresh next

/-- The log is the fresh one; where the frame limit lets a counter record in, opening
it gives a store without frames and with its counters. -/
def FreshOnDisk (cfg : FileStoreConfig) (disk : Disk) (next : Direction → ℕ) : Prop :=
  disk.log = cfg.freshLog next ∧
    (8 ≤ cfg.maxFrameBytes → ∃ w, cfg.openLog disk = some w ∧ ServesFresh w next)

theorem freshOnDisk (hnext : ∀ d, next d = 1 ∨ next d = 2) (h : disk.log = cfg.freshLog next) :
    FreshOnDisk cfg disk next := by
  refine ⟨h, fun hlimit => ?_⟩
  have hsound := sound_fresh hlimit hnext 0 none
  have hopen : cfg.openLog disk = _ := (openLog_congr h).trans hsound.openLog
  exact ⟨_, hopen, ⟨rfl, rfl, rfl⟩, rfl⟩

theorem resetStoreTo_atomic (cfg : FileStoreConfig) (w : FileWorld)
    (hnext : ∀ d, next d = 1 ∨ next d = 2) (fate : Fate) :
    let after := (w.resetStoreTo cfg next fate).1
    after.impl = w.impl ∧ after.disk.log = w.disk.log ∨
      FreshOnDisk cfg after.disk next ∧ (ServesFresh after next ∨ Refuses cfg after) := by
  have hdone : w.impl.openOk = true →
      FreshOnDisk cfg ((cfg.resetSteps next).foldl ResetStep.perform w.disk) next ∧
        ServesFresh { disk := (cfg.resetSteps next).foldl ResetStep.perform w.disk
                      impl := w.impl.resetDone next } next := by
    intro hopen
    rw [foldl_resetSteps]
    refine ⟨freshOnDisk hnext rfl, ⟨hopen, rfl, ?_⟩, rfl⟩
    simp [FileStore.resetDone, freshLog, freshSize]
  cases hopen : w.impl.openOk with
  | false => simp [resetStoreTo, hopen]
  | true =>
    simp only [resetStoreTo, hopen, Bool.not_true, Bool.false_eq_true, if_false]
    cases fate with
    | runs => exact .inr ⟨(hdone hopen).1, .inl (hdone hopen).2⟩
    | writeFails fault => exact .inr ⟨(hdone hopen).1, .inl (hdone hopen).2⟩
    | cancelled => exact .inl ⟨rfl, rfl⟩
    | resetFails step written =>
      simp only
      split
      · have hlog := log_failReset cfg next w.disk step written
        by_cases hrenamed : ResetStep.rename ∈ (cfg.resetSteps next).take step
        · rw [if_pos hrenamed] at hlog
          refine .inr ⟨freshOnDisk hnext hlog, .inr (refuses_of_closed ?_)⟩
          simp [FileStore.resetFailed, hrenamed]
        rw [if_neg hrenamed] at hlog
        refine .inl ⟨?_, hlog⟩
        simp [FileStore.resetFailed, hrenamed]
      · exact .inr ⟨(hdone hopen).1, .inl (hdone hopen).2⟩

/-- Whatever step of a reset fails, and wherever the process stops in it, the store and its log are
as before, or the log is the fresh one; and then the running store works on the fresh log or refuses
every call. -/
theorem reset_is_atomic (cfg : FileStoreConfig) (w : FileWorld) {nextIn nextOut : ℕ}
    (hvalid : resetToTargetsValid nextIn nextOut = true)
    (hc : c = .resetTo nextIn nextOut ∨ c = .reset ∧ nextIn = 1 ∧ nextOut = 1) :
    (∀ fate,
      let after := (w.serve cfg fate c).1
      after.impl = w.impl ∧ after.disk.log = w.disk.log ∧
          cfg.openLog after.disk = cfg.openLog w.disk ∨
        FreshOnDisk cfg after.disk (targets nextIn nextOut) ∧
          (ServesFresh after (targets nextIn nextOut) ∨ Refuses cfg after)) ∧
    ∀ stepNo cut,
      let disk := w.stopped cfg stepNo cut c
      disk.log = w.disk.log ∧ cfg.openLog disk = cfg.openLog w.disk ∨
        FreshOnDisk cfg disk (targets nextIn nextOut) := by
  have hnext := targets_valid hvalid
  have hserve : ∀ fate, (w.serve cfg fate c).1 =
      (w.resetStoreTo cfg (targets nextIn nextOut) fate).1 := by
    intro fate
    rcases hc with rfl | ⟨rfl, rfl, rfl⟩
    · simp [serve, resetTo, hvalid]
    · rfl
  have hstopped : ∀ stepNo cut, (w.stopped cfg stepNo cut c).log = w.disk.log ∨
      (w.stopped cfg stepNo cut c).log = cfg.freshLog (targets nextIn nextOut) := by
    intro stepNo cut
    have hlog := log_stopReset cfg (targets nextIn nextOut) w.disk stepNo cut
    have hsteps : w.stopped cfg stepNo cut c = w.disk ∨ w.stopped cfg stepNo cut c =
        stopReset stepNo cut w.disk (cfg.resetSteps (targets nextIn nextOut)) := by
      cases hopen : w.impl.openOk with
      | false => exact .inl (by simp [stopped, hopen])
      | true =>
        rcases hc with rfl | ⟨rfl, rfl, rfl⟩ <;> exact .inr (by simp [stopped, hopen, hvalid])
    rcases hsteps with hsame | hreset
    · exact .inl (by rw [hsame])
    rw [hreset, hlog]
    split
    exacts [.inr rfl, .inl rfl]
  refine ⟨fun fate => ?_, fun stepNo cut => ?_⟩
  · simp only [hserve]
    rcases resetStoreTo_atomic cfg w hnext fate with ⟨himpl, hlog⟩ | hfresh
    exacts [.inl ⟨himpl, hlog, openLog_congr hlog⟩, .inr hfresh]
  · rcases hstopped stepNo cut with hlog | hlog
    exacts [.inl ⟨hlog, openLog_congr hlog⟩, .inr (freshOnDisk hnext hlog)]

theorem reset_is_atomic_one_frame :
    let w := (openedEmpty.serve smallFrames .runs (.store 1 [65] .inbound)).1
    (∀ fate,
      let after := (w.serve smallFrames fate (.resetTo 2 1)).1
      after.impl = w.impl ∧ after.disk.log = w.disk.log ∧
          smallFrames.openLog after.disk = smallFrames.openLog w.disk ∨
        FreshOnDisk smallFrames after.disk (targets 2 1) ∧
          (ServesFresh after (targets 2 1) ∨ Refuses smallFrames after)) ∧
    ∀ stepNo cut,
      let disk := w.stopped smallFrames stepNo cut (.resetTo 2 1)
      disk.log = w.disk.log ∧ smallFrames.openLog disk = smallFrames.openLog w.disk ∨
        FreshOnDisk smallFrames disk (targets 2 1) :=
  reset_is_atomic smallFrames _ (by decide) (.inl rfl)

/-! ## Stores -/

/-- Every store that can be had: a log of any content that opens, and calls on it with
any fate, as long as the store stays usable. -/
inductive Opened (cfg : FileStoreConfig) : FileWorld → Prop
  | opened {disk : Disk} {w : FileWorld} (h : cfg.openLog disk = some w) : Opened cfg w
  | served {w : FileWorld} (h : Opened cfg w) (fate : Fate) (c : StoreCall)
      (husable : (w.serve cfg fate c).1.impl.openOk = true) : Opened cfg (w.serve cfg fate c).1

theorem readRecord_size {rest : Bytes} {r : LogRecord} {size : ℕ}
    (h : cfg.readRecord rest = .record r size) : size ≤ rest.length := by
  simp only [readRecord] at h
  split at h
  · cases h
  split at h
  · split at h <;> cases h
  split at h
  · cases h
  rename_i hfits
  split at h
  · split at h <;> cases h
  obtain ⟨-, rfl⟩ := Front.record.inj h
  exact Nat.not_lt.mp hfits

theorem sentinelOk_length {log : Bytes} (h : cfg.sentinelOk log = true) : 48 ≤ log.length := by
  simp only [sentinelOk, slice, headerSize, Bool.and_eq_true, beq_iff_eq,
    List.length_take, List.length_drop] at h
  omega

theorem openLog_atEnd (h : cfg.openLog disk = some w) : AtEnd w := by
  simp only [openLog] at h
  split at h
  · obtain rfl := Option.some.inj h
    refine ⟨rfl, rfl, ?_⟩
    rw [foldl_freshWrites]
    simp [freshLog, freshSize]
  split at h
  · rename_i hsentinel
    split at h
    · cases h
    rename_i scanned lastGood hscan
    obtain rfl := Option.some.inj h
    have hle := scanLog_le (fun _ _ _ => readRecord_size) hscan
    have hlong := sentinelOk_length hsentinel
    refine ⟨rfl, rfl, ?_⟩
    simp only [recordDiskSize_sentinel, List.length_drop] at hle
    simp only [List.length_take]
    omega
  · cases h

theorem AtEnd.serve (h : AtEnd w) {fate : Fate}
    (husable : (w.serve cfg fate c).1.impl.openOk = true) : AtEnd (w.serve cfg fate c).1 := by
  have hreset : ∀ next, (w.resetStoreTo cfg next fate).1.impl.openOk = true →
      AtEnd (w.resetStoreTo cfg next fate).1 := by
    intro next
    have hdone : AtEnd { disk := (cfg.resetSteps next).foldl ResetStep.perform w.disk
                         impl := w.impl.resetDone next } := by
      rw [foldl_resetSteps]
      exact ⟨h.openOk, rfl, by simp [FileStore.resetDone, freshLog, freshSize]⟩
    simp only [resetStoreTo, h.openOk, Bool.not_true, Bool.false_eq_true, if_false]
    cases fate with
    | runs => exact fun _ => hdone
    | writeFails fault => exact fun _ => hdone
    | cancelled => exact fun _ => h
    | resetFails step written =>
      simp only
      split
      · have hlog := log_failReset cfg next w.disk step written
        by_cases hrenamed : ResetStep.rename ∈ (cfg.resetSteps next).take step
        · simp [FileStore.resetFailed, hrenamed]
        rw [if_neg hrenamed] at hlog
        simp only [FileStore.resetFailed, hrenamed, decide_false, Bool.false_eq_true, if_false]
        exact fun _ => ⟨h.openOk, h.valid, by rw [hlog]; exact h.ends⟩
      · exact fun _ => hdone
  cases c with
  | store seq frame dir =>
    have hend := store_ends cfg h seq frame dir fate
    simp only [serve] at husable ⊢
    generalize w.store cfg seq frame dir fate = out at hend husable
    cases hend with
    | refused => exact h
    | stored => exact h.stored frame dir
    | failed => exact h
    | poisoned _ hopen => simp [hopen] at husable
  | retrieve first last dir visitor => exact h
  | nextSeqnum dir increment =>
    have hend := nextSeqnum_ends cfg h dir increment fate
    simp only [serve] at husable ⊢
    generalize w.nextSeqnum cfg dir increment fate = out at hend husable
    cases hend with
    | refused => exact h
    | read => exact h
    | counted => exact h.counted dir
    | failed => exact h
    | bumped => exact ⟨h.openOk, h.valid, h.ends⟩
    | poisoned _ hopen => simp [hopen] at husable
  | reset => exact hreset _ husable
  | resetTo nextIn nextOut =>
    simp only [serve, resetTo] at husable ⊢
    split at husable
    · rename_i hvalid
      simp only [hvalid, if_true]
      exact hreset _ husable
    rename_i hinvalid
    simp only [hinvalid]
    exact h

theorem Opened.atEnd (h : Opened cfg w) : AtEnd w := by
  induction h with
  | opened hopen => exact openLog_atEnd hopen
  | served _ _ _ husable ih => exact ih.serve husable

/-- What a store's own calls make of an empty log when some of them fail: a `Run`, then
calls with any fate that leave the store usable, and openings of the log. -/
inductive Content (cfg : FileStoreConfig) : FileWorld → Archive → Prop
  | run {w : FileWorld} {A : Archive} (h : Run cfg w A) : Content cfg w A
  | served {w : FileWorld} {A : Archive} (h : Content cfg w A) (fate : Fate) (c : StoreCall)
      (hc : BelowMax c) (husable : (w.serve cfg fate c).1.impl.openOk = true) :
      Content cfg (w.serve cfg fate c).1 (A.note c (w.serve cfg fate c).2)
  | reopened {w w' : FileWorld} {A : Archive} (h : Content cfg w A)
      (hopen : cfg.openLog w.disk = some w') : Content cfg w' A

theorem Content.recorded (hlimit : 8 ≤ cfg.maxFrameBytes) (h : Content cfg w A) :
    (∃ counters, Sound cfg counters w) ∧ Keeps (view w) A := by
  induction h with
  | run hrun =>
    obtain ⟨hsound, hkeeps⟩ := hrun.recorded hlimit
    exact ⟨⟨_, hsound⟩, hkeeps⟩
  | served _ fate c hc husable ih =>
    obtain ⟨⟨counters, hsound⟩, hkeeps⟩ := ih
    obtain ⟨hsound', heffect⟩ := serve_usable hsound hlimit hc husable
    exact ⟨hsound', heffect.keeps hsound.view_ordered hkeeps⟩
  | reopened _ hopen ih =>
    obtain ⟨⟨counters, hsound⟩, hkeeps⟩ := ih
    obtain rfl := Option.some.inj (hsound.openLog.symm.trans hopen)
    exact ⟨⟨_, sound_openedOn hsound.tracks⟩, hkeeps⟩

/-- The frame stored last under a number behind which there is no hole. -/
theorem unbroken_put_self {dir : Direction} {seq : ℕ} (frame : Bytes)
    (h : ∀ u t, A dir u ≠ none → u ≤ t → t < seq → A dir t ≠ none) :
    (A.put seq frame dir).unbroken dir seq = some frame := by
  have hother : ∀ t, t ≠ seq → A.put seq frame dir dir t = A dir t := by
    intro t ht
    simp [Archive.put, ht]
  have hself : A.put seq frame dir dir seq = some frame := by simp [Archive.put]
  unfold Archive.unbroken
  rw [if_pos, hself]
  intro u t hu hut hts
  by_cases ht : t = seq
  · simp [ht, hself]
  have hlt : t < seq := Nat.lt_of_le_of_ne hts ht
  rw [hother u (by omega)] at hu
  rw [hother t ht]
  exact h u t hu hut hlt

end Fixpp.Analysis.StoreLog
