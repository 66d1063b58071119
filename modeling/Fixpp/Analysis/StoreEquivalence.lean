import Fixpp.Analysis.FileStoreRecovery
import Fixpp.Analysis.MemoryStoreCalls

/-!
# The two stores are interchangeable

Both stores answer as the numbered store of the interface, so an unbounded memory store and a
file store give the same replies to the same calls, wherever the file store is reopened in
between.
-/

namespace Fixpp.Analysis

open Interface Model

/-- A step of a file store's life: a call, or closing and opening it. -/
inductive StoreStep
  | call (c : StoreCall)
  | reopen

def fileReplies (cfg : FileStoreConfig) : FileWorld → List StoreStep → Option (List StoreReply)
  | _, [] => some []
  | w, .call c :: rest =>
    (fileReplies cfg (w.serve cfg .runs c).1 rest).map ((w.serve cfg .runs c).2 :: ·)
  | w, .reopen :: rest => (cfg.openLog w.disk).bind fun w' => fileReplies cfg w' rest

/-- The replies of a memory store, for which there is nothing to open. -/
def memoryReplies (cfg : MemoryStoreConfig) : MemoryStore → List StoreStep → List StoreReply
  | _, [] => []
  | m, .call c :: rest => (m.serve cfg c).2 :: memoryReplies cfg (m.serve cfg c).1 rest
  | m, .reopen :: rest => memoryReplies cfg m rest

variable {file : FileStoreConfig} {memory : MemoryStoreConfig}

theorem replies_eq (hlimit : 8 ≤ file.maxFrameBytes) (hsame : memory.maxFrameBytes = file.maxFrameBytes)
    (hpolicy : memory.policy = .unbounded) :
    ∀ (steps : List StoreStep) {w : FileWorld} {m : MemoryStore},
      (∀ c, .call c ∈ steps → BelowMax c) → StoreLog.Sound file w.impl.next w →
      StoreMemory.Sound memory m → StoreLog.view w = StoreMemory.view m →
      fileReplies file w steps = some (memoryReplies memory m steps)
  | [], _, _, _, _, _, _ => rfl
  | .call c :: rest, w, m, hsteps, hw, hm, hview => by
    obtain ⟨hw', hfile⟩ := StoreLog.serve_runs hw hlimit (hsteps c (by simp))
    have hserved := StoreMemory.served hm (hsteps c (by simp))
    have hmemory := hserved.answers hpolicy
    rw [hview, ← hsame, ← hmemory] at hfile
    obtain ⟨hview', hreply⟩ := Prod.mk.inj hfile
    have hrest := replies_eq hlimit hsame hpolicy rest (fun c' hc' => hsteps c' (by simp [hc']))
      hw' hserved.sound hview'
    simp [fileReplies, memoryReplies, hrest, hreply]
  | .reopen :: rest, w, m, hsteps, hw, hm, hview => by
    have hreopened : StoreLog.Sound file
        (StoreLog.openedOn w.disk.log w.impl.index w.impl.next).impl.next
        (StoreLog.openedOn w.disk.log w.impl.index w.impl.next) :=
      StoreLog.sound_openedOn hw.tracks
    have hrest := replies_eq hlimit hsame hpolicy rest (fun c hc => hsteps c (by simp [hc]))
      hreopened hm hview
    simpa [fileReplies, memoryReplies, hw.openLog] using hrest

/-- Of a file store whose frame limit lets a counter record in and an unbounded memory store with
the same limit, the replies to any calls that store nothing under the largest number are the same,
wherever the file store is reopened between the calls. -/
theorem stores_interchangeable (hlimit : 8 ≤ file.maxFrameBytes)
    (hsame : memory.maxFrameBytes = file.maxFrameBytes) (hpolicy : memory.policy = .unbounded)
    {steps : List StoreStep} (hsteps : ∀ c, .call c ∈ steps → BelowMax c) :
    ∃ w, file.openLog { log := [] } = some w ∧
      fileReplies file w steps = some (memoryReplies memory memory.construct steps) := by
  obtain ⟨w, hopen, hsound, hview⟩ := StoreLog.openLog_empty hlimit
  refine ⟨w, hopen, ?_⟩
  refine replies_eq hlimit hsame hpolicy steps hsteps hsound (StoreMemory.sound_construct memory) ?_
  rw [hview]
  refine congrArg (FrameStore.mk _) (funext fun d => ?_)
  cases d <;> rfl

theorem stores_interchangeable_reopened :
    let steps := [.call (.store 1 [65] .outbound), .reopen, .call (.store 2 [66] .outbound),
      .reopen, .call (.retrieve 1 0 .outbound fun _ => .cont)]
    ∃ w, StoreLog.smallFrames.openLog { log := [] } = some w ∧
      fileReplies StoreLog.smallFrames w steps = some (memoryReplies ⟨.unbounded, 0, 0, 16⟩
          (MemoryStoreConfig.construct ⟨.unbounded, 0, 0, 16⟩) steps) :=
  stores_interchangeable (by decide) rfl rfl (by simp [BelowMax, seqnumMax])

/-- A configuration with room for frames of four bytes, less than a counter record. -/
def fourByteFrames : FileStoreConfig where
  maxFrameBytes := 4
  expectedHash := 7
  crc32c := fun bytes => UInt32.ofNat bytes.length
  maxFrameBytes_le := by decide

/-- The log of a store with room for frames of four bytes does not open again: its own
counter record counts as an oversized one. -/
theorem four_byte_log_does_not_reopen : (fourByteFrames.openLog { log := [] }).map
        (fun w => fileReplies fourByteFrames w [.reopen, .call (.nextSeqnum .outbound false)]) =
      some none ∧
    memoryReplies ⟨.unbounded, 0, 0, 4⟩ (MemoryStoreConfig.construct ⟨.unbounded, 0, 0, 4⟩)
        [.reopen, .call (.nextSeqnum .outbound false)] = [.number (.ok 1)] := by
  decide +kernel

end Fixpp.Analysis

/-! ## Their counters

Between resets the next numbers of a store only grow, and an increment of the largest one
is refused. `store()` has no such guard: a frame stored under the largest number sets the
counter to 0. As long as none is, the counters of both stores stay sequence numbers. -/

namespace Fixpp.Analysis.StoreCounters

open Interface Model List StoreMemory

def Resets : StoreCall → Prop
  | .reset => True
  | .resetTo _ _ => True
  | _ => False

def InRange (next : Direction → ℕ) : Prop := ∀ d, seqnumMin ≤ next d ∧ next d ≤ seqnumMax

theorem inRange_of_ordered {F : FrameStore} (h : F.Ordered) : InRange F.next :=
  fun d => ⟨h.next_pos d, h.next_le d⟩

theorem next_le_advance {F : FrameStore} {dir : Direction} (h : F.next dir < seqnumMax)
    (d : Direction) : F.next d ≤ (F.advance dir).next d := by
  by_cases hd : d = dir
  · subst hd
    simp [FrameStore.advance, FrameStore.succSeqnum_of_lt h]
  · simp [FrameStore.advance, hd]

theorem next_le_of_effect {F F' : FrameStore} {c : StoreCall} {r : StoreReply}
    (h : Effect F c (F', r)) (hord : F.Ordered) (hc : BelowMax c) (hkeeps : ¬Resets c)
    (d : Direction) : F.next d ≤ F'.next d := by
  cases h with
  | refused _ => exact Nat.le_refl _
  | stored frame dir => exact next_le_advance hc d
  | @advanced dir _ hmax => exact next_le_advance (Nat.lt_of_le_of_ne (hord.next_le dir) hmax) d
  | cleared _ hnote =>
    -- Only the record of a reset forgets a frame.
    exfalso
    have hforgets := congrFun (congrFun (hnote (Archive.empty.put 1 [] .inbound)) .inbound) 1
    cases c with
    | store seq frame dir =>
      cases dir <;> by_cases hseq : 1 = seq <;>
        simp [Archive.note, Archive.put, Archive.empty, hseq] at hforgets
    | reset => exact hkeeps trivial
    | resetTo nextIn nextOut => exact hkeeps trivial
    | _ => simp [Archive.note, Archive.put, Archive.empty] at hforgets

/-! ## The memory store -/

section Memory

variable (cfg : MemoryStoreConfig)

def memoryAfter (m : MemoryStore) (calls : List StoreCall) : MemoryStore :=
  calls.foldl (fun m c => (m.serve cfg c).1) m

theorem memory_run {m : MemoryStore} (h : StoreMemory.Sound cfg m) {calls : List StoreCall}
    (hcalls : ∀ c ∈ calls, BelowMax c) :
    StoreMemory.Sound cfg (memoryAfter cfg m calls) ∧
      ((∀ c ∈ calls, ¬Resets c) → ∀ d, m.next d ≤ (memoryAfter cfg m calls).next d) := by
  induction calls generalizing m with
  | nil => exact ⟨h, fun _ _ => Nat.le_refl _⟩
  | cons c calls ih =>
    have hc := hcalls c mem_cons_self
    have hserved := served h hc
    obtain ⟨hsound, hgrows⟩ := ih hserved.sound fun c' h' => hcalls c' (mem_cons_of_mem c h')
    refine ⟨hsound, fun hkeeps d => ?_⟩
    have hstep := next_le_of_effect hserved.effect h.ordered hc (hkeeps c mem_cons_self) d
    exact Nat.le_trans hstep (hgrows (fun c' h' => hkeeps c' (mem_cons_of_mem c h')) d)

theorem memoryAfter_increments (m : MemoryStore) (dir : Direction) :
    ∀ n, m.next dir + n ≤ seqnumMax → memoryAfter cfg m (replicate n (.nextSeqnum dir true)) =
        { m with next := Function.update m.next dir (m.next dir + n) }
  | 0, _ => by simp [memoryAfter]
  | n + 1, hroom => by
    have hlt : m.next dir + n < seqnumMax := by omega
    have hbefore := memoryAfter_increments m dir n (Nat.le_of_lt hlt)
    unfold memoryAfter at hbefore ⊢
    rw [replicate_succ', foldl_append, hbefore]
    simp [MemoryStore.serve, MemoryStore.nextSeqnum, readCounter, Nat.ne_of_lt hlt,
      FrameStore.succSeqnum_of_lt hlt, Nat.add_assoc]

end Memory

/-! ## The file store -/

section File

variable (cfg : FileStoreConfig)

def fileStep (w : FileWorld) : StoreStep → Option FileWorld
  | .call c => some (w.serve cfg .runs c).1
  | .reopen => cfg.openLog w.disk

/-- A file store behind steps; `none` where its log does not open again. -/
def fileAfter (w : FileWorld) (steps : List StoreStep) : Option FileWorld :=
  steps.foldlM (fileStep cfg) w

variable {cfg}

theorem file_run (hlimit : 8 ≤ cfg.maxFrameBytes) {w : FileWorld}
    (h : StoreLog.Sound cfg w.impl.next w) {steps : List StoreStep}
    (hsteps : ∀ c, .call c ∈ steps → BelowMax c) :
    ∃ w', fileAfter cfg w steps = some w' ∧ StoreLog.Sound cfg w'.impl.next w' ∧
      ((∀ c, .call c ∈ steps → ¬Resets c) → ∀ d, w.impl.next d ≤ w'.impl.next d) := by
  induction steps generalizing w with
  | nil => exact ⟨w, rfl, h, fun _ _ => Nat.le_refl _⟩
  | cons step steps ih =>
    have hrest : ∀ c, .call c ∈ steps → BelowMax c := fun c hc => hsteps c (mem_cons_of_mem _ hc)
    cases step with
    | call c =>
      have hc := hsteps c mem_cons_self
      obtain ⟨hsound, hview⟩ := StoreLog.serve_runs h hlimit hc
      obtain ⟨w', hafter, hsound', hgrows⟩ := ih hsound hrest
      refine ⟨w', hafter, hsound', fun hkeeps d => ?_⟩
      have heffect := answer_effect cfg.maxFrameBytes (StoreLog.view w) c
      rw [← hview] at heffect
      have hstep := next_le_of_effect heffect h.view_ordered hc (hkeeps c mem_cons_self) d
      exact Nat.le_trans hstep (hgrows (fun c' h' => hkeeps c' (mem_cons_of_mem _ h')) d)
    | reopen =>
      obtain ⟨w', hafter, hsound', hgrows⟩ :=
        @ih (StoreLog.openedOn w.disk.log w.impl.index w.impl.next)
          (StoreLog.sound_openedOn h.tracks) hrest
      refine ⟨w', ?_, hsound', fun hkeeps => hgrows fun c hc => hkeeps c (mem_cons_of_mem _ hc)⟩
      simpa [fileAfter, fileStep, h.openLog] using hafter

end File

/-- As long as no frame is stored under the largest number, both next numbers are sequence numbers,
no step but a reset sets one back, and an increment of the largest one is refused and changes
nothing. -/
theorem counters_never_wrap (memory : MemoryStoreConfig) {file : FileStoreConfig}
    (hlimit : 8 ≤ file.maxFrameBytes) :
    (∀ earlier later : List StoreCall, (∀ c ∈ earlier ++ later, BelowMax c) →
      let m := memoryAfter memory memory.construct earlier
      let m' := memoryAfter memory m later
      InRange m'.next ∧ ((∀ c ∈ later, ¬Resets c) → ∀ d, m.next d ≤ m'.next d) ∧
        ∀ d, m'.next d = seqnumMax →
          m'.serve memory (.nextSeqnum d true) = (m', .number (.error .storeSeqnumOverflow))) ∧
    ∃ opened, file.openLog { log := [] } = some opened ∧
      ∀ earlier later : List StoreStep, (∀ c, .call c ∈ earlier ++ later → BelowMax c) →
        ∃ w w', fileAfter file opened earlier = some w ∧ fileAfter file w later = some w' ∧
          InRange w'.impl.next ∧
          ((∀ c, .call c ∈ later → ¬Resets c) → ∀ d, w.impl.next d ≤ w'.impl.next d) ∧
          ∀ d, w'.impl.next d = seqnumMax → w'.serve file .runs (.nextSeqnum d true) =
              (w', .number (.error .storeSeqnumOverflow)) := by
  constructor
  · intro earlier later hcalls m m'
    obtain ⟨hsound, -⟩ := memory_run memory (sound_construct memory)
      fun c hc => hcalls c (mem_append_left later hc)
    obtain ⟨hsound', hgrows⟩ := memory_run memory hsound
      fun c hc => hcalls c (mem_append_right earlier hc)
    refine ⟨inRange_of_ordered hsound'.ordered, hgrows, fun d hmax => ?_⟩
    simp [MemoryStore.serve, MemoryStore.nextSeqnum, readCounter, hmax, m', m]
  obtain ⟨opened, hopen, hopened, -⟩ := StoreLog.openLog_empty hlimit
  refine ⟨opened, hopen, fun earlier later hsteps => ?_⟩
  obtain ⟨w, hw, hsound, -⟩ := file_run hlimit hopened
    fun c hc => hsteps c (mem_append_left later hc)
  obtain ⟨w', hw', hsound', hgrows⟩ := file_run hlimit hsound
    fun c hc => hsteps c (mem_append_right earlier hc)
  refine ⟨w, w', hw, hw', inRange_of_ordered hsound'.view_ordered, hgrows, fun d hmax => ?_⟩
  simp [FileWorld.serve, FileWorld.nextSeqnum, readCounter, hmax, hsound'.openOk]

theorem counters_never_wrap_reopened : 8 ≤ StoreLog.smallFrames.maxFrameBytes ∧ ∃ opened w w',
      StoreLog.smallFrames.openLog { log := [] } = some opened ∧
        fileAfter StoreLog.smallFrames opened [.call (.store 1 [65] .outbound)] = some w ∧
        fileAfter StoreLog.smallFrames w [.call (.nextSeqnum .outbound true), .reopen] = some w' ∧
        InRange w'.impl.next :=
  have hlimit : 8 ≤ StoreLog.smallFrames.maxFrameBytes := by decide
  have hfile := (counters_never_wrap {} hlimit).2
  hfile.elim fun opened hopened =>
    (hopened.2 [.call (.store 1 [65] .outbound)] [.call (.nextSeqnum .outbound true), .reopen]
      (by simp [BelowMax, seqnumMax])).elim fun w hw => hw.elim fun w' hw' =>
        ⟨hlimit, opened, w, w', hopened.1, hw'.1, hw'.2.1, hw'.2.2.1⟩

/-- A frame is stored under the largest number, and the next one is 0. -/
theorem store_wraps_counter : let cfg : MemoryStoreConfig := ⟨.unbounded, 0, 0, 16⟩
    let m := memoryAfter cfg cfg.construct
      (replicate (seqnumMax - 1) (.nextSeqnum .outbound true))
    m.next .outbound = seqnumMax ∧ (m.store cfg seqnumMax [65] .outbound).2 = .ok () ∧
      (m.store cfg seqnumMax [65] .outbound).1.next .outbound = 0 := by
  intro cfg m
  have hcounted : m.next .outbound = seqnumMax := by
    simp only [m, memoryAfter_increments cfg cfg.construct .outbound (seqnumMax - 1) (by decide)]
    decide
  have hstored : m.store cfg seqnumMax [65] .outbound =
      (afterStore cfg m [65] .outbound, .ok ()) := by
    simp [MemoryStore.store, hcounted, cfg, afterStore, nextOffset]
  rw [hstored]
  refine ⟨hcounted, rfl, ?_⟩
  simp [afterStore, hcounted, succSeqnum, seqnumMax]

end Fixpp.Analysis.StoreCounters
