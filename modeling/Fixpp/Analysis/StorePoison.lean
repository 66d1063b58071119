import Fixpp.Analysis.FileStoreRecovery
import Fixpp.Model.SharedFileStore

/-!
# A poisoned store

A store whose log could not be brought back to its committed end is marked unusable. The mark is
tested before the writer lock is awaited, so a call that was queued when the mark is set goes on.
Where no other call is under way at that moment, nothing writes afterwards.
-/

namespace Fixpp.Analysis.StorePoison

open Model Foundation SharedStore FileWorld StoreAction

variable {cfg : FileStoreConfig} {request : ℕ → StoreCall} {s : SharedStore}
variable {j first last : ℕ} {visitor : Visitor} {c : StoreCall} {e : Error} {a : StoreAction}

/-! ## Calls one at a time -/

@[simp] theorem phase_goOn_self (i : ℕ) (p : CallPhase) : (s.goOn i p).phase i = p := by
  simp [goOn]

theorem phase_goOn_of_ne {i : ℕ} (p : CallPhase) (hj : j ≠ i) :
    (s.goOn i p).phase j = s.phase j := by
  simp [goOn, hj]

theorem step_resumed {i generation : ℕ} {dir : Direction} {rest : List IndexEntry} {gap : Bool}
    {seen : List (ℕ × Bytes)} (hrequest : request i = .retrieve first last dir visitor)
    (hphase : s.phase i = .visiting generation rest gap seen) (hends : (visitor seen).ends = none) :
    s.step cfg request (.walk i) = (s.goOn i (.walking generation rest gap seen), []) := by
  simp [SharedStore.step, walkOn, hrequest, hphase, hends]

theorem walk_uninterrupted (cfg : FileStoreConfig) {i : ℕ} {dir : Direction}
    (hrequest : request i = .retrieve first last dir visitor) {generation : ℕ} {gap : Bool}
    (rest : List IndexEntry) (seen : List (ℕ × Bytes)) (s : SharedStore)
    (hphase : s.phase i = .walking generation rest gap seen) :
    ∃ n,
      let out := runSteps (SharedStore.step cfg request) s (List.replicate n (.walk i))
      let walked := walkEntries IndexEntry.seq (s.impl.readFrame s.file generation) visitor gap rest
        seen
      out.1.disk = s.disk ∧ out.1.impl = s.impl ∧ out.2 = [(i, .walked walked.1 walked.2)] := by
  induction rest generalizing seen s with
  | nil =>
    refine ⟨1, ?_⟩
    simp [runSteps, SharedStore.step, walkOn, finish, goOn, hrequest, hphase, walkEntries]
  | cons e rest ih =>
    cases hread : s.impl.readFrame s.file generation e with
    | error err =>
      refine ⟨1, ?_⟩
      simp [runSteps, SharedStore.step, walkOn, finish, goOn, hrequest, hphase, walkEntries, hread]
    | ok frame =>
      have hhanded : s.step cfg request (.walk i) =
          (s.goOn i (.visiting generation rest gap (seen ++ [(e.seq, frame)])), []) := by
        simp [SharedStore.step, walkOn, hrequest, hphase, hread]
      cases hends : (visitor (seen ++ [(e.seq, frame)])).ends with
      | some result =>
        refine ⟨2, ?_⟩
        simp [List.replicate_succ, runSteps, hhanded, walkEntries, hread, hends]
        simp [SharedStore.step, walkOn, hrequest, hends, finish, goOn]
      | none =>
        obtain ⟨n, hdisk, himpl, hreply⟩ := ih _ _ (phase_goOn_self i _)
        refine ⟨n + 2, ?_⟩
        simp only [List.replicate_succ, runSteps, hhanded,
          step_resumed hrequest (phase_goOn_self i _) hends, walkEntries, hread, hends,
          List.nil_append]
        exact ⟨hdisk, himpl, hreply⟩

theorem serve_stopped {w : FileWorld} {fate : Fate}
    (hstopped : c.entryTests w.impl.openOk = some e ∨
      c.entryTests w.impl.openOk = none ∧ fate = .cancelled ∧ e = .storeCancelled) :
    w.serve cfg fate c = (w, c.failed e) := by
  cases c with
  | retrieve first last dir visitor =>
    simp only [StoreCall.entryTests] at hstopped
    simp only [serve, retrieve, StoreCall.failed]
    split_ifs at hstopped ⊢ <;> simp_all
  | resetTo nextIn nextOut =>
    simp only [StoreCall.entryTests] at hstopped
    simp only [serve, resetTo, resetStoreTo, StoreCall.failed]
    split_ifs at hstopped ⊢ <;> simp_all
  | _ =>
    simp only [StoreCall.entryTests] at hstopped
    split_ifs at hstopped <;> simp_all [serve, store, nextSeqnum, resetStoreTo, StoreCall.failed]

/-- What a call does in turns that nothing interrupts. -/
def Serves (cfg : FileStoreConfig) (w : FileWorld) (request : ℕ → StoreCall) (i : ℕ)
    (fate : Fate) : Prop :=
  ∃ turns, (∀ a ∈ turns, a.call = i) ∧
    let out := runSteps (SharedStore.step cfg request) (.opened w) turns
    let served := w.serve cfg fate (request i)
    out.1.disk = served.1.disk ∧ out.1.impl = served.1.impl ∧ out.2 = [(i, served.2)]

section Entered

variable {w : FileWorld} {i : ℕ} {fate : Fate}

variable (htests : (request i).entryTests w.impl.openOk = none)
include htests

theorem runSteps_entered (rest : List StoreAction) :
    let entered := ((opened w).goOn i .queued).enter cfg request i
    runSteps (SharedStore.step cfg request) (.opened w) (.test i :: .acquire i :: rest) =
      ((runSteps (SharedStore.step cfg request) entered.1 rest).1,
        entered.2 ++ (runSteps (SharedStore.step cfg request) entered.1 rest).2) := by
  simp [runSteps, SharedStore.step, opened, goOn, htests]

attribute [local simp] runSteps SharedStore.step opened finish
  goOn offload enter conclude perform
  file write serve call

variable {dir : Direction} (hcancelled : fate ≠ .cancelled)
include hcancelled

theorem serves_store {seq : ℕ} {frame : Bytes} (hrequest : request i = .store seq frame dir) :
    Serves cfg w request i fate := by
  have hopen : w.impl.openOk = true := by simpa [hrequest, StoreCall.entryTests] using htests
  refine ⟨[.test i, .acquire i, .run i fate, .settle i], by simp, ?_⟩
  rw [runSteps_entered htests]
  cases hjob : w.impl.storeJob cfg seq frame dir <;> simp [store, hrequest, hopen, hcancelled, hjob]

theorem serves_nextSeqnum {increment : Bool} (hrequest : request i = .nextSeqnum dir increment) :
    Serves cfg w request i fate := by
  have hopen : w.impl.openOk = true := by simpa [hrequest, StoreCall.entryTests] using htests
  refine ⟨[.test i, .acquire i, .run i fate, .settle i], by simp, ?_⟩
  rw [runSteps_entered htests]
  cases hread : readCounter (w.impl.next dir) increment with
  | error e => simp [nextSeqnum, hrequest, hopen, hcancelled, hread]
  | ok current =>
    cases increment <;> simp [nextSeqnum, hrequest, hopen, hcancelled, hread, FileStore.bump]

theorem serves_resetStoreTo (next : Direction → ℕ) (hopen : w.impl.openOk = true)
    (henter : ∀ s : SharedStore, s.enter cfg request i = s.offload i (.reset next))
    (hserve : w.serve cfg fate (request i) =
      ((w.resetStoreTo cfg next fate).1, .done (w.resetStoreTo cfg next fate).2)) :
    Serves cfg w request i fate := by
  refine ⟨[.test i, .acquire i, .run i fate, .settle i], by simp, ?_⟩
  rw [runSteps_entered htests]
  cases fate with
  | cancelled => contradiction
  | resetFails step written =>
    by_cases hstep : step < (cfg.resetSteps next).length <;>
      simp [-serve, -enter, henter, hserve, resetStoreTo, hopen, hstep]
  | _ => simp [-serve, -enter, henter, hserve, resetStoreTo, hopen]

theorem serves_retrieve (hrequest : request i = .retrieve first last dir visitor) :
    Serves cfg w request i fate := by
  obtain ⟨hopen, hfirst, hlast⟩ : w.impl.openOk = true ∧ first ≠ 0 ∧ ¬(last ≠ 0 ∧ last < first) := by
    simp only [hrequest, StoreCall.entryTests] at htests
    split_ifs at htests
    simp_all
  let found := snapshotRange IndexEntry.seq (w.impl.index dir) (w.impl.next dir) first last
  obtain ⟨n, hdisk, himpl, hreply⟩ := walk_uninterrupted cfg hrequest found.1 []
    (((opened w).goOn i .queued).goOn i (.walking w.impl.generation found.1 found.2 []))
    (phase_goOn_self i _)
  refine ⟨.test i :: .acquire i :: List.replicate n (.walk i), by simp, ?_⟩
  rw [runSteps_entered htests]
  simp only [enter, hrequest, List.nil_append]
  refine ⟨hdisk, himpl, hreply.trans ?_⟩
  simp [retrieve, hopen, hfirst, hlast, hcancelled, found]

end Entered

/-- A call that nothing interrupts does what the call on its own does. -/
theorem uninterrupted_serve (w : FileWorld) (request : ℕ → StoreCall) (i : ℕ) (fate : Fate) :
    Serves cfg w request i fate := by
  cases htests : (request i).entryTests w.impl.openOk with
  | some e =>
    refine ⟨[.test i], by simp [call], ?_⟩
    rw [serve_stopped (.inl htests)]
    simp [runSteps, SharedStore.step, opened, finish, goOn, htests]
  | none =>
    by_cases hcancelled : fate = .cancelled
    · refine ⟨[.test i, .cancel i], by simp [call], ?_⟩
      rw [serve_stopped (.inr ⟨htests, hcancelled, rfl⟩)]
      simp [runSteps, SharedStore.step, opened, finish, goOn, htests]
    cases hrequest : request i with
    | store seq frame dir => exact serves_store htests hcancelled hrequest
    | retrieve first last dir visitor => exact serves_retrieve htests hcancelled hrequest
    | nextSeqnum dir increment => exact serves_nextSeqnum htests hcancelled hrequest
    | reset =>
      refine serves_resetStoreTo htests hcancelled (targets 1 1) ?_ ?_ ?_
      · simpa [hrequest, StoreCall.entryTests] using htests
      · simp [enter, hrequest]
      · simp [serve, hrequest]
    | resetTo nextIn nextOut =>
      obtain ⟨hvalid, hopen⟩ : resetToTargetsValid nextIn nextOut = true ∧
          w.impl.openOk = true := by
        simp only [hrequest, StoreCall.entryTests] at htests
        split_ifs at htests
        simp_all
      refine serves_resetStoreTo htests hcancelled (targets nextIn nextOut) hopen ?_ ?_
      · simp [enter, hrequest]
      · simp [serve, resetTo, hrequest, hvalid]

/-! ## The mark -/

def Idle : CallPhase → Prop
  | .called => True
  | .returned => True
  | _ => False

def Poisons : CallPhase → Prop
  | .worked (.store .failedUnrestored) => True
  | .worked (.counter _ .failedUnrestored) => True
  | .worked (.reset _ false true) => True
  | _ => False

/-- When a call marks the store unusable, no other call is between its test of
`open_ok` and its return. -/
def Alone (s : SharedStore) : StoreAction → Prop
  | .settle i => Poisons (s.phase i) → ∀ j, j ≠ i → Idle (s.phase j)
  | _ => True

/-- No call is under way on a store that is marked unusable. -/
def Quiet (s : SharedStore) : Prop := s.impl.openOk = false → ∀ i, Idle (s.phase i)

/-- What an action of a call that does not mark the store does to the others and to the
mark: nothing. -/
structure Apart (s : SharedStore) (i : ℕ) (after : SharedStore) : Prop where
  others : ∀ j, j ≠ i → after.phase j = s.phase j
  openOk : after.impl.openOk = s.impl.openOk

theorem Apart.refl (i : ℕ) : Apart s i s := ⟨fun _ _ => rfl, rfl⟩

theorem Apart.goOn {after : SharedStore} {i : ℕ} (h : Apart s i after) (p : CallPhase) :
    Apart s i (after.goOn i p) :=
  ⟨fun j hj => (phase_goOn_of_ne p hj).trans (h.others j hj), h.openOk⟩

theorem apart_enter (i : ℕ) : Apart s i (s.enter cfg request i).1 := by
  have hgo : ∀ p, Apart s i (s.goOn i p) := (Apart.refl i).goOn
  have hoffload : ∀ job, Apart s i (s.offload i job).1 := fun job =>
    ⟨(hgo (.working job)).others, rfl⟩
  unfold enter
  split
  · split
    · exact hgo _
    · exact hoffload _
  · split
    · exact hgo _
    split
    · exact ⟨fun j hj => phase_goOn_of_ne _ hj, rfl⟩
    · exact hgo _
  · exact hoffload _
  · exact hoffload _
  · exact hgo _

theorem apart_write (i : ℕ) (bytes : Bytes) : Apart s i (s.write bytes) := by
  unfold write
  split <;> exact ⟨fun _ _ => rfl, rfl⟩

theorem apart_perform (i : ℕ) (fate : Fate) (job : PoolJob) :
    Apart s i (s.perform cfg fate job).1 := by
  cases job with
  | store job => exact apart_write i _
  | counter current job => exact apart_write i _
  | reset next =>
    unfold perform
    cases fate with
    | resetFails step written =>
      dsimp only
      split <;> exact ⟨fun _ _ => rfl, rfl⟩
    | _ => exact ⟨fun _ _ => rfl, rfl⟩

theorem apart_walkOn (i : ℕ) (visitor : Visitor) : Apart s i (s.walkOn i visitor).1 := by
  have hgo : ∀ p, Apart s i (s.goOn i p) := (Apart.refl i).goOn
  unfold walkOn
  split
  · exact hgo _
  · split <;> exact hgo _
  · split <;> exact hgo _
  · exact .refl i

theorem conclude_apart (request : ℕ → StoreCall) (i : ℕ) (result : PoolResult)
    (hphase : s.phase i = .worked result) :
    Apart s i (s.conclude request i result).1 ∨
      Poisons (s.phase i) ∧ (∀ j, j ≠ i → (s.conclude request i result).1.phase j = s.phase j) ∧
        (s.conclude request i result).1.phase i = .returned := by
  rw [hphase]
  have hothers : ∀ (t : SharedStore) reply, t.phase = s.phase → ∀ j, j ≠ i →
      (t.finish i reply).1.phase j = s.phase j := fun t reply ht j hj => by
    rw [← ht]; exact phase_goOn_of_ne _ hj
  unfold conclude
  split
  next io _ =>
    cases io with
    | failedUnrestored => exact .inr ⟨trivial, hothers _ _ rfl, phase_goOn_self i _⟩
    | ok => exact .inl ⟨hothers _ _ rfl, rfl⟩
    | failed => exact .inl ⟨hothers _ _ rfl, rfl⟩
  next io _ =>
    cases io with
    | failedUnrestored => exact .inr ⟨trivial, hothers _ _ rfl, phase_goOn_self i _⟩
    | ok => exact .inl ⟨hothers _ _ rfl, rfl⟩
    | failed => exact .inl ⟨hothers _ _ rfl, rfl⟩
  · exact .inl ⟨hothers _ _ rfl, rfl⟩
  next renameDone =>
    cases renameDone with
    | true => exact .inr ⟨trivial, hothers _ _ rfl, phase_goOn_self i _⟩
    | false => exact .inl ⟨hothers _ _ rfl, rfl⟩
  · exact .inl ⟨fun _ _ => rfl, rfl⟩

theorem step_apart (cfg : FileStoreConfig) (request : ℕ → StoreCall) (s : SharedStore)
    (a : StoreAction) :
    Apart s a.call (s.step cfg request a).1 ∨ ∃ i, a = .settle i ∧ Poisons (s.phase i) ∧
        (∀ j, j ≠ i → (s.step cfg request a).1.phase j = s.phase j) ∧
        (s.step cfg request a).1.phase i = .returned := by
  cases a with
  | test i =>
    refine .inl ?_
    simp only [SharedStore.step, call]
    split
    · split <;> exact (Apart.refl i).goOn _
    · exact .refl i
  | cancel i =>
    refine .inl ?_
    simp only [SharedStore.step, call]
    split
    · exact (Apart.refl i).goOn _
    · exact .refl i
  | acquire i =>
    refine .inl ?_
    simp only [SharedStore.step, call]
    split
    · exact apart_enter i
    · exact .refl i
  | run i fate =>
    refine .inl ?_
    simp only [SharedStore.step, call]
    split
    · exact (apart_perform i fate _).goOn _
    · exact .refl i
  | settle i =>
    simp only [SharedStore.step, call]
    split
    next result hphase =>
      obtain hapart | hpoisons := conclude_apart request i result hphase
      · exact .inl hapart
      · exact .inr ⟨i, rfl, hpoisons⟩
    · exact .inl (.refl i)
  | walk i =>
    refine .inl ?_
    simp only [SharedStore.step, call]
    split
    · exact apart_walkOn i _
    · exact .refl i

theorem phase_step_of_ne (hj : j ≠ a.call) : (s.step cfg request a).1.phase j = s.phase j := by
  obtain hapart | ⟨i, rfl, -, hothers, -⟩ := step_apart cfg request s a
  · exact hapart.others j hj
  · exact hothers j hj

/-- Calls on a marked store that changed nothing and were refused by their tests. -/
structure Refused (request : ℕ → StoreCall) (s : SharedStore)
    (out : SharedStore × List (ℕ × StoreReply)) : Prop where
  disk : out.1.disk = s.disk
  closed : out.1.impl.openOk = false
  idle : ∀ i, Idle (out.1.phase i)
  replies : ∀ i reply, (i, reply) ∈ out.2 →
    ∃ e, (request i).entryTests false = some e ∧ reply = (request i).failed e

theorem Refused.nothing (hclosed : s.impl.openOk = false) (hidle : ∀ i, Idle (s.phase i)) :
    Refused request s (s, []) :=
  ⟨rfl, hclosed, hidle, by simp⟩

theorem Refused.finish (hclosed : s.impl.openOk = false) (hidle : ∀ i, Idle (s.phase i)) {i : ℕ}
    (htests : (request i).entryTests false = some e) :
    Refused request s (s.finish i ((request i).failed e)) where
  disk := rfl
  closed := hclosed
  idle j := by
    by_cases hj : j = i
    · simp [SharedStore.finish, hj, Idle]
    rw [SharedStore.finish, phase_goOn_of_ne _ hj]
    exact hidle j
  replies j reply hmem := by
    obtain ⟨rfl, rfl⟩ : j = i ∧ reply = (request i).failed e := by
      simpa [SharedStore.finish] using hmem
    exact ⟨e, htests, rfl⟩

theorem entryTests_false_ne_none (c : StoreCall) : c.entryTests false ≠ none := by
  cases c <;> simp [StoreCall.entryTests]
  split <;> simp

/-- On a marked store with no call under way an action does nothing, or a call that
begins fails its tests. -/
theorem step_refused (cfg : FileStoreConfig) (request : ℕ → StoreCall)
    (hclosed : s.impl.openOk = false) (hidle : ∀ i, Idle (s.phase i))
    (a : StoreAction) : Refused request s (s.step cfg request a) := by
  have hi := hidle a.call
  cases a with
  | test i =>
    simp only [SharedStore.step, hclosed]
    split
    · split
      next e htests => exact .finish hclosed hidle htests
      next htests => exact absurd htests (entryTests_false_ne_none _)
    · exact .nothing hclosed hidle
  | _ =>
    simp only [call] at hi
    simp only [SharedStore.step, walkOn]
    repeat' split
    all_goals first
      | exact .nothing hclosed hidle
      | simp_all [Idle]

theorem run_refused (cfg : FileStoreConfig) (request : ℕ → StoreCall)
    (hclosed : s.impl.openOk = false) (hidle : ∀ i, Idle (s.phase i)) (actions : List StoreAction) :
    Refused request s (runSteps (SharedStore.step cfg request) s actions) := by
  induction actions generalizing s with
  | nil => exact .nothing hclosed hidle
  | cons a rest ih =>
    have hfirst : Refused request s (s.step cfg request a) := step_refused cfg request hclosed hidle a
    have hrest := ih hfirst.closed hfirst.idle
    refine ⟨hrest.disk.trans hfirst.disk, hrest.closed, hrest.idle, fun i reply hmem => ?_⟩
    rcases List.mem_append.mp hmem with hmem | hmem
    · exact hfirst.replies i reply hmem
    · exact hrest.replies i reply hmem

theorem Quiet.step (hquiet : Quiet s) (halone : Alone s a) : Quiet (s.step cfg request a).1 := by
  intro hclosed' j
  cases hclosed : s.impl.openOk with
  | false => exact (step_refused cfg request hclosed (hquiet hclosed) a).idle j
  | true =>
    obtain hapart | ⟨i, rfl, hpoisons, hothers, hreturned⟩ := step_apart cfg request s a
    · rw [hapart.openOk, hclosed] at hclosed'
      contradiction
    by_cases hj : j = i
    · rw [hj, hreturned]
      trivial
    rw [hothers j hj]
    exact halone hpoisons j hj

theorem Quiet.run (hquiet : Quiet s) {actions : List StoreAction}
    (halone : Guarded (SharedStore.step cfg request) Alone s actions) :
    Quiet (runSteps (SharedStore.step cfg request) s actions).1 := by
  induction actions generalizing s with
  | nil => exact hquiet
  | cons a rest ih => exact ih (hquiet.step halone.1) halone.2

/-- A call that the tests of a marked store refuse has an I/O failure, unless it is a
`reset_to()` with targets that no store accepts. -/
theorem entryTests_closed (htests : c.entryTests false = some e)
    (hvalid : ∀ nextIn nextOut, c = .resetTo nextIn nextOut →
      resetToTargetsValid nextIn nextOut = true) : e = .storeIoFailure := by
  cases c with
  | resetTo nextIn nextOut =>
    simpa [StoreCall.entryTests, hvalid nextIn nextOut rfl, eq_comm] using htests
  | _ => simpa [StoreCall.entryTests, eq_comm] using htests

/-- In any run in which no other call is under way when a call marks the store unusable, the disk
stays as it was at the mark, no job is on the pool, and every call that returns afterwards returns
an I/O failure. -/
theorem no_write_after_poison {w : FileWorld} (hopen : w.impl.openOk = true)
    {before : List StoreAction}
    (halone : Guarded (SharedStore.step cfg request) Alone (.opened w) before)
    (hpoisoned : (runSteps (SharedStore.step cfg request) (.opened w) before).1.impl.openOk = false)
    (after : List StoreAction) :
    let marked := (runSteps (SharedStore.step cfg request) (.opened w) before).1
    let out := runSteps (SharedStore.step cfg request) marked after
    out.1.disk = marked.disk ∧ (∀ i, Idle (out.1.phase i)) ∧ ∀ i reply, (i, reply) ∈ out.2 →
        (∀ nextIn nextOut, request i = .resetTo nextIn nextOut →
          resetToTargetsValid nextIn nextOut = true) →
        reply = (request i).failed .storeIoFailure := by
  have hquiet : Quiet (.opened w) := by simp [Quiet, SharedStore.opened, hopen]
  have hidle := hquiet.run halone hpoisoned
  have hrefused := run_refused cfg request hpoisoned hidle after
  refine ⟨hrefused.disk, hrefused.idle, fun i reply hmem hvalid => ?_⟩
  obtain ⟨e, htests, rfl⟩ := hrefused.replies i reply hmem
  rw [entryTests_closed htests hvalid]

/-- Every call stores a frame under the first number: the first one `A`, the others
`B`. -/
def storeFirst (i : ℕ) : StoreCall := .store 1 (if i = 0 then [65] else [66]) .outbound

/-- A write that fails within the header, and whose truncation fails as well. -/
def tornHeader : WriteFault := ⟨0, 5, .truncateFails⟩

/-- The first call fails and cannot restore the log; the second one begins afterwards
and is refused. -/
theorem no_write_after_poison_second_call :
    let out := runSteps (step StoreLog.smallFrames storeFirst)
      (runSteps (step StoreLog.smallFrames storeFirst) (.opened StoreLog.openedEmpty)
        [.test 0, .acquire 0, .run 0 (.writeFails tornHeader), .settle 0]).1
      [.test 1, .acquire 1, .run 1 .runs, .settle 1]
    out.2.length = 1 ∧ ∀ i reply, (i, reply) ∈ out.2 → reply = .done (.error .storeIoFailure) := by
  have halone : Guarded (step StoreLog.smallFrames storeFirst) Alone
      (.opened StoreLog.openedEmpty)
      [.test 0, .acquire 0, .run 0 (.writeFails tornHeader), .settle 0] := by
    refine ⟨trivial, trivial, trivial, fun _ j hj => ?_, trivial⟩
    rw [phase_step_of_ne hj, phase_step_of_ne hj, phase_step_of_ne hj]
    trivial
  refine ⟨by decide +kernel, fun i reply hmem => ?_⟩
  exact (no_write_after_poison rfl halone (by decide +kernel) _).2.2 i reply hmem nofun

/-- With the second call queued when the first one marks the store, the second one
writes to the log and succeeds. -/
theorem queued_store_writes_after_poison :
    let marked := runSteps (step StoreLog.smallFrames storeFirst)
      (.opened StoreLog.openedEmpty)
      [.test 0, .test 1, .acquire 0, .run 0 (.writeFails tornHeader), .settle 0]
    let out := runSteps (step StoreLog.smallFrames storeFirst) marked.1
      [.acquire 1, .run 1 .runs, .settle 1]
    marked.1.impl.openOk = false ∧ marked.2 = [(0, .done (.error .storeIoFailure))] ∧
      out.1.disk.log ≠ marked.1.disk.log ∧ out.2 = [(1, .done (.ok ()))] := by
  decide +kernel

end Fixpp.Analysis.StorePoison
