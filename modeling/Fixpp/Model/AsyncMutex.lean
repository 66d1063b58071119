import Fixpp.Foundation.Machine
import Fixpp.Model.Prelude

/-!
# The asynchronous mutex

`async_mutex` keeps its waiters in two lists: those pushed since the last unlock hang on
`state_`, the last one first, and those an unlock has taken over stand in `next_drain_head_` in
their order. A `MutexAction` is one atomic step of a lock attempt, an unlock or a cancellation.

A waiter is named by its lock attempt, and a chain of `next_` pointers is the list it links. A
compare-and-swap on `state_` compares addresses, and `address` may give two attempts the same
address.
-/

namespace Fixpp.Model

/-- What `state_` stands for: `not_locked`, or locked with the waiters pushed since the
last exchange, where the empty list is `locked_no_waiters`. -/
inductive LockWord
  | notLocked
  | locked (waiters : List ℕ)
  deriving DecidableEq, Repr

/-- What a thread sees of `state_`. -/
inductive WordValue
  | notLocked
  | lockedNoWaiters
  | waiter (address : ℕ)
  deriving DecidableEq, Repr

def LockWord.waiters : LockWord → List ℕ
  | .notLocked => []
  | .locked ws => ws

def LockWord.value (address : ℕ → ℕ) : LockWord → WordValue
  | .notLocked => .notLocked
  | .locked [] => .lockedNoWaiters
  | .locked (w :: _) => .waiter (address w)

inductive WaiterPhase
  | queued
  | granted
  | cancelled
  deriving DecidableEq, Repr

/-- `expected_t<async_lock_guard>`: the guard or an error. -/
inductive LockResult
  | guard
  /-- `sync_lock_aborted`. -/
  | aborted
  /-- `sync_lock_drained`. -/
  | drained
  /-- `sync_lock_alloc_failed`. -/
  | allocFailed
  deriving DecidableEq, Repr

/-- Which of its two walks an unlock is in. -/
inductive ChainSource
  | residual
  | fifo
  deriving DecidableEq, Repr

/-- Where an `unlock()` is: what it does next. -/
inductive UnlockPoint
  /-- `active_holders_count_` goes down. -/
  | release
  | testDraining
  /-- Under a drain: the word goes back to `not_locked`. -/
  | drainCas
  /-- `next_drain_head_` is exchanged for nothing. -/
  | takeResidual
  /-- The loop over a chain: the phase of its first waiter is read. -/
  | walk (source : ChainSource) (chain : List ℕ)
  /-- The first waiter was seen queued: its phase is swapped. -/
  | tryGrant (source : ChainSource) (w : ℕ) (rest : List ℕ)
  /-- The waiter was granted: `active_holders_count_` goes up. -/
  | countGrant (w : ℕ) (rest : List ℕ)
  /-- `push_residual` of the waiters behind it. -/
  | splice (w : ℕ) (rest : List ℕ)
  | resume (w : ℕ)
  | exchange
  | terminalCas
  /-- The last swap lost: `active_holders_count_` goes up and `unlock()` is called again. -/
  | recount
  /-- A granted record in a chain: `std::terminate`. -/
  | terminated
  deriving DecidableEq, Repr

/-- Where a lock attempt is, from the call to the end of its unlock. -/
inductive LockPoint
  | idle
  | entry
  | fastPath
  /-- The fast path won: `active_holders_count_` goes up and the handler gets the guard. -/
  | fastCount
  | allocate
  /-- The handler is stored, the cancellation slot is assigned. -/
  | assign
  | retestDraining
  | reload
  /-- The loop with `old_state`. -/
  | enqueue (oldState : WordValue)
  | slowCount
  | slowPhase
  /-- The result is in the record and its resumption is not posted yet. -/
  | schedule (result : LockResult)
  /-- The record is in one of the lists and the attempt sleeps. -/
  | queued
  /-- The resumption is posted. -/
  | posted (result : LockResult)
  | holding
  | unlocking (p : UnlockPoint)
  | done
  deriving DecidableEq, Repr

/-- Where a call of `cancel_and_drain()` is. -/
inductive DrainPoint
  | idle
  /-- Between two passes of the reaper. -/
  | yielding
  /-- Lost the election, waits for `draining_`. -/
  | awaitDraining
  | awaitComplete
  | returned
  deriving DecidableEq, Repr

inductive MutexEvent
  | started (i : ℕ)
  | queued (i : ℕ)
  | granted (i : ℕ)
  /-- A queued waiter was taken out by its cancellation or by the reaper. -/
  | cancelled (i : ℕ)
  | completed (i : ℕ) (result : LockResult)
  /-- The holder calls `unlock()`. -/
  | released (i : ℕ)
  /-- An `unlock()` ends without a successor. -/
  | freed (i : ℕ)
  | drainStarted (k : ℕ)
  | drainReturned (k : ℕ)
  deriving DecidableEq, Repr

structure MutexSystem where
  /-- `state_`. -/
  word : LockWord := .notLocked
  /-- `next_drain_head_`. -/
  residual : List ℕ := []
  draining : Bool := false
  drainInProgress : Bool := false
  /-- `active_holders_count_`. -/
  activeHolders : ℕ := 0
  /-- `in_flight_resumers_`. -/
  inFlight : ℕ := 0
  drainingComplete : Bool := false
  phase : ℕ → WaiterPhase := fun _ => .queued
  point : ℕ → LockPoint := fun _ => .idle
  /-- The resumptions that were posted and have not come to their end. -/
  resumers : List ℕ := []
  drains : ℕ → DrainPoint := fun _ => .idle

inductive MutexAction
  | call (i : ℕ)
  /-- The attempt, or the unlock of its guard, goes on. With `ok` the record can be
  allocated, the slot can be assigned and a weak compare-and-swap does not fail
  without a reason. -/
  | advance (i : ℕ) (ok : Bool)
  | cancel (i : ℕ)
  /-- A posted resumption calls the handler. -/
  | run (i : ℕ)
  /-- It comes to its end, behind what the handler did. -/
  | endRun (i : ℕ)
  | unlock (i : ℕ)
  /-- A call of `cancel_and_drain()` goes on to its next suspension. -/
  | drain (k : ℕ)
  deriving DecidableEq, Repr

namespace MutexSystem

variable (address : ℕ → ℕ) (s : MutexSystem)

def move (i : ℕ) (p : LockPoint) : MutexSystem := { s with point := Function.update s.point i p }

def setPhase (i : ℕ) (p : WaiterPhase) : MutexSystem :=
  { s with phase := Function.update s.phase i p }

def complete (i : ℕ) (r : LockResult) : MutexSystem × List MutexEvent :=
  (s.move i (if r = .guard then .holding else .done), [.completed i r])

def scheduleResume (i : ℕ) (r : LockResult) : MutexSystem :=
  { s.move i (.posted r) with inFlight := s.inFlight + 1, resumers := s.resumers ++ [i] }

def unlockStep (i : ℕ) : UnlockPoint → MutexSystem × List MutexEvent
  | .release =>
    ({ s with activeHolders := s.activeHolders - 1 }.move i (.unlocking .testDraining), [])
  | .testDraining =>
    (s.move i (.unlocking (if s.draining then .drainCas else .takeResidual)), [])
  | .drainCas =>
    ({ s with word := if s.word = LockWord.locked [] then .notLocked else s.word }.move i .done,
    [.freed i])
  | .takeResidual =>
    ({ s with residual := [] }.move i (.unlocking (.walk .residual s.residual)), [])
  | .walk .residual [] => (s.move i (.unlocking .exchange), [])
  | .walk .fifo [] => (s.move i (.unlocking .terminalCas), [])
  | .walk source (w :: rest) =>
    match s.phase w with
    | .queued => (s.move i (.unlocking (.tryGrant source w rest)), [])
    | .cancelled => (s.move i (.unlocking (.walk source rest)), [])
    | .granted => (s.move i (.unlocking .terminated), [])
  | .tryGrant source w rest =>
    match s.phase w with
    | .queued => ((s.setPhase w .granted).move i (.unlocking (.countGrant w rest)), [.granted w])
    | .cancelled => (s.move i (.unlocking (.walk source rest)), [])
    | .granted => (s.move i (.unlocking .terminated), [])
  | .countGrant w rest =>
    ({ s with activeHolders := s.activeHolders + 1 }.move i (.unlocking (.splice w rest)), [])
  | .splice w rest =>
    ({ s with residual := rest ++ s.residual }.move i (.unlocking (.resume w)), [])
  | .resume w => ((s.scheduleResume w .guard).move i .done, [])
  | .exchange =>
    ({ s with word := .locked [] }.move i (.unlocking
      (if s.word.waiters = [] then .terminalCas else .walk .fifo s.word.waiters.reverse)), [])
  | .terminalCas =>
    if s.word = .locked [] then ({ s with word := .notLocked }.move i .done, [.freed i])
    else (s.move i (.unlocking .recount), [])
  | .recount =>
    ({ s with activeHolders := s.activeHolders + 1 }.move i (.unlocking .release), [])
  | .terminated => (s, [])

def lockStep (i : ℕ) (ok : Bool) : LockPoint → MutexSystem × List MutexEvent
  | .entry => if s.draining then s.complete i .drained else (s.move i .fastPath, [])
  | .fastPath =>
    if s.word = .notLocked then
      ({ s with word := .locked [] }.move i .fastCount, [.granted i])
    else (s.move i .allocate, [])
  | .fastCount => { s with activeHolders := s.activeHolders + 1 }.complete i .guard
  | .allocate => if ok then (s.move i .assign, []) else s.complete i .allocFailed
  | .assign =>
    if ok then (s.move i .retestDraining, [])
    else ((s.setPhase i .cancelled).move i (.schedule .allocFailed), [])
  | .retestDraining =>
    if s.draining then ((s.setPhase i .cancelled).move i (.schedule .drained), [])
    else (s.move i .reload, [])
  | .reload => (s.move i (.enqueue (s.word.value address)), [])
  | .enqueue .notLocked =>
    if ok ∧ s.word = .notLocked then
      ({ s with word := .locked [] }.move i .slowCount, [.granted i])
    else (s.move i (.enqueue (s.word.value address)), [])
  | .enqueue oldState =>
    if ok ∧ s.word.value address = oldState then
      ({ s with word := .locked (i :: s.word.waiters) }.move i .queued, [.queued i])
    else (s.move i (.enqueue (s.word.value address)), [])
  | .slowCount => ({ s with activeHolders := s.activeHolders + 1 }.move i .slowPhase, [])
  | .slowPhase => ((s.setPhase i .granted).move i (.schedule .guard), [])
  | .schedule r => (s.scheduleResume i r, [])
  | .unlocking p => s.unlockStep i p
  | _ => (s, [])

/-- `on_cancel`. A cancellation does not overlap the attempt's own call, so it finds
the attempt asleep or behind its resumption. -/
def onCancel (i : ℕ) : MutexSystem × List MutexEvent :=
  if s.point i = .queued ∧ s.phase i = .queued then
    ((s.setPhase i .cancelled).move i (.schedule .aborted), [.cancelled i])
  else (s, [])

def reapChain : List ℕ → MutexSystem → MutexSystem × List MutexEvent
  | [], s => (s, [])
  | w :: rest, s =>
    if s.phase w = .queued then
      let later := reapChain rest ((s.setPhase w .cancelled).scheduleResume w .aborted)
      (later.1, .cancelled w :: later.2)
    else reapChain rest s

/-- A pass of the reaper and the test of the terminal condition; the drain is finished
or yields. -/
def drainPass (k : ℕ) : MutexSystem × List MutexEvent :=
  let chain := s.word.waiters.reverse ++ s.residual
  let reaped := reapChain chain { s with word := .locked [], residual := [] }
  let s := reaped.1
  if s.activeHolders = 0 ∧ s.inFlight = 0 ∧ chain = [] then
    ({ s with
        word := if s.word = LockWord.locked [] then .notLocked else s.word
        drainingComplete := true
        drains := Function.update s.drains k .returned },
      reaped.2 ++ [.drainReturned k])
  else ({ s with drains := Function.update s.drains k .yielding }, reaped.2)

/-- The wait of a second call for the end of the first one. -/
def awaitComplete (k : ℕ) : MutexSystem × List MutexEvent :=
  if s.drainingComplete then
    ({ s with drains := Function.update s.drains k .returned }, [.drainReturned k])
  else ({ s with drains := Function.update s.drains k .awaitComplete }, [])

/-- `cancel_and_drain()` up to its next suspension. -/
def drainStep (k : ℕ) : MutexSystem × List MutexEvent :=
  match s.drains k with
  | .idle =>
    if s.draining then s.awaitComplete k
    else if s.drainInProgress then
      ({ s with drains := Function.update s.drains k .awaitDraining }, [])
    else
      let passed := { s with drainInProgress := true, draining := true }.drainPass k
      (passed.1, .drainStarted k :: passed.2)
  | .yielding => s.drainPass k
  | .awaitDraining => if s.draining then s.awaitComplete k else (s, [])
  | .awaitComplete => s.awaitComplete k
  | .returned => (s, [])

/-- One step. A step that its attempt is not ready for does nothing. -/
def step (s : MutexSystem) : MutexAction → MutexSystem × List MutexEvent
  | .call i => if s.point i = .idle then (s.move i .entry, [.started i]) else (s, [])
  | .advance i ok => s.lockStep address i ok (s.point i)
  | .cancel i => s.onCancel i
  | .run i =>
    match s.point i with
    | .posted r => s.complete i r
    | _ => (s, [])
  | .endRun i =>
    match s.point i with
    | .posted _ => (s, [])
    | _ =>
      if i ∈ s.resumers then
        ({ s with inFlight := s.inFlight - 1, resumers := s.resumers.erase i }, [])
      else (s, [])
  | .unlock i =>
    if s.point i = .holding then (s.move i (.unlocking .release), [.released i]) else (s, [])
  | .drain k => s.drainStep k

end MutexSystem

end Fixpp.Model
