import Mathlib

/-!
# The sleeps of the system clock

`system_clock_source` keeps a timer a session; a sleep of the engine has its own.
`cancel_sleeps` posts a cancellation to the timer of every sleep in flight. A step is what runs
between two points where another thread can come in.
-/

namespace Fixpp.Model

instance decidableMemTimers (t : Option ℕ × ℕ) (l : List (Option ℕ × ℕ)) : Decidable (t ∈ l) := inferInstance

/-- Where a call of `sleep_until` is. -/
inductive SleepPhase
  /-- The expiry of its timer is set. -/
  | armed
  /-- In the in-flight list, about to wait. -/
  | registered
  | waiting
  /-- The wait is over, the awaiter not yet resumed. -/
  | ended (aborted : Bool)
  | returned (aborted : Bool)
  deriving DecidableEq

def SleepPhase.inflight : SleepPhase → Bool
  | registered | waiting | ended _ => true
  | _ => false

def SleepPhase.outcome : SleepPhase → Option Bool
  | ended aborted | returned aborted => some aborted
  | _ => none

/-- A session's timers are numbered by how often it was forgotten before, those of the engine by
the sleeps before. -/
abbrev Timer := Option ℕ × ℕ

structure Sleep where
  id : ℕ
  timer : Timer
  deadline : ℕ
  phase : SleepPhase := .armed
  awaiterCancelled : Bool := false
  /-- `cancel_sleeps` was called since the sleep started; nothing reads it. -/
  cancelCalled : Bool := false

/-- The timer a session, or the engine, sleeps on next is number `slots`; `posted` are the timers
with a posted `cancel()`. -/
structure SystemClock where
  now : ℕ := 0
  slots : Option ℕ → ℕ := fun _ => 0
  expiry : Timer → ℕ := fun _ => 0
  sleeps : List Sleep := []
  posted : List Timer := []

inductive ClockAct
  | elapse (ns : ℕ)
  | sleepUntil (session : Option ℕ) (deadline : ℕ)
  /-- A sleep goes on to its wait, or returns behind it. -/
  | advance (id : ℕ)
  | expire (id : ℕ)
  | cancelAwaiter (id : ℕ)
  | cancelSleeps
  | runPosted (timer : Timer)
  | forgetSession (session : ℕ)

namespace Sleep

variable (sl : Sleep)

def advance : Sleep :=
  match sl.phase with
  | .armed => { sl with phase := .registered }
  | .registered => { sl with phase := if sl.awaiterCancelled then .ended true else .waiting }
  | .ended aborted => { sl with phase := .returned aborted }
  | _ => sl

def endWait (aborted : Bool) : Sleep :=
  if sl.phase = .waiting then { sl with phase := .ended aborted } else sl

/-- `cancel()` of a timer, also as a part of `expires_at`. -/
def cancelTimer (timer : Timer) : Sleep := if sl.timer = timer then sl.endWait true else sl

end Sleep

namespace SystemClock

variable (w : SystemClock)

/-- `sleep_until` up to its registration. A session that sleeps does not sleep again. -/
def sleepUntil (session : Option ℕ) (deadline : ℕ) : SystemClock :=
  let timer := (session, w.slots session)
  if session.isSome ∧ w.sleeps.any fun sl =>
      sl.timer.1 = session ∧ (sl.phase = .armed ∨ sl.phase.inflight) then w
  else
    { w with
      slots := Function.update w.slots none (w.slots none + 1)
      expiry := Function.update w.expiry timer deadline
      sleeps := w.sleeps.map (·.cancelTimer timer) ++ [{ id := w.sleeps.length, timer, deadline }] }

def step : ClockAct → SystemClock
  | .elapse ns => { w with now := w.now + ns }
  | .sleepUntil session deadline => w.sleepUntil session deadline
  | .advance id =>
      { w with sleeps := w.sleeps.map fun sl => if sl.id = id then sl.advance else sl }
  | .expire id =>
      { w with sleeps := w.sleeps.map fun sl =>
          if sl.id = id ∧ w.expiry sl.timer ≤ w.now then sl.endWait false else sl }
  | .cancelAwaiter id =>
      { w with sleeps := w.sleeps.map fun sl =>
          if sl.id = id then { sl with awaiterCancelled := true }.endWait true else sl }
  | .cancelSleeps =>
      { w with
        sleeps := w.sleeps.map ({ · with cancelCalled := true })
        posted := w.posted ++ (w.sleeps.filter (·.phase.inflight)).map (·.timer) }
  | .runPosted timer =>
      if timer ∈ w.posted then
        { w with
          sleeps := w.sleeps.map (·.cancelTimer timer)
          posted := w.posted.erase timer }
      else w
  | .forgetSession s => { w with slots := Function.update w.slots (some s) (w.slots (some s) + 1) }

def run : List ClockAct → SystemClock := List.foldl step w

end SystemClock

end Fixpp.Model
