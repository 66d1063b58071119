import Fixpp.Analysis.EngineSteps

/-!
# Sends, stop and the teardown of an engine

Over every run in which no call of `stop` tests the flag while another one is between its test
and its store: the teardown is performed once and in order, behind the last role loop and the
last admitted send, and nothing is used after its release.
-/

namespace Fixpp.Analysis.EngineTeardown

open Foundation List
open Model
open EngineSteps Engine

variable {n j i : ℕ} {st : TeardownStep} {e : EngineEvent}

def engineLog (n : ℕ) (started : Bool) (actions : List Action) : List EngineEvent :=
  (runSteps Engine.step (Engine.registered n started) actions).2

def roleLoops (n : ℕ) (started : Bool) : ℕ := if started then n else 0

def advances (i : ℕ) : Action → Bool
  | .advance k _ => k = i
  | _ => false

def completes (i : ℕ) : EngineEvent → Bool
  | .completed k _ => k = i
  | _ => false

def performs (st : TeardownStep) : EngineEvent → Bool
  | .performed _ st' => st' = st
  | _ => false

/-- A send goes on to the end of its first continuation before anything else: its thread is not held
up between the enrolment, the test of the flag and the return of a refused send. -/
def Unbroken (s : Engine) (a : Action) : Prop :=
  ∀ i < s.sends.length, ∀ p, s.sends[i]? = some p → inside p = false → isDone p = false →
    advances i a = true

/-! ## Runs -/

variable {started : Bool} {actions : List Action}

theorem kept_run (hspaced : Guarded step Spaced (registered n started) actions) :
    (orderly (roleLoops n started)).Accepts [] (engineLog n started actions) ∧
      Kept n (roleLoops n started) (engineLog n started actions)
        (runSteps step (registered n started) actions).1 := by
  have hrun := accepts_runSteps_guarded (orderly (roleLoops n started))
    (I := Kept n (roleLoops n started)) (kept_step (n := n)) actions [] _
    (kept_registered n started) hspaced
  simpa [orderly, engineLog] using hrun

theorem sends_advanceLoop (s : Engine) (id : ℕ) (unwinds : Bool) :
    (s.advanceLoop id unwinds).1.sends = s.sends ∧
      (s.advanceLoop id unwinds).1.stops = s.stops := by
  simp only [advanceLoop, publishEntry, unpublishEntry,
    publishReaderSnapshot, setLoop]
  repeat' split
  all_goals exact ⟨rfl, rfl⟩

theorem sends_advanceStop (s : Engine) (j : ℕ) :
    (s.advanceStop j).1.sends = s.sends ∧ (s.advanceStop j).1.stops.length = s.stops.length := by
  simp only [advanceStop, noteEntry, endIteration, emitCancel,
    noteEngineStop, closeTransports, testLoops, closeEntry,
    sessionClosed, clearRegistry, publishReaderSnapshot, setStop]
  repeat' split
  all_goals simp

theorem stop_of_performed {s : Engine} {a : Action} (h : .performed j st ∈ (s.step a).2) :
    ∃ k, a = .stop k := by
  cases a with
  | stop k => exact ⟨k, rfl⟩
  | send id => simp [step, enrol] at h
  | advance i answer =>
    rw [step] at h
    rcases advanceSend_cases s i answer with ⟨heq, -⟩ | ⟨p, events, p', -, hmove, heq⟩
    · simp [heq] at h
    rw [heq] at h
    cases hmove.about_eq _ h
  | loop id unwinds =>
    simp only [step, advanceLoop] at h
    repeat' split at h
    all_goals simp at h
  | transition | callStop | transportClosed => cases h

theorem about_advanceStop {loops : ℕ} {past : List EngineEvent} {s : Engine}
    (h : Kept n loops past s) (j : ℕ) : ∀ e ∈ (s.advanceStop j).2, about e = none := by
  cases hp : s.stops[j]? with
  | none => simp [advanceStop, hp]
  | some p =>
    by_cases hopen : p = .returned
    · simp [advanceStop, hp, hopen]
    rcases moves_advanceStop (h.underway hp hopen) hp hopen with heq | ⟨steps, p', hevents, -⟩
    · simp [heq]
    · simp [hevents, about]

/-! ## What the order of the events says -/

section Order

variable {loops : ℕ} {log first rest : List EngineEvent}

theorem allowed_later (hlog : (orderly loops).Accepts [] (first ++ rest)) (he : e ∈ rest) :
    ∃ mid ⊆ rest, Allowed loops (first ++ mid) e :=
  Monitor.exists_allows_of_historic hlog he

section

variable (hlog : (orderly loops).Accepts [] log)
include hlog

theorem allowed_of_mem (he : e ∈ log) : ∃ mid ⊆ log, Allowed loops mid e :=
  allowed_later (nil_append log ▸ hlog) he

theorem no_fault (f : Fault) : .fault f ∉ log := by
  intro hf
  obtain ⟨_, -, hallowed⟩ := allowed_of_mem hlog hf
  exact hallowed

theorem performs_once (st : TeardownStep) : log.countP (performs st) ≤ 1 := by
  refine Monitor.countP_le_one_of_historic ?_ hlog
  intro past e hallowed he e' he' hagain
  cases e <;> simp only [performs, Bool.false_eq_true, decide_eq_true_eq] at he
  cases e' <;> simp only [performs, Bool.false_eq_true, decide_eq_true_eq] at hagain
  subst he hagain
  exact absurd (hallowed.1 _ _ he') (lt_irrefl _)

theorem completes_once (i : ℕ) : log.countP (completes i) ≤ 1 := by
  refine Monitor.countP_le_one_of_historic ?_ hlog
  intro past e hallowed he e' he' hagain
  cases e <;> simp only [completes, Bool.false_eq_true, decide_eq_true_eq] at he
  cases e' <;> simp only [completes, Bool.false_eq_true, decide_eq_true_eq] at hagain
  subst he hagain
  exact hallowed.2.1 _ he'

end

theorem not_admitted_of_late (hlog : (orderly loops).Accepts [] (first ++ .performed j st :: rest))
    (hlate : .begun i ∈ rest) : .admitted i ∉ first ++ .performed j st :: rest := by
  have hfresh : .begun i ∉ first := by
    obtain ⟨mid, -, hallowed⟩ := allowed_later hlog (mem_cons_of_mem _ hlate)
    exact fun hfirst => hallowed (mem_append_left _ hfirst)
  intro hadmitted
  rcases mem_append.mp hadmitted with hearly | hbehind
  · obtain ⟨hfirst, -⟩ := (Monitor.accepts_append _ _ _ _).mp hlog
    obtain ⟨mid, hmid, hallowed⟩ := allowed_of_mem hfirst hearly
    exact hfresh (hmid hallowed.1)
  have hlog' : (orderly loops).Accepts [] ((first ++ [.performed j st]) ++ rest) := by
    simpa using hlog
  have hrest : .admitted i ∈ rest := by simpa using hbehind
  obtain ⟨mid, -, hallowed⟩ := allowed_later hlog' hrest
  exact hallowed.2 j st (by simp)

theorem admitted_of_entered (hlog : (orderly loops).Accepts [] log) {id : ℕ}
    (h : .entered i id ∈ log) : .admitted i ∈ log := by
  obtain ⟨mid, hmid, hallowed⟩ := allowed_of_mem hlog h
  exact hmid hallowed.1

theorem refused_of_completed (hlog : (orderly loops).Accepts [] log) {r : SendResult}
    (h : .completed i r ∈ log) (hout : .admitted i ∉ log) :
    r = .error .sessionInvalidStateForSend := by
  obtain ⟨mid, hmid, hallowed⟩ := allowed_of_mem hlog h
  exact hallowed.2.2.resolve_left fun hin => hout (hmid hin)

theorem drained_of_late (hlog : (orderly loops).Accepts [] (first ++ .performed j st :: rest))
    (hst : stepPlace .drainSends < stepPlace st) : Drained first :=
  (Monitor.allows_of_historic hlog : Allowed loops first (.performed j st)).2.1 hst

theorem ended_of_clear (hlog : (orderly loops).Accepts [] (first ++ .performed j .clear :: rest)) :
    ∀ id < loops, .loopEnded id ∈ first :=
  (Monitor.allows_of_historic hlog : Allowed loops first (.performed j .clear)).2.2 rfl

/-- Behind the drain no send is admitted, looks into the registry or enters a
session, and no admitted one returns. -/
theorem quiet_of_drained (hlog : (orderly loops).Accepts [] (first ++ rest)) (h : Drained first)
    (i : ℕ) : .admitted i ∉ rest ∧ .consulted i ∉ rest ∧ (∀ id, .entered i id ∉ rest) ∧
      (.admitted i ∈ first → ∀ r, .completed i r ∉ rest) := by
  obtain ⟨⟨j, hj⟩, hreturned⟩ := h
  refine ⟨fun he => ?_, fun he => ?_, fun id he => ?_, fun hin r he => ?_⟩
  · obtain ⟨mid, -, hallowed⟩ := allowed_later hlog he
    exact hallowed.2 j _ (mem_append_left _ hj)
  · obtain ⟨mid, -, hallowed⟩ := allowed_later hlog he
    exact hallowed.2 j (mem_append_left _ hj)
  · obtain ⟨mid, -, hallowed⟩ := allowed_later hlog he
    exact hallowed.2 j (mem_append_left _ hj)
  obtain ⟨r', hr'⟩ := hreturned i hin
  obtain ⟨mid, -, hallowed⟩ := allowed_later hlog he
  exact hallowed.2.1 r' (mem_append_left _ hr')

end Order

/-! ## Every send gets through -/

def left (s : Engine) (i : ℕ) : ℕ := (s.sends[i]?).elim 0 stepsLeft

theorem left_of_sends_eq {s s' : Engine} (h : s'.sends = s.sends) (i : ℕ) : left s' i = left s i := by
  rw [left, left, h]

variable (s : Engine)

theorem left_advanceSend (i k : ℕ) (answer : SendResult) :
    (s.advanceSend k answer).1.sends.length = s.sends.length ∧
      left (s.advanceSend k answer).1 i ≤ left s i - if k = i then 1 else 0 := by
  rcases advanceSend_cases s k answer with ⟨heq, hnone⟩ | ⟨p, events, p', hp, hmove, heq⟩
  · rw [heq]
    refine ⟨rfl, ?_⟩
    split
    next hik =>
      subst hik
      cases hp : s.sends[k]? with
      | none => simp [left, hp]
      | some p => simp [left, hp, hnone p hp]
    · simp
  have hless := hmove.stepsLeft_lt
  rw [heq]
  refine ⟨by simp [moved, setSend], ?_⟩
  simp only [left, moved, setSend, getElem?_set_of_some hp]
  split
  next hik =>
    rw [← hik, hp]
    simp only [Option.elim_some]
    omega
  · simp

theorem left_step (i : ℕ) (a : Action) (hi : i < s.sends.length) : i < (s.step a).1.sends.length ∧
      left (s.step a).1 i ≤ left s i - if advances i a then 1 else 0 := by
  cases a with
  | send id =>
    refine ⟨by simp [step, enrol]; omega, ?_⟩
    simp [step, enrol, left, advances, getElem?_append_left hi]
  | advance k answer =>
    obtain ⟨hlen, hleft⟩ := left_advanceSend s i k answer
    exact ⟨hlen.symm ▸ hi, by simpa [step, advances] using hleft⟩
  | loop id unwinds =>
    have hsends := (sends_advanceLoop s id unwinds).1
    exact ⟨by rwa [step, hsends], by simp [step, left_of_sends_eq hsends, advances]⟩
  | stop j =>
    have hsends := (sends_advanceStop s j).1
    exact ⟨by rwa [step, hsends], by simp [step, left_of_sends_eq hsends, advances]⟩
  | transition | callStop => exact ⟨hi, by simp [left, step, guardStop, advances]⟩
  | transportClosed j =>
    have hsends : (s.joinClose j).sends = s.sends := by
      unfold joinClose
      split <;> rfl
    exact ⟨by rwa [step, hsends], by simp [step, left_of_sends_eq hsends, advances]⟩

theorem left_run (actions : List Action) : ∀ (s : Engine) (i : ℕ), i < s.sends.length →
    i < (runSteps step s actions).1.sends.length ∧
      left (runSteps step s actions).1 i ≤ left s i - actions.countP (advances i) := by
  induction actions with
  | nil => exact fun s i hi => ⟨hi, by simp [runSteps]⟩
  | cons a rest ih =>
    intro s i hi
    obtain ⟨hi', hstep⟩ := left_step s i a hi
    obtain ⟨hlen, hrest⟩ := ih _ i hi'
    refine ⟨hlen, Nat.le_trans hrest ?_⟩
    rw [countP_cons]
    omega

theorem left_le (i : ℕ) : left s i ≤ 6 := by
  unfold left
  cases s.sends[i]? with
  | none => simp
  | some p => cases p <;> simp [stepsLeft]

theorem completed_of_turns {before after : List Action}
    (hspaced : Guarded step Spaced (registered n started) (before ++ after))
    (hbegun : .begun i ∈ engineLog n started before) (hturns : 6 ≤ after.countP (advances i)) :
    ∃ r, .completed i r ∈ engineLog n started (before ++ after) := by
  have hi : i < (runSteps step (registered n started) before).1.sends.length := by
    have hkept := (kept_run hspaced.append.1).2
    simpa using ((hkept.sends.agrees i).begun).mp hbegun
  have hkept := (kept_run hspaced).2
  rw [runSteps_append] at hkept
  obtain ⟨hlen, hleft⟩ := left_run after _ i hi
  have hzero := left_le (runSteps step (registered n started) before).1 i
  -- nothing is left of the send, so it is done, and the log knows
  have hp := getElem?_eq_getElem hlen
  have hnone : left _ i = 0 := Nat.le_zero.mp (Nat.le_trans hleft (by omega))
  rw [left, hp, Option.elim_some] at hnone
  revert hp hnone
  generalize (runSteps step (runSteps step (registered n started) before).1
    after).1.sends[i] = p
  intro hp hnone
  cases p <;> simp [stepsLeft] at hnone
  case done r => exact ⟨r, ((hkept.sends.agrees i).completed r).mpr hp⟩

/-! ## One call of `stop` -/

theorem stops_step (a : Action) :
    (s.step a).1.stops.length = s.stops.length + if a = .callStop then 1 else 0 := by
  cases a with
  | send => rfl
  | advance i answer =>
    rw [step]
    rcases advanceSend_cases s i answer with ⟨heq, -⟩ | ⟨_, _, _, -, -, heq⟩ <;> rw [heq] <;> rfl
  | loop id unwinds => simp [step, (sends_advanceLoop s id unwinds).2]
  | stop j => simp [step, (sends_advanceStop s j).2]
  | transition => simp [step]
  | callStop => simp [step, guardStop]
  | transportClosed j =>
    simp only [step, joinClose, setStop]
    split <;> simp

theorem spaced_of_one (n : ℕ) (started : Bool) (hone : actions.countP (· = .callStop) ≤ 1) :
    Guarded step Spaced (registered n started) actions := by
  refine guarded_of_invariant (I := fun s rest => s.stops.length + rest.countP (· = .callStop) ≤ 1)
    ?_ actions _ (by simpa [registered] using hone)
  intro s a rest hle
  rw [countP_cons] at hle
  refine ⟨?_, ?_⟩
  · rintro rfl hpassed
    have hpos := length_pos_of_mem hpassed
    simp at hle
    omega
  · rw [stops_step]
    simp only [decide_eq_true_eq] at hle
    omega

/-! ## The clear -/

/-- When no thread is held up in the first continuation of its send, every send has
returned at the clear. -/
theorem completed_of_clear (hspaced : Guarded step Spaced (registered n started) actions)
    (hunbroken : Guarded step Unbroken (registered n started) actions)
    {first rest : List EngineEvent}
    (hlog : engineLog n started actions = first ++ .performed j .clear :: rest) :
    ∀ i, .begun i ∈ first → ∃ r, .completed i r ∈ first := by
  intro i hi
  have hdrained : Drained first :=
    drained_of_late (hlog ▸ (kept_run hspaced).1) (by simp [Prod.Lex.toLex_lt_toLex])
  obtain ⟨before, a, after, mid, mid', rfl, rfl, hstep⟩ := runSteps_split hlog
  have hclear : .performed j .clear ∈
      ((runSteps step (.registered n started) before).1.step a).2 := by
    simp [hstep]
  obtain ⟨k, rfl⟩ := stop_of_performed hclear
  have hkept := (kept_run hspaced.append.1).2
  have hturn := hunbroken.append.2.1
  -- the step of `stop` begins no send
  have hpast : .begun i ∈ engineLog n started before := by
    rcases mem_append.mp hi with hold | hnew
    · exact hold
    have hnone := about_advanceStop hkept k (.begun i) (hstep ▸ mem_append_left _ hnew)
    cases hnone
  obtain ⟨p, hp⟩ := Option.isSome_iff_exists.mp ((hkept.sends.agrees i).begun.mp hpast)
  obtain ⟨hlt, -⟩ := List.getElem?_eq_some_iff.mp hp
  by_cases hinside : inside p = true
  · exact hdrained.2 i (mem_append_left _ ((hkept.sends.agrees i).inside (by simp [hp, hinside])))
  by_cases hdone : isDone p = true
  · cases p <;> simp [isDone] at hdone
    exact ⟨_, mem_append_left _ (((hkept.sends.agrees i).completed _).mpr hp)⟩
  have hadvances := hturn i hlt p hp (by simpa using hinside) (by simpa using hdone)
  cases hadvances

/-! ## The results -/

/-- Sends and one call of `stop`. A send that gets its turns returns exactly once; one that begins
behind the flag is refused; at the clear of the registry every admitted send has returned, and every
send at all unless a thread is held up on the way to its refusal; and no session is entered once
`stop` has come to close it. -/
theorem sends_settle_before_clear (n : ℕ) (started : Bool) (actions : List Action)
    (hone : actions.countP (· = .callStop) ≤ 1) :
    (∀ i, (engineLog n started actions).countP (completes i) ≤ 1) ∧
    (∀ before after i, actions = before ++ after → .begun i ∈ engineLog n started before →
      6 ≤ after.countP (advances i) → (engineLog n started actions).countP (completes i) = 1) ∧
    (∀ first rest j i, engineLog n started actions = first ++ .performed j .flag :: rest →
      .begun i ∈ rest → (∀ id, .entered i id ∉ engineLog n started actions) ∧
        ∀ r, .completed i r ∈ engineLog n started actions →
          r = .error .sessionInvalidStateForSend) ∧
    (∀ first rest j, engineLog n started actions = first ++ .performed j .clear :: rest →
      (∀ i, .admitted i ∈ first → ∃ r, .completed i r ∈ first) ∧
      (Guarded Engine.step Unbroken (Engine.registered n started) actions →
        ∀ i, .begun i ∈ first → ∃ r, .completed i r ∈ first) ∧
      ∀ i, .admitted i ∉ rest ∧ .consulted i ∉ rest ∧ (∀ id, .entered i id ∉ rest) ∧
        (.admitted i ∈ first → ∀ r, .completed i r ∉ rest)) ∧
    (∀ first rest j id, engineLog n started actions = first ++ .performed j (.closeSession id) :: rest →
      ∀ i, .entered i id ∉ rest) := by
  have hspaced := spaced_of_one n started hone
  have hlog := (kept_run hspaced).1
  refine ⟨completes_once hlog, ?_, ?_, ?_, ?_⟩
  · rintro before after i rfl hbegun hturns
    obtain ⟨r, hr⟩ := completed_of_turns hspaced hbegun hturns
    have hpos : 0 < (engineLog n started (before ++ after)).countP (completes i) :=
      countP_pos_iff.mpr ⟨_, hr, by simp [completes]⟩
    have hle := completes_once hlog i
    omega
  · intro first rest j i hsplit hlate
    have hout : .admitted i ∉ engineLog n started actions := by
      rw [hsplit] at hlog ⊢
      exact not_admitted_of_late hlog hlate
    exact ⟨fun id hin => hout (admitted_of_entered hlog hin),
      fun r hr => refused_of_completed hlog hr hout⟩
  · intro first rest j hsplit
    have hdrained : Drained first :=
      drained_of_late (hsplit ▸ hlog) (by simp [Prod.Lex.toLex_lt_toLex])
    refine ⟨hdrained.2, fun hunbroken => completed_of_clear hspaced hunbroken hsplit, fun i => ?_⟩
    rw [hsplit] at hlog
    simpa using quiet_of_drained hlog hdrained i
  · intro first rest j id hsplit i hin
    rw [hsplit] at hlog
    have hdrained : Drained first := drained_of_late hlog (by simp [Prod.Lex.toLex_lt_toLex])
    exact (quiet_of_drained hlog hdrained i).2.2.1 id (mem_cons_of_mem _ hin)

/-- A send before the flag, one behind the clear, and the whole teardown. -/
def sendStopSend : List Action :=
  [Action.send 0, .callStop, .stop 0] ++ replicate 6 (Action.advance 0 (.ok ())) ++
    replicate 7 (Action.stop 0) ++ [Action.loop 0 true, .loop 0 true] ++
    replicate 6 (Action.stop 0) ++ [Action.send 0] ++ replicate 6 (Action.advance 1 (.ok ()))

theorem sends_settle_before_clear_both : sendStopSend.countP (· = .callStop) ≤ 1 ∧
      (engineLog 1 true sendStopSend).countP (completes 0) = 1 ∧
      .performed 0 .clear ∈ engineLog 1 true sendStopSend ∧
      ∀ r, .completed 1 r ∈ engineLog 1 true sendStopSend →
        r = .error .sessionInvalidStateForSend := by
  have hone : sendStopSend.countP (· = .callStop) ≤ 1 := by decide
  obtain ⟨-, hcompletes, hlate, -⟩ := sends_settle_before_clear 1 true sendStopSend hone
  refine ⟨hone, hcompletes [.send 0] sendStopSend.tail 0 rfl (by decide) (by decide),
    by decide +kernel, ?_⟩
  refine (hlate ((engineLog 1 true sendStopSend).take 1) ((engineLog 1 true sendStopSend).drop 2) 0 1
    (by decide +kernel) (by decide +kernel)).2

/-- Whenever no call of `stop` tests the flag while another one is between its test and its store:
every step of the teardown is performed once at most, the registry is cleared behind the last role
loop and the last send, and nothing is used after its release. -/
theorem teardown_runs_once (n : ℕ) (started : Bool) (actions : List Action)
    (hspaced : Guarded Engine.step Spaced (Engine.registered n started) actions) :
    (∀ st, (engineLog n started actions).countP (performs st) ≤ 1) ∧
    (∀ first rest j, engineLog n started actions = first ++ .performed j .clear :: rest →
      (∀ id < roleLoops n started, .loopEnded id ∈ first) ∧
      (∀ i, .admitted i ∈ first → ∃ r, .completed i r ∈ first) ∧
      (Guarded Engine.step Unbroken (Engine.registered n started) actions →
        ∀ i, .begun i ∈ first → ∃ r, .completed i r ∈ first)) ∧
    ∀ f, .fault f ∉ engineLog n started actions := by
  have hlog := (kept_run hspaced).1
  refine ⟨performs_once hlog, ?_, no_fault hlog⟩
  intro first rest j hsplit
  refine
    ⟨ended_of_clear (hsplit ▸ hlog), ?_, fun hunbroken => completed_of_clear hspaced hunbroken hsplit⟩
  exact (drained_of_late (hsplit ▸ hlog) (by simp [Prod.Lex.toLex_lt_toLex])).2

theorem teardown_runs_once_second_call :
    Guarded Engine.step Spaced (Engine.registered 1 true) (sendStopSend ++ [.callStop, .stop 1]) ∧
      (engineLog 1 true (sendStopSend ++ [.callStop, .stop 1])).countP (performs .clear) ≤ 1 := by
  have hspaced : Guarded step Spaced (.registered 1 true)
      (sendStopSend ++ [.callStop, .stop 1]) := by decide +kernel
  exact ⟨hspaced, (teardown_runs_once 1 true _ hspaced).1 .clear⟩

/-- Two calls of `stop` that both test the flag before either one sets it, up to
the end of the role loop that both wait for. -/
def twoStops : List Action :=
  [Action.callStop, .callStop] ++ replicate 7 (Action.stop 0) ++ replicate 7 (Action.stop 1) ++
    [Action.loop 0 true, .loop 0 true, .stop 0, .stop 1]

/-- Both of them tear down, and the second one uses the counter that the first one
has released. -/
theorem teardown_runs_twice : .performed 0 (.cancel 0) ∈ engineLog 1 true twoStops ∧
      .performed 1 (.cancel 0) ∈ engineLog 1 true twoStops ∧
      .fault (.releasedCounter 1) ∈ engineLog 1 true twoStops := by
  decide +kernel

end Fixpp.Analysis.EngineTeardown
