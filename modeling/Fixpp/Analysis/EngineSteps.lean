import Fixpp.Model.Engine

/-!
# One step of the engine

What an action of the engine can do, and what it keeps as long as at most one call of `stop` got
past the guard. An admitted send was in the counter before the flag was set, so at the zero that
the drain waits for all admitted sends have returned.
-/

namespace Fixpp.Analysis.EngineSteps

open Foundation List
open Model Engine

/-! ## Sends -/

/-- Past the admission gate and not yet back at the caller. -/
def inside : SendPhase → Bool
  | .enrolled _ | .refused | .done _ => false
  | _ => true

def isDone : SendPhase → Bool
  | .done _ => true
  | _ => false

/-- How many steps of its own a send has before it at most. -/
def stepsLeft : SendPhase → ℕ
  | .enrolled _ => 6
  | .admitted _ => 5
  | .miss _ => 4
  | .hit _ | .queued _ => 3
  | .sending _ => 2
  | .refused | .returning _ => 1
  | .done _ => 0

/-- The steps of a send: from phase to phase, and what it shows. -/
inductive SendMove (stopped : Bool) (i : ℕ) : SendPhase → List EngineEvent → SendPhase → Prop
  | refused {id : ℕ} (hstopped : stopped = true) : SendMove stopped i (.enrolled id) [] .refused
  | admitted {id : ℕ} (hstopped : stopped = false) :
      SendMove stopped i (.enrolled id) [.admitted i] (.admitted id)
  | quiet {p p' : SendPhase} (hp : inside p = true) (hp' : inside p' = true)
      (hleft : stepsLeft p' < stepsLeft p) : SendMove stopped i p [] p'
  | consulted {id : ℕ} {p' : SendPhase} (hp' : inside p' = true) (hleft : stepsLeft p' < 4) :
      SendMove stopped i (.miss id) [.consulted i] p'
  | entered {p : SendPhase} {id : ℕ} (hp : p = .hit id ∨ p = .queued id) :
      SendMove stopped i p [.entered i id] (.sending id)
  | completed {p : SendPhase} {r : SendResult}
      (hp : p = .refused ∧ r = .error .sessionInvalidStateForSend ∨ p = .returning r) :
      SendMove stopped i p [.completed i r] (.done r)

variable {i id j n loops : ℕ} {p p' : SendPhase} {events past : List EngineEvent} {s s' : Engine}

theorem SendMove.stepsLeft_lt {stopped : Bool} (h : SendMove stopped i p events p') :
    stepsLeft p' < stepsLeft p := by
  cases h with
  | refused | admitted => simp [stepsLeft]
  | quiet _ _ hleft => exact hleft
  | consulted _ hleft => exact hleft
  | entered hp => rcases hp with rfl | rfl <;> simp [stepsLeft]
  | completed hp => rcases hp with ⟨rfl, -⟩ | rfl <;> simp [stepsLeft]

theorem SendMove.not_done {stopped : Bool} (h : SendMove stopped i p events p') :
    isDone p = false := by
  have hleft := h.stepsLeft_lt
  cases p <;> simp_all [stepsLeft, isDone]

/-- A send moved along: it is counted until it is done. -/
def moved (s : Engine) (i : ℕ) (p' : SendPhase) : Engine :=
  { s.setSend i p' with sendCounter := s.sendCounter - if isDone p' then 1 else 0 }

theorem moved_of_not_done (h : isDone p' = false) : moved s i p' = s.setSend i p' := by
  simp [moved, h, setSend]

theorem not_done_of_inside (h : inside p = true) : isDone p = false := by
  cases p <;> simp_all [inside, isDone]

theorem move_quiet (s : Engine) (i : ℕ) (hp : inside p = true) (hp' : inside p' = true)
    (hleft : stepsLeft p' < stepsLeft p) :
    ∃ events q, SendMove s.stopped i p events q ∧ (s.setSend i p', []) = (moved s i q, events) :=
  ⟨[], p', .quiet hp hp' hleft, by rw [moved_of_not_done (not_done_of_inside hp')]⟩

theorem consult_inside (s : Engine) (id : ℕ) :
    inside (s.consult id) = true ∧ stepsLeft (s.consult id) < 4 := by
  unfold Engine.consult
  split
  · simp [inside, stepsLeft]
  split
  · simp [inside, stepsLeft]
  · split <;> simp [inside, stepsLeft]

theorem move_enter (s : Engine) (hp : p = .hit id ∨ p = .queued id) :
    ∃ events p', SendMove s.stopped i p events p' ∧ s.enter i id = (moved s i p', events) := by
  unfold Engine.enter
  split
  · exact ⟨_, _, .entered hp, by rw [moved_of_not_done rfl]⟩
  · rcases hp with rfl | rfl <;> exact move_quiet s i rfl rfl (by simp [stepsLeft])

theorem move_advanceSend (hp : s.sends[i]? = some p) (hleft : isDone p = false)
    (answer : SendResult) :
    ∃ events p', SendMove s.stopped i p events p' ∧
      s.advanceSend i answer = (moved s i p', events) := by
  unfold advanceSend
  rw [hp]
  cases p with
  | enrolled id =>
    dsimp [Engine.admissionGate]
    cases hstopped : s.stopped with
    | true => exact ⟨_, _, .refused rfl, by rw [moved_of_not_done rfl]; rfl⟩
    | false => exact ⟨_, _, .admitted rfl, by rw [moved_of_not_done rfl]; rfl⟩
  | refused => exact ⟨_, _, .completed (.inl ⟨rfl, rfl⟩), rfl⟩
  | admitted id =>
    refine move_quiet s i rfl ?_ ?_
    · split <;> rfl
    · split <;> simp [stepsLeft]
  | hit id =>
    dsimp only
    split
    · exact move_quiet s i rfl rfl (by simp [stepsLeft])
    · exact move_enter s (.inl rfl)
  | miss id =>
    obtain ⟨hinside, hless⟩ := consult_inside s id
    exact ⟨_, _, .consulted hinside hless, by rw [moved_of_not_done (not_done_of_inside hinside)]⟩
  | queued id => exact move_enter s (.inr rfl)
  | sending id => exact move_quiet s i rfl rfl (by simp [stepsLeft])
  | returning r => exact ⟨_, _, .completed (.inr rfl), rfl⟩
  | done r => simp [isDone] at hleft

/-- A turn of a send: nothing if there is none or it is done, otherwise a move. -/
theorem advanceSend_cases (s : Engine) (i : ℕ) (answer : SendResult) :
    (s.advanceSend i answer = (s, []) ∧ ∀ p, s.sends[i]? = some p → stepsLeft p = 0) ∨
      ∃ p events p', s.sends[i]? = some p ∧ SendMove s.stopped i p events p' ∧
        s.advanceSend i answer = (moved s i p', events) := by
  cases hp : s.sends[i]? with
  | none => exact .inl ⟨by simp [advanceSend, hp], nofun⟩
  | some p =>
    by_cases hdone : isDone p = true
    · cases p <;> simp [isDone] at hdone
      refine .inl ⟨by simp [advanceSend, hp], fun q hq => ?_⟩
      rw [← Option.some.inj hq]
      rfl
    · obtain ⟨events, p', hmove, heq⟩ := move_advanceSend hp (by simpa using hdone) answer
      exact .inr ⟨p, events, p', rfl, hmove, heq⟩

/-! ## The order of the teardown -/

/-- Where a step stands in the teardown. -/
@[simp] def stepPlace : TeardownStep → ℕ ×ₗ ℕ
  | .flag => toLex (0, 0)
  | .cancel k => toLex (1, k)
  | .cancelAcceptScopes => toLex (2, 0)
  | .closeTransport k => toLex (3, k)
  | .joinLoops => toLex (4, 0)
  | .drainSends => toLex (5, 0)
  | .closeSession k => toLex (6, k)
  | .clear => toLex (7, 0)
  | .shutdownSinks => toLex (8, 0)

/-- The place that a call of `stop` has reached. -/
@[simp] def phasePlace : StopPhase → ℕ ×ₗ ℕ
  | .passed => toLex (0, 0)
  | .noting k | .emitting k _ => toLex (1, k)
  | .closingTransports => toLex (3, 0)
  | .joiningCloses _ | .joiningLoops | .awaitingLoops => toLex (4, 0)
  | .draining => toLex (5, 0)
  | .closingSessions k | .dispatching k => toLex (6, k)
  | .closing k => toLex (6, k + 1)
  | .clearing => toLex (7, 0)
  | .flushing => toLex (8, 0)
  | .returned => toLex (9, 0)

/-- The sends were waited for, and every admitted one has returned. -/
def Drained (past : List EngineEvent) : Prop :=
  (∃ j, .performed j .drainSends ∈ past) ∧ ∀ i, .admitted i ∈ past → ∃ r, .completed i r ∈ past

/-- What may come behind the events so far when there are `loops` role loops. -/
def Allowed (loops : ℕ) (past : List EngineEvent) : EngineEvent → Prop
  | .begun i => .begun i ∉ past
  | .admitted i => .begun i ∈ past ∧ ∀ j st, .performed j st ∉ past
  | .consulted i | .entered i _ => .admitted i ∈ past ∧ ∀ j, .performed j .drainSends ∉ past
  | .completed i r => .begun i ∈ past ∧ (∀ r', .completed i r' ∉ past) ∧
      (.admitted i ∈ past ∨ r = .error .sessionInvalidStateForSend)
  | .loopEnded _ => True
  | .performed _ st => (∀ j' st', .performed j' st' ∈ past → stepPlace st' < stepPlace st) ∧
      (stepPlace .drainSends < stepPlace st → Drained past) ∧
      (st = .clear → ∀ id < loops, .loopEnded id ∈ past)
  | .fault _ => False

def orderly (loops : ℕ) : Monitor EngineEvent (List EngineEvent) := .historic (Allowed loops)

/-! ## The sends and the log -/

def about : EngineEvent → Option ℕ
  | .begun i | .admitted i | .consulted i | .entered i _ | .completed i _ => some i
  | _ => none

/-- The log tells of the send `i` what its phase says. -/
structure Agrees (past : List EngineEvent) (i : ℕ) (p : Option SendPhase) : Prop where
  begun : .begun i ∈ past ↔ p.isSome
  admitted : .admitted i ∈ past → p.any fun q => inside q || isDone q
  inside : p.any inside → .admitted i ∈ past
  completed : ∀ r, .completed i r ∈ past ↔ p = some (.done r)

theorem Agrees.frame {p : Option SendPhase} (h : Agrees past i p)
    (hother : ∀ e ∈ events, about e ≠ some i) : Agrees (past ++ events) i p := by
  have hnot : ∀ e, about e = some i → e ∉ events := fun e he hmem => hother e hmem he
  constructor
  · simpa [hnot (.begun i) rfl] using h.begun
  · simpa [hnot (.admitted i) rfl] using h.admitted
  · simpa [hnot (.admitted i) rfl] using h.inside
  intro r
  simpa [hnot (.completed i r) rfl] using h.completed r

theorem SendMove.about_eq {stopped : Bool} (h : SendMove stopped i p events p') :
    ∀ e ∈ events, about e = some i := by
  cases h <;> simp [about]

/-- A send within the gate, once it is in the log that it was admitted. -/
theorem agrees_of_inside (hbegun : .begun i ∈ past) (hadmitted : .admitted i ∈ past)
    (hopen : ∀ r, .completed i r ∉ past) (hp : inside p = true) : Agrees past i (some p) := by
  refine ⟨by simp [hbegun], by simp [hp], by simp [hadmitted], ?_⟩
  intro r
  simp only [hopen, Option.some.injEq, false_iff]
  rintro rfl
  cases hp

theorem SendMove.agrees {stopped : Bool} (hmove : SendMove stopped i p events p')
    (h : Agrees past i (some p)) : Agrees (past ++ events) i (some p') := by
  have hbegun : .begun i ∈ past := h.begun.mpr rfl
  have hopen : ∀ r, .completed i r ∉ past := by
    intro r hr
    cases (h.completed r).mp hr
    cases hmove.not_done
  cases hmove with
  | refused => exact ⟨by simp [hbegun], by simpa [inside, isDone] using h.admitted, by simp [inside],
      by simp [hopen]⟩
  | admitted => apply agrees_of_inside <;> simp [hbegun, hopen, inside]
  | quiet hp hp' => apply agrees_of_inside <;> simp [hbegun, hopen, hp', h.inside hp]
  | consulted hp' => apply agrees_of_inside <;> simp [hbegun, hopen, hp', h.inside rfl]
  | entered hp =>
    have hadmitted := h.inside (by rcases hp with rfl | rfl <;> rfl)
    apply agrees_of_inside <;> simp [hbegun, hopen, inside, hadmitted]
  | completed hp =>
    refine ⟨by simp [hbegun], by simp [isDone], by simp [inside], ?_⟩
    intro r
    simp [hopen, eq_comm]

/-- The log and the sends agree. -/
structure SendsKept (past : List EngineEvent) (s : Engine) : Prop where
  counter : s.sendCounter = s.sends.countP fun p => !isDone p
  agrees : ∀ i, Agrees past i s.sends[i]?
  flagged : ∀ j st, .performed j st ∈ past → s.stopped = true
  drained : ∀ j, .performed j .drainSends ∈ past → ∀ p ∈ s.sends, inside p = false

theorem SendsKept.drained_past (h : SendsKept past s) (hj : .performed j .drainSends ∈ past) :
    Drained past := by
  refine ⟨⟨j, hj⟩, fun i hi => ?_⟩
  obtain ⟨p, hp, hin⟩ := (Option.any_eq_true _ _).mp ((h.agrees i).admitted hi)
  have hout := h.drained j hj p (mem_of_getElem? hp)
  cases p <;> simp_all [inside, isDone]
  case done r => exact ⟨r, ((h.agrees i).completed r).mpr hp⟩

theorem getElem?_set_of_some {α : Type} {xs : List α} {i : ℕ} {x y : α} (h : xs[i]? = some x)
    (k : ℕ) : (xs.set i y)[k]? = if i = k then some y else xs[k]? := by
  obtain ⟨hlt, -⟩ := List.getElem?_eq_some_iff.mp h
  rw [getElem?_set, if_pos hlt]

theorem SendsKept.enrol (h : SendsKept past s) (id : ℕ) :
    SendsKept (past ++ (s.enrol id).2) (s.enrol id).1 where
  counter := by simp [Engine.enrol, h.counter, isDone]
  agrees i := by
    by_cases hi : i = s.sends.length
    · subst hi
      have hnone : Agrees past s.sends.length none := by simpa using h.agrees s.sends.length
      constructor
      · simp [Engine.enrol]
      · simpa [Engine.enrol, inside, isDone] using hnone.admitted
      · simp [Engine.enrol, inside]
      · simpa [Engine.enrol] using hnone.completed
    have hsame : (s.sends ++ [SendPhase.enrolled id])[i]? = s.sends[i]? := by
      rcases Nat.lt_or_ge i s.sends.length with hlt | hge
      · rw [getElem?_append_left hlt]
      · rw [getElem?_eq_none hge, getElem?_eq_none (by simp; omega)]
    have hagrees : Agrees (past ++ [.begun s.sends.length]) i s.sends[i]? :=
      (h.agrees i).frame (by simpa [about] using Ne.symm hi)
    simpa only [Engine.enrol, hsame] using hagrees
  flagged j st hj := h.flagged j st (by simpa [Engine.enrol] using hj)
  drained j hj p hp := by
    rcases mem_append.mp hp with hold | hnew
    · exact h.drained j (by simpa [Engine.enrol] using hj) p hold
    rw [mem_singleton.mp hnew]
    rfl

theorem SendsKept.moved (h : SendsKept past s) (hp : s.sends[i]? = some p)
    (hmove : SendMove s.stopped i p events p') : SendsKept (past ++ events) (moved s i p') := by
  have hperformed : ∀ j st, .performed j st ∈ past ++ events → .performed j st ∈ past := by
    intro j st hj
    rcases mem_append.mp hj with hold | hnew
    · exact hold
    · cases hmove.about_eq _ hnew
  obtain ⟨hlt, hget⟩ := List.getElem?_eq_some_iff.mp hp
  have hopen := hmove.not_done
  constructor
  · have hpos : 0 < s.sends.countP fun q => !isDone q :=
      countP_pos_iff.mpr ⟨p, mem_of_getElem? hp, by simp [hopen]⟩
    simp only [EngineSteps.moved, setSend, h.counter, countP_set hlt, hget, hopen]
    cases isDone p'
    · simp
      omega
    · simp
  · intro k
    simp only [EngineSteps.moved, setSend, getElem?_set_of_some hp]
    split
    next hik => exact hik ▸ hmove.agrees (hp ▸ h.agrees i)
    next hik =>
    refine (h.agrees k).frame fun e he => ?_
    simpa [hmove.about_eq e he] using hik
  · exact fun j st hj => h.flagged j st (hperformed j st hj)
  intro j hj q hq
  have hpast := hperformed j _ hj
  rcases mem_or_eq_of_mem_set hq with hold | rfl
  · exact h.drained j hpast q hold
  have hstopped := h.flagged j _ hpast
  have hp' := h.drained j hpast p (mem_of_getElem? hp)
  cases hmove with
  | refused => rfl
  | admitted hopen' => simp [hopen'] at hstopped
  | quiet hin => simp [hp'] at hin
  | consulted => cases hp'
  | entered hin => rcases hin with rfl | rfl <;> cases hp'
  | completed => rfl

theorem SendsKept.accepts (loops : ℕ) (h : SendsKept past s) (hp : s.sends[i]? = some p)
    (hmove : SendMove s.stopped i p events p') : (orderly loops).Accepts past events := by
  have hagrees : Agrees past i (some p) := hp ▸ h.agrees i
  have hbegun : .begun i ∈ past := hagrees.begun.mpr rfl
  have hundrained : inside p = true → ∀ j, .performed j .drainSends ∉ past := by
    intro hin j hj
    rw [h.drained j hj p (mem_of_getElem? hp)] at hin
    cases hin
  have hadmitted : inside p = true → .admitted i ∈ past := fun hin => hagrees.inside hin
  cases hmove with
  | refused | quiet => trivial
  | admitted hopen =>
    refine ⟨⟨hbegun, fun j st hj => ?_⟩, trivial⟩
    rw [h.flagged j st hj] at hopen
    cases hopen
  | consulted => exact ⟨⟨hadmitted rfl, hundrained rfl⟩, trivial⟩
  | entered hin =>
    have hinside : inside p = true := by rcases hin with rfl | rfl <;> rfl
    exact ⟨⟨hadmitted hinside, hundrained hinside⟩, trivial⟩
  | completed hcase =>
    refine ⟨⟨hbegun, fun r' hr' => ?_, ?_⟩, trivial⟩
    · have hdone := (hagrees.completed r').mp hr'
      rcases hcase with ⟨rfl, -⟩ | rfl <;> cases hdone
    rcases hcase with ⟨-, hr⟩ | rfl
    · exact .inr hr
    · exact .inl (hadmitted rfl)

theorem SendsKept.frame (h : SendsKept past s) (hsends : s'.sends = s.sends)
    (hcounter : s'.sendCounter = s.sendCounter) (hother : ∀ e ∈ events, about e = none)
    (hstopped : s.stopped = true → s'.stopped = true)
    (hflag : ∀ j st, .performed j st ∈ events → s'.stopped = true)
    (hdrain : ∀ j, .performed j .drainSends ∈ events → s.sendCounter = 0) :
    SendsKept (past ++ events) s' where
  counter := by rw [hcounter, hsends, h.counter]
  agrees i := by
    rw [hsends]
    exact (h.agrees i).frame fun e he => by simp [hother e he]
  flagged j st hj := by
    rcases mem_append.mp hj with hold | hnew
    · exact hstopped (h.flagged j st hold)
    · exact hflag j st hnew
  drained j hj p hp := by
    rw [hsends] at hp
    rcases mem_append.mp hj with hold | hnew
    · exact h.drained j hold p hp
    have hdone := countP_eq_zero.mp (h.counter ▸ hdrain j hnew) p hp
    cases p <;> simp_all [inside, isDone]

/-! ## The role loops and the registry -/

/-- The log, the counter and the registry agree with the role loops: `loops` of
them over `n` entries. -/
structure LoopsKept (n loops : ℕ) (past : List EngineEvent) (s : Engine) : Prop where
  few : loops ≤ n
  length : s.loops.length = loops
  outstanding : s.outstanding = s.loops.countP (· ≠ .ended)
  ended : ∀ id, s.loops[id]? = some .ended → .loopEnded id ∈ past
  registry : s.registry.length = n ∨ s.outstanding = 0
  released : s.outstandingCounter = false → s.outstanding = 0

theorem LoopsKept.all_ended (h : LoopsKept n loops past s) (hzero : s.outstanding = 0) :
    ∀ id < loops, .loopEnded id ∈ past := by
  intro id hid
  have hlt : id < s.loops.length := h.length.symm ▸ hid
  have hmem := List.countP_eq_zero.mp (h.outstanding ▸ hzero) _ (List.getElem_mem hlt)
  refine h.ended id (List.getElem?_eq_some_iff.mpr ⟨hlt, ?_⟩)
  simpa using hmem

theorem LoopsKept.frame (h : LoopsKept n loops past s) (hloops : s'.loops = s.loops)
    (houtstanding : s'.outstanding = s.outstanding)
    (hregistry : s'.registry.length = s.registry.length ∨ s.outstanding = 0)
    (hreleased : s'.outstandingCounter = false → s.outstanding = 0) :
    LoopsKept n loops (past ++ events) s' where
  few := h.few
  length := by rw [hloops, h.length]
  outstanding := by rw [houtstanding, hloops, h.outstanding]
  ended id hid := mem_append_left _ (h.ended id (hloops ▸ hid))
  registry := by
    rw [houtstanding]
    rcases hregistry with hsame | hzero
    · exact hsame ▸ h.registry
    · exact .inr hzero
  released := houtstanding ▸ hreleased

/-- The steps of a role loop: it ends, or it goes on with the registry in place. -/
inductive LoopMove (s : Engine) (id : ℕ) : List EngineEvent → Engine → Prop
  | on {p p' : LoopPhase} {registry : List SessionEntry} {snapshot : List Bool}
      (hp : s.loops[id]? = some p) (hopen : p ≠ .ended) (hopen' : p' ≠ .ended)
      (hregistry : registry.length = s.registry.length) :
      LoopMove s id [] { s.setLoop id p' with registry, readerSnapshot := snapshot }
  | ended {p : LoopPhase} (hp : s.loops[id]? = some p) (hopen : p ≠ .ended) :
      LoopMove s id [.loopEnded id]
        { s.setLoop id .ended with outstanding := s.outstanding - 1 }

theorem move_publishEntry {p : LoopPhase} (hp : s.loops[id]? = some p) (hopen : p ≠ .ended)
    (entry : SessionEntry) : LoopMove s id [] (s.publishEntry id entry) := by
  unfold Engine.publishEntry
  split
  · exact .on hp hopen nofun rfl
  · exact .on hp hopen nofun (by simp)

/-- A role loop finds its entry as long as it runs. -/
theorem move_advanceLoop (h : LoopsKept n loops past s) (id : ℕ) (unwinds : Bool) :
    s.advanceLoop id unwinds = (s, []) ∨
      LoopMove s id (s.advanceLoop id unwinds).2 (s.advanceLoop id unwinds).1 := by
  cases hp : s.loops[id]? with
  | none => exact .inl (by simp [advanceLoop, hp])
  | some p =>
    by_cases hopen : p = .ended
    · exact .inl (by simp [advanceLoop, hp, hopen])
    have hrunning : s.outstanding ≠ 0 := by
      intro hzero
      exact countP_eq_zero.mp (h.outstanding ▸ hzero) p (mem_of_getElem? hp) (by simpa)
    have hentry : id < s.registry.length := by
      obtain ⟨hlt, -⟩ := List.getElem?_eq_some_iff.mp hp
      have hlen := h.registry.resolve_right hrunning
      have hfew := h.few
      have hloops := h.length
      omega
    right
    unfold advanceLoop
    rw [hp, getElem?_eq_getElem hentry]
    cases p with
    | opening | pumping => exact .on hp nofun (by split <;> nofun) rfl
    | publishing => exact move_publishEntry hp nofun _
    | unpublishing => exact .on hp nofun nofun (by simp)
    | ending => exact .ended hp nofun
    | ended => exact absurd rfl hopen

theorem LoopMove.kept (hmove : LoopMove s id events s') (h : LoopsKept n loops past s) :
    LoopsKept n loops (past ++ events) s' := by
  -- a loop that runs is counted, so the count follows each of its steps
  have hcount : ∀ (p' : LoopPhase) {p : LoopPhase}, s.loops[id]? = some p → p ≠ .ended →
      (s.loops.set id p').countP (· ≠ .ended) =
        s.outstanding - 1 + if p' ≠ .ended then 1 else 0 := by
    intro p' p hp hopen
    obtain ⟨hlt, hget⟩ := List.getElem?_eq_some_iff.mp hp
    simp [countP_set hlt, hget, hopen, h.outstanding]
  have hpos : ∀ {p : LoopPhase}, s.loops[id]? = some p → p ≠ .ended → 0 < s.outstanding := by
    intro p hp hopen
    rw [h.outstanding]
    exact countP_pos_iff.mpr ⟨p, mem_of_getElem? hp, by simpa⟩
  cases hmove with
  | @on p p' registry snapshot hp hopen hopen' hregistry =>
    refine ⟨h.few, by simp [setLoop, h.length], ?_, ?_, ?_, h.released⟩
    · have hcounted := hcount p' hp hopen
      have hrunning := hpos hp hopen
      simp only [setLoop, hcounted, if_pos hopen']
      omega
    · intro k hk
      simp only [setLoop, getElem?_set_of_some hp] at hk
      split at hk
      · exact absurd (Option.some.inj hk) hopen'
      · simpa using h.ended k hk
    · exact hregistry.symm ▸ h.registry
  | @ended p hp hopen =>
    refine ⟨h.few, by simp [setLoop, h.length], ?_, ?_, ?_, ?_⟩
    · simp only [setLoop, hcount .ended hp hopen]
      simp
    · intro k hk
      simp only [setLoop, getElem?_set_of_some hp] at hk
      split at hk
      next hik => simp [hik]
      · simp [h.ended k hk]
    · rcases h.registry with hlen | hzero
      · exact .inl hlen
      · exact .inr (by simp [hzero])
    · intro hreleased
      simp [h.released hreleased]

attribute [local simp] Prod.Lex.toLex_lt_toLex Prod.Lex.toLex_le_toLex

/-! ## The calls of `stop` -/

/-- The entry a phase is at is in a registry of `n` entries. -/
def Valid (n : ℕ) : StopPhase → Prop
  | .noting k | .closingSessions k => k ≤ n
  | .emitting k _ | .dispatching k | .closing k => k < n
  | _ => True

/-- What holds while the one call under way is at a phase. -/
structure Stage (n : ℕ) (past : List EngineEvent) (s : Engine) (p : StopPhase) : Prop where
  performed : ∀ j st, .performed j st ∈ past → stepPlace st < phasePlace p
  flag : s.stopped = false ↔ p = .passed
  valid : Valid n p
  registry : phasePlace p ≤ stepPlace .clear → s.registry.length = n
  joined : stepPlace .joinLoops < phasePlace p → s.outstanding = 0
  waiting : p = .awaitingLoops → s.outstandingCounter = true
  drained : stepPlace .drainSends < phasePlace p → ∃ j, .performed j .drainSends ∈ past

/-- At most one call of `stop` is under way, and none has begun before the flag is
set. -/
structure StopsKept (n : ℕ) (past : List EngineEvent) (s : Engine) : Prop where
  alone : ∀ (j j' : ℕ) (p p' : StopPhase), s.stops[j]? = some p → s.stops[j']? = some p' →
    p ≠ .returned → p' ≠ .returned → j = j'
  stage : ∀ p ∈ s.stops, p ≠ .returned → Stage n past s p
  unstopped : s.stopped = false → s.registry.length = n ∧ ∀ j st, .performed j st ∉ past

theorem StopsKept.frame (h : StopsKept n past s) (hstops : s'.stops = s.stops)
    (hstopped : s'.stopped = s.stopped) (hregistry : s'.registry.length = s.registry.length)
    (houtstanding : s.outstanding = 0 → s'.outstanding = 0)
    (hcounter : s'.outstandingCounter = s.outstandingCounter)
    (hnone : ∀ j st, .performed j st ∉ events) : StopsKept n (past ++ events) s' where
  alone := hstops ▸ h.alone
  stage p hp hopen := by
    have hstage := h.stage p (hstops ▸ hp) hopen
    refine ⟨?_, hstopped ▸ hstage.flag, hstage.valid, hregistry ▸ hstage.registry,
      fun hlt => houtstanding (hstage.joined hlt), hcounter ▸ hstage.waiting, ?_⟩
    · intro j st hj
      exact hstage.performed j st (by simpa [hnone] using hj)
    intro hlt
    obtain ⟨j, hj⟩ := hstage.drained hlt
    exact ⟨j, mem_append_left _ hj⟩
  unstopped hopen := by
    obtain ⟨hlen, hpast⟩ := h.unstopped (hstopped ▸ hopen)
    exact ⟨hregistry ▸ hlen, by simp [hnone, hpast]⟩

/-- A call of `stop` that tests the flag while no other one is between its test and
its store comes past the guard alone. -/
theorem StopsKept.guardStop (h : StopsKept n past s) (hguard : .passed ∉ s.stops) :
    StopsKept n past s.guardStop.1 := by
  have hold : ∀ j p, (s.stops ++ [if s.stopped then StopPhase.returned else .passed])[j]? = some p →
      p ≠ .returned → (s.stopped = true ∧ s.stops[j]? = some p) ∨
        (s.stopped = false ∧ j = s.stops.length ∧ p = .passed) := by
    intro j p hp hopen
    rw [getElem?_append] at hp
    split at hp
    · -- an earlier call under way has set the flag
      have hstage := h.stage p (mem_of_getElem? hp) hopen
      cases hstopped : s.stopped with
      | true => exact .inl ⟨rfl, hp⟩
      | false => exact absurd (hstage.flag.mp hstopped ▸ mem_of_getElem? hp) hguard
    next hge =>
    obtain ⟨hlt, hget⟩ := List.getElem?_eq_some_iff.mp hp
    simp only [length_singleton] at hlt
    cases hstopped : s.stopped with
    | true => simp [hstopped, eq_comm, hopen] at hget
    | false => exact .inr ⟨rfl, by omega, by simpa [hstopped] using hget.symm⟩
  constructor
  · intro j j' p p' hp hp' hopen hopen'
    rcases hold j p hp hopen with ⟨hset, hj⟩ | ⟨hunset, hj, -⟩
    · rcases hold j' p' hp' hopen' with ⟨-, hj'⟩ | ⟨hunset, -⟩
      · exact h.alone j j' p p' hj hj' hopen hopen'
      · simp [hset] at hunset
    rcases hold j' p' hp' hopen' with ⟨hset, -⟩ | ⟨-, hj', -⟩
    · simp [hset] at hunset
    · rw [hj, hj']
  · intro p hp hopen
    obtain ⟨j, hj⟩ := getElem?_of_mem hp
    rcases hold j p hj hopen with ⟨-, hj⟩ | ⟨hunset, -, rfl⟩
    · have hstage := h.stage p (mem_of_getElem? hj) hopen
      exact ⟨hstage.performed, hstage.flag, hstage.valid, hstage.registry, hstage.joined,
        hstage.waiting, hstage.drained⟩
    obtain ⟨hlen, hnone⟩ := h.unstopped hunset
    refine ⟨fun j st hj => absurd hj (hnone j st), by simpa [Engine.guardStop] using hunset, trivial,
      fun _ => hlen, ?_, nofun, ?_⟩ <;> simp
  · exact h.unstopped

/-- What a call of `stop` does in one go: the steps it performs and the phase and
the engine it leaves. -/
structure StopMove (n : ℕ) (s : Engine) (j : ℕ) (p : StopPhase) (steps : List TeardownStep)
    (p' : StopPhase) (s' : Engine) : Prop where
  stops : s'.stops = s.stops.set j p'
  sends : s'.sends = s.sends ∧ s'.sendCounter = s.sendCounter
  loops : s'.loops = s.loops ∧ s'.outstanding = s.outstanding
  stopped : s'.stopped = true
  flagged : p' ≠ .passed
  rising : steps.Pairwise (stepPlace · < stepPlace ·)
  within : ∀ st ∈ steps, phasePlace p ≤ stepPlace st ∧ stepPlace st < phasePlace p'
  onward : phasePlace p ≤ phasePlace p'
  valid : Valid n p'
  registry : phasePlace p' ≤ stepPlace .clear → s'.registry.length = s.registry.length
  released : s'.outstandingCounter = false → s.outstanding = 0
  waiting : p' = .awaitingLoops → s'.outstandingCounter = true
  joined : stepPlace .joinLoops < phasePlace p' → s.outstanding = 0
  drained : stepPlace .drainSends < phasePlace p' →
    stepPlace .drainSends < phasePlace p ∨ .drainSends ∈ steps
  drains : .drainSends ∈ steps → s.sendCounter = 0
  late : ∀ st ∈ steps, stepPlace .drainSends < stepPlace st → stepPlace .drainSends < phasePlace p

section Moves

variable {n loops : ℕ} {past : List EngineEvent} {s : Engine} {j : ℕ}

/-- What the call of `stop` under way finds when it goes on. -/
structure Underway (n loops : ℕ) (past : List EngineEvent) (s : Engine) (p : StopPhase) : Prop where
  loops : LoopsKept n loops past s
  stage : Stage n past s p

variable {p p' : StopPhase} {k : ℕ}

section

variable (h : Underway n loops past s p)
include h

theorem Underway.stopped (hp : p ≠ .passed) : s.stopped = true := by
  simpa [hp] using h.stage.flag

/-- The call goes on from `p` with the engine and the events `r`. -/
def Moves (n : ℕ) (s : Engine) (j : ℕ) (p : StopPhase) (r : Engine × List EngineEvent) : Prop :=
  ∃ steps p', r.2 = steps.map (.performed j) ∧ StopMove n s j p steps p' r.1

theorem Underway.quiet {sessions : ℕ → Published} (hp : p ≠ .passed)
    (hp' : p' ≠ .passed) (honward : phasePlace p ≤ phasePlace p') (hvalid : Valid n p')
    (hwaiting : p' = .awaitingLoops → s.outstandingCounter = true)
    (hjoined : stepPlace .joinLoops < phasePlace p' →
      stepPlace .joinLoops < phasePlace p ∨ s.outstanding = 0)
    (hdrained : stepPlace .drainSends < phasePlace p' → stepPlace .drainSends < phasePlace p) :
    Moves n s j p ({ s.setStop j p' with sessions }, []) := by
  refine ⟨[], p', rfl, rfl, ⟨rfl, rfl⟩, ⟨rfl, rfl⟩, h.stopped hp, hp', .nil, nofun, honward, hvalid,
    fun _ => rfl, h.loops.released, hwaiting, ?_, fun hlt => .inl (hdrained hlt), nofun, nofun⟩
  exact fun hlt => (hjoined hlt).elim h.stage.joined id

/-- The step `st` leads from `p` to `p'`, the last one of the drain behind it. -/
def Leads (p : StopPhase) (st : TeardownStep) (p' : StopPhase) : Prop :=
  p' ≠ .passed ∧ p' ≠ .awaitingLoops ∧ phasePlace p ≤ stepPlace st ∧ stepPlace st < phasePlace p' ∧
    (stepPlace .drainSends < phasePlace p' →
      stepPlace .drainSends < phasePlace p ∨ st = .drainSends)

theorem Underway.one {st : TeardownStep} {stopped outstandingCounter : Bool}
    {registry : List SessionEntry} {readerSnapshot : List Bool} {sessions : ℕ → Published}
    (hleads : Leads p st p') (hstopped : stopped = true)
    (hvalid : Valid n p')
    (hregistry : phasePlace p' ≤ stepPlace .clear → registry.length = s.registry.length)
    (hreleased : outstandingCounter = false → s.outstanding = 0)
    (hjoined : stepPlace .joinLoops < phasePlace p' →
      stepPlace .joinLoops < phasePlace p ∨ s.outstanding = 0)
    (hdrains : st = .drainSends → s.sendCounter = 0) :
    Moves n s j p ({ s.setStop j p' with
      stopped, outstandingCounter, registry, readerSnapshot, sessions }, [.performed j st]) := by
  obtain ⟨hflagged, hwaiting, hfrom, hto, hdrained⟩ := hleads
  refine ⟨[st], p', rfl, rfl, ⟨rfl, rfl⟩, ⟨rfl, rfl⟩, hstopped, hflagged, pairwise_singleton _ _, ?_,
    le_of_lt (lt_of_le_of_lt hfrom hto), hvalid, hregistry, hreleased,
    fun heq => absurd heq hwaiting, fun hlt => (hjoined hlt).elim h.stage.joined id, ?_, ?_, ?_⟩
  · simpa using ⟨hfrom, hto⟩
  · simpa [eq_comm] using hdrained
  · simpa [eq_comm] using hdrains
  intro st' hst' hlt
  rw [mem_singleton.mp hst'] at hlt
  refine (hdrained (lt_trans hlt hto)).resolve_right ?_
  rintro rfl
  exact lt_irrefl _ hlt

end

theorem moves_noteEntry (h : Underway n loops past s (.noting k)) :
    Moves n s j (.noting k) (s.noteEntry j k) := by
  have hstopped := h.stopped nofun
  have hlen := h.stage.registry (by simp)
  have hvalid : k ≤ n := h.stage.valid
  unfold Engine.noteEntry
  cases hk : s.registry[k]? with
  | none =>
    have hge := getElem?_eq_none_iff.mp hk
    simp only [endIteration, if_pos (show k = s.registry.length by omega)]
    exact h.one (by simp [Leads]) hstopped trivial (fun _ => rfl) h.loops.released (by simp) nofun
  | some entry =>
    obtain ⟨hlt, -⟩ := List.getElem?_eq_some_iff.mp hk
    dsimp only
    split
    · exact h.quiet nofun nofun (le_refl _) (hlen ▸ hlt) nofun .inl (by simp)
    exact h.one (by simp [Leads]) hstopped (hlen ▸ hlt) (fun _ => rfl) h.loops.released (by simp)
      nofun

theorem moves_emitCancel {session : Bool} (h : Underway n loops past s (.emitting k session)) :
    Moves n s j (.emitting k session) (s.emitCancel j k session) := by
  have hvalid : k < n := h.stage.valid
  unfold Engine.emitCancel
  rw [if_pos (h.stage.registry (by simp) ▸ hvalid)]
  cases session <;>
    exact h.one (by simp [Leads]) (h.stopped nofun) hvalid (fun _ => rfl) h.loops.released (by simp)
      nofun

theorem moves_closeTransports (h : Underway n loops past s .closingTransports) :
    Moves n s j .closingTransports (s.closeTransports j) := by
  refine ⟨s.toClose.map .closeTransport, .joiningCloses s.toClose.length,
    by simp [Engine.closeTransports], ?_⟩
  have hsorted : s.toClose.Pairwise (· < ·) := pairwise_lt_range.sublist filter_sublist
  refine ⟨rfl, ⟨rfl, rfl⟩, ⟨rfl, rfl⟩, h.stopped nofun, nofun, ?_, ?_, ?_, trivial,
    fun _ => rfl, h.loops.released, nofun, ?_, ?_, ?_, ?_⟩
  · refine pairwise_map.mpr (hsorted.imp fun hlt => ?_)
    simpa using hlt
  all_goals simp

theorem moves_joinClose {pending : ℕ} (h : Underway n loops past s (.joiningCloses pending))
    (p' : StopPhase) (hp' : (∃ c, p' = .joiningCloses c) ∨ p' = .joiningLoops) :
    Moves n s j (.joiningCloses pending) (s.setStop j p', []) := by
  rcases hp' with ⟨c, rfl⟩ | rfl <;>
    exact h.quiet nofun nofun (le_refl _) trivial nofun .inl (by simp)

theorem moves_testLoops (h : Underway n loops past s p)
    (hp : p = .joiningLoops ∨ p = .awaitingLoops) (hcounter : s.outstandingCounter = true) :
    Moves n s j p (s.testLoops j) := by
  have hplace : phasePlace p = toLex (4, 0) := by rcases hp with rfl | rfl <;> rfl
  have hpassed : p ≠ .passed := by rcases hp with rfl | rfl <;> nofun
  unfold Engine.testLoops
  split
  next hzero =>
    have hleads : Leads p .joinLoops .draining := by rcases hp with rfl | rfl <;> simp [Leads]
    exact h.one hleads (h.stopped hpassed) trivial (fun _ => rfl) (fun _ => hzero)
      (fun _ => .inr hzero) nofun
  · exact h.quiet hpassed nofun (hplace ▸ le_refl _) trivial (fun _ => hcounter) (by simp) (by simp)

theorem moves_uncounted (h : Underway n loops past s .joiningLoops)
    (hcounter : s.outstandingCounter = false) :
    Moves n s j .joiningLoops (s.setStop j .draining, []) :=
  h.quiet nofun nofun (by simp) trivial nofun (fun _ => .inr (h.loops.released hcounter)) (by simp)

theorem moves_drain (h : Underway n loops past s .draining) (hzero : s.sendCounter = 0) :
    Moves n s j .draining (s.setStop j (.closingSessions 0), [.performed j .drainSends]) :=
  h.one (by simp [Leads]) (h.stopped nofun) (Nat.zero_le n) (fun _ => rfl) h.loops.released (by simp)
    fun _ => hzero

theorem moves_closeEntry (h : Underway n loops past s (.closingSessions k)) :
    Moves n s j (.closingSessions k) (s.closeEntry j k) := by
  have hlen := h.stage.registry (by simp)
  have hvalid : k ≤ n := h.stage.valid
  unfold Engine.closeEntry
  cases hk : s.registry[k]? with
  | none =>
    have hge := getElem?_eq_none_iff.mp hk
    simp only [endIteration, if_pos (show k = s.registry.length by omega)]
    exact h.quiet nofun nofun (by simp) trivial nofun (by simp) (by simp)
  | some entry =>
    obtain ⟨hlt, -⟩ := List.getElem?_eq_some_iff.mp hk
    dsimp only
    split
    · exact h.quiet nofun nofun (le_refl _) (hlen ▸ hlt) nofun .inl id
    · exact h.quiet nofun nofun (by simp) (hlen ▸ hlt) nofun (by simp) (by simp)

theorem moves_dispatch (h : Underway n loops past s (.dispatching k)) :
    Moves n s j (.dispatching k) (s.setStop j (.closing k), [.performed j (.closeSession k)]) :=
  h.one (by simp [Leads]) (h.stopped nofun) h.stage.valid (fun _ => rfl) h.loops.released (by simp)
    nofun

theorem moves_closed (h : Underway n loops past s (.closing k)) :
    Moves n s j (.closing k) ((s.sessionClosed k).setStop j (.closingSessions (k + 1)), []) :=
  h.quiet nofun nofun (le_refl _) h.stage.valid nofun .inl id

theorem moves_clear (h : Underway n loops past s .clearing) :
    Moves n s j .clearing (s.clearRegistry j) :=
  h.one (by simp [Leads]) (h.stopped nofun) trivial (by simp) h.loops.released (by simp) nofun

theorem moves_flush (h : Underway n loops past s .flushing) :
    Moves n s j .flushing (s.setStop j .returned, [.performed j .shutdownSinks]) :=
  h.one (by simp [Leads]) (h.stopped nofun) trivial (fun _ => rfl) h.loops.released (by simp) nofun

theorem moves_advanceStop (h : Underway n loops past s p) (hp : s.stops[j]? = some p)
    (hopen : p ≠ .returned) : s.advanceStop j = (s, []) ∨ Moves n s j p (s.advanceStop j) := by
  unfold Engine.advanceStop
  rw [hp]
  cases p with
  | passed =>
    exact .inr (h.one (by simp [Leads]) rfl (Nat.zero_le n) (fun _ => rfl) h.loops.released (by simp)
      nofun)
  | noting k => exact .inr (moves_noteEntry h)
  | emitting k session => exact .inr (moves_emitCancel h)
  | closingTransports => exact .inr (moves_closeTransports h)
  | joiningCloses pending =>
    dsimp only
    split
    · exact .inr (moves_joinClose h _ (.inr rfl))
    · exact .inl rfl
  | joiningLoops =>
    dsimp only
    split
    next hcounter => exact .inr (moves_testLoops h (.inl rfl) hcounter)
    next hcounter => exact .inr (moves_uncounted h (by simpa using hcounter))
  | awaitingLoops =>
    have hcounter := h.stage.waiting rfl
    simp only [hcounter, if_true]
    exact .inr (moves_testLoops h (.inr rfl) hcounter)
  | draining =>
    dsimp only
    split
    next hzero => exact .inr (moves_drain h hzero)
    · exact .inl rfl
  | closingSessions k => exact .inr (moves_closeEntry h)
  | dispatching k => exact .inr (moves_dispatch h)
  | closing k => exact .inr (moves_closed h)
  | clearing => exact .inr (moves_clear h)
  | flushing => exact .inr (moves_flush h)
  | returned => exact absurd rfl hopen

end Moves

/-! ## Every step -/

structure Kept (n loops : ℕ) (past : List EngineEvent) (s : Engine) : Prop where
  sends : SendsKept past s
  loops : LoopsKept n loops past s
  stops : StopsKept n past s

/-- What a step comes to when its events are allowed and all is kept behind it. -/
def Goes (n loops : ℕ) (past : List EngineEvent) (r : Engine × List EngineEvent) : Prop :=
  (orderly loops).Accepts past r.2 ∧ Kept n loops (past ++ r.2) r.1

/-- Steps of one call, in their order and behind what was performed. -/
theorem accepts_steps {steps : List TeardownStep}
    (hrising : steps.Pairwise (stepPlace · < stepPlace ·)) : ∀ {past : List EngineEvent},
    (∀ st ∈ steps, ∀ j' st', .performed j' st' ∈ past → stepPlace st' < stepPlace st) →
    (∀ st ∈ steps, stepPlace .drainSends < stepPlace st → Drained past) →
    (.clear ∈ steps → ∀ id < loops, .loopEnded id ∈ past) →
    (orderly loops).Accepts past (steps.map (.performed j)) := by
  induction hrising with
  | nil => exact fun _ _ _ => trivial
  | @cons st rest hfirst _ ih =>
    intro past hbehind hdrained hended
    refine ⟨⟨hbehind st (by simp), hdrained st (by simp), ?_⟩, ih ?_ ?_ ?_⟩
    · rintro rfl
      exact hended (by simp)
    · intro st' hst' j' other hother
      rcases mem_append.mp hother with hold | hnew
      · exact hbehind st' (by simp [hst']) j' other hold
      obtain ⟨-, rfl⟩ := EngineEvent.performed.inj (mem_singleton.mp hnew)
      exact hfirst st' hst'
    · intro st' hst' hlt
      obtain ⟨⟨j', hj'⟩, hall⟩ := hdrained st' (by simp [hst']) hlt
      refine ⟨⟨j', mem_append_left _ hj'⟩, fun i hi => ?_⟩
      obtain ⟨r, hr⟩ := hall i (by simpa [orderly, Monitor.historic] using hi)
      exact ⟨r, mem_append_left _ hr⟩
    · exact fun hclear id hid => mem_append_left _ (hended (by simp [hclear]) id hid)

section Steps

variable {n loops : ℕ} {past : List EngineEvent} {s s' : Engine} {j : ℕ} {p p' : StopPhase}
  {steps : List TeardownStep}

section

variable (hmove : StopMove n s j p steps p' s')
include hmove

theorem StopMove.stage (h : Stage n past s p) :
    Stage n (past ++ steps.map (.performed j)) s' p' where
  performed j' st hst := by
    rcases mem_append.mp hst with hold | hnew
    · exact lt_of_lt_of_le (h.performed j' st hold) hmove.onward
    obtain ⟨st', hst', heq⟩ := mem_map.mp hnew
    obtain ⟨-, rfl⟩ := EngineEvent.performed.inj heq
    exact (hmove.within st' hst').2
  flag := by simp [hmove.stopped, hmove.flagged]
  valid := hmove.valid
  registry hle := by rw [hmove.registry hle, h.registry (le_trans hmove.onward hle)]
  joined hlt := by rw [hmove.loops.2, hmove.joined hlt]
  waiting := hmove.waiting
  drained hlt := by
    rcases hmove.drained hlt with hbefore | hnow
    · obtain ⟨j', hj'⟩ := h.drained hbefore
      exact ⟨j', mem_append_left _ hj'⟩
    · exact ⟨j, mem_append_right _ (mem_map.mpr ⟨_, hnow, rfl⟩)⟩

theorem StopMove.stopsKept (h : StopsKept n past s) (hp : s.stops[j]? = some p)
    (hopen : p ≠ .returned) : StopsKept n (past ++ steps.map (.performed j)) s' := by
  have hstops : ∀ k, s'.stops[k]? = if j = k then some p' else s.stops[k]? := by
    intro k
    rw [hmove.stops, getElem?_set_of_some hp]
  -- the others have returned
  have honly : ∀ k q, s'.stops[k]? = some q → q ≠ .returned → j = k ∧ q = p' := by
    intro k q hk hq
    rw [hstops] at hk
    split at hk
    next hjk => exact ⟨hjk, (Option.some.inj hk).symm⟩
    next hjk => exact absurd (h.alone j k p q hp hk hopen hq) hjk
  constructor
  · intro k k' q q' hk hk' hq hq'
    rw [← (honly k q hk hq).1, ← (honly k' q' hk' hq').1]
  · intro q hq hqopen
    obtain ⟨k, hk⟩ := getElem?_of_mem hq
    rw [(honly k q hk hqopen).2]
    exact hmove.stage (h.stage p (mem_of_getElem? hp) hopen)
  · simp [hmove.stopped]

theorem StopMove.kept (h : Kept n loops past s)
    (hp : s.stops[j]? = some p) (hopen : p ≠ .returned) :
    (orderly loops).Accepts past (steps.map (.performed j)) ∧
      Kept n loops (past ++ steps.map (.performed j)) s' := by
  have hstage := h.stops.stage p (mem_of_getElem? hp) hopen
  have hmem : ∀ {k st}, EngineEvent.performed k st ∈ steps.map (.performed j) → st ∈ steps := by
    intro k st hst
    obtain ⟨st', hst', heq⟩ := mem_map.mp hst
    obtain ⟨-, rfl⟩ := EngineEvent.performed.inj heq
    exact hst'
  refine ⟨accepts_steps hmove.rising ?_ ?_ ?_, ?_, ?_, hmove.stopsKept h.stops hp hopen⟩
  · intro st hst j' st' hst'
    exact lt_of_lt_of_le (hstage.performed j' st' hst') (hmove.within st hst).1
  · intro st hst hlt
    obtain ⟨j', hj'⟩ := hstage.drained (hmove.late st hst hlt)
    exact h.sends.drained_past hj'
  · intro hclear
    have hlate := hmove.late .clear hclear (by simp)
    exact h.loops.all_ended (hstage.joined (lt_trans (by simp) hlate))
  · refine h.sends.frame hmove.sends.1 hmove.sends.2 ?_ (fun _ => hmove.stopped)
      (fun _ _ _ => hmove.stopped) (fun k hk => hmove.drains (hmem hk))
    simp [about]
  refine h.loops.frame hmove.loops.1 hmove.loops.2 ?_ hmove.released
  rcases le_or_gt (phasePlace p') (stepPlace .clear) with hle | hgt
  · exact .inl (hmove.registry hle)
  · exact .inr (hmove.joined (lt_trans (by simp) hgt))

end

end Steps

/-- No call of `stop` tests the flag while another one is between its test and its
store. -/
def Spaced (s : Engine) (a : Action) : Prop := a = .callStop → .passed ∉ s.stops

instance (s : Engine) (a : Action) : Decidable (Spaced s a) := by
  unfold Spaced
  infer_instance

theorem kept_registered (n : ℕ) (started : Bool) :
    Kept n (if started then n else 0) [] (registered n started) where
  sends := by
    refine ⟨rfl, fun i => ?_, nofun, nofun⟩
    constructor <;> simp [registered]
  loops := by
    cases started with
    | false => exact ⟨by simp, rfl, rfl, by simp [registered], by simp [registered],
        fun _ => rfl⟩
    | true =>
      refine ⟨by simp, by simp [registered], ?_, ?_, by simp [registered], nofun⟩
      · simp [registered, countP_replicate]
      intro id hid
      have hmem := mem_of_getElem? hid
      simp [registered] at hmem
  stops := ⟨nofun, nofun, fun _ => ⟨by simp [registered], nofun⟩⟩

section Steps

variable {n loops : ℕ} {past : List EngineEvent} {s : Engine} (h : Kept n loops past s)

include h

theorem Kept.sessions (sessions : ℕ → Published) :
    Kept n loops (past ++ []) { s with sessions } where
  sends := h.sends.frame rfl rfl nofun id nofun nofun
  loops := h.loops.frame rfl rfl (.inl rfl) h.loops.released
  stops := h.stops.frame rfl rfl rfl id rfl nofun

theorem Kept.still : Goes n loops past (s, []) := ⟨trivial, h.sessions s.sessions⟩

theorem Kept.enrol (id : ℕ) : Goes n loops past (s.enrol id) := by
  refine ⟨⟨?_, trivial⟩, h.sends.enrol id, ?_, ?_⟩
  · simp [orderly, Monitor.historic, Allowed, (h.sends.agrees s.sends.length).begun]
  · exact h.loops.frame rfl rfl (.inl rfl) h.loops.released
  · exact h.stops.frame rfl rfl rfl (fun hz => hz) rfl (by simp [Engine.enrol])

theorem Kept.advanceSend (i : ℕ) (answer : SendResult) :
    Goes n loops past (s.advanceSend i answer) := by
  rcases advanceSend_cases s i answer with ⟨heq, -⟩ | ⟨p, events, p', hp, hmove, heq⟩
  · rw [heq]
    exact h.still
  rw [heq]
  refine ⟨h.sends.accepts loops hp hmove, h.sends.moved hp hmove, ?_, ?_⟩
  · exact h.loops.frame rfl rfl (.inl rfl) h.loops.released
  refine h.stops.frame rfl rfl rfl (fun hz => hz) rfl fun j st hst => ?_
  cases hmove.about_eq _ hst

theorem Kept.advanceLoop (id : ℕ) (unwinds : Bool) :
    Goes n loops past (s.advanceLoop id unwinds) := by
  rcases move_advanceLoop h.loops id unwinds with heq | hmove
  · rw [heq]
    exact h.still
  generalize s.advanceLoop id unwinds = r at hmove ⊢
  obtain ⟨s', events⟩ := r
  have hloops := hmove.kept h.loops
  cases hmove with
  | on _ _ _ hregistry =>
    exact ⟨trivial, h.sends.frame rfl rfl nofun (fun hs => hs) nofun nofun, hloops,
      h.stops.frame rfl rfl hregistry (fun hz => hz) rfl nofun⟩
  | ended =>
    refine ⟨⟨trivial, trivial⟩, ?_, hloops, ?_⟩
    · exact h.sends.frame rfl rfl (by simp [about]) (fun hs => hs) (by simp) (by simp)
    · exact h.stops.frame rfl rfl rfl (fun hz => by simp [hz]) rfl (by simp)

theorem Kept.moves {j : ℕ} {p : StopPhase} {r : Engine × List EngineEvent}
    (hp : s.stops[j]? = some p) (hopen : p ≠ .returned) (hmoves : Moves n s j p r) :
    Goes n loops past r := by
  obtain ⟨steps, p', hevents, hmove⟩ := hmoves
  rw [Goes, hevents]
  exact hmove.kept h hp hopen

theorem Kept.underway {p : StopPhase} {j : ℕ} (hp : s.stops[j]? = some p) (hopen : p ≠ .returned) :
    Underway n loops past s p :=
  ⟨h.loops, h.stops.stage p (mem_of_getElem? hp) hopen⟩

theorem Kept.advanceStop (j : ℕ) : Goes n loops past (s.advanceStop j) := by
  cases hp : s.stops[j]? with
  | none => simpa [Engine.advanceStop, hp] using h.still
  | some p =>
    by_cases hopen : p = .returned
    · simpa [Engine.advanceStop, hp, hopen] using h.still
    rcases moves_advanceStop (h.underway hp hopen) hp hopen with heq | hmoves
    · rw [heq]
      exact h.still
    · exact h.moves hp hopen hmoves

theorem Kept.joinClose (j : ℕ) : Goes n loops past (s.joinClose j, []) := by
  unfold Engine.joinClose
  split
  next pending hp =>
    exact h.moves hp nofun (moves_joinClose (h.underway hp nofun) _ (.inl ⟨pending - 1, rfl⟩))
  · exact h.still

omit h

theorem kept_step (past : List EngineEvent) (s : Engine) (a : Action) (h : Kept n loops past s)
    (hspaced : Spaced s a) :
    (orderly loops).Accepts past (s.step a).2 ∧
      Kept n loops ((orderly loops).run past (s.step a).2) (s.step a).1 := by
  rw [orderly, Monitor.run_historic]
  cases a with
  | send id => exact h.enrol id
  | advance i answer => exact h.advanceSend i answer
  | loop id unwinds => exact h.advanceLoop id unwinds
  | transition id state => exact ⟨trivial, h.sessions _⟩
  | callStop =>
    refine ⟨trivial, ?_, ?_, ?_⟩
    · exact h.sends.frame rfl rfl nofun (fun hs => hs) nofun nofun
    · exact h.loops.frame rfl rfl (.inl rfl) h.loops.released
    · simpa [Engine.step, Engine.guardStop] using h.stops.guardStop (hspaced rfl)
  | stop j => exact h.advanceStop j
  | transportClosed j => exact h.joinClose j

end Steps

end Fixpp.Analysis.EngineSteps
