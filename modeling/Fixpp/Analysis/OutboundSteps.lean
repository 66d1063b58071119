import Fixpp.Model.Outbound

/-!
# The emissions under way

While a Logon is exchanged at most the driver has an emission in flight, and the frames of a Logon
arm are gone when the session becomes `Active`. Every step but the begin of an emission and the
move to `Active` only moves emissions on or drops them (`Shrinks`).
-/

namespace Fixpp.Analysis.OutboundSteps

open Foundation List
open Model Outlet

variable {rest : List Emission} {a : OutStep}

theorem split_at_index {α : Type} {xs : List α} {i : ℕ} {x : α} (h : xs[i]? = some x) :
    ∃ pre post, xs = pre ++ x :: post ∧ xs.eraseIdx i = pre ++ post := by
  obtain ⟨hlt, hx⟩ := List.getElem?_eq_some_iff.mp h
  refine ⟨xs.take i, xs.drop (i + 1), ?_, eraseIdx_eq_take_drop_succ xs i⟩
  rw [← hx, getElem_cons_drop, take_append_drop]

/-- No new emission is begun from `o` to `o'`, and the session does not move
towards `Active`. -/
structure Shrinks (o o' : Outlet) : Prop where
  fewer : o'.inFlight.Subperm o.inFlight
  loggingOn : o'.loggingOn = true → o.loggingOn = true
  active : o'.session.fsm = .active → o.session.fsm = .active
  logoutBegun : o'.logoutBegun = o.logoutBegun
  closing : o.session.lifecycle ≠ .opened → o'.session.lifecycle ≠ .opened
  uncalled : o.calls = [] → o'.calls = []
  store : o'.session.store = none → o.session.store = none

/-- What holds of the emissions in flight in every state of a run. -/
structure Orderly (o : Outlet) : Prop where
  solo : o.loggingOn = true → o.logoutBegun = false → o.inFlight.length ≤ 1
  driven : o.loggingOn = true → o.logoutBegun = false → ∀ e ∈ o.inFlight, e.emitter = .driver
  owned : ∀ e ∈ o.inFlight, e.arm ≠ none → e.emitter = .driver
  unarmed : o.session.fsm = .active → ∀ e ∈ o.inFlight, e.arm = none
  closing : o.logoutBegun = true → o.session.lifecycle ≠ .opened
  uncalled : o.session.store = none → o.calls = []

variable {o o' : Outlet} {e : Emission}

theorem Orderly.shrinks (h : Orderly o) (hs : Shrinks o o') : Orderly o' where
  solo hlog hout := by
    have hlen := h.solo (hs.loggingOn hlog) (hs.logoutBegun ▸ hout)
    exact Nat.le_trans hs.fewer.length_le hlen
  driven hlog hout e he :=
    h.driven (hs.loggingOn hlog) (hs.logoutBegun ▸ hout) e (hs.fewer.subset he)
  owned e he := h.owned e (hs.fewer.subset he)
  unarmed hact e he := h.unarmed (hs.active hact) e (hs.fewer.subset he)
  closing hout := hs.closing (h.closing (hs.logoutBegun ▸ hout))
  uncalled hnone := hs.uncalled (h.uncalled (hs.store hnone))

theorem not_driver_of_idle (h : o.driverBusy = false) (he : e ∈ o.inFlight) :
    e.emitter ≠ .driver := by
  intro hdriver
  have hbusy : o.driverBusy = true := any_eq_true.mpr ⟨e, he, by simp [hdriver]⟩
  rw [h] at hbusy
  cases hbusy

theorem Orderly.nothing_of_idle (h : Orderly o) (hlog : o.loggingOn = true)
    (hout : o.logoutBegun = false) (hidle : o.driverBusy = false) : o.inFlight = [] := by
  apply eq_nil_iff_forall_not_mem.mpr
  intro e he
  exact not_driver_of_idle hidle he (h.driven hlog hout e he)

/-! ## The helpers of the steps -/

@[simp] theorem inFlight_setNext (o : Outlet) (n : ℕ) : (o.setNext n).inFlight = o.inFlight := rfl

@[simp] theorem next_setNext (o : Outlet) (n : ℕ) : (o.setNext n).next = n := rfl

@[simp] theorem next_takeBack (o : Outlet) (e : Emission) :
    (o.takeBack e).next = min o.next e.seq := by
  simp only [Outlet.next, takeBack, SeqnumManager.takeBackOutbound]
  by_cases h : o.session.seqnums.nextOutbound > e.seq
  · rw [if_pos h]
    exact (Nat.min_eq_right (Nat.le_of_lt h)).symm
  rw [if_neg h]
  exact (Nat.min_eq_left (Nat.le_of_not_lt h)).symm

theorem requestGate_cases (o : Outlet) (e : Emission) :
    o.requestGate e = o ∨ o.requestGate e = { o with gate := o.gate ++ [e] } := by
  by_cases h : (o.superseded e || !e.transmit) = true
  · exact .inl (if_pos h)
  · exact .inr (if_neg h)

theorem refuseStale_cases (o : Outlet) (e : Emission) : o.refuseStale e = o ∨
      (e.seq < o.next ∧ o.refuseStale e = { o with gate := o.gate ++ [e] }) := by
  unfold Outlet.refuseStale
  by_cases h : o.next ≤ e.seq
  · exact .inl (if_pos h)
  rw [if_neg h]
  rcases requestGate_cases o e with hend | hgate
  · exact .inl hend
  · exact .inr ⟨by omega, hgate⟩

/-- Neither touches anything but the gate. -/
structure OnlyGate (o o' : Outlet) : Prop where
  session : o'.session = o.session
  calls : o'.calls = o.calls
  reconciling : o'.reconciling = o.reconciling
  nextId : o'.nextId = o.nextId
  logoutBegun : o'.logoutBegun = o.logoutBegun
  shut : o'.shut = o.shut

theorem onlyGate_requestGate (o : Outlet) (e : Emission) : OnlyGate o (o.requestGate e) := by
  rcases requestGate_cases o e with h | h <;> rw [h] <;> exact ⟨rfl, rfl, rfl, rfl, rfl, rfl⟩

theorem onlyGate_refuseStale (o : Outlet) (e : Emission) : OnlyGate o (o.refuseStale e) := by
  rcases refuseStale_cases o e with h | ⟨-, h⟩ <;> rw [h] <;> exact ⟨rfl, rfl, rfl, rfl, rfl, rfl⟩

/-! ## What a step can do -/

def numbered (o : Outlet) (e : Emission) : Outlet :=
  { o.setNext (o.next + 1) with
    nextId := o.nextId + 1
    logoutBegun := o.logoutBegun || e.emitter = .closer }

structure Begun (o : Outlet) (a : OutStep) (e : Emission) : Prop where
  may : o.mayBegin e.emitter e.arm = true
  built : ∃ build, a = .begin e.emitter e.arm e.transmit build ∧ build o.next = some e.frame
  seq : e.seq = o.next
  id : e.id = o.nextId

/-- The effect of one step: what it shows and the outlet it leaves. -/
inductive Effect (cfg : SessionConfig) (o : Outlet) (a : OutStep) : List OutEvent → Outlet → Prop
  | still : Effect cfg o a [] o
  | called (e : Emission) (hbegun : Begun o a e) (hstore : o.session.store ≠ none)
      (hskip : skipsStore cfg.hooks e.frame = false) :
      Effect cfg o a [] { numbered o e with calls := o.calls ++ [e] }
  | uncalled (e : Emission) (hbegun : Begun o a e)
      (hskip : o.session.store = none ∨ skipsStore cfg.hooks e.frame = true) :
      Effect cfg o a [] ((numbered o e).requestGate e)
  | cancelled (pre post : List Emission) (e : Emission) (hcalls : o.calls = pre ++ e :: post) :
      Effect cfg o a [.storeRefused e.id] (Outlet.takeBack { o with calls := pre ++ post } e)
  | refused (e : Emission) (rest : List Emission) (hcalls : o.calls = e :: rest)
      (hpers : cfg.storeIsPersistent = true) :
      Effect cfg o a [.storeRefused e.id]
        { o with calls := rest, reconciling := o.reconciling ++ [(e, none)] }
  | absorbed (e : Emission) (rest : List Emission) (hcalls : o.calls = e :: rest)
      (hpers : cfg.storeIsPersistent = true → a = .storeReturns .threw)
      (events : List OutEvent) (hevents : events = [] ∨ events = [.storeRefused e.id]) :
      Effect cfg o a events (Outlet.refuseStale { o with calls := rest } e)
  | stored (e : Emission) (rest : List Emission) (st st' : MessageStore)
      (hcalls : o.calls = e :: rest) (hstore : o.session.store = some st)
      (htook : st.store e.seq (storedImage cfg.hooks e.frame) = .ok st') :
      Effect cfg o a [.stored e.id e.seq (storedImage cfg.hooks e.frame)]
        (Outlet.refuseStale
          { o with calls := rest, session := { o.session with store := some st' } } e)
  | reads (later : List (Emission × Option ℕ))
      (hlater : (later.map Prod.fst).Sublist (o.reconciling.map Prod.fst)) :
      Effect cfg o a [] { o with reconciling := later }
  | reconciled (later : List (Emission × Option ℕ)) (durable : ℕ)
      (hlater : (later.map Prod.fst).Sublist (o.reconciling.map Prod.fst))
      (hsome : o.reconciling ≠ []) :
      Effect cfg o a [] ({ o with reconciling := later }.setNext durable)
  | handed (e : Emission) (rest : List Emission) (hgate : o.gate = e :: rest)
      (hopen : o.shut = false) :
      Effect cfg o a [.handed e.id e.seq e.frame] { o with gate := rest }
  | left (later : List Emission) (hlater : later.Sublist o.gate) :
      Effect cfg o a [] { o with gate := later }
  | recorded (st : FsmState) (hmay : o.mayRecord st = true) :
      Effect cfg o a [] { o with session := { o.session with fsm := st } }
  | beganClose : Effect cfg o a [] { o with session := { o.session with lifecycle := .closing } }
  | stopped : Effect cfg o a [] { o with session := { o.session with engineStopRequested := true } }
  | shutDown : Effect cfg o a [] { o with shut := o.shut || o.session.lifecycle ≠ .opened }
  | hydrated (st : MessageStore) (hpers : cfg.storeIsPersistent = true) :
      Effect cfg o a [] (o.setNext st.nextOutbound)
  | logonReset (next : ℕ) (took : Bool) (hlog : o.loggingOn = true)
      (hidle : o.driverBusy = false) (hout : o.logoutBegun = false) :
      Effect cfg o a [.outboundReset] (o.resetTo next took)
  | teardownReset (took : Bool) (hshut : o.shut = true) :
      Effect cfg o a [.outboundReset] (o.resetTo seqnumMin took)

variable (cfg : SessionConfig)

theorem effect_begin (o : Outlet) (emitter : Emitter)
    (arm : Option FsmState) (transmit : Bool) (build : ℕ → Option Bytes) :
    Effect cfg o (.begin emitter arm transmit build) []
      (o.begin cfg emitter arm transmit build) := by
  unfold Outlet.begin
  by_cases hmay : o.mayBegin emitter arm = false
  · rw [if_pos hmay]
    exact .still
  rw [if_neg hmay]
  cases hbuild : build o.next with
  | none => exact .still
  | some frame =>
    unfold SeqnumManager.assignOutbound
    by_cases hmax : o.session.seqnums.nextOutbound = seqnumMax
    · rw [if_pos hmax]
      exact .still
    rw [if_neg hmax]
    have hbegun : Begun o (.begin emitter arm transmit build)
        ⟨o.nextId, emitter, arm, transmit, o.next, frame⟩ :=
      ⟨by simpa using hmay, ⟨build, rfl, hbuild⟩, rfl, rfl⟩
    simp only [Outlet.launch]
    split
    next hskip => exact .uncalled _ hbegun hskip
    next hskip =>
    rw [not_or] at hskip
    exact .called _ hbegun hskip.1 (by simpa using hskip.2)

theorem effect_settle (o : Outlet) (hcalls : o.calls = e :: rest) (hstore : o.session.store ≠ none)
    (answer : StoreOutcome) :
    Effect cfg o (.storeReturns answer) (Outlet.settle cfg { o with calls := rest } e answer).2
      (Outlet.settle cfg { o with calls := rest } e answer).1 := by
  obtain ⟨st, hst⟩ := Option.ne_none_iff_exists'.mp hstore
  have hpre : o.calls = [] ++ e :: rest := hcalls
  unfold Outlet.settle
  cases htook : st.store e.seq (storedImage cfg.hooks e.frame) with
  | error err =>
    cases answer with
    | cancelled => simpa [storeCall] using Effect.cancelled [] rest e hpre
    | threw =>
      simpa [storeCall] using Effect.absorbed e rest hcalls (fun _ => rfl) [] (.inl rfl)
    | done | failed =>
      by_cases hpers : cfg.storeIsPersistent = true
      · simpa [storeCall, hst, htook, hpers] using Effect.refused e rest hcalls hpers
      simpa [storeCall, hst, htook, hpers] using
        .absorbed e rest hcalls (fun h => absurd h hpers) _ (.inr rfl)
  | ok st' =>
    cases answer with
    | cancelled => simpa [storeCall] using Effect.cancelled [] rest e hpre
    | threw =>
      simpa [storeCall] using Effect.absorbed e rest hcalls (fun _ => rfl) [] (.inl rfl)
    | failed err =>
      by_cases hpers : cfg.storeIsPersistent = true
      · simpa [storeCall, hpers] using Effect.refused e rest hcalls hpers
      simpa [storeCall, hpers] using
        .absorbed e rest hcalls (fun h => absurd h hpers) _ (.inr rfl)
    | done =>
      simpa [storeCall, hst, htook, Except.toOption] using
        .stored e rest st st' hcalls hst htook

theorem effect_step (h : Orderly o) (a : OutStep) :
    Effect cfg o a (o.step cfg a).2 (o.step cfg a).1 := by
  have hcalled : ∀ {e rest}, o.calls = e :: rest → o.session.store ≠ none := by
    intro e rest hcalls hnone
    rw [h.uncalled hnone] at hcalls
    cases hcalls
  cases a with
  | begin emitter arm transmit build => exact effect_begin cfg o emitter arm transmit build
  | storeReturns answer =>
    simp only [Outlet.step]
    cases hcalls : o.calls with
    | nil => exact .still
    | cons e rest => exact effect_settle cfg o hcalls (hcalled hcalls) answer
  | storeCancelled i =>
    simp only [Outlet.step]
    cases hi : o.calls[i]? with
    | none => exact .still
    | some e =>
      obtain ⟨pre, post, hcalls, herase⟩ := split_at_index hi
      simpa [Outlet.settle, storeCall, herase] using Effect.cancelled pre post e hcalls
  | readReturns i read =>
    simp only [Outlet.step]
    cases hi : o.reconciling[i]? with
    | none => exact .still
    | some entry =>
      obtain ⟨e, _ | durable⟩ := entry
      · cases read with
        | false => exact .reads _ ((eraseIdx_sublist _ _).map _)
        | true =>
          obtain ⟨hlt, hentry⟩ := List.getElem?_eq_some_iff.mp hi
          have hsame : (o.reconciling.set i (e, some (o.session.store.getD {}).nextOutbound)).map
              Prod.fst = o.reconciling.map Prod.fst := by
            apply ext_getElem (by simp)
            intro k hk hk'
            by_cases hik : i = k
            · subst hik
              simp [hentry]
            · simp [hik]
          exact .reads _ (hsame ▸ List.Sublist.refl _)
      · exact .still
  | counterReconciled i =>
    simp only [Outlet.step]
    cases hi : o.reconciling[i]? with
    | none => exact .still
    | some entry =>
      obtain ⟨e, _ | durable⟩ := entry
      · exact .still
      refine .reconciled _ durable ((eraseIdx_sublist _ _).map _) ?_
      intro hnil
      simp [hnil] at hi
  | gateOpens =>
    simp only [Outlet.step]
    cases hgate : o.gate with
    | nil => exact .still
    | cons e rest =>
      by_cases hshut : o.shut = true
      · have hrest : rest.Sublist o.gate := hgate ▸ sublist_cons_self e rest
        simpa [hshut] using Effect.left rest hrest
      · simpa [hshut] using Effect.handed e rest hgate (by simpa using hshut)
  | gateLeft i => exact .left _ (eraseIdx_sublist _ _)
  | transition st =>
    simp only [Outlet.step]
    by_cases hmay : o.mayRecord st = true
    · simpa [hmay] using Effect.recorded st hmay
    · simpa [hmay] using Effect.still
  | beginClose =>
    simp only [Outlet.step]
    by_cases hopen : o.session.lifecycle = .opened
    · simpa [hopen] using Effect.beganClose
    · simpa [hopen] using Effect.still
  | engineStop => exact .stopped
  | closeTransport => exact .shutDown
  | hydrate =>
    simp only [Outlet.step]
    cases hstore : o.session.store with
    | none => exact .still
    | some st =>
      by_cases hpers : cfg.storeIsPersistent = true ∧ o.loggingOn = true
      · simpa [hpers] using Effect.hydrated st hpers.1
      · simpa only [if_neg hpers] using Effect.still
  | logonReset next stored =>
    simp only [Outlet.step]
    by_cases hmay : o.loggingOn = true ∧ o.driverBusy = false ∧ o.logoutBegun = false
    · simpa [hmay] using Effect.logonReset next stored hmay.1 hmay.2.1 hmay.2.2
    · simpa only [if_neg hmay] using Effect.still
  | teardownReset stored =>
    simp only [Outlet.step]
    by_cases hshut : o.shut = true
    · simpa [hshut] using Effect.teardownReset stored hshut
    · simpa [hshut] using Effect.still

/-! ## The emissions in flight stay orderly -/

theorem shrinks_of_parts (hfsm : o'.session.fsm = o.session.fsm)
    (hlife : o'.session.lifecycle = o.session.lifecycle)
    (hstore : o'.session.store = none → o.session.store = none)
    (hout : o'.logoutBegun = o.logoutBegun) (hcalls : o.calls = [] → o'.calls = [])
    (hfewer : o'.inFlight.Subperm o.inFlight) : Shrinks o o' where
  fewer := hfewer
  loggingOn := by simp [loggingOn, hfsm]
  active := by simp [hfsm]
  logoutBegun := hout
  closing := by simp [hlife]
  uncalled := hcalls
  store := hstore

theorem inFlight_refuseStale : (o.refuseStale e).inFlight.Subperm (e :: o.inFlight) := by
  rcases refuseStale_cases o e with hend | ⟨-, hgate⟩
  · rw [hend]
    exact (sublist_cons_self e _).subperm
  rw [hgate]
  have hperm : (o.inFlight ++ [e]).Perm (e :: o.inFlight) := perm_append_singleton e _
  simpa [inFlight, append_assoc] using hperm.subperm

theorem loggingOn_takeBack (h : (o.takeBack e).loggingOn = true) :
    o.loggingOn = true ∧ o.superseded e = true := by
  cases hsup : o.superseded e with
  | true => exact ⟨by simpa [takeBack, loggingOn, hsup] using h, rfl⟩
  | false => simp [takeBack, loggingOn, hsup] at h

theorem active_takeBack (h : (o.takeBack e).session.fsm = .active) :
    o.session.fsm = .active ∧ o.superseded e = true := by
  cases hsup : o.superseded e with
  | true => exact ⟨by simpa [takeBack, hsup] using h, rfl⟩
  | false => simp [takeBack, hsup] at h

theorem shrinks_takeBack {pre post : List Emission} (hcalls : o.calls = pre ++ e :: post) :
    Shrinks o (takeBack { o with calls := pre ++ post } e) where
  fewer := by
    have hsub : (pre ++ post).Sublist o.calls :=
      hcalls ▸ List.Sublist.append_left (sublist_cons_self e post) pre
    exact ((hsub.append_right _).append_right _).subperm
  loggingOn h := (loggingOn_takeBack h).1
  active h := (active_takeBack h).1
  logoutBegun := rfl
  closing := id
  uncalled h := by simp [hcalls] at h
  store := id

theorem shrinks_behindCall (hcalls : o.calls = e :: rest) (hfsm : o'.session.fsm = o.session.fsm)
    (hlife : o'.session.lifecycle = o.session.lifecycle)
    (hstore : o'.session.store = none → o.session.store = none)
    (hout : o'.logoutBegun = o.logoutBegun)
    (hfewer : o'.inFlight.Subperm (e :: inFlight { o with calls := rest })) : Shrinks o o' := by
  refine shrinks_of_parts hfsm hlife hstore hout (fun h => by simp [hcalls] at h) ?_
  simpa [inFlight, hcalls] using hfewer

theorem orderly_begun (h : Orderly o) (hbegun : Begun o a e)
    (hsession : o'.session = (numbered o e).session)
    (hout : o'.logoutBegun = (numbered o e).logoutBegun)
    (hmore : o'.inFlight.Subperm (e :: o.inFlight))
    (hcalls : o.session.store = none → o'.calls = []) : Orderly o' := by
  have hfsm : o'.session.fsm = o.session.fsm := by rw [hsession]; rfl
  have hlog : o'.loggingOn = o.loggingOn := by simp [loggingOn, hfsm]
  have hmay := hbegun.may
  have hdriver : o'.loggingOn = true → o'.logoutBegun = false →
      e.emitter = .driver ∧ o.inFlight = [] := by
    intro hlogging hnot
    rw [hlog] at hlogging
    rw [hout] at hnot
    cases hem : e.emitter with
    | sender =>
      simp only [mayBegin, hem, Bool.and_eq_true, decide_eq_true_eq] at hmay
      simp [loggingOn, hmay.2] at hlogging
    | closer => simp [numbered, hem] at hnot
    | driver =>
      simp only [mayBegin, hem, Bool.and_eq_true, Bool.not_eq_true'] at hmay
      have hbefore : o.logoutBegun = false := by simpa [numbered, hem] using hnot
      exact ⟨rfl, h.nothing_of_idle hlogging hbefore hmay.1⟩
  have hmem : ∀ {x}, x ∈ o'.inFlight → x = e ∨ x ∈ o.inFlight := fun hx =>
    mem_cons.mp (hmore.subset hx)
  refine ⟨?_, ?_, ?_, ?_, ?_, ?_⟩
  · intro hlogging hnot
    have hlen := hmore.length_le
    rw [(hdriver hlogging hnot).2] at hlen
    exact hlen
  · intro hlogging hnot x hx
    obtain ⟨hem, hnil⟩ := hdriver hlogging hnot
    rcases hmem hx with rfl | hold
    · exact hem
    rw [hnil] at hold
    cases hold
  · intro x hx harm
    rcases hmem hx with rfl | hold
    · cases hem : x.emitter <;> simp_all [mayBegin]
    · exact h.owned x hold harm
  · intro hact x hx
    rw [hfsm] at hact
    rcases hmem hx with rfl | hold
    · cases hem : x.emitter <;> simp_all [mayBegin, loggingOn]
    · exact h.unarmed hact x hold
  · intro hbegan
    have hlife : o'.session.lifecycle = o.session.lifecycle := by rw [hsession]; rfl
    rw [hlife]
    rw [hout] at hbegan
    by_cases hbefore : o.logoutBegun = true
    · exact h.closing hbefore
    have hem : e.emitter = .closer := by simpa [numbered, hbefore] using hbegan
    simp only [mayBegin, hem, Bool.and_eq_true, decide_eq_true_eq] at hmay
    rw [hmay.1.1.2]
    decide
  · intro hnone
    rw [hsession] at hnone
    exact hcalls hnone

/-- A recorded state ends the session, stays within the Logon exchange, or is
`Active` with an idle driver. -/
theorem orderly_recorded {st : FsmState} (h : Orderly o) (hmay : o.mayRecord st = true) :
    Orderly { o with session := { o.session with fsm := st } } := by
  have hshrinks (hlog : st = .logonSent ∨ st = .logonReceived → o.loggingOn = true)
      (hst : st ≠ .active) (hst' : st ≠ .notConnected) :
      Shrinks o { o with session := { o.session with fsm := st } } := by
    refine ⟨List.Subperm.refl _, ?_, fun hact => absurd hact hst, rfl, id, id, id⟩
    intro hlogging
    apply hlog
    simpa [loggingOn, hst'] using hlogging
  cases st with
  | notConnected => simp [mayRecord] at hmay
  | logonSent | logonReceived =>
    exact h.shrinks (hshrinks (fun _ => by simpa [mayRecord] using hmay) (by simp)
      (by simp))
  | logoutSent | disconnected =>
    exact h.shrinks (hshrinks (fun hcase => by simp at hcase) (by simp) (by simp))
  | active =>
    simp only [mayRecord, Bool.and_eq_true, Bool.not_eq_true'] at hmay
    refine ⟨?_, ?_, h.owned, ?_, h.closing, h.uncalled⟩
    · intro hlogging
      simp [loggingOn] at hlogging
    · intro hlogging
      simp [loggingOn] at hlogging
    intro _ e he
    by_contra harm
    exact not_driver_of_idle hmay.2 he (h.owned e he harm)

theorem Effect.orderly {cfg : SessionConfig} {events : List OutEvent} (h : Orderly o)
    (heff : Effect cfg o a events o') : Orderly o' := by
  cases heff with
  | still => exact h
  | called e hbegun hstore hskip =>
    refine orderly_begun h hbegun rfl rfl ?_ fun hnone => absurd hnone hstore
    have hperm : (o.calls ++ [e]).Perm (e :: o.calls) := perm_append_singleton e _
    exact ((hperm.append_right _).append_right _).subperm
  | uncalled e hbegun hskip =>
    have hgate := onlyGate_requestGate (numbered o e) e
    refine orderly_begun h hbegun hgate.session hgate.logoutBegun ?_ fun hnone => ?_
    · rcases requestGate_cases (numbered o e) e with heq | heq <;> rw [heq]
      · exact (sublist_cons_self e _).subperm
      have hperm : (o.inFlight ++ [e]).Perm (e :: o.inFlight) := perm_append_singleton e _
      simpa [inFlight, numbered, Outlet.setNext, append_assoc] using hperm.subperm
    · rw [hgate.calls]
      exact h.uncalled hnone
  | cancelled pre post e hcalls => exact h.shrinks (shrinks_takeBack hcalls)
  | refused e rest hcalls hpers =>
    refine h.shrinks (shrinks_behindCall hcalls rfl rfl id rfl ?_)
    have hperm : (rest ++ (o.reconciling.map Prod.fst ++ [e]) ++ o.gate).Perm
        (e :: (rest ++ o.reconciling.map Prod.fst ++ o.gate)) := by
      rw [← append_assoc]
      exact (perm_append_singleton e _).append_right _
    simpa [inFlight] using hperm.subperm
  | absorbed e rest hcalls hpers events hevents =>
    have hgate := onlyGate_refuseStale { o with calls := rest } e
    exact h.shrinks (shrinks_behindCall hcalls (by rw [hgate.session]) (by rw [hgate.session])
      (by rw [hgate.session]; exact id) hgate.logoutBegun inFlight_refuseStale)
  | stored e rest st st' hcalls hstore htook =>
    have hgate := onlyGate_refuseStale
      { o with calls := rest, session := { o.session with store := some st' } } e
    exact h.shrinks (shrinks_behindCall hcalls (by rw [hgate.session]) (by rw [hgate.session])
      (by rw [hgate.session]; exact fun hnone => by cases hnone) hgate.logoutBegun
      inFlight_refuseStale)
  | reads later hlater =>
    exact h.shrinks (shrinks_of_parts rfl rfl id rfl id
      ((hlater.append_left _).append_right _).subperm)
  | reconciled later durable hlater hsome =>
    exact h.shrinks (shrinks_of_parts rfl rfl id rfl id
      ((hlater.append_left _).append_right _).subperm)
  | handed e rest hgate hopen =>
    have hrest : rest.Sublist o.gate := hgate ▸ sublist_cons_self e rest
    exact h.shrinks (shrinks_of_parts rfl rfl id rfl id (hrest.append_left _).subperm)
  | left later hlater =>
    exact h.shrinks (shrinks_of_parts rfl rfl id rfl id (hlater.append_left _).subperm)
  | recorded st hmay => exact orderly_recorded h hmay
  | beganClose =>
    exact h.shrinks ⟨.refl _, id, id, rfl, fun _ => by simp, id, id⟩
  | stopped => exact h.shrinks (shrinks_of_parts rfl rfl id rfl id (.refl _))
  | shutDown => exact h.shrinks (shrinks_of_parts rfl rfl id rfl id (.refl _))
  | hydrated st hpers => exact h.shrinks (shrinks_of_parts rfl rfl id rfl id (.refl _))
  | logonReset next took hlog hidle hout =>
    exact h.shrinks (shrinks_of_parts rfl rfl (by simp [resetTo]) rfl id
      (.refl _))
  | teardownReset took hshut =>
    exact h.shrinks (shrinks_of_parts rfl rfl (by simp [resetTo]) rfl id
      (.refl _))

end Fixpp.Analysis.OutboundSteps
