import Fixpp.Model.Logon

/-!
# What a handler does beside its task

Wherever a handler waits, replies or ends the session, the same few things can happen. `Ambient`
lists them once; an assertion that survives them is kept by every step the handlers share.
-/

namespace Fixpp.Analysis

open Foundation Model
open Foundation.Traced (Triple Maintains)

variable {B : Session → Prop} {bytes : Bytes} {reply : Reply}

/-- The session after the teardown reset of a close. -/
def tornDown (s : Session) (stored : Bool) : Session :=
  { s with
    seqnums := s.seqnums.resetToOne
    teardownResetDone := true
    store := s.store.map fun st =>
      if stored then st.resetTo seqnumMin seqnumMin Nat.one_pos else st }

theorem perform_runs (a : EnvAct) (w : World Session Event Answer) :
    (∃ u, (a.perform w).1 = .ok u) ∧ (a.perform w).2.answers = w.answers := by
  have hget : ∀ {c : Session → Prop} [DecidablePred c] {x : Handler Unit},
      (∃ u, (x w).1 = .ok u) ∧ (x w).2.answers = w.answers →
        (∃ u, ((.get >>= fun s => if c s then x else pure () : Handler Unit) w).1 = .ok u) ∧
          ((.get >>= fun s => if c s then x else pure () : Handler Unit) w).2.answers =
            w.answers := by
    intro c _ x hx
    have hrun : (.get >>= fun s => if c s then x else pure () : Handler Unit) w =
        (if c w.state then x else pure ()) w := rfl
    rw [hrun]
    split
    · exact hx
    · exact ⟨⟨(), rfl⟩, rfl⟩
  cases a with
  | logoutSent | teardownReset => exact hget ⟨⟨_, rfl⟩, rfl⟩
  | _ => exact ⟨⟨(), rfl⟩, rfl⟩

/-- What other coroutines do throws nothing into the handler and takes none of its
answers. -/
theorem meanwhile_runs (acts : List EnvAct) (w : World Session Event Answer) :
    (∃ u, (meanwhile acts w).1 = .ok u) ∧ (meanwhile acts w).2.answers = w.answers := by
  induction acts generalizing w with
  | nil => exact ⟨⟨(), rfl⟩, rfl⟩
  | cons a rest ih =>
    obtain ⟨⟨u, hu⟩, hanswers⟩ := perform_runs a w
    have hrun : meanwhile (a :: rest) w = meanwhile rest (a.perform w).2 :=
      Traced.bind_ok (show a.perform w = (.ok u, (a.perform w).2) by rw [← hu])
    rw [hrun, ← hanswers]
    exact ih _

/-- One of the things that happen to a session while a handler waits or replies. -/
inductive Drifts (s : Session) : Session → Prop
  | disconnected : Drifts s { s with fsm := .disconnected }
  | loggedOut : s.lifecycle = .closing → s.fsm ≠ .notConnected → s.fsm ≠ .logonSent →
      Drifts s { s with fsm := .logoutSent }
  | closing : s.lifecycle = .opened → Drifts s { s with lifecycle := .closing }
  | tornDown (stored : Bool) : s.lifecycle = .closing → s.down = true → Drifts s (tornDown s stored)
  | drained : s.lifecycle = .closing → s.down = true →
      Drifts s { s with lifecycle := .closedDrained }
  | stopped : Drifts s { s with engineStopRequested := true }
  | testRequested (id : Bytes) : Drifts s { s with pendingTestReqId := id }
  | numbered (next : ℕ) : Drifts s { s with seqnums := s.seqnums.setNextOutbound next }
  | stored (seq : ℕ) (bytes : Bytes) (st : MessageStore) :
      (s.store.getD {}).store seq bytes = .ok st → Drifts s { s with store := some st }

/-- A property of the session that survives all of them. -/
def Steady (A : Session → Prop) : Prop := ∀ s s', Drifts s s' → A s → A s'

variable {A : Session → Prop}

theorem Steady.and (hA : Steady A) (hB : Steady B) : Steady fun s => A s ∧ B s :=
  fun s s' hd h => ⟨hA s s' hd h.1, hB s s' hd h.2⟩

theorem Steady.imp {c : Prop} (hA : c → Steady A) : Steady fun s => c → A s :=
  fun s s' hd h hc => hA hc s s' hd (h hc)

theorem Steady.const (c : Prop) : Steady fun _ => c := fun _ _ _ h => h

theorem Steady.inState (hA : Steady A) (st : FsmState) (hdisc : st ≠ .disconnected)
    (hlogout : st ≠ .logoutSent) : Steady fun s => s.fsm = st → A s := by
  intro s s' hd h hst
  refine hA s s' hd (h ?_)
  cases hd with
  | disconnected => exact absurd hst.symm hdisc
  | loggedOut => exact absurd hst.symm hlogout
  | _ => exact hst

theorem Steady.whileOpen (hA : Steady A) :
    Steady fun s => s.lifecycle = .opened → s.engineStopRequested = false → A s := by
  intro s s' hd h ho hstop
  refine hA s s' hd ?_
  cases hd with
  | closing | drained => cases ho
  | stopped => cases hstop
  | _ => exact h ho hstop

theorem Steady.onceHydrated (hA : Steady A) : Steady fun s => s.hydrated = true → A s := by
  intro s s' hd h hh
  refine hA s s' hd (h ?_)
  cases hd <;> exact hh

/-- The durable expected inbound number. -/
def durable (s : Session) : ℕ := (s.store.getD {}).nextInbound

/-- A close has ended the session. -/
def Torn (s : Session) : Prop := s.lifecycle ≠ .opened ∧ s.down = true

theorem store_nextInbound {st st' : MessageStore} {seq : ℕ} (h : st.store seq bytes = .ok st') :
    st'.nextInbound = st.nextInbound := by
  unfold MessageStore.store at h
  split at h
  · cases h
  split at h
  · cases h
  cases h
  rfl

/-- Until a close, nothing moves the inbound counters but the handler. -/
theorem steady_counters (R : ℕ → ℕ → Prop) :
    Steady fun s => Torn s ∨ R (durable s) s.seqnums.nextInbound := by
  intro s s' hd h
  cases hd with
  | disconnected => exact h.imp_left fun ht => ⟨ht.1, rfl⟩
  | loggedOut hc => exact h.imp_left fun ht => ⟨ht.1, rfl⟩
  | closing ho => exact h.imp_left fun ht => absurd ho ht.1
  | tornDown stored hc hdown => exact .inl ⟨by show s.lifecycle ≠ _; rw [hc]; exact nofun, hdown⟩
  | drained hc hdown => exact .inl ⟨nofun, hdown⟩
  | stored seq bytes st hst =>
    refine h.imp_right fun hR => ?_
    show R st.nextInbound s.seqnums.nextInbound
    rw [store_nextInbound hst]
    exact hR
  | _ => exact h

variable {μ : Type}

/-- `P` survives whatever happens where a handler waits, and whatever the handler does
to send one of the replies in `sends`. -/
structure Ambient (M : Monitor Event μ) (sends : Reply → Prop) (P : μ → Session → Prop) :
    Prop where
  disconnected : ∀ m s, P m s → M.allows m (.transition .disconnected) ∧
    P (M.next m (.transition .disconnected)) { s with fsm := .disconnected }
  loggedOut : ∀ m s, P m s → s.lifecycle = .closing → s.fsm ≠ .notConnected →
    s.fsm ≠ .logonSent → M.allows m (.transition .logoutSent) ∧
      P (M.next m (.transition .logoutSent)) { s with fsm := .logoutSent }
  closing : ∀ m s, P m s → s.lifecycle = .opened → P m { s with lifecycle := .closing }
  tornDown : ∀ m s stored, P m s → s.lifecycle = .closing → s.down = true →
    M.allows m (.inboundReset seqnumMin) ∧
      P (M.next m (.inboundReset seqnumMin)) (tornDown s stored)
  drained : ∀ m s, P m s → s.lifecycle = .closing → s.down = true →
    P m { s with lifecycle := .closedDrained }
  stopped : ∀ m s, P m s → P m { s with engineStopRequested := true }
  testRequested : ∀ m s id, P m s → P m { s with pendingTestReqId := id }
  numbered : ∀ m s next, P m s → P m { s with seqnums := s.seqnums.setNextOutbound next }
  stored : ∀ m s seq bytes st, P m s → (s.store.getD {}).store seq bytes = .ok st →
    P m { s with store := some st }
  sent : ∀ m s r, P m s → sends r → M.allows m (.sent r) ∧ P (M.next m (.sent r)) s
  observed : ∀ m s, P m s → M.allows m (.observed s) ∧ P (M.next m (.observed s)) s

def Reply.asks : Reply → Bool
  | .resendRequest _ _ _ => true
  | _ => false

/-- What survives every reply survives those that ask for no resend. -/
theorem Ambient.unasking {M : Monitor Event μ} {P : μ → Session → Prop}
    (h : Ambient M (fun _ => True) P) : Ambient M (fun r => Reply.asks r = false) P :=
  { h with sent := fun m s r hP _ => h.sent m s r hP trivial }

theorem Ambient.and_steady {M : Monitor Event μ} {sends : Reply → Prop} {P : μ → Session → Prop}
    (h : Ambient M sends P) (hB : Steady B) :
    Ambient M sends fun m s => P m s ∧ B s where
  disconnected m s hP :=
    ⟨(h.disconnected m s hP.1).1, (h.disconnected m s hP.1).2, hB s _ .disconnected hP.2⟩
  loggedOut m s hP hc hn hl :=
    ⟨(h.loggedOut m s hP.1 hc hn hl).1, (h.loggedOut m s hP.1 hc hn hl).2,
      hB s _ (.loggedOut hc hn hl) hP.2⟩
  closing m s hP ho := ⟨h.closing m s hP.1 ho, hB s _ (.closing ho) hP.2⟩
  tornDown m s stored hP hc hdown :=
    ⟨(h.tornDown m s stored hP.1 hc hdown).1, (h.tornDown m s stored hP.1 hc hdown).2,
      hB s _ (.tornDown stored hc hdown) hP.2⟩
  drained m s hP hc hdown := ⟨h.drained m s hP.1 hc hdown, hB s _ (.drained hc hdown) hP.2⟩
  stopped m s hP := ⟨h.stopped m s hP.1, hB s _ .stopped hP.2⟩
  testRequested m s id hP := ⟨h.testRequested m s id hP.1, hB s _ (.testRequested id) hP.2⟩
  numbered m s next hP := ⟨h.numbered m s next hP.1, hB s _ (.numbered next) hP.2⟩
  stored m s seq bytes st hP hst :=
    ⟨h.stored m s seq bytes st hP.1 hst, hB s _ (.stored seq bytes st hst) hP.2⟩
  sent m s r hP hr := ⟨(h.sent m s r hP.1 hr).1, (h.sent m s r hP.1 hr).2, hP.2⟩
  observed m s hP := ⟨(h.observed m s hP.1).1, (h.observed m s hP.1).2, hP.2⟩

namespace Ambient

variable {M : Monitor Event μ} {sends : Reply → Prop} {P : μ → Session → Prop} {α β : Type}

variable {next : Handler Outcome}

theorem onOk (r : Outcome) (hnext : Maintains M P next) : Maintains M P (onOk r next) := by
  cases r with
  | ok _ => exact hnext
  | error e => exact .pure _

theorem onlyIf (c : Bool) {x : Handler Outcome} (hx : Maintains M P x) :
    Maintains M P (onlyIf c x) :=
  hx.ite (.pure _)

variable (h : Ambient M sends P) (cfg : SessionConfig)

theorem fireToAdmin : Maintains M P (fireToAdmin cfg) :=
  (Maintains.ask fun _ => .pure _).ite (.pure _)

variable (arm : Option FsmState) (p : LeafPolicy) (seq : ℕ)

theorem refuseStale : Maintains M P (refuseStale seq) :=
  .get fun _ => (Maintains.pure _).ite (.pure _)

theorem storeCall_done {answer : StoreOutcome} {st : MessageStore} {seq : ℕ}
    (h : storeCall answer st seq bytes = .done) : ∃ st', st.store seq bytes = .ok st' := by
  unfold storeCall at h
  split at h
  · cases h
  next hne =>
  cases hstore : st.store seq bytes with
  | ok st' => exact ⟨st', rfl⟩
  | error e => exact absurd hstore (hne e h)

theorem replayOf (slot : Slot) : Maintains M P (replayOf cfg slot) := by
  cases slot with
  | absent | unreadable => exact .pure _
  | stored frame =>
    refine .ite (.bind ?_ fun stamp => ?_)
      (.pure _)
    · exact (Maintains.ask fun _ => .pure _).ite (.pure _)
    · cases buildReplayFrame cfg.hooks frame stamp <;> exact .pure _

/-- The replies an answer to a ResendRequest is made of are sent. -/
def AnswersResends (sends : Reply → Prop) : Prop :=
  (∀ a b, sends (.gapFill a b)) ∧ ∀ fields, sends (.replay fields)

/-! ## Other coroutines -/

include h

theorem recordDisconnected : Maintains M P (recordStateTransition .disconnected) :=
  .act h.disconnected

theorem perform (a : EnvAct) : Maintains M P a.perform := by
  cases a with
  | disconnect => exact h.recordDisconnected
  | beginClose =>
    refine Maintains.modify fun m s hP => ?_
    by_cases hopen : s.lifecycle = .opened
    · rw [if_pos hopen]
      exact h.closing m s hP hopen
    · rwa [if_neg hopen]
  | logoutSent =>
    exact Maintains.getAct fun m s hP hc => h.loggedOut m s hP hc.1 hc.2.1 hc.2.2
  | teardownReset stored =>
    exact Maintains.getAct fun m s hP hc => h.tornDown m s stored hP hc.1 hc.2
  | drain =>
    refine Maintains.modify fun m s hP => ?_
    by_cases hc : s.lifecycle = .closing ∧ s.down = true
    · rw [if_pos hc]
      exact h.drained m s hP hc.1 hc.2
    · rwa [if_neg hc]
  | engineStop => exact Maintains.modify h.stopped
  | testRequest id =>
    refine Maintains.modify fun m s hP => ?_
    by_cases hactive : s.fsm = .active
    · rw [if_pos hactive]
      exact h.testRequested m s id hP
    · rwa [if_neg hactive]
  | outbound next => exact Maintains.modify fun m s hP => h.numbered m s next hP
  | observe =>
    exact Triple.get fun s => .actAt fun m hP => h.observed m s hP

theorem meanwhile (acts : List EnvAct) : Maintains M P (meanwhile acts) := by
  induction acts with
  | nil => exact .pure ()
  | cons a rest ih => exact (h.perform a).bind fun _ => ih

theorem wait : Maintains M P suspend :=
  .ask fun a => (h.meanwhile a.meanwhile).bind fun _ => .pure a

theorem suspend {f : Answer → Handler β} (hf : ∀ a, Maintains M P (f a)) :
    Maintains M P (suspend >>= f) :=
  h.wait.bind hf

/-! ## Ends -/

theorem disconnectUnlessSuperseded : Maintains M P (disconnectUnlessSuperseded arm) :=
  .get fun _ => (Maintains.pure ()).ite
    (h.recordDisconnected.ite (.pure ()))

theorem disconnectWith (r : Outcome) : Maintains M P (disconnectWith r) :=
  h.recordDisconnected.bind fun _ => .pure r

theorem teardownReset : Maintains M P (teardownReset cfg) :=
  .get fun _ => (h.suspend fun _ => h.meanwhile _).ite (.pure ())

theorem close : Maintains M P (close cfg) := by
  refine .get fun s => ?_
  cases s.lifecycle with
  | closedDrained => exact .pure ()
  | closing => exact h.suspend fun _ => h.meanwhile _
  | opened =>
    refine (h.meanwhile _).bind fun _ => (h.disconnectUnlessSuperseded none).bind fun _ => ?_
    exact h.suspend fun _ => (h.teardownReset cfg).bind fun _ => h.suspend fun _ => h.meanwhile _

theorem closeOnLateParseFailure : Maintains M P (closeOnLateParseFailure cfg) :=
  (h.close cfg).bind fun _ => .pure _

theorem closeOnThrow : Maintains M P (closeOnThrow cfg) := (h.close cfg).bind fun _ => .pure _

/-! ## Storing and sending -/

theorem assignOutbound : Maintains M P assignOutbound := by
  refine .get fun s => (Maintains.pure _).ite ?_
  cases s.seqnums.assignOutbound with
  | error e => exact .pure _
  | ok r =>
    refine .bind ?_ fun _ => .pure _
    exact .modify fun m s hP => h.numbered m s _ hP

theorem transmit (hsends : sends reply) : Maintains M P (transmit reply) :=
  h.suspend fun _ => ((Maintains.act fun m s hP => h.sent m s reply hP hsends).bind
    fun _ => .pure _).ite (.pure _)

theorem reconcileOutbound : Maintains M P reconcileOutbound := by
  refine h.suspend fun a => .get fun s => ?_
  split
  · exact .modify fun m s hP => h.numbered m s _ hP
  · exact .pure _

theorem takenBack (m : μ) (s : Session) (seq : ℕ) (hP : P m s) :
    P m { s with seqnums := s.seqnums.takeBackOutbound seq } := by
  unfold SeqnumManager.takeBackOutbound
  split
  · exact h.numbered m s seq hP
  · exact hP

theorem storeStep (bytes : Bytes) (arm : Option FsmState) :
    Maintains M P (storeStep cfg seq bytes arm) := by
  refine Maintains.get fun s => (Maintains.pure _).ite ?_
  refine h.suspend fun a => Triple.get fun s' => ?_
  have hforget : ∀ {x : Handler StoreStep}, Maintains M P x →
      Triple M (fun m s'' => s'' = s' ∧ P m s'') x (fun _ => P) P :=
    fun hx => hx.pre fun _ _ hP => hP.2
  cases hcall : storeCall a.store (s'.store.getD {}) seq bytes with
  | cancelled =>
    refine hforget ?_
    refine (Maintains.modify fun m s hP => h.takenBack m s seq hP).bind fun _ => ?_
    exact (h.disconnectUnlessSuperseded arm).bind fun _ => Maintains.throw _
  | failed e =>
    exact hforget ((h.reconcileOutbound.bind fun _ => Maintains.pure _).ite
      (refuseStale seq))
  | threw => exact hforget (refuseStale seq)
  | done =>
    obtain ⟨st, hst⟩ := storeCall_done hcall
    refine Triple.bind (Q := fun _ => P) (Triple.modify ?_) fun _ => refuseStale seq
    rintro m s'' ⟨rfl, hP⟩
    rw [hst]
    exact h.stored m s'' seq bytes st hP hst

theorem conclude (r : Refused) (arm : Option FsmState) (e : Error) :
    Maintains M P (r.conclude arm e) := by
  cases r with
  | ignored => exact .pure _
  | disconnects =>
    exact (h.disconnectUnlessSuperseded arm).bind fun _ => .pure _
  | disconnectsQuietly =>
    exact (h.disconnectUnlessSuperseded arm).bind fun _ => .pure _

theorem afterToAdmin (hnext : Maintains M P next) : Maintains M P (afterToAdmin cfg next) :=
  (fireToAdmin cfg).bind fun _ => hnext.ite (h.disconnectWith _)

theorem afterAssign (hnext : Maintains M P next) : Maintains M P (afterAssign p next) := by
  refine h.assignOutbound.bind fun assigned => ?_
  cases assigned with
  | ok _ => exact hnext
  | error e => exact h.conclude _ _ _

theorem emitStep (bytes : Bytes) (hsends : sends reply) :
    Maintains M P (emitStep cfg p seq bytes reply) := by
  refine .bind ((h.storeStep cfg seq bytes p.arm).bind fun step => ?_) fun r => ?_
  · cases step with
    | stop e => exact .pure _
    | proceed =>
      exact .get fun _ => (Maintains.pure _).ite (h.transmit hsends)
  · cases r with
    | ok _ => exact .pure _
    | error e => exact h.conclude _ _ _

theorem emitLeaf {reply : ℕ → Reply} (hsends : ∀ seq, sends (reply seq)) :
    Maintains M P (emitLeaf cfg p reply) := by
  refine .get fun s => .ask fun a =>
    .ite ?_ (.ite ?_ ?_)
  · cases p.buildRefused with
    | none => exact .pure _
    | some e => exact h.disconnectWith _
  · exact h.afterToAdmin cfg (h.afterAssign p (h.emitStep cfg p _ _ (hsends _)))
  · exact h.afterAssign p (h.afterToAdmin cfg (h.emitStep cfg p _ _ (hsends _)))

theorem inboundBusinessRejectLeaf (refSeq : ℕ) (refMsgType : Bytes)
    (hsends : sends (.businessReject refSeq refMsgType)) :
    Maintains M P (inboundBusinessRejectLeaf cfg refSeq refMsgType) := by
  refine Maintains.get fun s => Maintains.ask fun a => ?_
  have hemit : Maintains M P (Model.afterAssign { emitRefused := .disconnects }
      (Model.emitStep cfg { emitRefused := .disconnects } s.seqnums.nextOutbound a.bytes
        (.businessReject refSeq refMsgType))) :=
    h.afterAssign _ (h.emitStep cfg _ _ _ hsends)
  refine (Maintains.pure _).ite (Maintains.ite ?_ hemit)
  cases a.callback with
  | accepted => exact hemit
  | threw => exact h.closeOnThrow cfg
  | rejected => exact Maintains.pure _
  | parseFailed => exact hemit

/-! ## Resends -/

theorem emitGapfill {atSeq newSeqNo : ℕ} (hsends : sends (.gapFill atSeq newSeqNo)) :
    Maintains M P (emitGapfill cfg arm atSeq newSeqNo) := by
  refine .get fun s => (Maintains.pure _).ite
    (.ask fun a => (Maintains.pure _).ite ?_)
  refine (fireToAdmin cfg).bind fun passed => (Maintains.pure _).ite ?_
  refine (h.transmit hsends).bind fun r => ?_
  cases r <;> exact .pure _

theorem retrieveSlot (k : ℕ) : Maintains M P (retrieveSlot k) := by
  refine h.suspend fun a => .get fun s => ?_
  cases a.store with
  | cancelled | threw => exact .throw _
  | failed e => exact (Maintains.pure _).ite (.pure _)
  | done =>
    cases s.store.bind (MessageStore.retrieve · k) with
    | none => exact Maintains.pure _
    | some frame => exact (Maintains.pure _).ite (Maintains.pure _)

section

variable (hsends : AnswersResends sends)
include hsends

theorem closeGap (cfg : SessionConfig) (arm : Option FsmState)
    (gap : Option ℕ) (k : ℕ) {next : Handler ReplayResult} (hnext : Maintains M P next) :
    Maintains M P (closeGap cfg arm gap k next) := by
  cases gap with
  | none => exact hnext
  | some start =>
    refine (h.emitGapfill cfg arm (hsends.1 start k)).bind fun g => ?_
    match g with
    | .ok .completed => exact hnext
    | .ok .superseded => exact .pure _
    | .error e => exact .pure _

theorem replayWalk (cfg : SessionConfig) (arm : Option FsmState)
    (count k : ℕ) (gap : Option ℕ) : Maintains M P (replayWalk cfg arm count k gap) := by
  induction count generalizing k gap with
  | zero => exact h.closeGap hsends cfg arm gap k (.pure _)
  | succ count ih =>
    refine (h.retrieveSlot k).bind fun slot => ?_
    cases slot with
    | unreadable e => exact .pure _
    | _ =>
      refine (replayOf cfg _).bind fun replay => .get fun s => ?_
      cases replay with
      | skip => exact ih _ _
      | unbuildable => exact (Maintains.pure _).ite (ih _ _)
      | frame fields =>
        refine h.closeGap hsends cfg arm gap k
          (.get fun s => (Maintains.pure _).ite ?_)
        refine (h.transmit (hsends.2 fields)).bind fun r => ?_
        cases r with
        | error e => exact .pure _
        | ok _ => exact ih _ _

theorem replayOutboundRange (cfg : SessionConfig)
    (beginSeq requestedEnd : ℕ) (throughCurrent : Bool) (arm : Option FsmState) :
    Maintains M P (replayOutboundRange cfg beginSeq requestedEnd throughCurrent arm) := by
  refine .bind
    (.get fun s => (Maintains.pure _).ite ?_) fun last => ?_
  · refine h.suspend fun a => .get fun s => ?_
    cases a.store with
    | done | failed => exact .pure _
    | cancelled | threw => exact .throw _
  cases last with
  | error e => exact .pure _
  | ok ourLast =>
    exact .get fun s => (h.emitGapfill cfg arm (hsends.1 _ _)).ite
      (h.replayWalk hsends cfg arm _ _ _)

end

end Ambient

end Fixpp.Analysis
