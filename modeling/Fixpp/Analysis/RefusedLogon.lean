import Fixpp.Analysis.InboundDelivery

/-!
# What a refused Logon leaves in the store

Each Logon arm records the state it accepts the Logon in: LogonReceived for the acceptor, Active
for the initiator. Until then the store may only have grown by the session's own replies.
-/

namespace Fixpp.Analysis.RefusedLogon

open Foundation Model InboundDelivery GapRecovery

variable {seq : ℕ} {m : Bool} {s₀ : Session}

/-- The store grew by replies, under the numbers that were next; nothing else changed. -/
def Kept (before after : MessageStore) : Prop :=
  ∃ replies : List (ℕ × Bytes), after.frames = before.frames ++ replies ∧
      replies.map Prod.fst = List.range' before.nextOutbound replies.length ∧
      after.nextOutbound = before.nextOutbound + replies.length ∧
      after.nextInbound = before.nextInbound

theorem Kept.refl (st : MessageStore) : Kept st st := ⟨[], by simp⟩

theorem Kept.stored {before after after' : MessageStore} {bytes : Bytes} (h : Kept before after)
    (hst : after.store seq bytes = .ok after') : Kept before after' := by
  obtain ⟨replies, hframes, hnumbers, hout, hin⟩ := h
  unfold MessageStore.store at hst
  by_cases hseq : seq = after.nextOutbound
  · by_cases hmax : seq = seqnumMax
    · rw [if_neg (not_not.mpr hseq), if_pos hmax] at hst
      cases hst
    rw [if_neg (not_not.mpr hseq), if_neg hmax] at hst
    cases hst
    refine ⟨replies ++ [(seq, bytes)], ?_, ?_, ?_, hin⟩
    · simp [hframes]
    · simp [hnumbers, List.range'_concat, hseq, hout]
    simp [hseq, hout]
    omega
  · rw [if_pos hseq] at hst
    cases hst

/-- Nothing but replies, unless a close has made its teardown reset. -/
def Untouched (before : MessageStore) (s : Session) : Prop :=
  s.teardownResetDone = true ∨ Kept before (s.store.getD {})

theorem steady_untouched (before : MessageStore) : Steady (Untouched before) := by
  intro s s' hd h
  cases hd with
  | tornDown stored => exact .inl rfl
  | stored seq bytes st hst => exact h.imp_right fun hkept => hkept.stored hst
  | _ => exact h

/-- An observer that remembers whether the Logon was accepted. -/
def acceptance (st : FsmState) : Monitor Event Bool where
  next accepted e := accepted || decide (e = .transition st)
  allows _ _ := True

/-- `A` holds, unless the Logon was accepted. -/
def OrAccepted (A : Session → Prop) (accepted : Bool) (s : Session) : Prop :=
  accepted = true ∨ A s

section Places

variable {st entered : FsmState} {before : MessageStore} {A B : Session → Prop}

theorem OrAccepted.next {accepted : Bool} {s s' : Session} (h : OrAccepted A accepted s) (e : Event)
    (hA : A s → B s') : OrAccepted B ((acceptance st).next accepted e) s' := by
  refine h.imp (fun hacc => ?_) hA
  simp [acceptance, hacc]

theorem ambient_orAccepted (hA : Steady A) :
    Ambient (acceptance st) (fun _ => True) (OrAccepted A) where
  disconnected _ s h := ⟨trivial, h.next _ (hA s _ .disconnected)⟩
  loggedOut _ s h hc hn hl := ⟨trivial, h.next _ (hA s _ (.loggedOut hc hn hl))⟩
  closing _ s h ho := h.imp_right (hA s _ (.closing ho))
  tornDown _ s stored h hc hdown := ⟨trivial, h.next _ (hA s _ (.tornDown stored hc hdown))⟩
  drained _ s h hc hdown := h.imp_right (hA s _ (.drained hc hdown))
  stopped _ s h := h.imp_right (hA s _ .stopped)
  testRequested _ s id h := h.imp_right (hA s _ (.testRequested id))
  numbered _ s next h := h.imp_right (hA s _ (.numbered next))
  stored _ s seq bytes st' h hst := h.imp_right (hA s _ (.stored seq bytes st' hst))
  sent _ _ _ h _ := ⟨trivial, h.next _ id⟩
  observed _ _ h := ⟨trivial, h.next _ id⟩

def pending (before : MessageStore) (B : Session → Prop) (accepted : Bool) (s : Session) : Prop :=
  OrAccepted (Untouched before) accepted s ∧ B s

def accepted (accepted : Bool) (s : Session) : Prop := OrAccepted (fun _ => False) accepted s ∧ True

theorem halt_orAccepted (hA : Steady A) (hsub : ∀ s, A s → Untouched before s) (hB : Steady B) :
    Halt (acceptance st) (OrAccepted (Untouched before))
      (Aborted (acceptance st) entered (OrAccepted (Untouched before)))
      (fun m s => OrAccepted A m s ∧ B s) :=
  { ((ambient_orAccepted hA).and_steady hB).unasking with
    ends := fun _ s h => h.1.imp_right (hsub s)
    aborts := fun m s h => aborted_of_ambient (ambient_orAccepted (steady_untouched before))
      entered m s (h.1.imp_right (hsub s)) }

theorem halt_pending (hB : Steady B) : Halt (acceptance st) (OrAccepted (Untouched before))
      (Aborted (acceptance st) entered (OrAccepted (Untouched before))) (pending before B) :=
  halt_orAccepted (steady_untouched before) (fun _ h => h) hB

theorem halt_accepted : Halt (acceptance st) (OrAccepted (Untouched before))
      (Aborted (acceptance st) entered (OrAccepted (Untouched before))) accepted :=
  halt_orAccepted (.const False) (fun _ h => h.elim) (.const True)

theorem accepted_next {s : Session} (h : accepted m s) (e : Event) (s' : Session) :
    accepted ((acceptance st).next m e) s' :=
  ⟨h.1.next e fun hfalse => hfalse.elim, trivial⟩

theorem accepted_here (m : Bool) (s : Session) :
    accepted ((acceptance st).next m (.transition st)) s :=
  ⟨.inl (by simp [acceptance]), trivial⟩

theorem accepted_same {s : Session} (h : accepted m s) (s' : Session) : accepted m s' :=
  ⟨h.1.imp_right fun hfalse => hfalse.elim, trivial⟩

end Places

/-! ## Refusals in front of the resets -/

variable (cfg : SessionConfig) (s : Session) (f : Frame) (answers : List Answer)

def Untimely : Prop :=
  cfg.clock = true ∧ (f.header.sendingTime = [] ∨ (answers.headD default).holds = false)

theorem not_untimely {cfg : SessionConfig} {f : Frame} {answers : List Answer}
    (h : MayBeTimely (fun given => given = answers) cfg f) : ¬ Untimely cfg f answers := by
  rintro ⟨hclock, huntimely⟩
  obtain ⟨hpresent, _, rfl, hholds⟩ := h hclock
  rcases huntimely with habsent | hnot
  · exact hpresent habsent
  rw [hnot] at hholds
  cases hholds

def NumberRefused (expected seq : ℕ) : Prop :=
  seq < expected ∨ (expected < seq ∧ cfg.enableNextExpectedMsgSeqNum = false) ∨
    (seq = expected ∧ expected = seqnumMax)

theorem not_refused_of_checkInbound {cfg : SessionConfig} {m m' : SeqnumManager}
    (h : m.checkInbound seq = .ok m') : ¬ NumberRefused cfg m.nextInbound seq := by
  have hseq := (SeqnumManager.checkInbound_ok h).1
  rintro (hlow | ⟨hhigh, -⟩ | ⟨-, hmax⟩)
  · omega
  · omega
  · simp [SeqnumManager.checkInbound, hseq, hmax] at h

/-- The answers behind hydration, which reads the store twice. -/
def behindHydration : List Answer :=
  if hydrates cfg (refreshActive cfg) s then answers.tail.tail else answers

/-- The acceptor refuses the Logon in front of the reset of `reset_on_logon`, or has
none. -/
def AcceptorSpares : Prop :=
  cfg.resetOnLogon = true → ¬ LogonReadable cfg f ∨ Untimely cfg f (behindHydration cfg s answers)

/-- The initiator refuses the answer in front of the reset its peer asks for, or is asked
for none. -/
def InitiatorSpares : Prop :=
  sentReset f = true → ¬ LogonReadable cfg f ∨ Untimely cfg f answers ∨
    NumberRefused cfg s.seqnums.nextInbound (parseSeqnum f.header.msgSeqNum) ∨
    versionRefusal cfg f ≠ none

/-! ## The arms -/

section Arms

variable {cfg : SessionConfig} {f : Frame} {before : MessageStore}

theorem steady_hydrated (b : Bool) : Steady fun s => s.hydrated = b := by
  intro s s' hd h
  cases hd <;> exact h

def acceptorPlaces (cfg : SessionConfig) (s₀ : Session) (before : MessageStore) :
    AcceptorPlaces Bool where
  start := pending before fun s => s.hydrated = s₀.hydrated
  seen _ := pending before fun _ => True
  hydrated := pending before fun _ => True
  timely := pending before fun _ => cfg.resetOnLogon = false
  resetting := accepted
  ready := pending before fun _ => True
  taken _ := pending before fun _ => True
  authorized _ := pending before fun _ => True
  received _ := accepted
  unit _ := accepted
  answered _ := accepted
  active _ := accepted

theorem acceptorOutline {answers : List Answer} (hspares : AcceptorSpares cfg s₀ f answers) :
    AcceptorOutline (acceptance .logonReceived) cfg f (fun given => given = answers)
      (fun given => given = behindHydration cfg s₀ answers) (OrAccepted (Untouched before))
      (Aborted (acceptance .logonReceived) .notConnected (OrAccepted (Untouched before)))
      (acceptorPlaces cfg s₀ before) where
  start := halt_pending (steady_hydrated _)
  answers _ s given h hgiven := by
    have hsame : hydrates cfg (refreshActive cfg) s = hydrates cfg (refreshActive cfg) s₀ := by
      simp [hydrates, h.2]
    rw [hsame, hgiven]
    rfl
  kept _ _ h _ := ⟨h.1.1, trivial⟩
  read _ _ h := ⟨h.1, trivial⟩
  seen _ := (halt_pending (.const _)).stage _
  seeded _ _ _ _ _ h := ⟨trivial, h.1.next _ id, trivial⟩
  hydrated := (halt_pending (.const _)).stage _
  checked hreadable htimely _ _ h := by
    refine ⟨h.1, Bool.eq_false_iff.mpr fun hknob => ?_⟩
    rcases hspares hknob with hnot | huntimely
    · exact hnot hreadable
    · exact not_untimely htimely huntimely
  timely := (halt_pending (.const _)).stage _
  knob hknob _ _ h := absurd hknob (by simp [h.2])
  resetting := halt_accepted.stage _
  knobStored _ _ h := ⟨h.1.imp_right False.elim, trivial⟩
  unreset _ _ _ h := ⟨h.1, trivial⟩
  ready := (halt_pending (.const _)).stage _
  takeUp _ _ _ h _ := ⟨trivial, h.1.1.next _ id, trivial⟩
  tolerated _ _ _ h _ := h.1
  taken _ := (halt_pending (.const _)).stage _
  consumed _ _ _ h := h
  unguarded _ _ _ _ h := h
  guarded _ _ _ _ _ h _ _ := h
  authorized _ := (halt_pending (.const _)).stage _
  recorded _ m s _ := ⟨trivial, accepted_here m _⟩
  received _ := halt_accepted.stage _
  unitManager _ _ _ _ _ h := ⟨trivial, accepted_next h _ _⟩
  unit _ := halt_accepted.stage _
  unitStored _ _ _ h := accepted_same h _
  unitVolatile _ _ _ _ h := h
  noUnit _ _ _ _ h := h
  answered _ := halt_accepted
  activated _ _ _ h := ⟨trivial, accepted_next h.1 _ _⟩
  active _ := halt_accepted
  persisted _ _ _ _ h := h.1.imp_right False.elim

def initiatorPlaces (cfg : SessionConfig) (f : Frame) (s₀ : Session) (before : MessageStore) :
    InitiatorPlaces Bool where
  start := pending before fun s => Torn s ∨ s.seqnums.nextInbound = s₀.seqnums.nextInbound
  timely := pending before fun s =>
    (Torn s ∨ s.seqnums.nextInbound = s₀.seqnums.nextInbound) ∧ (sentReset f = true →
        NumberRefused cfg s₀.seqnums.nextInbound (parseSeqnum f.header.msgSeqNum) ∨
          versionRefusal cfg f ≠ none)
  taken _ := pending before fun _ => sentReset f = true → versionRefusal cfg f ≠ none
  versioned _ := pending before fun _ => sentReset f = false
  unit _ := accepted
  confirmed _ := pending before fun _ => True
  authorized _ := pending before fun _ => True
  active _ := accepted

theorem steady_inbound (n : ℕ) : Steady fun s => Torn s ∨ s.seqnums.nextInbound = n :=
  steady_counters fun _ live => live = n

theorem inbound_of_proceeding {s : Session} {n : ℕ} (hgo : s.logonArmSuperseded .logonSent = false)
    (h : Torn s ∨ s.seqnums.nextInbound = n) : s.seqnums.nextInbound = n := by
  obtain ⟨-, hdown⟩ | hn := h
  · simp only [Session.logonArmSuperseded, Bool.or_eq_false_iff, decide_eq_false_iff_not,
      not_not] at hgo
    simp [Session.down, hgo.2] at hdown
  · exact hn

theorem initiatorOutline {answers : List Answer} (hspares : InitiatorSpares cfg s₀ f answers) :
    InitiatorOutline (acceptance .active) cfg f (fun given => given = answers) (fun _ => True)
      (OrAccepted (Untouched before))
      (Aborted (acceptance .active) .logonSent (OrAccepted (Untouched before)))
      (initiatorPlaces cfg f s₀ before) where
  start := halt_pending (steady_inbound _)
  answers _ _ := trivial
  checked hreadable htimely _ _ h := by
    refine ⟨h.1, h.2, fun hreset => ?_⟩
    rcases hspares hreset with hnot | huntimely | hlater
    · exact absurd hreadable hnot
    · exact absurd huntimely (not_untimely htimely)
    · exact hlater
  timely := (halt_pending ((steady_inbound _).and (.const _))).stage _
  takeUp _ s counters h hcheck := by
    obtain ⟨⟨hpending, hlive, hspared⟩, hgo⟩ := h
    refine ⟨trivial, hpending.next _ id, fun hreset => (hspared hreset).resolve_left ?_⟩
    rw [← inbound_of_proceeding hgo hlive]
    exact not_refused_of_checkInbound hcheck
  tolerated henabled _ s h hhigh := by
    obtain ⟨⟨hpending, hlive, hspared⟩, hgo⟩ := h
    refine ⟨hpending, fun hreset => (hspared hreset).resolve_left ?_⟩
    rw [← inbound_of_proceeding hgo hlive]
    rintro (hlow | ⟨-, hoff⟩ | ⟨heq, -⟩)
    · omega
    · rw [henabled] at hoff
      cases hoff
    · omega
  taken _ := (halt_pending (.const _)).stage _
  passed hversion _ _ _ h := ⟨h.1, Bool.eq_false_iff.mpr fun hreset => h.2 hreset hversion⟩
  versioned _ := (halt_pending (.const _)).stage _
  flagged _ _ _ h := h
  unitManager hreset _ _ _ _ h := absurd hreset (by simp [h.2])
  between _ := ((ambient_orAccepted (.const False)).and_steady (.const True)).unasking
  unit _ _ := halt_accepted.stage _
  unitStored _ _ _ _ h := ⟨h.1.imp_right False.elim, trivial⟩
  unitVolatile _ _ _ _ h := ⟨h.1.imp_right False.elim, trivial⟩
  noUnit _ _ _ _ h := ⟨h.1, trivial⟩
  confirmed _ := (halt_pending (.const _)).stage _
  consumed _ _ _ h := h
  unguarded _ _ _ _ h := h
  guarded _ _ _ _ _ h _ _ := h
  authorized _ := halt_pending (.const _)
  activated _ m _ _ := ⟨trivial, accepted_here m _⟩
  active _ := halt_accepted
  persisted _ _ _ _ h := h.1.imp_right False.elim

end Arms

/-! ## Refused Logons -/

theorem mem_of_accepted {st : FsmState} {events : List Event} (hm : m = false)
    (h : (acceptance st).run m events = true) : Event.transition st ∈ events := by
  induction events generalizing m with
  | nil =>
    rw [Monitor.run_nil, hm] at h
    cases h
  | cons e rest ih =>
    by_cases he : e = .transition st
    · exact he ▸ List.mem_cons_self ..
    refine List.mem_cons_of_mem _ (ih ?_ h)
    simp [acceptance, hm, he]

def acceptingState (s : Session) : FsmState :=
  if s.fsm = .notConnected then .logonReceived else .active

/-- The session waits for a Logon, and no reset comes in front of the refusal. -/
def Spares (cfg : SessionConfig) (s : Session) (f : Frame) (answers : List Answer) : Prop :=
  (s.fsm = .notConnected ∧ AcceptorSpares cfg s f answers) ∨
    (s.fsm = .logonSent ∧ InitiatorSpares cfg s f answers)

/-- A Logon that is not accepted leaves the store as it was but for the replies, as long as no reset
comes in front of the refusal and no close makes its teardown reset. -/
theorem refused_logon_keeps_store (cfg : SessionConfig) (s : Session) (f : Frame)
    (answers : List Answer) (hspares : Spares cfg s f answers)
    (hrefused : Event.transition (acceptingState s) ∉
      (step cfg s { input := .frame f, answers := answers }).2)
    (hclose : (step cfg s { input := .frame f, answers := answers }).1.teardownResetDone = false) :
    Kept (s.store.getD {})
      ((step cfg s { input := .frame f, answers := answers }).1.store.getD {}) := by
  have hframe : EndsIn (acceptance (acceptingState s)) (fun given => given = answers)
      (fun m s' => OrAccepted (Untouched (s.store.getD {})) m s' ∧ s' = s)
      (OrAccepted (Untouched (s.store.getD {}))) (OrAccepted (Untouched (s.store.getD {})))
      (onInboundFrame cfg f) := by
    refine ends_frame_of_arms (ambient_orAccepted (steady_untouched _)) (fun hup => ?_)
      (fun hfsm => ?_) fun hfsm => ?_
    · obtain ⟨hfsm, -⟩ | ⟨hfsm, -⟩ := hspares <;> simp [Session.up, hfsm] at hup
    · obtain ⟨-, hacceptor⟩ | ⟨hsent, -⟩ := hspares
      · have hstate : acceptingState s = .logonReceived := if_pos hfsm
        rw [hstate]
        refine Traced.Spec.pre (acceptorOutline hacceptor).onInboundNotConnected ?_
        rintro m w ⟨⟨h, hw⟩, hΦ⟩
        exact ⟨⟨h, by rw [hw]⟩, hΦ⟩
      · cases hfsm.symm.trans hsent
    obtain ⟨hnot, -⟩ | ⟨-, hinitiator⟩ := hspares
    · cases hfsm.symm.trans hnot
    have hstate : acceptingState s = .active := if_neg (by simp [hfsm])
    rw [hstate]
    refine Traced.Spec.pre (initiatorOutline hinitiator).onInboundLogonSent ?_
    rintro m w ⟨⟨h, hw⟩, hΦ⟩
    exact ⟨⟨h, .inr (by rw [hw])⟩, hΦ⟩
  have hstep := EndsIn.step (t := { input := .frame f, answers := answers }) (m := false) hframe
    ⟨.inr (.inr (Kept.refl _)), rfl⟩ rfl
  obtain hacc | htorn | hkept := hstep.2
  · exact absurd (mem_of_accepted rfl hacc) hrefused
  · rw [hclose] at htorn
    cases htorn
  · exact hkept

/-- A mutual-TLS session that waits for the Logon of `ACME`, with a stored frame. -/
def guardedStore : Session :=
  { livePeerId := some { subjectDn := ascii "CN=EVE" }
    store := some { frames := [(1, [1])], nextInbound := 5, nextOutbound := 2
                    inbound_pos := InboundDelivery.five_pos } }

def acmeOnly (resetOnLogon : Bool) : SessionConfig :=
  { mtls := true, storeIsPersistent := true, resetOnLogon := resetOnLogon
    compidAuthorizationPolicy := { bindings := [(ascii "ACME", ascii "PEER")] } }

/-- `EVE` asks for a reset and is refused. -/
theorem refused_logon_keeps_store_eve :
    (step (acmeOnly false) guardedStore (frameStep (peerLogon "34=1" ++ ["141=Y"]))).1.fsm =
        .disconnected ∧
      Kept (guardedStore.store.getD {})
        ((step (acmeOnly false) guardedStore
          (frameStep (peerLogon "34=1" ++ ["141=Y"]))).1.store.getD {}) :=
  ⟨by decide +kernel, refused_logon_keeps_store (acmeOnly false) guardedStore
    { bytes := fieldsOf (peerLogon "34=1" ++ ["141=Y"]) } [] (.inl ⟨rfl, nofun⟩)
    (by decide +kernel) (by decide +kernel)⟩

/-- With `reset_on_logon` the same peer, though refused, has the store emptied; and so has,
with `reset_on_disconnect`, a Logon whose fields do not parse. -/
theorem refused_logon_empties_store : let emptied : Option MessageStore := some {}
    let closing : SessionConfig :=
      { validateInboundMessages := true, validator := true, resetOnDisconnect := true }
    let refused := step (acmeOnly true) guardedStore (frameStep (peerLogon "34=1"))
    let unparsed := step closing guardedStore
      { input := .frame { bytes := fieldsOf (peerLogon "34=1"), validation := .parseFailed } }
    (.transition .logonReceived ∉ refused.2 ∧ refused.1.store = emptied) ∧
      (.transition .logonReceived ∉ unparsed.2 ∧ unparsed.1.store = emptied) := by
  decide +kernel

end Fixpp.Analysis.RefusedLogon
