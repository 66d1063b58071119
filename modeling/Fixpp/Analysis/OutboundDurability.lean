import Fixpp.Analysis.OutboundOrder

/-!
# Durable before transmit

With a persistent store a frame reaches the transport only after the store has taken it under
its number. Each emission is in one queue at a time, and its store call ends once. The frame
stored is the frame sent, but for the Password of a Logon.
-/

namespace Fixpp.Analysis.OutboundDurability

open Foundation List
open Model
open OutboundSteps
open OutboundOrder

variable {events : List OutEvent} {e : Emission} {a : OutStep} {cfg : SessionConfig} {s : Session}

/-- The emission's story ends: its store call was refused or its frame was handed
to the transport. -/
def Ends (id : ℕ) : OutEvent → Prop
  | .storeRefused id' => id' = id
  | .handed id' _ _ => id' = id
  | _ => False

/-- What has to be in the log before an event: a frame that is handed over was
stored, and an emission ends once. -/
def durableFirst (hooks : DictHooks) : Monitor OutEvent (List OutEvent) :=
  Monitor.historic fun past e =>
    match e with
    | .handed id seq frame =>
      (skipsStore hooks frame = false → .stored id seq (storedImage hooks frame) ∈ past) ∧
        ∀ x ∈ past, ¬ Ends id x
    | .storeRefused id => ∀ x ∈ past, ¬ Ends id x
    | _ => True

/-- The emissions that can still reach the transport. -/
def pending (o : Outlet) : List Emission := o.calls ++ o.gate

/-- The pending emissions are distinct and have not ended, and those at the gate
are stored. -/
structure Ahead (hooks : DictHooks) (past : List OutEvent) (o : Outlet) : Prop where
  distinct : (pending o).Pairwise fun e e' => e.id ≠ e'.id
  known : ∀ e ∈ pending o, e.id < o.nextId
  endedKnown : ∀ x ∈ past, ∀ id, Ends id x → id < o.nextId
  unended : ∀ e ∈ pending o, ∀ x ∈ past, ¬ Ends e.id x
  stored : ∀ e ∈ o.gate, skipsStore hooks e.frame = false →
    .stored e.id e.seq (storedImage hooks e.frame) ∈ past
  store : o.session.store ≠ none

variable {hooks : DictHooks} {past : List OutEvent} {o o' : Outlet}

theorem Ahead.move (h : Ahead hooks past o) (hfewer : (pending o').Subperm (pending o))
    (hid : o'.nextId = o.nextId) (hnone : ∀ x ∈ events, ∀ id, ¬ Ends id x)
    (hgate : ∀ e ∈ o'.gate, e ∈ o.gate ∨
      .stored e.id e.seq (storedImage hooks e.frame) ∈ events) (hstore : o'.session.store ≠ none) :
    Ahead hooks (past ++ events) o' where
  distinct := by
    obtain ⟨l, hperm, hsub⟩ := hfewer
    exact (hperm.pairwise_iff fun hne => .symm hne).mp (h.distinct.sublist hsub)
  known e he := hid ▸ h.known e (hfewer.subset he)
  endedKnown x hx id hends := by
    rcases mem_append.mp hx with hold | hnew
    · exact hid ▸ h.endedKnown x hold id hends
    · exact absurd hends (hnone x hnew id)
  unended e he x hx := by
    rcases mem_append.mp hx with hold | hnew
    · exact h.unended e (hfewer.subset he) x hold
    · exact hnone x hnew e.id
  stored e he hskip := by
    rcases hgate e he with hold | hnew
    · exact mem_append_left _ (h.stored e hold hskip)
    · exact mem_append_right _ hnew
  store := hstore

theorem Ahead.finish {x : OutEvent} (h : Ahead hooks past o)
    (hperm : (e :: pending o').Perm (pending o)) (hid : o'.nextId = o.nextId)
    (hends : ∀ id, Ends id x → id = e.id) (hgate : ∀ c ∈ o'.gate, c ∈ o.gate)
    (hstore : o'.session.store = o.session.store) : Ahead hooks (past ++ [x]) o' := by
  have hdistinct : (e :: pending o').Pairwise fun c c' => c.id ≠ c'.id :=
    (hperm.pairwise_iff fun hne => .symm hne).mpr h.distinct
  have hmem : ∀ {c}, c ∈ pending o' → c ∈ pending o := fun hc =>
    hperm.subset (mem_cons_of_mem e hc)
  refine ⟨(pairwise_cons.mp hdistinct).2, ?_, ?_, ?_, ?_, hstore ▸ h.store⟩
  · exact fun c hc => hid ▸ h.known c (hmem hc)
  · intro y hy id hyends
    rw [hid]
    rcases mem_append.mp hy with hold | hnew
    · exact h.endedKnown y hold id hyends
    rw [mem_singleton.mp hnew] at hyends
    rw [hends id hyends]
    exact h.known e (hperm.subset (by simp))
  · intro c hc y hy hyends
    rcases mem_append.mp hy with hold | hnew
    · exact h.unended c (hmem hc) y hold hyends
    rw [mem_singleton.mp hnew] at hyends
    exact (pairwise_cons.mp hdistinct).1 c hc (hends c.id hyends).symm
  · intro c hc hskip
    exact mem_append_left _ (h.stored c (hgate c hc) hskip)

theorem Ahead.begin (h : Ahead hooks past o) (hbegun : Begun o a e)
    (hmore : (pending o').Subperm (e :: pending o)) (hid : o'.nextId = o.nextId + 1)
    (hgate : ∀ c ∈ o'.gate, c ∈ o.gate ∨ skipsStore hooks c.frame = true)
    (hstore : o'.session.store = o.session.store) : Ahead hooks past o' := by
  have hdistinct : (e :: pending o).Pairwise fun c c' => c.id ≠ c'.id := by
    refine pairwise_cons.mpr ⟨fun c hc => ?_, h.distinct⟩
    have hlt := h.known c hc
    have heq := hbegun.id
    omega
  have hmem : ∀ {c}, c ∈ pending o' → c = e ∨ c ∈ pending o := fun hc =>
    mem_cons.mp (hmore.subset hc)
  refine ⟨?_, ?_, ?_, ?_, ?_, hstore ▸ h.store⟩
  · obtain ⟨l, hperm, hsub⟩ := hmore
    exact (hperm.pairwise_iff fun hne => .symm hne).mp (hdistinct.sublist hsub)
  · intro c hc
    rw [hid]
    rcases hmem hc with rfl | hold
    · rw [hbegun.id]
      exact Nat.lt_succ_self _
    · exact Nat.lt_succ_of_lt (h.known c hold)
  · exact fun x hx id hends => hid ▸ Nat.lt_succ_of_lt (h.endedKnown x hx id hends)
  · intro c hc x hx hends
    rcases hmem hc with rfl | hold
    · have hlt := h.endedKnown x hx c.id hends
      rw [hbegun.id] at hlt
      exact Nat.lt_irrefl _ hlt
    · exact h.unended c hold x hx hends
  · intro c hc hskip
    rcases hgate c hc with hold | hskips
    · exact h.stored c hold hskip
    rw [hskips] at hskip
    cases hskip

theorem pending_refuseStale (o : Outlet) (e : Emission) :
    (pending (o.refuseStale e)).Subperm (e :: pending o) ∧
      ∀ c ∈ (o.refuseStale e).gate, c ∈ o.gate ∨ c = e := by
  rcases refuseStale_cases o e with heq | ⟨-, heq⟩ <;> rw [heq]
  · exact ⟨(sublist_cons_self e _).subperm, fun c hc => .inl hc⟩
  refine ⟨?_, fun c hc => by simpa using hc⟩
  have hperm : (pending o ++ [e]).Perm (e :: pending o) := perm_append_singleton e _
  simpa [pending, append_assoc] using hperm.subperm

theorem ahead_of_effect (hpers : cfg.storeIsPersistent = true) (hthrew : a ≠ .storeReturns .threw)
    (h : Ahead cfg.hooks past o) (heff : Effect cfg o a events o') :
    (durableFirst cfg.hooks).Accepts past events ∧ Ahead cfg.hooks (past ++ events) o' := by
  cases heff with
  | called e hbegun hstore hskip =>
    rw [append_nil]
    refine ⟨trivial, h.begin hbegun ?_ rfl (fun c hc => .inl hc) rfl⟩
    exact ((perm_append_singleton e o.calls).append_right _).subperm
  | uncalled e hbegun hskip =>
    have hskips := hskip.resolve_left h.store
    have hgate := onlyGate_requestGate (numbered o e) e
    rw [append_nil]
    refine ⟨trivial, h.begin hbegun ?_ hgate.nextId ?_ (by rw [hgate.session]; rfl)⟩
    · rcases requestGate_cases (numbered o e) e with heq | heq <;> rw [heq]
      · exact (sublist_cons_self e _).subperm
      have hperm : (pending o ++ [e]).Perm (e :: pending o) := perm_append_singleton e _
      simpa [pending, numbered, Outlet.setNext, append_assoc] using hperm.subperm
    intro c hc
    rcases requestGate_cases (numbered o e) e with heq | heq <;> rw [heq] at hc
    · exact .inl hc
    rcases mem_append.mp hc with hold | hnew
    · exact .inl hold
    · exact .inr (mem_singleton.mp hnew ▸ hskips)
  | cancelled pre post e hcalls =>
    refine ⟨⟨h.unended e (by simp [pending, hcalls]), trivial⟩, ?_⟩
    refine h.finish ?_ rfl (fun id hid => .symm hid) (fun c hc => hc) rfl
    have hperm : (e :: (pre ++ post)).Perm o.calls := hcalls ▸ perm_middle.symm
    exact hperm.append_right _
  | refused e rest hcalls _ =>
    refine ⟨⟨h.unended e (by simp [pending, hcalls]), trivial⟩, ?_⟩
    refine h.finish ?_ rfl (fun id hid => .symm hid) (fun c hc => hc) rfl
    simp [pending, hcalls]
  | absorbed e rest hcalls hthrown events hevents => exact absurd (hthrown hpers) hthrew
  | stored e rest st st' hcalls hstore htook =>
    have hgate := onlyGate_refuseStale
      { o with calls := rest, session := { o.session with store := some st' } } e
    obtain ⟨hfewer, hgates⟩ := pending_refuseStale
      { o with calls := rest, session := { o.session with store := some st' } } e
    refine ⟨⟨trivial, trivial⟩, h.move ?_ hgate.nextId (by simp [Ends]) ?_ ?_⟩
    · simpa [pending, hcalls] using hfewer
    · intro c hc
      rcases hgates c hc with hold | rfl
      · exact .inl hold
      · exact .inr (by simp)
    · rw [hgate.session]
      simp
  | handed e rest hgate hopen =>
    have hin : e ∈ o.gate := by simp [hgate]
    refine ⟨⟨⟨h.stored e hin, h.unended e (by simp [pending, hin])⟩, trivial⟩, ?_⟩
    refine h.finish ?_ rfl (fun id hid => .symm hid) (fun c hc => by simp [hgate, hc]) rfl
    rw [pending, pending, hgate]
    exact perm_middle.symm
  | left later hlater =>
    exact ⟨trivial, h.move (hlater.append_left _).subperm rfl (by simp)
      (fun c hc => .inl (hlater.subset hc)) h.store⟩
  | logonReset | teardownReset =>
    refine ⟨⟨trivial, trivial⟩, h.move (.refl _) rfl (by simp [Ends])
      (fun c hc => .inl hc) ?_⟩
    simpa [Outlet.resetTo] using h.store
  | _ =>
    exact ⟨trivial, h.move (.refl _) rfl (by simp) (fun c hc => .inl hc) h.store⟩

theorem ahead_opening (hstore : s.store ≠ none) : Ahead hooks [] { session := s } where
  distinct := .nil
  known _ he := by cases he
  endedKnown _ hx := by cases hx
  unended _ he := by cases he
  stored _ he := by cases he
  store := hstore

theorem durableFirst_run {steps : List OutStep} (hpers : cfg.storeIsPersistent = true)
    (hstore : s.store ≠ none) (houtcomes : ∀ a ∈ steps, a ≠ .storeReturns .threw) :
    (durableFirst cfg.hooks).Accepts [] (Outlet.run cfg { session := s } steps).2 := by
  have hstep : ∀ past o a, (Orderly o ∧ Ahead cfg.hooks past o) → a ≠ .storeReturns .threw →
      (durableFirst cfg.hooks).Accepts past (o.step cfg a).2 ∧
        (Orderly (o.step cfg a).1 ∧ Ahead cfg.hooks
          ((durableFirst cfg.hooks).run past (o.step cfg a).2) (o.step cfg a).1) := by
    rintro past o a ⟨hord, hahead⟩ hthrew
    have heff := effect_step cfg hord a
    obtain ⟨hacc, hahead'⟩ := ahead_of_effect hpers hthrew hahead heff
    refine ⟨hacc, heff.orderly hord, ?_⟩
    rw [durableFirst, Monitor.run_historic]
    exact hahead'
  exact (accepts_runSteps _ hstep steps [] _ ⟨orderly_opening s, ahead_opening hstore⟩
    houtcomes).1

/-- The bytes of a frame, but with the Password values of a Logon masked. -/
structure StoredCopy (hooks : DictHooks) (frame bytes : Bytes) : Prop where
  length : bytes.length = frame.length
  differs : ∀ k, bytes[k]? ≠ frame[k]? →
    (scanFrameHeader hooks frame).msgType = ascii "A" ∧ InPassword hooks frame k
  masked : (scanFrameHeader hooks frame).msgType = ascii "A" →
    ∀ k, InPassword hooks frame k → ∀ b, bytes[k]? = some b → b = 42

theorem storedCopy_storedImage (hooks : DictHooks) (frame : Bytes) :
    StoredCopy hooks frame (storedImage hooks frame) := by
  unfold storedImage
  by_cases hpass : carriesPassword hooks frame = true
  · rw [if_pos hpass]
    have hlogon : (scanFrameHeader hooks frame).msgType = ascii "A" := by
      simp only [carriesPassword, Bool.and_eq_true, decide_eq_true_eq] at hpass
      exact hpass.2
    refine ⟨length_maskTag554 hooks frame, fun k hk => ⟨hlogon, ?_⟩, fun _ k hin b hb => ?_⟩
    · by_contra hout
      exact hk (getElem?_maskTag554_out hout)
    rw [getElem?_maskTag554_in hin] at hb
    obtain ⟨c, -, hc⟩ := Option.map_eq_some_iff.mp hb
    exact hc.symm
  · rw [if_neg hpass]
    refine ⟨rfl, fun k hk => absurd rfl hk, fun hlogon k hin => absurd ?_ hpass⟩
    obtain ⟨v, hv, -⟩ := hin
    have hgenuine : tag554Values hooks frame ≠ [] := ne_nil_of_mem hv
    simp [carriesPassword, frameHasGenuineTag554, hlogon, hgenuine]

/-- With a persistent store a frame that is handed to the transport was stored before, by its own
store call and under its own number, and a frame whose store call failed or was cancelled is never
handed over. -/
theorem stored_before_handed (cfg : SessionConfig) (s : Session) (steps : List OutStep)
    (hpers : cfg.storeIsPersistent = true) (hstore : s.store ≠ none)
    (houtcomes : ∀ a ∈ steps, a ≠ .storeReturns .threw) :
    (∀ (first rest : List OutEvent) (id seq : ℕ) (frame : Bytes),
      (Outlet.run cfg { session := s } steps).2 = first ++ .handed id seq frame :: rest →
      skipsStore cfg.hooks frame = false →
      ∃ bytes, OutEvent.stored id seq bytes ∈ first ∧ StoredCopy cfg.hooks frame bytes) ∧
    (∀ (id seq : ℕ) (frame : Bytes),
      OutEvent.storeRefused id ∈ (Outlet.run cfg { session := s } steps).2 →
      OutEvent.handed id seq frame ∉ (Outlet.run cfg { session := s } steps).2) := by
  have hacc := durableFirst_run hpers hstore houtcomes
  refine ⟨fun first rest id seq frame hlog hskip => ?_, fun id seq frame hrefused hhanded => ?_⟩
  · rw [hlog] at hacc
    obtain ⟨hstored, -⟩ := Monitor.allows_of_historic hacc
    exact ⟨_, hstored hskip, storedCopy_storedImage cfg.hooks frame⟩
  rcases Monitor.allowed_later_of_historic hacc hrefused hhanded (by simp) with
    ⟨past, hpast, -, hunended⟩ | ⟨past, hpast, hunended⟩
  · exact hunended _ hpast rfl
  · exact hunended _ hpast rfl

/-- The second Heartbeat's store call fails while both are in flight: the first is
stored and handed over, the second is not. -/
def refusedHeartbeatRun : List OutStep :=
  [sendHeartbeat, sendHeartbeat, .storeReturns .done, .storeReturns (.failed .storeIoFailure),
    .gateOpens, .gateOpens]

theorem stored_before_handed_heartbeats :
    let log := (Outlet.run { storeIsPersistent := true } { session := sendsFive }
      refusedHeartbeatRun).2
    log = [.stored 0 5 (heartbeat "5"), .storeRefused 1, .handed 0 5 (heartbeat "5")] ∧
      (∃ bytes, OutEvent.stored 0 5 bytes ∈ [.stored 0 5 (heartbeat "5"), .storeRefused 1] ∧
        StoredCopy (fun _ => 0) (heartbeat "5") bytes) ∧
      OutEvent.handed 1 6 (heartbeat "6") ∉ log := by
  have houtcomes : ∀ a ∈ refusedHeartbeatRun, a ≠ .storeReturns .threw := by
    simp [refusedHeartbeatRun, sendHeartbeat]
  obtain ⟨hstored, hrefused⟩ := stored_before_handed { storeIsPersistent := true } sendsFive
    refusedHeartbeatRun rfl (by decide) houtcomes
  refine ⟨by decide, ?_, ?_⟩
  · exact hstored [.stored 0 5 (heartbeat "5"), .storeRefused 1] [] 0 5 (heartbeat "5")
      (by decide) (by decide)
  · exact hrefused 1 6 (heartbeat "6") (by decide)

end Fixpp.Analysis.OutboundDurability
