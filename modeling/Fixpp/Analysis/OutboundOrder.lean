import Fixpp.Analysis.OutboundSteps

/-!
# The order of the frames on the wire

The numbers handed to the transport rise between two resets of the counter. A persistent store
says so itself. Otherwise the last number handed over, the numbers at the gate and the numbers
in store calls that are behind the counter form one rising line below the counter.
-/

namespace Fixpp.Analysis.OutboundOrder

open Foundation List
open Model
open OutboundSteps Outlet

variable {last' : Option ℕ} {st st' : MessageStore}

def handedNumber : OutEvent → Option ℕ
  | .handed _ seq _ => some seq
  | _ => none

/-- The numbers handed over rise from one reset to the next. -/
def outboundOrder : Monitor OutEvent (Option ℕ) :=
  Monitor.rising handedNumber (· = .outboundReset)

variable {events : List OutEvent} {n : ℕ} {calls post rest pre : List Emission} {e : Emission}
    {last : Option ℕ} {o o' : Outlet} {a : OutStep} {cfg : SessionConfig}

theorem accepts_unnumbered (h : ∀ e ∈ events, handedNumber e = none) :
    ∀ last, outboundOrder.Accepts last events := by
  induction events with
  | nil => exact fun _ => trivial
  | cons e rest ih =>
    intro last
    refine ⟨?_, ih (fun x hx => h x (by simp [hx])) _⟩
    intro m n _ hn
    rw [h e (by simp)] at hn
    cases hn

attribute [local simp] handedNumber

/-! ## Stale calls -/

/-- The calls whose number is behind the counter `n`. -/
def live (n : ℕ) (calls : List Emission) : List Emission := calls.filter fun e => e.seq < n

/-- Every stale call is strictly above the counter or has a call of the driver
behind the counter after it in the queue. -/
def CoveredBy (n : ℕ) : List Emission → Prop
  | [] => True
  | e :: rest =>
    (n ≤ e.seq → n < e.seq ∨ ∃ d ∈ rest, d.emitter = .driver ∧ d.seq < n) ∧ CoveredBy n rest

theorem coveredBy_of_ne (h : ∀ e ∈ calls, e.seq ≠ n) : CoveredBy n calls := by
  induction calls with
  | nil => trivial
  | cons e rest ih =>
    refine ⟨fun hle => .inl ?_, ih fun x hx => h x (by simp [hx])⟩
    have hne := h e (by simp)
    omega

theorem coveredBy_append_driver {d : Emission} (hd : d.emitter = .driver) (hlt : d.seq < n)
    (calls : List Emission) : CoveredBy n (calls ++ [d]) := by
  induction calls with
  | nil => exact ⟨fun hle => absurd hle (by omega), trivial⟩
  | cons e rest ih => exact ⟨fun _ => .inr ⟨d, by simp, hd, hlt⟩, ih⟩

theorem CoveredBy.ne_of_idle (h : CoveredBy n calls) (hidle : ∀ e ∈ calls, e.emitter ≠ .driver) :
    ∀ e ∈ calls, e.seq ≠ n := by
  induction calls with
  | nil => simp
  | cons e rest ih =>
    intro x hx
    rcases mem_cons.mp hx with rfl | hrest
    · intro heq
      rcases h.1 (by omega) with hlt | ⟨d, hd, hdriver, -⟩
      · omega
      · exact hidle d (by simp [hd]) hdriver
    · exact ih h.2 (fun y hy => hidle y (by simp [hy])) x hrest

theorem CoveredBy.erase_stale (hstale : n ≤ e.seq) :
    ∀ {pre : List Emission}, CoveredBy n (pre ++ e :: post) → CoveredBy n (pre ++ post)
  | [], h => h.2
  | c :: pre, h => by
    refine ⟨fun hle => ?_, .erase_stale hstale h.2⟩
    rcases h.1 hle with hlt | ⟨d, hd, hdriver, hbehind⟩
    · exact .inl hlt
    have hne : d ≠ e := by
      rintro rfl
      omega
    refine .inr ⟨d, ?_, hdriver, hbehind⟩
    simpa [hne] using hd

/-! ## The line -/

/-- Nothing has taken the counter back: the session is `Active`, or a Logon is
exchanged and no close has begun its Logout. -/
def Unspoiled (o : Outlet) : Prop :=
  o.session.fsm = .active ∨ (o.loggingOn = true ∧ o.logoutBegun = false)

/-- The last number handed over, then those at the gate, then the live calls. -/
def line (last : Option ℕ) (o : Outlet) : List ℕ :=
  last.toList ++ (o.gate ++ live o.next o.calls).map Emission.seq

/-- What holds of a session whose store is not persistent, or that has none. -/
structure Lined (last : Option ℕ) (o : Outlet) : Prop where
  rising : (line last o).Pairwise (· < ·)
  below : ∀ n ∈ line last o, n < o.next
  covered : CoveredBy o.next o.calls
  fresh : Unspoiled o → ∀ e ∈ o.calls, e.seq < o.next
  unread : o.reconciling = []

theorem Lined.of_sublist (h : Lined last o) (hline : (line last' o').Sublist (line last o))
    (hnext : o'.next = o.next) (hcovered : CoveredBy o.next o'.calls)
    (hfresh : Unspoiled o' → ∀ e ∈ o'.calls, e.seq < o.next) (hunread : o'.reconciling = []) :
    Lined last' o' where
  rising := h.rising.sublist hline
  below n hn := hnext ▸ h.below n (hline.subset hn)
  covered := hnext ▸ hcovered
  fresh := hnext ▸ hfresh
  unread := hunread

/-! ## A new emission joins the end of the line -/

theorem unspoiled_of_begun (hbegun : Begun o a e) (hem : e.emitter ≠ .driver) : Unspoiled o := by
  have hmay := hbegun.may
  cases hcase : e.emitter with
  | sender =>
    simp only [mayBegin, hcase, Bool.and_eq_true, decide_eq_true_eq] at hmay
    exact .inl hmay.2
  | closer =>
    simp only [mayBegin, hcase, Bool.and_eq_true, Bool.or_eq_true, decide_eq_true_eq,
      Bool.not_eq_true'] at hmay
    rcases hmay.2 with hact | hrec
    · exact .inl hact
    · exact .inr ⟨by simp [loggingOn, hrec], hmay.1.2⟩
  | driver => exact absurd hcase hem

theorem idle_of_begun (hbegun : Begun o a e) (hem : e.emitter = .driver) :
    o.driverBusy = false := by
  have hmay := hbegun.may
  simp only [mayBegin, hem, Bool.and_eq_true, Bool.not_eq_true'] at hmay
  exact hmay.1

theorem Lined.ne_next (h : Lined last o) (hbegun : Begun o a e) :
    ∀ c ∈ o.calls, c.seq ≠ o.next := by
  intro c hc
  by_cases hem : e.emitter = .driver
  · refine h.covered.ne_of_idle (fun d hd => ?_) c hc
    exact not_driver_of_idle (idle_of_begun hbegun hem) (by simp [inFlight, hd])
  have hlt := h.fresh (unspoiled_of_begun hbegun hem) c hc
  omega

theorem live_append_next (hne : ∀ c ∈ calls, c.seq ≠ n) (he : e.seq = n) :
    live (n + 1) (calls ++ [e]) = live n calls ++ [e] := by
  have hsame : live (n + 1) calls = live n calls := by
    apply filter_congr
    intro c hc
    have := hne c hc
    simp only [decide_eq_decide]
    omega
  have hlast : live (n + 1) [e] = [e] := by simp [live, he]
  calc live (n + 1) (calls ++ [e]) = live (n + 1) calls ++ live (n + 1) [e] := filter_append ..
    _ = live n calls ++ [e] := by rw [hsame, hlast]

theorem rising_append {l : List ℕ} (hrise : l.Pairwise (· < ·)) (hbelow : ∀ m ∈ l, m < n) :
    (l ++ [n]).Pairwise (· < ·) ∧ ∀ m ∈ l ++ [n], m < n + 1 := by
  simp only [pairwise_append, pairwise_singleton, mem_append, mem_singleton]
  refine ⟨⟨hrise, trivial, fun m hm k hk => hk ▸ hbelow m hm⟩, fun m hm => ?_⟩
  rcases hm with hold | rfl
  · exact Nat.lt_succ_of_lt (hbelow m hold)
  · exact Nat.lt_succ_self m

theorem Lined.extend (h : Lined last o) (hnext : o'.next = o.next + 1)
    (hline : (line last o').Sublist (line last o ++ [o.next]))
    (hcovered : CoveredBy o'.next o'.calls)
    (hfresh : Unspoiled o' → ∀ e ∈ o'.calls, e.seq < o'.next) (hunread : o'.reconciling = []) :
    Lined last o' := by
  obtain ⟨hrise, hbelow⟩ := rising_append h.rising h.below
  refine ⟨hrise.sublist hline, fun n hn => ?_, hcovered, hfresh, hunread⟩
  rw [hnext]
  exact hbelow n (hline.subset hn)

theorem unspoiled_of_numbered (o o' : Outlet) (e : Emission)
    (hfsm : o'.session.fsm = o.session.fsm) (hout : o'.logoutBegun = (numbered o e).logoutBegun)
    (h : Unspoiled o') : Unspoiled o := by
  rcases h with hact | ⟨hlog, hnot⟩
  · exact .inl (hfsm ▸ hact)
  refine .inr ⟨by simpa [loggingOn, hfsm] using hlog, ?_⟩
  rw [hout] at hnot
  simp only [numbered, Bool.or_eq_false_iff] at hnot
  exact hnot.1

section

variable (h : Lined last o)
include h

theorem Lined.called (hbegun : Begun o a e) :
    Lined last { numbered o e with calls := o.calls ++ [e] } := by
  have hne := h.ne_next hbegun
  have hseq := hbegun.seq
  have hlt : (∀ c ∈ o.calls, c.seq < o.next) → ∀ c ∈ o.calls ++ [e], c.seq < o.next + 1 := by
    intro hold c hc
    rcases mem_append.mp hc with hin | hnew
    · exact Nat.lt_succ_of_lt (hold c hin)
    rw [mem_singleton.mp hnew, hseq]
    exact Nat.lt_succ_self _
  refine h.extend rfl ?_ ?_ ?_ h.unread
  · have hlive := live_append_next hne hseq
    have hline : line last { numbered o e with calls := o.calls ++ [e] } =
        line last o ++ [o.next] := by
      calc line last { numbered o e with calls := o.calls ++ [e] }
          = last.toList ++ (o.gate ++ live (o.next + 1) (o.calls ++ [e])).map Emission.seq := rfl
        _ = line last o ++ [o.next] := by
            rw [hlive]
            simp [line, hseq]
    rw [hline]
  · by_cases hem : e.emitter = .driver
    · exact coveredBy_append_driver hem (by rw [hseq]; exact Nat.lt_succ_self _) _
    refine coveredBy_of_ne fun c hc => Nat.ne_of_lt ?_
    exact hlt (h.fresh (unspoiled_of_begun hbegun hem)) c hc
  · intro huns
    exact hlt (h.fresh (unspoiled_of_numbered o
      { numbered o e with calls := o.calls ++ [e] } e rfl rfl huns))

theorem Lined.uncalled (hbegun : Begun o a e) (hcalls : o.calls = []) :
    Lined last ((numbered o e).requestGate e) := by
  have hgate := onlyGate_requestGate (numbered o e) e
  have hnext : ((numbered o e).requestGate e).next = o.next + 1 := by
    simp only [Outlet.next, hgate.session]
    rfl
  have hcalls' : ((numbered o e).requestGate e).calls = [] := hgate.calls.trans hcalls
  refine h.extend hnext ?_ (hcalls' ▸ trivial) (fun _ c hc => ?_) (hgate.reconciling.trans h.unread)
  · have hold : line last o = last.toList ++ o.gate.map Emission.seq := by
      simp [line, hcalls, live]
    rcases requestGate_cases (numbered o e) e with heq | heq
    · rw [hold, line, hcalls', heq]
      simp [live, numbered, setNext]
    rw [hold, line, hcalls', heq]
    simp [live, numbered, setNext, hbegun.seq]
  · rw [hcalls'] at hc
    cases hc

/-! ## Store calls that end -/

theorem Lined.behindCall (hcalls : o.calls = e :: rest)
    (hrest : o'.calls = rest) (hfsm : o'.session.fsm = o.session.fsm)
    (hout : o'.logoutBegun = o.logoutBegun) (hnext : o'.next = o.next)
    (hunread : o'.reconciling = o.reconciling)
    (hgate : o'.gate = o.gate ∨ (e.seq < o.next ∧ o'.gate = o.gate ++ [e])) : Lined last o' := by
  have hcov := h.covered
  rw [hcalls] at hcov
  refine h.of_sublist ?_ hnext (hrest ▸ hcov.2) ?_ (hunread.trans h.unread)
  · rw [line, line, hnext, hrest, hcalls]
    refine .append_left (.map _ ?_) _
    rcases hgate with hsame | ⟨hlt, hmore⟩
    · rw [hsame]
      exact .append_left ((sublist_cons_self e rest).filter _) _
    rw [hmore]
    simp [live, hlt]
  · intro huns c hc
    have huns' : Unspoiled o := by simpa [Unspoiled, loggingOn, hfsm, hout] using huns
    exact h.fresh huns' c (by rw [hcalls]; exact mem_cons_of_mem e (hrest ▸ hc))

theorem Lined.refuseStale (hcalls : o.calls = e :: rest) (store : Option MessageStore) :
    Lined last (refuseStale
      { o with calls := rest, session := { o.session with store := store } } e) := by
  rcases refuseStale_cases
    { o with calls := rest, session := { o.session with store := store } } e with heq | ⟨hlt, heq⟩
  · rw [heq]
    exact h.behindCall hcalls rfl rfl rfl rfl rfl (.inl rfl)
  rw [heq]
  exact h.behindCall hcalls rfl rfl rfl rfl rfl (.inr ⟨hlt, rfl⟩)

end

/-- A call of a session that is still unspoiled behind a cancelled one: the only
call in flight was the cancelled one. -/
theorem lone_of_unspoiled_takeBack (hord : Orderly o) (hcalls : o.calls = pre ++ e :: post)
    (huns : Unspoiled (Outlet.takeBack { o with calls := pre ++ post } e)) : pre ++ post = [] := by
  have hin : e ∈ o.inFlight := by simp [inFlight, hcalls]
  rcases huns with hact | ⟨hlog, hnot⟩
  · obtain ⟨hactive, hsup⟩ := active_takeBack hact
    have harm := hord.unarmed hactive e hin
    simp [Outlet.superseded, harm] at hsup
  obtain ⟨hlogging, -⟩ := loggingOn_takeBack hlog
  have hsolo : o.inFlight.length ≤ 1 := hord.solo hlogging hnot
  have hlen : (pre ++ post).length = 0 := by
    simp only [inFlight, hcalls, length_append, length_cons] at hsolo
    rw [length_append]
    omega
  exact length_eq_zero_iff.mp hlen

theorem Lined.live_split (h : Lined last o) (hcalls : o.calls = pre ++ e :: post)
    (hlive : e.seq < o.next) :
    (∀ n ∈ last.toList ++ o.gate.map Emission.seq, n < e.seq) ∧
      (∀ c ∈ pre ++ post, c.seq ≠ e.seq) := by
  have hrise := h.rising
  have hsplit : line last o = (last.toList ++ o.gate.map Emission.seq) ++
      ((live o.next pre).map Emission.seq ++ e.seq :: (live o.next post).map Emission.seq) := by
    simp [line, live, hcalls, hlive]
  rw [hsplit, pairwise_append] at hrise
  obtain ⟨-, hcallsRise, hcross⟩ := hrise
  rw [pairwise_append, pairwise_cons] at hcallsRise
  obtain ⟨-, ⟨hafter, -⟩, hbefore⟩ := hcallsRise
  refine ⟨fun n hn => hcross n hn e.seq (by simp), fun c hc heq => ?_⟩
  have hmem : ∀ {l : List Emission}, c ∈ l → c.seq ∈ (live o.next l).map Emission.seq := by
    intro l hl
    exact mem_map_of_mem (mem_filter.mpr ⟨hl, by simpa [heq] using hlive⟩)
  rcases mem_append.mp hc with hpre | hpost
  · have := hbefore c.seq (hmem hpre) e.seq (by simp)
    omega
  have := hafter c.seq (hmem hpost)
  omega

theorem Lined.takeBack (hord : Orderly o) (h : Lined last o) (hcalls : o.calls = pre ++ e :: post) :
    Lined last (Outlet.takeBack { o with calls := pre ++ post } e) := by
  have hsub : (pre ++ post).Sublist o.calls :=
    hcalls ▸ List.Sublist.append_left (sublist_cons_self e post) pre
  have hfresh : ∀ n, Unspoiled (.takeBack { o with calls := pre ++ post } e) →
      ∀ c ∈ pre ++ post, c.seq < n := by
    intro n huns c hc
    rw [lone_of_unspoiled_takeBack hord hcalls huns] at hc
    cases hc
  by_cases hlive : e.seq < o.next
  · obtain ⟨hbelow, hne⟩ := h.live_split hcalls hlive
    have hnext : (Outlet.takeBack { o with calls := pre ++ post } e).next = e.seq := by
      rw [next_takeBack]
      exact Nat.min_eq_right (Nat.le_of_lt hlive)
    have hshort : (line last (.takeBack { o with calls := pre ++ post } e)).Sublist
        (line last o) := by
      rw [line, hnext]
      refine .append_left (.map _ (.append_left ?_ _)) _
      have hmono : (live e.seq (pre ++ post)).Sublist (live o.next (pre ++ post)) :=
        monotone_filter_right _ fun c hc => by
          simp only [decide_eq_true_eq] at hc ⊢
          omega
      exact hmono.trans (hsub.filter _)
    refine ⟨h.rising.sublist hshort, ?_, ?_, ?_, h.unread⟩
    · intro n hn
      rw [hnext]
      rw [line, hnext, map_append, ← append_assoc] at hn
      rcases mem_append.mp hn with hfront | hcall
      · exact hbelow n hfront
      obtain ⟨c, hc, rfl⟩ := mem_map.mp hcall
      simpa using (mem_filter.mp hc).2
    · rw [hnext]
      exact coveredBy_of_ne hne
    · exact fun huns => hfresh _ huns
  · have hnext : (Outlet.takeBack { o with calls := pre ++ post } e).next = o.next := by
      rw [next_takeBack]
      exact Nat.min_eq_left (Nat.le_of_not_lt hlive)
    have hcov := h.covered
    rw [hcalls] at hcov
    refine h.of_sublist ?_ hnext (hcov.erase_stale (by omega)) (fun huns => hfresh _ huns) h.unread
    rw [line, hnext]
    exact .append_left (.map _
      (.append_left (hsub.filter _) _)) _

/-! ## Every step keeps the line -/

/-- Every frame the step can build is one that `store_then_emit` stores. -/
def Storable (hooks : DictHooks) : OutStep → Prop
  | .begin _ _ _ build => ∀ seq frame, build seq = some frame → skipsStore hooks frame = false
  | _ => True

theorem store_none_of_uncalled (hbegun : Begun o a e)
    (hstorable : o.session.store ≠ none → Storable cfg.hooks a)
    (hskip : o.session.store = none ∨ skipsStore cfg.hooks e.frame = true) :
    o.session.store = none := by
  rcases hskip with hnone | hskips
  · exact hnone
  by_contra hsome
  obtain ⟨build, rfl, hbuild⟩ := hbegun.built
  have hkept : skipsStore cfg.hooks e.frame = false := hstorable hsome _ _ hbuild
  rw [hskips] at hkept
  cases hkept

theorem unspoiled_recorded {st : FsmState} (hord : Orderly o) (hmay : o.mayRecord st = true)
    (huns : Unspoiled { o with session := { o.session with fsm := st } }) : Unspoiled o := by
  cases st with
  | notConnected => simp [mayRecord] at hmay
  | logonSent | logonReceived =>
    rcases huns with hact | ⟨-, hnot⟩
    · cases hact
    · exact .inr ⟨by simpa [mayRecord] using hmay, hnot⟩
  | logoutSent | disconnected => simp [Unspoiled, loggingOn] at huns
  | active =>
    simp only [mayRecord, Bool.and_eq_true, decide_eq_true_eq] at hmay
    refine .inr ⟨hmay.1.1.1, ?_⟩
    by_contra hbegan
    exact hord.closing (by simpa using hbegan) hmay.1.1.2

theorem lined_nothing (hnil : o.inFlight = []) : Lined none o := by
  obtain ⟨hcalls, hunread, hgate⟩ : o.calls = [] ∧ o.reconciling = [] ∧ o.gate = [] := by
    simpa [inFlight] using hnil
  have hline : line none o = [] := by simp [line, live, hcalls, hgate]
  refine ⟨hline ▸ List.Pairwise.nil, by simp [hline], hcalls ▸ trivial, by simp [hcalls], hunread⟩

theorem lined_of_effect (hpers : cfg.storeIsPersistent = false) (hord : Orderly o)
    (hstorable : o.session.store ≠ none → Storable cfg.hooks a) (hopen : o.shut = false)
    (h : Lined last o) (heff : Effect cfg o a events o') :
    outboundOrder.Accepts last events ∧ Lined (outboundOrder.run last events) o' := by
  cases heff with
  | still => exact ⟨trivial, h⟩
  | called e hbegun hstore hskip => exact ⟨trivial, h.called hbegun⟩
  | uncalled e hbegun hskip =>
    have hnone := store_none_of_uncalled hbegun hstorable hskip
    exact ⟨trivial, h.uncalled hbegun (hord.uncalled hnone)⟩
  | cancelled pre post e hcalls =>
    exact ⟨accepts_unnumbered (by simp) _, h.takeBack hord hcalls⟩
  | refused e rest hcalls hpersistent =>
    rw [hpers] at hpersistent
    cases hpersistent
  | absorbed e rest hcalls _ events hevents =>
    have hlined := h.refuseStale hcalls o.session.store
    rcases hevents with rfl | rfl
    · exact ⟨trivial, hlined⟩
    · exact ⟨accepts_unnumbered (by simp) _, hlined⟩
  | stored e rest st st' hcalls hstore htook =>
    exact ⟨accepts_unnumbered (by simp) _, h.refuseStale hcalls (some st')⟩
  | reads later hlater =>
    rw [h.unread] at hlater
    have hnil : later = [] := by simpa using hlater
    exact ⟨trivial, h.of_sublist (List.Sublist.refl _) rfl h.covered h.fresh hnil⟩
  | reconciled later durable hlater hsome => exact absurd h.unread hsome
  | handed e rest hgate hshut =>
    have hline : line last o = last.toList ++ line (some e.seq) { o with gate := rest } := by
      simp [line, hgate, Outlet.next]
    have hrise := h.rising
    rw [hline, pairwise_append] at hrise
    refine ⟨⟨?_, trivial⟩, ?_⟩
    · intro m n hm hn
      cases hn
      exact hrise.2.2 m (by simp [hm]) e.seq (by simp [line])
    · exact h.of_sublist (hline ▸ sublist_append_right _ _) rfl h.covered h.fresh h.unread
  | left later hlater =>
    refine ⟨trivial, h.of_sublist ?_ rfl h.covered h.fresh h.unread⟩
    exact List.Sublist.append_left (List.Sublist.map _ (hlater.append_right _)) _
  | recorded st hmay =>
    exact ⟨trivial, h.of_sublist (List.Sublist.refl _) rfl h.covered
      (fun huns => h.fresh (unspoiled_recorded hord hmay huns)) h.unread⟩
  | beganClose | stopped | shutDown =>
    exact ⟨trivial, h.of_sublist (List.Sublist.refl _) rfl h.covered h.fresh h.unread⟩
  | hydrated st hpersistent =>
    rw [hpers] at hpersistent
    cases hpersistent
  | logonReset next took hlog hidle hout =>
    refine ⟨accepts_unnumbered (by simp) _, lined_nothing ?_⟩
    exact hord.nothing_of_idle hlog hout hidle
  | teardownReset took hshut =>
    rw [hopen] at hshut
    cases hshut

/-! ## A persistent store -/

/-- The last number handed over and those at the gate, in order. -/
def gateLine (last : Option ℕ) (o : Outlet) : List ℕ := last.toList ++ o.gate.map Emission.seq

/-- What holds of a session with a persistent store: only numbers the store has
taken are at the gate. -/
structure Retained (last : Option ℕ) (o : Outlet) : Prop where
  rising : (gateLine last o).Pairwise (· < ·)
  below : ∃ st, o.session.store = some st ∧ ∀ n ∈ gateLine last o, n < st.nextOutbound

theorem Retained.of_sublist (h : Retained last o)
    (hline : (gateLine last' o').Sublist (gateLine last o))
    (hstore : o'.session.store = o.session.store) : Retained last' o' := by
  obtain ⟨st, hst, hbelow⟩ := h.below
  exact ⟨h.rising.sublist hline, st, hstore.trans hst, fun n hn => hbelow n (hline.subset hn)⟩

theorem retained_nothing (hgate : o.gate = []) (hst : o.session.store = some st) :
    Retained none o := by
  have hempty : gateLine none o = [] := by simp [gateLine, hgate]
  exact ⟨hempty ▸ List.Pairwise.nil, st, hst, by simp [hempty]⟩

theorem store_ok {seq : ℕ} {frame : Bytes} (h : st.store seq frame = .ok st') :
    seq = st.nextOutbound ∧ st'.nextOutbound = seq + 1 := by
  unfold MessageStore.store at h
  by_cases hseq : seq ≠ st.nextOutbound
  · rw [if_pos hseq] at h
    cases h
  rw [if_neg hseq] at h
  by_cases hmax : seq = seqnumMax
  · rw [if_pos hmax] at h
    cases h
  rw [if_neg hmax] at h
  cases h
  exact ⟨not_not.mp hseq, rfl⟩

theorem Retained.stored {bytes : Bytes} (h : Retained last o) (hstore : o.session.store = some st)
    (htook : st.store e.seq bytes = .ok st') :
    Retained last (refuseStale
      { o with calls := rest, session := { o.session with store := some st' } } e) := by
  obtain ⟨hseq, hnext⟩ := store_ok htook
  obtain ⟨st₀, hst₀, hbelow⟩ := h.below
  obtain rfl : st₀ = st := Option.some.inj (hst₀.symm.trans hstore)
  rw [← hseq] at hbelow
  obtain ⟨hrise, hall⟩ := rising_append h.rising hbelow
  rw [← hnext] at hall
  rcases refuseStale_cases
    { o with calls := rest, session := { o.session with store := some st' } } e with heq | ⟨-, heq⟩
  · rw [heq]
    exact ⟨h.rising, st', rfl, fun n hn => hall n (mem_append_left _ hn)⟩
  rw [heq]
  have hline : gateLine last { o with
      calls := rest, session := { o.session with store := some st' }, gate := o.gate ++ [e] } =
      gateLine last o ++ [e.seq] := by simp [gateLine]
  exact ⟨hline ▸ hrise, st', rfl, fun n hn => hall n (hline ▸ hn)⟩

theorem retained_of_effect (hpers : cfg.storeIsPersistent = true) (hord : Orderly o)
    (hstorable : o.session.store ≠ none → Storable cfg.hooks a) (hthrew : a ≠ .storeReturns .threw)
    (hopen : o.shut = false) (h : Retained last o) (heff : Effect cfg o a events o') :
    outboundOrder.Accepts last events ∧ Retained (outboundOrder.run last events) o' := by
  cases heff with
  | still => exact ⟨trivial, h⟩
  | called e hbegun hstore hskip =>
    exact ⟨trivial, h.of_sublist (.refl _) rfl⟩
  | uncalled e hbegun hskip =>
    have hnone := store_none_of_uncalled hbegun hstorable hskip
    obtain ⟨st, hst, -⟩ := h.below
    rw [hst] at hnone
    cases hnone
  | cancelled pre post e hcalls =>
    exact ⟨accepts_unnumbered (by simp) _, h.of_sublist (.refl _) rfl⟩
  | refused e rest hcalls hpersistent =>
    exact ⟨accepts_unnumbered (by simp) _, h.of_sublist (.refl _) rfl⟩
  | absorbed e rest hcalls hthrown events hevents => exact absurd (hthrown hpers) hthrew
  | stored e rest st st' hcalls hstore htook =>
    exact ⟨accepts_unnumbered (by simp) _, h.stored hstore htook⟩
  | handed e rest hgate hshut =>
    have hline : gateLine last o =
        last.toList ++ gateLine (some e.seq) { o with gate := rest } := by
      simp [gateLine, hgate]
    have hrise := h.rising
    rw [hline, pairwise_append] at hrise
    refine ⟨⟨?_, trivial⟩, h.of_sublist (hline ▸ sublist_append_right _ _) rfl⟩
    intro m n hm hn
    cases hn
    exact hrise.2.2 m (by simp [hm]) e.seq (by simp [gateLine])
  | left later hlater =>
    exact ⟨trivial, h.of_sublist (.append_left (hlater.map _) _) rfl⟩
  | reads | reconciled | recorded | beganClose | stopped | shutDown | hydrated =>
    exact ⟨trivial, h.of_sublist (.refl _) rfl⟩
  | logonReset next took hlog hidle hout =>
    have hnil := hord.nothing_of_idle hlog hout hidle
    have hgate : o.gate = [] := by simpa using (append_eq_nil_iff.mp hnil).2
    obtain ⟨st, hst, -⟩ := h.below
    have hreset : Retained none (o.resetTo next took) :=
      retained_nothing hgate (by simp only [resetTo, hst]; rfl)
    exact ⟨accepts_unnumbered (by simp) _, hreset⟩
  | teardownReset took hshut =>
    rw [hopen] at hshut
    cases hshut

/-! ## Whole runs -/

/-- What every state of a run keeps: while the transport is open the numbers are
in line, by the counter or by the store. -/
structure InOrder (cfg : SessionConfig) (hasStore : Bool) (last : Option ℕ) (o : Outlet) :
    Prop where
  orderly : Orderly o
  unstored : hasStore = false → o.session.store = none
  lined : o.shut = false → cfg.storeIsPersistent = false → Lined last o
  retained : o.shut = false → cfg.storeIsPersistent = true → Retained last o

theorem store_none_of_effect (heff : Effect cfg o a events o') (hord : Orderly o)
    (h : o.session.store = none) : o'.session.store = none := by
  have hcalls := hord.uncalled h
  cases heff with
  | uncalled e hbegun hskip =>
    rw [(onlyGate_requestGate (numbered o e) e).session]
    exact h
  | called e hbegun hstore hskip => exact absurd h hstore
  | absorbed e rest hcalls' | stored e rest st st' hcalls' =>
    rw [hcalls] at hcalls'
    cases hcalls'
  | logonReset | teardownReset => simp [resetTo, h]
  | _ => exact h

theorem shut_of_effect (heff : Effect cfg o a events o') (h : o.shut = true) :
    o'.shut = true ∧ ∀ e ∈ events, handedNumber e = none := by
  cases heff with
  | handed e rest hgate hopen =>
    rw [h] at hopen
    cases hopen
  | uncalled e hbegun hskip =>
    exact ⟨(onlyGate_requestGate (numbered o e) e).shut.trans h, by simp⟩
  | absorbed e rest hcalls hpers events hevents =>
    refine ⟨(onlyGate_refuseStale _ e).shut.trans h, ?_⟩
    rcases hevents with rfl | rfl <;> simp
  | stored e rest st st' hcalls hstore htook =>
    exact ⟨(onlyGate_refuseStale _ e).shut.trans h, by simp⟩
  | shutDown => exact ⟨by simp [h], by simp⟩
  | _ => exact ⟨h, by simp⟩

/-- The steps of a run the order is kept by. -/
def Admissible (cfg : SessionConfig) (hasStore : Bool) (a : OutStep) : Prop :=
  a ≠ .storeReturns .threw ∧ (hasStore = true → Storable cfg.hooks a)

theorem inOrder_step {hasStore : Bool} (h : InOrder cfg hasStore last o)
    (ha : Admissible cfg hasStore a) :
    outboundOrder.Accepts last (o.step cfg a).2 ∧
      InOrder cfg hasStore (outboundOrder.run last (o.step cfg a).2) (o.step cfg a).1 := by
  have heff := effect_step cfg h.orderly a
  have hstorable : o.session.store ≠ none → Storable cfg.hooks a := by
    intro hsome
    apply ha.2
    by_contra hnot
    exact hsome (h.unstored (by simpa using hnot))
  have hord := heff.orderly h.orderly
  have hnone : hasStore = false → (o.step cfg a).1.session.store = none := fun hno =>
    store_none_of_effect heff h.orderly (h.unstored hno)
  by_cases hshut : o.shut = true
  · obtain ⟨hshut', hnumbers⟩ := shut_of_effect heff hshut
    have hnot : (o.step cfg a).1.shut ≠ false := by simp [hshut']
    exact ⟨accepts_unnumbered hnumbers last, hord, hnone, fun hopen => absurd hopen hnot,
      fun hopen => absurd hopen hnot⟩
  have hopen : o.shut = false := by simpa using hshut
  cases hpers : cfg.storeIsPersistent with
  | false =>
    obtain ⟨hacc, hlined⟩ := lined_of_effect hpers h.orderly hstorable hopen (h.lined hopen hpers) heff
    exact ⟨hacc, hord, hnone, fun _ _ => hlined, fun _ hp => absurd hp (by simp [hpers])⟩
  | true =>
    obtain ⟨hacc, hret⟩ :=
      retained_of_effect hpers h.orderly hstorable ha.1 hopen (h.retained hopen hpers) heff
    exact ⟨hacc, hord, hnone, fun _ hp => absurd hp (by simp [hpers]), fun _ _ => hret⟩

theorem orderly_opening (s : Session) : Orderly { session := s } where
  solo _ _ := by simp [inFlight]
  driven _ _ := by simp [inFlight]
  owned := by simp [inFlight]
  unarmed _ := by simp [inFlight]
  closing h := by cases h
  uncalled _ := rfl

theorem inOrder_opening {s : Session} (hstore : cfg.storeIsPersistent = true → s.store ≠ none) :
    InOrder cfg s.store.isSome none { session := s } where
  orderly := orderly_opening s
  unstored h := by simpa using h
  lined _ _ := lined_nothing rfl
  retained _ hpers := by
    obtain ⟨st, hst⟩ := Option.ne_none_iff_exists'.mp (hstore hpers)
    exact retained_nothing rfl hst

/-- The original frames handed to the transport between two resets of the counter have strictly
increasing numbers, however sends, replies and the Logout of a close interleave, as long as every
frame begun on a session with a store is one that is stored. -/
theorem handed_numbers_increase (cfg : SessionConfig) (s : Session) (steps : List OutStep)
    (hstore : cfg.storeIsPersistent = true → s.store ≠ none)
    (houtcomes : ∀ a ∈ steps, a ≠ .storeReturns .threw)
    (hstorable : s.store ≠ none → ∀ a ∈ steps, Storable cfg.hooks a) :
    ∀ (first mid rest : List OutEvent) (id id' seq seq' : ℕ) (frame frame' : Bytes),
      (Outlet.run cfg { session := s } steps).2 =
        first ++ .handed id seq frame :: (mid ++ .handed id' seq' frame' :: rest) →
      OutEvent.outboundReset ∉ mid → seq < seq' := by
  intro first mid rest id id' seq seq' frame frame' hlog hreset
  have hsteps : ∀ a ∈ steps, Admissible cfg s.store.isSome a := by
    intro a ha
    refine ⟨houtcomes a ha, fun hsome => hstorable ?_ a ha⟩
    exact Option.isSome_iff_ne_none.mp hsome
  obtain ⟨hacc, -⟩ := accepts_runSteps outboundOrder (I := InOrder cfg s.store.isSome)
    (A := Admissible cfg s.store.isSome) (fun last o a h ha => inOrder_step h ha) steps none _
    (inOrder_opening hstore) hsteps
  have hacc' : outboundOrder.Accepts none (Outlet.run cfg { session := s } steps).2 := hacc
  rw [hlog] at hacc'
  refine Monitor.lt_of_rising hacc' rfl rfl fun x hx => ?_
  rcases mem_cons.mp hx with rfl | hmid
  · rfl
  simp only [decide_eq_false_iff_not]
  rintro rfl
  exact hreset hmid

def sendsFive : Session :=
  { fsm := .active, seqnums := { nextOutbound := 5 }, store := some { nextOutbound := 5 } }

def heartbeat (seq : String) : Bytes :=
  fieldsOf ["8=FIX.4.4", "9=10", "35=0", "34=" ++ seq, "10=000"]

def sendHeartbeat : OutStep :=
  .begin .sender none true fun seq => [(5, heartbeat "5"), (6, heartbeat "6")].lookup seq

theorem storable_sendHeartbeat : Storable (fun _ => 0) sendHeartbeat := by
  intro seq frame hbuild
  have hmem : (seq, frame) ∈ [(5, heartbeat "5"), (6, heartbeat "6")] := by
    obtain ⟨l, r, hsplit, -⟩ := lookup_eq_some_iff.mp hbuild
    rw [hsplit]
    simp
  have hall : ∀ p ∈ [(5, heartbeat "5"), (6, heartbeat "6")],
      skipsStore (fun _ => 0) p.2 = false := by decide
  exact hall (seq, frame) hmem

/-- Two Heartbeats that are in their store calls at the same time. -/
def heartbeatRun : List OutStep :=
  [sendHeartbeat, sendHeartbeat, .storeReturns .done, .storeReturns .done, .gateOpens, .gateOpens]

theorem handed_numbers_increase_heartbeats :
    (Outlet.run {} { session := sendsFive } heartbeatRun).2.filterMap handedNumber = [5, 6] ∧
      5 < 6 := by
  refine ⟨by decide, ?_⟩
  refine handed_numbers_increase {} sendsFive heartbeatRun (by decide) ?_ ?_
    [.stored 0 5 (heartbeat "5"), .stored 1 6 (heartbeat "6")] [] [] 0 1 5 6
    (heartbeat "5") (heartbeat "6") (by decide) (by simp)
  · simp [heartbeatRun, sendHeartbeat]
  intro _ a ha
  simp only [heartbeatRun, mem_cons, not_mem_nil, or_false] at ha
  rcases ha with rfl | rfl | rfl | rfl | rfl | rfl
  · exact storable_sendHeartbeat
  · exact storable_sendHeartbeat
  all_goals exact trivial

def sendPayload (payload : Bytes) : OutStep :=
  .begin .sender none true fun seq =>
    (buildSendFrame {} payload seq (ascii "20260101-00:00:00.000")).toOption

/-- An order, and a Logon payload with a Password that is too long to be masked. -/
def orderPayload : Bytes := fieldsOf ["35=D", "11=A1", "55=X"]
def longLogonPayload : Bytes :=
  fieldsOf ["35=A", "98=0", "108=30", "554=secret", "58=" ++ String.ofList (replicate 180 'x')]

/-- A Logon payload that is not stored goes to the transport at once and overtakes
the order that is still in its store call. -/
theorem unstored_logon_overtakes :
    let run := [sendPayload orderPayload, sendPayload longLogonPayload, .gateOpens,
      .storeReturns .done, .gateOpens]
    (Outlet.run {} { session := sendsFive } run).2.filterMap handedNumber = [6, 5] ∧
      .outboundReset ∉ (Outlet.run {} { session := sendsFive } run).2 := by
  -- the kernel is slow to build the long text as a string, and quick with its bytes
  have htext : ascii ("58=" ++ String.ofList (replicate 180 'x')) =
      ascii "58=" ++ replicate 180 120 := by
    rw [ascii, String.toList_append, map_append, @String.toList_ofList (replicate 180 _),
      map_replicate]
    rfl
  simp only [longLogonPayload, fieldsOf, flatMap_cons, htext]
  decide +kernel

end Fixpp.Analysis.OutboundOrder
