import Fixpp.Model.Liveness

/-!
# The cadence of an idle session

The loop sleeps no longer than to `inbound_deadline`, and its grace window ends one HeartBtInt
and a nanosecond behind it. `Timely` holds at every moment of an Active session, and the
bounds are read off it.
-/

namespace Fixpp.Analysis.LoopCadence

open Model Cadence

variable {cfg : CadenceConfig} {s : Cadence} {h : ℕ}
variable {inboundDeadline deadline : ℕ}

/-- How far the clock can be, with a HeartBtInt of `h`. -/
structure Timely (h : ℕ) (s : Cadence) : Prop where
  inbound : s.lastInbound ≤ s.now
  outbound : s.lastOutbound ≤ s.now
  sent : ∀ u ∈ s.lastSent, u = s.lastOutbound ∧ s.now ≤ u + h + 1
  main : ∀ inboundDeadline deadline, s.sleep = .main inboundDeadline deadline →
    s.pendingTestReq = false ∧ inboundDeadline ≤ s.lastInbound + h ∧ deadline ≤ inboundDeadline ∧
      deadline ≤ s.lastOutbound + h ∧ s.now ≤ inboundDeadline + 1
  grace : ∀ deadline, s.sleep = .grace deadline → s.now ≤ deadline ∧ deadline ≤ s.now + h + 1 ∧
    deadline ≤ s.lastInbound + 2 * h + 1 ∧ deadline ≤ s.lastOutbound + h + 1 ∧
      (s.pendingTestReq = false → deadline ≤ s.lastInbound + h + 1)

theorem Timely.now_le (hs : Timely h s) (hpending : s.pendingTestReq = false) :
    s.now ≤ s.lastInbound + h + 1 := by
  cases hsleep : s.sleep with
  | main => have := hs.main _ _ hsleep; omega
  | grace => have := hs.grace _ hsleep; grind

theorem Timely.deadline_le (hs : Timely h s) : s.deadline ≤ s.lastOutbound + h + 1 := by
  unfold deadline
  cases hsleep : s.sleep with
  | main => have := hs.main _ _ hsleep; dsimp only; omega
  | grace => exact (hs.grace _ hsleep).2.2.2.1

theorem Timely.toSleep (hin : s.lastInbound ≤ s.now) (hout : s.lastOutbound ≤ s.now)
    (hsent : ∀ u ∈ s.lastSent, u = s.lastOutbound ∧ s.now ≤ u + cfg.heartBtInt + 1)
    (hpending : s.pendingTestReq = false) (hidle : s.now ≤ s.lastInbound + cfg.heartBtInt + 1) :
    Timely cfg.heartBtInt (s.toSleep cfg) := by
  refine ⟨hin, hout, hsent, ?_, nofun⟩
  rintro inboundDeadline deadline ⟨⟩
  dsimp [Cadence.toSleep]
  refine ⟨hpending, Nat.le_refl _, ?_, ?_, by omega⟩ <;> split <;> omega

theorem Timely.transmit (hs : Timely h s) : Timely h s.transmit := by
  obtain ⟨hin, hout, hsent, hmain, hgrace⟩ := hs
  refine ⟨hin, Nat.le_refl _, ?_, ?_, ?_⟩
  · rintro u ⟨⟩
    exact ⟨rfl, by dsimp only [Cadence.transmit]; omega⟩
  · intro inboundDeadline deadline hsleep
    have := hmain _ _ hsleep
    grind [Cadence.transmit]
  intro deadline hsleep
  have := hgrace _ hsleep
  grind [Cadence.transmit]

theorem Timely.asked (hs : Timely h s) (hsleep : s.sleep = .main inboundDeadline deadline)
    (hidle : s.lastInbound + h ≤ s.now) :
    Timely h { s.transmit with
      pendingTestReq := true
      sleep := .grace (inboundDeadline + h + 1) } := by
  obtain ⟨-, hin, -, -, hnow⟩ := hs.main _ _ hsleep
  refine ⟨hs.inbound, Nat.le_refl _, hs.transmit.sent, nofun, ?_⟩
  rintro deadline ⟨⟩
  refine ⟨?_, ?_, ?_, ?_, nofun⟩ <;> dsimp only [Cadence.transmit] <;> omega

theorem Timely.afterSleep (hs : Timely cfg.heartBtInt s)
    (hsleep : s.sleep = .main inboundDeadline deadline) :
    Timely cfg.heartBtInt (s.afterSleep cfg inboundDeadline).1 := by
  unfold Cadence.afterSleep
  generalize hbeat : (if s.lastOutbound + cfg.heartBtInt ≤ s.now then
    (s.transmit, [Transmission.heartbeat]) else (s, [])) = beat
  have hkept : Timely cfg.heartBtInt beat.1 ∧ beat.1.sleep = s.sleep := by
    rw [← hbeat]
    split
    · exact ⟨hs.transmit, rfl⟩
    · exact ⟨hs, rfl⟩
  obtain ⟨hs, heq⟩ := hkept
  have hpending := (hs.main _ _ (heq.trans hsleep)).1
  dsimp only
  split
  · exact .toSleep hs.inbound hs.outbound hs.sent hpending (hs.now_le hpending)
  · exact hs.asked (heq.trans hsleep) (by omega)

theorem Timely.step (hs : Timely cfg.heartBtInt s) (a : CadenceAct)
    (hactive : (s.step cfg a).1.active = true) : Timely cfg.heartBtInt (s.step cfg a).1 := by
  cases a with
  | elapse d =>
    dsimp [Cadence.step]
    split
    next hle =>
      refine ⟨Nat.le_add_right_of_le hs.inbound, Nat.le_add_right_of_le hs.outbound, ?_, ?_, ?_⟩
      · intro u hu
        obtain ⟨rfl, -⟩ := hs.sent u hu
        exact ⟨rfl, Nat.le_trans hle hs.deadline_le⟩
      · intro inboundDeadline deadline hsleep
        have := hs.main _ _ hsleep
        grind [deadline]
      intro deadline hsleep
      have := hs.grace _ hsleep
      grind [deadline]
    · exact hs
  | frame answers =>
    refine ⟨Nat.le_refl _, hs.outbound, hs.sent, ?_, ?_⟩
    · intro inboundDeadline deadline hsleep
      have := hs.main _ _ hsleep
      have := hs.inbound
      grind [Cadence.step]
    · intro deadline hsleep
      have := hs.grace _ hsleep
      grind [Cadence.step]
  | sent => exact hs.transmit
  | disconnect => cases hactive
  | wake =>
    dsimp only [Cadence.step] at hactive ⊢
    split at hactive
    next hdue =>
      rw [if_pos hdue]
      unfold wake at hactive ⊢
      cases hsleep : s.sleep with
      | main => exact hs.afterSleep hsleep
      | grace deadline =>
        rw [hsleep] at hactive
        dsimp only at hactive ⊢
        split at hactive
        · cases hactive
        next hpending =>
          rw [Bool.not_eq_true] at hpending
          rw [if_neg (by simp [hpending])]
          exact .toSleep hs.inbound hs.outbound hs.sent hpending (hs.now_le hpending)
    next hdue =>
      rw [if_neg hdue]
      exact hs

/-- At every moment of a session that is still Active. -/
theorem timely_run (acts : List CadenceAct) {s : Cadence}
    (hs : s.active = true → Timely cfg.heartBtInt s) (hactive : (s.run cfg acts).active = true) :
    Timely cfg.heartBtInt (s.run cfg acts) := by
  induction acts generalizing s with
  | nil => exact hs hactive
  | cons a acts ih =>
    refine ih ?_ hactive
    dsimp only
    split
    next hbefore => exact (hs hbefore).step a
    next hbefore => exact fun h => absurd h hbefore

theorem timely_entered (cfg : CadenceConfig) (lastOutbound waited : ℕ) :
    Timely cfg.heartBtInt (Cadence.entered cfg lastOutbound waited) := by
  apply Timely.toSleep <;> simp
  omega

theorem Timely.le_of_active (hs : Timely h s) : s.now ≤ s.lastInbound + 2 * h + 1 := by
  cases hsleep : s.sleep with
  | main => have := hs.main _ _ hsleep; omega
  | grace => have := hs.grace _ hsleep; omega

theorem mem_afterSleep (hsends : .testRequest ∈ (s.afterSleep cfg inboundDeadline).2) :
    s.lastInbound + cfg.heartBtInt ≤ s.now := by
  unfold Cadence.afterSleep at hsends
  grind [Cadence.transmit]

theorem Timely.testRequest (hs : Timely cfg.heartBtInt s) {a : CadenceAct}
    (hsends : .testRequest ∈ (s.step cfg a).2) :
    s.lastInbound + cfg.heartBtInt ≤ s.now ∧ s.now ≤ s.lastInbound + cfg.heartBtInt + 1 := by
  cases a with
  | wake =>
    dsimp only [Cadence.step, wake] at hsends
    cases hsleep : s.sleep with
    | main =>
      have hidle : s.lastInbound + cfg.heartBtInt ≤ s.now := by
        rw [hsleep] at hsends
        split at hsends
        · exact mem_afterSleep hsends
        · cases hsends
      exact ⟨hidle, hs.now_le (hs.main _ _ hsleep).1⟩
    | grace => grind
  | _ => simp [Cadence.step] at hsends

theorem step_wake (hlt : s.now < s.deadline) : (s.step cfg .wake).1 = s := by
  dsimp [Cadence.step]
  rw [if_neg (by omega)]

/-- Behind its main sleep the loop has time to sleep. -/
theorem Timely.lt_wake (hs : Timely cfg.heartBtInt s)
    (hsleep : s.sleep = .main inboundDeadline deadline) :
    (s.step cfg .wake).1.now < (s.step cfg .wake).1.deadline := by
  have hpos := cfg.pos
  obtain ⟨-, -, -, -, hnow⟩ := hs.main _ _ hsleep
  by_cases hdue : s.deadline ≤ s.now
  · dsimp [Cadence.step, wake]
    rw [if_pos hdue, hsleep]
    unfold Cadence.afterSleep
    grind [Cadence.transmit, Cadence.toSleep, deadline]
  · rw [step_wake (by omega)]
    omega

/-- Two wakes at one moment are enough, so time can always go on. -/
theorem Timely.lt_deadline (hs : Timely cfg.heartBtInt s)
    (hactive : (s.step cfg .wake).1.active = true) :
    let s' := ((s.step cfg .wake).1.step cfg .wake).1
    s'.now < s'.deadline := by
  cases hsleep : s.sleep with
  | main =>
    have hlt := hs.lt_wake hsleep
    rw [step_wake hlt]
    exact hlt
  | grace deadline =>
    by_cases hdue : s.deadline ≤ s.now
    · have hnext : (s.step cfg .wake).1 = s.toSleep cfg := by
        dsimp only [Cadence.step, wake] at hactive ⊢
        rw [if_pos hdue, hsleep] at hactive ⊢
        grind
      have htimely := hs.step .wake hactive
      rw [hnext] at htimely ⊢
      exact htimely.lt_wake rfl
    · have hlt : s.now < s.deadline := by omega
      rw [step_wake hlt, step_wake hlt]
      exact hlt

/-- The bounds of an Active session: on the silence it leaves, on the
silence it meets before a TestRequest and on the one before its end. -/
theorem heartbeat_cadence (cfg : CadenceConfig) (lastOutbound waited : ℕ) (acts : List CadenceAct) :
    let s := (Cadence.entered cfg lastOutbound waited).run cfg acts
    s.active = true →
      (∀ u ∈ s.lastSent, s.now ≤ u + cfg.heartBtInt + 1) ∧
      (∀ a, .testRequest ∈ (s.step cfg a).2 →
        s.lastInbound + cfg.heartBtInt ≤ s.now ∧ s.now ≤ s.lastInbound + cfg.heartBtInt + 1) ∧
      (s.pendingTestReq = false → s.now ≤ s.lastInbound + cfg.heartBtInt + 1) ∧
      s.now ≤ s.lastInbound + 2 * cfg.heartBtInt + 1 ∧
      ((s.step cfg .wake).1.active = true →
        let s' := ((s.step cfg .wake).1.step cfg .wake).1
        s'.now < s'.deadline) := by
  intro s hactive
  have hs : Timely cfg.heartBtInt s :=
    timely_run acts (fun _ => timely_entered cfg lastOutbound waited) hactive
  exact ⟨fun u hu => (hs.sent u hu).2, fun a => hs.testRequest, hs.now_le, hs.le_of_active,
    hs.lt_deadline⟩

theorem heartbeat_cadence_thirty :
    let s := (Cadence.entered ⟨30, by decide, none⟩ 0 5).run ⟨30, by decide, none⟩ [.elapse 25, .wake]
    s.lastSent = some 30 ∧ s.now ≤ s.lastInbound + 2 * 30 + 1 := by
  have h := heartbeat_cadence ⟨30, by decide, none⟩ 0 5 [.elapse 25, .wake] (by decide)
  exact ⟨by decide, h.2.2.2.1⟩

/-- A threshold that is the HeartBtInt is kept. -/
theorem threshold_honoured (cfg : CadenceConfig) (lastOutbound waited : ℕ)
    (acts : List CadenceAct) (threshold : ℕ) (hset : cfg.testRequestThreshold = some threshold)
    (hsame : cfg.testRequestThreshold = some cfg.heartBtInt) :
    let s := (Cadence.entered cfg lastOutbound waited).run cfg acts
    s.active = true →
      (∀ a, .testRequest ∈ (s.step cfg a).2 → s.lastInbound + threshold ≤ s.now) ∧
      (s.pendingTestReq = false → s.now ≤ s.lastInbound + threshold + 1) := by
  intro s hactive
  have hs : Timely cfg.heartBtInt s :=
    timely_run acts (fun _ => timely_entered cfg lastOutbound waited) hactive
  obtain rfl : threshold = cfg.heartBtInt := Option.some.inj (hset.symm.trans hsame)
  exact ⟨fun a hsends => (hs.testRequest hsends).1, hs.now_le⟩

theorem threshold_honoured_thirty :
    let s := (Cadence.entered ⟨30, by decide, some 30⟩ 0 5).run ⟨30, by decide, some 30⟩
      [.elapse 25, .wake]
    s.now ≤ s.lastInbound + 30 + 1 := by
  exact (threshold_honoured ⟨30, by decide, some 30⟩ 0 5 [.elapse 25, .wake] 30 rfl rfl
    (by decide)).2 (by decide)

/-- A session with a threshold of 5 has been silent for 30, and has sent no TestRequest. -/
theorem threshold_ignored :
    ∃ (cfg : CadenceConfig) (threshold : ℕ) (acts : List CadenceAct),
      cfg.testRequestThreshold = some threshold ∧ 0 < threshold ∧
      let s := (Cadence.entered cfg 0 0).run cfg acts
      s.active = true ∧ s.pendingTestReq = false ∧ s.lastInbound + threshold + 1 < s.now := by
  exact ⟨⟨30, by decide, some 5⟩, 5, [.elapse 30], by decide⟩

end Fixpp.Analysis.LoopCadence
