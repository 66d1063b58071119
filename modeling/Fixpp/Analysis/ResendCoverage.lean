import Fixpp.Model.Inbound
import Fixpp.Analysis.ResendWalk

/-!
# What an answer to a ResendRequest covers

An answer first reads the store's next number. With it the range is resolved: a walk up to the
store's last number, or one GapFill over a range the store holds nothing of. Both tile the
resolved range.
-/

namespace Fixpp.Analysis.ResendCoverage

open Foundation Model Interface
open Foundation.Traced (Evolves Does)
open ResendWalk

/-! ## Resolving the range -/

section Resolve

variable {cfg : SessionConfig} {beginSeq requestedEnd : ℕ} {throughCurrent : Bool}
  {arm : Option FsmState}

def resolved (cfg : SessionConfig) (beginSeq requestedEnd : ℕ) (throughCurrent : Bool)
    (arm : Option FsmState) (ourLast : ℕ) (s : Session) : Handler ReplayResult :=
  if s.store = none ∨ ourLast = 0 ∨ beginSeq > effectiveEnd ourLast requestedEnd throughCurrent then
    emitGapfill cfg arm (if beginSeq > 0 then beginSeq else 1)
      (fallbackNewSeqNo s requestedEnd throughCurrent)
  else
    replayWalk cfg arm (effectiveEnd ourLast requestedEnd throughCurrent + 1 - beginSeq) beginSeq
      none

variable {w w' : World Session Event Answer}

theorem replayOutboundRange_resolved {ourLast : ℕ}
    (hread : readOurLast w = (.ok (.ok ourLast), w')) :
    replayOutboundRange cfg beginSeq requestedEnd throughCurrent arm w =
      resolved cfg beginSeq requestedEnd throughCurrent arm ourLast w'.state w' := by
  unfold replayOutboundRange
  rw [Traced.bind_ok hread]
  rfl

theorem replayOutboundRange_unread {e : Error} (hread : readOurLast w = (.ok (.error e), w')) :
    replayOutboundRange cfg beginSeq requestedEnd throughCurrent arm w = (.ok (.error e), w') := by
  unfold replayOutboundRange
  rw [Traced.bind_ok hread]
  rfl

theorem replayOutboundRange_aborted {e : Abort} (hread : readOurLast w = (.error e, w')) :
    replayOutboundRange cfg beginSeq requestedEnd throughCurrent arm w = (.error e, w') := by
  exact Traced.bind_error hread

theorem store_of_readOurLast {ourLast : ℕ} (hread : readOurLast w = (.ok (.ok ourLast), w'))
    (hpos : 0 < ourLast) : w'.state.store ≠ none := by
  unfold readOurLast at hread
  have hget : (.get : Handler Session) w = (.ok w.state, w) := rfl
  rw [Traced.bind_ok hget] at hread
  by_cases hnone : w.state.store = none
  · rw [if_pos hnone] at hread
    cases hread
    exact absurd hpos (Nat.lt_irrefl 0)
  rw [if_neg hnone] at hread
  rcases hwait : suspend w with ⟨_ | a, w₁⟩
  · rw [Traced.bind_error hwait] at hread
    cases hread
  rw [Traced.bind_ok hwait] at hread
  cases hstore : a.store <;> rw [hstore] at hread <;> cases hread
  intro hno
  rw [hno] at hpos
  exact absurd hpos (by decide)

theorem does_readOurLast {replays : ℕ → List Field → Prop} {stop : ℕ} :
    Does (resendOrder replays stop) Waits readOurLast := by
  refine .bind Waits.trans (.get Waits.refl) fun s => ?_
  split
  · exact .pure Waits.refl _
  refine .bind Waits.trans does_suspend fun a =>
    .bind Waits.trans (.get Waits.refl) fun s' => ?_
  cases a.store with
  | done | failed => exact .pure Waits.refl _
  | cancelled | threw => exact .throw Waits.refl _

/-- An answer from `start` to `stop`: its frames are in order, and when it completes
it has come to `stop`. -/
structure Answered (cfg : SessionConfig) (s : Session) (start stop : ℕ)
    (result : Except Abort ReplayResult) (log : List Event) : Prop where
  accepted : (walkOrder cfg (heldBy s) stop).Accepts { pos := start } log
  completed : result = .ok (.ok .completed) →
    ((walkOrder cfg (heldBy s) stop).run { pos := start } log).pos = stop

variable {s s₁ s' : Session} {answers : List Answer} {ourLast : ℕ} {log₁ log : List Event}
    {result : Except Abort ReplayResult}
    (hread : readOurLast.runFrom s answers = (.ok (.ok ourLast), s₁, log₁))
    (hrun : (replayOutboundRange cfg beginSeq requestedEnd throughCurrent arm).runFrom s answers =
    (result, s', log))

include hread hrun

theorem answered_of_triple {start stop : ℕ}
    (hrest : Traced.Triple (walkOrder cfg (heldBy s) stop) (Open (heldBy s) start)
      (resolved cfg beginSeq requestedEnd throughCurrent arm ourLast s₁)
      (Completes (heldBy s) stop) fun _ _ => True) : Answered cfg s start stop result log := by
  obtain ⟨rest₁, hread⟩ := Traced.runFrom_eq_iff.mp hread
  obtain ⟨rest, hrun⟩ := Traced.runFrom_eq_iff.mp hrun
  rw [replayOutboundRange_resolved hread] at hrun
  -- the tail read sends nothing and adds nothing to the store
  obtain ⟨before, hlog₁, hacc₁, hsame, hheld⟩ :
      Traced.Leaves (walkOrder cfg (heldBy s) stop) readOurLast { pos := start }
        { state := s, log := [], answers := answers } fun _ t s' =>
          Waits ({ pos := start }, s) (t, s') := does_readOurLast _ _
  rw [hread] at hlog₁ hheld
  have hstay : (walkOrder cfg (heldBy s) stop).run { pos := start } before = { pos := start } :=
    hsame
  obtain ⟨after, hlog, hacc, hpost⟩ := hrest { pos := start }
    { state := s₁, log := log₁, answers := rest₁ } ⟨⟨rfl, rfl⟩, hheld⟩
  rw [hrun] at hlog hpost
  have hwhole : log = before ++ after := by
    have hlog' : log = log₁ ++ after := hlog
    have hlog₁' : log₁ = [] ++ before := hlog₁
    rw [hlog', hlog₁', List.nil_append]
  rw [hwhole]
  refine ⟨(Monitor.accepts_append _ _ _ _).mpr ⟨hacc₁, by rw [hstay]; exact hacc⟩, ?_⟩
  rintro rfl
  rw [Monitor.run_append, hstay]
  exact (hpost rfl).1

theorem answered_walk (hlast : 0 < ourLast)
    (hrange : beginSeq ≤ effectiveEnd ourLast requestedEnd throughCurrent) :
    Answered cfg s beginSeq (effectiveEnd ourLast requestedEnd throughCurrent + 1) result log := by
  refine answered_of_triple hread hrun ?_
  obtain ⟨rest₁, hread⟩ := Traced.runFrom_eq_iff.mp hread
  have hstore : s₁.store ≠ none := store_of_readOurLast hread hlast
  have hwalk : ¬ (s₁.store = none ∨ ourLast = 0 ∨
      beginSeq > effectiveEnd ourLast requestedEnd throughCurrent) := by
    rintro (hnone | hzero | hgt)
    · exact hstore hnone
    · omega
    · omega
  unfold resolved
  rw [if_neg hwalk]
  exact triple_replayWalk _ beginSeq none (fun g hg => by cases hg) (by omega)

theorem answered_fallback
    (hfall : ourLast = 0 ∨ beginSeq > effectiveEnd ourLast requestedEnd throughCurrent)
    (hlt : (if beginSeq > 0 then beginSeq else 1) <
      fallbackNewSeqNo s₁ requestedEnd throughCurrent) :
    Answered cfg s (if beginSeq > 0 then beginSeq else 1)
      (fallbackNewSeqNo s₁ requestedEnd throughCurrent) result log := by
  refine answered_of_triple hread hrun ?_
  have hnothing : s₁.store = none ∨ ourLast = 0 ∨
      beginSeq > effectiveEnd ourLast requestedEnd throughCurrent := .inr hfall
  unfold resolved
  rw [if_pos hnothing]
  exact triple_emitGapfill hlt (Nat.le_refl _)

omit hread hrun

theorem evolves_readOurLast : Evolves KeepsCounter readOurLast := by
  refine .get fun s => ?_
  split
  · exact .pure KeepsCounter.refl _
  refine evolves_suspend fun a => .get fun s' => ?_
  cases a.store with
  | done | failed => exact .pure KeepsCounter.refl _
  | cancelled | threw => exact .throw KeepsCounter.refl _

theorem evolves_replayOutboundRange : Evolves KeepsCounter
    (replayOutboundRange cfg beginSeq requestedEnd throughCurrent arm) := by
  refine .bind KeepsCounter.trans evolves_readOurLast fun last => ?_
  cases last with
  | error e => exact .pure KeepsCounter.refl _
  | ok ourLast =>
    refine .get fun s => ?_
    dsimp only
    split
    · exact evolves_emitGapfill _ _
    · exact evolves_replayWalk _ _ _

/-- What is resent: a stored application message, under its own number and with
PossDupFlag. -/
structure ResentFrom (cfg : SessionConfig) (s : Session) (fields : List Field) (n : ℕ)
    (frame : Bytes) : Prop where
  stored : heldBy s n = some frame
  numbered : Numbered n fields
  application : (scanFrameHeader cfg.hooks frame).msgType ≠ [] ∧
    isReplayAdminType (scanFrameHeader cfg.hooks frame).msgType = false
  possDup : valuesOf 43 fields = [ascii "Y"]

theorem resentFrom_of_resends
    (hcarries : ∀ n frame, heldBy s n = some frame → CarriesNumber cfg.hooks n frame) {n : ℕ}
    {fields : List Field} (h : Resends cfg (heldBy s) n fields) :
    ∃ frame, ResentFrom cfg s fields n frame := by
  have hnumbered := numbered_of_resends hcarries n fields h
  obtain ⟨frame, stamp, hheld, happ, hbuilt⟩ := h
  simp only [appPresent, Bool.and_eq_true, decide_eq_true_eq, Bool.not_eq_true'] at happ
  exact ⟨frame, hheld, hnumbered, happ, possDup_of_build hbuilt⟩

end Resolve

/-- Every completed walk tiles its range: the frames follow on one another up to the effective end,
every message resent is a stored application message under its own number with PossDupFlag, no two
GapFills are adjacent, and only another coroutine moves the outbound counter. -/
theorem resend_walk_tiles (cfg : SessionConfig) (s : Session) (answers : List Answer)
    (beginSeq requestedEnd : ℕ) (throughCurrent : Bool) (arm : Option FsmState)
    (hcarries : ∀ n frame, heldBy s n = some frame → CarriesNumber cfg.hooks n frame)
    (ourLast : ℕ) (s₁ : Session) (log₁ : List Event)
    (hread : readOurLast.runFrom s answers = (.ok (.ok ourLast), s₁, log₁))
    (hlast : 0 < ourLast) (hrange : beginSeq ≤ effectiveEnd ourLast requestedEnd throughCurrent)
    (s' : Session) (log : List Event)
    (hrun : (replayOutboundRange cfg beginSeq requestedEnd throughCurrent arm).runFrom s answers =
      (.ok (.ok .completed), s', log)) :
    Tiles spans beginSeq (effectiveEnd ourLast requestedEnd throughCurrent + 1) (sentOf log) ∧
      (∀ fields, .replay fields ∈ sentOf log → ∃ n frame, ResentFrom cfg s fields n frame) ∧
      (sentOf log).IsChain (fun r r' => ¬ (gapFills r = true ∧ gapFills r' = true)) ∧
      ((∀ a ∈ answers, ∀ act ∈ a.meanwhile, movesCounter act = false) →
        s'.seqnums.nextOutbound = s.seqnums.nextOutbound) := by
  have hanswer := answered_walk hread hrun hlast hrange
  have hnumbered := numbered_of_resends hcarries
  refine ⟨?_, fun fields hfields => ?_, ?_, fun hquiet => ?_⟩
  · have htiles := tiles_of_accepts hnumbered log _ hanswer.accepted
    rwa [hanswer.completed rfl] at htiles
  · obtain ⟨n, hresends⟩ := replays_of_accepts log _ hanswer.accepted hfields
    exact ⟨n, resentFrom_of_resends hcarries hresends⟩
  · exact (no_adjacent_gapFills hnumbered log _ hanswer.accepted).1
  obtain ⟨rest, hrun⟩ := Traced.runFrom_eq_iff.mp hrun
  have hcounter : KeepsCounter { state := s, log := [], answers := answers }
      (replayOutboundRange cfg beginSeq requestedEnd throughCurrent arm
        { state := s, log := [], answers := answers }).2 := evolves_replayOutboundRange _
  rw [hrun] at hcounter
  exact hcounter.2 hquiet

def storedFrame (msgType seq : String) : Bytes :=
  fieldsOf ["8=FIX.4.4", "9=5", "35=" ++ msgType, "34=" ++ seq, "49=US", "52=T", "56=PEER", "58=x",
    "10=000"]

/-- A Logon, two orders and a Heartbeat between them were sent and stored. -/
def sentFour : Session :=
  { fsm := .active
    seqnums := { nextOutbound := 5 }
    store := some
      { frames := [(1, storedFrame "A" "1"), (2, storedFrame "D" "2"), (3, storedFrame "0" "3"),
          (4, storedFrame "D" "4")]
        nextOutbound := 5 } }

theorem sentFour_carries (n : ℕ) (frame : Bytes) (h : heldBy sentFour n = some frame) :
    CarriesNumber (fun _ => 0) n frame := by
  obtain ⟨st, hst, hmem⟩ := mem_frames_of_heldBy h
  cases hst
  have hall : ∀ entry ∈ [(1, storedFrame "A" "1"), (2, storedFrame "D" "2"),
      (3, storedFrame "0" "3"), (4, storedFrame "D" "4")],
      CarriesNumber (fun _ => 0) entry.1 entry.2 := by decide
  exact hall (n, frame) hmem

/-- What answers a request for everything: a GapFill for the Logon, the first order,
a GapFill for the Heartbeat, the second order. -/
@[irreducible]
def answerToAll : List Event := ((replayOutboundRange {} 1 0 true none).runFrom sentFour []).2.2

theorem resend_walk_tiles_four : (sentOf answerToAll).map gapFills = [true, false, true, false] ∧
      Tiles spans 1 5 (sentOf answerToAll) := by
  have hread : readOurLast.runFrom sentFour [] = (.ok (.ok 4), sentFour, []) := by decide +kernel
  have hrun : (replayOutboundRange {} 1 0 true none).runFrom sentFour [] =
      (.ok (.ok .completed), sentFour, answerToAll) := by decide +kernel
  obtain ⟨htiles, -⟩ := resend_walk_tiles {} sentFour [] 1 0 true none sentFour_carries 4 sentFour
    [] hread (by decide) (by decide) sentFour answerToAll hrun
  exact ⟨by decide +kernel, htiles⟩

end Fixpp.Analysis.ResendCoverage
