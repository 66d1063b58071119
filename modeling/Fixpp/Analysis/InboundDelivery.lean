import Fixpp.Analysis.InboundRuns

/-!
# Delivery in order, and what a frame consumes

Results about runs from an open session, whatever its counters and its state. Messages reach
`fromApp` once and in order; a frame of an Active session consumes its number or leaves the
expected one alone.
-/

namespace Fixpp.Analysis.InboundDelivery

open Foundation Model Interface

/-! ## Delivery -/

/-- A step delivers at most the number that was expected when its frame came in,
and takes it up first. -/
theorem step_fromApp {cfg : SessionConfig} (hseq : cfg.validateSequenceNumbers = true)
    (hdup : cfg.redeliverPossDup = false) {l : Ledger} {s : Session} (hs : Sound l s) (t : Step)
    {n : ℕ} (hmem : Event.fromApp n ∈ (step cfg s t).2) :
    Event.takeUp n ∈ (step cfg s t).2 ∧ n = s.seqnums.nextInbound ∧
      ∃ f, t.input = .frame f ∧ parseSeqnum f.header.msgSeqNum = n := by
  -- the books of this step start with nothing in hand
  have hempty : Sound { l with taken := none } s :=
    { expected := hs.expected, gap := hs.gap, drained := hs.drained, fresh := hs.fresh
      asked := hs.asked }
  have hrules : (stepRules cfg s t).inOrder = true := by simp [stepRules, hseq, hdup]
  obtain ⟨hacc, -⟩ := step_sound (fits_stepRules cfg s t) t hempty (fun h => by cases h)
    fun f hf hnum => ⟨rfl, f, hf, hnum⟩
  refine ⟨?_, due_of_fromApp hrules hacc hmem⟩
  obtain htaken | htake := takeUp_of_fromApp hrules hacc hmem
  · cases htaken
  · exact htake

/-- With sequence validation on and PossDup redelivery off, every message that reaches `fromApp` is
taken up in the same step at the expected number; so the delivered numbers increase strictly from
one inbound reset to the next. -/
theorem fromApp_in_order (cfg : SessionConfig) (hseq : cfg.validateSequenceNumbers = true)
    (hdup : cfg.redeliverPossDup = false) (s : Session) (hs : s.lifecycle = .opened)
    (steps : List Step) :
    (∀ e ∈ history cfg s steps, ∀ n, Event.fromApp n ∈ e.events →
      Event.takeUp n ∈ e.events ∧ n = e.before.seqnums.nextInbound ∧
        ∃ f, e.step.input = .frame f ∧ parseSeqnum f.header.msgSeqNum = n) ∧
    (∀ first mid rest m n,
      eventsOf (history cfg s steps) = first ++ (.fromApp m :: mid ++ .fromApp n :: rest) →
      (∀ e ∈ mid, Event.isInboundReset e = false) → m < n) := by
  have hopen := sound_openingLedger hs
  refine ⟨?_, ?_⟩
  · intro e he n hmem
    obtain ⟨⟨l, hl⟩, hevents, -⟩ := history_entry cfg steps hopen he
    rw [hevents] at hmem ⊢
    exact step_fromApp hseq hdup hl e.step hmem
  intro first mid rest m n hsplit hmid
  have hacc := history_accepts cfg false steps hopen fun h => by cases h
  rw [hsplit, Monitor.accepts_append] at hacc
  have hrules : (runRules cfg false).inOrder = true := by simp [runRules, hseq, hdup]
  refine fromApp_increasing hrules hacc.2 ?_ hmid
  exact taken_lt_run (fun k hk => by simp [openingLedger] at hk) hacc.1

theorem five_pos : 0 < 5 := by decide

def expectsFive : Session :=
  { fsm := .active, seqnums := { nextInbound := 5, inbound_pos := five_pos } }

def frameStep (fields : List String) (answers : List Answer := []) : Step :=
  { input := .frame { bytes := fieldsOf fields }, answers := answers }

def order (seq : String) (more : List String := []) : List String :=
  ["8=FIX.4.4", "9=5", "35=D", "49=PEER", "56=US", "52=T", seq] ++ more

/-- Number 5, its duplicate, a gap and number 6: 5 and 6 are delivered. -/
theorem fromApp_in_order_duplicate : eventsOf (history {} expectsFive
      [frameStep (order "34=5"), frameStep (order "34=5" ["43=Y", "122=T"]),
        frameStep (order "34=6")]) =
      [] ++ (.takeUp 5 :: [] ++ (.fromApp 5 :: [.takeUp 6] ++ .fromApp 6 :: [])) ∧ 5 < 6 :=
  ⟨by decide, (fromApp_in_order {} rfl rfl expectsFive rfl
    [frameStep (order "34=5"), frameStep (order "34=5" ["43=Y", "122=T"]),
      frameStep (order "34=6")]).2 [.takeUp 5] [.takeUp 6] [] 5 6 (by decide) (by decide)⟩

/-! ## Consumption -/

/-- A frame whose third field is MsgType, neither a Logon nor a SequenceReset, in an Active session:
at the expected number it leaves the session with the next one, or no longer Active; off it, the
expected number stays, unless the session was closed meanwhile. -/
theorem active_frame_consumes (cfg : SessionConfig) (s : Session) (hs : s.lifecycle = .opened)
    (steps : List Step) (e : Entry) (he : e ∈ history cfg s steps) (f : Frame)
    (hf : e.step.input = .frame f) (hactive : e.before.fsm = .active)
    (hthird : f.header.msgTypeIsThird = true) (hlogon : readMsgType cfg f ≠ ascii "A")
    (hreset : readMsgType cfg f ≠ ascii "4") :
    (readSeqNum cfg f = e.before.seqnums.nextInbound → e.after.fsm = .active →
      e.after.seqnums.nextInbound = e.before.seqnums.nextInbound + 1) ∧
    (readSeqNum cfg f ≠ e.before.seqnums.nextInbound →
      e.after.seqnums.nextInbound = e.before.seqnums.nextInbound ∨
        (e.after.lifecycle ≠ .opened ∧ e.after.down = true)) := by
  obtain ⟨⟨l, hl⟩, -, hafter⟩ := history_entry cfg steps (sound_openingLedger hs) he
  obtain ⟨-, hdone⟩ := step_sound (fits_runRules cfg false) e.step hl (fun h => by cases h)
    fun _ _ _ => trivial
  have hup : e.before.up = true := by simp [Session.up, hactive]
  have hanswered := (hdone.2 f hf).2 hup hthird
  have hhandled := hanswered.2 hlogon hreset
  rw [← hafter] at hhandled
  refine ⟨?_, ?_⟩
  · intro hseq hstill
    unfold Handled at hhandled
    rw [if_pos hseq] at hhandled
    obtain hnext | hdown := hhandled.counter
    · exact hnext
    · simp [Session.down, hstill] at hdown
  · intro hseq
    unfold Handled at hhandled
    rw [if_neg hseq] at hhandled
    exact hhandled.counter

theorem active_frame_consumes_order :
    (step {} expectsFive (frameStep (order "34=5"))).1.fsm = .active ∧
      (step {} expectsFive (frameStep (order "34=5"))).1.seqnums.nextInbound = 5 + 1 :=
  ⟨by decide, (active_frame_consumes {} expectsFive rfl [frameStep (order "34=5")]
    { before := expectsFive, step := frameStep (order "34=5")
      events := (step {} expectsFive (frameStep (order "34=5"))).2
      after := (step {} expectsFive (frameStep (order "34=5"))).1 }
    (List.mem_cons_self ..) { bytes := fieldsOf (order "34=5") } rfl rfl (by decide) (by decide)
    (by decide)).1 (by decide) (by decide)⟩

/-- A frame whose third field is not MsgType is ignored with the expected number in it. And a
duplicate off the sequence that `fromApp` throws on closes the session, which expects number 1 then
when it resets on disconnect. -/
theorem active_frame_consumes_limits :
    (let garbled := ["8=FIX.4.4", "9=5", "34=5", "35=D", "49=PEER", "56=US", "52=T"]
      let f : Frame := { bytes := fieldsOf garbled }
      (f.header.msgType = ascii "D" ∧ parseSeqnum f.header.msgSeqNum = 5) ∧
        step {} expectsFive (frameStep garbled) = (expectsFive, [])) ∧
    (let cfg : SessionConfig := { redeliverPossDup := true, resetOnDisconnect := true }
      let duplicate := order "34=3" ["43=Y", "122=T"]
      let t := frameStep duplicate [{}, {}, {}, { callback := .threw }]
      (step cfg expectsFive t).1.seqnums.nextInbound = 1) := by
  decide

end Fixpp.Analysis.InboundDelivery

/-! ## Recovery of gaps

What a whole run does about frames above the expected number: behind which request
they are passed over, and how long one request stands for its gap. -/

namespace Fixpp.Analysis.GapRecovery

open Foundation Model Interface
open InboundDelivery (expectsFive frameStep order)

/-- A session that was just opened has made no request, and its books are clean when
it awaits nothing. -/
theorem openingLedger_clean {s : Session} (hawait : s.resend.awaitingResend = false) :
    (openingLedger s).clean = true := by
  simp [openingLedger, openGap, hawait]

def peerLogon (seq : String) : List String :=
  ["8=FIX.4.4", "9=5", "35=A", "49=PEER", "56=US", "52=T", seq]

def asksForResend : Event → Bool
  | .sent (.resendRequest _ _ _) => true
  | _ => false

/-- Behind a ResendRequest for a gap up to `g`, and until something starts afresh or a SequenceReset
jumps, AwaitingResend ends only where the expected number exceeds `g`, and no number up to `g` is
asked for again. -/
theorem one_request_per_gap (cfg : SessionConfig) (s : Session) (hs : s.lifecycle = .opened)
    (steps : List Step) (first mid rest : List Event) (b e g : ℕ) (ev : Event)
    (hlog : eventsOf (history cfg s steps) =
      first ++ (.sent (.resendRequest b e g) :: mid ++ ev :: rest))
    (hmid : ∀ ev ∈ mid, Event.startsAfresh ev = false ∧ Event.isJump ev = false) :
    (∀ x, ev = .exitAwaitingResend x → g < x) ∧
      (∀ b' e' g', ev = .sent (.resendRequest b' e' g') → g < b') := by
  have hacc := history_accepts cfg false steps (sound_openingLedger hs) fun h => by cases h
  rw [hlog, Monitor.accepts_append] at hacc
  refine ⟨?_, ?_⟩
  · rintro x rfl
    exact exit_beyond hacc.2 hmid
  rintro b' e' g' rfl
  exact request_beyond hacc.2 hmid

/-- The log of a run that fills a gap up to 6 frame by frame and finds a new one. -/
def filledGapLog : List Event :=
  [Event.enterAwaitingResend 5 6] ++ (Event.sent (.resendRequest 5 0 6) ::
    [Event.passedOver 9 5, .takeUp 5, .fromApp 5, .takeUp 6, .exitAwaitingResend 7, .fromApp 6,
      .enterAwaitingResend 7 8] ++ Event.sent (.resendRequest 7 0 8) :: [])

/-- The second request of that run is for a number beyond the first gap. -/
theorem one_request_per_gap_filled : eventsOf (history {} expectsFive
      [frameStep (order "34=7"), frameStep (order "34=9"), frameStep (order "34=5"),
        frameStep (order "34=6"), frameStep (order "34=9")]) = filledGapLog ∧ 6 < 7 := by
  refine ⟨by decide, ?_⟩
  exact (one_request_per_gap {} expectsFive rfl
    [frameStep (order "34=7"), frameStep (order "34=9"), frameStep (order "34=5"),
      frameStep (order "34=6"), frameStep (order "34=9")] _ _ [] 5 0 6
    (.sent (.resendRequest 7 0 8)) (by decide : _ = filledGapLog) (by decide)).2 7 0 8 rfl

def peerGapFill (seq newSeqNo : String) : List String :=
  ["8=FIX.4.4", "9=5", "35=4", "49=PEER", "56=US", "52=T", seq, "123=Y", newSeqNo, "43=Y"]

/-- A gap fill that lands at 7, short of the end 9 of the gap, ends AwaitingResend, and
the next frame above the expected number has number 7 asked for again. -/
theorem second_request_after_partial_gapFill : eventsOf (history {} expectsFive
      [frameStep (order "34=10"), frameStep (peerGapFill "34=5" "36=7"),
        frameStep (order "34=12")]) =
      [.enterAwaitingResend 5 9, .sent (.resendRequest 5 0 9), .takeUp 5, .jump 7,
        .exitAwaitingResend 7, .enterAwaitingResend 7 11, .sent (.resendRequest 7 0 11)] := by
  decide

end Fixpp.Analysis.GapRecovery
