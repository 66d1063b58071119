import Fixpp.Analysis.ResendCoverage

/-!
# Answers to a ResendRequest

An EndSeqNo of 0, absent or unreadable asks for everything sent. A range the store holds nothing
of is closed by one GapFill to the number after the requested end, whatever was sent.
-/

namespace Fixpp.Analysis.ResendRequests

open Foundation Model Interface
open ResendWalk ResendCoverage

def answerRequest (cfg : SessionConfig) (hdr : FrameHeader) : Handler ReplayResult :=
  replayOutboundRange cfg (parseSeqnum hdr.beginSeqno) (parseSeqnum hdr.endSeqno)
    (parseSeqnum hdr.endSeqno == 0) none

section Ends

variable {ourLast beginSeq requestedEnd : ℕ}

theorem le_effectiveEnd (hbegin : beginSeq ≤ ourLast)
    (hend : requestedEnd = 0 ∨ beginSeq ≤ requestedEnd) :
    beginSeq ≤ effectiveEnd ourLast requestedEnd (requestedEnd == 0) := by
  unfold effectiveEnd
  split
  · exact hbegin
  rename_i hexplicit
  have hzero : requestedEnd ≠ 0 := fun h => hexplicit (.inl (by simp [h]))
  omega

theorem effectiveEnd_le (hlast : 0 < ourLast) :
    effectiveEnd ourLast requestedEnd (requestedEnd == 0) ≤ ourLast := by
  unfold effectiveEnd
  split
  · exact Nat.le_refl _
  · omega

theorem effectiveEnd_eq (hlast : 0 < ourLast) :
    effectiveEnd ourLast requestedEnd (requestedEnd == 0) =
      if requestedEnd = 0 then ourLast else min requestedEnd ourLast := by
  unfold effectiveEnd
  by_cases hzero : requestedEnd = 0
  · simp [hzero]
  by_cases hover : requestedEnd > ourLast
  · simp [hzero, hlast, hover, Nat.min_eq_right (Nat.le_of_lt hover)]
  · simp [hzero, hover, Nat.min_eq_left (Nat.le_of_not_lt hover)]

theorem fallbackNewSeqNo_eq (s : Session) (hmax : requestedEnd < seqnumMax) :
    fallbackNewSeqNo s requestedEnd (requestedEnd == 0) =
      if requestedEnd = 0 then s.seqnums.nextOutbound else requestedEnd + 1 := by
  unfold fallbackNewSeqNo
  by_cases hzero : requestedEnd = 0
  · simp [hzero]
  simp only [hzero, beq_iff_eq, if_false]
  exact Nat.mod_eq_of_lt (Nat.succ_lt_succ hmax)

end Ends

/-- The number after the last one an answer accounts for: through the last number sent when the
request names no end, else up to the requested end, within what was sent when the store holds the
start of the range. -/
def coverEnd (ourLast lastSent beginSeq requestedEnd : ℕ) : ℕ :=
  if requestedEnd = 0 then lastSent + 1
  else if beginSeq ≤ ourLast then min requestedEnd lastSent + 1
  else requestedEnd + 1

def requestFor (beginSeqno endSeqno : String) : FrameHeader :=
  { beginSeqno := ascii beginSeqno, endSeqno := ascii endSeqno }

@[irreducible]
def answerToTwo : List Event :=
  ((answerRequest {} (requestFor "2" "3")).runFrom sentFour []).2.2

def unstored : Session := { fsm := .active, seqnums := { nextOutbound := 5 } }

/-- The requests whose answer moves forward from a valid number: a walk starts at 1 or later and the
store is not ahead of the session; a single GapFill ends past where it starts, and its end can be
written. -/
structure Forward (beginSeq requestedEnd ourLast next : ℕ) : Prop where
  walked : 0 < ourLast → beginSeq ≤ effectiveEnd ourLast requestedEnd (requestedEnd == 0) →
    1 ≤ beginSeq ∧ ourLast < next
  filled : ourLast = 0 ∨ effectiveEnd ourLast requestedEnd (requestedEnd == 0) < beginSeq →
    requestedEnd < seqnumMax ∧ max 1 beginSeq < if requestedEnd = 0 then next else requestedEnd + 1

/-- An answer that sends a GapFill has read the store's next number. -/
theorem read_of_gapFill {cfg : SessionConfig} {hdr : FrameHeader} {s s' : Session}
    {answers : List Answer} {result : Except Abort ReplayResult} {log : List Event} {m n : ℕ}
    (hrun : (answerRequest cfg hdr).runFrom s answers = (result, s', log))
    (h : .gapFill m n ∈ sentOf log) :
    ∃ ourLast s₁ log₁, readOurLast.runFrom s answers = (.ok (.ok ourLast), s₁, log₁) := by
  obtain ⟨rest, hrun⟩ := Traced.runFrom_eq_iff.mp hrun
  -- the tail read by itself sends nothing
  obtain ⟨before, hlog, hacc, -⟩ :
      Traced.Leaves (walkOrder cfg (heldBy s) 0) readOurLast { pos := 0 }
        { state := s, log := [], answers := answers } fun _ t s' =>
          Waits ({ pos := 0 }, s) (t, s') := does_readOurLast _ _
  have hnothing : ∀ sent, sent = before → .gapFill m n ∉ sentOf sent := by
    rintro sent rfl hmem
    have hbound := gapFill_of_accepts _ _ hacc hmem
    omega
  rcases hread : readOurLast { state := s, log := [], answers := answers } with ⟨_ | _ | ourLast, w⟩
  · rw [answerRequest, replayOutboundRange_aborted hread] at hrun
    cases hrun
    rw [hread] at hlog
    exact absurd h (hnothing _ hlog)
  · rw [answerRequest, replayOutboundRange_unread hread] at hrun
    cases hrun
    rw [hread] at hlog
    exact absurd h (hnothing _ hlog)
  · exact ⟨ourLast, w.state, w.log, Traced.runFrom_eq_iff.mpr ⟨w.answers, hread⟩⟩

def storedFive : Session :=
  { unstored with
    seqnums := { nextOutbound := 6 }
    store := some { frames := [], nextOutbound := 6 } }

end Fixpp.Analysis.ResendRequests
