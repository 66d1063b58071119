import Fixpp.Model.Fields

/-!
# Sequence counters and the message store

`SeqnumManager` holds the two live counters. `MessageStore` is the contract the
session uses: frames under their outbound number, accepted strictly in order,
and the two durable counters.
-/

namespace Fixpp.Model

theorem seqnumMin_pos : 0 < seqnumMin := Nat.one_pos

/-- The next inbound number expected, which is never 0, and the next outbound number to assign. -/
structure SeqnumManager where
  nextInbound : ℕ := seqnumMin
  nextOutbound : ℕ := seqnumMin
  inbound_pos : 0 < nextInbound := by first | exact seqnumMin_pos | decide
  deriving DecidableEq, Repr

namespace SeqnumManager

variable (m : SeqnumManager)

/-- Accept exactly the expected number. -/
def checkInbound (seq : ℕ) : Except Error SeqnumManager :=
  if seq < m.nextInbound then .error .sessionSeqnumTooLow
  else if seq > m.nextInbound then .error .sessionSeqnumTooHigh
  else if m.nextInbound = seqnumMax then .error .storeSeqnumOverflow
  else .ok { m with nextInbound := m.nextInbound + 1, inbound_pos := Nat.succ_pos _ }

def assignOutbound : Except Error (ℕ × SeqnumManager) :=
  if m.nextOutbound = seqnumMax then .error .storeSeqnumOverflow
  else .ok (m.nextOutbound, { m with nextOutbound := m.nextOutbound + 1 })

def takeBackOutbound (seq : ℕ) : SeqnumManager :=
  if m.nextOutbound > seq then { m with nextOutbound := seq } else m

def setNextInbound (n : ℕ) (h : 0 < n) : SeqnumManager :=
  { m with nextInbound := n, inbound_pos := h }

def setNextOutbound (n : ℕ) : SeqnumManager := { m with nextOutbound := n }

def resetToOne (_ : SeqnumManager) : SeqnumManager := {}

def hydrate (_ : SeqnumManager) (nextIn nextOut : ℕ) (h : 0 < nextIn) : SeqnumManager :=
  { nextInbound := nextIn, nextOutbound := nextOut, inbound_pos := h }

/-- An accepted number is the expected one, and it moves the counter by one. -/
theorem checkInbound_ok {m m' : SeqnumManager} {seq : ℕ} (h : m.checkInbound seq = .ok m') :
    seq = m.nextInbound ∧ m'.nextInbound = seq + 1 := by
  unfold checkInbound at h
  by_cases hlow : seq < m.nextInbound
  · simp [hlow] at h
  by_cases hhigh : seq > m.nextInbound
  · simp [hlow, hhigh] at h
  by_cases hmax : m.nextInbound = seqnumMax
  · rw [if_neg hlow, if_neg hhigh, if_pos hmax] at h
    cases h
  have heq : seq = m.nextInbound := by omega
  rw [if_neg hlow, if_neg hhigh, if_neg hmax] at h
  cases h
  exact ⟨heq, by rw [heq]⟩

/-- The one refusal at the expected number is the overflow of the counter. -/
theorem checkInbound_error {m : SeqnumManager} {seq : ℕ} {e : Error}
    (h : m.checkInbound seq = .error e) :
    (e = .sessionSeqnumTooLow ∧ seq < m.nextInbound) ∨
      (e = .sessionSeqnumTooHigh ∧ m.nextInbound < seq) ∨
      (e = .storeSeqnumOverflow ∧ seq = m.nextInbound) := by
  unfold checkInbound at h
  by_cases hlow : seq < m.nextInbound
  · rw [if_pos hlow] at h
    cases h
    exact .inl ⟨rfl, hlow⟩
  by_cases hhigh : seq > m.nextInbound
  · rw [if_neg hlow, if_pos hhigh] at h
    cases h
    exact .inr (.inl ⟨rfl, hhigh⟩)
  by_cases hmax : m.nextInbound = seqnumMax
  · rw [if_neg hlow, if_neg hhigh, if_pos hmax] at h
    cases h
    exact .inr (.inr ⟨rfl, by omega⟩)
  · rw [if_neg hlow, if_neg hhigh, if_neg hmax] at h
    cases h

end SeqnumManager

/-- The stored outbound frames and the durable counters. -/
structure MessageStore where
  frames : List (ℕ × Bytes) := []
  nextInbound : ℕ := seqnumMin
  nextOutbound : ℕ := seqnumMin
  inbound_pos : 0 < nextInbound := by first | exact seqnumMin_pos | decide
  deriving DecidableEq, Repr

namespace MessageStore

/-- `store(seq, frame, outbound)` when the medium works: the number has to be the
next one. -/
def store (st : MessageStore) (seq : ℕ) (frame : Bytes) : Except Error MessageStore :=
  if seq ≠ st.nextOutbound then .error .storeSeqnumOutOfOrder
  else if seq = seqnumMax then .error .storeSeqnumOverflow
  else .ok { st with frames := st.frames ++ [(seq, frame)], nextOutbound := seq + 1 }

/-- `retrieve(k, k, outbound)`: the frame stored under `k`. -/
def retrieve (st : MessageStore) (k : ℕ) : Option Bytes :=
  (st.frames.find? fun entry => entry.1 == k).map Prod.snd

/-- `next_seqnum(inbound, increment)` when the medium works. -/
def incrementInbound (st : MessageStore) : MessageStore :=
  { st with nextInbound := st.nextInbound + 1, inbound_pos := Nat.succ_pos _ }

/-- `reset_to(next_in, next_out)`: no frame is kept. -/
def resetTo (_ : MessageStore) (nextIn nextOut : ℕ) (h : 0 < nextIn) : MessageStore :=
  { frames := [], nextInbound := nextIn, nextOutbound := nextOut, inbound_pos := h }

end MessageStore

end Fixpp.Model
