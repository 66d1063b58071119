import Fixpp.Foundation.Tiling
import Fixpp.Model.Resend

/-!
# What answers a ResendRequest

The peer counts numbers: a resent message accounts for its own number, a GapFill for every
number from its MsgSeqNum up to its NewSeqNo. An answer is a list of frames that tile the
requested range, with no two GapFills next to each other. `resendOrder` follows an answer frame
by frame.
-/

namespace Fixpp.Interface

open Foundation Model

def valuesOf (tag : ℕ) (fields : List Field) : List Bytes :=
  (fields.filter fun f => f.1 = tag).map Prod.snd

@[simp] theorem valuesOf_nil (tag : ℕ) : valuesOf tag [] = [] := rfl

@[simp] theorem valuesOf_cons (tag : ℕ) (f : Field) (fields : List Field) :
    valuesOf tag (f :: fields) =
      if f.1 = tag then f.2 :: valuesOf tag fields else valuesOf tag fields := by
  by_cases h : f.1 = tag <;> simp [valuesOf, h]

@[simp] theorem valuesOf_append (tag : ℕ) (fields more : List Field) :
    valuesOf tag (fields ++ more) = valuesOf tag fields ++ valuesOf tag more := by
  simp [valuesOf]

/-- The fields carry a MsgSeqNum, and it reads `n`. -/
def Numbered (n : ℕ) (fields : List Field) : Prop :=
  valuesOf 34 fields ≠ [] ∧ ∀ v ∈ valuesOf 34 fields, parseSeqnum v = n

instance (n : ℕ) (fields : List Field) : Decidable (Numbered n fields) :=
  inferInstanceAs (Decidable (_ ∧ _))

/-- The numbers a frame of an answer accounts for: from `a` up to `b`. -/
def spans : Reply → ℕ → ℕ → Prop
  | .gapFill msgSeqNum newSeqNo, a, b => a = msgSeqNum ∧ b = newSeqNo ∧ a < b
  | .replay fields, a, b => Numbered a fields ∧ b = a + 1
  | _, _, _ => False

theorem spans_lt (r : Reply) (a b : ℕ) (h : spans r a b) : a < b := by
  cases r with
  | gapFill m n => exact h.2.2
  | replay fields => exact h.2 ▸ Nat.lt_succ_self a
  | _ => cases h

theorem spans_unique (r : Reply) (a b a' b' : ℕ) (h : spans r a b) (h' : spans r a' b') :
    a = a' ∧ b = b' := by
  cases r with
  | gapFill m n => exact ⟨h.1.trans h'.1.symm, h.2.1.trans h'.2.1.symm⟩
  | replay fields =>
    obtain ⟨v, hv⟩ := List.exists_mem_of_ne_nil _ h.1.1
    have hsame : a = a' := (h.1.2 v hv).symm.trans (h'.1.2 v hv)
    exact ⟨hsame, by rw [h.2, h'.2, hsame]⟩
  | _ => cases h

def gapFills : Reply → Bool
  | .gapFill _ _ => true
  | _ => false

def sentOf (log : List Event) : List Reply :=
  log.filterMap fun
    | .sent r => some r
    | _ => none

/-- How far an answer has come: the next number it has to account for, and whether
its last frame is a GapFill. -/
structure Progress where
  pos : ℕ
  afterGap : Bool := false

/-- The observer of an answer up to `stop`; `replays n fields` says which frames may
be resent for the number `n`. -/
def resendOrder (replays : ℕ → List Field → Prop) (stop : ℕ) : Monitor Event Progress where
  next
    | _, .sent (.gapFill _ newSeqNo) => ⟨newSeqNo, true⟩
    | t, .sent (.replay _) => ⟨t.pos + 1, false⟩
    | t, _ => t
  allows
    | t, .sent (.gapFill msgSeqNum newSeqNo) =>
      msgSeqNum = t.pos ∧ msgSeqNum < newSeqNo ∧ newSeqNo ≤ stop ∧ t.afterGap = false
    | t, .sent (.replay fields) => replays t.pos fields
    | _, .sent _ => False
    | _, _ => True

variable {replays : ℕ → List Field → Prop} {stop : ℕ}

/-- An accepted event sends nothing, or a frame that spans from where the answer
stands to where it goes. -/
theorem resendOrder_step (hnumbered : ∀ n fields, replays n fields → Numbered n fields)
    {t : Progress} {e : Event} (h : (resendOrder replays stop).allows t e) :
    (sentOf [e] = [] ∧ (resendOrder replays stop).next t e = t) ∨
      ∃ r, sentOf [e] = [r] ∧ spans r t.pos ((resendOrder replays stop).next t e).pos ∧
        (gapFills r = true → t.afterGap = false) ∧
        ((resendOrder replays stop).next t e).afterGap = gapFills r := by
  cases e with
  | sent r =>
    cases r with
    | gapFill m n =>
      obtain ⟨rfl, hlt, -, hfirst⟩ := h
      exact .inr ⟨_, rfl, ⟨rfl, rfl, hlt⟩, fun _ => hfirst, rfl⟩
    | replay fields =>
      refine .inr ⟨_, rfl, ⟨hnumbered _ _ h, rfl⟩, fun hgap => ?_, rfl⟩
      cases hgap
    | _ => cases h
  | _ => exact .inl ⟨rfl, rfl⟩

theorem sentOf_cons (e : Event) (log : List Event) : sentOf (e :: log) = sentOf [e] ++ sentOf log := by
  cases e <;> rfl

/-- The frames of an accepted answer tile the numbers it has come past. -/
theorem tiles_of_accepts (hnumbered : ∀ n fields, replays n fields → Numbered n fields)
    (log : List Event) (t : Progress) (hacc : (resendOrder replays stop).Accepts t log) :
    Tiles spans t.pos ((resendOrder replays stop).run t log).pos (sentOf log) := by
  induction log generalizing t with
  | nil => rfl
  | cons e rest ih =>
    have htail := ih _ hacc.2
    rw [sentOf_cons]
    rcases resendOrder_step hnumbered hacc.1 with ⟨hnone, hsame⟩ | ⟨r, hsent, hspan, -, -⟩
    · rw [hnone]
      simpa [hsame] using htail
    rw [hsent]
    exact ⟨_, hspan, htail⟩

theorem no_adjacent_gapFills (hnumbered : ∀ n fields, replays n fields → Numbered n fields)
    (log : List Event) (t : Progress) (hacc : (resendOrder replays stop).Accepts t log) :
    (sentOf log).IsChain (fun r r' => ¬ (gapFills r = true ∧ gapFills r' = true)) ∧
      ∀ r ∈ (sentOf log).head?, gapFills r = true → t.afterGap = false := by
  induction log generalizing t with
  | nil => exact ⟨.nil, by simp [sentOf]⟩
  | cons e rest ih =>
    obtain ⟨hchain, hhead⟩ := ih _ hacc.2
    rw [sentOf_cons]
    rcases resendOrder_step hnumbered hacc.1 with ⟨hnone, hsame⟩ | ⟨r, hsent, -, hfirst, hafter⟩
    · rw [hnone, List.nil_append]
      rw [hsame] at hhead
      exact ⟨hchain, hhead⟩
    rw [hsent, List.singleton_append]
    refine ⟨List.isChain_cons.mpr ⟨fun r' hr' hboth => ?_, hchain⟩, ?_⟩
    · have hnot := hhead r' hr' hboth.2
      simp [hafter, hboth.1] at hnot
    intro r' hr'
    obtain rfl : r = r' := by simpa using hr'
    exact hfirst

theorem pos_le_next {t : Progress} {e : Event} (h : (resendOrder replays stop).allows t e) :
    t.pos ≤ ((resendOrder replays stop).next t e).pos := by
  cases e with
  | sent r =>
    cases r with
    | gapFill m n =>
      obtain ⟨rfl, hlt, -⟩ := h
      exact Nat.le_of_lt hlt
    | replay fields => exact Nat.le_succ _
    | _ => cases h
  | _ => exact Nat.le_refl _

section Sent

variable (log : List Event) (t : Progress) (hacc : (resendOrder replays stop).Accepts t log)
include hacc

theorem allows_of_sent {r : Reply} (h : r ∈ sentOf log) :
    ∃ t', t.pos ≤ t'.pos ∧ (resendOrder replays stop).allows t' (.sent r) := by
  induction log generalizing t with
  | nil => cases h
  | cons e rest ih =>
    rw [sentOf_cons, List.mem_append] at h
    rcases h with hhere | hlater
    · cases e with
      | sent r' =>
        obtain rfl : r = r' := by simpa [sentOf] using hhere
        exact ⟨t, Nat.le_refl _, hacc.1⟩
      | _ => simp [sentOf] at hhere
    · obtain ⟨t', hpos, hallowed⟩ := ih _ hacc.2 hlater
      exact ⟨t', Nat.le_trans (pos_le_next hacc.1) hpos, hallowed⟩

theorem replays_of_accepts {fields : List Field} (h : Reply.replay fields ∈ sentOf log) :
    ∃ n, replays n fields := by
  obtain ⟨t', -, hallowed⟩ := allows_of_sent log t hacc h
  exact ⟨t'.pos, hallowed⟩

/-- A GapFill of an accepted answer moves forward within the range. -/
theorem gapFill_of_accepts {m n : ℕ} (h : Reply.gapFill m n ∈ sentOf log) :
    t.pos ≤ m ∧ m < n ∧ n ≤ stop := by
  obtain ⟨t', hpos, rfl, hlt, hle, -⟩ := allows_of_sent log t hacc h
  exact ⟨hpos, hlt, hle⟩

end Sent

end Fixpp.Interface
