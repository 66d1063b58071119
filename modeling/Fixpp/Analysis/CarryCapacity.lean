import Fixpp.Analysis.ReadPump

/-!
# The carry is large enough

What stays pending behind a drain is a candidate that is not decided: a capped header, or a frame
within the limit. So a carry of the limit and one read has room for the next read.
-/

namespace Fixpp.Analysis.CarryCapacity

open Foundation Model Model.Framer List
open FramerStability FramerChunking ReadPump

variable {cfg : Config} {s : Bool} {b : Bytes} {st : State} {incoming : Bytes} {outSize : ℕ}

/-! ## What is not decided -/

theorem scanBeginString_incomplete {cap count : ℕ} (hcap : count ≤ cap)
    (h : scanBeginString cap count b = .stopped .incomplete) : count + b.length ≤ cap := by
  fun_induction scanBeginString cap count b with
  | case1 => exact hcap
  | case4 count x b _ _ ih => grind [ih (by omega) h]
  | _ => cases h

theorem scanBodyLength_incomplete {limit count value : ℕ} (hcap : count ≤ bodyLengthDigitCap)
    (h : scanBodyLength limit count value b = .stopped .incomplete) :
    count + b.length ≤ bodyLengthDigitCap := by
  fun_induction scanBodyLength limit count value b with
  | case1 => exact hcap
  | case6 count value x b _ _ _ _ ih => grind [ih (by omega) h]
  | _ => cases h

theorem matchPattern_runsOut {p : Bytes} (h : matchPattern p b = .runsOut) :
    b.length < p.length := by
  fun_induction matchPattern p b with
  | case2 => exact Nat.succ_pos _
  | case3 _ _ _ ih => exact Nat.succ_lt_succ (ih h)
  | _ => cases h

theorem frameExtent_incomplete {bodyOff bodyLen : ℕ}
    (h : frameExtent cfg b bodyOff bodyLen = .incomplete) : b.length ≤ cfg.maxFrameBytes := by
  dsimp only [frameExtent] at h
  split at h
  · cases h
  split at h
  · omega
  · rcases checkTrailer_cases b bodyOff bodyLen with ⟨kind, hc⟩ | hc | hc <;> rw [hc] at h <;> cases h

theorem parseBodyLength_incomplete {beginLen : ℕ} {after : Bytes}
    (h : parseBodyLength cfg b beginLen after = .incomplete) :
    b.length ≤ cfg.maxFrameBytes ∨ after.length ≤ 12 := by
  unfold parseBodyLength at h
  split at h
  · exact .inr (Nat.zero_le _)
  · exact .inr (Nat.le_add_left _ _)
  split at h
  · cases h
  split at h
  next hscan =>
    subst h
    have := scanBodyLength_incomplete (Nat.zero_le _) hscan
    rw [show bodyLengthDigitCap = 10 from rfl] at this
    refine .inr ?_
    simp only [length_cons]
    omega
  split at h
  · cases h
  · exact .inl (frameExtent_incomplete h)

theorem length_of_incomplete (h : parseResyncCandidate cfg b = .incomplete) :
    b.length ≤ cfg.maxFrameBytes ∨ b.length ≤ cfg.maxBeginStringBytes + 15 := by
  unfold parseResyncCandidate at h
  split at h
  · exact .inl (Nat.zero_le _)
  split at h
  · cases h
  split at h
  · exact .inr (by simp)
  split at h
  · cases h
  split at h
  next hscan =>
    subst h
    have := scanBeginString_incomplete (Nat.zero_le _) hscan
    refine .inr ?_
    simp only [length_cons]
    omega
  next hscan =>
    obtain ⟨⟨value, rfl, -, rfl, hle⟩, -⟩ := (scanBeginString_decides 0 (Nat.zero_le _) _).found hscan
    refine (parseBodyLength_incomplete h).imp_right fun hafter => ?_
    simp only [length_cons, length_append]
    omega

theorem length_of_resting (h : Resting cfg s b)
    (hheader : cfg.maxBeginStringBytes + 15 ≤ cfg.maxFrameBytes) : b.length ≤ cfg.maxFrameBytes := by
  obtain ⟨hquiet, hover⟩ := h
  cases s with
  | true =>
    have hruns : matchPattern resyncStart b = .runsOut := by
      unfold FramerChunking.Quiet at hquiet
      dsimp only [resyncScanner, resyncStep] at hquiet
      split at hquiet <;> trivial
    have := matchPattern_runsOut hruns
    rw [show resyncStart.length = 5 from rfl] at this
    omega
  | false =>
    have hincomplete : parseResyncCandidate cfg b = .incomplete := by
      unfold FramerChunking.Quiet at hquiet
      dsimp only [resyncScanner, resyncStep] at hquiet
      split at hquiet
      · assumption
      next htoo => exact absurd ⟨rfl, htoo⟩ hover
      · cases hquiet
      · cases hquiet
    rcases length_of_incomplete hincomplete with h | h <;> omega

/-! ## The carry -/

structure Room (n : ℕ) (c : CarryBuffer) : Prop where
  capacity : c.capacity = n
  length_le : c.bytes.length ≤ n

theorem Room.append {n : ℕ} {c c' : CarryBuffer} (hroom : Room n c)
    (h : c.append incoming = some c') : Room n c' := by
  obtain ⟨rfl, -⟩ := hroom
  unfold CarryBuffer.append at h
  split at h
  · cases h
  cases h
  exact ⟨rfl, by rw [length_append]; omega⟩

theorem Room.clear {n : ℕ} {c : CarryBuffer} (hroom : Room n c) : Room n c.clear :=
  ⟨hroom.capacity, Nat.zero_le _⟩

theorem Room.settled {n : ℕ} (hroom : Room n st.carry) (incoming : Bytes) :
    Room n (settleCarry st incoming) := by
  unfold settleCarry
  split
  · exact hroom.clear
  split
  · refine ⟨hroom.capacity, Nat.le_trans ?_ hroom.length_le⟩
    exact (drop_sublist _ _).length_le
  · exact hroom

theorem Room.feed {n : ℕ} (hroom : Room n st.carry) :
    Room n (feedResync cfg st incoming outSize).1.carry := by
  have hsettled := hroom.settled incoming
  unfold feedResync
  dsimp only
  split
  · split
    · exact hsettled.clear
    unfold finishOutside
    split
    · exact hsettled
    split
    · exact hsettled.clear
    next happ => exact hsettled.append happ
  split
  · exact hsettled.clear
  next happ =>
  split
  · exact (hsettled.append happ).clear
  · exact hsettled.append happ

theorem Room.feeds {n : ℕ} (hroom : Room n st.carry) (feeds : List (Bytes × ℕ)) :
    Room n (feeds.foldl (fun st f => (feedResync cfg st f.1 f.2).1) st).carry := by
  induction feeds generalizing st with
  | nil => exact hroom
  | cons f feeds ih => exact ih hroom.feed

/-- A BeginString longer than the limit and a read, in three reads. -/
def longBegin : List Bytes :=
  [56 :: 61 :: replicate 4094 65, replicate 4096 65, [65]]

end Fixpp.Analysis.CarryCapacity
