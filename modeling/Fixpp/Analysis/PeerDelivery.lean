import Fixpp.Analysis.CarryCapacity
import Fixpp.Analysis.SendFidelity

/-!
# From one engine to the other

A frame of the send path is a frame the peer's resync parser takes, and an unfinished one leaves
it undecided. So the peer's pump hands its session the frames as they were sent, however the
stream comes in.
-/

namespace Fixpp.Analysis.PeerDelivery

open Foundation Interface Model Model.Framer List
open FramerStability FramerChunking FrameParsing ReadPump SendFidelity
open Model.Writer (renderU32)

variable {cfg : Config} {frames : List Bytes} {b rest : Bytes}

/-- The bytes of a frame that the resync framer takes. -/
def Framed (cfg : Config) (b : Bytes) : Prop :=
  ∃ v : FrameView, v.bytes = b ∧ (resyncScanner cfg).Takes false b [.frame v]

theorem framed_of_wireFrame {f : WireFrame} (h : WithinLimits cfg f) : Framed cfg f.bytes := by
  refine ⟨view f, rfl, fun tail => ?_⟩
  simp [resyncScanner, resyncStep, parseResyncCandidate_wireFrame h, view]

theorem reads_frames (h : ∀ b ∈ frames, Framed cfg b) (tail : Bytes) :
    ∃ es, (resyncScanner cfg).Reads false (frames.flatten ++ tail) es false tail ∧
      (framesOf es).map (·.bytes) = frames := by
  induction frames with
  | nil => exact ⟨[], .done _ _, rfl⟩
  | cons b frames ih =>
    obtain ⟨hb, hframes⟩ := forall_mem_cons.mp h
    obtain ⟨es, hreads, hes⟩ := ih hframes
    obtain ⟨v, hv, htakes⟩ := hb
    refine ⟨[.frame v] ++ es, ?_, ?_⟩
    · rw [flatten_cons, append_assoc]
      exact (htakes.reads _).trans hreads
    · rw [framesOf_append, map_append, hes]
      exact congrArg (· :: frames) hv

theorem resting_of_arrived {whole left : List Bytes} (h : Arrived frames b whole left rest)
    (hframes : ∀ b ∈ frames, Framed cfg b) : Resting cfg false rest := by
  cases left with
  | nil =>
    rw [prefix_nil.mp h.next]
    exact resting_nil cfg _
  | cons f left =>
    obtain ⟨v, -, htakes⟩ := hframes f (by simp [h.order])
    refine ⟨htakes.quiet h.next (h.short f rfl), fun hover => ?_⟩
    -- a candidate over the limit stays one when the rest of the frame follows
    obtain ⟨tail, htail⟩ := h.next
    have hquiet := (hover.append tail).quiet
    unfold FramerChunking.Quiet at hquiet
    rw [htail, flatten_cons, htakes] at hquiet
    cases hquiet

theorem framed_of_headOf {value digits tail : Bytes} {f : WireFrame}
    (hbytes : f.bytes = headOf value digits ++ tail) (hvalue : ∀ b ∈ value, b ≠ soh)
    (hdigits : ∀ b ∈ digits, b ≠ soh) (hcaps : value.length ≤ cfg.maxBeginStringBytes)
    (hcount : digits.length ≤ bodyLengthDigitCap) (hfits : f.bytes.length ≤ cfg.maxFrameBytes) :
    Framed cfg f.bytes := by
  have hparts := values_headOf hvalue hdigits tail
  have hown := values_headOf f.begin_clean
    (fun b hb => (ne_of_isDigit (f.length_digits b hb)).2) (f.body ++ f.trailer ++ [])
  rw [← bytes_append, append_nil, hbytes] at hown
  apply framed_of_wireFrame
  refine ⟨?_, ?_, hfits⟩
  · rwa [← hown.1, hparts.1]
  · rwa [← hown.2, hparts.2]

/-- The frames the send path of a session builds. -/
def SentBy (sender : SessionConfig) (frame : Bytes) : Prop :=
  ∃ payload seq clock prec,
    buildSendFrame sender payload seq (stampSendingTime clock prec) = .ok frame

theorem framed_of_sent {sender : SessionConfig} {frame : Bytes} (h : SentBy sender frame)
    (htexts : sender.textsAllowed = true)
    (hbegin : sender.beginString.length ≤ cfg.maxBeginStringBytes)
    (hlimit : sendFrameBytes ≤ cfg.maxFrameBytes) : Framed cfg frame := by
  obtain ⟨payload, seq, clock, prec, hbuilt⟩ := h
  obtain ⟨msgType, fields, -, -, hfields, hend, hsize, hframe⟩ := buildSendFrame_ok hbuilt
  obtain ⟨hwalk, -⟩ := payloadFields_walked hfields hend
  rw [flatMap_bodyFields hwalk] at hframe
  have hne : bodyFields sender msgType (stampSendingTime clock prec) seq fields ≠ [] := by
    simp [bodyFields]
  obtain ⟨f, hf⟩ := sendFrame_wireFrame hne (clean_texts htexts).1
  rw [← hf] at hframe
  generalize flatMap _ _ = body at hf
  have hbody : body.length ≤ frame.length := by
    rw [hframe, hf]
    simp [sendFrame, stampedField]
    omega
  rw [hframe] at hsize hbody ⊢
  have hhead : f.bytes = headOf sender.beginString (renderU32 body.length) ++ (body ++
      stampedField "10=" (Writer.checksumDigits (stampedField "8=" sender.beginString ++
        stampedField "9=" (renderU32 body.length) ++ body))) := by
    rw [hf]
    simp only [sendFrame, stampedField, headOf, append_assoc]
  apply framed_of_headOf hhead (clean_texts htexts).1
    (WriterCommit.clean_of_digits fun _ => isDigit_of_mem_renderU32) hbegin _
    (hsize.trans hlimit)
  apply (length_renderU32_le (by decide)).mpr
  have hsmall : sendFrameBytes < 10 ^ bodyLengthDigitCap := by decide
  omega

/-- Frames of one engine's send path, in reads of any sizes, behind some the peer already has: its
pump does not stop of its own accord, and its session has got exactly the frames that came in
whole, in order and as they were sent. -/
theorem sent_frames_delivered (sender : SessionConfig) (cfg : Config) (fate : PumpFate)
    (frames handed reads : List Bytes) (initial : Bytes) (htexts : sender.textsAllowed = true)
    (hbegin : sender.beginString.length ≤ cfg.maxBeginStringBytes)
    (hlimit : sendFrameBytes ≤ cfg.maxFrameBytes)
    (hheader : cfg.maxBeginStringBytes + 15 ≤ cfg.maxFrameBytes)
    (hsent : ∀ frame ∈ frames, SentBy sender frame) (hhanded : handed ⊆ frames)
    (hstream : handed.flatten ++ initial ++ reads.flatten <+: frames.flatten)
    (hsizes : ∀ r ∈ initial :: reads, r.length ≤ readSize) (hfate : ¬ReadPump.Ended fate) :
    ∃ whole left rest,
      Arrived frames (handed.flatten ++ initial ++ reads.flatten) whole left rest ∧
        runReadPump cfg fate initial handed reads = some whole := by
  have hframed : ∀ frame ∈ frames, Framed cfg frame := by
    intro frame hframe
    exact framed_of_sent (hsent frame hframe) htexts hbegin hlimit
  obtain ⟨whole, left, rest, harrived⟩ := exists_arrived hstream
  refine ⟨whole, left, rest, harrived, ?_⟩
  have hcame : ∀ frame ∈ whole, Framed cfg frame := by
    intro frame hframe
    exact hframed frame (by simp [harrived.order, hframe])
  obtain ⟨es, hes, hwhole⟩ := reads_frames hcame rest
  have hresting := resting_of_arrived harrived hframed
  rw [← harrived.split] at hes
  obtain ⟨es₀, hes₀, hbefore⟩ := reads_frames (fun b hb => hframed b (hhanded hb)) initial
  have hend := runReadPump_spec fate reads hes₀ hbefore
  cases hpump : runReadPump cfg fate initial handed reads with
  | some got =>
    rw [hpump] at hend
    obtain ⟨st, -, ⟨es', hes', hgot⟩, hquiet⟩ := hend
    obtain ⟨rfl, -⟩ := hes.unique hes' hresting.1 hquiet.1
    rw [← hgot, hwhole]
  | none =>
    rw [hpump] at hend
    rcases hend with hended | ⟨es', t, c, hes', hover⟩ | ⟨s, c, hrest, r, hr, hlt⟩
    · exact absurd hended hfate
    · obtain ⟨-, rfl, rfl⟩ := hes.unique hes' hresting.1 hover.quiet
      exact absurd hover hresting.2
    · have hle := CarryCapacity.length_of_resting hrest hheader
      have hsize := hsizes r hr
      omega

/-- An order that comes in two reads. -/
theorem sent_frames_delivered_order :
    let frame := fieldsOf ["8=FIX.4.4", "9=52", "35=D", "34=1", "49=US", "52=19700101-00:00:00",
      "56=PEER", "55=IBM", "10=096"]
    let reads := [frame.take 30, frame.drop 30]
    ∃ whole left rest, Arrived [frame] reads.flatten whole left rest ∧
      runReadPump {} ⟨fun _ => false, fun _ _ => false⟩ [] [] reads = some whole := by
  intro frame reads
  have hsent : ∀ f ∈ [frame], SentBy { hooks := .none } f := by
    intro f hf
    rw [mem_singleton.mp hf]
    exact ⟨fieldsOf ["35=D", "55=IBM"], 1, some 0, .seconds, by decide +kernel⟩
  have hstream : reads.flatten <+: [frame].flatten := by simp [reads]
  exact sent_frames_delivered { hooks := .none } {} ⟨fun _ => false, fun _ _ => false⟩ [frame] []
    reads [] (by decide +kernel) (by decide) (by decide) (by decide) hsent (nil_subset _) hstream
    (by decide +kernel) (by simp [ReadPump.Ended])

end Fixpp.Analysis.PeerDelivery
