import Fixpp.Analysis.SendFidelity

/-!
# Replayed frames

`build_replay_frame` reads a stored frame field by field (`storedFields_rendered`) and rebuilds
it from exactly its fields: SendingTime is stamped anew, and the PossDup fields go behind the
session's own fields. What the caller's PossDup fields leave behind must not become a pair.
-/

namespace Fixpp.Analysis.ReplayFidelity

open Foundation Interface Model Model.Writer List
open WriterCommit SendFidelity

variable {hooks : DictHooks} {fuel : ℕ} {msgType digits checks stored time original : Bytes}
  {all rest : List Field}

/-! ## Reading the stored frame -/

variable {carry : LengthDataCarry} {fields : List PayloadField} {sent : List Field}
    {cfg : SessionConfig} {seq : ℕ}

theorem scanField_rendered (hooks : DictHooks) {f : Field} (hpos : 0 < f.1) (htag : f.1 ≤ tagMax)
    (hend : EndsRight carry f) (rest : Bytes) :
    scanField hooks carry (fieldBytes f ++ rest) = (.ok f, rest, carry.next hooks f) := by
  unfold scanField
  rw [fieldBytes_append, span_digits fun _ => isDigit_of_mem_renderU32]
  dsimp only
  rw [if_neg (not_not.mpr rfl), parseOutboundTag_iff.mpr ⟨hpos, htag, rfl⟩]
  dsimp only
  rw [readValue_rendered hend]
  rfl

theorem scanField_first {f : Field} {fields : List Field} (h : Readable hooks carry (f :: fields))
    (hpos : 0 < f.1) : ∃ b bytes, (f :: fields).flatMap fieldBytes = b :: bytes ∧
      scanField hooks carry (b :: bytes) =
        (.ok f, fields.flatMap fieldBytes, carry.next hooks f) := by
  obtain ⟨b, bytes, hcons⟩ := exists_cons_of_ne_nil
    (show fieldBytes f ++ fields.flatMap fieldBytes ≠ [] by simp [fieldBytes])
  have hscan := scanField_rendered hooks hpos h.1 h.2.1 (fields.flatMap fieldBytes)
  rw [hcons] at hscan
  exact ⟨b, bytes, hcons, hscan⟩

theorem storedFields_rendered {fields : List Field} (h : Readable hooks carry fields)
    (hpos : ∀ f ∈ fields, 0 < f.1) (hfuel : fields.length ≤ fuel) :
    storedFields hooks fuel carry (fields.flatMap fieldBytes) = .ok fields := by
  induction fields generalizing fuel carry with
  | nil => cases fuel <;> rfl
  | cons f fields ih =>
    rw [length_cons] at hfuel
    obtain ⟨fuel, rfl⟩ : ∃ m, fuel = m + 1 := ⟨fuel - 1, by omega⟩
    obtain ⟨b, bytes, hcons, hscan⟩ := scanField_first h (hpos f mem_cons_self)
    rw [hcons, storedFields, hscan]
    dsimp only
    rw [ih h.2.2 (fun g hg => hpos g (mem_cons_of_mem _ hg)) (by omega)]

theorem findSendingTime_rendered {fields : List Field} (h : Readable hooks carry fields)
    (hpos : ∀ f ∈ fields, 0 < f.1) (hfuel : fields.length ≤ fuel) :
    findSendingTime hooks fuel carry (fields.flatMap fieldBytes) =
      .ok ((fields.find? fun f => f.1 = 52).map (·.2)) := by
  induction fields generalizing fuel carry with
  | nil => cases fuel <;> rfl
  | cons f fields ih =>
    rw [length_cons] at hfuel
    obtain ⟨fuel, rfl⟩ : ∃ m, fuel = m + 1 := ⟨fuel - 1, by omega⟩
    obtain ⟨b, bytes, hcons, hscan⟩ := scanField_first h (hpos f mem_cons_self)
    rw [hcons, findSendingTime, hscan, find?_cons]
    dsimp only
    by_cases htime : f.1 = 52
    · simp [htime]
    rw [if_neg htime, ih h.2.2 (fun g hg => hpos g (mem_cons_of_mem _ hg)) (by omega)]
    simp [htime]

/-! ## The fields of the replay -/

def Behind (f : Field) : Prop := f.1 ∉ replayHeaderTags ∧ f.1 ∉ [9, 10]

def stays (f : Field) : Bool := f.1 ≠ 43 ∧ f.1 ≠ 122

theorem replayFields_behind (time checks : Bytes) (possdup : List Field) (inserted : Bool)
    (h : ∀ f ∈ sent, Behind f) :
    replayFields time possdup inserted (sent ++ [(10, checks)]) =
      (if inserted then [] else possdup) ++ sent.filter stays := by
  induction sent generalizing inserted with
  | nil =>
    rw [nil_append, replayFields, if_pos (by decide), replayFields]
    cases inserted <;> simp
  | cons f sent ih =>
    obtain ⟨tag, value⟩ := f
    obtain ⟨hheader, hframing⟩ := h (tag, value) mem_cons_self
    have hlater := fun inserted => ih inserted fun g hg => h g (mem_cons_of_mem _ hg)
    have hnot52 : tag ≠ 52 := by
      rintro rfl
      exact hheader (show 52 ∈ replayHeaderTags by decide)
    rw [cons_append, replayFields]
    by_cases hstays : stays (tag, value) = true
    · have hdropped : tag ∉ replayDroppedTags := by
        simp only [stays, decide_eq_true_eq] at hstays
        simp only [replayDroppedTags, mem_cons, not_mem_nil, or_false] at hframing ⊢
        tauto
      rw [if_neg hdropped, if_neg hnot52, filter_cons_of_pos hstays]
      cases inserted with
      | true => rw [if_neg (by simp), hlater true]; rfl
      | false => rw [if_pos ⟨rfl, hheader⟩, hlater true]; rfl
    · have hdropped : tag ∈ replayDroppedTags := by
        simp only [stays, decide_eq_true_eq, not_and_or, not_not] at hstays
        rcases hstays with rfl | rfl <;> decide
      rw [if_pos hdropped, filter_cons_of_neg hstays, hlater inserted]

/-- The fields of a replay, as the writer gets them. -/
def replayed (cfg : SessionConfig) (msgType time original : Bytes) (seq : ℕ) (rest : List Field) :
    List Field :=
  (8, cfg.beginString) :: ([(35, msgType), (34, renderU32 seq), (49, cfg.senderCompId), (52, time),
    (56, cfg.targetCompId), (43, ascii "Y"), (122, original)] ++ rest)

def originalOr (time stored : Bytes) : Bytes := if stored = [] then time else stored

theorem buildReplayFrame_rendered
    (hall : all = sessionFields cfg msgType digits stored seq ++ sent ++ [(10, checks)])
    (hread : Readable cfg.hooks {} all) (hbehind : ∀ f ∈ sent, Behind f)
    (hpos : ∀ f ∈ sent, 0 < f.1) (htime : time ≠ []) {bytes : Bytes}
    (hframe : Writer.frame replayBytes (replayed cfg msgType time (originalOr time stored) seq
      (sent.filter stays)) = some bytes) :
    buildReplayFrame cfg.hooks (all.flatMap fieldBytes) time =
      .ok (replayed cfg msgType time (originalOr time stored) seq (sent.filter stays)) := by
  have hposAll : ∀ f ∈ all, 0 < f.1 := by
    simp only [hall, forall_mem_append]
    exact ⟨⟨by simp [sessionFields], hpos⟩, by simp⟩
  have hfuel := length_le_flatMap_fieldBytes all
  have hpossdup : possdupFields time (some stored) =
      [(43, ascii "Y"), (122, originalOr time stored)] := by
    simp [possdupFields, originalOr]
  have hfields : replayFields time [(43, ascii "Y"), (122, originalOr time stored)] false all =
      replayed cfg msgType time (originalOr time stored) seq (sent.filter stays) := by
    have hlater := replayFields_behind time checks
      [(43, ascii "Y"), (122, originalOr time stored)] false hbehind
    simp [hall, sessionFields, replayFields, replayDroppedTags, replayHeaderTags, hlater, replayed]
  have hfound : (all.find? fun f : Field => f.1 = 52).map Prod.snd = some stored := by
    simp [hall, sessionFields]
  unfold buildReplayFrame
  rw [findSendingTime_rendered hread hposAll hfuel, storedFields_rendered hread hposAll hfuel,
    hfound]
  dsimp only
  rw [if_neg htime, if_neg htime, hpossdup, hfields, hframe]

/-! ## Room for the replay -/

theorem frame_of_le {capacity : ℕ} {first : Field} (hcap : capacity ≤ 10 ^ 6)
    (hroom : ((first :: rest).flatMap fieldBytes).length + 16 ≤ capacity) :
    ∃ bytes, Writer.frame capacity (first :: rest) = some bytes := by
  rw [flatMap_cons, length_append] at hroom
  have hdigits : (renderU32 (rest.flatMap fieldBytes).length).length ≤ 6 :=
    (length_renderU32_le (by decide)).mpr (by omega)
  unfold Writer.frame maxBodyLengthDigits
  dsimp only
  rw [if_neg (by omega), if_neg (by omega), if_neg]
  · exact ⟨_, rfl⟩
  simp only [length_append, length_singleton, show (ascii "9=").length = 2 from rfl]
  omega

theorem length_writeDigits (value width : ℕ) : (writeDigits value width).length = width := by
  induction width generalizing value with
  | zero => rfl
  | succ width ih => rw [writeDigits, length_append, ih, length_singleton]

theorem length_stampSendingTime (clock : Option ℤ) (prec : FixTimePrecision) :
    (stampSendingTime clock prec).length ≤ 27 := by
  cases clock with
  | none => exact Nat.zero_le _
  | some now =>
    cases prec <;> simp [stampSendingTime, utcTimeToFixString, length_writeDigits, ascii]

theorem stampSendingTime_ne_nil (now : ℤ) (prec : FixTimePrecision) :
    stampSendingTime (some now) prec ≠ [] := by
  intro hnil
  have hlen := congrArg length hnil
  simp [stampSendingTime, utcTimeToFixString, length_writeDigits, ascii] at hlen

theorem length_fieldBytes (f : Field) :
    (fieldBytes f).length = (renderU32 f.1).length + f.2.length + 2 := by
  simp only [fieldBytes, length_append, length_cons, length_nil]
  omega

/-- What a frame and its replays have in common. -/
def common (cfg : SessionConfig) (msgType : Bytes) (seq : ℕ) (rest : List Field) : List Field :=
  [(8, cfg.beginString), (35, msgType), (34, renderU32 seq), (49, cfg.senderCompId),
    (56, cfg.targetCompId)] ++ rest

theorem replayed_fits (hcommon : ((common cfg msgType seq rest).flatMap fieldBytes).length ≤
      captureBytes) (htime : time.length ≤ 27) (horiginal : original.length ≤ 27) :
    ∃ bytes, Writer.frame replayBytes (replayed cfg msgType time original seq rest) = some bytes := by
  have hlen : ((replayed cfg msgType time original seq rest).flatMap fieldBytes).length =
      ((common cfg msgType seq rest).flatMap fieldBytes).length + time.length + original.length +
        14 := by
    simp only [replayed, common, flatMap_cons, cons_append, nil_append,
      length_append, length_fieldBytes, show (renderU32 52).length = 2 by decide,
      show (renderU32 43).length = 2 by decide, show (renderU32 122).length = 3 by decide,
      show (ascii "Y").length = 1 by decide]
    omega
  refine frame_of_le (by decide) ?_
  rw [← replayed, hlen]
  unfold captureBytes at hcommon
  unfold replayBytes captureBytes
  omega

/-- One replay. A stored frame that is read back is rebuilt and written. -/
theorem replay_rendered
    (hall : all = sessionFields cfg msgType digits stored seq ++ sent ++ [(10, checks)])
    (hread : Readable cfg.hooks {} all) (hbehind : ∀ f ∈ sent, Behind f)
    (hpos : ∀ f ∈ sent, 0 < f.1)
    (hcommon : ((common cfg msgType seq (sent.filter stays)).flatMap fieldBytes).length ≤
      captureBytes) (hne : time ≠ []) (htime : time.length ≤ 27) (hstored : stored.length ≤ 27) :
    ∃ bytes digits' checks', buildReplayFrame cfg.hooks (all.flatMap fieldBytes) time =
        .ok (replayed cfg msgType time (originalOr time stored) seq (sent.filter stays)) ∧
      Writer.frame replayBytes (replayed cfg msgType time (originalOr time stored) seq
        (sent.filter stays)) = some bytes ∧
      (∀ b ∈ digits', b ≠ soh) ∧ (∀ b ∈ checks', b ≠ soh) ∧
      bytes = (sessionFields cfg msgType digits' time seq ++
        ((43, ascii "Y") :: (122, originalOr time stored) :: sent.filter stays) ++
        [(10, checks')]).flatMap fieldBytes := by
  have horiginal : (originalOr time stored).length ≤ 27 := by
    unfold originalOr
    split
    · exact htime
    · exact hstored
  obtain ⟨bytes, hframe⟩ := replayed_fits hcommon htime horiginal
  obtain ⟨summed, hbytes, -⟩ := frame_eq_fields hframe
  exact ⟨bytes, _, _, buildReplayFrame_rendered hall hread hbehind hpos hne hframe, hframe,
    clean_of_digits fun _ => isDigit_of_mem_renderU32,
    clean_of_digits fun _ => isDigit_of_mem_checksumDigits, hbytes⟩

/-! ## Replays of sent frames -/

/-- A PossDup field that is replaced does not count a value that stays, and no field gets behind a
Length with its tag that did not stand there in the frame. -/
def ReplayKept (cfg : SessionConfig) (fields : List PayloadField) : Prop :=
  let sent := headerFields cfg fields ++ otherFields cfg fields
  (sent.IsChain fun f g => g.counted = true → stays g.field = true → stays f.field = true) ∧
    (frameMarks [8, 9, 35, 34, 49, 52, 56, 43, 122]
      (sent.filter fun f => stays f.field)).IsChain (PairCounted cfg.hooks)

instance (cfg : SessionConfig) (fields : List PayloadField) : Decidable (ReplayKept cfg fields) := by
  unfold ReplayKept
  infer_instance

def stayingFields (cfg : SessionConfig) (fields : List PayloadField) : List Field :=
  ((headerFields cfg fields ++ otherFields cfg fields).map PayloadField.field).filter stays

theorem behind_of_walked (hwalk : Walked cfg.hooks {} fields) :
    ∀ f ∈ (headerFields cfg fields ++ otherFields cfg fields).map PayloadField.field,
      Behind f ∧ 0 < f.1 := by
  intro f hf
  obtain ⟨g, hg, rfl⟩ := mem_map.mp hf
  obtain ⟨-, htag, hrefused, -⟩ := hwalk.of_mem (mem_of_mem_sent hg)
  simp only [refusedTags, mem_cons, not_mem_nil, or_false, not_or] at hrefused
  refine ⟨⟨?_, ?_⟩, htag.1⟩
  · simp only [replayHeaderTags, mem_cons, not_mem_nil, or_false, not_or]
    tauto
  simp only [mem_cons, not_mem_nil, or_false, not_or]
  tauto

theorem sent_of_staying
    (hsent : ∀ f ∈ (headerFields cfg fields ++ otherFields cfg fields).map PayloadField.field,
      Behind f ∧ 0 < f.1) (original : Bytes) :
    ∀ f ∈ (43, ascii "Y") :: (122, original) :: stayingFields cfg fields, Behind f ∧ 0 < f.1 := by
  refine forall_mem_cons.mpr ⟨by simp [Behind, replayHeaderTags], ?_⟩
  refine forall_mem_cons.mpr ⟨by simp [Behind, replayHeaderTags], fun f hf => ?_⟩
  exact hsent f (mem_of_mem_filter hf)

theorem filter_staying (cfg : SessionConfig) (fields : List PayloadField) (original : Bytes) :
    ((43, ascii "Y") :: (122, original) :: stayingFields cfg fields).filter stays =
      stayingFields cfg fields := by
  rw [filter_cons_of_neg (by simp [stays]), filter_cons_of_neg (by simp [stays]),
    stayingFields, filter_filter]
  simp

theorem length_common
    (h : ((sessionFields cfg msgType digits stored seq ++ sent ++ [(10, checks)]).flatMap
      fieldBytes).length ≤ captureBytes) :
    ((common cfg msgType seq (sent.filter stays)).flatMap fieldBytes).length ≤ captureBytes := by
  have hsub : (common cfg msgType seq (sent.filter stays)).Sublist
      (sessionFields cfg msgType digits stored seq ++ sent ++ [(10, checks)]) := by
    refine .trans ?_ (sublist_append_left _ _)
    refine .append ?_ filter_sublist
    simp [sessionFields]
  exact (hsub.flatMap fieldBytes).length_le.trans h

theorem readable_replay (hwalk : Walked cfg.hooks {} fields) (hkept : PairsKept cfg fields)
    (hreplay : ReplayKept cfg fields)
    (hsession : ∀ f ∈ sessionFields cfg msgType digits time seq, ∀ b ∈ f.2, b ≠ soh)
    (horiginal : ∀ b ∈ original, b ≠ soh) (hchecks : ∀ b ∈ checks, b ≠ soh) :
    Readable cfg.hooks {} (sessionFields cfg msgType digits time seq ++
      ((43, ascii "Y") :: (122, original) :: stayingFields cfg fields) ++ [(10, checks)]) := by
  have hsettled := settled_sent hwalk hkept.1
  have hstay : SendFidelity.Settled cfg.hooks
    ((headerFields cfg fields ++ otherFields cfg fields).filter
      fun f => stays f.field) :=
    .filter ⟨hsettled.head, (isChain_and hsettled.chain hreplay.1).imp
      fun f g hfg hc => ⟨hfg.1 hc, hfg.2 hc⟩⟩
  have hfront : ∀ f ∈ sessionFields cfg msgType digits time seq ++
      [(43, ascii "Y"), (122, original)], f.1 ≤ tagMax ∧ ∀ b ∈ f.2, b ≠ soh := by
    intro f hf
    rcases mem_append.mp hf with hin | hin
    · have htags : ∀ f ∈ sessionFields cfg msgType digits time seq, f.1 ≤ tagMax := by
        simp [sessionFields, tagMax]
      exact ⟨htags f hin, hsession f hin⟩
    rcases mem_cons.mp hin with rfl | hin
    · exact ⟨show 43 ≤ tagMax by decide, show ∀ b ∈ ascii "Y", b ≠ soh by decide⟩
    rw [mem_singleton] at hin
    subst hin
    exact ⟨show 122 ≤ tagMax by decide, horiginal⟩
  have hread := readable_framed hfront (fun f hf => ?_) hchecks hstay hreplay.2
  · rw [stayingFields, filter_map]
    exact hread
  obtain ⟨-, htag, -, hclean⟩ := hwalk.of_mem (mem_of_mem_sent (mem_of_mem_filter hf))
  exact ⟨htag.2, hclean⟩

theorem clean_originalOr (htime : ∀ b ∈ time, b ≠ soh) (hstored : ∀ b ∈ stored, b ≠ soh) :
    ∀ b ∈ originalOr time stored, b ≠ soh := by
  unfold originalOr
  split
  · exact htime
  · exact hstored

def replayedSplit (cfg : SessionConfig) (msgType digits time original checks : Bytes) (seq : ℕ)
    (rest : List Field) : List Field :=
  [(8, cfg.beginString), (9, digits), (35, msgType), (34, renderU32 seq), (49, cfg.senderCompId),
    (52, time), (56, cfg.targetCompId), (43, ascii "Y"), (122, original)] ++ rest ++ [(10, checks)]

/-- The replay of a sent frame whose pairs are kept succeeds at any time. Its fields are those of
the frame in their order, with the new SendingTime, and with one PossDupFlag and one OrigSendingTime
right behind the TargetCompID: the SendingTime of the frame, or the new one when that is empty. The
strict framer takes it for one frame. The OrigSendingTime of a replay of the replay is the
SendingTime of the first replay. -/
theorem replay_fidelity (cfg : SessionConfig) (payload frame : Bytes) (seq : ℕ)
    (clock : Option ℤ) (now later : ℤ) (prec : FixTimePrecision) (framer : Framer.Config)
    (capacity outSize : ℕ) (htexts : cfg.textsAllowed = true)
    (hbuilt : buildSendFrame cfg payload seq (stampSendingTime clock prec) = .ok frame)
    (hkept : ∀ fields, payloadFields cfg.hooks payload.length {} (behindMsgType payload) =
      some fields → PairsKept cfg fields ∧ ReplayKept cfg fields)
    (hlimit : framer.maxFrameBytes < StrictFramer.sizeLimit) (hout : 0 < outSize) :
    let stored := stampSendingTime clock prec
    let time := stampSendingTime (some now) prec
    let time' := stampSendingTime (some later) prec
    ∃ (msgType : Bytes) (fields : List PayloadField),
      (∃ digits checks, splitFields cfg.hooks frame =
        [(8, cfg.beginString), (9, digits), (35, msgType), (34, renderU32 seq),
          (49, cfg.senderCompId), (52, stored), (56, cfg.targetCompId)] ++
        (headerFields cfg fields ++ otherFields cfg fields).map PayloadField.field ++
        [(10, checks)]) ∧
      ∃ out bytes, buildReplayFrame cfg.hooks frame time = .ok out ∧
        Writer.frame replayBytes out = some bytes ∧
        (∃ digits checks, splitFields cfg.hooks bytes = replayedSplit cfg msgType digits time
          (originalOr time stored) checks seq (stayingFields cfg fields)) ∧
        (headerCut cfg.hooks bytes).malformedAt = none ∧
        (∃ f : WireFrame, f.bytes = bytes ∧ (bytes.length ≤ framer.maxFrameBytes →
          StrictFramer.feed framer (StrictFramer.fresh capacity) bytes outSize =
            (StrictFramer.fresh capacity, .ok [FrameParsing.view f]))) ∧
        ∃ out' bytes', buildReplayFrame cfg.hooks bytes time' = .ok out' ∧
          Writer.frame replayBytes out' = some bytes' ∧
          ∃ digits checks, splitFields cfg.hooks bytes' = replayedSplit cfg msgType digits time'
            time checks seq (stayingFields cfg fields) := by
  intro stored time time'
  obtain ⟨msgType, fields, hmsgType, -, hfields, hend, hsize, hframe⟩ := buildSendFrame_ok hbuilt
  obtain ⟨hwalk, -⟩ := payloadFields_walked hfields hend
  obtain ⟨hpairs, hreplay⟩ := hkept fields hfields
  rw [flatMap_bodyFields hwalk] at hframe
  obtain ⟨digits, checks, hdigits, hchecks, hbytesOf⟩ := sendFrame_eq cfg
    (bodyFields cfg msgType stored seq fields)
  rw [← hframe] at hbytesOf
  have hcleanStored := clean_stampSendingTime clock prec
  have hcleanTime := clean_stampSendingTime (some now) prec
  -- The frame as it was sent.
  have hread := readable_sent hwalk hpairs
    (@clean_sessionFields cfg msgType digits stored seq htexts hmsgType hdigits hcleanStored) hchecks
  have hsent := behind_of_walked hwalk
  rw [hbytesOf] at hsize
  have hfits : ((common cfg msgType seq (stayingFields cfg fields)).flatMap fieldBytes).length ≤
      captureBytes := length_common hsize
  obtain ⟨bytes, digits₁, checks₁, hbuilt₁, hframe₁, hdigits₁, hchecks₁, hbytes₁⟩ :=
    replay_rendered rfl hread (fun f hf => (hsent f hf).1) (fun f hf => (hsent f hf).2) hfits
      (stampSendingTime_ne_nil now prec) (length_stampSendingTime _ _) (length_stampSendingTime _ _)
  -- The first replay, and the replay of it.
  have hread₁ := readable_replay hwalk hpairs hreplay
    (@clean_sessionFields cfg msgType digits₁ time seq htexts hmsgType hdigits₁ hcleanTime)
    (clean_originalOr hcleanTime hcleanStored) hchecks₁
  have hstaying := sent_of_staying hsent (originalOr time stored)
  have hfilter := filter_staying cfg fields (originalOr time stored)
  obtain ⟨bytes', digits₂, checks₂, hbuilt₂, hframe₂, hdigits₂, hchecks₂, hbytes₂⟩ :=
    replay_rendered rfl hread₁ (fun f hf => (hstaying f hf).1) (fun f hf => (hstaying f hf).2)
      (by rw [hfilter]; exact hfits) (stampSendingTime_ne_nil later prec)
      (length_stampSendingTime _ _) (length_stampSendingTime _ _)
  have horiginal : originalOr time' time = time := if_neg (stampSendingTime_ne_nil now prec)
  rw [hfilter, horiginal] at hbytes₂
  have hread₂ := readable_replay hwalk hpairs hreplay
    (@clean_sessionFields cfg msgType digits₂ time' seq htexts hmsgType hdigits₂
      (clean_stampSendingTime (some later) prec)) hcleanTime hchecks₂
  obtain ⟨f, hf⟩ := frame_wireFrame hframe₁ (clean_texts htexts).1 (by simp)
  have hsplit := splitFields_rendered hread
  have hsplit₁ := splitFields_rendered hread₁
  have hsplit₂ := splitFields_rendered hread₂
  refine ⟨msgType, fields, ⟨digits, checks, ?_⟩, _, bytes, ?_, hframe₁, ⟨digits₁, checks₁, ?_⟩, ?_,
    ⟨f, hf, fun hlen => ?_⟩, _, bytes', ?_, hframe₂, digits₂, checks₂, ?_⟩
  · rw [hbytesOf]
    exact hsplit.1
  · rw [hbytesOf]
    exact hbuilt₁
  · rw [hbytes₁]
    exact hsplit₁.1
  · rw [hbytes₁]
    exact hsplit₁.2
  · rw [← hf] at hlen ⊢
    exact StrictFraming.feed_wireFrame hlimit capacity hout hlen
  · rw [hbytes₁]
    exact hbuilt₂
  rw [hbytes₂]
  exact hsplit₂.1

/-- The caller's own PossDupFlag is replaced, and SecureData with a delimiter in it is
carried over. -/
theorem replay_fidelity_counted : let cfg : SessionConfig := { hooks := .none, allowPosDup := true }
    let payload := fieldsOf ["35=D", "58=x", "90=3", "91=a", "b", "43=N"]
    let frame := fieldsOf ["8=FIX.4.4", "9=67", "35=D", "34=1", "49=US", "52=19700101-00:00:00",
      "56=PEER", "90=3", "91=a", "b", "43=N", "58=x", "10=066"]
    buildSendFrame cfg payload 1 (stampSendingTime (some 0) .seconds) = .ok frame ∧
      ∃ out bytes, buildReplayFrame cfg.hooks frame (stampSendingTime (some 10000000000) .seconds) =
        .ok out ∧ Writer.frame replayBytes out = some bytes := by
  intro cfg payload frame
  have hbuilt : buildSendFrame cfg payload 1 (stampSendingTime (some 0) .seconds) = .ok frame := by
    decide +kernel
  have hkept : (payloadFields cfg.hooks payload.length {} (behindMsgType payload)).all
      (fun fields => decide (PairsKept cfg fields ∧ ReplayKept cfg fields)) = true := by
    decide +kernel
  obtain ⟨-, -, -, out, bytes, hreplay, hframe, -⟩ := replay_fidelity cfg payload frame 1 (some 0)
    10000000000 20000000000 .seconds {} 64 1 (by decide +kernel) hbuilt (fun fields hfields => by
      rw [hfields] at hkept
      exact of_decide_eq_true hkept) (by decide) (by decide)
  exact ⟨hbuilt, out, bytes, hreplay, hframe⟩

/-- A replay of a replay. Its OrigSendingTime is the time of the first replay, and the time the
message was sent is gone. -/
theorem replayed_twice :
    let hooks := .none
    let frame := fieldsOf ["8=FIX.4.4", "9=52", "35=D", "34=1", "49=US", "52=19700101-00:00:00",
      "56=PEER", "55=IBM", "10=096"]
    let bytes := fieldsOf ["8=FIX.4.4", "9=79", "35=D", "34=1", "49=US", "52=19700101-00:00:10",
      "56=PEER", "43=Y", "122=19700101-00:00:00", "55=IBM", "10=143"]
    let bytes' := fieldsOf ["8=FIX.4.4", "9=79", "35=D", "34=1", "49=US", "52=19700101-00:00:20",
      "56=PEER", "43=Y", "122=19700101-00:00:10", "55=IBM", "10=145"]
    let replay := fun stored seconds => (buildReplayFrame hooks stored
      (stampSendingTime (some (seconds * 1000000000)) .seconds)).toOption.bind
        (Writer.frame replayBytes)
    buildSendFrame { hooks := hooks } (fieldsOf ["35=D", "55=IBM"]) 1
        (stampSendingTime (some 0) .seconds) = .ok frame ∧
      replay frame 10 = some bytes ∧ replay bytes 20 = some bytes' := by
  decide +kernel

end Fixpp.Analysis.ReplayFidelity
