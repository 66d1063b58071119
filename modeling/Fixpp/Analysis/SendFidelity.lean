import Fixpp.Analysis.WriterCommit
import Fixpp.Foundation.Chains
import Fixpp.Model.LengthPairs
import Fixpp.Model.SendingTime

/-!
# Outgoing application frames

`build_send_frame_` walks the caller's payload, takes the PossDup fields out and moves the
header fields to the front. A counted Data value moves with its Length (`settled_sent`). A Length
that counts nothing in the payload must not get its Data tag as its neighbour in the frame
(`PairsKept`), as it does in `moved_length_counts`.
-/

namespace Fixpp.Model

def PayloadField.value (f : PayloadField) : Bytes :=
  (f.bytes.drop ((Writer.renderU32 f.tag).length + 1)).dropLast

def PayloadField.field (f : PayloadField) : Field := (f.tag, f.value)

theorem PayloadField.field_eq {f : PayloadField} {value : Bytes}
    (h : f.bytes = Writer.fieldBytes (f.tag, value)) : f.field = (f.tag, value) := by
  have hvalue : f.value = value := by
    unfold PayloadField.value
    rw [h, Writer.fieldBytes, List.append_assoc, ← List.drop_drop, List.drop_left,
      List.cons_append, List.drop_succ_cons, List.drop_zero, List.dropLast_concat]
  rw [field, hvalue]

def behindMsgType (payload : Bytes) : Bytes :=
  payload.drop ((payload.takeWhile (· ≠ soh)).length + 1)

end Fixpp.Model

namespace Fixpp.Analysis.SendFidelity

open Foundation Interface Model Model.Writer PayloadField List
open Analysis.WriterCommit

/-! ## Values without a delimiter -/

theorem clean_append {a b : Bytes} (ha : ∀ c ∈ a, c ≠ soh) (hb : ∀ c ∈ b, c ≠ soh) :
    ∀ c ∈ a ++ b, c ≠ soh := forall_mem_append.mpr ⟨ha, hb⟩

theorem isDigit_of_mem_writeDigits {value width : ℕ} {b : UInt8} (h : b ∈ writeDigits value width) :
    isDigit b = true := by
  induction width generalizing value with
  | zero => cases h
  | succ width ih =>
    rw [writeDigits, mem_append, mem_singleton] at h
    rcases h with hin | rfl
    · exact ih hin
    · exact isDigit_digitByte (Nat.mod_lt _ (by decide))

theorem clean_writeDigits (value width : ℕ) : ∀ c ∈ writeDigits value width, c ≠ soh :=
  clean_of_digits fun _ => isDigit_of_mem_writeDigits

theorem clean_stampSendingTime (clock : Option ℤ) (prec : FixTimePrecision) :
    ∀ c ∈ stampSendingTime clock prec, c ≠ soh := by
  cases clock with
  | none => exact fun c hc => nomatch hc
  | some now =>
    have hfraction : ∀ value width, ∀ c ∈ ascii "." ++ writeDigits value width, c ≠ soh :=
      fun value width => clean_append (by decide) (clean_writeDigits value width)
    refine clean_append (clean_append (clean_append (clean_append (clean_append (clean_append
      (clean_append (clean_append (clean_append ?_ ?_) ?_) ?_) ?_) ?_) ?_) ?_) ?_) ?_
    all_goals first | exact clean_writeDigits _ _ | decide | skip
    cases prec with
    | seconds => exact fun c hc => nomatch hc
    | millis => exact hfraction _ _
    | micros => exact hfraction _ _
    | nanos => exact hfraction _ _

theorem clean_of_allowed {value : Bytes} (h : containsForbiddenConfigByte value = false) :
    ∀ c ∈ value, c ≠ soh := by
  rintro c hc rfl
  rw [containsForbiddenConfigByte, any_eq_false] at h
  exact h soh hc (by decide)

/-! ## The walk over the payload -/

variable {hooks : DictHooks} {carry : LengthDataCarry} {fields : List PayloadField}
  {f : PayloadField} {cfg : SessionConfig} {msgType digits sendingTime checks payload : Bytes}
  {seq : ℕ}

theorem scanField_ok {carry' : LengthDataCarry} {bytes rest v : Bytes} {tag : ℕ}
    (h : scanField hooks carry bytes = (.ok (tag, v), rest, carry'))
    (hend : bytes.getLast? = some soh) :
    bytes = fieldBytes (tag, v) ++ rest ∧ (0 < tag ∧ tag ≤ tagMax) ∧ EndsRight carry (tag, v) ∧
      carry' = carry.next hooks (tag, v) := by
  have happend : (bytes.span fun b => b ≠ equalsSign ∧ b ≠ soh).1 ++
      (bytes.span fun b => b ≠ equalsSign ∧ b ≠ soh).2 = bytes := by
    rw [span_eq_takeWhile_dropWhile]
    exact takeWhile_append_dropWhile
  unfold scanField at h
  dsimp only at h
  split at h
  · cases h
  rename_i b value hsplit
  rw [hsplit] at happend
  split at h
  · cases h
  rename_i heq
  rw [not_not] at heq
  split at h
  · split at h <;> cases h
  rename_i tag' htag
  split at h
  · cases h
  rename_i v' rest' carry'' hvalue
  cases h
  obtain ⟨hpos, htagMax, hdigits⟩ := parseOutboundTag_iff.mp htag
  obtain ⟨hvalues, hends, hrest, hcarry⟩ := readValue_iff.mp hvalue
  refine ⟨?_, ⟨hpos, htagMax⟩, hends, hcarry⟩
  have hsoh : rest' = soh :: rest'.drop 1 := by
    rcases hrest with ⟨rfl, hplain⟩ | ⟨tail, rfl⟩
    · -- The last byte of the bytes would stand in the value or be the equals sign.
      have hlast := mem_of_getLast? hend
      rw [← happend, hdigits, heq, ← hvalues, append_nil, mem_append, mem_cons] at hlast
      rcases hlast with hdigit | heqs | hv
      · exact absurd (isDigit_of_mem_renderU32 hdigit) (by decide)
      · exact absurd heqs (by decide)
      rw [EndsRight, if_neg hplain] at hends
      exact absurd rfl (hends soh hv)
    · rfl
  rw [← happend, hdigits, heq, ← hvalues, fieldBytes_append, ← hsoh]

/-- What a walk over a payload finds: fields as the writer writes them, none of them the
session's own, each marked as counted when the field before is its Length. -/
def Walked (hooks : DictHooks) : LengthDataCarry → List PayloadField → Prop
  | _, [] => True
  | carry, f :: rest =>
    (f.bytes = fieldBytes f.field ∧ (0 < f.tag ∧ f.tag ≤ tagMax) ∧ f.tag ∉ refusedTags) ∧
      f.counted = decide (carry.dataTag ≠ 0 ∧ carry.dataTag = f.tag) ∧
      EndsRight carry f.field ∧ Walked hooks (carry.next hooks f.field) rest

theorem payloadFields_walked {fuel : ℕ} {bytes : Bytes}
    (h : payloadFields hooks fuel carry bytes = some fields)
    (hend : bytes ≠ [] → bytes.getLast? = some soh) :
    Walked hooks carry fields ∧ fields.flatMap PayloadField.bytes = bytes := by
  induction fuel generalizing carry bytes fields with
  | zero =>
    cases bytes with
    | nil =>
      cases h
      exact ⟨trivial, rfl⟩
    | cons b bytes => cases h
  | succ fuel ih =>
    cases bytes with
    | nil =>
      cases h
      exact ⟨trivial, rfl⟩
    | cons b bytes =>
      unfold payloadFields at h
      split at h
      next tag value rest carry' hscan =>
        obtain ⟨hbytes, htag, hends, hcarry⟩ := scanField_ok hscan (hend (by simp))
        split at h
        · cases h
        rename_i hfield
        rw [not_or] at hfield
        have htake : (b :: bytes).take ((b :: bytes).length - rest.length) =
            fieldBytes (tag, value) := by
          rw [hbytes, length_append, Nat.add_sub_cancel, take_left]
        rw [htake] at h
        obtain ⟨later, hlater, rfl⟩ := Option.map_eq_some_iff.mp h
        obtain ⟨hwalk, hrest⟩ := ih hlater fun hne => by
          have hlast := hend (by simp)
          rwa [hbytes, getLast?_append_of_ne_nil _ hne] at hlast
        have hfieldEq : field
            { tag := tag, bytes := fieldBytes (tag, value),
              counted := decide (carry.dataTag ≠ 0 ∧ carry.dataTag = tag) } =
            (tag, value) := field_eq rfl
        refine ⟨⟨⟨?_, htag, hfield.2⟩, rfl, ?_, ?_⟩, ?_⟩
        · rw [hfieldEq]
        · rwa [hfieldEq]
        · rwa [hfieldEq, ← hcarry]
        · rw [flatMap_cons, hrest, ← hbytes]
      · cases h

theorem Walked.of_mem (h : Walked hooks carry fields) (hf : f ∈ fields) :
    f.bytes = fieldBytes f.field ∧ (0 < f.tag ∧ f.tag ≤ tagMax) ∧ f.tag ∉ refusedTags ∧
      (f.counted = false → ∀ b ∈ f.value, b ≠ soh) := by
  induction fields generalizing carry with
  | nil => cases hf
  | cons g fields ih =>
    obtain ⟨⟨hbytes, htag, hallowed⟩, hcounted, hends, hrest⟩ := h
    rcases mem_cons.mp hf with rfl | hin
    · refine ⟨hbytes, htag, hallowed, fun huncounted => ?_⟩
      rw [hcounted] at huncounted
      rwa [EndsRight, if_neg (show ¬(carry.dataTag ≠ 0 ∧ carry.dataTag = f.field.1) from
        of_decide_eq_false huncounted)] at hends
    · exact ih hrest hin

theorem Walked.readable (h : Walked hooks carry fields) :
    Readable hooks carry (fields.map field) := by
  induction fields generalizing carry with
  | nil => trivial
  | cons f fields ih =>
    obtain ⟨⟨-, htag, -⟩, -, hends, hrest⟩ := h
    exact ⟨htag.2, hends, ih hrest⟩

theorem flatMap_bytes (h : ∀ f ∈ fields, f.bytes = fieldBytes f.field) :
    fields.flatMap bytes = (fields.map field).flatMap fieldBytes := by
  rw [flatMap_map]
  exact flatMap_congr h

/-! ## Moving the fields -/

def headerFields (cfg : SessionConfig) (fields : List PayloadField) : List PayloadField :=
  ((withHeaderClass cfg false fields).filter fun f => f.1 && !excised cfg f.2).map (·.2)

def otherFields (cfg : SessionConfig) (fields : List PayloadField) : List PayloadField :=
  ((withHeaderClass cfg false fields).filter fun f => !f.1 && !excised cfg f.2).map (·.2)

theorem partitionFields_eq (cfg : SessionConfig) (fields : List PayloadField) :
    partitionFields cfg fields =
      (headerFields cfg fields ++ otherFields cfg fields).flatMap bytes := by
  unfold partitionFields headerFields otherFields
  dsimp only
  rw [filter_filter, filter_filter, ← map_append, flatMap_map]

theorem map_withHeaderClass (cfg : SessionConfig) (prev : Bool) (fields : List PayloadField) :
    (withHeaderClass cfg prev fields).map (·.2) = fields := by
  induction fields generalizing prev with
  | nil => rfl
  | cons f fields ih => rw [withHeaderClass, map_cons, ih]

theorem mem_of_mem_filter_class {p : Bool × PayloadField → Bool}
    (h : f ∈ ((withHeaderClass cfg false fields).filter p).map (·.2)) : f ∈ fields := by
  obtain ⟨x, hx, rfl⟩ := mem_map.mp h
  have hmem := mem_map_of_mem (f := (·.2)) (mem_of_mem_filter hx)
  rwa [map_withHeaderClass] at hmem

theorem mem_of_mem_sent (h : f ∈ headerFields cfg fields ++ otherFields cfg fields) :
    f ∈ fields := by
  rcases mem_append.mp h with hin | hin
  · exact mem_of_mem_filter_class hin
  · exact mem_of_mem_filter_class hin

def NothingCounted (cfg : SessionConfig) (f g : PayloadField) : Prop :=
  excised cfg f = true → g.counted = false

theorem isChain_withHeaderClass (prev : Bool)
    (hwalk : Walked cfg.hooks (carry.next cfg.hooks f.field) fields)
    (hnothing : (f :: fields).IsChain (NothingCounted cfg)) :
    ((prev, f) :: withHeaderClass cfg prev fields).IsChain fun x y =>
      y.2.counted = true →
        Follows cfg.hooks x.2.field y.2.field ∧ x.1 = y.1 ∧ excised cfg x.2 = false := by
  induction fields generalizing carry prev f with
  | nil => exact .singleton _
  | cons g fields ih =>
    obtain ⟨-, hcounted, hends, hrest⟩ := hwalk
    obtain ⟨hg, htail⟩ := isChain_cons_cons.mp hnothing
    rw [withHeaderClass, isChain_cons_cons]
    refine ⟨fun hc => ⟨endsRight_next.mp hends, ?_, ?_⟩, ih _ hrest htail⟩
    · exact (if_pos hc).symm
    cases hex : excised cfg f with
    | false => rfl
    | true => exact absurd (hg hex) (by rw [hc]; decide)

/-- Each counted Data value stands behind a field that counts it. -/
def Settled (hooks : DictHooks) (fields : List PayloadField) : Prop :=
  Anchored (fun f g => Follows hooks f.field g.field) (fun g => g.counted = true) fields

theorem settled_pass (hwalk : Walked cfg.hooks {} fields)
    (hnothing : fields.IsChain (NothingCounted cfg)) (pass : Bool → Bool) :
    Settled cfg.hooks (((withHeaderClass cfg false fields).filter fun f =>
      pass f.1 && !excised cfg f.2).map (·.2)) := by
  refine .map (.filter ?_)
  cases fields with
  | nil => exact .nil
  | cons f fields =>
    obtain ⟨-, hcounted, -, hrest⟩ := hwalk
    rw [withHeaderClass, Anchored.cons_iff]
    refine ⟨fun hc => ?_, (isChain_withHeaderClass _ hrest hnothing).imp fun x y hxy hc => ?_⟩
    · -- The first field is not counted.
      rw [hcounted] at hc
      exact absurd rfl (of_decide_eq_true hc).1
    obtain ⟨hfollows, hclass, hkept⟩ := hxy hc
    refine ⟨hfollows, fun hy => ?_⟩
    rw [Bool.and_eq_true] at hy ⊢
    exact ⟨hclass ▸ hy.1, by rw [hkept]; rfl⟩

/-- A counted Data value stays behind its Length. -/
theorem settled_sent (hwalk : Walked cfg.hooks {} fields)
    (hnothing : fields.IsChain (NothingCounted cfg)) :
    Settled cfg.hooks (headerFields cfg fields ++ otherFields cfg fields) :=
  .append (settled_pass hwalk hnothing id) (settled_pass hwalk hnothing not)

/-! ## The frame -/

def plainField (f : Field) : PayloadField := { tag := f.1, bytes := fieldBytes f, counted := false }

@[simp] theorem field_plainField (f : Field) : (plainField f).field = f := field_eq rfl

theorem settled_plainFields (fields : List Field) : Settled hooks (fields.map plainField) := by
  refine .of_forall_not fun f hf => ?_
  obtain ⟨g, -, rfl⟩ := mem_map.mp hf
  exact Bool.false_ne_true

/-- The tags of a frame in their order, each with whether the payload has a counted Data
value there: the session's own in front, what is sent of the payload, the CheckSum. -/
def frameMarks (front : List ℕ) (sent : List PayloadField) : List (ℕ × Bool) :=
  front.map (·, false) ++ sent.map (fun f => (f.tag, f.counted)) ++ [(10, false)]

def PairCounted (hooks : DictHooks) (x y : ℕ × Bool) : Prop :=
  hooks x.1 ≠ 0 → hooks x.1 = y.1 → y.2 = true

/-- No Length is taken out in front of the Data it counts, and no field gets behind a Length with
its tag that did not stand there in the payload. -/
def PairsKept (cfg : SessionConfig) (fields : List PayloadField) : Prop :=
  fields.IsChain (NothingCounted cfg) ∧ (frameMarks [8, 9, 35, 34, 49, 52, 56]
      (headerFields cfg fields ++ otherFields cfg fields)).IsChain (PairCounted cfg.hooks)

instance (cfg : SessionConfig) : DecidableRel (NothingCounted cfg) := fun f g =>
  inferInstanceAs (Decidable (excised cfg f = true → g.counted = false))

instance (hooks : DictHooks) : DecidableRel (PairCounted hooks) := fun x y =>
  inferInstanceAs (Decidable (hooks x.1 ≠ 0 → hooks x.1 = y.1 → y.2 = true))

instance (cfg : SessionConfig) (fields : List PayloadField) : Decidable (PairsKept cfg fields) :=
  inferInstanceAs (Decidable (_ ∧ _))

theorem isChain_follows (hsettled : Settled hooks fields)
    (hmarks : (fields.map fun f => (f.tag, f.counted)).IsChain (PairCounted hooks))
    (hclean : ∀ f ∈ fields, f.counted = false → ∀ b ∈ f.value, b ≠ soh) :
    (fields.map field).IsChain (Follows hooks) := by
  rw [isChain_map] at hmarks ⊢
  refine (isChain_and hsettled.chain hmarks).imp_of_mem_imp fun f g _ hg hfg => ?_
  obtain ⟨hfollows, hmark⟩ := hfg
  cases hc : g.counted with
  | true => exact hfollows hc
  | false =>
    have hnot : ¬(hooks f.tag ≠ 0 ∧ hooks f.tag = g.tag) := by
      rintro ⟨hne, heq⟩
      have htrue := hmark hne heq
      rw [hc] at htrue
      cases htrue
    unfold Follows EndsRight
    rw [if_neg (show ¬((LengthDataCarry.next hooks {} f.field).dataTag ≠ 0 ∧
      (LengthDataCarry.next hooks {} f.field).dataTag = g.field.1) from hnot)]
    exact hclean g hg hc

def sessionFields (cfg : SessionConfig) (msgType digits sendingTime : Bytes) (seq : ℕ) :
    List Field :=
  [(8, cfg.beginString), (9, digits), (35, msgType), (34, renderU32 seq), (49, cfg.senderCompId),
    (52, sendingTime), (56, cfg.targetCompId)]

theorem clean_texts (h : cfg.textsAllowed = true) :
    (∀ b ∈ cfg.beginString, b ≠ soh) ∧ (∀ b ∈ cfg.senderCompId, b ≠ soh) ∧
      ∀ b ∈ cfg.targetCompId, b ≠ soh := by
  simp only [SessionConfig.textsAllowed, Bool.not_eq_true', Bool.or_eq_false_iff] at h
  exact ⟨clean_of_allowed h.2, clean_of_allowed h.1.1, clean_of_allowed h.1.2⟩

theorem clean_sessionFields (htexts : cfg.textsAllowed = true) (hmsgType : ∀ b ∈ msgType, b ≠ soh)
    (hdigits : ∀ b ∈ digits, b ≠ soh) (htime : ∀ b ∈ sendingTime, b ≠ soh) :
    ∀ f ∈ sessionFields cfg msgType digits sendingTime seq, ∀ b ∈ f.2, b ≠ soh := by
  obtain ⟨hbegin, hsender, htarget⟩ := clean_texts htexts
  simp only [sessionFields, forall_mem_cons]
  exact ⟨hbegin, hdigits, hmsgType, clean_of_digits fun _ => isDigit_of_mem_renderU32, hsender,
    htime, htarget, fun f hf => nomatch hf⟩

theorem readable_framed {first : Field} {front : List Field} {sent : List PayloadField}
    (hfront : ∀ f ∈ first :: front, f.1 ≤ tagMax ∧ ∀ b ∈ f.2, b ≠ soh)
    (hsent : ∀ f ∈ sent, f.tag ≤ tagMax ∧ (f.counted = false → ∀ b ∈ f.value, b ≠ soh))
    (hchecks : ∀ b ∈ checks, b ≠ soh) (hsettled : Settled hooks sent)
    (hmarks : (frameMarks ((first :: front).map (·.1)) sent).IsChain (PairCounted hooks)) :
    Readable hooks {} (first :: front ++ sent.map field ++ [(10, checks)]) := by
  -- The frame as payload fields, so that the marks are at hand.
  let marked := (first :: front).map plainField ++ (sent ++ [plainField (10, checks)])
  have hfields : marked.map field =
      first :: front ++ sent.map field ++ [(10, checks)] := by
    simp [marked, Function.comp_def]
  have hmarked : marked.map (fun f => (f.tag, f.counted)) =
      frameMarks ((first :: front).map (·.1)) sent := by
    simp [marked, frameMarks, plainField]
  have hchained : Settled hooks marked :=
    (settled_plainFields (first :: front)).append
      (hsettled.append (settled_plainFields [(10, checks)]))
  have hplain : ∀ f : Field, f.1 ≤ tagMax ∧ (∀ b ∈ f.2, b ≠ soh) → (plainField f).tag ≤ tagMax ∧
        ((plainField f).counted = false → ∀ b ∈ (plainField f).value, b ≠ soh) := by
    intro f hf
    refine ⟨hf.1, fun _ => ?_⟩
    rw [show (plainField f).value = f.2 from congrArg (·.2) (field_plainField f)]
    exact hf.2
  have hmem : ∀ f ∈ marked, f.tag ≤ tagMax ∧ (f.counted = false → ∀ b ∈ f.value, b ≠ soh) := by
    intro f hf
    rcases mem_append.mp hf with hin | hin
    · obtain ⟨g, hg, rfl⟩ := mem_map.mp hin
      exact hplain g (hfront g hg)
    rcases mem_append.mp hin with hin | hin
    · exact hsent f hin
    rw [mem_singleton] at hin
    subst hin
    exact hplain (10, checks) ⟨show 10 ≤ tagMax by decide, hchecks⟩
  have hchain := isChain_follows hchained (by rw [hmarked]; exact hmarks) fun f hf => (hmem f hf).2
  rw [← hfields]
  refine readable_cons_iff.mpr ⟨?_, ?_, hchain⟩
  · intro g hg
    obtain ⟨f, hf, rfl⟩ := mem_map.mp (show g ∈ marked.map field from hg)
    exact (hmem f hf).1
  · rw [field_plainField]
    exact (hfront first mem_cons_self).2

theorem readable_sent (hwalk : Walked cfg.hooks {} fields) (hkept : PairsKept cfg fields)
    (hsession : ∀ f ∈ sessionFields cfg msgType digits sendingTime seq, ∀ b ∈ f.2, b ≠ soh)
    (hchecks : ∀ b ∈ checks, b ≠ soh) :
    Readable cfg.hooks {} (sessionFields cfg msgType digits sendingTime seq ++
      (headerFields cfg fields ++ otherFields cfg fields).map field ++
      [(10, checks)]) := by
  have htags : ∀ f ∈ sessionFields cfg msgType digits sendingTime seq, f.1 ≤ tagMax := by
    simp [sessionFields, tagMax]
  refine readable_framed (fun f hf => ⟨htags f hf, hsession f hf⟩) (fun f hf => ?_) hchecks
    (settled_sent hwalk hkept.1) hkept.2
  obtain ⟨-, htag, -, hclean⟩ := hwalk.of_mem (mem_of_mem_sent hf)
  exact ⟨htag.2, hclean⟩

theorem fieldBytes_msgType (value : Bytes) : fieldBytes (35, value) = ascii "35=" ++ value ++ [soh] :=
  fieldBytes_eq (by decide) value

theorem payload_eq (hlead : ascii "35=" <+: payload) (hlast : payload.getLast? = some soh) :
    ∃ msgType : Bytes, payload.takeWhile (· ≠ soh) = ascii "35=" ++ msgType ∧
      (∀ b ∈ msgType, b ≠ soh) ∧ payload = fieldBytes (35, msgType) ++ behindMsgType payload := by
  obtain ⟨tail, rfl⟩ := hlead
  have htext : (ascii "35=" ++ tail).takeWhile (· ≠ soh) =
      ascii "35=" ++ tail.takeWhile (· ≠ soh) :=
    takeWhile_append_of_pos (by decide)
  refine ⟨tail.takeWhile (· ≠ soh), htext, ?_, ?_⟩
  · intro b hb
    have htaken := mem_takeWhile_imp hb
    exact of_decide_eq_true htaken
  have hsplit := append_of_splitValue (ascii "35=" ++ tail)
  have hclean := not_soh_of_splitValue (ascii "35=" ++ tail)
  have hfirst : (splitValue (ascii "35=" ++ tail)).1 = ascii "35=" ++ tail.takeWhile (· ≠ soh) := by
    rw [← htext, splitValue, span_eq_takeWhile_dropWhile]
  rcases rest_of_splitValue (ascii "35=" ++ tail) with hnil | ⟨rest, hcons⟩
  · rw [hnil, append_nil] at hsplit
    rw [hsplit] at hclean
    exact absurd rfl (hclean soh (mem_of_getLast? hlast))
  rw [hcons, hfirst] at hsplit
  have hbehind : behindMsgType (ascii "35=" ++ tail) = rest := by
    unfold behindMsgType
    rw [htext, ← hsplit, ← drop_drop, drop_left]
    rfl
  rw [hbehind, fieldBytes_msgType, ← hsplit]
  simp

theorem buildSendFrame_ok {frame : Bytes}
    (h : buildSendFrame cfg payload seq sendingTime = .ok frame) :
    ∃ (msgType : Bytes) (fields : List PayloadField),
      (∀ b ∈ msgType, b ≠ soh) ∧ payload = fieldBytes (35, msgType) ++ behindMsgType payload ∧
      payloadFields cfg.hooks payload.length {} (behindMsgType payload) = some fields ∧
      (behindMsgType payload ≠ [] → (behindMsgType payload).getLast? = some soh) ∧
      frame.length ≤ sendFrameBytes ∧
      frame = sendFrame cfg (fieldBytes (35, msgType) ++ stampedField "34=" (renderU32 seq) ++
        stampedField "49=" cfg.senderCompId ++ stampedField "52=" sendingTime ++
        stampedField "56=" cfg.targetCompId ++ partitionFields cfg fields) := by
  unfold buildSendFrame at h
  dsimp only at h
  split at h
  · cases h
  rename_i hshape
  rw [not_or, not_or, Bool.not_eq_false, not_not] at hshape
  obtain ⟨hlead, hlast, -⟩ := hshape
  obtain ⟨msgType, htext, hclean, hpayload⟩ :=
    payload_eq (List.isPrefixOf_iff_prefix.mp hlead) hlast
  split at h
  · cases h
  rename_i fields hfields
  split at h
  · cases h
  rename_i hsize
  rw [not_or, not_or, Nat.not_lt, Nat.not_lt, Nat.not_lt] at hsize
  have hbehind : payload.drop ((payload.takeWhile (· ≠ soh)) ++ [soh]).length =
      behindMsgType payload := by
    rw [length_append, length_singleton]
    rfl
  rw [hbehind] at hfields
  cases h
  refine ⟨msgType, fields, hclean, hpayload, hfields, fun hne => ?_, hsize.2.2, ?_⟩
  · rwa [hpayload, getLast?_append_of_ne_nil _ hne] at hlast
  · rw [htext, fieldBytes_msgType]

/-- The fields that the BodyLength of a frame counts. -/
def bodyFields (cfg : SessionConfig) (msgType sendingTime : Bytes) (seq : ℕ)
    (fields : List PayloadField) : List Field :=
  [(35, msgType), (34, renderU32 seq), (49, cfg.senderCompId), (52, sendingTime),
    (56, cfg.targetCompId)] ++
    (headerFields cfg fields ++ otherFields cfg fields).map field

theorem stampedField_eq {tag : ℕ} {text : String} (h : renderU32 tag ++ [equalsSign] = ascii text)
    (value : Bytes) : stampedField text value = fieldBytes (tag, value) :=
  (fieldBytes_eq h value).symm

theorem flatMap_bodyFields (hwalk : Walked cfg.hooks {} fields) :
    fieldBytes (35, msgType) ++ stampedField "34=" (renderU32 seq) ++
      stampedField "49=" cfg.senderCompId ++ stampedField "52=" sendingTime ++
      stampedField "56=" cfg.targetCompId ++ partitionFields cfg fields =
    (bodyFields cfg msgType sendingTime seq fields).flatMap fieldBytes := by
  have hsent : ∀ f ∈ headerFields cfg fields ++ otherFields cfg fields,
      f.bytes = fieldBytes f.field := fun f hf => (hwalk.of_mem (mem_of_mem_sent hf)).1
  rw [partitionFields_eq, flatMap_bytes hsent,
    stampedField_eq (show renderU32 34 ++ [equalsSign] = ascii "34=" by decide),
    stampedField_eq (show renderU32 49 ++ [equalsSign] = ascii "49=" by decide),
    stampedField_eq (show renderU32 52 ++ [equalsSign] = ascii "52=" by decide),
    stampedField_eq (show renderU32 56 ++ [equalsSign] = ascii "56=" by decide)]
  simp only [bodyFields, flatMap_append, flatMap_cons, flatMap_nil, append_nil, append_assoc]

theorem sendFrame_eq (cfg : SessionConfig) (body : List Field) :
    ∃ digits checks : Bytes, (∀ b ∈ digits, b ≠ soh) ∧ (∀ b ∈ checks, b ≠ soh) ∧
      sendFrame cfg (body.flatMap fieldBytes) =
        ((8, cfg.beginString) :: (9, digits) :: body ++ [(10, checks)]).flatMap fieldBytes := by
  refine ⟨renderU32 (body.flatMap fieldBytes).length,
    checksumDigits (stampedField "8=" cfg.beginString ++
      stampedField "9=" (renderU32 (body.flatMap fieldBytes).length) ++ body.flatMap fieldBytes),
    clean_of_digits fun _ => isDigit_of_mem_renderU32,
    clean_of_digits fun _ => isDigit_of_mem_checksumDigits, ?_⟩
  simp [sendFrame, stampedField, cons_append, flatMap_cons, flatMap_append, flatMap_nil, append_nil, fieldBytes_eight, fieldBytes_nine, fieldBytes_ten, append_assoc]

theorem sendFrame_wireFrame {body : List Field} (hbody : body ≠ [])
    (hclean : ∀ b ∈ cfg.beginString, b ≠ soh) :
    ∃ f : WireFrame, f.bytes = sendFrame cfg (body.flatMap fieldBytes) := by
  obtain ⟨content, hcontent⟩ := exists_content hbody
  obtain ⟨f, hf⟩ := exists_wireFrame content hclean
  refine ⟨f, ?_⟩
  rw [hf, hcontent]
  rfl

end Fixpp.Analysis.SendFidelity
