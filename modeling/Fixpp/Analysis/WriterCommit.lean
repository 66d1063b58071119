import Fixpp.Model.WriterBuffer
import Fixpp.Analysis.FieldRendering
import Fixpp.Analysis.StrictFraming

/-!
# The writer's frame is one frame

Each append writes its field behind the bytes written so far (`appends_fresh`), and `commit`
leaves the fields with their BodyLength and CheckSum at the start of the buffer
(`commit_appendAll`), a well-formed frame as long as the length of the body fits 32 bits
(`frame_wireFrame`, `committed_wraps`).
-/

namespace Fixpp.Analysis.WriterCommit

open Interface Model Model.Writer List

variable {digits value : Bytes} {n capacity : ℕ}

/-! ## Writes -/

theorem overwrite_append (a b s : Bytes) :
    overwrite (a ++ b) a.length s = a ++ s ++ b.drop s.length := by
  unfold overwrite
  rw [take_left, ← drop_drop, drop_left]

/-- The writer has written `written` into a buffer that was `old`, and had room. -/
structure Wrote (old written : Bytes) (w : State) : Prop where
  dst : w.dst = written ++ old.drop written.length
  pos : w.pos = written.length
  fits : written.length ≤ old.length
  clear : w.overflow = false

/-- The writer behind `bytes`, written behind what it had written. -/
def after (old written bytes : Bytes) (w : State) : State :=
  { w with
    dst := written ++ bytes ++ old.drop (written ++ bytes).length
    pos := (written ++ bytes).length }

def Marks (write : Write) : Prop :=
  ∀ w, (write w).1 = false → (write w).2.overflow = true

/-- A write succeeds when its bytes fit behind what is written, and puts them there. -/
structure Writes (write : Write) (bytes : Bytes) : Prop where
  eq_true : ∀ {old written w w'}, Wrote old written w → (write w = (true, w') ↔
    (written ++ bytes).length ≤ old.length ∧ w' = after old written bytes w)
  marks : Marks write

variable {old written bytes : Bytes} {w w' : State} {first : Field} {rest : List Field}

theorem Wrote.length_dst (h : Wrote old written w) : w.dst.length = old.length := by
  have hfits := h.fits
  rw [h.dst, length_append, length_drop]
  omega

theorem Wrote.after (h : Wrote old written w) (hfits : (written ++ bytes).length ≤ old.length) :
    Wrote old (written ++ bytes) (after old written bytes w) :=
  ⟨rfl, rfl, hfits, h.clear⟩

theorem Wrote.after_nil (h : Wrote old written w) :
    Fixpp.Analysis.WriterCommit.after old written [] w = w := by
  unfold Fixpp.Analysis.WriterCommit.after
  rw [append_nil, ← h.dst, ← h.pos]

theorem writes_of_guard {write : Write} {full : State → Prop} [DecidablePred full]
    (h : ∀ w, write w = if full w then (false, { w with overflow := true })
      else (true, { w with dst := overwrite w.dst w.pos bytes, pos := w.pos + bytes.length }))
    (hfull : ∀ w, w.pos ≤ w.dst.length → (full w ↔ w.dst.length < w.pos + bytes.length)) :
    Writes write bytes := by
  constructor
  · intro old written w w' hw
    have hlen := hw.length_dst
    have hfits := hw.fits
    rw [← hw.pos] at hfits
    have hafter : { w with dst := overwrite w.dst w.pos bytes, pos := w.pos + bytes.length } =
        after old written bytes w := by
      rw [after, hw.dst, hw.pos, overwrite_append, drop_drop, length_append]
    rw [h, hafter, ← Nat.not_lt, length_append, ← hw.pos, ← hlen, ← hfull w (by omega)]
    split
    next hover => simp [hover]
    next hroom => simp [hroom, eq_comm]
  · intro w hfail
    rw [h] at hfail ⊢
    split at hfail
    next hover => rw [if_pos hover]
    · cases hfail

theorem writeByte_writes (b : UInt8) : Writes (writeByte b) [b] :=
  writes_of_guard (fun _ => rfl) fun _ _ => by simp

theorem writeSpan_writes (s : Bytes) : Writes (writeSpan s) s :=
  writes_of_guard (fun _ => rfl) fun _ _ => by omega

theorem writeTagEq_writes (tag : ℕ) : Writes (writeTagEq tag) (renderU32 tag ++ [equalsSign]) := by
  apply @writes_of_guard _ _ fun w => w.pos + (renderU32 tag).length + 1 > w.dst.length
  · intro w
    rw [length_append, length_singleton, ← Nat.add_assoc]
    rfl
  · intro w _
    rw [length_append, length_singleton, ← Nat.add_assoc]

theorem andThen_eq_true {first second : Write} : first.andThen second w = (true, w') ↔
    ∃ w₁, first w = (true, w₁) ∧ second w₁ = (true, w') := by
  unfold Write.andThen
  cases first w with
  | mk ok w₁ => cases ok <;> simp

theorem Marks.andThen {first second : Write} (ha : Marks first) (hb : Marks second) :
    Marks (first.andThen second) := by
  intro w hfail
  have hmark := ha w
  unfold Write.andThen at hfail ⊢
  cases hfirst : first w with
  | mk ok w₁ =>
    rw [hfirst] at hfail hmark
    cases ok with
    | true => exact hb w₁ hfail
    | false => exact hmark rfl

theorem Writes.andThen {first second : Write} {a b : Bytes} (ha : Writes first a)
    (hb : Writes second b) : Writes (first.andThen second) (a ++ b) := by
  refine ⟨?_, ha.marks.andThen hb.marks⟩
  intro old written w w' h
  have hafter : after old (written ++ a) b (after old written a w) =
      after old written (a ++ b) w := by
    simp [after, append_assoc]
  rw [andThen_eq_true, ← append_assoc, ← hafter]
  constructor
  · rintro ⟨w₁, hfirst, hsecond⟩
    obtain ⟨hroom, rfl⟩ := (ha.eq_true h).mp hfirst
    exact (hb.eq_true (h.after hroom)).mp hsecond
  rintro ⟨hfits, heq⟩
  have hroom : (written ++ a).length ≤ old.length := by
    rw [length_append] at hfits
    omega
  exact ⟨_, (ha.eq_true h).mpr ⟨hroom, rfl⟩, (hb.eq_true (h.after hroom)).mpr ⟨hfits, heq⟩⟩

theorem marks_record (f : State → State) : Marks (record f) := fun _ hfail => (nomatch hfail)

theorem andThen_assoc (a b c : Write) : (a.andThen b).andThen c = a.andThen (b.andThen c) := by
  funext w
  unfold Write.andThen
  cases hfirst : a w with
  | mk ok w' => cases ok <;> rfl

theorem writeField_writes (f : Field) : Writes (writeField f) (fieldBytes f) := by
  have h := (writeTagEq_writes f.1).andThen ((writeSpan_writes f.2).andThen (writeByte_writes soh))
  have hbytes : renderU32 f.1 ++ [equalsSign] ++ (f.2 ++ [soh]) = fieldBytes f := by
    simp [fieldBytes]
  rwa [hbytes] at h

theorem writeZeros_writes (n : ℕ) : Writes (writeZeros n) (replicate n 48) := by
  induction n with
  | zero =>
    refine ⟨fun h => ?_, fun _ hfail => (nomatch hfail)⟩
    rw [replicate_zero, h.after_nil, append_nil]
    simp [writeZeros, h.fits, eq_comm]
  | succ n ih => exact (writeByte_writes 48).andThen ih

def slot : Bytes := replicate maxBodyLengthDigits 48 ++ [soh]

def placeholder : Bytes := ascii "9=" ++ slot

/-- The writer behind the first field and the placeholder: the body starts here. -/
def started (old head : Bytes) (w : State) : State :=
  { after old head placeholder w with
    bodyStart := some (head ++ placeholder).length
    blDigitPos := some (head.length + 2)
    blDigitCount := maxBodyLengthDigits }

theorem marks_writePlaceholder : Marks writePlaceholder :=
  (writeByte_writes 57).marks.andThen <| (writeByte_writes equalsSign).marks.andThen <|
    (marks_record _).andThen <| (writeZeros_writes _).marks.andThen <|
    (writeByte_writes soh).marks.andThen <| marks_record _

theorem writePlaceholder_eq_true {head : Bytes} (h : Wrote old head w) :
    writePlaceholder w = (true, w') ↔
      (head ++ placeholder).length ≤ old.length ∧ w' = started old head w := by
  -- `9=` and the zeros are written around a note of where the digits begin
  have hmark := (writeByte_writes 57).andThen (writeByte_writes equalsSign)
  have hrest := (writeZeros_writes maxBodyLengthDigits).andThen (writeByte_writes soh)
  have hassoc : writePlaceholder = ((writeByte 57).andThen (writeByte equalsSign)).andThen
      ((record fun w => { w with
        blDigitPos := some w.pos, blDigitCount := maxBodyLengthDigits }).andThen
      (((writeZeros maxBodyLengthDigits).andThen (writeByte soh)).andThen
        (record fun w => { w with bodyStart := some w.pos }))) := by
    simp only [andThen_assoc]
    rfl
  have hbytes : head ++ placeholder = head ++ ascii "9=" ++ slot := by
    rw [placeholder, append_assoc]
  -- the writer behind the note
  let noted : State := { after old head (ascii "9=") w with
    blDigitPos := some (head ++ ascii "9=").length, blDigitCount := maxBodyLengthDigits }
  have hstarted : started old head w = { after old (head ++ ascii "9=") slot noted with
      bodyStart := some (head ++ ascii "9=" ++ slot).length } := by
    simp only [started, noted, after, hbytes, length_append]
    rfl
  have hrecord : ∀ {f : State → State} {w w'}, record f w = (true, w') ↔ f w = w' := by
    simp [record]
  rw [hassoc, hbytes, hstarted, andThen_eq_true]
  simp only [@andThen_eq_true _ _ (record _), @andThen_eq_true _ _ _ (record _), hrecord]
  constructor
  · rintro ⟨w₁, hmarked, w₂, rfl, w₃, hdigits, rfl⟩
    obtain ⟨hroom, rfl⟩ := (hmark.eq_true h).mp hmarked
    have hnoted : Wrote old (head ++ ascii "9=") noted := ⟨rfl, rfl, hroom, h.clear⟩
    obtain ⟨hfits, rfl⟩ := (hrest.eq_true hnoted).mp hdigits
    exact ⟨hfits, rfl⟩
  rintro ⟨hfits, rfl⟩
  have hroom : (head ++ ascii "9=").length ≤ old.length := by
    rw [length_append] at hfits
    omega
  have hnoted : Wrote old (head ++ ascii "9=") noted := ⟨rfl, rfl, hroom, h.clear⟩
  exact ⟨_, (hmark.eq_true h).mpr ⟨hroom, rfl⟩, _, rfl, _,
    (hrest.eq_true hnoted).mpr ⟨hfits, rfl⟩, rfl⟩

/-! ## Appends -/

theorem appendRaw_overflow (h : w.overflow = true) (f : Field) : appendRaw f w = (false, w) := by
  unfold appendRaw
  rw [if_pos h]

theorem marks_appendRaw (f : Field) : Marks (appendRaw f) := by
  intro w hfail
  unfold appendRaw at hfail ⊢
  split at hfail
  next hover =>
    rw [if_pos hover]
    exact hover
  rename_i hclear
  rw [if_neg hclear]
  split at hfail
  next hnone =>
    rw [if_pos hnone]
    exact (writeField_writes f).marks.andThen marks_writePlaceholder w hfail
  next hsome =>
  rw [if_neg hsome]
  exact (writeField_writes f).marks w hfail

theorem appendAll_cons (f : Field) (fields : List Field) (w : State) :
    appendAll (f :: fields) w = ((appendRaw f w).1 :: (appendAll fields (appendRaw f w).2).1,
      (appendAll fields (appendRaw f w).2).2) := rfl

variable (fields : List Field)

theorem appendAll_overflow (h : w.overflow = true) :
    appendAll fields w = (replicate fields.length false, w) := by
  induction fields with
  | nil => rfl
  | cons f fields ih =>
    rw [appendAll_cons, appendRaw_overflow h, ih]
    rfl

theorem commit_overflow (h : w.overflow = true) : commit w = .error .wireFieldValueTruncated := by
  unfold commit
  rw [if_pos h]

def Appends (fields : List Field) (w w' : State) : Prop :=
  false ∉ (appendAll fields w).1 ∧ (appendAll fields w).2 = w'

theorem appends_cons {f : Field} : Appends (f :: fields) w w' ↔
    ∃ w₁, appendRaw f w = (true, w₁) ∧ Appends fields w₁ w' := by
  unfold Appends
  rw [appendAll_cons]
  cases appendRaw f w with
  | mk ok w₁ => cases ok <;> simp

theorem appends_rest (h : Wrote old written w) (hstarted : w.bodyStart ≠ none) :
    Appends fields w w' ↔ (written ++ fields.flatMap fieldBytes).length ≤ old.length ∧
      w' = after old written (fields.flatMap fieldBytes) w := by
  induction fields generalizing written w with
  | nil =>
    rw [flatMap_nil, append_nil, h.after_nil]
    simp [Appends, appendAll, h.fits, eq_comm]
  | cons f fields ih =>
    have hraw : appendRaw f w = writeField f w := by
      unfold appendRaw
      rw [h.clear, if_neg Bool.false_ne_true, if_neg hstarted]
    have hafter : after old (written ++ fieldBytes f) (fields.flatMap fieldBytes)
        (after old written (fieldBytes f) w) =
          after old written ((f :: fields).flatMap fieldBytes) w := by
      simp [after, append_assoc, flatMap_cons]
    rw [appends_cons, hraw, ← hafter, flatMap_cons, ← append_assoc]
    constructor
    · rintro ⟨w₁, hfirst, hrest⟩
      obtain ⟨hroom, rfl⟩ := ((writeField_writes f).eq_true h).mp hfirst
      exact (ih (h.after hroom) hstarted).mp hrest
    rintro ⟨hfits, heq⟩
    have hroom : (written ++ fieldBytes f).length ≤ old.length := by
      rw [length_append] at hfits
      omega
    exact ⟨_, ((writeField_writes f).eq_true h).mpr ⟨hroom, rfl⟩,
      (ih (h.after hroom) hstarted).mpr ⟨hfits, heq⟩⟩

def draft (first : Field) (rest : List Field) : Bytes :=
  fieldBytes first ++ placeholder ++ rest.flatMap fieldBytes

def drafted (old : Bytes) (first : Field) (rest : List Field) : State :=
  { dst := draft first rest ++ old.drop (draft first rest).length
    pos := (draft first rest).length
    bodyStart := some (fieldBytes first ++ placeholder).length
    blDigitCount := maxBodyLengthDigits
    blDigitPos := some ((fieldBytes first).length + 2) }

theorem appends_fresh (old : Bytes) (first : Field) (rest : List Field) :
    Appends (first :: rest) { dst := old } w ↔
      (draft first rest).length ≤ old.length ∧ w = drafted old first rest := by
  have h : Wrote old [] { dst := old } := ⟨rfl, rfl, Nat.zero_le _, rfl⟩
  have hraw : appendRaw first { dst := old } =
      ((writeField first).andThen writePlaceholder) { dst := old } := rfl
  have hwrote (hroom : (fieldBytes first ++ placeholder).length ≤ old.length) :
      Wrote old (fieldBytes first ++ placeholder) (started old (fieldBytes first)
        (after old [] (fieldBytes first) { dst := old })) := ⟨rfl, rfl, hroom, rfl⟩
  simp only [appends_cons, hraw, andThen_eq_true]
  constructor
  · rintro ⟨w₁, ⟨w₀, hfield, hplace⟩, hrest⟩
    obtain ⟨hfirst, rfl⟩ := ((writeField_writes first).eq_true h).mp hfield
    obtain ⟨hroom, rfl⟩ := (writePlaceholder_eq_true (h.after hfirst)).mp hplace
    exact (appends_rest rest (hwrote hroom) (Option.some_ne_none _)).mp hrest
  rintro ⟨hfits, heq⟩
  have hroom : (fieldBytes first ++ placeholder).length ≤ old.length := by
    rw [draft, length_append] at hfits
    omega
  have hfirst : (fieldBytes first).length ≤ old.length := by
    rw [length_append] at hroom
    omega
  exact ⟨_, ⟨_, ((writeField_writes first).eq_true h).mpr ⟨hfirst, rfl⟩,
    (writePlaceholder_eq_true (h.after hfirst)).mpr ⟨hroom, rfl⟩⟩,
    (appends_rest rest (hwrote hroom) (Option.some_ne_none _)).mpr ⟨hfits, heq⟩⟩

theorem appendAll_failed (w : State) {i : ℕ} (h : (appendAll fields w).1[i]? = some false) :
    (∀ j, i < j → ∀ ok, (appendAll fields w).1[j]? = some ok → ok = false) ∧
      commit (appendAll fields w).2 = .error .wireFieldValueTruncated := by
  induction fields generalizing w i with
  | nil => cases h
  | cons f fields ih =>
    rw [appendAll_cons] at h ⊢
    cases i with
    | zero =>
      have hmark := marks_appendRaw f w (Option.some.inj h)
      rw [appendAll_overflow fields hmark]
      refine ⟨?_, commit_overflow hmark⟩
      intro j hj ok hget
      obtain ⟨k, rfl⟩ : ∃ k, j = k + 1 := ⟨j - 1, by omega⟩
      exact eq_of_mem_replicate (mem_of_getElem? hget)
    | succ i =>
      obtain ⟨hlater, hcommit⟩ := ih (appendRaw f w).2 h
      refine ⟨?_, hcommit⟩
      intro j hj ok' hget
      obtain ⟨k, rfl⟩ : ∃ k, j = k + 1 := ⟨j - 1, by omega⟩
      exact hlater k (by omega) ok' hget

/-! ## The commit -/

theorem patched_body (mark body tail : Bytes) (hdigits : renderU32 n = digits)
    (hsmall : digits.length ≤ maxBodyLengthDigits) :
    ∃ leftover, patchBodyLength (overwrite (mark ++ slot ++ body ++ tail)
        (mark.length + (digits.length + 1)) body) mark.length n =
          mark ++ digits ++ [soh] ++ body ++ leftover ∧
      leftover.length = maxBodyLengthDigits - digits.length + tail.length := by
  have hslot : slot.length = maxBodyLengthDigits + 1 := rfl
  obtain ⟨kept, gone, hsplit, hkept⟩ : ∃ kept gone, slot = kept ++ gone ∧
      kept.length = digits.length + 1 :=
    ⟨_, _, (take_append_drop _ _).symm, length_take_of_le (Nat.succ_le_succ hsmall)⟩
  rw [hsplit, length_append, hkept] at hslot
  refine ⟨(gone ++ (body ++ tail)).drop body.length, ?_, ?_⟩
  · rw [← hkept, ← length_append, hsplit, ← append_assoc mark, append_assoc _ body,
      append_assoc _ gone, overwrite_append, patchBodyLength, hdigits, append_assoc mark,
      append_assoc mark, overwrite_append, length_append, length_singleton,
      ← hkept, append_assoc kept, drop_left]
    simp
  · simp only [length_drop, length_append]
    omega

/-- `commit` on a draft, with the parts of the buffer named: too long a body or too short
a buffer is refused, and else the frame is at the start of the buffer. -/
theorem commit_parts {mark body tail : Bytes} {w : State}
    (hw : w = { dst := mark ++ slot ++ body ++ tail, pos := (mark ++ slot ++ body).length
                bodyStart := some (mark ++ slot).length, blDigitCount := maxBodyLengthDigits
                blDigitPos := some mark.length }) :
    let digits := renderU32 (body.length % u32Limit)
    let bytes := mark ++ digits ++ [soh] ++ body
    ∃ rest, commit w = if digits.length > maxBodyLengthDigits then .error .wireFrameTooLarge
      else if bytes.length + 7 > w.dst.length then .error .wireFieldValueTruncated
      else .ok (bytes.length + 7, bytes ++ (ascii "10=" ++ checksumDigits bytes ++ [soh]) ++ rest) := by
  intro digits bytes
  have hsix : maxBodyLengthDigits = 6 := rfl
  have hstart : (mark ++ slot).length = mark.length + 7 := length_append
  have hpos : (mark ++ slot ++ body).length = mark.length + 7 + body.length := by
    rw [length_append, hstart]
  have hbytes : bytes.length = mark.length + digits.length + 1 + body.length := by
    simp only [bytes, length_append, length_singleton]
  have hdst : w.dst.length = mark.length + 7 + body.length + tail.length := by
    rw [hw, length_append, hpos]
  have hslice : ((mark ++ slot ++ body ++ tail).drop (mark.length + 7)).take body.length = body := by
    rw [← hstart, append_assoc (mark ++ slot), drop_left, take_left]
  rw [hw, commit]
  dsimp only
  rw [if_neg Bool.false_ne_true, hstart, hpos, if_neg (by omega), Nat.add_sub_cancel_left, hslice,
    if_neg (by omega : ¬mark.length + 7 < maxBodyLengthDigits - digits.length)]
  by_cases hlarge : digits.length > maxBodyLengthDigits
  · rw [if_pos hlarge]
    exact ⟨[], (if_pos hlarge).symm⟩
  -- a body that stays where it is may as well be copied onto itself
  have hmoved : (if maxBodyLengthDigits - digits.length > 0 then
      overwrite (mark ++ slot ++ body ++ tail)
        (mark.length + 7 - (maxBodyLengthDigits - digits.length)) body
      else mark ++ slot ++ body ++ tail) =
        overwrite (mark ++ slot ++ body ++ tail) (mark.length + (digits.length + 1)) body := by
    split
    · congr 1
      omega
    rw [show mark.length + (digits.length + 1) = (mark ++ slot).length by omega,
      append_assoc _ body, overwrite_append, drop_left, append_assoc _ body]
  obtain ⟨leftover, hbuffer, hleft⟩ := patched_body mark body tail
    (show renderU32 _ = digits from rfl) (not_lt.mp hlarge)
  have hend : mark.length + 7 + body.length - (maxBodyLengthDigits - digits.length) =
      bytes.length := by omega
  have hlen : (bytes ++ leftover).length = w.dst.length := by
    rw [length_append, hbytes, hleft, hdst]
    omega
  rw [if_neg hlarge, hmoved, hbuffer, hend, appendChecksum, hlen, hw, take_left, overwrite_append]
  exact ⟨_, (if_neg hlarge).symm⟩

/-- The bytes in front of the CheckSum: the digits of the BodyLength, cast to 32 bits,
take the place of the zeros. -/
def summed (first : Field) (rest : List Field) : Bytes :=
  fieldBytes first ++ ascii "9=" ++ renderU32 ((rest.flatMap fieldBytes).length % u32Limit) ++
    [soh] ++ rest.flatMap fieldBytes

theorem commit_drafted (hfits : (draft first rest).length ≤ old.length) :
    let digits := renderU32 ((rest.flatMap fieldBytes).length % u32Limit)
    let bytes := summed first rest
    ∃ tail, commit (drafted old first rest) =
      if digits.length > maxBodyLengthDigits then .error .wireFrameTooLarge
      else if bytes.length + 7 > old.length then .error .wireFieldValueTruncated
      else .ok (bytes.length + 7, bytes ++ (ascii "10=" ++ checksumDigits bytes ++ [soh]) ++ tail) := by
  have hslot : fieldBytes first ++ placeholder = fieldBytes first ++ ascii "9=" ++ slot := by
    rw [placeholder, append_assoc]
  have hmark : (fieldBytes first ++ ascii "9=").length = (fieldBytes first).length + 2 :=
    length_append
  have hdst : (drafted old first rest).dst.length = old.length := by
    unfold drafted
    rw [length_append, length_drop]
    omega
  rw [← hdst]
  apply @commit_parts _ _ (old.drop (draft first rest).length)
  unfold drafted draft
  rw [hslot, hmark]

/-- The appends and the commit of a message whose body is shorter than 4 GiB succeed when there is a
frame for the size of the buffer, and the buffer then begins with it. -/
theorem commit_appendAll (hbody : (rest.flatMap fieldBytes).length < u32Limit) {oks : List Bool}
    (h : appendAll (first :: rest) { dst := old } = (oks, w)) :
    (∀ bytes, Writer.frame old.length (first :: rest) = some bytes →
        false ∉ oks ∧ ∃ tail, commit w = .ok (bytes.length, bytes ++ tail)) ∧
      (Writer.frame old.length (first :: rest) = none →
        false ∈ oks ∨ ∃ code, commit w = .error code) := by
  have hdraft : (draft first rest).length = (fieldBytes first).length + 3 + maxBodyLengthDigits +
      (rest.flatMap fieldBytes).length := by
    simp only [draft, placeholder, slot, length_append, length_replicate,
      length_singleton, show (ascii "9=").length = 2 from rfl]
    omega
  have hsummed : summed first rest = fieldBytes first ++ ascii "9=" ++
      renderU32 (rest.flatMap fieldBytes).length ++ [soh] ++ rest.flatMap fieldBytes := by
    rw [summed, Nat.mod_eq_of_lt hbody]
  have happends (w' : State) := @appends_fresh w' old first rest
  simp only [Appends, h] at happends
  unfold Writer.frame
  dsimp only
  rw [← hdraft, ← hsummed]
  by_cases hfits : (draft first rest).length ≤ old.length
  · obtain ⟨hall, rfl⟩ := (happends _).mpr ⟨hfits, rfl⟩
    obtain ⟨tail, hcommit⟩ := @commit_drafted old first rest hfits
    rw [Nat.mod_eq_of_lt hbody] at hcommit
    rw [if_neg (by omega), hcommit]
    split
    · exact ⟨fun bytes hbytes => (nomatch hbytes), fun _ => .inr ⟨_, rfl⟩⟩
    split
    · exact ⟨fun bytes hbytes => (nomatch hbytes), fun _ => .inr ⟨_, rfl⟩⟩
    refine ⟨fun bytes hbytes => ⟨hall, tail, ?_⟩, fun hbytes => (nomatch hbytes)⟩
    cases hbytes
    simp only [append_assoc, length_append, length_singleton,
      show (ascii "10=").length = 3 from rfl,
      show ∀ b, (checksumDigits b).length = 3 from fun _ => rfl]
  · rw [if_pos (by omega)]
    refine ⟨fun bytes hbytes => (nomatch hbytes), fun _ => .inl ?_⟩
    by_contra hall
    exact hfits ((happends w).mp ⟨hall, rfl⟩).1

/-! ## The frame -/

theorem checksumDigits_eq (bytes : Bytes) :
    checksumDigits bytes = [digitByte (checksum bytes / 100), digitByte (checksum bytes / 10 % 10),
      digitByte (checksum bytes % 10)] := rfl

theorem checksum_lt (bytes : Bytes) : checksum bytes < 256 := Nat.mod_lt _ (by decide)

theorem isDigit_of_mem_checksumDigits {b : UInt8} (h : b ∈ checksumDigits bytes) :
    isDigit b = true := by
  have hlt := checksum_lt bytes
  rw [checksumDigits_eq] at h
  simp only [mem_cons, not_mem_nil, or_false] at h
  rcases h with rfl | rfl | rfl
  · exact isDigit_digitByte (by omega)
  · exact isDigit_digitByte (by omega)
  · exact isDigit_digitByte (by omega)

theorem decimal_checksumDigits (bytes : Bytes) :
    decimal (checksumDigits bytes) = checksum bytes := by
  have hlt := checksum_lt bytes
  rw [checksumDigits_eq]
  simp only [decimal, foldl_cons, foldl_nil]
  rw [digitValue_digitByte (by omega), digitValue_digitByte (by omega),
    digitValue_digitByte (by omega)]
  omega

theorem frame_eq_some (h : Writer.frame capacity (first :: rest) = some bytes) :
    let summed := fieldBytes first ++ ascii "9=" ++ renderU32 (rest.flatMap fieldBytes).length ++
      [soh] ++ rest.flatMap fieldBytes
    bytes = summed ++ ascii "10=" ++ checksumDigits summed ++ [soh] := by
  unfold Writer.frame at h
  dsimp only at h
  split at h
  · cases h
  split at h
  · cases h
  split at h
  · cases h
  · exact (Option.some.inj h).symm

/-- The fields of a written frame: the appended ones, with the BodyLength behind the first
and the CheckSum at the end. -/
theorem frame_eq_fields (h : Writer.frame capacity (first :: rest) = some bytes) :
    ∃ summed : Bytes, bytes = (first :: (9, renderU32 (rest.flatMap fieldBytes).length) :: rest ++
        [(10, checksumDigits summed)]).flatMap fieldBytes ∧
      summed = fieldBytes first ++ ascii "9=" ++ renderU32 (rest.flatMap fieldBytes).length ++
        [soh] ++ rest.flatMap fieldBytes := by
  refine ⟨_, (frame_eq_some h).trans ?_, rfl⟩
  simp [cons_append, flatMap_cons, flatMap_append, flatMap_nil, fieldBytes_nine, fieldBytes_ten, append_nil, append_assoc]

theorem exists_content (h : rest ≠ []) : ∃ content, rest.flatMap fieldBytes = content ++ [soh] := by
  obtain ⟨init, last, rfl⟩ := eq_nil_or_concat rest |>.resolve_left h
  refine ⟨init.flatMap fieldBytes ++ (renderU32 last.1 ++ equalsSign :: last.2), ?_⟩
  simp [fieldBytes]

theorem exists_wireFrame (content : Bytes) (hclean : ∀ b ∈ value, b ≠ soh) :
    let bytes := ascii "8=" ++ value ++ [soh] ++
      (ascii "9=" ++ renderU32 (content ++ [soh]).length ++ [soh]) ++ (content ++ [soh])
    ∃ f : WireFrame, f.bytes = bytes ++ (ascii "10=" ++ checksumDigits bytes ++ [soh]) := by
  intro bytes
  exact ⟨{
    beginString := value
    lengthDigits := renderU32 (content ++ [soh]).length
    content := content
    checkDigits := checksumDigits bytes
    begin_clean := hclean
    length_nonempty := renderU32_ne_nil _
    length_digits := fun b hb => isDigit_of_mem_renderU32 hb
    length_counts := by rw [decimal_renderU32, length_append, length_singleton]
    check_three := rfl
    check_digits := fun b hb => isDigit_of_mem_checksumDigits hb
    check_sums := decimal_checksumDigits bytes }, rfl⟩

theorem frame_wireFrame (h : Writer.frame capacity ((8, value) :: rest) = some bytes)
    (hclean : ∀ b ∈ value, b ≠ soh) (hrest : rest ≠ []) : ∃ f : WireFrame, f.bytes = bytes := by
  obtain ⟨content, hcontent⟩ := exists_content hrest
  obtain ⟨f, hf⟩ := exists_wireFrame content hclean
  refine ⟨f, ?_⟩
  rw [hf, frame_eq_some h, fieldBytes_eight, hcontent]
  simp

theorem clean_of_digits (h : ∀ b ∈ digits, isDigit b = true) :
    ∀ b ∈ digits, b ≠ soh := fun b hb => (ne_of_isDigit (h b hb)).2

/-- A body of 4 GiB and five bytes: the cast leaves 5 for the BodyLength, every call
succeeds, and the framer refuses the bytes. -/
theorem committed_wraps {size : ℕ} (hn : 3 ≤ n) (hwrap : (n + 4) % u32Limit = 5)
    (hsize : n + 18 ≤ size) {limit : ℕ} (hlimit : limit < StrictFramer.sizeLimit)
    (hfive : 19 ≤ limit) : let fields : List Field := [(8, []), (58, replicate n 65)]
    let run := appendAll fields { dst := replicate size 0 }
    false ∉ run.1 ∧ ∃ count buffer, commit run.2 = .ok (count, buffer) ∧
      StrictFramer.parseFrame limit (buffer.take count) = .error .wireInvalidBodyLength := by
  intro fields run
  have hbody : [((58, replicate n 65) : Field)].flatMap fieldBytes =
      ascii "58=" ++ replicate n 65 ++ [soh] := by
    simp [fieldBytes, show renderU32 58 = [53, 56] by decide, ascii, equalsSign]
  have hlenBody : ([((58, replicate n 65) : Field)].flatMap fieldBytes).length = n + 4 := by
    rw [hbody]
    simp [ascii]
  have hfirst : fieldBytes ((8, []) : Field) = ascii "8=" ++ [soh] := by decide
  have hdraft : (draft (8, []) [(58, replicate n 65)]).length = n + 16 := by
    rw [draft, length_append, length_append, hlenBody, hfirst]
    simp [placeholder, slot, ascii, maxBodyLengthDigits]
    omega
  have hdigits : renderU32 ((n + 4) % u32Limit) = ascii "5" := by
    rw [hwrap]
    decide
  have hsummed : summed (8, []) [(58, replicate n 65)] =
      ascii "8=" ++ [] ++ [soh] ++ (ascii "9=" ++ ascii "5" ++ [soh]) ++
        (ascii "58=" ++ replicate n 65 ++ [soh]) := by
    rw [summed, hlenBody, hdigits, hfirst, hbody]
    simp
  have hlenSummed : (summed (8, []) [(58, replicate n 65)]).length = n + 11 := by
    rw [hsummed]
    simp [ascii]
  have hsizeDst : (replicate size (0 : UInt8)).length = size := length_replicate
  have hfits : (draft (8, []) [(58, replicate n 65)]).length ≤
      (replicate size (0 : UInt8)).length := by
    rw [hdraft, hsizeDst]
    omega
  obtain ⟨hall, hrun⟩ := (appends_fresh _ _ _).mpr ⟨hfits, rfl⟩
  obtain ⟨tail, hcommit⟩ := commit_drafted hfits
  rw [hlenBody, hdigits, hsizeDst, hlenSummed, if_neg (by decide), if_neg (by omega), ← hrun]
    at hcommit
  refine ⟨hall, _, _, hcommit, ?_⟩
  set trailer := ascii "10=" ++ checksumDigits (summed (8, []) [(58, replicate n 65)]) ++ [soh]
    with htrailer
  have htake : n + 11 + 7 = (summed (8, []) [(58, replicate n 65)] ++ trailer).length := by
    rw [length_append, hlenSummed]
    rfl
  obtain ⟨m, rfl⟩ : ∃ m, n = 3 + m := ⟨n - 3, by omega⟩
  have hrest : ascii "58=" ++ replicate (3 + m) 65 ++ [soh] ++ trailer =
      53 :: 56 :: equalsSign :: 65 :: 65 :: 65 :: (replicate m 65 ++ ([soh] ++ trailer)) := by
    rw [← replicate_append_replicate]
    simp only [append_assoc]
    rfl
  rw [htake, take_left, hsummed, append_assoc, ← FrameParsing.headOf,
    FrameParsing.parseFrame_eq (by simp) (by decide), if_neg (by decide),
    FrameParsing.readBodyLength_of_le hlimit (by decide) (by
      rw [← decimal, show decimal (ascii "5") = 5 by decide]
      omega)]
  rw [← decimal, show decimal (ascii "5") = 5 by decide, hrest]
  dsimp only
  rw [if_neg (by decide), if_neg (by omega)]
  have hlenTrailer : trailer.length = 7 := rfl
  unfold StrictFramer.parseTail
  simp only [length_append, length_cons, length_replicate, hlenTrailer, length_nil]
  rw [if_neg (by omega), if_neg (by omega), if_neg (by omega)]
  rfl

end Fixpp.Analysis.WriterCommit
